/-
What a parse still has to do. The parser keeps no call stack: what waits for a part of the tree is a
`Pending` value, a chain that ends at the program, and what is being looked for is a `Task` on top
of it. How deep a source may nest is therefore bounded by memory alone, and the state of a parse at
a token is a value that can be reasoned about.

The chain is indexed by the part it waits for, so a task can only ever hand over a part of the right
kind.
-/
import Lox.StaticError
import Lox.Syntax

namespace Lox.Parse

/-- The binary operators' levels of precedence, loosest first. -/
inductive Level
  | or | and | equality | comparison | term | factor
  deriving DecidableEq

namespace Level

/-- The next tighter level; none is tighter than `factor`, whose operands are prefix expressions. -/
def tighter? : Level → Option Level
  | or => some and
  | and => some equality
  | equality => some comparison
  | comparison => some term
  | term => some factor
  | factor => none

/-- Is the kind one of the level's operators? -/
def admits : Level → Kind → Bool
  | or, .or => true
  | and, .and => true
  | equality, .bangEqual => true
  | equality, .equalEqual => true
  | comparison, .greater => true
  | comparison, .greaterEqual => true
  | comparison, .less => true
  | comparison, .lessEqual => true
  | term, .minus => true
  | term, .plus => true
  | factor, .slash => true
  | factor, .star => true
  | _, _ => false

/-- The node of an operator of the level: `or` and `and` decide whether their right side is
evaluated at all. -/
def join : Level → Expr → Token → Expr → Expr
  | or, left, op, right => .logical left op right
  | and, left, op, right => .logical left op right
  | _, left, op, right => .binary left op right

end Level

/-- The parts of a program a parse can wait for. -/
inductive Part
  | expression
  | statement
  | function
  /-- The statements between two braces. -/
  | body

/-- What waits for a part, innermost first. -/
inductive Pending : Part → Type
  /-- The left side of a possible assignment. -/
  | assignment (k : Pending .expression) : Pending .expression
  /-- The value of an assignment to `target`. -/
  | assigned (target : Expr) (equals : Token) (k : Pending .expression) : Pending .expression
  /-- An operand that operators of the level may follow. -/
  | operators (level : Level) (k : Pending .expression) : Pending .expression
  | rightOperand (level : Level) (left : Expr) (op : Token) (k : Pending .expression) :
    Pending .expression
  /-- The operand of a prefix operator. -/
  | operand (op : Token) (k : Pending .expression) : Pending .expression
  /-- An expression that calls and property names may follow. -/
  | trailers (k : Pending .expression) : Pending .expression
  /-- The next argument of a call, after those in `done`, newest first. -/
  | argument (callee : Expr) (done : List Expr) (k : Pending .expression) : Pending .expression
  | group (k : Pending .expression) : Pending .expression
  | initializer (name : Token) (k : Pending .statement) : Pending .expression
  | ifTest (k : Pending .statement) : Pending .expression
  | whileTest (k : Pending .statement) : Pending .expression
  | printed (k : Pending .statement) : Pending .expression
  | returned (keyword : Token) (k : Pending .statement) : Pending .expression
  | expressionStatement (k : Pending .statement) : Pending .expression
  | forTest (initializer : Option Stmt) (k : Pending .statement) : Pending .expression
  | forStep (initializer : Option Stmt) (test : Option Expr) (k : Pending .statement) :
    Pending .expression
  /-- The program's next declaration, after those in `done`, newest first. -/
  | program (done : List Stmt) : Pending .statement
  /-- The next declaration between braces, after those in `done`, newest first. -/
  | declarations (done : List Stmt) (k : Pending .body) : Pending .statement
  | thenBranch (condition : Expr) (k : Pending .statement) : Pending .statement
  | elseBranch (condition : Expr) (thenBranch : Stmt) (k : Pending .statement) :
    Pending .statement
  | whileBody (condition : Expr) (k : Pending .statement) : Pending .statement
  | forInitializer (k : Pending .statement) : Pending .statement
  | forBody (initializer : Option Stmt) (test step : Option Expr) (k : Pending .statement) :
    Pending .statement
  | block (k : Pending .statement) : Pending .body
  | functionBody (name : Token) (params : List Token) (k : Pending .function) : Pending .body
  | declared (k : Pending .statement) : Pending .function
  /-- The next method of a class, after those in `done`, newest first. -/
  | method (className : Token) (done : List Function) (k : Pending .statement) :
    Pending .function

/-- What the parse does next, and what waits for it. -/
inductive Task
  | program (done : List Stmt)
  | declarations (done : List Stmt) (k : Pending .body)
  | declaration (k : Pending .statement)
  | className (k : Pending .statement)
  | classOpen (name : Token) (k : Pending .statement)
  | methods (className : Token) (done : List Function) (k : Pending .statement)
  | callableName (c : Callable) (k : Pending .function)
  | callableOpen (c : Callable) (name : Token) (k : Pending .function)
  | parameters (c : Callable) (name : Token) (k : Pending .function)
  /-- One more parameter after those in `done`, newest first. -/
  | parameter (c : Callable) (name : Token) (done : List Token) (k : Pending .function)
  | parameterEnd (c : Callable) (name : Token) (done : List Token) (k : Pending .function)
  | callableBody (c : Callable) (name : Token) (params : List Token) (k : Pending .function)
  | variableName (k : Pending .statement)
  | variableValue (name : Token) (k : Pending .statement)
  | statement (k : Pending .statement)
  | forOpen (k : Pending .statement)
  | forInitializer (k : Pending .statement)
  | forTest (initializer : Option Stmt) (k : Pending .statement)
  | forStep (initializer : Option Stmt) (test : Option Expr) (k : Pending .statement)
  | ifOpen (k : Pending .statement)
  | whileOpen (k : Pending .statement)
  | returnValue (keyword : Token) (k : Pending .statement)
  | expression (k : Pending .expression)
  | level (l : Level) (k : Pending .expression)
  | unary (k : Pending .expression)
  | primary (k : Pending .expression)
  | arguments (callee : Expr) (k : Pending .expression)
  /-- One more argument after those in `done`, newest first. -/
  | argument (callee : Expr) (done : List Expr) (k : Pending .expression)
  | property (object : Expr) (k : Pending .expression)
  | giveExpression (e : Expr) (k : Pending .expression)
  | giveStatement (s : Stmt) (k : Pending .statement)
  | giveFunction (f : Function) (k : Pending .function)
  | giveBody (body : List Stmt) (k : Pending .body)
  /-- A missing token was found; what waits is given up until a list of declarations. -/
  | fail (e : StaticError) {p : Part} (k : Pending p)
  | finished (program : List Stmt)

end Lox.Parse
