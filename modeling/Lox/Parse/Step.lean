/-
The steps of a parse. A step looks at the next token only, and takes it or leaves it.

Errors come in two sorts. A missing token gives up the declaration it is in: the parse goes back to
the innermost list of declarations, skips to a place where a declaration may start, and goes on
there. A fault that leaves no doubt about the tree (an assignment to something that cannot be
assigned to, one parameter or argument too many) is noted, and nothing is given up.
-/
import Lox.Parse.Pending

namespace Lox.Parse

/-- The greatest number of parameters and of arguments. -/
def maxArity : Nat := 255

/-- A parse under way: the tokens not yet taken, the token that ends the source, the next free
reference id, and the errors noted so far, newest first. -/
structure State where
  task : Task
  rest : List Token
  eof : Token
  nextId : Nat
  errors : List StaticError

/-- May a token of this kind start a declaration or statement that a skip stops before? -/
def startsDeclaration : Kind → Bool
  | .class | .fun | .var | .for | .if | .while | .print | .return => true
  | _ => false

/-- The tokens from the first place after `previous` where a declaration may start: behind a
semicolon, or before a word that starts one. -/
def skipAfter (previous : Token) : List Token → List Token
  | [] => []
  | t :: ts =>
    if previous.kind = .semicolon || startsDeclaration t.kind then t :: ts else skipAfter t ts

/-- The tokens that are left when the next token is given up. -/
def synchronize : List Token → List Token
  | [] => []
  | t :: ts => skipAfter t ts

/-- A `for` loop is a `while` loop: the step runs after the body, the initializer before the loop,
and without a test the loop goes on. -/
def forLoop (initializer : Option Stmt) (test step : Option Expr) (body : Stmt) : Stmt :=
  let body :=
    match step with
    | some step => .block [body, .expression step]
    | none => body
  let loop := .while (test.getD (.literal (.bool true))) body
  match initializer with
  | some initializer => .block [initializer, loop]
  | none => loop

namespace State

/-- The next token. -/
def next (s : State) : Token := s.rest.headD s.eof

/-- The category of the next token. -/
def look (s : State) : Kind :=
  match s.rest with
  | t :: _ => t.kind
  | [] => .eof

/-- Goes on with another task at the same token. -/
def goTo (s : State) (task : Task) : State := { s with task }

/-- Goes on with another task behind the next token. -/
def take (s : State) (task : Task) : State := { s with task, rest := s.rest.tail }

/-- Notes an error at the next token. -/
def note (s : State) (fault : SyntaxFault) : State :=
  { s with errors := .syntactic s.next fault :: s.errors }

/-- Gives up at the next token. -/
def missing (s : State) (what : Expected) {p : Part} (k : Pending p) : State :=
  s.goTo (.fail (.syntactic s.next (.expected what)) k)

/-- Takes the next token, which has to be of the given kind. -/
def require (s : State) (kind : Kind) (what : Expected) {p : Part} (k : Pending p)
    (task : Token → Task) : State :=
  match s.rest with
  | t :: _ => if t.kind = kind then s.take (task t) else s.missing what k
  | [] => s.missing what k

/-- Takes the next token if it is of the given kind. -/
def branch (s : State) (kind : Kind) (taken : Token → Task) (left : Task) : State :=
  match s.rest with
  | t :: _ => if t.kind = kind then s.take (taken t) else s.goTo left
  | [] => s.goTo left

/-- Makes a variable of an identifier. -/
def reference (s : State) (name : Token) (k : Pending .expression) : State :=
  { s with
    task := .giveExpression (.variable s.nextId name) k
    rest := s.rest.tail
    nextId := s.nextId + 1 }

/-- Makes an assignment of its two sides: to a name, or to a property. Any other left side is noted
and stands for the whole. -/
def assign (s : State) (target : Expr) (equals : Token) (value : Expr) (k : Pending .expression) :
    State :=
  match target with
  | .variable _ name =>
    { s with
      task := .giveExpression (.assign s.nextId name value) k
      nextId := s.nextId + 1 }
  | .get object name => s.goTo (.giveExpression (.set object name value) k)
  | target =>
    { s with
      task := .giveExpression target k
      errors := .syntactic equals .invalidAssignmentTarget :: s.errors }

/-- The task of an operand of the level. -/
def operandTask (l : Level) (k : Pending .expression) : Task :=
  match l.tighter? with
  | some l => .level l k
  | none => .unary k

/-- Starts a declaration. -/
def declaration (s : State) (k : Pending .statement) : State :=
  match s.look with
  | .class => s.take (.className k)
  | .fun => s.take (.callableName .function (.declared k))
  | .var => s.take (.variableName k)
  | _ => s.goTo (.statement k)

/-- Starts a statement. -/
def statement (s : State) (k : Pending .statement) : State :=
  match s.look with
  | .for => s.take (.forOpen k)
  | .if => s.take (.ifOpen k)
  | .print => s.take (.expression (.printed k))
  | .return => s.take (.returnValue s.next k)
  | .while => s.take (.whileOpen k)
  | .leftBrace => s.take (.declarations [] (.block k))
  | _ => s.goTo (.expression (.expressionStatement k))

/-- Starts the first clause of a `for` loop. -/
def forInitializer (s : State) (k : Pending .statement) : State :=
  match s.look with
  | .semicolon => s.take (.forTest none k)
  | .var => s.take (.variableName (.forInitializer k))
  | _ => s.goTo (.expression (.expressionStatement (.forInitializer k)))

/-- Starts a prefix expression. -/
def unary (s : State) (k : Pending .expression) : State :=
  match s.look with
  | .bang => s.take (.unary (.operand s.next k))
  | .minus => s.take (.unary (.operand s.next k))
  | _ => s.goTo (.primary (.trailers k))

/-- Starts an expression that nothing needs to be looked for in front of. -/
def primary (s : State) (k : Pending .expression) : State :=
  match s.look with
  | .false => s.take (.giveExpression (.literal (.bool false)) k)
  | .true => s.take (.giveExpression (.literal (.bool true)) k)
  | .nil => s.take (.giveExpression (.literal .nil) k)
  | .number x => s.take (.giveExpression (.literal (.number x)) k)
  | .string text => s.take (.giveExpression (.literal (.string text)) k)
  | .identifier => s.reference s.next k
  | .leftParen => s.take (.expression (.group k))
  | _ => s.missing .expression k

/-- Looks for what may follow a called or named expression. -/
def trailers (s : State) (e : Expr) (k : Pending .expression) : State :=
  match s.look with
  | .leftParen => s.take (.arguments e (.trailers k))
  | .dot => s.take (.property e (.trailers k))
  | _ => s.goTo (.giveExpression e k)

/-- Hands an expression to what waits for it. -/
def giveExpression (s : State) (e : Expr) : Pending .expression → State
  | .assignment k =>
    s.branch .equal (fun equals => .expression (.assigned e equals k)) (.giveExpression e k)
  | .assigned target equals k => s.assign target equals e k
  | .operators l k =>
    if l.admits s.look then s.take (operandTask l (.rightOperand l e s.next k))
    else s.goTo (.giveExpression e k)
  | .rightOperand l left op k => s.goTo (.giveExpression (l.join left op e) (.operators l k))
  | .operand op k => s.goTo (.giveExpression (.unary op e) k)
  | .trailers k => s.trailers e k
  | .argument callee done k =>
    match s.look with
    | .comma => s.take (.argument callee (e :: done) k)
    | _ =>
      s.require .rightParen .argumentsClose k fun paren =>
        .giveExpression (.call callee paren (e :: done).reverse) k
  | .group k => s.require .rightParen .groupClose k fun _ => .giveExpression (.group e) k
  | .initializer name k =>
    s.require .semicolon .variableEnd k fun _ => .giveStatement (.var name (some e)) k
  | .ifTest k => s.require .rightParen .ifClose k fun _ => .statement (.thenBranch e k)
  | .whileTest k => s.require .rightParen .whileClose k fun _ => .statement (.whileBody e k)
  | .printed k => s.require .semicolon .printEnd k fun _ => .giveStatement (.print e) k
  | .returned keyword k =>
    s.require .semicolon .returnEnd k fun _ => .giveStatement (.return keyword (some e)) k
  | .expressionStatement k =>
    s.require .semicolon .expressionEnd k fun _ => .giveStatement (.expression e) k
  | .forTest initializer k =>
    s.require .semicolon .forConditionEnd k fun _ => .forStep initializer (some e) k
  | .forStep initializer test k =>
    s.require .rightParen .forClose k fun _ =>
      .statement (.forBody initializer test (some e) k)

/-- Hands a statement to what waits for it. -/
def giveStatement (s : State) (stmt : Stmt) : Pending .statement → State
  | .program done => s.goTo (.program (stmt :: done))
  | .declarations done k => s.goTo (.declarations (stmt :: done) k)
  | .thenBranch condition k =>
    s.branch .else (fun _ => .statement (.elseBranch condition stmt k))
      (.giveStatement (.if condition stmt none) k)
  | .elseBranch condition thenBranch k =>
    s.goTo (.giveStatement (.if condition thenBranch (some stmt)) k)
  | .whileBody condition k => s.goTo (.giveStatement (.while condition stmt) k)
  | .forInitializer k => s.goTo (.forTest (some stmt) k)
  | .forBody initializer test step k =>
    s.goTo (.giveStatement (forLoop initializer test step stmt) k)

/-- Hands a function to what waits for it. -/
def giveFunction (s : State) (f : Function) : Pending .function → State
  | .declared k => s.goTo (.giveStatement (.function f) k)
  | .method className done k => s.goTo (.methods className (f :: done) k)

/-- Hands the statements between braces to what waits for them. -/
def giveBody (s : State) (body : List Stmt) : Pending .body → State
  | .block k => s.goTo (.giveStatement (.block body) k)
  | .functionBody name params k => s.goTo (.giveFunction ⟨name, params, body⟩ k)

/-- Gives up what waits, up to the innermost list of declarations, which goes on behind the
tokens that are skipped. -/
def fail (s : State) (e : StaticError) : {p : Part} → Pending p → State
  | _, .program done =>
    { s with task := .program done, rest := synchronize s.rest, errors := e :: s.errors }
  | _, .declarations done k =>
    { s with task := .declarations done k, rest := synchronize s.rest, errors := e :: s.errors }
  | _, .assignment k => s.goTo (.fail e k)
  | _, .assigned _ _ k => s.goTo (.fail e k)
  | _, .operators _ k => s.goTo (.fail e k)
  | _, .rightOperand _ _ _ k => s.goTo (.fail e k)
  | _, .operand _ k => s.goTo (.fail e k)
  | _, .trailers k => s.goTo (.fail e k)
  | _, .argument _ _ k => s.goTo (.fail e k)
  | _, .group k => s.goTo (.fail e k)
  | _, .initializer _ k => s.goTo (.fail e k)
  | _, .ifTest k => s.goTo (.fail e k)
  | _, .whileTest k => s.goTo (.fail e k)
  | _, .printed k => s.goTo (.fail e k)
  | _, .returned _ k => s.goTo (.fail e k)
  | _, .expressionStatement k => s.goTo (.fail e k)
  | _, .forTest _ k => s.goTo (.fail e k)
  | _, .forStep _ _ k => s.goTo (.fail e k)
  | _, .thenBranch _ k => s.goTo (.fail e k)
  | _, .elseBranch _ _ k => s.goTo (.fail e k)
  | _, .whileBody _ k => s.goTo (.fail e k)
  | _, .forInitializer k => s.goTo (.fail e k)
  | _, .forBody _ _ _ k => s.goTo (.fail e k)
  | _, .block k => s.goTo (.fail e k)
  | _, .functionBody _ _ k => s.goTo (.fail e k)
  | _, .declared k => s.goTo (.fail e k)
  | _, .method _ _ k => s.goTo (.fail e k)

/-- One step. A finished parse stays as it is. -/
def step (s : State) : State :=
  match s.task with
  | .program done =>
    match s.rest with
    | [] => s.goTo (.finished done.reverse)
    | _ :: _ => s.goTo (.declaration (.program done))
  | .declarations done k =>
    match s.rest with
    | [] => s.missing .blockClose k
    | t :: _ =>
      if t.kind = .rightBrace then s.take (.giveBody done.reverse k)
      else s.goTo (.declaration (.declarations done k))
  | .declaration k => s.declaration k
  | .className k => s.require .identifier .className k fun name => .classOpen name k
  | .classOpen name k => s.require .leftBrace .classBodyOpen k fun _ => .methods name [] k
  | .methods name done k =>
    match s.rest with
    | [] => s.missing .classBodyClose k
    | t :: _ =>
      if t.kind = .rightBrace then s.take (.giveStatement (.class name done.reverse) k)
      else s.goTo (.callableName .method (.method name done k))
  | .callableName c k =>
    s.require .identifier (.callableName c) k fun name => .callableOpen c name k
  | .callableOpen c name k =>
    s.require .leftParen (.callableOpen c) k fun _ => .parameters c name k
  | .parameters c name k =>
    s.branch .rightParen (fun _ => .callableBody c name [] k) (.parameter c name [] k)
  | .parameter c name done k =>
    let s := if done.length ≥ maxArity then s.note .tooManyParameters else s
    s.require .identifier .parameterName k fun param => .parameterEnd c name (param :: done) k
  | .parameterEnd c name done k =>
    match s.look with
    | .comma => s.take (.parameter c name done k)
    | _ =>
      s.require .rightParen .parametersClose k fun _ => .callableBody c name done.reverse k
  | .callableBody c name params k =>
    s.require .leftBrace (.callableBodyOpen c) k fun _ =>
      .declarations [] (.functionBody name params k)
  | .variableName k => s.require .identifier .variableName k fun name => .variableValue name k
  | .variableValue name k =>
    match s.look with
    | .equal => s.take (.expression (.initializer name k))
    | _ => s.require .semicolon .variableEnd k fun _ => .giveStatement (.var name none) k
  | .statement k => s.statement k
  | .forOpen k => s.require .leftParen .forOpen k fun _ => .forInitializer k
  | .forInitializer k => s.forInitializer k
  | .forTest initializer k =>
    s.branch .semicolon (fun _ => .forStep initializer none k)
      (.expression (.forTest initializer k))
  | .forStep initializer test k =>
    s.branch .rightParen (fun _ => .statement (.forBody initializer test none k))
      (.expression (.forStep initializer test k))
  | .ifOpen k => s.require .leftParen .ifOpen k fun _ => .expression (.ifTest k)
  | .whileOpen k => s.require .leftParen .whileOpen k fun _ => .expression (.whileTest k)
  | .returnValue keyword k =>
    s.branch .semicolon (fun _ => .giveStatement (.return keyword none) k)
      (.expression (.returned keyword k))
  | .expression k => s.goTo (.level .or (.assignment k))
  | .level l k => s.goTo (operandTask l (.operators l k))
  | .unary k => s.unary k
  | .primary k => s.primary k
  | .arguments callee k =>
    s.branch .rightParen (fun paren => .giveExpression (.call callee paren []) k)
      (.argument callee [] k)
  | .argument callee done k =>
    let s := if done.length ≥ maxArity then s.note .tooManyArguments else s
    s.goTo (.expression (.argument callee done k))
  | .property object k =>
    s.require .identifier .propertyName k fun name => .giveExpression (.get object name) k
  | .giveExpression e k => s.giveExpression e k
  | .giveStatement stmt k => s.giveStatement stmt k
  | .giveFunction f k => s.giveFunction f k
  | .giveBody body k => s.giveBody body k
  | .fail e k => s.fail e k
  | .finished _ => s

end State

end Lox.Parse
