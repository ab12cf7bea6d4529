/-
The grammar of programs. A `Derivation` is a derivation tree of the grammar: one constructor a rule,
each terminal with the token that stands for it. Reading a derivation from left to right gives its
tokens; dropping what only the notation needs gives the syntax tree it derives.

A derivation is `Bounded` if none of its parameter and argument lists is too long, and `Nearest` if
every `else` belongs to the nearest `if` that is still open.
-/
import Lox.Parse.Step

namespace Lox.Grammar

open Parse

/-! ## Terminals -/

/-- A token of the given kind. -/
abbrev Terminal (kind : Kind) := { t : Token // t.kind = kind }

/-- An operator of the given level. -/
abbrev Operator (l : Level) := { t : Token // l.admits t.kind = true }

/-- A prefix operator. -/
abbrev PrefixOperator := { t : Token // t.kind = .bang ∨ t.kind = .minus }

/-- The constant that a kind of token stands for. -/
def literal? : Kind → Option Literal
  | .false => some (.bool false)
  | .true => some (.bool true)
  | .nil => some .nil
  | .number x => some (.number x)
  | .string text => some (.string text)
  | _ => none

/-- `parameters? → ( IDENT ( "," IDENT )* )?` -/
inductive Parameters
  | none
  | some (first : Terminal .identifier) (others : List (Terminal .comma × Terminal .identifier))

namespace Parameters

def tokens : Parameters → List Token
  | none => []
  | some first others => first :: others.flatMap fun (comma, name) => [comma.1, name.1]

def names : Parameters → List Token
  | none => []
  | some first others => first :: others.map fun (_, name) => name.1

end Parameters

/-! ## Phrases -/

/-- The levels of expressions, loosest first. -/
inductive Rank
  | assignment
  | binary (l : Level)
  | unary
  | call
  | primary

/-- The rank of the operands of a level's operators. -/
def operandRank (l : Level) : Rank :=
  match l.tighter? with
  | some l => .binary l
  | none => .unary

/-- The nonterminals of the grammar. -/
inductive Phrase
  | expression (r : Rank)
  /-- One argument or more. -/
  | arguments
  /-- `expression?` -/
  | optional
  | varDeclaration
  | expressionStatement
  /-- The first clause of a `for` loop, with its semicolon. -/
  | initializer
  | statement
  | declaration
  | declarations
  | block
  | function
  | functions

/-- What a phrase derives. -/
@[reducible] def Phrase.Tree : Phrase → Type
  | expression _ => Expr
  | arguments => List Expr
  | optional => Option Expr
  | varDeclaration => Stmt
  | expressionStatement => Stmt
  | initializer => Option Stmt
  | statement => Stmt
  | declaration => Stmt
  | declarations => List Stmt
  | block => List Stmt
  | function => Function
  | functions => List Function

/-! ## Derivations -/

inductive Derivation : Phrase → Type
  /-- `primary → NUMBER | STRING | "true" | "false" | "nil"` -/
  | literal (t : Token) (l : Literal) (h : literal? t.kind = some l) :
    Derivation (.expression .primary)
  /-- `primary → IDENT` -/
  | identifier (name : Terminal .identifier) : Derivation (.expression .primary)
  /-- `primary → "(" expression ")"` -/
  | group (opening : Terminal .leftParen) (inner : Derivation (.expression .assignment))
    (closing : Terminal .rightParen) : Derivation (.expression .primary)
  /-- `call → primary` -/
  | callOfPrimary (e : Derivation (.expression .primary)) : Derivation (.expression .call)
  /-- `call → call "(" ")"` -/
  | callNone (callee : Derivation (.expression .call)) (opening : Terminal .leftParen)
    (closing : Terminal .rightParen) : Derivation (.expression .call)
  /-- `call → call "(" arguments ")"` -/
  | callSome (callee : Derivation (.expression .call)) (opening : Terminal .leftParen)
    (args : Derivation .arguments) (closing : Terminal .rightParen) :
    Derivation (.expression .call)
  /-- `call → call "." IDENT` -/
  | get (object : Derivation (.expression .call)) (dot : Terminal .dot)
    (name : Terminal .identifier) : Derivation (.expression .call)
  /-- `unary → call` -/
  | unaryOfCall (e : Derivation (.expression .call)) : Derivation (.expression .unary)
  /-- `unary → ( "!" | "-" ) unary` -/
  | prefixed (op : PrefixOperator) (right : Derivation (.expression .unary)) :
    Derivation (.expression .unary)
  /-- `level → operand` -/
  | binaryOfOperand (l : Level) (e : Derivation (.expression (operandRank l))) :
    Derivation (.expression (.binary l))
  /-- `level → level operator operand`, so that operators of a level associate to the left. -/
  | binary (l : Level) (left : Derivation (.expression (.binary l))) (op : Operator l)
    (right : Derivation (.expression (operandRank l))) : Derivation (.expression (.binary l))
  /-- `assignment → logic_or` -/
  | assignmentOfOr (e : Derivation (.expression (.binary .or))) :
    Derivation (.expression .assignment)
  /-- `assignment → IDENT "=" assignment` -/
  | assign (name : Terminal .identifier) (equals : Terminal .equal)
    (value : Derivation (.expression .assignment)) : Derivation (.expression .assignment)
  /-- `assignment → call "." IDENT "=" assignment` -/
  | set (object : Derivation (.expression .call)) (dot : Terminal .dot)
    (name : Terminal .identifier) (equals : Terminal .equal)
    (value : Derivation (.expression .assignment)) : Derivation (.expression .assignment)
  /-- `arguments → expression` -/
  | lastArgument (e : Derivation (.expression .assignment)) : Derivation .arguments
  /-- `arguments → expression "," arguments` -/
  | argument (e : Derivation (.expression .assignment)) (comma : Terminal .comma)
    (others : Derivation .arguments) : Derivation .arguments
  | absent : Derivation .optional
  | present (e : Derivation (.expression .assignment)) : Derivation .optional
  /-- `varDecl → "var" IDENT ";"` -/
  | uninitialized (keyword : Terminal .var) (name : Terminal .identifier)
    (semicolon : Terminal .semicolon) : Derivation .varDeclaration
  /-- `varDecl → "var" IDENT "=" expression ";"` -/
  | initialized (keyword : Terminal .var) (name : Terminal .identifier) (equals : Terminal .equal)
    (value : Derivation (.expression .assignment)) (semicolon : Terminal .semicolon) :
    Derivation .varDeclaration
  /-- `exprStmt → expression ";"` -/
  | expressionStatement (e : Derivation (.expression .assignment))
    (semicolon : Terminal .semicolon) : Derivation .expressionStatement
  /-- `initializer → ";"` -/
  | noInitializer (semicolon : Terminal .semicolon) : Derivation .initializer
  /-- `initializer → varDecl` -/
  | variableInitializer (v : Derivation .varDeclaration) : Derivation .initializer
  /-- `initializer → exprStmt` -/
  | expressionInitializer (e : Derivation .expressionStatement) : Derivation .initializer
  /-- `statement → exprStmt` -/
  | statementOfExpression (e : Derivation .expressionStatement) : Derivation .statement
  /-- `forStmt → "for" "(" initializer expression? ";" expression? ")" statement` -/
  | forLoop (keyword : Terminal .for) (opening : Terminal .leftParen)
    (initializer : Derivation .initializer) (test : Derivation .optional)
    (semicolon : Terminal .semicolon) (step : Derivation .optional)
    (closing : Terminal .rightParen) (body : Derivation .statement) : Derivation .statement
  /-- `ifStmt → "if" "(" expression ")" statement` -/
  | ifThen (keyword : Terminal .if) (opening : Terminal .leftParen)
    (test : Derivation (.expression .assignment)) (closing : Terminal .rightParen)
    (thenBranch : Derivation .statement) : Derivation .statement
  /-- `ifStmt → "if" "(" expression ")" statement "else" statement` -/
  | ifElse (keyword : Terminal .if) (opening : Terminal .leftParen)
    (test : Derivation (.expression .assignment)) (closing : Terminal .rightParen)
    (thenBranch : Derivation .statement) (otherwise : Terminal .else)
    (elseBranch : Derivation .statement) : Derivation .statement
  /-- `printStmt → "print" expression ";"` -/
  | print (keyword : Terminal .print) (e : Derivation (.expression .assignment))
    (semicolon : Terminal .semicolon) : Derivation .statement
  /-- `returnStmt → "return" expression? ";"` -/
  | return (keyword : Terminal .return) (value : Derivation .optional)
    (semicolon : Terminal .semicolon) : Derivation .statement
  /-- `whileStmt → "while" "(" expression ")" statement` -/
  | while (keyword : Terminal .while) (opening : Terminal .leftParen)
    (test : Derivation (.expression .assignment)) (closing : Terminal .rightParen)
    (body : Derivation .statement) : Derivation .statement
  /-- `statement → block` -/
  | statementOfBlock (b : Derivation .block) : Derivation .statement
  /-- `block → "{" declaration* "}"` -/
  | block (opening : Terminal .leftBrace) (body : Derivation .declarations)
    (closing : Terminal .rightBrace) : Derivation .block
  | noDeclarations : Derivation .declarations
  | declarations (first : Derivation .declaration) (others : Derivation .declarations) :
    Derivation .declarations
  /-- `declaration → statement` -/
  | declarationOfStatement (s : Derivation .statement) : Derivation .declaration
  /-- `declaration → varDecl` -/
  | declarationOfVariable (v : Derivation .varDeclaration) : Derivation .declaration
  /-- `funDecl → "fun" function` -/
  | functionDeclaration (keyword : Terminal .fun) (f : Derivation .function) :
    Derivation .declaration
  /-- `classDecl → "class" IDENT "\x7b" function* "\x7d"` -/
  | classDeclaration (keyword : Terminal .class) (name : Terminal .identifier)
    (opening : Terminal .leftBrace) (methods : Derivation .functions)
    (closing : Terminal .rightBrace) : Derivation .declaration
  /-- `function → IDENT "(" parameters? ")" block` -/
  | function (name : Terminal .identifier) (opening : Terminal .leftParen) (params : Parameters)
    (closing : Terminal .rightParen) (body : Derivation .block) : Derivation .function
  | noFunctions : Derivation .functions
  | functions (first : Derivation .function) (others : Derivation .functions) :
    Derivation .functions

namespace Derivation

/-- The tokens that a derivation derives, in order. -/
@[simp] def tokens : {p : Phrase} → Derivation p → List Token
  | _, literal t _ _ => [t]
  | _, identifier name => [name.1]
  | _, group opening inner closing => opening.1 :: inner.tokens ++ [closing.1]
  | _, callOfPrimary e => e.tokens
  | _, callNone callee opening closing => callee.tokens ++ [opening.1, closing.1]
  | _, callSome callee opening args closing =>
    callee.tokens ++ opening.1 :: args.tokens ++ [closing.1]
  | _, get object dot name => object.tokens ++ [dot.1, name.1]
  | _, unaryOfCall e => e.tokens
  | _, prefixed op right => op.1 :: right.tokens
  | _, binaryOfOperand _ e => e.tokens
  | _, binary _ left op right => left.tokens ++ op.1 :: right.tokens
  | _, assignmentOfOr e => e.tokens
  | _, assign name equals value => name.1 :: equals.1 :: value.tokens
  | _, set object dot name equals value =>
    object.tokens ++ dot.1 :: name.1 :: equals.1 :: value.tokens
  | _, lastArgument e => e.tokens
  | _, argument e comma others => e.tokens ++ comma.1 :: others.tokens
  | _, absent => []
  | _, present e => e.tokens
  | _, uninitialized keyword name semicolon => [keyword.1, name.1, semicolon.1]
  | _, initialized keyword name equals value semicolon =>
    keyword.1 :: name.1 :: equals.1 :: value.tokens ++ [semicolon.1]
  | _, expressionStatement e semicolon => e.tokens ++ [semicolon.1]
  | _, noInitializer semicolon => [semicolon.1]
  | _, variableInitializer v => v.tokens
  | _, expressionInitializer e => e.tokens
  | _, statementOfExpression e => e.tokens
  | _, forLoop keyword opening initializer test semicolon step closing body =>
    keyword.1 :: opening.1 :: initializer.tokens ++ test.tokens ++ semicolon.1 :: step.tokens ++
      closing.1 :: body.tokens
  | _, ifThen keyword opening test closing thenBranch =>
    keyword.1 :: opening.1 :: test.tokens ++ closing.1 :: thenBranch.tokens
  | _, ifElse keyword opening test closing thenBranch otherwise elseBranch =>
    keyword.1 :: opening.1 :: test.tokens ++ closing.1 :: thenBranch.tokens ++
      otherwise.1 :: elseBranch.tokens
  | _, print keyword e semicolon => keyword.1 :: e.tokens ++ [semicolon.1]
  | _, .return keyword value semicolon => keyword.1 :: value.tokens ++ [semicolon.1]
  | _, .while keyword opening test closing body =>
    keyword.1 :: opening.1 :: test.tokens ++ closing.1 :: body.tokens
  | _, statementOfBlock b => b.tokens
  | _, block opening body closing => opening.1 :: body.tokens ++ [closing.1]
  | _, noDeclarations => []
  | _, declarations first others => first.tokens ++ others.tokens
  | _, declarationOfStatement s => s.tokens
  | _, declarationOfVariable v => v.tokens
  | _, functionDeclaration keyword f => keyword.1 :: f.tokens
  | _, classDeclaration keyword name opening methods closing =>
    keyword.1 :: name.1 :: opening.1 :: methods.tokens ++ [closing.1]
  | _, function name opening params closing body =>
    name.1 :: opening.1 :: params.tokens ++ closing.1 :: body.tokens
  | _, noFunctions => []
  | _, functions first others => first.tokens ++ others.tokens

/-- What a derivation derives, with the next free reference id before and after. A name takes an id
where it stands, and an assignment one behind its value. -/
@[simp] def tree : {p : Phrase} → Derivation p → Nat → p.Tree × Nat
  | _, literal _ l _, n => (.literal l, n)
  | _, identifier name, n => (.variable n name, n + 1)
  | _, group _ inner _, n => (.group (inner.tree n).1, (inner.tree n).2)
  | _, callOfPrimary e, n => e.tree n
  | _, callNone callee _ closing, n => (.call (callee.tree n).1 closing [], (callee.tree n).2)
  | _, callSome callee _ args closing, n =>
    let f := callee.tree n
    let as := args.tree f.2
    (.call f.1 closing as.1, as.2)
  | _, get object _ name, n => (.get (object.tree n).1 name, (object.tree n).2)
  | _, unaryOfCall e, n => e.tree n
  | _, prefixed op right, n => (.unary op (right.tree n).1, (right.tree n).2)
  | _, binaryOfOperand _ e, n => e.tree n
  | _, binary l left op right, n =>
    let x := left.tree n
    let y := right.tree x.2
    (l.join x.1 op y.1, y.2)
  | _, assignmentOfOr e, n => e.tree n
  | _, assign name _ value, n =>
    let v := value.tree (n + 1)
    (.assign v.2 name v.1, v.2 + 1)
  | _, set object _ name _ value, n =>
    let o := object.tree n
    let v := value.tree o.2
    (.set o.1 name v.1, v.2)
  | _, lastArgument e, n => ([(e.tree n).1], (e.tree n).2)
  | _, argument e _ others, n =>
    let a := e.tree n
    let as := others.tree a.2
    (a.1 :: as.1, as.2)
  | _, absent, n => (none, n)
  | _, present e, n => (some (e.tree n).1, (e.tree n).2)
  | _, uninitialized _ name _, n => (.var name none, n)
  | _, initialized _ name _ value _, n => (.var name (some (value.tree n).1), (value.tree n).2)
  | _, expressionStatement e _, n => (.expression (e.tree n).1, (e.tree n).2)
  | _, noInitializer _, n => (none, n)
  | _, variableInitializer v, n => (some (v.tree n).1, (v.tree n).2)
  | _, expressionInitializer e, n => (some (e.tree n).1, (e.tree n).2)
  | _, statementOfExpression e, n => e.tree n
  | _, forLoop _ _ initializer test _ step _ body, n =>
    let i := initializer.tree n
    let t := test.tree i.2
    let s := step.tree t.2
    let b := body.tree s.2
    (Parse.forLoop i.1 t.1 s.1 b.1, b.2)
  | _, ifThen _ _ test _ thenBranch, n =>
    let c := test.tree n
    let t := thenBranch.tree c.2
    (.if c.1 t.1 none, t.2)
  | _, ifElse _ _ test _ thenBranch _ elseBranch, n =>
    let c := test.tree n
    let t := thenBranch.tree c.2
    let e := elseBranch.tree t.2
    (.if c.1 t.1 (some e.1), e.2)
  | _, print _ e _, n => (.print (e.tree n).1, (e.tree n).2)
  | _, .return keyword value _, n => (.return keyword (value.tree n).1, (value.tree n).2)
  | _, .while _ _ test _ body, n =>
    let c := test.tree n
    let b := body.tree c.2
    (.while c.1 b.1, b.2)
  | _, statementOfBlock b, n => (.block (b.tree n).1, (b.tree n).2)
  | _, block _ body _, n => body.tree n
  | _, noDeclarations, n => ([], n)
  | _, declarations first others, n =>
    let s := first.tree n
    let ss := others.tree s.2
    (s.1 :: ss.1, ss.2)
  | _, declarationOfStatement s, n => s.tree n
  | _, declarationOfVariable v, n => v.tree n
  | _, functionDeclaration _ f, n => (.function (f.tree n).1, (f.tree n).2)
  | _, classDeclaration _ name _ methods _, n =>
    (.class name (methods.tree n).1, (methods.tree n).2)
  | _, function name _ params _ body, n =>
    (⟨name, params.names, (body.tree n).1⟩, (body.tree n).2)
  | _, noFunctions, n => ([], n)
  | _, functions first others, n =>
    let f := first.tree n
    let fs := others.tree f.2
    (f.1 :: fs.1, fs.2)

/-- The number of arguments. -/
@[simp] def arity : {p : Phrase} → Derivation p → Nat
  | _, lastArgument _ => 1
  | _, argument _ _ others => others.arity + 1
  | _, _ => 0

/-- No list of parameters or arguments is too long. -/
@[simp] def Bounded : {p : Phrase} → Derivation p → Prop
  | _, literal _ _ _ => True
  | _, identifier _ => True
  | _, group _ inner _ => inner.Bounded
  | _, callOfPrimary e => e.Bounded
  | _, callNone callee _ _ => callee.Bounded
  | _, callSome callee _ args _ => callee.Bounded ∧ args.Bounded ∧ args.arity ≤ maxArity
  | _, get object _ _ => object.Bounded
  | _, unaryOfCall e => e.Bounded
  | _, prefixed _ right => right.Bounded
  | _, binaryOfOperand _ e => e.Bounded
  | _, binary _ left _ right => left.Bounded ∧ right.Bounded
  | _, assignmentOfOr e => e.Bounded
  | _, assign _ _ value => value.Bounded
  | _, set object _ _ _ value => object.Bounded ∧ value.Bounded
  | _, lastArgument e => e.Bounded
  | _, argument e _ others => e.Bounded ∧ others.Bounded
  | _, absent => True
  | _, present e => e.Bounded
  | _, uninitialized _ _ _ => True
  | _, initialized _ _ _ value _ => value.Bounded
  | _, expressionStatement e _ => e.Bounded
  | _, noInitializer _ => True
  | _, variableInitializer v => v.Bounded
  | _, expressionInitializer e => e.Bounded
  | _, statementOfExpression e => e.Bounded
  | _, forLoop _ _ initializer test _ step _ body =>
    initializer.Bounded ∧ test.Bounded ∧ step.Bounded ∧ body.Bounded
  | _, ifThen _ _ test _ thenBranch => test.Bounded ∧ thenBranch.Bounded
  | _, ifElse _ _ test _ thenBranch _ elseBranch =>
    test.Bounded ∧ thenBranch.Bounded ∧ elseBranch.Bounded
  | _, print _ e _ => e.Bounded
  | _, .return _ value _ => value.Bounded
  | _, .while _ _ test _ body => test.Bounded ∧ body.Bounded
  | _, statementOfBlock b => b.Bounded
  | _, block _ body _ => body.Bounded
  | _, noDeclarations => True
  | _, declarations first others => first.Bounded ∧ others.Bounded
  | _, declarationOfStatement s => s.Bounded
  | _, declarationOfVariable v => v.Bounded
  | _, functionDeclaration _ f => f.Bounded
  | _, classDeclaration _ _ _ methods _ => methods.Bounded
  | _, function _ _ params _ body => params.names.length ≤ maxArity ∧ body.Bounded
  | _, noFunctions => True
  | _, functions first others => first.Bounded ∧ others.Bounded

/-- In front of the tokens `after`, no `if` without an `else` has an `else` right behind it: every
`else` belongs to the nearest `if` that is still open. -/
@[simp] def Nearest : {p : Phrase} → Derivation p → (after : List Token) → Prop
  | _, forLoop _ _ _ _ _ _ _ body, after => body.Nearest after
  | _, ifThen _ _ _ _ thenBranch, after =>
    thenBranch.Nearest after ∧ ∀ t ts, after = t :: ts → t.kind ≠ .else
  | _, ifElse _ _ _ _ thenBranch otherwise elseBranch, after =>
    thenBranch.Nearest (otherwise.1 :: elseBranch.tokens ++ after) ∧ elseBranch.Nearest after
  | _, .while _ _ _ _ body, after => body.Nearest after
  | _, statementOfBlock b, after => b.Nearest after
  | _, block _ body closing, after => body.Nearest (closing.1 :: after)
  | _, declarations first others, after =>
    first.Nearest (others.tokens ++ after) ∧ others.Nearest after
  | _, declarationOfStatement s, after => s.Nearest after
  | _, functionDeclaration _ f, after => f.Nearest after
  | _, classDeclaration _ _ _ methods closing, after => methods.Nearest (closing.1 :: after)
  | _, function _ _ _ _ body, after => body.Nearest after
  | _, functions first others, after =>
    first.Nearest (others.tokens ++ after) ∧ others.Nearest after
  | _, _, _ => True

/-- There is no `else` in an expression. -/
theorem nearest_expression {r : Rank} (d : Derivation (.expression r)) (after : List Token) :
    d.Nearest after := by
  cases d <;> trivial

end Derivation

/-- A call as an expression without operators. -/
def orOfCall (e : Derivation (.expression .call)) : Derivation (.expression (.binary .or)) :=
  .binaryOfOperand .or <| .binaryOfOperand .and <| .binaryOfOperand .equality <|
    .binaryOfOperand .comparison <| .binaryOfOperand .term <| .binaryOfOperand .factor <|
      .unaryOfCall e

/-! ## An `else` behind two `if`s -/

/-- A name as a whole expression. -/
def named (lexeme : String) : Derivation (.expression .assignment) :=
  .assignmentOfOr (orOfCall (.callOfPrimary (.identifier ⟨⟨.identifier, lexeme, 1⟩, rfl⟩)))

/-- A name as a statement. -/
def evaluated (lexeme : String) : Derivation .statement :=
  .statementOfExpression (.expressionStatement (named lexeme) ⟨⟨.semicolon, ";", 1⟩, rfl⟩)

/-- `if (a) if (b) c; else d;` -/
def dangling : Derivation .declarations :=
  .declarations
    (.declarationOfStatement <|
      .ifThen ⟨⟨.if, "if", 1⟩, rfl⟩ ⟨⟨.leftParen, "(", 1⟩, rfl⟩ (named "a")
        ⟨⟨.rightParen, ")", 1⟩, rfl⟩ <|
      .ifElse ⟨⟨.if, "if", 1⟩, rfl⟩ ⟨⟨.leftParen, "(", 1⟩, rfl⟩ (named "b")
        ⟨⟨.rightParen, ")", 1⟩, rfl⟩ (evaluated "c") ⟨⟨.else, "else", 1⟩, rfl⟩ (evaluated "d"))
    .noDeclarations

theorem bounded_dangling : dangling.Bounded := by
  simp [dangling, named, evaluated, orOfCall]

/-- The `else` belongs to the second `if`, so nothing keeps the first from having none. -/
theorem nearest_dangling : dangling.Nearest [] := by
  simp [dangling, evaluated]

end Lox.Grammar
