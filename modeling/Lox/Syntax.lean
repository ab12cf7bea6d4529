/-
Syntax trees: expressions, statements and function declarations. Every node keeps the tokens that
diagnostics quote. A variable read or written carries an id, by which its binding is recorded; two
references never share one, however alike they look.
-/
import Lox.Token

namespace Lox

/-- A constant written in the source. -/
inductive Literal
  | nil
  | bool (b : Bool)
  | number (x : Float)
  | string (s : String)
  deriving DecidableEq

inductive Expr
  /-- `name = value` -/
  | assign (id : Nat) (name : Token) (value : Expr)
  /-- An infix arithmetic, comparison or equality operator. -/
  | binary (left : Expr) (op : Token) (right : Expr)
  /-- `callee(args)`, kept with its closing parenthesis. -/
  | call (callee : Expr) (paren : Token) (args : List Expr)
  /-- `object.name` -/
  | get (object : Expr) (name : Token)
  | group (inner : Expr)
  | literal (l : Literal)
  /-- `left and right` or `left or right` -/
  | logical (left : Expr) (op : Token) (right : Expr)
  /-- `object.name = value` -/
  | set (object : Expr) (name : Token) (value : Expr)
  /-- A prefix operator. -/
  | unary (op : Token) (right : Expr)
  | variable (id : Nat) (name : Token)

/-- A function or method with a body of statements of type `σ`. -/
structure FunctionOf (σ : Type) where
  name : Token
  params : List Token
  body : List σ

inductive Stmt
  | block (body : List Stmt)
  | «class» (name : Token) (methods : List (FunctionOf Stmt))
  | expression (e : Expr)
  | function (decl : FunctionOf Stmt)
  | «if» (condition : Expr) (thenBranch : Stmt) (elseBranch : Option Stmt)
  | print (e : Expr)
  | «return» (keyword : Token) (value : Option Expr)
  | var (name : Token) (initializer : Option Expr)
  | «while» (condition : Expr) (body : Stmt)

/-- A function declaration. -/
abbrev Function := FunctionOf Stmt

end Lox
