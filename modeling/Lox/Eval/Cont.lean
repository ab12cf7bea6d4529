/-
What an evaluation still has to do. The evaluator keeps no call stack: what waits for a value or for
the end of a statement is a `Cont`, a chain that ends where the evaluation began, and what happens
next is a `Control` on top of it. How deep a program may recurse is therefore bounded by the call
limit and by memory alone.

The chain is indexed by what it waits for.
-/
import Lox.RuntimeError
import Lox.Syntax
import Lox.Value

namespace Lox.Eval

/-- How a statement ends: at its end, or at a `return` with a value. -/
inductive Flow
  | normal
  | returned (v : Value)
  deriving DecidableEq

/-- What a chain can wait for: the value of an expression, or the end of a statement. -/
inductive Answer
  | value
  | flow

/-- What waits, innermost first. -/
inductive Cont : Answer → Type
  /-- The end of the chain of an expression. -/
  | value : Cont .value
  /-- The end of the chain of a statement. -/
  | flow : Cont .flow
  | operand (op : Token) (k : Cont .value) : Cont .value
  | leftOperand (op : Token) (right : Expr) (k : Cont .value) : Cont .value
  | rightOperand (op : Token) (left : Value) (k : Cont .value) : Cont .value
  /-- The left side of `and` or `or`. -/
  | decision (op : Token) (right : Expr) (k : Cont .value) : Cont .value
  | assigned (id : Nat) (name : Token) (k : Cont .value) : Cont .value
  | callee (paren : Token) (args : List Expr) (k : Cont .value) : Cont .value
  /-- An argument, after those in `done`, newest first, and before those in `rest`. -/
  | argument (callee : Value) (paren : Token) (done : List Value) (rest : List Expr)
    (k : Cont .value) : Cont .value
  | getObject (name : Token) (k : Cont .value) : Cont .value
  | setObject (name : Token) (value : Expr) (k : Cont .value) : Cont .value
  | setValue (target : InstanceRef) (name : Token) (k : Cont .value) : Cont .value
  /-- An expression statement. -/
  | discarded (k : Cont .flow) : Cont .value
  | printed (k : Cont .flow) : Cont .value
  | initializer (name : Token) (k : Cont .flow) : Cont .value
  | returned (k : Cont .flow) : Cont .value
  | ifTest (thenBranch : Stmt) (elseBranch : Option Stmt) (k : Cont .flow) : Cont .value
  | whileTest (condition : Expr) (body : Stmt) (k : Cont .flow) : Cont .value
  | whileBody (condition : Expr) (body : Stmt) (k : Cont .flow) : Cont .flow
  /-- The statements after the one being executed. -/
  | sequence (rest : List Stmt) (k : Cont .flow) : Cont .flow
  /-- The end of a block that was entered from `frame`. -/
  | blockEnd (frame : FrameRef) (k : Cont .flow) : Cont .flow
  /-- The end of a function called from `frame`. -/
  | callEnd (frame : FrameRef) (k : Cont .value) : Cont .flow

/-- How an evaluation ends. -/
inductive Outcome
  | value (v : Value)
  | flow (f : Flow)
  | fault (e : RuntimeError)
  deriving DecidableEq

/-- What the evaluation does next, and what waits for it. -/
inductive Control
  | evaluate (e : Expr) (k : Cont .value)
  | execute (s : Stmt) (k : Cont .flow)
  | executeAll (ss : List Stmt) (k : Cont .flow)
  | call (callee : Value) (paren : Token) (args : List Value) (k : Cont .value)
  | give (v : Value) (k : Cont .value)
  | finish (f : Flow) (k : Cont .flow)
  /-- An error; what waits is given up, but frames and call depth are put back. -/
  | raise (e : RuntimeError) {a : Answer} (k : Cont a)
  | ended (o : Outcome)

end Lox.Eval
