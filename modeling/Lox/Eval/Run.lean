/-
Whole evaluations. A program need not end, so an evaluation is given a number of steps, and what has
not ended after them has no answer yet.
-/
import Lox.Eval.Step

namespace Lox

namespace Eval.State

/-- The outcome of an evaluation that has ended. -/
def outcome? (s : State) : Option Outcome :=
  match s.control with
  | .ended o => some o
  | _ => none

/-- Takes a number of steps, or as many as there are. -/
def run : Nat → State → State
  | 0, s => s
  | n + 1, s =>
    match s with
    | ⟨.ended o, it⟩ => ⟨.ended o, it⟩
    | s => s.step.run n

end Eval.State

namespace Eval.Outcome

/-- The outcome of an expression, which ends with a value or an error. -/
def asValue : Outcome → Except RuntimeError Value
  | .value v => .ok v
  | .flow _ => .ok .nil
  | .fault e => .error e

/-- The outcome of a statement, which ends with a flow or an error. -/
def asFlow : Outcome → Except RuntimeError Flow
  | .value _ => .ok .normal
  | .flow f => .ok f
  | .fault e => .error e

end Eval.Outcome

namespace Interpreter

/-- Runs an evaluation to its end, if it gets there in `fuel` steps. -/
def runFor (it : Interpreter) (fuel : Nat) (control : Eval.Control) :
    Option (Eval.Outcome × Interpreter) :=
  let s := Eval.State.run fuel ⟨control, it⟩
  s.outcome?.map (·, s.it)

/-- The value of an expression. -/
def evaluate (it : Interpreter) (fuel : Nat) (e : Expr) :
    Option (Except RuntimeError Value × Interpreter) :=
  (it.runFor fuel (.evaluate e .value)).map fun (o, it) => (o.asValue, it)

/-- The end of a statement. -/
def execute (it : Interpreter) (fuel : Nat) (s : Stmt) :
    Option (Except RuntimeError Eval.Flow × Interpreter) :=
  (it.runFor fuel (.execute s .flow)).map fun (o, it) => (o.asFlow, it)

/-- The end of a list of statements in the frame the program is in. -/
def executeAll (it : Interpreter) (fuel : Nat) (ss : List Stmt) :
    Option (Except RuntimeError Eval.Flow × Interpreter) :=
  (it.runFor fuel (.executeAll ss .flow)).map fun (o, it) => (o.asFlow, it)

/-- The end of a list of statements in another frame; afterwards the program is where it was. -/
def executeBlock (it : Interpreter) (fuel : Nat) (ss : List Stmt) (frame : FrameRef) :
    Option (Except RuntimeError Eval.Flow × Interpreter) :=
  let control := .executeAll ss (.blockEnd it.frame .flow)
  ((it.enter frame).runFor fuel control).map fun (o, it) => (o.asFlow, it)

/-- The answer of a call. -/
def call (it : Interpreter) (fuel : Nat) (callee : Value) (paren : Token) (args : List Value) :
    Option (Except RuntimeError Value × Interpreter) :=
  (it.runFor fuel (.call callee paren args .value)).map fun (o, it) => (o.asValue, it)

/-- How a whole program ends: the sink is flushed if nothing went wrong before. A `return` at the
top level just ends it. -/
def conclude (it : Interpreter) (o : Eval.Outcome) : Except RuntimeError Unit :=
  match o.asFlow with
  | .ok _ => it.sink.flush.mapError .output
  | .error e => .error e

/-- Runs a whole program. -/
def interpret (it : Interpreter) (fuel : Nat) (program : List Stmt) :
    Option (Except RuntimeError Unit × Interpreter) :=
  (it.runFor fuel (.executeAll program .flow)).map fun (o, it) => (it.conclude o, it)

end Interpreter

end Lox
