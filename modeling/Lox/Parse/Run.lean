/-
Whole parses: steps until the parse is finished. One error is enough for there to be no program.
-/
import Lox.Parse.Measure

namespace Lox.Parse

namespace State

/-- Is the parse finished? -/
def ended (s : State) : Bool :=
  match s.task with
  | .finished _ => true
  | _ => false

theorem measure_step_lt_of_not_ended {s : State} (h : ¬s.ended = true) :
    s.step.measure < s.measure :=
  measure_step_lt s fun p hp => h (by simp [ended, hp])

/-- Takes steps until the parse is finished. -/
def run (s : State) : State := if s.ended then s else s.step.run
termination_by s.measure
decreasing_by exact measure_step_lt_of_not_ended (by assumption)

/-- The start of a parse. The first end-of-source token ends the tokens, and nothing behind it is
looked at; without one, the tokens end on the line of the last of them. -/
def start (nextId : Nat) (tokens : List Token) : State where
  task := .program []
  rest := tokens.takeWhile (·.kind != .eof)
  eof := (tokens.find? (·.kind == .eof)).getD
    (Token.endOn ((tokens.getLast?.map (·.line)).getD 1))
  nextId
  errors := []

/-- The statements of a finished parse. -/
def statements (s : State) : List Stmt :=
  match s.task with
  | .finished program => program
  | _ => []

end State

/-- What a parse comes to: a program, or all the errors that were found, and the next free reference
id. -/
structure Parsed where
  program : Except (List StaticError) (List Stmt)
  nextId : Nat

/-- Parses a list of tokens. One error is enough for there to be no program. -/
def program (nextId : Nat) (tokens : List Token) : Parsed :=
  let s := (State.start nextId tokens).run
  { program := if s.errors.isEmpty then .ok s.statements else .error s.errors.reverse
    nextId := s.nextId }

end Lox.Parse
