/-
Sessions: source texts run one after another over one state. Lexical errors do not keep a text from
being parsed; all errors of both kinds are reported together, and a text with a static error is not
run at all.

The distances of a text stay known after its run only if it declares a function, whose body may run
later. Otherwise no code is left that refers to them.
-/
import Lox.Eval.Run
import Lox.Parse.Run
import Lox.Token.Scan

namespace Lox

mutual

/-- Does the statement declare a function anywhere? Methods are never called and do not count. -/
def Stmt.declaresFunction : Stmt → Bool
  | .function _ => true
  | .block body => Stmt.anyDeclaresFunction body
  | .if _ thenBranch none => thenBranch.declaresFunction
  | .if _ thenBranch (some elseBranch) =>
    thenBranch.declaresFunction || elseBranch.declaresFunction
  | .while _ body => body.declaresFunction
  | _ => false

def Stmt.anyDeclaresFunction : List Stmt → Bool
  | [] => false
  | s :: ss => s.declaresFunction || Stmt.anyDeclaresFunction ss

end

structure Session where
  interpreter : Interpreter
  /-- The next free reference id. -/
  nextId : Nat

/-- A text that passed all static checks. -/
structure Program where
  statements : List Stmt
  distances : Distances

/-- Why a run did not complete. -/
inductive RunError
  | rejected (errors : List StaticError)
  | failed (e : RuntimeError)
  deriving DecidableEq

namespace Session

def start (it : Interpreter) : Session := ⟨it, 0⟩

/-- The static checks of a text. Reference ids are used up even by a text that is rejected. -/
def check (s : Session) (source : String) : Except (List StaticError) Program × Session :=
  let items := scan source
  let parsed := Parse.program s.nextId (Item.tokens items)
  let program : Except (List StaticError) Program :=
    match Item.errors items, parsed.program with
    | lexical, .error syntactic => .error (lexical ++ syntactic)
    | [], .ok statements => (distancesOf statements).map fun ds => ⟨statements, ds⟩
    | lexical, .ok _ => .error lexical
  (program, { s with nextId := parsed.nextId })

/-- The start of a program's evaluation. -/
def launch (s : Session) (p : Program) : Eval.State :=
  ⟨.executeAll p.statements .flow, s.interpreter.addDistances p.distances⟩

/-- The end of a program's evaluation. -/
def settle (s : Session) (p : Program) (o : Eval.Outcome) (it : Interpreter) :
    Except RunError Unit × Session :=
  let result := (it.conclude o).mapError RunError.failed
  let it := if Stmt.anyDeclaresFunction p.statements then it else it.forget p.distances.keys
  (result, { s with interpreter := it })

/-- Runs a text, if it ends in `fuel` steps. -/
def run (s : Session) (fuel : Nat) (source : String) :
    Option (Except RunError Unit × Session) :=
  match s.check source with
  | (.error errors, s) => some (.error (.rejected errors), s)
  | (.ok p, s) =>
    let e := (s.launch p).run fuel
    e.outcome?.map fun o => s.settle p o e.it

end Session

end Lox
