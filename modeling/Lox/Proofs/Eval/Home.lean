/-
Every evaluation goes back to where it began. What waits says to which frame and to how many open
calls the evaluation goes back in the end (`State.home`), and no step changes that: what a block or a
call enters is what its end puts back, on every way out. So an evaluation that has ended is back
(`State.Ends.back`).

On the way the number of open calls grows only where the limit allows it (`run_homeward`).
-/
import Lox.Proofs.Eval.Steps

namespace Lox

/-- The second interpreter is back where the first one is: in the same frame of the same top level,
with as many calls open and as many allowed, and with the same distances. -/
structure Interpreter.Back (it it' : Interpreter) : Prop where
  frame : it'.frame = it.frame
  globals : it'.globals = it.globals
  depth : it'.depth = it.depth
  maxDepth : it'.maxDepth = it.maxDepth
  distances : it'.distances = it.distances

namespace Eval

/-! ## Where an evaluation goes back to -/

/-- Where an interpreter is. -/
structure Position where
  frame : FrameRef
  /-- The number of open calls. -/
  depth : Nat

/-- Where what waits goes back to in the end, when the evaluation is at a position. Only the ends of
blocks and calls move. -/
def Cont.home : {a : Answer} → Cont a → Position → Position
  | _, .value, p => p
  | _, .flow, p => p
  | _, .blockEnd frame k, p => k.home { p with frame }
  | _, .callEnd frame k, p => k.home ⟨frame, p.depth - 1⟩
  | _, .operand _ k, p => k.home p
  | _, .leftOperand _ _ k, p => k.home p
  | _, .rightOperand _ _ k, p => k.home p
  | _, .decision _ _ k, p => k.home p
  | _, .assigned _ _ k, p => k.home p
  | _, .callee _ _ k, p => k.home p
  | _, .argument _ _ _ _ k, p => k.home p
  | _, .getObject _ k, p => k.home p
  | _, .setObject _ _ k, p => k.home p
  | _, .setValue _ _ k, p => k.home p
  | _, .discarded k, p => k.home p
  | _, .printed k, p => k.home p
  | _, .initializer _ k, p => k.home p
  | _, .returned k, p => k.home p
  | _, .ifTest _ _ k, p => k.home p
  | _, .whileTest _ _ k, p => k.home p
  | _, .whileBody _ _ k, p => k.home p
  | _, .sequence _ k, p => k.home p

def Control.home : Control → Position → Position
  | .evaluate _ k, p => k.home p
  | .execute _ k, p => k.home p
  | .executeAll _ k, p => k.home p
  | .call _ _ _ k, p => k.home p
  | .give _ k, p => k.home p
  | .finish _ k, p => k.home p
  | .raise _ k, p => k.home p
  | .ended _, p => p

/-- Where an evaluation goes back to in the end. -/
def State.home (e : State) : Position := e.control.home ⟨e.it.frame, e.it.depth⟩

/-! ## Steps -/

/-- The evaluation goes back to the position, and if the call limit held before, then it holds. -/
structure State.Homeward (e : State) (it : Interpreter) (p : Position) : Prop where
  home : e.home = p
  depth : it.depth ≤ it.maxDepth → e.it.depth ≤ it.maxDepth

theorem Turn.home_eq {it : Interpreter} {c c' : Control} (turn : Turn it c c') (p : Position) :
    c'.home p = c.home p := by
  cases turn with
  | yield e k k' yields => cases yields <;> rfl
  | _ => rfl

theorem Fail.home_eq {it : Interpreter} {c : Control} {e : RuntimeError} {k : Cont .value}
    (fail : Fail it c e k) (p : Position) : k.home p = c.home p := by
  cases fail <;> rfl

/-- What is entered is what is gone back from: a call that is entered is one more, and its end takes
it away again. -/
theorem Rule.homeward {e e' : State} (rule : Rule e e') : e'.Homeward e.it e.home := by
  cases rule with
  | turn turn => exact ⟨turn.home_eq _, id⟩
  | fail fail => exact ⟨fail.home_eq _, id⟩
  | call it f c paren args k found arity room =>
    refine ⟨?_, fun _ => room⟩
    show k.home ⟨it.frame, it.depth + 1 - 1⟩ = k.home ⟨it.frame, it.depth⟩
    rw [Nat.add_sub_cancel]
  | callEnd | callReturn | callFault => exact ⟨rfl, Nat.le_trans (Nat.sub_le ..)⟩
  | _ => exact ⟨rfl, id⟩

theorem step_homeward (e : State) : e.step.Homeward e.it e.home := (step_rule e).homeward

/-! ## Whole evaluations -/

/-- Running does not change where an evaluation goes back to, and the limit holds all along it if it
holds at its start. -/
theorem run_homeward (n : Nat) (e : State) : (e.run n).Homeward e.it e.home := by
  induction n generalizing e with
  | zero => exact ⟨rfl, id⟩
  | succ n ih =>
    have first := step_homeward e
    have rest := ih e.step
    rw [run_succ]
    refine ⟨rest.home.trans first.home, fun h => ?_⟩
    have limit := (step_keeps e).maxDepth
    have below := first.depth h
    rw [← limit] at below ⊢
    exact rest.depth below

/-- An evaluation ends where it goes back to, and with the limit and the distances it began with. -/
theorem State.Ends.back {e : State} {o : Outcome} {it it' : Interpreter} (h : e.Ends o it')
    (home : e.home = ⟨it.frame, it.depth⟩) (kept : it.Keeps e.it) : it.Back it' := by
  have all := kept.trans h.keeps
  obtain ⟨n, hn⟩ := h
  have reached : (⟨it'.frame, it'.depth⟩ : Position) = ⟨it.frame, it.depth⟩ := by
    have same := (run_homeward n e).home
    rw [hn] at same
    exact same.trans home
  injection reached with frame depth
  exact ⟨frame, all.globals, depth, all.maxDepth, all.distances⟩

theorem ends_of_runFor {it it' : Interpreter} {fuel : Nat} {c : Control} {o : Outcome}
    (h : it.runFor fuel c = some (o, it')) : State.Ends ⟨c, it⟩ o it' := by
  unfold Interpreter.runFor at h
  obtain ⟨o', ho, hpair⟩ := Option.map_eq_some_iff.1 h
  cases hpair
  exact ends_of_outcome? fuel ho

end Eval

end Lox
