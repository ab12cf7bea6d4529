/-
Steps of an evaluation in general: which reference a step looks up, and what no step changes. The
natives, the top-level frame, the distances, the call limit and whether the sink can be flushed are
changed by the host and the session only, between evaluations.
-/
import Lox.Eval.Run
import Lox.Proofs.Eval.Rules
import Lox.Proofs.Scoping.Visits

namespace Lox

/-- The reference that is read or written next, or whose value is about to be evaluated. -/
def Eval.Control.reference? : Eval.Control → Option Reference
  | .evaluate (.variable id name) _ => some ⟨id, name, true⟩
  | .evaluate (.assign id name _) _ => some ⟨id, name, false⟩
  | .give _ (.assigned id name _) => some ⟨id, name, false⟩
  | _ => none

theorem Sink.refusesFlush_print (s : Sink) (text : String) :
    (s.print text).2.refusesFlush = s.refusesFlush := by
  unfold print
  dsimp only
  split
  · rfl
  · split <;> rfl

/-- The second interpreter has the natives, the top level, the distances and the limit of the
first, and its sink can be flushed if that of the first can. -/
structure Interpreter.Keeps (it it' : Interpreter) : Prop where
  natives : it'.natives = it.natives
  globals : it'.globals = it.globals
  distances : it'.distances = it.distances
  maxDepth : it'.maxDepth = it.maxDepth
  refusesFlush : it'.sink.refusesFlush = it.sink.refusesFlush

namespace Interpreter.Keeps

theorem refl (it : Interpreter) : it.Keeps it := ⟨rfl, rfl, rfl, rfl, rfl⟩

theorem trans {it it' it'' : Interpreter} (h : it.Keeps it') (h' : it'.Keeps it'') :
    it.Keeps it'' :=
  ⟨h'.natives.trans h.natives, h'.globals.trans h.globals, h'.distances.trans h.distances,
    h'.maxDepth.trans h.maxDepth, h'.refusesFlush.trans h.refusesFlush⟩

end Interpreter.Keeps

namespace Eval

theorem Rule.keeps {e e' : State} (rule : Rule e e') : e.it.Keeps e'.it := by
  cases rule with
  | printed it v k accepted => exact ⟨rfl, rfl, rfl, rfl, it.sink.refusesFlush_print _⟩
  | unprinted it v refusal k refused => exact ⟨rfl, rfl, rfl, rfl, it.sink.refusesFlush_print _⟩
  | _ => exact ⟨rfl, rfl, rfl, rfl, rfl⟩

theorem step_keeps (e : State) : e.it.Keeps e.step.it := (step_rule e).keeps

/-- Running is stepping. -/
theorem run_succ (n : Nat) (e : State) : e.run (n + 1) = e.step.run n := by
  obtain ⟨control, it⟩ := e
  cases control with
  | ended o => cases n <;> rfl
  | _ => rfl

/-- What every step keeps holds all along a run. -/
theorem run_invariant {P : State → Prop} (step : ∀ e, P e → P e.step) {e : State} (start : P e)
    (n : Nat) : P (e.run n) := by
  induction n generalizing e with
  | zero => exact start
  | succ n ih =>
    rw [run_succ]
    exact ih (step e start)

theorem run_keeps (e : State) (n : Nat) : e.it.Keeps (e.run n).it :=
  run_invariant (P := fun e' => e.it.Keeps e'.it) (fun e' kept => kept.trans (step_keeps e'))
    (.refl _) n

/-! ## Ends of evaluations -/

theorem run_ended (n : Nat) (o : Outcome) (it : Interpreter) :
    State.run n ⟨.ended o, it⟩ = ⟨.ended o, it⟩ := by
  cases n <;> rfl

theorem run_add (n m : Nat) (e : State) : e.run (n + m) = (e.run n).run m := by
  induction n generalizing e with
  | zero => rw [Nat.zero_add, State.run]
  | succ n ih => rw [Nat.succ_add, run_succ, run_succ, ih]

theorem step_run (e : State) (n : Nat) : (e.run n).step = e.run (n + 1) := by
  rw [run_add, run_succ, State.run]

/-- The evaluation ends, with an outcome and in a state. -/
def State.Ends (e : State) (o : Outcome) (it : Interpreter) : Prop :=
  ∃ n, e.run n = ⟨.ended o, it⟩

theorem control_of_outcome? {e : State} {o : Outcome} (h : e.outcome? = some o) :
    e.control = .ended o := by
  unfold State.outcome? at h
  split at h
  · cases h
    assumption
  · cases h

/-- An outcome after some steps is the end. -/
theorem ends_of_outcome? {e : State} {o : Outcome} (n : Nat) (h : (e.run n).outcome? = some o) :
    e.Ends o (e.run n).it := by
  refine ⟨n, ?_⟩
  rw [← control_of_outcome? h]

theorem ends_ended (o : Outcome) (it : Interpreter) : State.Ends ⟨.ended o, it⟩ o it := ⟨0, rfl⟩

/-- An evaluation ends as it does after some steps of it. -/
theorem ends_run {e : State} {o : Outcome} {it : Interpreter} (n : Nat) :
    (e.run n).Ends o it ↔ e.Ends o it := by
  constructor
  · rintro ⟨m, hm⟩
    exact ⟨n + m, by rw [run_add, hm]⟩
  · rintro ⟨m, hm⟩
    refine ⟨m, ?_⟩
    rw [← run_add, Nat.add_comm, run_add, hm, run_ended]

theorem ends_step {e : State} {o : Outcome} {it : Interpreter} : e.step.Ends o it ↔ e.Ends o it := by
  have one : e.run 1 = e.step := run_succ 0 e
  rw [← one, ends_run]

theorem State.Ends.keeps {e : State} {o : Outcome} {it : Interpreter} (h : e.Ends o it) :
    e.it.Keeps it := by
  obtain ⟨n, hn⟩ := h
  have kept := run_keeps e n
  rwa [hn] at kept

/-- There is one end at most. -/
theorem State.Ends.unique {e : State} {o o' : Outcome} {it it' : Interpreter} (h : e.Ends o it)
    (h' : e.Ends o' it') : o = o' ∧ it = it' := by
  obtain ⟨n, hn⟩ := h
  rw [← ends_run n, hn] at h'
  obtain ⟨m, hm⟩ := h'
  rw [run_ended] at hm
  cases hm
  exact ⟨rfl, rfl⟩

end Eval

end Lox
