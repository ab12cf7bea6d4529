/-
Evaluations put in front of something else. An evaluation looks at what waits only where it hands over
a value, an end or an error, so with other chains where its own one ends it takes the same steps
(`Rule.graft`), up to where it is done. So an expression that is evaluated alone is evaluated alike
in front of whatever waits for its value (`reaches_graft`).
-/
import Lox.Proofs.Eval.Steps

namespace Lox.Eval

/-! ## Other ends of chains -/

/-- What is to stand where a chain ends: behind an expression, or behind a statement. -/
structure Behind where
  value : Cont .value
  flow : Cont .flow

/-- What waits, with other chains where it ends. -/
@[simp] def Cont.graft (b : Behind) : {a : Answer} → Cont a → Cont a
  | _, .value => b.value
  | _, .flow => b.flow
  | _, .operand op k => .operand op (k.graft b)
  | _, .leftOperand op right k => .leftOperand op right (k.graft b)
  | _, .rightOperand op left k => .rightOperand op left (k.graft b)
  | _, .decision op right k => .decision op right (k.graft b)
  | _, .assigned id name k => .assigned id name (k.graft b)
  | _, .callee paren args k => .callee paren args (k.graft b)
  | _, .argument f paren done rest k => .argument f paren done rest (k.graft b)
  | _, .getObject name k => .getObject name (k.graft b)
  | _, .setObject name e k => .setObject name e (k.graft b)
  | _, .setValue target name k => .setValue target name (k.graft b)
  | _, .discarded k => .discarded (k.graft b)
  | _, .printed k => .printed (k.graft b)
  | _, .initializer name k => .initializer name (k.graft b)
  | _, .returned k => .returned (k.graft b)
  | _, .ifTest thenBranch elseBranch k => .ifTest thenBranch elseBranch (k.graft b)
  | _, .whileTest condition body k => .whileTest condition body (k.graft b)
  | _, .whileBody condition body k => .whileBody condition body (k.graft b)
  | _, .sequence rest k => .sequence rest (k.graft b)
  | _, .blockEnd frame k => .blockEnd frame (k.graft b)
  | _, .callEnd frame k => .callEnd frame (k.graft b)

/-- What the end of the chain waits for. -/
@[simp] def Cont.base : {a : Answer} → Cont a → Answer
  | _, .value => .value
  | _, .flow => .flow
  | _, .operand _ k | _, .leftOperand _ _ k | _, .rightOperand _ _ k | _, .decision _ _ k
  | _, .assigned _ _ k | _, .callee _ _ k | _, .argument _ _ _ _ k | _, .getObject _ k
  | _, .setObject _ _ k | _, .setValue _ _ k | _, .callEnd _ k => k.base
  | _, .discarded k | _, .printed k | _, .initializer _ k | _, .returned k | _, .ifTest _ _ k
  | _, .whileTest _ _ k | _, .whileBody _ _ k | _, .sequence _ k | _, .blockEnd _ k => k.base

@[simp] def Control.graft (b : Behind) : Control → Control
  | .evaluate e k => .evaluate e (k.graft b)
  | .execute s k => .execute s (k.graft b)
  | .executeAll ss k => .executeAll ss (k.graft b)
  | .call callee paren args k => .call callee paren args (k.graft b)
  | .give v k => .give v (k.graft b)
  | .finish f k => .finish f (k.graft b)
  | .raise e k => .raise e (k.graft b)
  | .ended o => .ended o

/-- What the evaluation is to come to, unless it has ended. -/
@[simp] def Control.base? : Control → Option Answer
  | .evaluate _ k => some k.base
  | .execute _ k => some k.base
  | .executeAll _ k => some k.base
  | .call _ _ _ k => some k.base
  | .give _ k => some k.base
  | .finish _ k => some k.base
  | .raise _ k => some k.base
  | .ended _ => none

/-- Is all done but to hand over what the evaluation came to? -/
def Control.isDone : Control → Bool
  | .give _ .value => true
  | .finish _ .flow => true
  | .raise _ .value => true
  | .raise _ .flow => true
  | _ => false

/-- The evaluation with other chains where its own one ends. -/
def State.graft (b : Behind) (e : State) : State := ⟨e.control.graft b, e.it⟩

/-! ## Steps in front of other chains -/

theorem Cont.Yields.graft {a a' : Answer} {k : Cont a} {k' : Cont a'} (yields : k.Yields k')
    (b : Behind) : (k.graft b).Yields (k'.graft b) := by
  cases yields <;> constructor

theorem Cont.Yields.base_eq {a a' : Answer} {k : Cont a} {k' : Cont a'} (yields : k.Yields k') :
    k'.base = k.base := by
  cases yields <;> rfl

variable {it : Interpreter}

/-- What comes next does not depend on what waits, unless nothing does. -/
theorem Turn.graft {c c' : Control} (turn : Turn it c c') (more : c.isDone = false) (b : Behind) :
    Turn it (c.graft b) (c'.graft b) := by
  cases turn with
  | read id name v k found => exact .read id name v _ found
  | operated op v w k value => exact .operated op v w _ value
  | combined op left v w k value => exact .combined op left v w _ value
  | decided op right v k decided => exact .decided op right v _ decided
  | undecided op right v k undecided => exact .undecided op right v _ undecided
  | property i name w k found => exact .property i name w _ found
  | thenBranch v thenBranch elseBranch k holds => exact .thenBranch v thenBranch elseBranch _ holds
  | elseBranch v thenBranch elseBranch k fails => exact .elseBranch v thenBranch elseBranch _ fails
  | noBranch v thenBranch k fails => exact .noBranch v thenBranch _ fails
  | body v condition body k holds => exact .body v condition body _ holds
  | loopEnd v condition body k fails => exact .loopEnd v condition body _ fails
  | yield e k k' yields => exact .yield e _ _ (yields.graft b)
  | valueEnd | flowEnd | faultOfValue | faultOfFlow => cases more
  | _ => constructor

theorem Turn.base?_eq {c c' : Control} (turn : Turn it c c') (more : c.isDone = false) :
    c'.base? = c.base? := by
  cases turn with
  | yield e k k' yields => exact congrArg some yields.base_eq
  | valueEnd | flowEnd | faultOfValue | faultOfFlow => cases more
  | _ => rfl

theorem Fail.graft {c : Control} {e : RuntimeError} {k : Cont .value} (fail : Fail it c e k)
    (b : Behind) : Fail it (c.graft b) e (k.graft b) := by
  cases fail with
  | unread id name k none => exact .unread id name _ none
  | unwritten id name v k none => exact .unwritten id name v _ none
  | operand op v fault k value => exact .operand op v fault _ value
  | operands op left v fault k value => exact .operands op left v fault _ value
  | noProperty i name k none => exact .noProperty i name _ none
  | noObject v name k other => exact .noObject v name _ other
  | noTarget v name value k other => exact .noTarget v name value _ other
  | uncallable callee paren args k none => exact .uncallable callee paren args _ none
  | miscounted callee paren args n k takes other =>
    exact .miscounted callee paren args n _ takes other
  | refused f c paren args k found arity full => exact .refused f c paren args _ found arity full

theorem Fail.base?_eq {c : Control} {e : RuntimeError} {k : Cont .value} (fail : Fail it c e k) :
    some k.base = c.base? := by
  cases fail <;> rfl

theorem Rule.graft {e e' : State} (rule : Rule e e') (more : e.control.isDone = false) (b : Behind) :
    Rule (e.graft b) (e'.graft b) := by
  cases rule with
  | turn turn => exact .turn (turn.graft more b)
  | fail fail => exact .fail (fail.graft b)
  | «class» it name methods f k found => exact .class it name methods f _ found
  | lostClass it name methods k none => exact .lostClass it name methods _ none
  | write it id name f v k found => exact .write it id name f v _ found
  | call it f c paren args k found arity room => exact .call it f c paren args _ found arity room
  | native it n native paren args v k found arity answer =>
    exact .native it n native paren args v _ found arity answer
  | nativeFault it n native paren args message k found arity answer =>
    exact .nativeFault it n native paren args message _ found arity answer
  | printed it v k accepted => exact .printed it v _ accepted
  | unprinted it v refusal k refused => exact .unprinted it v refusal _ refused
  | _ => constructor

theorem Rule.base?_eq {e e' : State} (rule : Rule e e') (more : e.control.isDone = false) :
    e'.control.base? = e.control.base? := by
  cases rule with
  | turn turn => exact turn.base?_eq more
  | fail fail => exact fail.base?_eq
  | _ => rfl

/-- An evaluation that is not done goes on alike in front of other chains, and to the same end. -/
structure State.Passes (e : State) (b : Behind) : Prop where
  graft : (e.graft b).step = e.step.graft b
  base : e.step.control.base? = e.control.base?

theorem passes_step {e : State} (b : Behind) (more : e.control.isDone = false) : e.Passes b where
  graft := ((step_rule e).graft more b).step_eq
  base := (step_rule e).base?_eq more

/-! ## Runs in front of other chains -/

/-- Behind a number of steps, both evaluations are where the one is, and to come to the same end. -/
structure State.InStep (e : State) (b : Behind) (n : Nat) : Prop where
  graft : (e.graft b).run n = (e.run n).graft b
  base : (e.run n).control.base? = e.control.base?

variable {b : Behind} {e : State}

/-- In front of other chains an evaluation takes the same steps, up to where it is done. -/
theorem run_graft (e : State) (b : Behind) (n : Nat) :
    e.InStep b n ∨ ∃ m < n, (e.run m).control.isDone = true ∧ e.InStep b m := by
  induction n with
  | zero => exact .inl ⟨rfl, rfl⟩
  | succ n ih =>
    rcases ih with inStep | ⟨m, lt, done, inStep⟩
    · cases done : (e.run n).control.isDone with
      | false =>
        obtain ⟨graft, base⟩ := passes_step b done
        refine .inl ⟨?_, ?_⟩
        · rw [← step_run, ← step_run, inStep.graft, graft]
        · rw [← step_run, base, inStep.base]
      | true => exact .inr ⟨n, Nat.lt_succ_self n, done, inStep⟩
    · exact .inr ⟨m, Nat.lt_succ_of_lt lt, done, inStep⟩

/-- The value or the error that an expression comes to is handed to what waits for the value. -/
def Outcome.answer (k : Cont .value) : Outcome → Control
  | .value v => .give v k
  | .flow f => .ended (.flow f)
  | .fault e => .raise e k

theorem answer_of_done {c : Control} (done : c.isDone = true) (value : c.base? = some .value) :
    ∃ o, c = o.answer .value ∧ ∀ it, State.Ends ⟨c, it⟩ o it := by
  unfold Control.isDone at done
  split at done
  · rename_i v
    exact ⟨.value v, rfl, fun it => ends_step.1 (ends_ended _ it)⟩
  · cases value
  · rename_i e
    exact ⟨.fault e, rfl, fun it => ends_step.1 (ends_ended _ it)⟩
  · cases value
  · cases done

theorem graft_answer (b : Behind) {o : Outcome} (value : (o.answer .value).base? = some .value) :
    (o.answer .value).graft b = o.answer b.value := by
  cases o with
  | flow f => cases value
  | _ => rfl

theorem base?_graft (b : Behind) {c : Control} (ended : (c.graft b).base? = none) :
    c.base? = none := by
  cases c with
  | ended o => rfl
  | _ => cases ended

/-- What ends, in front of other chains or not, is done at some moment. -/
theorem exists_done (running : e.control.base? ≠ none) {n : Nat}
    (ended : (e.run n).control.base? = none ∨ ((e.graft b).run n).control.base? = none) :
    ∃ m, (e.run m).control.isDone = true ∧ e.InStep b m := by
  rcases run_graft e b n with inStep | ⟨m, -, done, inStep⟩
  · -- neither side could have ended
    exfalso
    apply running
    rw [← inStep.base]
    rcases ended with ended | ended
    · exact ended
    · rw [inStep.graft] at ended
      exact base?_graft b ended
  · exact ⟨m, done, inStep⟩

variable {o : Outcome}

/-- An expression that is evaluated in front of something comes to where it hands over what it comes
to alone. -/
theorem reaches_graft (value : e.control.base? = some .value) (b : Behind) (ends : e.Ends o it) :
    ∃ n, (e.graft b).run n = ⟨o.answer b.value, it⟩ := by
  obtain ⟨n, hn⟩ := ends
  have running : e.control.base? ≠ none := by
    rw [value]
    rintro ⟨⟩
  obtain ⟨m, done, inStep⟩ := @exists_done b e running n (.inl (by rw [hn]; rfl))
  have base : (e.run m).control.base? = some .value := inStep.base.trans value
  obtain ⟨o', answer, ends⟩ := answer_of_done done base
  have same : e.Ends o' (e.run m).it := (ends_run m).1 (ends _)
  obtain ⟨rfl, rfl⟩ := same.unique ⟨n, hn⟩
  refine ⟨m, ?_⟩
  rw [inStep.graft, State.graft, answer, graft_answer b (answer ▸ base)]

/-- In front of something, an expression comes to an end only if it does alone. -/
theorem ends_of_graft (value : e.control.base? = some .value) (ends : (e.graft b).Ends o it) :
    ∃ o' it', e.Ends o' it' := by
  obtain ⟨n, hn⟩ := ends
  have running : e.control.base? ≠ none := by
    rw [value]
    rintro ⟨⟩
  obtain ⟨m, done, inStep⟩ := @exists_done b e running n (.inr (by rw [hn]; rfl))
  obtain ⟨o', -, ends⟩ := answer_of_done done (inStep.base.trans value)
  exact ⟨o', (e.run m).it, (ends_run m).1 (ends _)⟩

end Lox.Eval
