/-
Calls along a run, and what else can be said of a run whatever its code. The interpreter counts the
calls that wait for their end (`run_counts`); a call that is made is the one whose expression was
evaluated before what waits behind it (`exists_expression`); what is printed is never taken back; and
the only way to a stack overflow is the call of a function, with as many arguments as it takes, where
the limit is reached (`exists_refused`).

All of it follows from one statement on steps, `step_next`.
-/
import Lox.Proofs.Eval.Steps

namespace Lox

/-- The second sink has all that was printed to the first, and perhaps more behind it. -/
def Sink.Continues (s s' : Sink) : Prop := ∃ more, s'.written = s.written ++ more

namespace Sink.Continues

theorem refl (s : Sink) : s.Continues s := ⟨.empty, ByteArray.append_empty.symm⟩

theorem trans {s s' s'' : Sink} (h : s.Continues s') (h' : s'.Continues s'') : s.Continues s'' := by
  obtain ⟨more, h⟩ := h
  obtain ⟨more', h'⟩ := h'
  exact ⟨more ++ more', by rw [h', h, ByteArray.append_assoc]⟩

theorem print (s : Sink) (text : String) : s.Continues (s.print text).2 := by
  unfold Sink.print
  dsimp only
  split
  · exact ⟨_, rfl⟩
  · split <;> exact ⟨_, rfl⟩

end Sink.Continues

/-- The call that a stack overflow is blamed on. -/
def RuntimeError.overflow? : RuntimeError → Option Token
  | stackOverflow paren => some paren
  | _ => none

namespace Eval

/-! ## Calls that wait -/

/-- The number of calls that wait for their end. -/
def Cont.openCalls : {a : Answer} → Cont a → Nat
  | _, .value | _, .flow => 0
  | _, .callEnd _ k => k.openCalls + 1
  | _, .operand _ k | _, .leftOperand _ _ k | _, .rightOperand _ _ k | _, .decision _ _ k
  | _, .assigned _ _ k | _, .callee _ _ k | _, .argument _ _ _ _ k | _, .getObject _ k
  | _, .setObject _ _ k | _, .setValue _ _ k | _, .discarded k | _, .printed k
  | _, .initializer _ k | _, .returned k | _, .ifTest _ _ k | _, .whileTest _ _ k
  | _, .whileBody _ _ k | _, .sequence _ k | _, .blockEnd _ k => k.openCalls

def Control.openCalls : Control → Nat
  | .evaluate _ k => k.openCalls
  | .execute _ k => k.openCalls
  | .executeAll _ k => k.openCalls
  | .call _ _ _ k => k.openCalls
  | .give _ k => k.openCalls
  | .finish _ k => k.openCalls
  | .raise _ k => k.openCalls
  | .ended _ => 0

/-- A property of calls that are under way: of the parenthesis, of what waits behind the call, and of
the number of arguments. -/
abbrev CallProperty := Token → Cont .value → Nat → Prop

/-- All calls whose callee or arguments are still being evaluated have the property. -/
def Cont.Preparing (P : CallProperty) : {a : Answer} → Cont a → Prop
  | _, .value | _, .flow => True
  | _, .callee paren args k => P paren k args.length ∧ k.Preparing P
  | _, .argument _ paren done rest k =>
    P paren k (done.length + (rest.length + 1)) ∧ k.Preparing P
  | _, .operand _ k | _, .leftOperand _ _ k | _, .rightOperand _ _ k | _, .decision _ _ k
  | _, .assigned _ _ k | _, .getObject _ k | _, .setObject _ _ k | _, .setValue _ _ k
  | _, .discarded k | _, .printed k | _, .initializer _ k | _, .returned k | _, .ifTest _ _ k
  | _, .whileTest _ _ k | _, .whileBody _ _ k | _, .sequence _ k | _, .blockEnd _ k
  | _, .callEnd _ k => k.Preparing P

/-- And so has the call that is about to be made, if there is one. -/
def Control.Preparing (P : CallProperty) : Control → Prop
  | .call _ paren args k => P paren k args.length ∧ k.Preparing P
  | .evaluate _ k => k.Preparing P
  | .execute _ k => k.Preparing P
  | .executeAll _ k => k.Preparing P
  | .give _ k => k.Preparing P
  | .finish _ k => k.Preparing P
  | .raise _ k => k.Preparing P
  | .ended _ => True

/-! ## Overflows -/

/-- The call that a stack overflow is blamed on, if the evaluation ends with one or is about to. -/
def Control.overflow? : Control → Option Token
  | .raise e _ => e.overflow?
  | .ended (.fault e) => e.overflow?
  | _ => none

/-- The evaluation is about to call a function with as many arguments as it takes, and the limit does
not allow it. -/
structure State.Refused (e : State) (paren : Token) (k : Cont .value) (f : FunctionRef) (c : Closure)
    (args : List Value) : Prop where
  control : e.control = .call (.function f) paren args k
  function : e.it.heap.function? f = some c
  arity : args.length = c.decl.params.length
  reached : e.it.maxDepth ≤ e.it.depth

/-- Some call is refused. -/
def State.Overflows (e : State) (paren : Token) : Prop := ∃ k f c args, e.Refused paren k f c args

/-! ## Steps -/

/-- What is known of a step. -/
structure State.Next (e e' : State) : Prop where
  /-- The interpreter keeps counting the calls that wait, on top of `base` others. -/
  counts : ∀ base, e.it.depth = base + e.control.openCalls →
    e'.it.depth = base + e'.control.openCalls
  /-- A call that is prepared was so before, or its expression was about to be evaluated. -/
  preparing : ∀ P : CallProperty, (∀ callee paren args k,
      e.control = .evaluate (.call callee paren args) k → P paren k args.length) →
    e.control.Preparing P → e'.control.Preparing P
  sink : e.it.sink.Continues e'.it.sink
  /-- There is no stack overflow unless there was one, or a call is refused. -/
  overflow : ∀ paren, e'.control.overflow? = some paren →
    e.control.overflow? = some paren ∨ e.Overflows paren

/-- Most steps make no call and print nothing. -/
theorem State.Next.quiet {e e' : State} (depth : e'.it.depth = e.it.depth)
    (calls : e'.control.openCalls = e.control.openCalls)
    (preparing : ∀ P, e.control.Preparing P → e'.control.Preparing P)
    (sink : e'.it.sink = e.it.sink)
    (fine : e'.control.overflow? = none) : e.Next e' where
  counts := fun base h => by rw [depth, calls, h]
  preparing := fun P _ => preparing P
  sink := by
    rw [sink]
    exact .refl _
  overflow := fun paren h => by
    rw [fine] at h
    cases h

variable {it : Interpreter}

theorem Turn.openCalls_eq {c c' : Control} (turn : Turn it c c') : c'.openCalls = c.openCalls := by
  cases turn with
  | yield e k k' yields => cases yields <;> rfl
  | _ => rfl

theorem Fail.openCalls_eq {c : Control} {e : RuntimeError} {k : Cont .value} (fail : Fail it c e k) :
    k.openCalls = c.openCalls := by
  cases fail <;> rfl

theorem Turn.preparing {P : CallProperty} {c c' : Control} (turn : Turn it c c')
    (made : ∀ callee paren args k, c = .evaluate (.call callee paren args) k → P paren k args.length)
    (h : c.Preparing P) : c'.Preparing P := by
  cases turn with
  | call callee paren args k => exact ⟨made callee paren args k rfl, h⟩
  | firstArgument callee paren e es k =>
    refine ⟨?_, h.2⟩
    rw [List.length_nil, Nat.zero_add]
    exact h.1
  | lastArgument callee paren done v k =>
    refine ⟨?_, h.2⟩
    rw [List.length_reverse]
    exact h.1
  | nextArgument callee paren done v e es k =>
    refine ⟨?_, h.2⟩
    rw [List.length_cons, Nat.add_right_comm]
    exact h.1
  | yield e k k' yields =>
    cases yields with
    | callee | argument => exact h.2
    | _ => exact h
  | _ => exact h

theorem Fail.preparing {P : CallProperty} {c : Control} {e : RuntimeError} {k : Cont .value}
    (fail : Fail it c e k) (h : c.Preparing P) : k.Preparing P := by
  cases fail with
  | uncallable | miscounted | refused => exact h.2
  | _ => exact h

/-- An error stays the same on its way out. -/
theorem Turn.overflow?_eq {c c' : Control} (turn : Turn it c c') : c'.overflow? = c.overflow? := by
  cases turn <;> rfl

/-- The only way to a stack overflow is a refused call. -/
theorem Fail.overflows {c : Control} {e : RuntimeError} {k : Cont .value} (fail : Fail it c e k)
    {paren : Token} (h : e.overflow? = some paren) : State.Overflows ⟨c, it⟩ paren := by
  cases fail with
  | refused f c paren' args k found arity full =>
    obtain rfl : paren' = paren := Option.some.inj h
    exact ⟨k, f, c, args, rfl, found, arity, full⟩
  | _ => cases h

/-- The end of a call is taken off the count. -/
theorem depth_leave {depth base n : Nat} (h : depth = base + (n + 1)) : depth - 1 = base + n := by
  omega

theorem Rule.next {e e' : State} (rule : Rule e e') : e.Next e' := by
  cases rule with
  | turn turn =>
    refine ⟨fun base h => ?_, fun P made h => turn.preparing made h, .refl _, fun paren h => ?_⟩
    · rw [turn.openCalls_eq]
      exact h
    · rw [turn.overflow?_eq] at h
      exact .inl h
  | fail fail =>
    refine ⟨fun base h => ?_, fun P _ h => fail.preparing h, .refl _, fun paren h => ?_⟩
    · show _ = base + Cont.openCalls _
      rw [fail.openCalls_eq]
      exact h
    · exact .inr (fail.overflows h)
  | printed it v k =>
    exact ⟨fun _ h => h, fun _ _ h => h, .print .., fun _ h => by cases h⟩
  | unprinted it v refusal k =>
    exact ⟨fun _ h => h, fun _ _ h => h, .print .., fun _ h => by cases h⟩
  | call => exact ⟨fun _ h => congrArg (· + 1) h, fun _ _ h => h.2, .refl _, fun _ h => by cases h⟩
  | callEnd | callReturn =>
    exact ⟨fun _ => depth_leave, fun _ _ h => h, .refl _, fun _ h => by cases h⟩
  | callFault => exact ⟨fun _ => depth_leave, fun _ _ h => h, .refl _, fun _ => .inl⟩
  | blockFault => exact ⟨fun _ h => h, fun _ _ h => h, .refl _, fun _ => .inl⟩
  | native | nativeFault | instantiate => exact .quiet rfl rfl (fun _ h => h.2) rfl rfl
  | _ => exact .quiet rfl rfl (fun _ h => h) rfl rfl

theorem step_next (e : State) : e.Next e.step := (step_rule e).next

/-! ## Runs -/

/-- All along a run the interpreter counts exactly the calls that wait, on top of those that were
open before. -/
theorem run_counts {e : State} {base : Nat} (h : e.it.depth = base + e.control.openCalls) (n : Nat) :
    (e.run n).it.depth = base + (e.run n).control.openCalls :=
  run_invariant (P := fun e => e.it.depth = base + e.control.openCalls)
    (fun e counts => (step_next e).counts base counts) h n

/-- What is printed is never taken back. -/
theorem run_continues (e : State) {n m : Nat} (le : n ≤ m) :
    (e.run n).it.sink.Continues (e.run m).it.sink := by
  induction le with
  | refl => exact .refl _
  | step _ ih =>
    rw [Nat.succ_eq_add_one, ← step_run]
    exact ih.trans (step_next _).sink

/-- A call that is made is the one whose expression was evaluated before, in front of what now waits
behind the call. -/
theorem exists_expression {e : State} (fresh : ∀ P, e.control.Preparing P) {n : Nat}
    {callee : Value} {paren : Token} {args : List Value} {k : Cont .value}
    (h : (e.run n).control = .call callee paren args k) :
    ∃ m < n, ∃ f es, (e.run m).control = .evaluate (.call f paren es) k ∧
      es.length = args.length := by
  let P : CallProperty := fun paren k count => ∃ m < n, ∃ f es,
    (e.run m).control = .evaluate (.call f paren es) k ∧ es.length = count
  have upTo : ∀ m ≤ n, (e.run m).control.Preparing P := by
    intro m le
    induction m with
    | zero => exact fresh P
    | succ m ih =>
      rw [← step_run]
      refine (step_next _).preparing P (fun f paren es k made => ?_) (ih (Nat.le_of_succ_le le))
      exact ⟨m, le, f, es, made, rfl⟩
  have made := upTo n (Nat.le_refl n)
  rw [h] at made
  exact made.1

/-- Where there is a stack overflow, a call was refused before. -/
theorem exists_refused {e : State} (fine : e.control.overflow? = none) {n : Nat} {paren : Token}
    (h : (e.run n).control.overflow? = some paren) : ∃ m < n, (e.run m).Overflows paren := by
  induction n with
  | zero =>
    rw [State.run, fine] at h
    cases h
  | succ n ih =>
    rw [← step_run] at h
    rcases (step_next _).overflow paren h with before | refused
    · obtain ⟨m, lt, refused⟩ := ih before
      exact ⟨m, Nat.lt_succ_of_lt lt, refused⟩
    · exact ⟨n, Nat.lt_succ_self n, refused⟩

/-- An error that is raised ends the evaluation; on its way out nothing happens on the heap or to the
sink. -/
theorem ends_raise (it : Interpreter) (e : RuntimeError) {a : Answer} (k : Cont a) :
    ∃ it', State.Ends ⟨.raise e k, it⟩ (.fault e) it' ∧ it'.heap = it.heap ∧ it'.sink = it.sink := by
  -- what waits is given up from the inside out
  induction k generalizing it with
  | value | flow => exact ⟨it, ends_step.1 (ends_ended _ it), rfl, rfl⟩
  | blockEnd frame k ih =>
    obtain ⟨it', ends, heap, sink⟩ := ih (it.enter frame)
    exact ⟨it', ends_step.1 ends, heap, sink⟩
  | callEnd frame k ih =>
    obtain ⟨it', ends, heap, sink⟩ := ih { it.enter frame with depth := it.depth - 1 }
    exact ⟨it', ends_step.1 ends, heap, sink⟩
  | _ =>
    rename_i ih
    obtain ⟨it', ends, heap, sink⟩ := ih it
    exact ⟨it', ends_step.1 ends, heap, sink⟩

/-- A refused call ends the evaluation. -/
theorem State.Overflows.ends {e : State} {paren : Token} (h : e.Overflows paren) :
    ∃ it, e.Ends (.fault (.stackOverflow paren)) it ∧ it.heap = e.it.heap ∧
      it.sink = e.it.sink := by
  obtain ⟨k, f, c, args, h⟩ := h
  obtain ⟨control, it⟩ := e
  obtain rfl : control = .call (.function f) paren args k := h.control
  have refused : State.step ⟨.call (.function f) paren args k, it⟩ =
      ⟨.raise (.stackOverflow paren) k, it⟩ :=
    (Fail.refused f c paren args k h.function h.arity h.reached).step_eq
  obtain ⟨it', ends, heap, sink⟩ := ends_raise it (.stackOverflow paren) k
  rw [← refused] at ends
  exact ⟨it', ends_step.1 ends, heap, sink⟩

end Eval

end Lox
