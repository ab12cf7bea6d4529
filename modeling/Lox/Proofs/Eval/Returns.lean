/-
A `return` ends the call that it is executed in, and nothing else. At the top level of an accepted
program there is none, whatever functions are called, so the program never ends with one. Within a
call, the first `return` that is executed is the last statement of the body: from there the run only
evaluates what is returned, and what that comes to is what the call comes to, behind all blocks, tests
and loops that the `return` stands in (`return_ends_call`).
-/
import Lox.Proofs.Eval.Code
import Lox.Proofs.Eval.Reach
import Lox.Proofs.Scoping.Accepted

namespace Lox

/-! ## Statements that do not return -/

theorem Stmt.returns_of_anyReturns {ss : List Stmt} (none : Stmt.anyReturns ss = false) :
    ∀ s ∈ ss, s.returns = false := by
  induction ss with
  | nil =>
    intro s hs
    cases hs
  | cons s ss ih =>
    obtain ⟨first, rest⟩ := Bool.or_eq_false_iff.1 none
    exact List.forall_mem_cons.2 ⟨first, ih rest⟩

theorem Stmt.returns_parts {s : Stmt} (none : s.returns = false) :
    ∀ s' ∈ s.parts, s'.returns = false := by
  cases s with
  | block body => exact returns_of_anyReturns none
  | «if» condition thenBranch elseBranch =>
    cases elseBranch with
    | none => exact List.forall_mem_cons.2 ⟨none, by simp⟩
    | some elseBranch =>
      obtain ⟨first, second⟩ := Bool.or_eq_false_iff.1 none
      exact List.forall_mem_cons.2 ⟨first, by simpa using second⟩
  | «while» condition body => exact List.forall_mem_cons.2 ⟨none, by simp⟩
  | _ =>
    intro s' hs
    cases hs

namespace Eval

/-- Code that returns from calls only. -/
def homely : Dialect where
  expression _ := True
  statement n s := n = 0 → s.returns = false
  returning n := 0 < n
  part := fun _ _ _ => trivial
  own := fun _ _ _ => trivial
  inner := fun hs s' part top => Stmt.returns_parts (hs top) s' part
  body := fun _ _ inside _ _ top => absurd top (Nat.ne_of_gt inside)
  leave := fun hs => Nat.pos_of_ne_zero fun top => Bool.noConfusion (hs top)

/-- What is executed in calls only. -/
def called : Dialect where
  expression _ := True
  statement n _ := 0 < n
  returning _ := True
  part := fun _ _ _ => trivial
  own := fun _ _ _ => trivial
  inner := fun inside _ _ => inside
  body := fun _ _ inside _ _ => inside
  leave := fun _ => trivial

/-- Whatever functions there are, they are executed in calls. -/
theorem heap_homely (h : Heap) : h.In homely :=
  fun _ _ _ _ inside _ _ top => absurd top (Nat.ne_of_gt inside)

theorem heap_called (h : Heap) : h.In called := fun _ _ _ _ inside _ _ => inside

/-! ## Accepted programs -/

/-- An accepted program comes to its end, or to an error, whatever state it is run in. -/
theorem ends_of_accepted {ss : List Stmt} {ds : Distances} (accepted : distancesOf ss = .ok ds)
    {it it' : Interpreter} {o : Outcome} (ends : State.Ends ⟨.executeAll ss .flow, it⟩ o it') :
    o = .flow .normal ∨ ∃ e, o = .fault e := by
  obtain ⟨none, -⟩ := distancesOf_eq_ok.1 accepted
  obtain ⟨-, -, top⟩ := @Stmt.allowed_of_errorsAll [] false .start ss none
  have code : State.In homely ⟨.executeAll ss .flow, it⟩ :=
    ⟨⟨fun s hs _ => Stmt.returns_of_anyReturns (top rfl) s hs, trivial⟩, heap_homely it.heap⟩
  rcases exists_flow_or_fault rfl ends with ⟨f, rfl⟩ | fault
  · cases f with
    | normal => exact .inl rfl
    | returned v =>
      obtain ⟨n, hn⟩ := ends
      have control := (run_in code n).control
      rw [hn] at control
      exact absurd (control v rfl) (Nat.lt_irrefl 0)
  · exact .inr fault

/-! ## Leaving a call -/

/-- The number of calls open around the statement that is executed next. -/
def Control.statement? : Control → Option Nat
  | .execute _ k => some k.openCalls
  | _ => none

/-- A value that is returned is handed out of all that the `return` stands in. -/
theorem reaches_finish (v : Value) (frame : FrameRef) (k : Cont .value) : ∀ (j : Cont .flow)
    (it : Interpreter), j.openCalls = 0 →
      ∃ n, State.run n ⟨.finish (.returned v) (j.onto (.callEnd frame k)), it⟩ =
        ⟨.give v k, leave it frame⟩
  | .flow, it, _ => ⟨1, rfl⟩
  | .sequence _ j, it, own => by
    obtain ⟨n, hn⟩ := reaches_finish v frame k j it own
    exact ⟨n + 1, by rw [run_succ]; exact hn⟩
  | .whileBody _ _ j, it, own => by
    obtain ⟨n, hn⟩ := reaches_finish v frame k j it own
    exact ⟨n + 1, by rw [run_succ]; exact hn⟩
  | .blockEnd outer j, it, own => by
    obtain ⟨n, hn⟩ := reaches_finish v frame k j (it.enter outer) own
    exact ⟨n + 1, by rw [run_succ]; exact hn⟩

/-- And so is an error. -/
theorem reaches_raise (e : RuntimeError) (frame : FrameRef) (k : Cont .value) : ∀ (j : Cont .flow)
    (it : Interpreter), j.openCalls = 0 →
      ∃ n, State.run n ⟨.raise e (j.onto (.callEnd frame k)), it⟩ = ⟨.raise e k, leave it frame⟩
  | .flow, it, _ => ⟨1, rfl⟩
  | .sequence _ j, it, own => by
    obtain ⟨n, hn⟩ := reaches_raise e frame k j it own
    exact ⟨n + 1, by rw [run_succ]; exact hn⟩
  | .whileBody _ _ j, it, own => by
    obtain ⟨n, hn⟩ := reaches_raise e frame k j it own
    exact ⟨n + 1, by rw [run_succ]; exact hn⟩
  | .blockEnd outer j, it, own => by
    obtain ⟨n, hn⟩ := reaches_raise e frame k j (it.enter outer) own
    exact ⟨n + 1, by rw [run_succ]; exact hn⟩

/-- The evaluation is on its way out: no statement is executed any more. -/
def Control.isLeaving : Control → Bool
  | .finish (.returned _) k => k.openCalls == 0
  | .raise _ _ => true
  | .ended _ => true
  | _ => false

theorem statement?_of_isLeaving {c : Control} (leaving : c.isLeaving = true) : c.statement? = none := by
  unfold Control.isLeaving at leaving
  split at leaving
  · rfl
  · rfl
  · rfl
  · cases leaving

theorem step_isLeaving {e : State} (leaving : e.control.isLeaving = true) :
    e.step.control.isLeaving = true := by
  obtain ⟨control, it⟩ := e
  cases control with
  | finish f k =>
    cases f with
    | normal => cases leaving
    | returned v =>
      cases k with
      | callEnd => cases leaving
      | _ => exact leaving
  | raise e k => cases k <;> rfl
  | ended o => rfl
  | _ => cases leaving

theorem run_isLeaving {e : State} (leaving : e.control.isLeaving = true) (n : Nat) :
    (e.run n).control.isLeaving = true :=
  run_invariant (P := fun e => e.control.isLeaving = true) (fun _ => step_isLeaving) leaving n

/-! ## What is returned -/

/-- The evaluation, alone, of what a `return` gives back. -/
def returning (it : Interpreter) : Option Expr → State
  | some e => ⟨.evaluate e .value, it⟩
  | none => ⟨.give .nil .value, it⟩

section

variable {it it' : Interpreter} {keyword : Token} {value : Option Expr} {j : Cont .flow}

theorem depth_returning {o : Outcome} (ends : (returning it value).Ends o it') :
    it'.depth = it.depth := by
  obtain ⟨n, hn⟩ := ends
  have start : (returning it value).it.depth = it.depth + (returning it value).control.openCalls := by
    cases value <;> rfl
  have counted := run_counts start n
  rw [hn] at counted
  exact counted

/-- What is returned is evaluated in front of all that the `return` stands in. -/
theorem step_return_some (e : Expr) (k : Cont .flow) :
    State.step ⟨.execute (.return keyword (some e)) k, it⟩ =
      (returning it (some e)).graft ⟨.returned k, .flow⟩ := rfl

/-- A `return` in a call gives back what its value comes to. -/
theorem reaches_return (own : j.openCalls = 0) {v : Value}
    (ends : (returning it value).Ends (.value v) it') (frame : FrameRef) (k : Cont .value) :
    ∃ n, State.run n ⟨.execute (.return keyword value) (j.onto (.callEnd frame k)), it⟩ =
      ⟨.give v k, leave it' frame⟩ := by
  cases value with
  | none =>
    obtain ⟨same, rfl⟩ := ends.unique (ends_step.1 (ends_ended (.value .nil) it))
    cases same
    obtain ⟨n, hn⟩ := reaches_finish .nil frame k j it' own
    exact ⟨n + 1, by rw [run_succ]; exact hn⟩
  | some e =>
    obtain ⟨m, hm⟩ := reaches_graft rfl ⟨.returned (j.onto (.callEnd frame k)), .flow⟩ ends
    obtain ⟨n, hn⟩ := reaches_finish v frame k j it' own
    refine ⟨m + (n + 1) + 1, ?_⟩
    rw [run_succ, step_return_some, run_add, hm, run_succ]
    exact hn

/-- And an error of its value is one of the call. -/
theorem raises_return (own : j.openCalls = 0) {err : RuntimeError}
    (ends : (returning it value).Ends (.fault err) it') (frame : FrameRef) (k : Cont .value) :
    ∃ n, State.run n ⟨.execute (.return keyword value) (j.onto (.callEnd frame k)), it⟩ =
      ⟨.raise err k, leave it' frame⟩ := by
  cases value with
  | none =>
    obtain ⟨same, -⟩ := ends.unique (ends_step.1 (ends_ended (.value .nil) it))
    cases same
  | some e =>
    obtain ⟨m, hm⟩ := reaches_graft rfl ⟨.returned (j.onto (.callEnd frame k)), .flow⟩ ends
    obtain ⟨n, hn⟩ := reaches_raise err frame k j it' own
    refine ⟨m + (n + 1) + 1, ?_⟩
    rw [run_succ, step_return_some, run_add, hm, run_succ]
    exact hn

/-- A `return` comes to an end only if its value does. -/
theorem ends_of_return {k : Cont .flow} {o : Outcome}
    (ends : State.Ends ⟨.execute (.return keyword value) k, it⟩ o it') :
    ∃ o' it₁, (returning it value).Ends o' it₁ := by
  cases value with
  | none => exact ⟨.value .nil, it, ends_step.1 (ends_ended _ it)⟩
  | some e =>
    rw [← ends_step, step_return_some] at ends
    exact ends_of_graft rfl ends

theorem openCalls_graft {a : Answer} (b : Behind) (k : Cont a) :
    k.openCalls ≤ (k.graft b).openCalls := by
  induction k with
  | value | flow => exact Nat.zero_le _
  | callEnd frame k ih => exact Nat.succ_le_succ ih
  | _ => assumption

/-- From a `return` on, what is executed is executed in calls that its value makes. -/
theorem statement?_return (own : j.openCalls = 0) {m : Nat} (later : 0 < m) :
    (State.run m ⟨.execute (.return keyword value) j, it⟩).control.statement? ≠ some 0 := by
  have leaving : ∀ {e : State} (n : Nat), e.control.isLeaving = true →
      (e.run n).control.statement? ≠ some 0 := by
    intro e n h
    rw [statement?_of_isLeaving (run_isLeaving h n)]
    rintro ⟨⟩
  obtain ⟨m, rfl⟩ := Nat.exists_eq_add_of_lt later
  rw [Nat.zero_add, run_succ]
  cases value with
  | none =>
    apply leaving
    exact beq_iff_eq.2 own
  | some e =>
    rw [step_return_some]
    have code : State.In called (returning it (some e)) := ⟨⟨trivial, trivial⟩, heap_called it.heap⟩
    rcases run_graft (returning it (some e)) ⟨.returned j, .flow⟩ m with inStep | ⟨n, lt, done, inStep⟩
    · -- still at the value, which executes nothing but calls
      rw [inStep.graft]
      have control := (run_in code m).control
      generalize (returning it (some e)).run m = reached at control
      obtain ⟨c, it₁⟩ := reached
      cases c with
      | execute s k =>
        have inside : 0 < (k.graft ⟨.returned j, .flow⟩).openCalls :=
          Nat.lt_of_lt_of_le control.1 (openCalls_graft _ k)
        intro top
        exact absurd (Option.some.inj top) (Nat.ne_of_gt inside)
      | _ => rintro ⟨⟩
    · -- the value is there, so the call is left
      obtain ⟨o, answer, -⟩ := answer_of_done done inStep.base
      have handed : (((returning it (some e)).graft ⟨.returned j, .flow⟩).run (n + 1)).control.isLeaving =
          true := by
        rw [← step_run, inStep.graft, State.graft, answer,
          graft_answer _ (answer ▸ inStep.base : (o.answer .value).base? = some .value)]
        cases o with
        | value v => exact beq_iff_eq.2 own
        | flow f => rfl
        | fault err => rfl
      rw [← Nat.add_sub_cancel' (Nat.succ_le_of_lt lt), run_add]
      exact leaving _ handed

end

/-! ## Calls -/

/-- A call of a function that is let in. -/
structure Admitted (it : Interpreter) (f : FunctionRef) (c : Closure) (args : List Value) : Prop where
  function : it.heap.function? f = some c
  arity : args.length = c.decl.params.length
  room : it.depth < it.maxDepth

/-- The body of a function that was entered, alone. -/
def activation (it : Interpreter) (c : Closure) (args : List Value) : State :=
  ⟨.executeAll c.decl.body .flow, entered it c args⟩

variable {it : Interpreter} {f : FunctionRef} {c : Closure} {args : List Value}

theorem Admitted.step (admitted : Admitted it f c args) (paren : Token) (k : Cont .value) :
    State.step ⟨.call (.function f) paren args k, it⟩ =
      (activation it c args).onto (.callEnd it.frame k) :=
  (Rule.call it f c paren args k admitted.function admitted.arity admitted.room).step_eq

/-- Where a statement is over, the evaluation has ended with the next step. -/
theorem ended_of_over {e : State} {m n : Nat} (isOver : (e.run m).control.isOver = true) (lt : m < n) :
    ∃ o it, e.run n = ⟨.ended o, it⟩ := by
  obtain ⟨o, it, ended⟩ : ∃ o it, (e.run m).step = ⟨.ended o, it⟩ := by
    generalize e.run m = reached at isOver
    obtain ⟨c, it⟩ := reached
    unfold Control.isOver at isOver
    split at isOver
    · rename_i f hc
      obtain rfl : c = .finish f .flow := hc
      exact ⟨.flow f, it, rfl⟩
    · rename_i err hc
      obtain rfl : c = .raise err .flow := hc
      exact ⟨.fault err, it, rfl⟩
    · cases isOver
  refine ⟨o, it, ?_⟩
  rw [← Nat.add_sub_cancel' (Nat.succ_le_of_lt lt), run_add, Nat.succ_eq_add_one, ← step_run, ended,
    run_ended]

/-- As long as the body has statements to execute, the call is where the body alone is. -/
theorem Admitted.run (admitted : Admitted it f c args) (paren : Token) (k : Cont .value) {n : Nat}
    {s : Stmt} {j : Cont .flow} (next : ((activation it c args).run n).control = .execute s j) :
    State.run (n + 1) ⟨.call (.function f) paren args k, it⟩ =
      ⟨.execute s (j.onto (.callEnd it.frame k)), ((activation it c args).run n).it⟩ := by
  rw [run_succ, admitted.step]
  rcases run_onto (e := activation it c args) rfl (.callEnd it.frame k) n with
    ⟨same, -⟩ | ⟨m, le, isOver, -⟩
  · rw [same, State.onto, next]
    rfl
  · exfalso
    rcases Nat.lt_or_eq_of_le le with lt | rfl
    · obtain ⟨o, it', ended⟩ := ended_of_over isOver lt
      rw [ended] at next
      cases next
    · rw [next] at isOver
      cases isOver

/-- Within a body but outside of the calls it makes, one call more is open than before. -/
theorem depth_activation {n : Nat} {s : Stmt} {j : Cont .flow}
    (next : ((activation it c args).run n).control = .execute s j) (own : j.openCalls = 0) :
    ((activation it c args).run n).it.depth = it.depth + 1 := by
  have counted := @run_counts (activation it c args) (it.depth + 1) rfl n
  rw [next] at counted
  rw [counted, Control.openCalls, own]

/-- The interpreter behind a call is where it was in front of it. -/
theorem leave_activation {it' : Interpreter} (depth : it'.depth = it.depth + 1) :
    leave it' it.frame = { it' with frame := it.frame, depth := it.depth } := by
  rw [leave, depth, Nat.add_sub_cancel]

end Eval

open Eval

/-- A list of statements that is accepted never ends with a `return`, in whatever state it is run and
whatever functions there are to be called. In a call, a `return` that is executed outside of the calls
that the body makes, however deep in blocks, tests and loops, is its last: no other statement of the
body is executed behind it. The call comes to what the value of the `return` comes to alone, with the
caller's frame and depth back and the rest of the caller waiting as before. -/
theorem return_ends_call (it : Interpreter) :
    (∀ ss ds, distancesOf ss = .ok ds → ∀ fuel r it', it.executeAll fuel ss = some (r, it') →
      r = .ok .normal ∨ ∃ e, r = .error e) ∧
    ∀ f c args, Admitted it f c args → ∀ n keyword value j,
      ((activation it c args).run n).control = .execute (.return keyword value) j →
      j.openCalls = 0 →
      let there := ((activation it c args).run n).it
      let back := fun it' : Interpreter => { it' with frame := it.frame, depth := it.depth }
      (∀ m s j', n < m → ((activation it c args).run m).control = .execute s j' →
        0 < j'.openCalls) ∧
      ∀ paren k,
        State.run (n + 1) ⟨.call (.function f) paren args k, it⟩ =
          ⟨.execute (.return keyword value) (j.onto (.callEnd it.frame k)), there⟩ ∧
        (∀ v it', (returning there value).Ends (.value v) it' →
          ∃ m, State.run m ⟨.call (.function f) paren args k, it⟩ = ⟨.give v k, back it'⟩) ∧
        (∀ e it', (returning there value).Ends (.fault e) it' →
          ∃ m, State.run m ⟨.call (.function f) paren args k, it⟩ = ⟨.raise e k, back it'⟩) ∧
        ∀ o it', State.Ends ⟨.call (.function f) paren args k, it⟩ o it' →
          ∃ o' it₁, (returning there value).Ends o' it₁ := by
  constructor
  · intro ss ds accepted fuel r it' h
    obtain ⟨⟨o, it₁⟩, run, same⟩ := Option.map_eq_some_iff.1 h
    cases same
    rcases ends_of_accepted accepted (ends_of_runFor run) with rfl | ⟨e, rfl⟩
    · exact .inl rfl
    · exact .inr ⟨e, rfl⟩
  · intro f c args admitted n keyword value j next own there back
    have depth : there.depth = it.depth + 1 := depth_activation next own
    have home : ∀ o it', (returning there value).Ends o it' → leave it' it.frame = back it' :=
      fun o it' ends => leave_activation ((depth_returning ends).trans depth)
    constructor
    · intro m s j' later next'
      obtain ⟨i, rfl⟩ := Nat.exists_eq_add_of_lt later
      have last := @statement?_return there keyword value j own (i + 1) (Nat.succ_pos i)
      have reached : (activation it c args).run n = ⟨.execute (.return keyword value) j, there⟩ := by
        rw [← next]
      rw [Nat.add_assoc, run_add, reached] at next'
      rw [next'] at last
      exact Nat.pos_of_ne_zero fun top => last (congrArg some top)
    · intro paren k
      have reached := admitted.run paren k next
      refine ⟨reached, ?_, ?_, ?_⟩
      · intro v it' ends
        obtain ⟨m, hm⟩ := @reaches_return there it' keyword value j own v ends it.frame k
        exact ⟨n + 1 + m, by rw [run_add, reached, hm, home _ _ ends]⟩
      · intro e it' ends
        obtain ⟨m, hm⟩ := @raises_return there it' keyword value j own e ends it.frame k
        exact ⟨n + 1 + m, by rw [run_add, reached, hm, home _ _ ends]⟩
      · intro o it' ends
        rw [← ends_run (n + 1), reached] at ends
        exact ends_of_return ends

/-- A function that returns from within a block of a loop, in front of another statement. -/
def escaping : Function where
  name := ⟨.identifier, "f", 1⟩
  params := []
  body := [.while (.literal (.bool true))
      (.block [.return ⟨.return, "return", 1⟩ (some (.literal (.string "out")))]),
    .print (.literal .nil)]

/-- Declaring the function is accepted, and a call of it gives what is returned. -/
theorem return_ends_call_escaping :
    let started := Interpreter.start 1 .unlimited (.stopped 0)
    let it := { started with heap := (started.heap.newFunction ⟨escaping, ⟨0⟩⟩).2 }
    (∃ ds, distancesOf [.function escaping] = .ok ds ∧
      ∀ fuel r it', it.executeAll fuel [.function escaping] = some (r, it') →
        r = .ok .normal ∨ ∃ e, r = .error e) ∧
    ∀ k, ∃ m it', State.run m ⟨.call (.function ⟨0⟩) ⟨.rightParen, ")", 1⟩ [] k, it⟩ =
        ⟨.give (.string "out") k, it'⟩ ∧ it'.depth = 0 := by
  intro started it
  obtain ⟨accepted, calls⟩ := return_ends_call it
  constructor
  · have none : distancesOf [.function escaping] =
        .ok (Stmt.scopeAll false .start [.function escaping]).distances :=
      distancesOf_eq_ok.2 ⟨by decide +kernel, rfl⟩
    exact ⟨_, none, accepted _ _ none⟩
  · intro k
    have admitted : Admitted it ⟨0⟩ ⟨escaping, ⟨0⟩⟩ [] := ⟨rfl, rfl, by decide⟩
    -- the function's frame is the second one, and the sixth step gets to the `return`
    obtain ⟨-, call⟩ := calls _ _ _ admitted 6 _ _
      (.sequence [] (.blockEnd ⟨1⟩ (.whileBody _ _ (.sequence _ .flow)))) rfl rfl
    obtain ⟨-, gives, -⟩ := call ⟨.rightParen, ")", 1⟩ k
    obtain ⟨m, hm⟩ := gives (.string "out") _ ⟨2, rfl⟩
    exact ⟨m, _, hm, rfl⟩

end Lox
