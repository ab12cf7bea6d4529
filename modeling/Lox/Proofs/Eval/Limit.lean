/-
The call limit. Nothing but the entry of a function looks at it, so up to the first call that is
refused a run takes the same steps under a greater limit (`run_limited`). Where a call is refused, as
many calls are open as the limit says.

The main result is `limit_only_cuts`: a limit makes no difference to a run, or cuts it short.
-/
import Mathlib.Data.Nat.Find
import Lox.Proofs.Eval.Home
import Lox.Proofs.Eval.Hosted

namespace Lox

/-- The interpreter with another call limit. -/
def Interpreter.limited (it : Interpreter) (limit : Nat) : Interpreter := { it with maxDepth := limit }

namespace Eval

/-- The evaluation under another call limit. -/
def State.limited (e : State) (limit : Nat) : State := ⟨e.control, e.it.limited limit⟩

/-! ## Steps under another limit -/

/-- Under a greater limit a step is the same step, unless it refuses a call. -/
theorem step_limited {e : State} {limit : Nat} (le : e.it.maxDepth ≤ limit)
    (accepted : ∀ paren, ¬e.Overflows paren) : (e.limited limit).step = e.step.limited limit :=
  @step_hosted e limit id le (fun paren overflows => absurd overflows (accepted paren))
    fun _ _ => rfl

/-- Under a greater limit a run is the same run, up to the first call that is refused. -/
theorem run_limited {e : State} {limit : Nat} (le : e.it.maxDepth ≤ limit) {n : Nat}
    (accepted : ∀ m < n, ∀ paren, ¬(e.run m).Overflows paren) :
    (e.limited limit).run n = (e.run n).limited limit := by
  induction n with
  | zero => rfl
  | succ n ih =>
    have le' : (e.run n).it.maxDepth ≤ limit := by
      rw [(run_keeps e n).maxDepth]
      exact le
    rw [← step_run, ← step_run, ih fun m lt => accepted m (Nat.lt_succ_of_lt lt),
      step_limited le' (accepted n (Nat.lt_succ_self n))]

/-! ## The first call that is refused -/

/-- Where a call is refused, exactly as many calls are open as the limit says: those that were open
before the evaluation, and those of it that wait. -/
theorem State.Refused.reaches {e : State} (within : e.it.depth ≤ e.it.maxDepth)
    (none : e.control.openCalls = 0) {n : Nat} {paren : Token} {k : Cont .value} {f : FunctionRef}
    {c : Closure} {args : List Value} (h : (e.run n).Refused paren k f c args) :
    e.it.depth + k.openCalls = e.it.maxDepth := by
  have counted : (e.run n).it.depth = e.it.depth + k.openCalls := by
    have counts := run_counts (by rw [none, Nat.add_zero] : e.it.depth = e.it.depth + _) n
    rwa [h.control] at counts
  have below : (e.run n).it.depth ≤ e.it.maxDepth := (run_homeward n e).depth within
  have reached : e.it.maxDepth ≤ (e.run n).it.depth := by
    rw [← (run_keeps e n).maxDepth]
    exact h.reached
  rw [← counted]
  exact Nat.le_antisymm below reached

/-- An evaluation that ends with a stack overflow ends so because of the first call that is refused,
and prints nothing any more from there. -/
theorem exists_first_refused {e : State} (fine : e.control.overflow? = none) {paren : Token}
    {it : Interpreter} (h : e.Ends (.fault (.stackOverflow paren)) it) :
    ∃ n, (∀ m < n, ∀ paren, ¬(e.run m).Overflows paren) ∧ (e.run n).Overflows paren ∧
      it.sink = (e.run n).it.sink := by
  classical
  have refused : ∃ n paren, (e.run n).Overflows paren := by
    obtain ⟨n, hn⟩ := h
    obtain ⟨m, _, refused⟩ := exists_refused fine (congrArg (·.control.overflow?) hn)
    exact ⟨m, paren, refused⟩
  obtain ⟨paren', first⟩ := Nat.find_spec refused
  obtain ⟨it', ends, _, sink⟩ := first.ends
  obtain ⟨same, rfl⟩ := h.unique ((ends_run _).1 ends)
  cases same
  exact ⟨_, fun m lt paren refuses => Nat.find_min refused lt ⟨paren, refuses⟩, first, sink⟩

/-- An evaluation that does not end with a stack overflow refuses no call. -/
theorem not_overflows {e : State}
    (h : ∀ paren it, ¬e.Ends (.fault (.stackOverflow paren)) it) (n : Nat) (paren : Token) :
    ¬(e.run n).Overflows paren := by
  intro refused
  obtain ⟨it, ends, -⟩ := refused.ends
  exact h paren it ((ends_run n).1 ends)

/-- Only calls of functions are refused. -/
theorem overflow?_call {it : Interpreter} {callee : Value} (h : ∀ f, callee ≠ .function f)
    {paren : Token} {args : List Value} {k : Cont .value} :
    (call it callee paren args k).control.overflow? = none := by
  by_contra overflows
  obtain ⟨paren', overflows⟩ := Option.ne_none_iff_exists'.1 overflows
  rcases (step_next ⟨.call callee paren args k, it⟩).overflow paren' overflows with ⟨⟨⟩⟩ | refused
  obtain ⟨_, f, _, _, refused⟩ := refused
  injection refused.control with same
  exact h f same

/-- A program fails with a stack overflow exactly if its evaluation ends with one. -/
theorem interpret_stackOverflow {it it' : Interpreter} {program : List Stmt} {paren : Token} :
    (∃ fuel, it.interpret fuel program = some (.error (.stackOverflow paren), it')) ↔
      State.Ends ⟨.executeAll program .flow, it⟩ (.fault (.stackOverflow paren)) it' := by
  constructor
  · rintro ⟨fuel, h⟩
    obtain ⟨⟨o, t⟩, ran, concluded⟩ := Option.map_eq_some_iff.1 h
    injection concluded with failed same
    subst same
    cases o with
    | fault e =>
      cases failed
      exact ends_of_runFor ran
    | value | flow =>
      -- what goes wrong with the flush is another error
      have flushed : t.sink.flush.mapError RuntimeError.output = .error (.stackOverflow paren) :=
        failed
      cases flush : t.sink.flush <;> rw [flush] at flushed <;> cases flushed
  · exact interpret_of_ends_fault

/-- How a program ends under another limit, if all of its evaluation is the same. -/
theorem interpret_limited {it : Interpreter} {program : List Stmt} {limit fuel : Nat}
    (h : State.run fuel ⟨.executeAll program .flow, it.limited limit⟩ =
      (State.run fuel ⟨.executeAll program .flow, it⟩).limited limit) :
    (it.limited limit).interpret fuel program =
      (it.interpret fuel program).map fun (r, t) => (r, t.limited limit) := by
  exact @interpret_rehosted it (it.limited limit) program fuel (·.limited limit) (fun _ => rfl) h

end Eval

/-- A greater call limit makes no difference to a program that does not overflow, and one that does is
cut short. Natives and classes are called without regard to the limit. -/
theorem limit_only_cuts (it : Interpreter) (program : List Stmt) {limit limit' : Nat}
    (within : it.depth ≤ limit) (le : limit ≤ limit') :
    let under (d : Nat) : Eval.State := ⟨.executeAll program .flow, it.limited d⟩
    -- without an overflow everything is the same, at every step and in the end
    ((∀ fuel paren t,
        (it.limited limit).interpret fuel program ≠ some (.error (.stackOverflow paren), t)) →
      ∀ fuel, (under limit').run fuel = ((under limit).run fuel).limited limit' ∧
        (it.limited limit').interpret fuel program =
          ((it.limited limit).interpret fuel program).map fun (r, t) => (r, t.limited limit')) ∧
    -- an overflow is the refusal of a call that the program makes where the limit is reached
    (∀ fuel paren t,
      (it.limited limit).interpret fuel program = some (.error (.stackOverflow paren), t) →
      ∃ n k f c args, ((under limit).run n).Refused paren k f c args ∧
        it.depth + k.openCalls = limit ∧
        (∃ m < n, ∃ callee es, ((under limit).run m).control = .evaluate (.call callee paren es) k ∧
          es.length = args.length) ∧
        -- with a greater limit the run gets there too, and goes on from there
        (under limit').run n = ((under limit).run n).limited limit' ∧
        t.sink = ((under limit).run n).it.sink ∧
        ∀ m ≥ n, t.sink.Continues ((under limit').run m).it.sink) ∧
    (∀ (now : Interpreter) n paren args k,
      (Eval.call now (.native n) paren args k).control.overflow? = none) ∧
    ∀ (now : Interpreter) c paren args k,
      (Eval.call now (.class c) paren args k).control.overflow? = none := by
  intro under
  refine ⟨fun fine fuel => ?_, fun fuel paren t h => ?_, fun now n paren args k => ?_,
    fun now c paren args k => ?_⟩
  · have accepted := Eval.not_overflows (e := under limit) fun paren t ends => by
      obtain ⟨fuel, h⟩ := Eval.interpret_stackOverflow.2 ends
      exact fine fuel paren t h
    have same : (under limit').run fuel = ((under limit).run fuel).limited limit' :=
      Eval.run_limited (e := under limit) le fun m _ => accepted m
    exact ⟨same, @Eval.interpret_limited (it.limited limit) program limit' fuel same⟩
  · have ends := Eval.interpret_stackOverflow.1 ⟨fuel, h⟩
    obtain ⟨n, before, ⟨k, f, c, args, refused⟩, sink⟩ := Eval.exists_first_refused rfl ends
    have same : (under limit').run n = ((under limit).run n).limited limit' :=
      Eval.run_limited (e := under limit) le before
    refine ⟨n, k, f, c, args, refused, refused.reaches within rfl,
      Eval.exists_expression (e := under limit) (fun _ => trivial) refused.control, same, sink,
      fun m after => ?_⟩
    have continues := Eval.run_continues (under limit') after
    rw [same] at continues
    rw [sink]
    exact continues
  · exact Eval.overflow?_call fun _ => Value.noConfusion
  · exact Eval.overflow?_call fun _ => Value.noConfusion

/-- With room for one call, a recursion is cut short at the second; a program without calls is not. -/
theorem recursion_is_cut :
    let paren : Token := ⟨.rightParen, ")", 1⟩
    let f : Token := ⟨.identifier, "f", 1⟩
    let recursion : List Stmt :=
      [.function ⟨f, [], [.print (.literal .nil), .expression (.call (.variable 0 f) paren [])]⟩,
        .expression (.call (.variable 1 f) paren [])]
    let it := Interpreter.start 0 .unlimited (.stopped 0)
    (∀ fuel, (it.limited 2).interpret fuel [.print (.literal .nil)] =
      ((it.limited 1).interpret fuel [.print (.literal .nil)]).map fun (r, t) => (r, t.limited 2)) ∧
    ∃ t, (it.limited 1).interpret 40 recursion = some (.error (.stackOverflow paren), t) ∧
      ∃ n k, Eval.Cont.openCalls (a := .value) k = 1 ∧ ∀ m ≥ n, t.sink.Continues
        (Eval.State.run m ⟨.executeAll recursion .flow, it.limited 2⟩).it.sink := by
  intro paren f recursion it
  constructor
  · have fine : ∀ fuel paren t, (it.limited 1).interpret fuel [.print (.literal .nil)] ≠
        some (.error (.stackOverflow paren), t) := by
      intro fuel paren t h
      have ends : Eval.State.Ends ⟨.executeAll [.print (.literal .nil)] .flow, it.limited 1⟩
          (.flow .normal) _ := ⟨10, rfl⟩
      cases (ends.unique (Eval.interpret_stackOverflow.1 ⟨fuel, h⟩)).1
    exact fun fuel => ((limit_only_cuts it [.print (.literal .nil)] (Nat.zero_le 1)
      (Nat.le_succ 1)).1 fine fuel).2
  · have overflows : ((it.limited 1).interpret 40 recursion).map Prod.fst =
        some (.error (.stackOverflow paren)) := by decide +kernel
    obtain ⟨⟨r, t⟩, h, failed⟩ := Option.map_eq_some_iff.1 overflows
    obtain rfl : r = _ := failed
    obtain ⟨n, k, _, _, _, _, opened, _, _, _, continues⟩ :=
      (limit_only_cuts it recursion (Nat.zero_le 1) (Nat.le_succ 1)).2.1 40 paren t h
    exact ⟨t, h, n, k, (Nat.zero_add _).symm.trans opened, continues⟩

end Lox
