/-
Code in front of other code. An evaluation looks at what waits only where it hands over a value or an
end, so it runs the same in front of anything that waits for a statement (`step_onto`), up to where
the statement is over. From this, a list of statements runs like its first part and then, if that
came to its end, like the rest: it ends as they do (`ends_append`) and prints on the way what they
print, also if it never ends (`prints_append`).
-/
import Lox.Proofs.Eval.Graft

namespace Lox.Eval

/-! ## Other code behind -/

/-- What waits, with more behind it. Behind an expression nothing can wait. -/
@[simp] def Cont.onto : {a : Answer} → Cont a → Cont .flow → Cont a
  | _, .value, _ => .value
  | _, .flow, outer => outer
  | _, .operand op k, outer => .operand op (k.onto outer)
  | _, .leftOperand op right k, outer => .leftOperand op right (k.onto outer)
  | _, .rightOperand op left k, outer => .rightOperand op left (k.onto outer)
  | _, .decision op right k, outer => .decision op right (k.onto outer)
  | _, .assigned id name k, outer => .assigned id name (k.onto outer)
  | _, .callee paren args k, outer => .callee paren args (k.onto outer)
  | _, .argument f paren done rest k, outer => .argument f paren done rest (k.onto outer)
  | _, .getObject name k, outer => .getObject name (k.onto outer)
  | _, .setObject name e k, outer => .setObject name e (k.onto outer)
  | _, .setValue target name k, outer => .setValue target name (k.onto outer)
  | _, .discarded k, outer => .discarded (k.onto outer)
  | _, .printed k, outer => .printed (k.onto outer)
  | _, .initializer name k, outer => .initializer name (k.onto outer)
  | _, .returned k, outer => .returned (k.onto outer)
  | _, .ifTest thenBranch elseBranch k, outer => .ifTest thenBranch elseBranch (k.onto outer)
  | _, .whileTest condition body k, outer => .whileTest condition body (k.onto outer)
  | _, .whileBody condition body k, outer => .whileBody condition body (k.onto outer)
  | _, .sequence rest k, outer => .sequence rest (k.onto outer)
  | _, .blockEnd frame k, outer => .blockEnd frame (k.onto outer)
  | _, .callEnd frame k, outer => .callEnd frame (k.onto outer)

@[simp] def Control.onto : Control → Cont .flow → Control
  | .evaluate e k, outer => .evaluate e (k.onto outer)
  | .execute s k, outer => .execute s (k.onto outer)
  | .executeAll ss k, outer => .executeAll ss (k.onto outer)
  | .call callee paren args k, outer => .call callee paren args (k.onto outer)
  | .give v k, outer => .give v (k.onto outer)
  | .finish f k, outer => .finish f (k.onto outer)
  | .raise e k, outer => .raise e (k.onto outer)
  | .ended o, _ => .ended o

/-- Is a statement over, with nothing waiting for its end? -/
def Control.isOver : Control → Bool
  | .finish _ .flow => true
  | .raise _ .flow => true
  | _ => false

namespace State

/-- The evaluation with more code behind it. -/
def onto (e : State) (outer : Cont .flow) : State := ⟨e.control.onto outer, e.it⟩

end State

/-! ## Steps in front of other code -/

theorem Cont.onto_eq_graft {a : Answer} (k : Cont a) (outer : Cont .flow) :
    k.onto outer = k.graft ⟨.value, outer⟩ := by
  induction k with
  | value | flow => rfl
  | _ => simp only [onto, graft, *]

theorem State.onto_eq_graft (e : State) (outer : Cont .flow) :
    e.onto outer = e.graft ⟨.value, outer⟩ := by
  obtain ⟨control, it⟩ := e
  cases control <;> simp only [onto, graft, Control.onto, Control.graft, Cont.onto_eq_graft]

/-- An evaluation that is done but not with a statement is done with an expression. -/
theorem done_of_over {c : Control} (more : c.isOver = false) (done : c.isDone = true) :
    (∃ v, c = .give v .value) ∨ ∃ err, c = .raise err .value := by
  unfold Control.isDone at done
  split at done
  · exact .inl ⟨_, rfl⟩
  · cases more
  · exact .inr ⟨_, rfl⟩
  · cases more
  · cases done

/-- A step is the same whatever else waits, unless the statement is over. -/
theorem step_onto {e : State} (h : e.control.isOver = false) (outer : Cont .flow) :
    (e.onto outer).step = e.step.onto outer := by
  obtain ⟨control, it⟩ := e
  cases done : control.isDone with
  | false =>
    rw [State.onto_eq_graft, State.onto_eq_graft]
    exact (passes_step _ done).graft
  | true =>
    rcases done_of_over h done with ⟨v, rfl⟩ | ⟨err, rfl⟩
    · rfl
    · rfl

/-- What is to come to the end of a statement still is behind a step, unless the statement is
over. -/
theorem base?_step {e : State} (h : e.control.isOver = false) (hb : e.control.base? = some .flow) :
    e.step.control.base? = some .flow := by
  obtain ⟨control, it⟩ := e
  cases done : control.isDone with
  | false =>
    rw [← hb]
    exact (passes_step ⟨.value, .flow⟩ done).base
  | true =>
    rcases done_of_over h done with ⟨v, rfl⟩ | ⟨err, rfl⟩
    · cases hb
    · cases hb

/-! ## Ends in front of other code -/

/-- In front of other code an evaluation takes the same steps, up to where its statement is over. -/
theorem run_onto {e : State} (hb : e.control.base? = some .flow) (outer : Cont .flow) (n : Nat) :
    ((e.onto outer).run n = (e.run n).onto outer ∧ (e.run n).control.base? = some .flow) ∨
      ∃ m, m ≤ n ∧ (e.run m).control.isOver = true ∧
        (e.onto outer).run m = (e.run m).onto outer := by
  induction n generalizing e with
  | zero => exact .inl ⟨rfl, hb⟩
  | succ n ih =>
    cases ho : e.control.isOver with
    | true => exact .inr ⟨0, Nat.zero_le _, ho, rfl⟩
    | false =>
      rw [run_succ, run_succ, step_onto ho]
      -- not over, so the step is the same and the rest is up to the induction
      rcases ih (base?_step ho hb) with same | ⟨m, le, isOver, same⟩
      · exact .inl same
      · refine .inr ⟨m + 1, Nat.succ_le_succ le, ?_, ?_⟩
        · rw [run_succ, isOver]
        · rw [run_succ, step_onto ho, same, run_succ]

/-- What comes to the end of a statement, in front of other code or not, gets to where the statement
is over, and does so in front of other code just the same. -/
theorem exists_over {e : State} (hb : e.control.base? = some .flow) {outer : Cont .flow} {n : Nat}
    (h : (e.run n).control.base? = none ∨ ((e.onto outer).run n).control.base? = none) :
    ∃ m, (e.run m).control.isOver = true ∧ (e.onto outer).run m = (e.run m).onto outer := by
  -- if the statement were not over by then, neither side could have ended
  rcases run_onto hb outer n with ⟨same, base⟩ | ⟨m, -, isOver, same⟩
  · rw [same, base] at h
    rcases h with h | h
    · cases h
    · generalize e.run n = reached at *
      obtain ⟨control, it⟩ := reached
      cases control with
      | ended o => cases base
      | _ => cases h
  · exact ⟨m, isOver, same⟩

/-- What a statement comes to is handed on to the code behind it. -/
def Outcome.handOn (outer : Cont .flow) : Outcome → Control
  | .value v => .ended (.value v)
  | .flow f => .finish f outer
  | .fault e => .raise e outer

theorem ends_of_over {c : Control} (h : c.isOver = true) (outer : Cont .flow) :
    ∃ o, c.onto outer = o.handOn outer ∧ ∀ it, State.Ends ⟨c, it⟩ o it := by
  unfold Control.isOver at h
  split at h
  · rename_i f
    exact ⟨.flow f, rfl, fun it => ends_step.1 (ends_ended _ it)⟩
  · rename_i e
    exact ⟨.fault e, rfl, fun it => ends_step.1 (ends_ended _ it)⟩
  · cases h

/-- In front of other code, a statement comes to what it comes to alone, and that is handed on. -/
theorem ends_onto {e : State} (hb : e.control.base? = some .flow) (outer : Cont .flow) {o : Outcome}
    {it : Interpreter} : (e.onto outer).Ends o it ↔
      ∃ o' it', e.Ends o' it' ∧ State.Ends ⟨o'.handOn outer, it'⟩ o it := by
  -- each side says that there is an end, so the statement is over somewhere, and it is there that
  -- they are compared
  have compared : ∀ n, (e.run n).control.base? = none ∨
      ((e.onto outer).run n).control.base? = none → ((e.onto outer).Ends o it ↔
        ∃ o' it', e.Ends o' it' ∧ State.Ends ⟨o'.handOn outer, it'⟩ o it) := by
    intro n hn
    obtain ⟨m, isOver, same⟩ := exists_over hb hn
    obtain ⟨o', handed, ends⟩ := ends_of_over isOver outer
    have first : e.Ends o' (e.run m).it := (ends_run m).1 (ends _)
    rw [← ends_run m, same, State.onto, handed]
    constructor
    · exact fun h => ⟨o', (e.run m).it, first, h⟩
    · rintro ⟨o'', it'', first', h⟩
      obtain ⟨rfl, rfl⟩ := first.unique first'
      exact h
  constructor
  · rintro ⟨n, hn⟩
    exact (compared n (.inr (by rw [hn]; rfl))).1 ⟨n, hn⟩
  · rintro ⟨o', it', ⟨n, hn⟩, h⟩
    exact (compared n (.inl (by rw [hn]; rfl))).2 ⟨o', it', ⟨n, hn⟩, h⟩

/-- What is to come to the end of a statement ends with a flow or an error. -/
theorem exists_flow_or_fault {e : State} (hb : e.control.base? = some .flow) {o : Outcome}
    {it : Interpreter} (h : e.Ends o it) : (∃ f, o = .flow f) ∨ ∃ err, o = .fault err := by
  obtain ⟨n, hn⟩ := h
  have ended : (e.run n).control.base? = none := by rw [hn]; rfl
  obtain ⟨m, isOver, -⟩ := @exists_over e hb .flow n (.inl ended)
  have rest : (e.run m).Ends o it := (ends_run m).2 ⟨n, hn⟩
  generalize e.run m = e at *
  obtain ⟨c, it₁⟩ := e
  unfold Control.isOver at isOver
  split at isOver
  · rename_i f hc
    obtain rfl : c = .finish f .flow := hc
    exact .inl ⟨f, (rest.unique (ends_step.1 (ends_ended (.flow f) it₁))).1⟩
  · rename_i err hc
    obtain rfl : c = .raise err .flow := hc
    exact .inr ⟨err, (rest.unique (ends_step.1 (ends_ended (.fault err) it₁))).1⟩
  · cases isOver

/-! ## Lists of statements -/

/-- The rest of a list is executed only behind the normal end of a statement. -/
theorem ends_handOn_sequence {o o' : Outcome} {rest : List Stmt} {it it' : Interpreter} :
    State.Ends ⟨o'.handOn (.sequence rest .flow), it'⟩ o it ↔
      o' = .flow .normal ∧ State.Ends ⟨.executeAll rest .flow, it'⟩ o it ∨
        o' ≠ .flow .normal ∧ o = o' ∧ it = it' := by
  -- what is not a normal end is handed on through the list
  have passed : ∀ c : Control, (∃ n, State.run n ⟨c, it'⟩ = ⟨.ended o', it'⟩) →
      (State.Ends ⟨c, it'⟩ o it ↔ o = o' ∧ it = it') := by
    intro c h
    constructor
    · exact fun h' => State.Ends.unique h' h
    · rintro ⟨rfl, rfl⟩
      exact h
  cases o' with
  | value v =>
    rw [passed (Outcome.handOn _ (.value v)) ⟨0, rfl⟩]
    simp
  | fault e =>
    rw [passed (Outcome.handOn _ (.fault e)) ⟨2, rfl⟩]
    simp
  | flow f => cases f with
    | normal =>
      rw [← ends_step]
      simp [Outcome.handOn, State.step, finish]
    | returned v =>
      rw [passed (Outcome.handOn _ (.flow (.returned v))) ⟨2, rfl⟩]
      simp

/-- A list runs its first statement and then, if that came to its end, the rest. -/
theorem ends_cons {s : Stmt} {ss : List Stmt} {o : Outcome} {it it' : Interpreter} :
    State.Ends ⟨.executeAll (s :: ss) .flow, it⟩ o it' ↔
      (∃ it₁, State.Ends ⟨.execute s .flow, it⟩ (.flow .normal) it₁ ∧
        State.Ends ⟨.executeAll ss .flow, it₁⟩ o it') ∨
      State.Ends ⟨.execute s .flow, it⟩ o it' ∧ o ≠ .flow .normal := by
  -- the first step puts the statement in front of the rest of the list
  have first : State.step ⟨.executeAll (s :: ss) .flow, it⟩ =
      State.onto ⟨.execute s .flow, it⟩ (.sequence ss .flow) := rfl
  rw [← ends_step, first, ends_onto rfl]
  simp only [ends_handOn_sequence]
  constructor
  · rintro ⟨o', it₁, h, ⟨rfl, hss⟩ | ⟨ne, rfl, rfl⟩⟩
    · exact .inl ⟨it₁, h, hss⟩
    · exact .inr ⟨h, ne⟩
  · rintro (⟨it₁, h, hss⟩ | ⟨h, ne⟩)
    · exact ⟨_, it₁, h, .inl ⟨rfl, hss⟩⟩
    · exact ⟨o, it', h, .inr ⟨ne, rfl, rfl⟩⟩

theorem ends_nil {o : Outcome} {it it' : Interpreter} :
    State.Ends ⟨.executeAll [] .flow, it⟩ o it' ↔ o = .flow .normal ∧ it' = it := by
  have ends : State.Ends ⟨.executeAll [] .flow, it⟩ (.flow .normal) it := ⟨2, rfl⟩
  constructor
  · exact fun h => h.unique ends
  · rintro ⟨rfl, rfl⟩
    exact ends

/-- A list of statements runs like its first part and then, if that came to its end, like the
rest. -/
theorem ends_append {ss ss' : List Stmt} {o : Outcome} {it it' : Interpreter} :
    State.Ends ⟨.executeAll (ss ++ ss') .flow, it⟩ o it' ↔
      (∃ it₁, State.Ends ⟨.executeAll ss .flow, it⟩ (.flow .normal) it₁ ∧
        State.Ends ⟨.executeAll ss' .flow, it₁⟩ o it') ∨
      State.Ends ⟨.executeAll ss .flow, it⟩ o it' ∧ o ≠ .flow .normal := by
  induction ss generalizing it with
  | nil =>
    rw [List.nil_append]
    constructor
    · exact fun h => .inl ⟨it, ends_nil.2 ⟨rfl, rfl⟩, h⟩
    · rintro (⟨it₁, done, h⟩ | ⟨done, ne⟩)
      · obtain ⟨-, rfl⟩ := ends_nil.1 done
        exact h
      · exact absurd (ends_nil.1 done).1 ne
  | cons s ss ih =>
    rw [List.cons_append, ends_cons]
    simp only [ih, ends_cons]
    constructor
    · rintro (⟨it₁, hs, ⟨it₂, hss, hss'⟩ | ⟨hss, ne⟩⟩ | ⟨hs, ne⟩)
      · exact .inl ⟨it₂, .inl ⟨it₁, hs, hss⟩, hss'⟩
      · exact .inr ⟨.inl ⟨it₁, hs, hss⟩, ne⟩
      · exact .inr ⟨.inr ⟨hs, ne⟩, ne⟩
    · rintro (⟨it₂, ⟨it₁, hs, hss⟩ | ⟨-, ne⟩, hss'⟩ | ⟨⟨it₁, hs, hss⟩ | ⟨hs, -⟩, ne⟩)
      · exact .inl ⟨it₁, hs, .inl ⟨it₂, hss, hss'⟩⟩
      · exact absurd rfl ne
      · exact .inl ⟨it₁, hs, .inr ⟨hss, ne⟩⟩
      · exact .inr ⟨hs, ne⟩

/-! ## What is printed on the way -/

/-- At some moment of the evaluation the sink is this one. -/
def State.Prints (e : State) (sink : Sink) : Prop := ∃ n, (e.run n).it.sink = sink

section

variable {sink : Sink}

theorem prints_run {e : State} {n : Nat} (h : (e.run n).Prints sink) : e.Prints sink := by
  obtain ⟨m, hm⟩ := h
  exact ⟨n + m, by rw [run_add, hm]⟩

theorem prints_step {e : State} : e.Prints sink ↔ e.it.sink = sink ∨ e.step.Prints sink := by
  constructor
  · rintro ⟨n, hn⟩
    cases n with
    | zero => exact .inl hn
    | succ n =>
      rw [run_succ] at hn
      exact .inr ⟨n, hn⟩
  · rintro (h | ⟨n, hn⟩)
    · exact ⟨0, h⟩
    · exact ⟨n + 1, by rw [run_succ, hn]⟩

theorem prints_ended {o : Outcome} {it : Interpreter} :
    State.Prints ⟨.ended o, it⟩ sink ↔ it.sink = sink := by
  constructor
  · rintro ⟨n, hn⟩
    rwa [run_ended] at hn
  · exact fun h => ⟨0, h⟩

/-- Nothing is printed where a statement is over. -/
theorem prints_of_over {e : State} (h : e.control.isOver = true) :
    e.Prints sink ↔ e.it.sink = sink := by
  rw [prints_step]
  obtain ⟨c, it⟩ := e
  unfold Control.isOver at h
  split at h
  · rename_i f hc
    obtain rfl : c = .finish f .flow := hc
    rw [show State.step ⟨.finish f .flow, it⟩ = ⟨.ended (.flow f), it⟩ from rfl, prints_ended,
      or_self]
  · rename_i err hc
    obtain rfl : c = .raise err .flow := hc
    rw [show State.step ⟨.raise err .flow, it⟩ = ⟨.ended (.fault err), it⟩ from rfl, prints_ended,
      or_self]
  · cases h

/-- In front of other code, a statement prints what it prints alone, and then, if it ends, what that
is handed on to prints. -/
theorem prints_onto {e : State} (hb : e.control.base? = some .flow) (outer : Cont .flow) :
    (e.onto outer).Prints sink ↔
      e.Prints sink ∨ ∃ o it, e.Ends o it ∧ State.Prints ⟨o.handOn outer, it⟩ sink := by
  constructor
  · rintro ⟨n, hn⟩
    rcases run_onto hb outer n with ⟨same, -⟩ | ⟨m, le, isOver, same⟩
    · left
      rw [same] at hn
      exact ⟨n, hn⟩
    · right
      obtain ⟨o, handed, ends⟩ := ends_of_over isOver outer
      refine ⟨o, (e.run m).it, (ends_run m).1 (ends _), n - m, ?_⟩
      rw [← Nat.add_sub_cancel' le, run_add, same, State.onto, handed] at hn
      exact hn
  · rintro (⟨n, hn⟩ | ⟨o, it, ended, printed⟩)
    · -- nothing more is printed between where the statement is over and its end
      rcases run_onto hb outer n with ⟨same, -⟩ | ⟨m, le, isOver, same⟩
      · exact ⟨n, by rw [same]; exact hn⟩
      · refine ⟨m, ?_⟩
        rw [← Nat.add_sub_cancel' le, run_add] at hn
        rw [same]
        exact (prints_of_over isOver).1 ⟨n - m, hn⟩
    · obtain ⟨n, hn⟩ := ended
      have ended : (e.run n).control.base? = none := by rw [hn]; rfl
      obtain ⟨m, isOver, same⟩ := @exists_over e hb outer n (.inl ended)
      obtain ⟨o', handed, ends⟩ := ends_of_over isOver outer
      have first : e.Ends o' (e.run m).it := (ends_run m).1 (ends _)
      obtain ⟨rfl, rfl⟩ := first.unique ⟨n, hn⟩
      refine @prints_run sink (e.onto outer) m ?_
      rw [same, State.onto, handed]
      exact printed

theorem prints_handOn_sequence {o : Outcome} {rest : List Stmt} {it : Interpreter} :
    State.Prints ⟨o.handOn (.sequence rest .flow), it⟩ sink ↔
      it.sink = sink ∨ o = .flow .normal ∧ State.Prints ⟨.executeAll rest .flow, it⟩ sink := by
  cases o with
  | value v =>
    rw [show Outcome.handOn _ (.value v) = Control.ended (.value v) from rfl, prints_ended]
    simp
  | fault e =>
    rw [prints_step, show State.step ⟨Outcome.handOn _ (.fault e), it⟩ = ⟨.raise e .flow, it⟩ from rfl,
      prints_of_over rfl]
    simp
  | flow f => cases f with
    | normal =>
      rw [prints_step]
      simp [Outcome.handOn, State.step, finish]
    | returned v =>
      rw [prints_step, show State.step ⟨Outcome.handOn _ (.flow (.returned v)), it⟩ =
        ⟨.finish (.returned v) .flow, it⟩ from rfl, prints_of_over rfl]
      simp

theorem State.Ends.prints {e : State} {o : Outcome} {it : Interpreter} (h : e.Ends o it) :
    e.Prints it.sink := by
  obtain ⟨n, hn⟩ := h
  exact ⟨n, by rw [hn]⟩

theorem prints_cons {s : Stmt} {ss : List Stmt} {it : Interpreter} :
    State.Prints ⟨.executeAll (s :: ss) .flow, it⟩ sink ↔
      State.Prints ⟨.execute s .flow, it⟩ sink ∨
        ∃ it₁, State.Ends ⟨.execute s .flow, it⟩ (.flow .normal) it₁ ∧
          State.Prints ⟨.executeAll ss .flow, it₁⟩ sink := by
  have first : State.step ⟨.executeAll (s :: ss) .flow, it⟩ =
      State.onto ⟨.execute s .flow, it⟩ (.sequence ss .flow) := rfl
  rw [prints_step, first, prints_onto rfl]
  simp only [prints_handOn_sequence]
  constructor
  · rintro (rfl | printed | ⟨o, it₁, ended, rfl | ⟨rfl, printed⟩⟩)
    · exact .inl ⟨0, rfl⟩
    · exact .inl printed
    · exact .inl ended.prints
    · exact .inr ⟨it₁, ended, printed⟩
  · rintro (printed | ⟨it₁, ended, printed⟩)
    · exact .inr (.inl printed)
    · exact .inr (.inr ⟨_, it₁, ended, .inr ⟨rfl, printed⟩⟩)

/-- A list of statements prints what its first part prints and then, if that came to its end, what
the rest prints. -/
theorem prints_append {ss ss' : List Stmt} {it : Interpreter} :
    State.Prints ⟨.executeAll (ss ++ ss') .flow, it⟩ sink ↔
      State.Prints ⟨.executeAll ss .flow, it⟩ sink ∨
        ∃ it₁, State.Ends ⟨.executeAll ss .flow, it⟩ (.flow .normal) it₁ ∧
          State.Prints ⟨.executeAll ss' .flow, it₁⟩ sink := by
  induction ss generalizing it with
  | nil =>
    rw [List.nil_append]
    constructor
    · exact fun h => .inr ⟨it, ends_nil.2 ⟨rfl, rfl⟩, h⟩
    · rintro (printed | ⟨it₁, ended, printed⟩)
      · rw [prints_step, show State.step ⟨.executeAll [] .flow, it⟩ = ⟨.finish .normal .flow, it⟩
          from rfl, prints_of_over rfl, or_self] at printed
        exact ⟨0, printed⟩
      · obtain ⟨-, rfl⟩ := ends_nil.1 ended
        exact printed
  | cons s ss ih =>
    rw [List.cons_append, prints_cons]
    simp only [ih, prints_cons, ends_cons]
    constructor
    · rintro (printed | ⟨it₁, hs, printed | ⟨it₂, hss, printed⟩⟩)
      · exact .inl (.inl printed)
      · exact .inl (.inr ⟨it₁, hs, printed⟩)
      · exact .inr ⟨it₂, .inl ⟨it₁, hs, hss⟩, printed⟩
    · rintro ((printed | ⟨it₁, hs, printed⟩) | ⟨it₂, ⟨it₁, hs, hss⟩ | ⟨-, ne⟩, printed⟩)
      · exact .inl printed
      · exact .inr ⟨it₁, hs, .inl printed⟩
      · exact .inr ⟨it₁, hs, .inr ⟨it₂, hss, printed⟩⟩
      · exact absurd rfl ne

end

end Lox.Eval
