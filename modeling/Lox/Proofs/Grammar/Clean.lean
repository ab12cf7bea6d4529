/-
Parses without an error. An error that is noted stays, and a parse that gives up notes one, so on
the way of a parse that ends without errors every required token is there (`Clean.required`).
-/
import Lox.Proofs.Grammar.Steps

namespace Lox.Parse.State

/-! ## Errors and ids only grow -/

/-- No error is taken back, and no id is drawn again. -/
structure Grows (s t : State) : Prop where
  errors : s.errors <:+ t.errors
  nextId : s.nextId ≤ t.nextId

theorem Grows.trans {s t u : State} (h : Grows s t) (h' : Grows t u) : Grows s u :=
  ⟨h.errors.trans h'.errors, Nat.le_trans h.nextId h'.nextId⟩

/-- The task and the tokens play no part. -/
theorem Grows.of_eq {s t : State} (he : s.errors = t.errors) (hn : s.nextId = t.nextId) :
    Grows s t := ⟨he ▸ List.suffix_rfl, Nat.le_of_eq hn⟩

theorem grows_require (s : State) (kind : Kind) (what : Expected) {p : Part} (k : Pending p)
    (task : Token → Task) : Grows s (s.require kind what k task) := by
  unfold require
  split
  · split <;> exact .of_eq rfl rfl
  · exact .of_eq rfl rfl

theorem grows_branch (s : State) (kind : Kind) (taken : Token → Task) (left : Task) :
    Grows s (s.branch kind taken left) := by
  unfold branch
  split
  · split <;> exact .of_eq rfl rfl
  · exact .of_eq rfl rfl

theorem grows_giveExpression (s : State) (e : Expr) (k : Pending .expression) :
    Grows s (s.giveExpression e k) := by
  cases k with
  | assigned target equals k =>
    simp only [giveExpression, assign]
    split
    · exact ⟨List.suffix_rfl, Nat.le_succ _⟩
    · exact .of_eq rfl rfl
    · exact ⟨List.suffix_cons _ _, Nat.le_refl _⟩
  | operators l k =>
    simp only [giveExpression]
    split <;> exact .of_eq rfl rfl
  | trailers k =>
    simp only [giveExpression, trailers]
    split <;> exact .of_eq rfl rfl
  | argument callee done k =>
    simp only [giveExpression]
    split
    · exact .of_eq rfl rfl
    · exact grows_require ..
  | rightOperand l left op k | operand op k => exact .of_eq rfl rfl
  | assignment k => exact grows_branch ..
  | group k | initializer name k | ifTest k | whileTest k | printed k | returned keyword k
  | expressionStatement k | forTest initializer k | forStep initializer test k =>
    exact grows_require ..

theorem grows_giveStatement (s : State) (stmt : Stmt) (k : Pending .statement) :
    Grows s (s.giveStatement stmt k) := by
  cases k with
  | thenBranch condition k => exact grows_branch ..
  | _ => exact .of_eq rfl rfl

theorem grows_fail (s : State) (e : StaticError) {p : Part} (k : Pending p) :
    Grows s (s.fail e k) := by
  cases k with
  | program done | declarations done k => exact ⟨List.suffix_cons _ _, Nat.le_refl _⟩
  | _ => exact .of_eq rfl rfl

/-- No step takes an error back. -/
theorem grows_step (s : State) : Grows s s.step := by
  obtain ⟨task, rest, eof, n, errors⟩ := s
  cases task with
  | giveExpression e k => exact grows_giveExpression _ e k
  | giveStatement stmt k => exact grows_giveStatement _ stmt k
  | fail e k => exact grows_fail _ e k
  | program done | declarations done k | methods name done k =>
    simp only [step]
    repeat' split
    all_goals exact .of_eq rfl rfl
  | declaration k =>
    simp only [step, declaration]
    split <;> exact .of_eq rfl rfl
  | statement k =>
    simp only [step, statement]
    split <;> exact .of_eq rfl rfl
  | forInitializer k =>
    simp only [step, forInitializer]
    split <;> exact .of_eq rfl rfl
  | unary k =>
    simp only [step, unary]
    split <;> exact .of_eq rfl rfl
  | primary k =>
    simp only [step, primary]
    split
    case h_6 => exact ⟨List.suffix_rfl, Nat.le_succ _⟩
    all_goals exact .of_eq rfl rfl
  | giveFunction f k => cases k <;> exact .of_eq rfl rfl
  | giveBody body k => cases k <;> exact .of_eq rfl rfl
  | parameter c name done k =>
    refine Grows.trans ?_ (grows_require ..)
    split
    · exact ⟨List.suffix_cons _ _, Nat.le_refl _⟩
    · exact .of_eq rfl rfl
  | argument callee done k =>
    simp only [step, goTo]
    split
    · exact ⟨List.suffix_cons _ _, Nat.le_refl _⟩
    · exact .of_eq rfl rfl
  | parameterEnd c name done k | variableValue name k =>
    simp only [step]
    split
    · exact .of_eq rfl rfl
    · exact grows_require ⟨_, rest, eof, n, errors⟩ ..
  | expression k | level l k | finished program => exact .of_eq rfl rfl
  | className k | classOpen name k | callableName c k | callableOpen c name k
  | callableBody c name params k | variableName k | forOpen k | ifOpen k | whileOpen k
  | property object k =>
    exact grows_require ..
  | parameters c name k | forTest initializer k | forStep initializer test k
  | returnValue keyword k | arguments callee k =>
    exact grows_branch ..

theorem grows_run (s : State) : Grows s s.run := by
  induction s using run.induct with
  | case1 s h =>
    rw [run, if_pos h]
    exact .of_eq rfl rfl
  | case2 s h ih =>
    rw [run_step]
    exact (grows_step s).trans ih

/-! ## Parses that end without errors -/

/-- The parse ends without errors. -/
def Clean (s : State) : Prop := s.run.errors = []

namespace Clean

theorem of_leads {s t : State} (h : Clean s) (l : Leads s t) : Clean t := by
  rw [Clean, ← l.run_eq]
  exact h

theorem to_step {s : State} (h : Clean s) : Clean s.step := h.of_leads (.step (.refl _))

theorem errors_eq {s : State} (h : Clean s) : s.errors = [] :=
  List.suffix_nil.1 (h ▸ (grows_run s).errors)

/-- A parse that gives up notes an error, at the latest where a list of declarations goes on. -/
theorem not_fail {p : Part} (k : Pending p) {e : StaticError} {s : State}
    (hs : s.task = .fail e k) : ¬Clean s := by
  intro h
  -- what waits is dropped until a list of declarations catches the error
  induction k generalizing s with
  | program done | declarations done k =>
    have noted := h.to_step.errors_eq
    simp only [step, hs, fail] at noted
    cases noted
  | _ =>
    rename_i ih
    exact ih (s := s.step) (by simp only [step, hs]; rfl) h.to_step

/-- A required token is there. -/
theorem required {s : State} (h : Clean s) {kind : Kind} {what : Expected} {p : Part}
    {k : Pending p} {task : Token → Task} (hs : s.step = s.require kind what k task) :
    ∃ t ts, s.rest = t :: ts ∧ t.kind = kind := by
  have next := h.to_step
  rw [hs, require] at next
  split at next
  next t ts hr =>
    split at next
    next ht => exact ⟨t, ts, hr, ht⟩
    next => exact absurd next (not_fail k rfl)
  next => exact absurd next (not_fail k rfl)

end Clean

/-! ## Induction along a parse -/

theorem measure_step_le (s : State) : s.step.measure ≤ s.measure := by
  by_cases h : s.ended = true
  · exact Nat.le_of_eq (by rw [step_of_ended h])
  · exact Nat.le_of_lt (measure_step_lt_of_not_ended h)

theorem Leads.measure_le {s t : State} (h : Leads s t) : t.measure ≤ s.measure := by
  induction h with
  | refl s => exact Nat.le_refl _
  | step _ ih => exact Nat.le_trans ih (measure_step_le _)

/-- What holds of a state on the way of a clean parse if it holds of all states behind it, holds of
all states on the way. -/
theorem Clean.induction {P : State → Prop} (ended : ∀ s, s.ended = true → P s)
    (behind : ∀ s, Clean s → (∀ t, Leads s.step t → P t) → P s) (s : State) (h : Clean s) :
    P s := by
  -- on what is left of the parse, which every step makes smaller
  induction hm : s.measure using Nat.strongRecOn generalizing s with
  | _ m ih =>
    subst hm
    by_cases he : s.ended = true
    · exact ended s he
    · refine behind s h fun t ht => ih t.measure ?_ t (h.to_step.of_leads ht) rfl
      exact Nat.lt_of_le_of_lt ht.measure_le (measure_step_lt_of_not_ended he)

end Lox.Parse.State
