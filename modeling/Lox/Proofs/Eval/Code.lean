/-
The code that a run comes to. A `Dialect` says which expressions and statements code may be made of; a
statement is judged by the number of calls that are open around it, and parts of what is allowed are
allowed. If all that waits is allowed and so are the bodies of the functions on the heap, then the
same holds behind a step (`step_in`): what is evaluated or executed at any moment of a run is code of
the dialect, in whatever function it was written, and a `return` is handed on only where the dialect
lets one return.
-/
import Lox.Proofs.Eval.Calls

namespace Lox

/-! ## Parts of code -/

/-- The expressions that an expression is made of. -/
def Expr.parts : Expr → List Expr
  | .literal _ | .variable _ _ => []
  | .group inner => [inner]
  | .unary _ right => [right]
  | .binary left _ right | .logical left _ right => [left, right]
  | .assign _ _ value => [value]
  | .call callee _ args => callee :: args
  | .get object _ => [object]
  | .set object _ value => [object, value]

/-- The expressions of a statement itself. -/
def Stmt.expressions : Stmt → List Expr
  | .expression e | .print e | .if e _ _ | .while e _ => [e]
  | .var _ e | .return _ e => e.toList
  | .block _ | .class _ _ | .function _ => []

/-- The statements that are executed with a statement, by the call that executes it. -/
def Stmt.parts : Stmt → List Stmt
  | .block body => body
  | .if _ thenBranch elseBranch => thenBranch :: elseBranch.toList
  | .while _ body => [body]
  | _ => []

namespace Eval

/-- What code may be made of. -/
structure Dialect where
  expression : Expr → Prop
  /-- The statements that may be executed with a number of calls open around them. -/
  statement : Nat → Stmt → Prop
  /-- There may be a `return` with a number of calls open around it. -/
  returning : Nat → Prop
  part : ∀ {e}, expression e → ∀ e' ∈ e.parts, expression e'
  own : ∀ {n s}, statement n s → ∀ e ∈ s.expressions, expression e
  inner : ∀ {n s}, statement n s → ∀ s' ∈ s.parts, statement n s'
  /-- A function is called with at least one call open, wherever it was declared. -/
  body : ∀ {n decl}, statement n (.function decl) → ∀ m, 0 < m → ∀ s ∈ decl.body, statement m s
  leave : ∀ {n keyword value}, statement n (.return keyword value) → returning n

section

variable (D : Dialect)

/-- What waits is code of the dialect. -/
def Cont.In : {a : Answer} → Cont a → Prop
  | _, .value | _, .flow => True
  | _, .operand op k => (∃ right, D.expression (.unary op right)) ∧ k.In
  | _, .leftOperand op right k => (∃ left, D.expression (.binary left op right)) ∧ k.In
  | _, .rightOperand op _ k => (∃ left right, D.expression (.binary left op right)) ∧ k.In
  | _, .decision op right k => (∃ left, D.expression (.logical left op right)) ∧ k.In
  | _, .callee _ args k => (∀ e ∈ args, D.expression e) ∧ k.In
  | _, .argument _ _ _ rest k => (∀ e ∈ rest, D.expression e) ∧ k.In
  | _, .setObject _ e k => D.expression e ∧ k.In
  | _, .returned k => D.returning k.openCalls ∧ k.In
  | _, .ifTest thenBranch elseBranch k =>
    (∃ condition, D.statement k.openCalls (.if condition thenBranch elseBranch)) ∧ k.In
  | _, .whileTest condition body k => D.statement k.openCalls (.while condition body) ∧ k.In
  | _, .whileBody condition body k => D.statement k.openCalls (.while condition body) ∧ k.In
  | _, .sequence rest k => (∀ s ∈ rest, D.statement k.openCalls s) ∧ k.In
  | _, .assigned _ _ k => k.In
  | _, .getObject _ k => k.In
  | _, .setValue _ _ k => k.In
  | _, .discarded k => k.In
  | _, .printed k => k.In
  | _, .initializer _ k => k.In
  | _, .blockEnd _ k => k.In
  | _, .callEnd _ k => k.In

/-- And so is what comes next. -/
def Control.In : Control → Prop
  | .evaluate e k => D.expression e ∧ k.In D
  | .execute s k => D.statement k.openCalls s ∧ k.In D
  | .executeAll ss k => (∀ s ∈ ss, D.statement k.openCalls s) ∧ k.In D
  | .call _ _ _ k => k.In D
  | .give _ k => k.In D
  | .finish f k => (∀ v, f = .returned v → D.returning k.openCalls) ∧ k.In D
  | .raise _ k => k.In D
  | .ended o => ∀ v, o = .flow (.returned v) → D.returning 0

end

end Eval

/-- The functions there are may be called. -/
def Heap.In (D : Eval.Dialect) (h : Heap) : Prop :=
  ∀ f c, h.function? f = some c → ∀ m, 0 < m → ∀ s ∈ c.decl.body, D.statement m s

theorem Heap.In.newFunction {D : Eval.Dialect} {h : Heap} (allowed : h.In D) {c : Closure}
    (body : ∀ m, 0 < m → ∀ s ∈ c.decl.body, D.statement m s) : (h.newFunction c).2.In D := by
  intro f c' found
  rw [Heap.function?, Heap.newFunction, Array.getElem?_push] at found
  split at found
  · cases found
    exact body
  · exact allowed f c' found

namespace Eval

/-- All the code that the evaluation can come to is code of the dialect. -/
structure State.In (D : Dialect) (e : State) : Prop where
  control : e.control.In D
  heap : e.it.heap.In D

variable {D : Dialect} {it : Interpreter}

/-! ## Steps -/

/-- A `return` is not what is handed on. -/
theorem not_returned (n : Nat) : ∀ v, Flow.normal = .returned v → D.returning n := by
  rintro v ⟨⟩

theorem Cont.Yields.in_dialect {a b : Answer} {k : Cont a} {k' : Cont b} (yields : k.Yields k')
    (allowed : k.In D) : k'.In D := by
  cases yields with
  | assigned | getObject | setValue | discarded | printed | initializer => exact allowed
  | _ => exact allowed.2

/-- Parts of what is allowed come next. A `return` is handed on within one call, so with the same
number of calls open around it. -/
theorem Turn.in_dialect {c c' : Control} (turn : Turn it c c') (allowed : c.In D) : c'.In D := by
  cases turn with
  | literal | read => exact allowed.2
  | group | assign | get =>
    obtain ⟨he, hk⟩ := allowed
    exact ⟨D.part he _ (by simp [Expr.parts]), hk⟩
  | unary op right k =>
    obtain ⟨he, hk⟩ := allowed
    exact ⟨D.part he right (by simp [Expr.parts]), ⟨right, he⟩, hk⟩
  | binary left op right k | logical left op right k =>
    obtain ⟨he, hk⟩ := allowed
    exact ⟨D.part he left (by simp [Expr.parts]), ⟨left, he⟩, hk⟩
  | call callee paren args k =>
    obtain ⟨he, hk⟩ := allowed
    obtain ⟨first, others⟩ := List.forall_mem_cons.1 (D.part he)
    exact ⟨first, others, hk⟩
  | set object name value k =>
    obtain ⟨he, hk⟩ := allowed
    exact ⟨D.part he object (by simp [Expr.parts]), D.part he value (by simp [Expr.parts]), hk⟩
  | rightOperand op right v k =>
    obtain ⟨⟨left, he⟩, hk⟩ := allowed
    exact ⟨D.part he right (by simp [Expr.parts]), ⟨left, right, he⟩, hk⟩
  | undecided op right v k =>
    obtain ⟨⟨left, he⟩, hk⟩ := allowed
    exact ⟨D.part he right (by simp [Expr.parts]), hk⟩
  | operated | combined | decided | noArgument | lastArgument => exact allowed.2
  | firstArgument | nextArgument =>
    obtain ⟨hes, hk⟩ := allowed
    obtain ⟨first, others⟩ := List.forall_mem_cons.1 hes
    exact ⟨first, others, hk⟩
  | property | target => exact allowed
  | expression | print | initializer =>
    obtain ⟨hs, hk⟩ := allowed
    exact ⟨D.own hs _ (by simp [Stmt.expressions]), hk⟩
  | test condition thenBranch elseBranch k =>
    obtain ⟨hs, hk⟩ := allowed
    exact ⟨D.own hs condition (by simp [Stmt.expressions]), ⟨condition, hs⟩, hk⟩
  | loop condition body k =>
    obtain ⟨hs, hk⟩ := allowed
    exact ⟨D.own hs condition (by simp [Stmt.expressions]), hs, hk⟩
  | returnValue keyword e k =>
    obtain ⟨hs, hk⟩ := allowed
    exact ⟨D.own hs e (by simp [Stmt.expressions]), D.leave hs, hk⟩
  | returnNil keyword k =>
    obtain ⟨hs, hk⟩ := allowed
    exact ⟨fun _ _ => D.leave hs, hk⟩
  | noStatement => exact ⟨not_returned _, allowed.2⟩
  | statement s ss k =>
    obtain ⟨hss, hk⟩ := allowed
    obtain ⟨hs, hss⟩ := List.forall_mem_cons.1 hss
    exact ⟨hs, hss, hk⟩
  | discarded => exact ⟨not_returned _, allowed⟩
  | returned => exact ⟨fun _ _ => allowed.1, allowed.2⟩
  | thenBranch | elseBranch =>
    obtain ⟨⟨condition, hs⟩, hk⟩ := allowed
    exact ⟨D.inner hs _ (by simp [Stmt.parts]), hk⟩
  | noBranch | loopEnd => exact ⟨not_returned _, allowed.2⟩
  | body v condition body k =>
    obtain ⟨hs, hk⟩ := allowed
    exact ⟨D.inner hs body (by simp [Stmt.parts]), hs, hk⟩
  | rest => exact allowed.2
  | again condition body k =>
    obtain ⟨-, hs, hk⟩ := allowed
    exact ⟨D.own hs condition (by simp [Stmt.expressions]), hs, hk⟩
  | leaveSequence | leaveLoop => exact ⟨allowed.1, allowed.2.2⟩
  | yield e k k' yields => exact yields.in_dialect allowed
  | valueEnd | faultOfValue | faultOfFlow => rintro v ⟨⟩
  | flowEnd f =>
    rintro v ⟨⟩
    exact allowed.1 v rfl
  | ended => exact allowed

theorem Fail.in_dialect {c : Control} {e : RuntimeError} {k : Cont .value} (fail : Fail it c e k)
    (allowed : c.In D) : k.In D := by
  cases fail with
  | unwritten | noProperty | noObject | uncallable | miscounted | refused => exact allowed
  | _ => exact allowed.2

theorem Rule.in_dialect {e e' : State} (rule : Rule e e') (h : e.In D) : e'.In D := by
  obtain ⟨allowed, heap⟩ := h
  cases rule with
  | turn turn => exact ⟨turn.in_dialect allowed, heap⟩
  | fail fail => exact ⟨fail.in_dialect allowed, heap⟩
  | varNil | «class» => exact ⟨⟨not_returned _, allowed.2⟩, heap⟩
  | var | printed => exact ⟨⟨not_returned _, allowed⟩, heap⟩
  | function it decl k => exact ⟨⟨not_returned _, allowed.2⟩, heap.newFunction (D.body allowed.1)⟩
  | lostClass | callEnd | callReturn => exact ⟨allowed.2, heap⟩
  | block => exact ⟨⟨D.inner allowed.1, allowed.2⟩, heap⟩
  | call it f c paren args k found => exact ⟨⟨heap f c found _ (Nat.succ_pos _), allowed⟩, heap⟩
  | _ => exact ⟨allowed, heap⟩

theorem step_in {e : State} (h : e.In D) : e.step.In D := (step_rule e).in_dialect h

/-- A run comes to code of the dialect only. -/
theorem run_in {e : State} (h : e.In D) (n : Nat) : (e.run n).In D :=
  run_invariant (P := State.In D) (fun _ => step_in) h n

end Eval

end Lox
