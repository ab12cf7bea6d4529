/-
Which programs break the rules of scoping, and how. Three things may be wrong with a mark of an
outline, given the marks before it (`Mark.Violates`): it declares a name again in one scope, reads a
name in its own initializer, or returns from no function. The static walk reports exactly these, each
once, in the order of the outline (`distancesOf_reports`).

A mark that is wrong is taken like any other, so no error depends on the errors before.
-/
import Lox.Proofs.Scoping.Walk

namespace Lox

open Scoping

/-! ## Rules -/

/-- The mark breaks a rule, and the token to blame. -/
inductive Mark.Violates (before : List Mark) : Mark → Token → ScopeFault → Prop
  /-- The scope of a declaration has declared the name already. -/
  | redeclared {m : Mark} {t : Token} : m.declared? = some t → DeclaredAt before t.lexeme 0 →
    Violates before m t .alreadyDeclared
  | ownInitializer {r : Reference} : r.reads = true → OwnInitializer before r.name.lexeme →
    Violates before (.reference r) r.name .readInOwnInitializer
  | outside {keyword : Token} : ¬InFunction before →
    Violates before (.return keyword) keyword .returnOutsideFunction

/-- The mark at a position of a program's outline breaks a rule. -/
def ViolatedAt (program : List Stmt) (i : Nat) (t : Token) (fault : ScopeFault) : Prop :=
  ∃ before m behind, Stmt.outlineAll program = before ++ m :: behind ∧ before.length = i ∧
    m.Violates before t fault

/-! ## What the walk reports -/

/-- Has the innermost scope declared the name? -/
def Scoping.hasDeclared (scopes : List Scope) (name : String) : Bool :=
  match scopes with
  | [] => false
  | scope :: _ => scope.binds name

theorem Scoping.errors_declare_eq (w : Scoping) (t : Token) :
    (w.declare t).errors =
      (if hasDeclared w.scopes t.lexeme then [.scoping t .alreadyDeclared] else []) ++
        w.errors := by
  obtain ⟨scopes, ds, errors⟩ := w
  cases scopes with
  | nil => rfl
  | cons scope outer =>
    change (if scope.binds t.lexeme then _ else _ : Scoping).errors =
      (if scope.binds t.lexeme then _ else _) ++ errors
    split <;> rfl

namespace Walk

/-- What the walk reports at a mark. -/
def fault? (w : Walk) : Mark → Option (Token × ScopeFault)
  | .name t | .var t => if hasDeclared w.scopes t.lexeme then some (t, .alreadyDeclared) else none
  | .reference r =>
    if r.reads ∧ unready w.scopes r.name.lexeme then some (r.name, .readInOwnInitializer) else none
  | .return keyword => if w.inFunction then none else some (keyword, .returnOutsideFunction)
  | _ => none

/-- What the walk reports along marks, each with its position, counted from `i`. -/
def faults (w : Walk) (i : Nat) : List Mark → List (Nat × Token × ScopeFault)
  | [] => []
  | m :: ms => (w.fault? m).toList.map (i, ·) ++ (w.past m).faults (i + 1) ms

/-- The error that stands for a report. -/
def errorOf (site : Nat × Token × ScopeFault) : StaticError := .scoping site.2.1 site.2.2

/-- At a mark the walk adds one error or none. -/
theorem errors_past (w : Walk) (i : Nat) (m : Mark) :
    (w.past m).scoping.errors =
      ((w.fault? m).toList.map (i, ·)).map errorOf ++ w.scoping.errors := by
  cases m with
  | block | function | close => rfl
  | varEnd t => exact errors_define ..
  | var t =>
    rw [past, errors_declare_eq, fault?, scopes]
    split <;> rfl
  | name t =>
    rw [past, introduce, errors_define, errors_declare_eq, fault?, scopes]
    split <;> rfl
  | reference r =>
    obtain ⟨id, name, reads⟩ := r
    rw [past, fault?, Reference.walk]
    cases reads with
    | false => exact errors_refer ..
    | true =>
      rw [if_pos rfl, Scoping.read, errors_refer]
      cases h : unready w.scoping.scopes name.lexeme <;> simp [scopes, h, report, errorOf]
  | «return» k =>
    rw [past, fault?]
    cases w.inFunction <;> rfl

theorem errors_along (w : Walk) (i : Nat) (ms : List Mark) :
    (w.along ms).scoping.errors.reverse =
      w.scoping.errors.reverse ++ (w.faults i ms).map errorOf := by
  induction ms generalizing w i with
  | nil => exact (List.append_nil _).symm
  | cons m ms ih =>
    rw [along_cons, ih _ (i + 1), errors_past w i, faults, List.map_append, List.reverse_append,
      List.append_assoc]
    cases w.fault? m <;> rfl

theorem le_of_mem_faults {w : Walk} {i : Nat} {ms : List Mark} :
    ∀ x ∈ w.faults i ms, i ≤ x.1 := by
  induction ms generalizing w i with
  | nil => intro x hx; cases hx
  | cons m ms ih =>
    intro x hx
    rcases List.mem_append.1 hx with hx | hx
    · obtain ⟨_, -, rfl⟩ := List.mem_map.1 hx
      exact Nat.le_refl i
    · exact Nat.le_of_succ_le (ih x hx)

/-- Reports stand in the order of their positions, and no position has two. -/
theorem pairwise_faults (w : Walk) (i : Nat) (ms : List Mark) :
    (w.faults i ms).Pairwise (·.1 < ·.1) := by
  induction ms generalizing w i with
  | nil => exact .nil
  | cons m ms ih =>
    refine List.pairwise_append.2 ⟨?_, ih _ _, fun x hx y hy => ?_⟩
    · cases w.fault? m <;> simp
    · obtain ⟨_, -, rfl⟩ := List.mem_map.1 hx
      exact le_of_mem_faults y hy

theorem mem_faults {w : Walk} {i j : Nat} {ms : List Mark} {t : Token} {fault : ScopeFault} :
    (j, t, fault) ∈ w.faults i ms ↔ ∃ before m behind, ms = before ++ m :: behind ∧
      i + before.length = j ∧ (w.along before).fault? m = some (t, fault) := by
  induction ms generalizing w i with
  | nil => simp [faults]
  | cons m ms ih =>
    rw [faults, List.mem_append, ih]
    constructor
    · rintro (hx | ⟨before, m', behind, rfl, rfl, hf⟩)
      · obtain ⟨x, hx, same⟩ := List.mem_map.1 hx
        cases same
        exact ⟨[], m, ms, rfl, rfl, Option.mem_toList.1 hx⟩
      · exact ⟨m :: before, m', behind, rfl, by rw [List.length_cons]; omega, hf⟩
    · rintro ⟨before, m', behind, hs, rfl, hf⟩
      cases before with
      | nil =>
        cases hs
        exact .inl (List.mem_map.2 ⟨_, Option.mem_toList.2 hf, rfl⟩)
      | cons x before =>
        cases hs
        exact .inr ⟨before, m', behind, rfl, by rw [List.length_cons]; omega, hf⟩

end Walk

/-! ## Reports are violations -/

namespace Shows

variable {before : List Mark} {w : Walk}

theorem hasDeclared_iff (h : Shows before w) (name : String) :
    hasDeclared w.scopes name = true ↔ DeclaredAt before name 0 := by
  rw [h.declaredAt_iff]
  cases w.scopes <;> simp [hasDeclared]

/-- What is reported at a mark is the rule that it breaks. -/
theorem fault?_iff (h : Shows before w)
    (own : ∀ name, unready w.scopes name = true ↔ OwnInitializer before name) {m : Mark} {t : Token}
    {fault : ScopeFault} : w.fault? m = some (t, fault) ↔ m.Violates before t fault := by
  constructor
  · intro hf
    cases m with
    | block | function | close | varEnd t => cases hf
    | name t' | var t' =>
      rw [Walk.fault?, Option.ite_none_right_eq_some] at hf
      obtain ⟨declared, same⟩ := hf
      cases same
      exact .redeclared rfl ((h.hasDeclared_iff _).1 declared)
    | reference r =>
      rw [Walk.fault?, Option.ite_none_right_eq_some] at hf
      obtain ⟨⟨reads, hu⟩, same⟩ := hf
      cases same
      exact .ownInitializer reads ((own _).1 hu)
    | «return» k =>
      rw [Walk.fault?, Option.ite_none_left_eq_some] at hf
      obtain ⟨outside, same⟩ := hf
      cases same
      exact .outside (mt h.inFunction_iff.2 outside)
  · intro hv
    cases hv with
    | redeclared hm declared =>
      have bound := (h.hasDeclared_iff _).2 declared
      cases m with
      | name t' | var t' =>
        cases hm
        rw [Walk.fault?, if_pos bound]
      | _ => cases hm
    | ownInitializer reads hi => rw [Walk.fault?, if_pos ⟨reads, (own _).2 hi⟩]
    | outside hn => rw [Walk.fault?, if_neg (mt h.inFunction_iff.1 hn)]

end Shows

/-- The rules that a program breaks, in the order of its outline. -/
def violations (program : List Stmt) : List (Nat × Token × ScopeFault) :=
  Walk.start.faults 0 (Stmt.outlineAll program)

theorem mem_violations {program : List Stmt} {i : Nat} {t : Token} {fault : ScopeFault} :
    (i, t, fault) ∈ violations program ↔ ViolatedAt program i t fault := by
  rw [violations, Walk.mem_faults]
  constructor
  · rintro ⟨before, m, behind, hs, hi, hf⟩
    rw [Nat.zero_add] at hi
    exact ⟨before, m, behind, hs, hi, ((shows_along hs).fault?_iff (unready_along hs)).1 hf⟩
  · rintro ⟨before, m, behind, hs, hi, hv⟩
    rw [← Nat.zero_add before.length] at hi
    exact ⟨before, m, behind, hs, hi, ((shows_along hs).fault?_iff (unready_along hs)).2 hv⟩

theorem distancesOf_eq_error_iff {program : List Stmt} {es : List StaticError} :
    distancesOf program = .error es ↔
      es ≠ [] ∧ es = (violations program).map Walk.errorOf := by
  have errors : (Stmt.scopeAll false .start program).errors.reverse =
      (violations program).map Walk.errorOf := by
    have along := Walk.errors_along .start 0 (Stmt.outlineAll program)
    rw [Walk.start, Stmt.along_outlineAll] at along
    exact along
  rw [distancesOf, ← errors]
  split
  · rename_i none
    rw [List.isEmpty_iff.1 none]
    constructor
    · intro h
      cases h
    · rintro ⟨ne, rfl⟩
      exact absurd rfl ne
  · rename_i some
    constructor
    · intro h
      cases h
      refine ⟨fun none => some ?_, rfl⟩
      rw [List.reverse_eq_nil_iff] at none
      rw [none]
      rfl
    · rintro ⟨-, rfl⟩
      rfl

/-- A program is rejected if it breaks a rule somewhere, and the errors are all that it breaks, one
for each place, in the order of the outline. -/
theorem distancesOf_reports (program : List Stmt) :
    ((∃ es, distancesOf program = .error es) ↔ ∃ i t fault, ViolatedAt program i t fault) ∧
      ∃ sites : List (Nat × Token × ScopeFault), sites.Pairwise (·.1 < ·.1) ∧
        (∀ i t fault, (i, t, fault) ∈ sites ↔ ViolatedAt program i t fault) ∧
          ∀ es, distancesOf program = .error es →
            es = sites.map fun site => .scoping site.2.1 site.2.2 := by
  refine ⟨?_, violations program, Walk.pairwise_faults .., fun i t fault => mem_violations,
    fun es h => (distancesOf_eq_error_iff.1 h).2⟩
  constructor
  · rintro ⟨es, h⟩
    obtain ⟨ne, rfl⟩ := distancesOf_eq_error_iff.1 h
    obtain ⟨⟨i, t, fault⟩, hx⟩ := List.exists_mem_of_ne_nil _ (mt List.map_eq_nil_iff.2 ne)
    exact ⟨i, t, fault, mem_violations.1 hx⟩
  · rintro ⟨i, t, fault, violated⟩
    have mem := List.mem_map_of_mem (f := Walk.errorOf) (mem_violations.2 violated)
    exact ⟨_, distancesOf_eq_error_iff.2 ⟨List.ne_nil_of_mem mem, rfl⟩⟩

/-- `{ var a = a; fun f(b, b) {} } return a;` -/
example :
    let name (lexeme : String) : Token := ⟨.identifier, lexeme, 1⟩
    let a : Expr := .variable 0 (name "a")
    violations [.block [.var (name "a") (some a), .function ⟨name "f", [name "b", name "b"], []⟩],
        .return ⟨.return, "return", 1⟩ (some a)] =
      [(2, name "a", .readInOwnInitializer), (7, name "b", .alreadyDeclared),
        (10, ⟨.return, "return", 1⟩, .returnOutsideFunction)] := by
  decide +kernel

end Lox
