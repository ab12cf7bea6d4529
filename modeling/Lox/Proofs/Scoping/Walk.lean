/-
The static walk along the marks of an outline. Taking a program mark by mark is the walk through its
tree (`Stmt.along_outline`), and the references that it meets are those marked (`Stmt.met_outline`).

At every mark, what the walk keeps is what the marks before say: how many scopes are open, what they
have declared and whether they belong to a function (`shows_along`), and which names stand in their
own initializers (`unready_along`).
-/
import Mathlib.Data.List.Induction
import Lox.Proofs.Scoping.Accepted
import Lox.Proofs.Scoping.Outline

namespace Lox

open Scoping

/-! ## Mark by mark -/

/-- The static walk with, for each open scope, whether it stands in a function. -/
structure Walk where
  scoping : Scoping
  /-- Innermost first. -/
  inside : List Bool

namespace Walk

def start : Walk := ⟨.start, []⟩

def scopes (w : Walk) : List Scope := w.scoping.scopes

def inFunction (w : Walk) : Bool := w.inside.headD false

/-- The walk behind a mark. -/
def past (w : Walk) : Mark → Walk
  | .block => ⟨w.scoping.enter, w.inFunction :: w.inside⟩
  | .function => ⟨w.scoping.enter, true :: w.inside⟩
  | .close => ⟨w.scoping.leave, w.inside.tail⟩
  | .name t => ⟨w.scoping.introduce t, w.inside⟩
  | .var t => ⟨w.scoping.declare t, w.inside⟩
  | .varEnd t => ⟨w.scoping.define t, w.inside⟩
  | .reference r => ⟨r.walk w.scoping, w.inside⟩
  | .return k =>
    ⟨if w.inFunction then w.scoping else w.scoping.report k .returnOutsideFunction, w.inside⟩

/-- The walk behind some marks. -/
def along (w : Walk) (ms : List Mark) : Walk := ms.foldl past w

theorem along_cons (w : Walk) (m : Mark) (ms : List Mark) :
    w.along (m :: ms) = (w.past m).along ms := rfl

theorem along_append (w : Walk) (ms ns : List Mark) :
    w.along (ms ++ ns) = (w.along ms).along ns := List.foldl_append

theorem along_concat (w : Walk) (ms : List Mark) (m : Mark) :
    w.along (ms ++ [m]) = (w.along ms).past m := along_append ..

theorem along_references (w : Scoping) (inside : List Bool) (refs : List Reference) :
    (Walk.mk w inside).along (refs.map .reference) = ⟨refs.foldl Reference.walk w, inside⟩ := by
  induction refs generalizing w with
  | nil => rfl
  | cons r refs ih => exact ih (r.walk w)

theorem along_names (w : Scoping) (inside : List Bool) (ts : List Token) :
    (Walk.mk w inside).along (ts.map .name) = ⟨ts.foldl introduce w, inside⟩ := by
  induction ts generalizing w with
  | nil => rfl
  | cons t ts ih => exact ih (w.introduce t)

@[simp] theorem scopes_past_name (w : Walk) (t : Token) :
    (w.past (.name t)).scopes = introduceIn w.scopes t.lexeme := scopes_introduce ..

@[simp] theorem scopes_past_var (w : Walk) (t : Token) :
    (w.past (.var t)).scopes = declareIn t.lexeme w.scopes := scopes_declare ..

@[simp] theorem scopes_past_varEnd (w : Walk) (t : Token) :
    (w.past (.varEnd t)).scopes = defineIn t.lexeme w.scopes := scopes_define ..

@[simp] theorem scopes_past_reference (w : Walk) (r : Reference) :
    (w.past (.reference r)).scopes = w.scopes := scopes_walk ..

@[simp] theorem scopes_past_return (w : Walk) (k : Token) :
    (w.past (.return k)).scopes = w.scopes := by
  change (if w.inFunction then w.scoping else _).scopes = _
  split <;> rfl

theorem scopes_along_references (w : Walk) (refs : List Reference) :
    (w.along (refs.map .reference)).scopes = w.scopes := by
  rw [along_references, scopes, scopes_walks]
  rfl

/-- The reference that a mark is, where the walk meets it. What is declared behind is left out. -/
def meets? (w : Walk) : Mark → Option Visit
  | .reference r => some (r.visitAt ⟨w.scopes, [], w.inFunction⟩)
  | _ => none

/-- The references among marks. -/
def met (w : Walk) : List Mark → List Visit
  | [] => []
  | m :: ms => (w.meets? m).toList ++ (w.past m).met ms

theorem met_append (w : Walk) (ms ns : List Mark) :
    w.met (ms ++ ns) = w.met ms ++ (w.along ms).met ns := by
  induction ms generalizing w with
  | nil => rfl
  | cons m ms ih => rw [List.cons_append, met, ih, met, List.append_assoc, along_cons]

theorem met_references (w : Scoping) (inside : List Bool) (refs : List Reference) :
    (Walk.mk w inside).met (refs.map .reference) =
      refs.map (·.visitAt ⟨w.scopes, [], inside.headD false⟩) := by
  induction refs generalizing w with
  | nil => rfl
  | cons r refs ih =>
    rw [List.map_cons, met, past, ih, scopes_walk]
    rfl

theorem met_names (w : Walk) (ts : List Token) : w.met (ts.map .name) = [] := by
  induction ts generalizing w with
  | nil => rfl
  | cons t ts ih => exact ih _

theorem mem_met {w : Walk} {ms : List Mark} {v : Visit} :
    v ∈ w.met ms ↔ ∃ before r behind, ms = before ++ .reference r :: behind ∧
      v = r.visitAt ⟨(w.along before).scopes, [], (w.along before).inFunction⟩ := by
  induction ms generalizing w with
  | nil => simp [met]
  | cons m ms ih =>
    rw [met, List.mem_append, ih]
    constructor
    · rintro (hv | ⟨before, r, behind, rfl, rfl⟩)
      · cases m with
        | reference r =>
          rw [meets?, Option.toList_some, List.mem_singleton] at hv
          exact ⟨[], r, ms, rfl, hv⟩
        | _ => cases hv
      · exact ⟨m :: before, r, behind, rfl, rfl⟩
    · rintro ⟨before, r, behind, hs, rfl⟩
      cases before with
      | nil =>
        cases hs
        exact .inl (List.mem_singleton_self _)
      | cons x before =>
        cases hs
        exact .inr ⟨before, r, behind, rfl, rfl⟩

end Walk

open Walk

mutual

/-- The walk along the outline of a statement is the walk through the statement. -/
theorem Stmt.along_outline (w : Scoping) (inside : List Bool) : ∀ s : Stmt,
    (Walk.mk w inside).along s.outline = ⟨s.scope (inside.headD false) w, inside⟩
  | .block body => by
    rw [outline, along_cons, along_append, past, along_outlineAll w.enter _ body]
    rfl
  | .class _ _ => rfl
  | .var name initializer => by
    rw [outline, along_cons, along_append, past, along_references, Stmt.scope, Expr.scope?_eq]
    rfl
  | .function ⟨name, params, body⟩ => by
    rw [outline, along_cons, along_cons, along_append, past, past, along_names, along_append,
      along_outlineAll _ _ body]
    rfl
  | .expression e | .print e => by rw [outline, along_references, Stmt.scope, Expr.scope_eq]
  | .if condition thenBranch none => by
    rw [outline, along_append, along_references, along_outline _ inside thenBranch, Stmt.scope,
      condition.scope_eq]
  | .if condition thenBranch (some elseBranch) => by
    rw [outline, along_append, along_references, along_append, along_outline _ inside thenBranch,
      along_outline _ inside elseBranch, Stmt.scope, condition.scope_eq]
  | .while condition body => by
    rw [outline, along_append, along_references, along_outline _ inside body, Stmt.scope,
      condition.scope_eq]
  | .return keyword value => by
    rw [outline, along_cons, past, along_references, Stmt.scope, Expr.scope?_eq]
    rfl

theorem Stmt.along_outlineAll (w : Scoping) (inside : List Bool) : ∀ ss : List Stmt,
    (Walk.mk w inside).along (Stmt.outlineAll ss) =
      ⟨Stmt.scopeAll (inside.headD false) w ss, inside⟩
  | [] => rfl
  | s :: ss => by
    rw [outlineAll, along_append, along_outline w inside s, along_outlineAll _ inside ss,
      Stmt.scopeAll]

end

/-- A visit without what is declared behind it. -/
def Visit.sighted (v : Visit) : Visit := { v with site := { v.site with declared := [] } }

theorem Expr.sighted_visits (declared : List (List String)) (b : Bool) (w : Scoping) (e : Expr) :
    (e.visits declared b w).map Visit.sighted = e.references.map (·.visitAt ⟨w.scopes, [], b⟩) := by
  rw [visits_eq, List.map_map]
  rfl

theorem Expr.sighted_visits? (declared : List (List String)) (b : Bool) (w : Scoping)
    (e : Option Expr) : (Expr.visits? declared b w e).map Visit.sighted =
      (Expr.references? e).map (·.visitAt ⟨w.scopes, [], b⟩) := by
  rw [visits?_eq, List.map_map]
  rfl

mutual

/-- The references of a statement are those marked in its outline. -/
theorem Stmt.met_outline (declared : List (List String)) (w : Scoping) (inside : List Bool) :
    ∀ s : Stmt, (s.visits declared (inside.headD false) w).map Visit.sighted =
      (Walk.mk w inside).met s.outline
  | .block body => by
    have inner := met_outlineAll (body.flatMap declares :: declared) w.enter
      (inside.headD false :: inside) body
    rw [outline, met, past, met_append, visits]
    change _ = (Walk.mk w.enter _).met (outlineAll body) ++ []
    rw [List.append_nil]
    exact inner
  | .class _ _ => rfl
  | .var name initializer => by
    rw [visits, Expr.sighted_visits?, outline, met, past, met_append, met_references]
    exact (List.append_nil _).symm
  | .function ⟨name, params, body⟩ => by
    have inner := met_outlineAll ((params.map (·.lexeme) ++ body.flatMap declares) :: declared)
      (params.foldl introduce (w.introduce name).enter) (true :: inside) body
    rw [outline, met, past, met, past, met_append, met_names, along_names, met_append, visits]
    change _ = (Walk.mk _ _).met (outlineAll body) ++ []
    rw [List.append_nil]
    exact inner
  | .expression e | .print e => by rw [visits, Expr.sighted_visits, outline, met_references]
  | .if condition thenBranch none => by
    rw [visits, List.map_append, Expr.sighted_visits, met_outline declared _ inside thenBranch,
      outline, met_append, met_references, along_references, condition.scope_eq]
  | .if condition thenBranch (some elseBranch) => by
    rw [visits, List.map_append, List.map_append, Expr.sighted_visits,
      met_outline declared _ inside thenBranch, met_outline declared _ inside elseBranch, outline,
      met_append, met_references, along_references, met_append, along_outline, condition.scope_eq,
      List.append_assoc]
  | .while condition body => by
    rw [visits, List.map_append, Expr.sighted_visits, met_outline declared _ inside body, outline,
      met_append, met_references, along_references, condition.scope_eq]
  | .return keyword value => by
    rw [visits, Expr.sighted_visits?, outline, met, past, met_references]
    rfl

theorem Stmt.met_outlineAll (declared : List (List String)) (w : Scoping) (inside : List Bool) :
    ∀ ss : List Stmt, (Stmt.visitsAll declared (inside.headD false) w ss).map Visit.sighted =
      (Walk.mk w inside).met (Stmt.outlineAll ss)
  | [] => rfl
  | s :: ss => by
    rw [visitsAll, List.map_append, met_outline declared w inside s,
      met_outlineAll declared _ inside ss, outlineAll, met_append, along_outline]

end

section

variable {program : List Stmt}

theorem sighted_visitsOf (program : List Stmt) :
    (visitsOf program).map Visit.sighted = Walk.start.met (Stmt.outlineAll program) :=
  Stmt.met_outlineAll [] .start [] program

/-- A reference of a program is marked in its outline. -/
theorem exists_mark {v : Visit} (hv : v ∈ visitsOf program) :
    ∃ before r behind, Stmt.outlineAll program = before ++ .reference r :: behind ∧
      r.id = v.id ∧ r.name.lexeme = v.name ∧ r.reads = v.reads ∧
        (Walk.start.along before).scopes = v.site.scopes := by
  have hm := List.mem_map_of_mem (f := Visit.sighted) hv
  rw [sighted_visitsOf, mem_met] at hm
  obtain ⟨before, r, behind, hs, same⟩ := hm
  exact ⟨before, r, behind, hs, (congrArg Visit.id same).symm, (congrArg Visit.name same).symm,
    (congrArg Visit.reads same).symm, (congrArg (·.site.scopes) same).symm⟩

/-- A marked reference is one of the program. -/
theorem exists_visit_of_mark {before behind : List Mark} {r : Reference}
    (h : Stmt.outlineAll program = before ++ .reference r :: behind) :
    ∃ v ∈ visitsOf program, v.id = r.id ∧ v.name = r.name.lexeme ∧ v.reads = r.reads ∧
      v.site.scopes = (Walk.start.along before).scopes := by
  have hm := (mem_met (w := .start)).2 ⟨before, r, behind, h, rfl⟩
  rw [← sighted_visitsOf] at hm
  obtain ⟨v, hv, same⟩ := List.mem_map.1 hm
  exact ⟨v, hv, congrArg Visit.id same, congrArg Visit.name same, congrArg Visit.reads same,
    congrArg (·.site.scopes) same⟩

end

/-! ## What the marks before say -/

section

variable {kind : Mark → Prop} {before : List Mark} {m : Mark} {d : Nat}

theorem before_same (level : ∀ n, m.level n = some n) :
    Before kind (before ++ [m]) d ↔ (kind m ∧ d = 0) ∨ Before kind before d := by
  rw [before_concat]
  simp [level]

theorem before_open (level : ∀ n, m.level n = some (n + 1)) :
    Before kind (before ++ [m]) d ↔
      (kind m ∧ d = 0) ∨ ∃ e, Before kind before e ∧ e + 1 = d := by
  rw [before_concat]
  simp [level]

theorem before_close (other : ¬kind .close) :
    Before kind (before ++ [.close]) d ↔ Before kind before (d + 1) := by
  rw [before_concat]
  constructor
  · rintro (⟨hk, -⟩ | ⟨e, he, level⟩)
    · exact absurd hk other
    · cases e with
      | zero => cases level
      | succ e =>
        cases level
        exact he
  · intro h
    exact .inr ⟨d + 1, h, rfl⟩

end

theorem binds_put (S : Scope) (name x : String) (b : Bool) :
    (S.put name b).binds x = true ↔ x = name ∨ S.binds x = true := S.isSome_get?_put name x b

/-- The innermost scope when a name is declared in it. -/
def Scope.declare (S : Scope) (name : String) : Scope :=
  if S.binds name then S else S.put name false

theorem Scope.binds_declare (S : Scope) (name x : String) :
    (S.declare name).binds x = true ↔ x = name ∨ S.binds x = true := by
  unfold declare
  split
  · rename_i bound
    constructor
    · exact .inr
    · rintro (rfl | hx)
      · exact bound
      · exact hx
  · exact binds_put S name x false

theorem scopes_declare_eq (w : Scoping) (t : Token) :
    (w.declare t).scopes = w.scopes.modifyHead (·.declare t.lexeme) := by
  rw [scopes_declare]
  cases w.scopes <;> rfl

theorem scopes_define_eq (w : Scoping) (t : Token) :
    (w.define t).scopes = w.scopes.modifyHead (·.put t.lexeme true) := by
  rw [scopes_define]
  cases w.scopes <;> rfl

theorem scopes_introduce_eq (w : Scoping) (t : Token) :
    (w.introduce t).scopes = w.scopes.modifyHead fun S => (S.declare t.lexeme).put t.lexeme true := by
  rw [scopes_introduce]
  cases w.scopes <;> rfl

/-- What the walk knows of its open scopes is what the marks before it say. -/
structure Shows (before : List Mark) (w : Walk) : Prop where
  size : opened before = some w.scopes.length
  binds : ∀ d S, w.scopes[d]? = some S →
    ∀ x, S.binds x = true ↔ Before (Mark.Declares x) before d
  inside : ∀ d, w.inside[d]? = some true ↔ ∃ e, d ≤ e ∧ Before (· = .function) before e

namespace Shows

theorem nil : Shows [] .start := by
  refine ⟨rfl, (fun d S hS => by cases hS), fun d => ⟨(fun h => by cases h), ?_⟩⟩
  rintro ⟨e, -, he⟩
  exact absurd he (before_nil _ e)

variable {before : List Mark} {w : Walk} {m : Mark}

/-- The innermost flag is that of the walk. -/
theorem inFunction_iff (h : Shows before w) : w.inFunction = true ↔ InFunction before := by
  have head : w.inFunction = true ↔ w.inside[0]? = some true := by
    rw [inFunction]
    cases w.inside <;> simp
  rw [head, h.inside]
  simp [InFunction]

/-- A mark that opens a scope, which has declared nothing. -/
theorem opens (h : Shows before w) (level : ∀ n, m.level n = some (n + 1))
    (undeclared : ∀ x, ¬m.Declares x) {v : Scoping} (hv : v.scopes = .empty :: w.scopes)
    {b : Bool} (hb : b = true ↔ m = .function ∨ InFunction before) :
    Shows (before ++ [m]) ⟨v, b :: w.inside⟩ := by
  refine ⟨?_, fun d S hS x => ?_, fun d => ?_⟩
  · rw [opened_concat, h.size, Option.bind_some, level]
    exact congrArg (fun scopes => some scopes.length) hv.symm
  · replace hS : (.empty :: w.scopes)[d]? = some S := hv ▸ hS
    rw [before_open level]
    cases d with
    | zero =>
      cases hS
      simp [Bindings.binds, undeclared]
    | succ d => simp [h.binds d S hS x]
  · simp only [before_open level]
    cases d with
    | zero =>
      rw [List.getElem?_cons_zero, Option.some.injEq, hb]
      constructor
      · rintro (hm | ⟨e, he⟩)
        · exact ⟨0, Nat.le_refl 0, .inl ⟨hm, rfl⟩⟩
        · exact ⟨e + 1, Nat.zero_le _, .inr ⟨e, he, rfl⟩⟩
      · rintro ⟨-, -, ⟨hm, -⟩ | ⟨e, he, -⟩⟩
        · exact .inl hm
        · exact .inr ⟨e, he⟩
    | succ d =>
      rw [List.getElem?_cons_succ, h.inside d]
      constructor
      · rintro ⟨e, hd, he⟩
        exact ⟨e + 1, Nat.succ_le_succ hd, .inr ⟨e, he, rfl⟩⟩
      · rintro ⟨-, hd, ⟨-, rfl⟩ | ⟨e, he, rfl⟩⟩
        · cases hd
        · exact ⟨e, Nat.le_of_succ_le_succ hd, he⟩

/-- The mark that closes a scope. -/
theorem closes (h : Shows before w) (ne : w.scopes ≠ []) :
    Shows (before ++ [.close]) (w.past .close) := by
  have undeclared : ∀ x, ¬Mark.Declares x .close := by
    rintro x ⟨t, ht, -⟩
    cases ht
  refine ⟨?_, fun d S hS x => ?_, fun d => ?_⟩
  · rw [opened_concat, h.size, Option.bind_some, Mark.level, if_neg (by simpa using ne)]
    exact congrArg some List.length_tail.symm
  · replace hS : w.scopes.tail[d]? = some S := hS
    rw [List.getElem?_tail] at hS
    rw [before_close (undeclared x)]
    exact h.binds (d + 1) S hS x
  · have other : ¬Mark.close = .function := Mark.noConfusion
    have shift : ∀ e, Before (· = .function) (before ++ [.close]) e ↔
        Before (· = .function) before (e + 1) := fun e => before_close other
    simp only [shift]
    rw [past, List.getElem?_tail, h.inside (d + 1)]
    constructor
    · rintro ⟨e, hd, he⟩
      obtain ⟨e, rfl⟩ : ∃ k, e = k + 1 := ⟨e - 1, by omega⟩
      exact ⟨e, Nat.le_of_succ_le_succ hd, he⟩
    · rintro ⟨e, hd, he⟩
      exact ⟨e + 1, Nat.succ_le_succ hd, he⟩

/-- A mark that leaves the scopes open, and has its name declared in the innermost one. -/
theorem stays (h : Shows before w) (level : ∀ n, m.level n = some n) (ne : m ≠ .function)
    {v : Scoping} (length : v.scopes.length = w.scopes.length)
    (binds : ∀ d S, v.scopes[d]? = some S → ∃ T, w.scopes[d]? = some T ∧
      ∀ x, S.binds x = true ↔ (m.Declares x ∧ d = 0) ∨ T.binds x = true) :
    Shows (before ++ [m]) ⟨v, w.inside⟩ := by
  refine ⟨?_, fun d S hS x => ?_, fun d => ?_⟩
  · rw [opened_concat, h.size, Option.bind_some, level]
    exact congrArg some length.symm
  · obtain ⟨T, hT, hx⟩ := binds d S hS
    rw [hx, h.binds d T hT, before_same level]
  · simp only [before_same level, ne, false_and, false_or]
    exact h.inside d

/-- A mark that changes the innermost scope only, where its name is declared then. -/
theorem declares (h : Shows before w) (level : ∀ n, m.level n = some n) (ne : m ≠ .function)
    {v : Scoping} {f : Scope → Scope} (hv : v.scopes = w.scopes.modifyHead f)
    (binds : ∀ S, w.scopes[0]? = some S →
      ∀ x, (f S).binds x = true ↔ m.Declares x ∨ S.binds x = true) :
    Shows (before ++ [m]) ⟨v, w.inside⟩ := by
  refine h.stays level ne (by rw [hv, List.length_modifyHead]) fun d S hS => ?_
  rw [hv, List.getElem?_modifyHead] at hS
  cases d with
  | zero =>
    obtain ⟨T, hT, rfl⟩ := Option.map_eq_some_iff.1 (by simpa using hS)
    exact ⟨T, hT, fun x => by rw [binds T hT]; simp⟩
  | succ d => exact ⟨S, by simpa using hS, fun x => by simp⟩

/-- A mark that changes no scope. -/
theorem keeps (h : Shows before w) (level : ∀ n, m.level n = some n) (ne : m ≠ .function)
    (undeclared : ∀ x, ¬m.Declares x) {v : Scoping} (hv : v.scopes = w.scopes) :
    Shows (before ++ [m]) ⟨v, w.inside⟩ :=
  h.stays level ne (by rw [hv]) fun d S hS => ⟨S, by rwa [hv] at hS, fun x => by simp [undeclared]⟩

/-- The walk goes past a mark. -/
theorem past (h : Shows before w) (some : ∃ n, opened (before ++ [m]) = some n)
    (ends : ∀ t, m = .varEnd t → Before (Mark.Declares t.lexeme) before 0) :
    Shows (before ++ [m]) (w.past m) := by
  cases m with
  | block =>
    exact h.opens (fun _ => rfl) (fun x ⟨t, ht, _⟩ => by cases ht) rfl
      (by rw [h.inFunction_iff]; simp)
  | function =>
    exact h.opens (fun _ => rfl) (fun x ⟨t, ht, _⟩ => by cases ht) rfl (by simp)
  | close =>
    refine h.closes fun none => ?_
    obtain ⟨n, hn⟩ := some
    rw [opened_concat, h.size, none] at hn
    cases hn
  | name t =>
    refine h.declares (fun _ => rfl) Mark.noConfusion (scopes_introduce_eq _ t) fun S _ x => ?_
    rw [binds_put, Scope.binds_declare, Mark.declares_name, or_self_left]
  | var t =>
    refine h.declares (fun _ => rfl) Mark.noConfusion (scopes_declare_eq _ t) fun S _ x => ?_
    rw [Scope.binds_declare, Mark.declares_var]
  | varEnd t =>
    refine h.declares (fun _ => rfl) Mark.noConfusion (scopes_define_eq _ t) fun S hS x => ?_
    -- the variable was declared at the beginning of its initializer
    have bound : S.binds t.lexeme = true := (h.binds 0 S hS _).2 (ends t rfl)
    rw [binds_put]
    constructor
    · rintro (rfl | hx)
      · exact .inr bound
      · exact .inr hx
    · rintro (⟨u, hu, -⟩ | hx)
      · cases hu
      · exact .inr hx
  | reference r =>
    exact h.keeps (fun _ => rfl) Mark.noConfusion (fun x ⟨t, ht, _⟩ => by cases ht)
      (scopes_walk _ _)
  | «return» k =>
    refine h.keeps (fun _ => rfl) Mark.noConfusion (fun x ⟨t, ht, _⟩ => by cases ht) ?_
    split <;> rfl

/-- A scope has declared a name if the marks before say so. -/
theorem declaredAt_iff (h : Shows before w) {name : String} {d : Nat} :
    DeclaredAt before name d ↔ ∃ S, w.scopes[d]? = some S ∧ S.binds name = true := by
  constructor
  · rintro ⟨⟨n, hn, hd⟩, hb⟩
    rw [h.size, Option.some.injEq] at hn
    subst hn
    have hS := List.getElem?_eq_getElem hd
    exact ⟨w.scopes[d], hS, (h.binds d _ hS name).2 hb⟩
  · rintro ⟨S, hS, hb⟩
    exact ⟨⟨_, h.size, (List.getElem?_eq_some_iff.1 hS).1⟩, (h.binds d S hS name).1 hb⟩

/-- The distance of a name is to the innermost scope that has declared it. -/
theorem distance?_eq_some_iff (h : Shows before w) {name : String} {d : Nat} :
    distance? w.scopes name = some d ↔ NearestAt before name d := by
  rw [distance?, List.findIdx?_eq_some_iff_getElem]
  constructor
  · rintro ⟨hd, binds, least⟩
    refine ⟨h.declaredAt_iff.2 ⟨_, List.getElem?_eq_getElem hd, binds⟩, fun e he declared => ?_⟩
    obtain ⟨S, hS, bound⟩ := h.declaredAt_iff.1 declared
    obtain ⟨_, rfl⟩ := List.getElem?_eq_some_iff.1 hS
    exact least e he bound
  · rintro ⟨declared, least⟩
    obtain ⟨S, hS, binds⟩ := h.declaredAt_iff.1 declared
    obtain ⟨hd, rfl⟩ := List.getElem?_eq_some_iff.1 hS
    refine ⟨hd, binds, ?_⟩
    intro e he bound
    exact least e he (h.declaredAt_iff.2 ⟨_, List.getElem?_eq_getElem (Nat.lt_trans he hd), bound⟩)

/-- A name has no distance if no scope has declared it. -/
theorem distance?_eq_none_iff (h : Shows before w) {name : String} :
    distance? w.scopes name = none ↔ ∀ d, ¬DeclaredAt before name d := by
  rw [distance?, List.findIdx?_eq_none_iff]
  constructor
  · intro none d declared
    obtain ⟨S, hS, binds⟩ := h.declaredAt_iff.1 declared
    rw [none S (List.mem_of_getElem? hS)] at binds
    cases binds
  · intro none S hS
    obtain ⟨d, hd⟩ := List.getElem?_of_mem hS
    exact eq_false_of_ne_true fun bound => none d (h.declaredAt_iff.2 ⟨S, hd, bound⟩)

end Shows

/-- The declaration of a variable stands in the scope of its initializer. -/
theorem before_initializer (outer : List Mark) (t : Token) (refs : List Reference) :
    Before (Mark.Declares t.lexeme) (outer ++ .var t :: refs.map .reference) 0 :=
  ⟨outer, .var t, _, rfl, Mark.declares_var.2 rfl, opened_references [] refs⟩

theorem shows_along {program : List Stmt} {before behind : List Mark}
    (h : Stmt.outlineAll program = before ++ behind) : Shows before (Walk.start.along before) := by
  -- mark by mark from the front, and the marks to come end what was begun
  induction before using List.reverseRecOn generalizing behind with
  | nil => exact .nil
  | append_singleton before m ih =>
    rw [along_concat]
    have hs : Stmt.outlineAll program = before ++ m :: behind := by rw [h, List.append_assoc]; rfl
    refine (ih hs).past (exists_opened h) ?_
    rintro t rfl
    rcases (Stmt.orderly_outlineAll program).split hs with
      ⟨-, ne⟩ | ⟨outer, u, refs, rfl, -, same | ⟨r, same⟩⟩
    · exact absurd rfl (ne t)
    · cases same
      exact before_initializer outer t refs
    · cases same

/-! ## Names in their own initializers -/

theorem AllSettled.past {w : Walk} (h : AllSettled w.scopes) {m : Mark} (plain : m.Plain) :
    AllSettled (w.past m).scopes := by
  cases m with
  | block | function => exact h.enter
  | close => exact h.tail
  | name t =>
    rw [scopes_past_name]
    exact h.introduce t.lexeme
  | var t | varEnd t => cases plain
  | reference r =>
    rw [scopes_past_reference]
    exact h
  | «return» k =>
    rw [scopes_past_return]
    exact h

/-- Where no initializer is begun, all declared names are ready. -/
theorem AllSettled.along {ms : List Mark} (ordered : Orderly ms) {w : Walk}
    (h : AllSettled w.scopes) : AllSettled (w.along ms).scopes := by
  induction ordered generalizing w with
  | nil => exact h
  | plain hm _ ih => exact ih (h.past hm)
  | @var t refs ms _ ih =>
    rw [along_cons, along_append, along_cons]
    refine ih ?_
    -- declared, looked at and made ready
    rw [scopes_past_varEnd, scopes_along_references, scopes_past_var]
    exact h.introduce t.lexeme

/-- At a mark all declared names are ready, or it stands in the initializer of the name that was
declared last. -/
theorem scopes_along_cases {program : List Stmt} {before behind : List Mark} {m : Mark}
    (h : Stmt.outlineAll program = before ++ m :: behind) :
    (Orderly before ∧ AllSettled (Walk.start.along before).scopes) ∨
      ∃ outer t, ∃ refs : List Reference, before = outer ++ .var t :: refs.map .reference ∧
        AllSettled (Walk.start.along outer).scopes ∧
          (Walk.start.along before).scopes =
            declareIn t.lexeme (Walk.start.along outer).scopes := by
  have settled : AllSettled Walk.start.scopes := by intro S hS; cases hS
  rcases (Stmt.orderly_outlineAll program).split h with
    ⟨ordered, -⟩ | ⟨outer, t, refs, rfl, ordered, -⟩
  · exact .inl ⟨ordered, settled.along ordered⟩
  · refine .inr ⟨outer, t, refs, rfl, settled.along ordered, ?_⟩
    rw [along_append, along_cons, scopes_along_references, scopes_past_var]

/-- Names that are not ready are in the innermost scope only. -/
theorem settled_tail_along {program : List Stmt} {before behind : List Mark} {m : Mark}
    (h : Stmt.outlineAll program = before ++ m :: behind) :
    AllSettled (Walk.start.along before).scopes.tail := by
  rcases scopes_along_cases h with ⟨-, settled⟩ | ⟨outer, t, refs, -, settled, scopes⟩
  · exact settled.tail
  · rw [scopes, tail_declareIn]
    exact settled.tail

theorem unready_eq_false {scopes : List Scope} (h : AllSettled scopes) (name : String) :
    unready scopes name = false := by
  cases scopes with
  | nil => rfl
  | cons S outer =>
    have := h S (List.mem_cons_self ..) name
    simpa [unready] using this

/-- A name that is declared among settled scopes is not ready if it is a new one of a scope. -/
theorem unready_declareIn {scopes : List Scope} (h : AllSettled scopes) (name other : String) :
    unready (declareIn name scopes) other = true ↔
      name = other ∧ ∃ S outer, scopes = S :: outer ∧ S.binds name = false := by
  cases scopes with
  | nil => simp [declareIn, unready]
  | cons S outer =>
    have settled := h S (List.mem_cons_self ..) other
    simp only [declareIn, unready, beq_iff_eq, List.cons.injEq]
    split
    · rename_i bound
      constructor
      · exact fun h => absurd h settled
      · rintro ⟨-, _, _, ⟨rfl, rfl⟩, unbound⟩
        rw [bound] at unbound
        cases unbound
    · rename_i unbound
      rw [Bindings.get?_put]
      constructor
      · intro h
        split at h
        · rename_i same
          exact ⟨same.symm, S, outer, ⟨rfl, rfl⟩, eq_false_of_ne_true unbound⟩
        · exact absurd h settled
      · rintro ⟨rfl, -⟩
        rw [if_pos rfl]

/-- A name of the innermost scope is not ready in its own initializer, and nowhere else. -/
theorem unready_along {program : List Stmt} {before behind : List Mark} {m : Mark}
    (h : Stmt.outlineAll program = before ++ m :: behind) (name : String) :
    unready (Walk.start.along before).scopes name = true ↔ OwnInitializer before name := by
  rcases scopes_along_cases h with ⟨ordered, settled⟩ | ⟨outer, t, refs, rfl, settled, scopes⟩
  · rw [unready_eq_false settled]
    constructor
    · intro hu
      cases hu
    · rintro ⟨outer, t, -, refs, hs, -⟩
      exact absurd hs (ordered.ne_initializer outer t refs)
  · have hs : Stmt.outlineAll program = outer ++ (.var t :: refs.map .reference ++ m :: behind) := by
      rw [h, List.append_assoc]
    have shows := shows_along hs
    rw [scopes, unready_declareIn settled]
    constructor
    · rintro ⟨same, S, rest, hS, unbound⟩
      refine ⟨outer, t, rest.length, refs, rfl, same, ?_, fun declared => ?_⟩
      · rw [shows.size, hS, List.length_cons]
      · obtain ⟨T, hT, bound⟩ := shows.declaredAt_iff.1 declared
        rw [hS] at hT
        cases hT
        rw [← same, unbound] at bound
        cases bound
    · rintro ⟨outer', t', n, refs', hs', same, size, undeclared⟩
      obtain ⟨rfl, rfl⟩ := initializer_inj hs'
      rw [shows.size, Option.some.injEq] at size
      obtain ⟨S, rest, hS⟩ := List.exists_cons_of_length_eq_add_one size
      refine ⟨same, S, rest, hS, eq_false_of_ne_true fun bound => undeclared ?_⟩
      exact shows.declaredAt_iff.2 ⟨S, by rw [hS]; rfl, same ▸ bound⟩

end Lox
