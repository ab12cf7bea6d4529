/-
The outline of a program: its blocks, functions, declared names, references and `return`s, one mark
after another. Looking back from a mark, the marks before it say which scopes it stands in and what
they have declared so far (`DeclaredAt`), whether it stands in the initializer of a name
(`OwnInitializer`) and whether in a function (`InFunction`).

An outline closes what it opens (`Stmt.levels_outline`), and from the declaration of a variable to its
end it has references only (`Orderly`).
-/
import Lox.Proofs.Scoping.Visits

namespace Lox

/-! ## Marks -/

/-- A piece of a program that matters for scopes. -/
inductive Mark
  /-- A block begins. -/
  | block
  /-- The parameters and the body of a function begin. -/
  | function
  /-- A block or a function ends. -/
  | close
  /-- The name of a class, a function or a parameter is declared. -/
  | name (name : Token)
  /-- A variable is declared. Its initializer follows, up to `varEnd`. -/
  | var (name : Token)
  | varEnd (name : Token)
  | reference (r : Reference)
  | «return» (keyword : Token)

namespace Mark

/-- The name that a mark declares. -/
def declared? : Mark → Option Token
  | .name t => some t
  | .var t => some t
  | _ => none

def Declares (name : String) (m : Mark) : Prop := ∃ t, m.declared? = some t ∧ t.lexeme = name

theorem declares_name {name : String} {t : Token} :
    (Mark.name t).Declares name ↔ name = t.lexeme := by
  simp [Declares, declared?, eq_comm]

theorem declares_var {name : String} {t : Token} :
    (Mark.var t).Declares name ↔ name = t.lexeme := by
  simp [Declares, declared?, eq_comm]

/-- How many scopes are open behind the mark, of so many before it. -/
def level (m : Mark) (n : Nat) : Option Nat :=
  match m with
  | .block | .function => some (n + 1)
  | .close => if n = 0 then none else some (n - 1)
  | _ => some n

end Mark

mutual

/-- The marks of a statement, in the order of its text. Methods have none. The references of an
expression declare nothing and stand in the order in which they are looked at. -/
def Stmt.outline : Stmt → List Mark
  | .block body => .block :: (Stmt.outlineAll body ++ [.close])
  | .class name _ => [.name name]
  | .var name initializer =>
    .var name :: ((Expr.references? initializer).map .reference ++ [.varEnd name])
  | .function ⟨name, params, body⟩ =>
    .name name :: .function :: (params.map .name ++ (Stmt.outlineAll body ++ [.close]))
  | .expression e => e.references.map .reference
  | .print e => e.references.map .reference
  | .if condition thenBranch none => condition.references.map .reference ++ thenBranch.outline
  | .if condition thenBranch (some elseBranch) =>
    condition.references.map .reference ++ (thenBranch.outline ++ elseBranch.outline)
  | .while condition body => condition.references.map .reference ++ body.outline
  | .return keyword value => .return keyword :: (Expr.references? value).map .reference

def Stmt.outlineAll : List Stmt → List Mark
  | [] => []
  | s :: ss => s.outline ++ Stmt.outlineAll ss

end

/-! ## Looking back -/

/-- How many scopes are open behind the marks, of so many before them; none if the marks close one
too many. -/
def levels (n : Option Nat) (ms : List Mark) : Option Nat := ms.foldl (fun n m => n.bind m.level) n

/-- How many scopes the marks open and leave open. -/
def opened (ms : List Mark) : Option Nat := levels (some 0) ms

/-- A mark of the kind stands before, `d` scopes outwards. -/
def Before (kind : Mark → Prop) (before : List Mark) (d : Nat) : Prop :=
  ∃ outer m inner, before = outer ++ m :: inner ∧ kind m ∧ opened inner = some d

/-- `d` scopes outwards there is a scope, of a block or function, and it has declared the name. -/
def DeclaredAt (before : List Mark) (name : String) (d : Nat) : Prop :=
  (∃ n, opened before = some n ∧ d < n) ∧ Before (Mark.Declares name) before d

/-- Of the scopes that have declared the name, the innermost is `d` scopes outwards. -/
def NearestAt (before : List Mark) (name : String) (d : Nat) : Prop :=
  DeclaredAt before name d ∧ ∀ e < d, ¬DeclaredAt before name e

/-- What follows stands in the initializer of a variable of this name, which is declared in a block
or function that has not declared the name before. -/
def OwnInitializer (before : List Mark) (name : String) : Prop :=
  ∃ outer t n, ∃ refs : List Reference, before = outer ++ .var t :: refs.map .reference ∧
    t.lexeme = name ∧ opened outer = some (n + 1) ∧ ¬DeclaredAt outer name 0

/-- What follows stands in a function. -/
def InFunction (before : List Mark) : Prop := ∃ d, Before (· = .function) before d

theorem levels_cons (n : Option Nat) (m : Mark) (ms : List Mark) :
    levels n (m :: ms) = levels (n.bind m.level) ms := rfl

theorem levels_append (n : Option Nat) (ms ns : List Mark) :
    levels n (ms ++ ns) = levels (levels n ms) ns := List.foldl_append

theorem levels_none (ms : List Mark) : levels none ms = none := by
  induction ms with
  | nil => rfl
  | cons m ms ih => exact ih

theorem levels_references (n : Option Nat) (refs : List Reference) :
    levels n (refs.map .reference) = n := by
  induction refs with
  | nil => rfl
  | cons r refs ih =>
    rw [List.map_cons, levels_cons]
    cases n <;> exact ih

theorem levels_names (n : Option Nat) (ts : List Token) : levels n (ts.map .name) = n := by
  induction ts with
  | nil => rfl
  | cons t ts ih =>
    rw [List.map_cons, levels_cons]
    cases n <;> exact ih

theorem opened_concat (ms : List Mark) (m : Mark) :
    opened (ms ++ [m]) = (opened ms).bind m.level := levels_append ..

theorem opened_references (before : List Mark) (refs : List Reference) :
    opened (before ++ refs.map .reference) = opened before := by
  rw [opened, levels_append, levels_references]
  rfl

theorem before_nil (kind : Mark → Prop) (d : Nat) : ¬Before kind [] d := by
  rintro ⟨outer, m, inner, h, -⟩
  cases outer <;> cases h

/-- One mark more: it stands in the innermost scope itself, or it moves what stands before. -/
theorem before_concat {kind : Mark → Prop} {before : List Mark} {m : Mark} {d : Nat} :
    Before kind (before ++ [m]) d ↔
      (kind m ∧ d = 0) ∨ ∃ e, Before kind before e ∧ m.level e = some d := by
  constructor
  · rintro ⟨outer, m', inner, h, hk, hd⟩
    rcases List.eq_nil_or_concat inner with rfl | ⟨inner, l, rfl⟩
    · obtain ⟨-, same⟩ := List.append_inj' h rfl
      cases same
      cases hd
      exact .inl ⟨hk, rfl⟩
    · rw [List.concat_eq_append, ← List.cons_append, ← List.append_assoc] at h
      rw [List.concat_eq_append, opened_concat] at hd
      obtain ⟨rfl, same⟩ := List.append_inj' h rfl
      cases same
      obtain ⟨e, he, hl⟩ := Option.bind_eq_some_iff.1 hd
      exact .inr ⟨e, ⟨outer, m', inner, rfl, hk, he⟩, hl⟩
  · rintro (⟨hk, rfl⟩ | ⟨e, ⟨outer, m', inner, rfl, hk, he⟩, hl⟩)
    · exact ⟨before, m, [], rfl, hk, rfl⟩
    · refine ⟨outer, m', inner ++ [m], by simp, hk, ?_⟩
      rw [opened_concat, he]
      exact hl

mutual

/-- An outline closes the scopes that it opens, and no others. -/
theorem Stmt.levels_outline (n : Nat) : ∀ s : Stmt, levels (some n) s.outline = some n
  | .block body => by
    have inner := levels_outlineAll (n + 1) body
    rw [outline, levels_cons, levels_append, Option.bind_some, Mark.level, inner]
    rfl
  | .class _ _ => rfl
  | .var name initializer => by
    rw [outline, levels_cons, levels_append, levels_references]
    rfl
  | .function ⟨name, params, body⟩ => by
    have inner := levels_outlineAll (n + 1) body
    rw [outline, levels_cons, levels_cons, levels_append, levels_names, levels_append]
    change levels (levels (some (n + 1)) (outlineAll body)) [.close] = some n
    rw [inner]
    rfl
  | .expression e | .print e => levels_references ..
  | .if condition thenBranch none => by
    rw [outline, levels_append, levels_references, levels_outline n thenBranch]
  | .if condition thenBranch (some elseBranch) => by
    rw [outline, levels_append, levels_references, levels_append, levels_outline n thenBranch,
      levels_outline n elseBranch]
  | .while condition body => by
    rw [outline, levels_append, levels_references, levels_outline n body]
  | .return _ _ => levels_references ..

theorem Stmt.levels_outlineAll (n : Nat) : ∀ ss : List Stmt,
    levels (some n) (Stmt.outlineAll ss) = some n
  | [] => rfl
  | s :: ss => by rw [outlineAll, levels_append, levels_outline n s, levels_outlineAll n ss]

end

/-- At every mark of a program some number of scopes is open. -/
theorem exists_opened {program : List Stmt} {before behind : List Mark}
    (h : Stmt.outlineAll program = before ++ behind) : ∃ n, opened before = some n := by
  have whole := Stmt.levels_outlineAll 0 program
  rw [h, levels_append] at whole
  cases hb : opened before with
  | some n => exact ⟨n, rfl⟩
  | none =>
    rw [← opened, hb, levels_none] at whole
    cases whole

/-! ## The order of marks -/

/-- The mark may stand anywhere, as far as initializers are concerned. -/
def Mark.Plain : Mark → Prop
  | .var _ | .varEnd _ => False
  | _ => True

/-- Between the declaration of a variable and its end are references only. -/
inductive Orderly : List Mark → Prop
  | nil : Orderly []
  | plain {m : Mark} {ms : List Mark} : m.Plain → Orderly ms → Orderly (m :: ms)
  | var {t : Token} {refs : List Reference} {ms : List Mark} :
    Orderly ms → Orderly (.var t :: (refs.map .reference ++ .varEnd t :: ms))

namespace Orderly

theorem append {ms ns : List Mark} (h : Orderly ms) (h' : Orderly ns) : Orderly (ms ++ ns) := by
  induction h with
  | nil => exact h'
  | plain hm _ ih => exact .plain hm ih
  | var _ ih =>
    rw [List.cons_append, List.append_assoc, List.cons_append]
    exact .var ih

theorem of_plain {ms : List Mark} (h : ∀ m ∈ ms, m.Plain) : Orderly ms := by
  induction ms with
  | nil => exact .nil
  | cons m ms ih =>
    rw [List.forall_mem_cons] at h
    exact .plain h.1 (ih h.2)

theorem references (refs : List Reference) : Orderly (refs.map .reference) := by
  refine of_plain fun m hm => ?_
  obtain ⟨r, -, rfl⟩ := List.mem_map.1 hm
  trivial

theorem names (ts : List Token) : Orderly (ts.map .name) := by
  refine of_plain fun m hm => ?_
  obtain ⟨t, -, rfl⟩ := List.mem_map.1 hm
  trivial

end Orderly

mutual

theorem Stmt.orderly_outline : ∀ s : Stmt, Orderly s.outline
  | .block body =>
    .plain trivial ((orderly_outlineAll body).append (.plain trivial .nil))
  | .class _ _ => .plain trivial .nil
  | .var _ _ => .var .nil
  | .function ⟨_, params, body⟩ =>
    have inner := (orderly_outlineAll body).append (.plain (m := .close) trivial .nil)
    .plain trivial (.plain trivial ((Orderly.names params).append inner))
  | .expression e | .print e => Orderly.references e.references
  | .if condition thenBranch none =>
    (Orderly.references condition.references).append (orderly_outline thenBranch)
  | .if condition thenBranch (some elseBranch) =>
    (Orderly.references condition.references).append
      ((orderly_outline thenBranch).append (orderly_outline elseBranch))
  | .while condition body =>
    (Orderly.references condition.references).append (orderly_outline body)
  | .return _ _ => .plain trivial (Orderly.references _)

theorem Stmt.orderly_outlineAll : ∀ ss : List Stmt, Orderly (Stmt.outlineAll ss)
  | [] => .nil
  | s :: ss => (orderly_outline s).append (orderly_outlineAll ss)

end

theorem not_mem_references {m : Mark} (other : ∀ r, m ≠ .reference r) (refs : List Reference) :
    m ∉ refs.map Mark.reference := by
  intro hm
  obtain ⟨r, -, rfl⟩ := List.mem_map.1 hm
  exact other r rfl

/-- Where references are followed by another mark, every mark is one of them, that mark, or one
behind it. -/
theorem references_append_eq {refs : List Reference} {m m' : Mark} {before rest behind : List Mark}
    (other : ∀ r, m' ≠ .reference r)
    (h : refs.map .reference ++ m' :: rest = before ++ m :: behind) :
    (∃ done r more, refs = done ++ r :: more ∧ before = done.map .reference ∧ m = .reference r) ∨
      (before = refs.map .reference ∧ m = m') ∨
        ∃ between, before = refs.map .reference ++ m' :: between ∧ rest = between ++ m :: behind := by
  rcases List.append_eq_append_iff.1 h with ⟨a, hb, hr⟩ | ⟨c, hrefs, hm⟩
  · cases a with
    | nil =>
      cases hr
      exact .inr (.inl ⟨by rw [hb, List.append_nil], rfl⟩)
    | cons x a =>
      cases hr
      exact .inr (.inr ⟨a, hb, rfl⟩)
  · cases c with
    | nil =>
      cases hm
      exact .inr (.inl ⟨by rw [hrefs, List.append_nil], rfl⟩)
    | cons x c =>
      cases hm
      obtain ⟨done, tail, rfl, hdone, htail⟩ := List.map_eq_append_iff.1 hrefs
      obtain ⟨r, more, rfl, rfl, -⟩ := List.map_eq_cons_iff.1 htail
      exact .inl ⟨done, r, more, rfl, hdone.symm, rfl⟩

namespace Orderly

/-- A mark of an outline stands in no initializer, or it is a reference of one or its end. -/
theorem split {ms before behind : List Mark} {m : Mark} (h : Orderly ms)
    (hs : ms = before ++ m :: behind) :
    (Orderly before ∧ ∀ t, m ≠ .varEnd t) ∨
      ∃ outer t, ∃ refs : List Reference, before = outer ++ .var t :: refs.map .reference ∧
        Orderly outer ∧ (m = .varEnd t ∨ ∃ r, m = .reference r) := by
  induction h generalizing before with
  | nil => cases before <;> cases hs
  | @plain x ms hx _ ih =>
    cases before with
    | nil =>
      cases hs
      refine .inl ⟨.nil, ?_⟩
      rintro t rfl
      exact hx
    | cons y before =>
      cases hs
      rcases ih rfl with ⟨ordered, ne⟩ | ⟨outer, t, refs, rfl, ordered, hm⟩
      · exact .inl ⟨.plain hx ordered, ne⟩
      · exact .inr ⟨x :: outer, t, refs, rfl, .plain hx ordered, hm⟩
  | @var t refs ms _ ih =>
    cases before with
    | nil =>
      cases hs
      exact .inl ⟨.nil, fun _ => Mark.noConfusion⟩
    | cons y before =>
      rw [List.cons_append, List.cons.injEq] at hs
      obtain ⟨rfl, hs⟩ := hs
      rcases references_append_eq (fun _ => Mark.noConfusion) hs with
        ⟨done, r, more, rfl, rfl, rfl⟩ | ⟨rfl, rfl⟩ | ⟨between, rfl, rest⟩
      · exact .inr ⟨[], t, done, rfl, .nil, .inr ⟨r, rfl⟩⟩
      · exact .inr ⟨[], t, refs, rfl, .nil, .inl rfl⟩
      · rcases ih rest with ⟨ordered, ne⟩ | ⟨outer, t', refs', rfl, ordered, hm⟩
        · exact .inl ⟨.var ordered, ne⟩
        · refine .inr ⟨.var t :: (refs.map .reference ++ .varEnd t :: outer), t', refs', ?_,
            .var ordered, hm⟩
          simp

/-- Marks in order do not stop in an initializer. -/
theorem ne_initializer {ms : List Mark} (h : Orderly ms) (outer : List Mark) (t : Token)
    (refs : List Reference) : ms ≠ outer ++ .var t :: refs.map .reference := by
  induction h generalizing outer with
  | nil =>
    intro hs
    cases outer <;> cases hs
  | plain hx _ ih =>
    intro hs
    cases outer with
    | nil =>
      cases hs
      exact hx
    | cons y outer =>
      rw [List.cons_append, List.cons.injEq] at hs
      exact ih outer hs.2
  | @var t' refs' ms _ ih =>
    intro hs
    cases outer with
    | nil =>
      rw [List.nil_append, List.cons.injEq] at hs
      have inside : Mark.varEnd t' ∈ refs.map Mark.reference :=
        hs.2 ▸ List.mem_append_right _ (List.mem_cons_self ..)
      exact not_mem_references (fun _ => Mark.noConfusion) refs inside
    | cons y outer =>
      rw [List.cons_append, List.cons.injEq] at hs
      rcases references_append_eq (fun _ => Mark.noConfusion) hs.2 with
        ⟨_, _, _, _, _, hm⟩ | ⟨_, hm⟩ | ⟨between, _, hs⟩
      · cases hm
      · cases hm
      · exact ih between hs

end Orderly

/-- The declaration of a variable is the last one before its initializer. -/
theorem initializer_inj {outer outer' : List Mark} {t t' : Token} {refs refs' : List Reference}
    (h : outer ++ .var t :: refs.map .reference = outer' ++ .var t' :: refs'.map .reference) :
    outer = outer' ∧ t = t' := by
  have absent : ∀ (u : Token) (rs : List Reference), Mark.var u ∉ rs.map Mark.reference :=
    fun u rs => not_mem_references (fun _ => Mark.noConfusion) rs
  rcases List.append_eq_append_iff.1 h with ⟨between, rfl, hr⟩ | ⟨between, rfl, hr⟩
  · cases between with
    | nil =>
      rw [List.nil_append, List.cons.injEq, Mark.var.injEq] at hr
      exact ⟨(List.append_nil _).symm, hr.1⟩
    | cons m between =>
      rw [List.cons_append, List.cons.injEq] at hr
      exact absurd (hr.2 ▸ List.mem_append_right _ (List.mem_cons_self ..)) (absent t' refs)
  · cases between with
    | nil =>
      rw [List.nil_append, List.cons.injEq, Mark.var.injEq] at hr
      exact ⟨List.append_nil _, hr.1.symm⟩
    | cons m between =>
      rw [List.cons_append, List.cons.injEq] at hr
      exact absurd (hr.2 ▸ List.mem_append_right _ (List.mem_cons_self ..)) (absent t refs')

end Lox
