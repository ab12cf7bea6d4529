/-
What the text of a tree says. The statements of a parsed source, those inside of others as well, have
operators and tokens that suit them. So where two of them are faithful and are written alike, their
forms are the same, and reading the forms gives one tree: the statements differ in ids and lines at
most (`Stmt.alike_of_text`).
-/
import Lox.Proofs.Number.ReadBack
import Lox.Proofs.Syntax.Reading

namespace Lox

/-! ## Statements of sources -/

/-- The statements that stand directly in the statement, those of functions and methods included. -/
def Stmt.inner : Stmt → List Stmt
  | .block body => body
  | .class _ methods => methods.flatMap (·.body)
  | .function declaration => declaration.body
  | .if _ thenBranch elseBranch => thenBranch :: elseBranch.toList
  | .while _ body => [body]
  | .expression _ | .print _ | .return _ _ | .var _ _ => []

/-- A statement of a source that is parsed, at any depth. -/
inductive Stmt.OfSource : Stmt → Prop
  | program {source : String} {n : Nat} {ss : List Stmt}
    (parsed : (Parse.program n (Item.tokens (scan source))).program = .ok ss) {s : Stmt}
    (mem : s ∈ ss) : OfSource s
  | inner {s : Stmt} (outer : OfSource s) {t : Stmt} (mem : t ∈ s.inner) : OfSource t

theorem Stmt.methodsApt_iff {fs : List Function} :
    Stmt.MethodsApt fs ↔ ∀ s ∈ fs.flatMap (·.body), s.Apt := by
  induction fs with
  | nil => simp
  | cons f fs ih => rw [Stmt.MethodsApt, ih, List.flatMap_cons, List.forall_mem_append, Stmt.allApt_iff]

theorem Stmt.spelled_of_methodsSpelled {fs : List Function} (spelled : Stmt.MethodsSpelled fs) :
    ∀ s ∈ fs.flatMap (·.body), s.Spelled := by
  induction fs with
  | nil => nofun
  | cons f fs ih =>
    rw [List.flatMap_cons, List.forall_mem_append]
    exact ⟨Stmt.allSpelled_iff.1 spelled.1.2.2, ih spelled.2⟩

theorem Stmt.Apt.inner {s : Stmt} (apt : s.Apt) : ∀ t ∈ s.inner, t.Apt := by
  cases s with
  | block body => exact Stmt.allApt_iff.1 apt
  | «class» name methods => exact Stmt.methodsApt_iff.1 apt
  | function declaration => exact Stmt.allApt_iff.1 apt
  | «if» condition thenBranch elseBranch => cases elseBranch <;> simp_all [Stmt.inner]
  | «while» condition body => simp_all [Stmt.inner]
  | _ => nofun

theorem Stmt.Spelled.inner {s : Stmt} (spelled : s.Spelled) : ∀ t ∈ s.inner, t.Spelled := by
  cases s with
  | block body => exact Stmt.allSpelled_iff.1 spelled
  | «class» name methods => exact Stmt.spelled_of_methodsSpelled spelled.2
  | function declaration => exact Stmt.allSpelled_iff.1 spelled.2.2
  | «if» condition thenBranch elseBranch => cases elseBranch <;> simp_all [Stmt.inner]
  | «while» condition body => simp_all [Stmt.inner]
  | _ => nofun

namespace Stmt.OfSource

variable {s : Stmt}

theorem apt (source : s.OfSource) : s.Apt := by
  induction source with
  | program parsed mem => exact allApt_iff.1 (Grammar.apt_of_program parsed) _ mem
  | inner _ mem ih => exact ih.inner _ mem

theorem spelled (source : s.OfSource) : s.Spelled := by
  induction source with
  | program parsed mem => exact allSpelled_iff.1 (Grammar.spelled_of_program parsed) _ mem
  | inner _ mem ih => exact ih.inner _ mem

end Stmt.OfSource

/-! ## One text, one tree -/

/-- Two faithful statements of sources that are written alike are the same but for ids and lines. -/
theorem Stmt.alike_of_text {s t : Stmt} (hs : s.OfSource) (ht : t.OfSource) (faithful : s.Faithful)
    (faithful' : t.Faithful) (same : s.text = t.text) :
    s.map (fun _ => 0) Token.unlined = t.map (fun _ => 0) Token.unlined := by
  have forms : s.form = t.form := by
    refine Sexp.text_inj (s.proper_form hs.apt hs.spelled faithful)
      (t.proper_form ht.apt ht.spelled faithful') ?_
    rw [s.text_form, t.text_form, same]
  have read := s.stmt?_form hs.apt hs.spelled faithful
  rw [forms, t.stmt?_form ht.apt ht.spelled faithful'] at read
  exact (Option.some.inj read).symm

namespace Grammar

/-- `block(-1)` on some line, with the number in some notation. -/
def negatedArgument (line : Nat) (number : String) : Derivation (.expression .unary) :=
  .unaryOfCall <|
    .callSome (.callOfPrimary (.identifier ⟨⟨.identifier, "block", line⟩, rfl⟩))
      ⟨⟨.leftParen, "(", line⟩, rfl⟩
      (.lastArgument <| .assignmentOfOr <| orOfUnary <|
        .prefixed ⟨⟨.minus, "-", line⟩, .inr rfl⟩
          (numberOperand (Float.ofBits 0x3FF0000000000000) number line))
      ⟨⟨.rightParen, ")", line⟩, rfl⟩

theorem ofSource_negatedArgument {source : String} {line : Nat} {number : String}
    (tokens : Item.tokens (scan source) = (negatedArgument line number).tokens ++
      [⟨.semicolon, ";", line⟩, .endOn line]) (n : Nat) :
    (Stmt.expression ((negatedArgument line number).tree n).1).OfSource := by
  have few : 1 ≤ Parse.maxArity := by decide
  have bounded : (negatedArgument line number).Bounded := ⟨trivial, trivial, few⟩
  have parsed := program_operand bounded ⟨⟨.semicolon, ";", line⟩, rfl⟩
    (show (Token.endOn line).kind = .eof from rfl) n
  rw [← tokens] at parsed
  exact .program parsed (List.mem_singleton_self _)

end Grammar

open Grammar in
/-- A name may be spelled like a head, and a number may be written in two ways. -/
theorem Stmt.alike_of_text_call :
    let s := Stmt.expression ((negatedArgument 1 "1").tree 0).1
    let t := Stmt.expression ((negatedArgument 2 "1.0").tree 5).1
    s.OfSource ∧ t.OfSource ∧ s.Faithful ∧ t.Faithful ∧
      s.text = "(; (call block (- 1.0)))" ∧ t.text = s.text ∧
      s.map (fun _ => 0) Token.unlined = t.map (fun _ => 0) Token.unlined := by
  intro s t
  have hs : s.OfSource := @ofSource_negatedArgument "block(-1);" 1 "1" (by decide +kernel) 0
  have ht : t.OfSource := @ofSource_negatedArgument "\nblock(- 1.0 );" 2 "1.0" (by decide +kernel) 5
  have finite : (Float.ofBits 0x3FF0000000000000).isInf = false := by decide +kernel
  have text : s.text = "(; (call block (- 1.0)))" := by decide +kernel
  have same : t.text = s.text := by decide +kernel
  exact ⟨hs, ht, ⟨trivial, finite, trivial⟩, ⟨trivial, finite, trivial⟩, text, same,
    alike_of_text hs ht ⟨trivial, finite, trivial⟩ ⟨trivial, finite, trivial⟩ same.symm⟩

end Lox
