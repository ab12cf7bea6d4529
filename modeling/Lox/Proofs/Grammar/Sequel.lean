/-
Programs behind programs. A program that is accepted is parsed in front of other tokens as it is alone,
unless an `else` comes next; and what comes next is parsed as it is alone, whether it is accepted or
not, since the declarations in front of it only wait (`Lox.Parse.State.exists_leads_list`).

The main result is `program_sequel`: parsing one list of tokens behind another is parsing the one and
then the other.
-/
import Lox.Proofs.Grammar.Mapped
import Lox.Proofs.Grammar.Progress

namespace Lox.Grammar

open Parse

/-- Without an end of source among them, tokens are read in front of others as far as they go. -/
theorem start_append_tokens {ts us : List Token} (ends : ∀ t ∈ ts, t.kind ≠ .eof) (some : us ≠ [])
    (n m : Nat) : State.start n (ts ++ us) =
      ⟨.program [], ts ++ (State.start m us).rest, (State.start m us).eof, n, []⟩ := by
  have keep : ∀ t ∈ ts, (t.kind != .eof) = true := fun t mem => bne_iff_ne.2 (ends t mem)
  have taken : (ts ++ us).takeWhile (·.kind != .eof) = ts ++ us.takeWhile (·.kind != .eof) :=
    List.takeWhile_append_of_pos keep
  have none : ts.find? (·.kind == .eof) = none := List.find?_eq_none.2 (by simpa using ends)
  have found : (ts ++ us).find? (·.kind == .eof) = us.find? (·.kind == .eof) := by
    rw [List.find?_append, none]
    rfl
  have last : (ts ++ us).getLast? = us.getLast? := by
    rw [List.getLast?_append, List.getLast?_eq_some_getLast some]
    rfl
  simp only [State.start, taken, found, last]

theorem firstKind_start_ne {us : List Token} (next : firstKind us ≠ .else) (m : Nat) :
    firstKind (State.start m us).rest ≠ .else := by
  cases us with
  | nil => exact next
  | cons t us =>
    unfold State.start
    rw [List.takeWhile_cons]
    split
    · exact next
    · intro other
      cases other

/-- The tokens of an accepted program are read in front of others, if no `else` comes next. -/
theorem leads_front {n m : Nat} {ts : List Token} {ss : List Stmt} (ends : ∀ t ∈ ts, t.kind ≠ .eof)
    (first : program n ts = ⟨.ok ss, m⟩) {rest : List Token} (next : firstKind rest ≠ .else)
    (eof : Token) : State.Leads ⟨.program [], ts ++ rest, eof, n, []⟩
      ⟨.program ss.reverse, rest, eof, m, []⟩ := by
  obtain ⟨d, tokens, bounded, nearest, tree⟩ := exists_derivation ts n (by rw [first])
  have whole : ts.takeWhile (·.kind != .eof) = ts := by
    rw [List.takeWhile_eq_self_iff]
    exact fun t mem => bne_iff_ne.2 (ends t mem)
  rw [whole] at tokens
  subst tokens
  rw [first] at tree
  have nearest : d.Nearest rest :=
    Derivation.nearest_congr nearest fun other => absurd other next
  have read := (reads d bounded).2 [] rest nearest eof n []
  simpa only [tree, List.append_nil] using read

/-- Behind declarations tokens are parsed as they are alone, to the end. -/
theorem leads_behind (m : Nat) (us : List Token) (before : List Stmt) : ∃ done k errors,
    State.Leads (.start m us) ⟨.program done, [], (State.start m us).eof, k, errors⟩ ∧
      State.Leads ⟨.program before, (State.start m us).rest, (State.start m us).eof, m, []⟩
        ⟨.program (done ++ before), [], (State.start m us).eof, k, errors⟩ := by
  generalize start : State.start m us = s
  have shape : s = ⟨.program [], s.rest, s.eof, m, []⟩ := by
    rw [← start]
    rfl
  -- the place where the declarations wait
  let w : Parse.Place := ⟨none, before, [], s.eof, []⟩
  have unfinished : ¬ s.ended = true := by
    rw [shape]
    intro ended
    cases ended
  have tail : w.tail = [] := rfl
  obtain ⟨done, _, k, errors, rfl, alone, there⟩ :=
    State.exists_leads_list tail (· = []) (fun _ more => ⟨more, rfl⟩) rfl unfinished
  have placed : s.within w = ⟨.program before, s.rest, s.eof, m, []⟩ := by
    rw [shape]
    simp [State.within, w, Parse.Place.task]
  rw [placed, List.append_nil] at there
  exact ⟨done, k, errors, alone, there⟩

/-- Behind an accepted program other tokens are parsed as if they stood alone, with ids from where
those of the program end, unless they start with an `else`: if they have errors, these are the errors
of the whole, and if not, their statements come behind those of the program. -/
theorem program_sequel {n m : Nat} {ts us : List Token} {ss : List Stmt}
    (ends : ∀ t ∈ ts, t.kind ≠ .eof) (next : firstKind us ≠ .else)
    (first : program n ts = ⟨.ok ss, m⟩) :
    program n (ts ++ us) = ⟨(program m us).program.map (ss ++ ·), (program m us).nextId⟩ := by
  by_cases none : us = []
  · subst none
    have start : State.start m [] = ⟨.program [], [], .endOn 1, m, []⟩ := rfl
    have empty : program m [] = ⟨.ok [], m⟩ := program_of_leads (.of_eq start)
    rw [List.append_nil, first, empty]
    show _ = Parsed.mk (.ok (ss ++ [])) m
    rw [List.append_nil]
  · obtain ⟨done, k, errors, alone, behind⟩ := leads_behind m us ss.reverse
    have front := leads_front ends first (firstKind_start_ne next m) (State.start m us).eof
    have whole := front.trans behind
    rw [← start_append_tokens ends none] at whole
    rw [program_of_leads whole, program_of_leads alone]
    by_cases clean : errors.isEmpty = true
    · simp [clean, Except.map]
    · simp [clean, Except.map]

/-- Behind an `if` without an `else`, a variable is numbered behind the one in the `if`, and a semicolon
that is missing is missed. -/
theorem program_sequel_if :
    let x : Token := ⟨.identifier, "x", 1⟩
    let semicolon : Token := ⟨.semicolon, ";", 1⟩
    let ts : List Token :=
      [⟨.if, "if", 1⟩, ⟨.leftParen, "(", 1⟩, ⟨.nil, "nil", 1⟩, ⟨.rightParen, ")", 1⟩, x, semicolon]
    let conditional := Stmt.if (.literal .nil) (.expression (.variable 0 x)) none
    ((∀ t ∈ ts, t.kind ≠ .eof) ∧ firstKind [x] ≠ .else ∧ program 0 ts = ⟨.ok [conditional], 1⟩) ∧
      program 0 (ts ++ [x, semicolon]) = ⟨.ok [conditional, .expression (.variable 1 x)], 2⟩ ∧
      program 0 (ts ++ [x]) =
        ⟨.error [.syntactic (.endOn 1) (.expected .expressionEnd)], 2⟩ := by
  intro x semicolon ts conditional
  have ends : ∀ t ∈ ts, t.kind ≠ .eof := by decide
  have next : firstKind [x] ≠ .else := by decide
  -- the three are read in so many steps up to where only the end is left
  have read₁ : State.step^[43] (.start 0 ts) = ⟨.program [conditional], [], .endOn 1, 1, []⟩ := by
    subst conditional ts semicolon x
    rfl
  have read₂ : State.step^[22] (.start 1 [x, semicolon]) =
      ⟨.program [.expression (.variable 1 x)], [], .endOn 1, 2, []⟩ := by
    subst ts semicolon conditional x
    rfl
  have read₃ : State.step^[22] (.start 1 [x]) =
      ⟨.program [], [], .endOn 1, 2, [.syntactic (.endOn 1) (.expected .expressionEnd)]⟩ := by
    subst ts conditional x
    rfl
  have first : program 0 ts = ⟨.ok [conditional], 1⟩ := program_of_leads (.of_iterate 43 read₁)
  have second : program 1 [x, semicolon] = ⟨.ok [.expression (.variable 1 x)], 2⟩ :=
    program_of_leads (.of_iterate 22 read₂)
  have third : program 1 [x] = ⟨.error [.syntactic (.endOn 1) (.expected .expressionEnd)], 2⟩ :=
    program_of_leads (.of_iterate 22 read₃)
  have next' : firstKind [x, semicolon] ≠ .else := by decide
  have accepted := program_sequel ends next' first
  have missed := program_sequel ends next first
  rw [second] at accepted
  rw [third] at missed
  exact ⟨⟨ends, next, first⟩, accepted, missed⟩

end Lox.Grammar
