/-
Forms: words, and lists of forms in parentheses, written with one space between the parts of a list.
Where words have characters and none of these is a space or a parenthesis, a form can be read off its
text, and so can what stands behind it, if that does not go on with a word (`text_append_inj`). The
induction is on the form; the parts of a list are read one after another up to the closing
parenthesis.
-/

namespace Lox

/-- A word, or a list in parentheses. -/
inductive Sexp
  | word (s : String)
  | list (parts : List Sexp)

namespace Sexp

mutual

/-- The form as it is written. -/
def text : Sexp → String
  | word s => s
  | list [] => "()"
  | list (p :: ps) => "(" ++ p.text ++ spaced ps ++ ")"

/-- The forms as they are written, a space before each. -/
def spaced : List Sexp → String
  | [] => ""
  | p :: ps => " " ++ p.text ++ spaced ps

end

/-! ## Words -/

/-- The characters that end a word. -/
def isMark (c : Char) : Bool := c == ' ' || c == '(' || c == ')'

/-- A word that can be told from what is written around it. -/
structure Solid (s : String) : Prop where
  some : s.toList ≠ []
  inside : ∀ c ∈ s.toList, isMark c = false

theorem solid_iff {s : String} :
    Solid s ↔ s.toList ≠ [] ∧ s.toList.all fun c => !isMark c := by
  simp only [List.all_eq_true, Bool.not_eq_true']
  exact ⟨fun solid => ⟨solid.some, solid.inside⟩, fun both => ⟨both.1, both.2⟩⟩

instance (s : String) : Decidable (Solid s) := decidable_of_iff' _ solid_iff

/-- No word goes on with the text. -/
def Stops (rest : List Char) : Prop := ∀ c ∈ rest.head?, isMark c

theorem stops_cons {c : Char} (mark : isMark c) (rest : List Char) : Stops (c :: rest) := by
  rintro d ⟨⟩
  exact mark

theorem Solid.takeWhile {s : String} (solid : Solid s) {rest : List Char} (stops : Stops rest) :
    (s.toList ++ rest).takeWhile (!isMark ·) = s.toList := by
  have inside : ∀ c ∈ s.toList, (!isMark c) = true := by simpa using solid.inside
  rw [List.takeWhile_append_of_pos inside]
  cases rest with
  | nil => exact List.append_nil _
  | cons c rest =>
    rw [List.takeWhile_cons_of_neg (by simpa using stops c rfl), List.append_nil]

theorem Solid.append_inj {s t : String} (hs : Solid s) (ht : Solid t) {rest rest' : List Char}
    (stops : Stops rest) (stops' : Stops rest') (same : s.toList ++ rest = t.toList ++ rest') :
    s = t ∧ rest = rest' := by
  have words : s.toList = t.toList := by rw [← hs.takeWhile stops, same, ht.takeWhile stops']
  rw [words] at same
  exact ⟨String.toList_inj.1 words, List.append_cancel_left same⟩

/-! ## Forms -/

mutual

/-- All words of the form can be told from what is written around them. -/
@[simp] def Proper : Sexp → Prop
  | word s => Solid s
  | list ps => AllProper ps

@[simp] def AllProper : List Sexp → Prop
  | [] => True
  | p :: ps => p.Proper ∧ AllProper ps

end

/-- A form starts with a character of a word or an opening parenthesis. -/
theorem exists_first (p : Sexp) (proper : p.Proper) :
    ∃ c cs, p.text.toList = c :: cs ∧ (isMark c = false ∨ c = '(') := by
  match p with
  | word s =>
    have proper : Solid s := proper
    obtain ⟨c, cs, chars⟩ := List.exists_cons_of_ne_nil proper.some
    exact ⟨c, cs, chars, .inl (proper.inside c (by simp [chars]))⟩
  | list [] => exact ⟨'(', [')'], rfl, .inr rfl⟩
  | list (p :: ps) => exact ⟨'(', (p.text ++ spaced ps ++ ")").toList, by simp [text], .inr rfl⟩

/-- A word is no list. -/
theorem word_ne_list {s : String} (solid : Solid s) (parts : List Sexp) {rest rest' : List Char} :
    s.toList ++ rest ≠ (list parts).text.toList ++ rest' := by
  intro same
  obtain ⟨c, cs, chars⟩ := List.exists_cons_of_ne_nil solid.some
  have inside := solid.inside c (by simp [chars])
  rw [chars] at same
  have opening : c = '(' := by
    cases parts with
    | nil => exact (List.cons.inj same).1
    | cons p ps =>
      simp only [text, String.toList_append] at same
      exact (List.cons.inj same).1
  rw [opening] at inside
  cases inside

/-- An empty list is no other list. -/
theorem nil_ne_cons {p : Sexp} (proper : p.Proper) (ps : List Sexp) {rest rest' : List Char} :
    (list []).text.toList ++ rest ≠ (list (p :: ps)).text.toList ++ rest' := by
  intro same
  obtain ⟨c, cs, chars, first⟩ := exists_first p proper
  simp only [text, String.toList_append, chars] at same
  have closing : ')' = c := (List.cons.inj (List.cons.inj same).2).1
  rw [← closing] at first
  revert first
  decide

theorem stops_spaced (ps : List Sexp) (rest : List Char) :
    Stops ((spaced ps).toList ++ ')' :: rest) := by
  cases ps with
  | nil => exact stops_cons (by decide) rest
  | cons p ps =>
    simp only [spaced, String.toList_append]
    exact stops_cons (by decide) _

theorem text_list_append (p : Sexp) (ps : List Sexp) (rest : List Char) :
    (list (p :: ps)).text.toList ++ rest =
      '(' :: (p.text.toList ++ ((spaced ps).toList ++ ')' :: rest)) := by
  simp [text]

theorem spaced_append (p : Sexp) (ps : List Sexp) (rest : List Char) :
    (spaced (p :: ps)).toList ++ rest = ' ' :: (p.text.toList ++ ((spaced ps).toList ++ rest)) := by
  simp [spaced]

mutual

/-- The text of a form, with something behind it, is that of no other form. -/
theorem text_append_inj : ∀ (p q : Sexp), p.Proper → q.Proper → ∀ {rest rest' : List Char},
    Stops rest → Stops rest' → p.text.toList ++ rest = q.text.toList ++ rest' →
      p = q ∧ rest = rest'
  | word s, word t, hp, hq, _, _, stops, stops', same => by
    obtain ⟨rfl, rest⟩ := Solid.append_inj hp hq stops stops' same
    exact ⟨rfl, rest⟩
  | word s, list qs, hp, _, _, _, _, _, same => absurd same (word_ne_list hp qs)
  | list ps, word t, _, hq, _, _, _, _, same => absurd same.symm (word_ne_list hq ps)
  | list [], list [], _, _, _, _, _, _, same => ⟨rfl, List.append_cancel_left same⟩
  | list [], list (q :: qs), _, hq, _, _, _, _, same => absurd same (nil_ne_cons hq.1 qs)
  | list (p :: ps), list [], hp, _, _, _, _, _, same => absurd same.symm (nil_ne_cons hp.1 ps)
  | list (p :: ps), list (q :: qs), hp, hq, rest, rest', _, _, same => by
    rw [text_list_append, text_list_append] at same
    obtain ⟨rfl, behind⟩ := text_append_inj p q hp.1 hq.1 (stops_spaced ps rest)
      (stops_spaced qs rest') (List.cons.inj same).2
    obtain ⟨rfl, rest⟩ := spaced_append_inj ps qs hp.2 hq.2 behind
    exact ⟨rfl, rest⟩

/-- And so is that of the parts of a list, up to its end. -/
theorem spaced_append_inj : ∀ (ps qs : List Sexp), AllProper ps → AllProper qs →
    ∀ {rest rest' : List Char},
      (spaced ps).toList ++ ')' :: rest = (spaced qs).toList ++ ')' :: rest' → ps = qs ∧ rest = rest'
  | [], [], _, _, _, _, same => ⟨rfl, (List.cons.inj same).2⟩
  | [], q :: qs, _, _, _, _, same => by
    rw [spaced_append] at same
    exact absurd (List.cons.inj same).1 (by decide)
  | p :: ps, [], _, _, _, _, same => by
    rw [spaced_append] at same
    exact absurd (List.cons.inj same).1 (by decide)
  | p :: ps, q :: qs, hp, hq, rest, rest', same => by
    rw [spaced_append, spaced_append] at same
    obtain ⟨rfl, behind⟩ := text_append_inj p q hp.1 hq.1 (stops_spaced ps rest)
      (stops_spaced qs rest') (List.cons.inj same).2
    obtain ⟨rfl, rest⟩ := spaced_append_inj ps qs hp.2 hq.2 behind
    exact ⟨rfl, rest⟩

end

/-- Forms that are written alike are the same. -/
theorem text_inj {p q : Sexp} (hp : p.Proper) (hq : q.Proper) (same : p.text = q.text) : p = q := by
  have stops : Stops [] := nofun
  exact (text_append_inj p q hp hq stops stops (by rw [same])).1

end Sexp

end Lox
