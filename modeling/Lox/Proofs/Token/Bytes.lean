/-
The bytes of a text. A character of the ASCII range is its only byte, and the bytes of all others
are outside of that range; so what looks for ASCII characters among the bytes of a text finds those
of the text, and nothing inside of another character (`takeWhile_octets`, `any_head?_octets`). A
position of a source is the number of bytes in front of it, and text can be taken out between two.
-/
import Lox.Proofs.Token.Spans
import Lox.Token.Cursor

namespace Lox

/-! ## Bytes -/

/-- The bytes of characters, each as a character of its own. -/
def octets (cs : List Char) : List Char := (cs.flatMap String.utf8EncodeChar).map Char.ofUInt8

@[simp] theorem octets_nil : octets [] = [] := rfl

@[simp] theorem octets_append (cs ds : List Char) : octets (cs ++ ds) = octets cs ++ octets ds := by
  rw [octets, List.flatMap_append, List.map_append]
  rfl

theorem octets_cons (c : Char) (cs : List Char) : octets (c :: cs) = octets [c] ++ octets cs :=
  octets_append [c] cs

theorem length_octets (cs : List Char) : (octets cs).length = (String.ofList cs).utf8ByteSize := by
  rw [octets, List.length_map, ← String.size_toByteArray, String.toByteArray_ofList,
    List.utf8Encode]
  simp

theorem octets_eq_nil {cs : List Char} : octets cs = [] ↔ cs = [] := by
  rw [← List.length_eq_zero_iff, length_octets, String.utf8ByteSize_eq_zero_iff,
    String.ofList_eq_empty_iff]

theorem toNat_ofUInt8 (b : UInt8) : (Char.ofUInt8 b).toNat = b.toNat := rfl

/-- A character of the ASCII range is its only byte. -/
theorem octets_narrow {c : Char} (h : c.toNat < 128) : octets [c] = [c] := by
  have small : c.val.toNat ≤ 127 := Nat.le_of_lt_succ h
  have same : Char.ofUInt8 (UInt8.ofNat c.val.toNat) = c := by
    apply Char.toNat_inj.1
    rw [toNat_ofUInt8, UInt8.toNat_ofNat']
    exact Nat.mod_eq_of_lt (Nat.lt_of_le_of_lt small (by decide))
  rw [octets, List.flatMap_singleton, String.utf8EncodeChar.eq_1, if_pos small, List.map_singleton,
    same]

/-- The bytes of any other character are outside of that range. -/
theorem octets_wide {c : Char} (h : 128 ≤ c.toNat) :
    octets [c] ≠ [] ∧ ∀ b ∈ octets [c], 128 ≤ b.toNat := by
  have large : ¬ c.val.toNat ≤ 127 := Nat.not_le_of_lt h
  rw [octets, List.flatMap_singleton, String.utf8EncodeChar.eq_1, if_neg large]
  split
  · simp [toNat_ofUInt8]; omega
  · split
    · simp [toNat_ofUInt8]; omega
    · simp [toNat_ofUInt8]; omega

/-- The predicate does not tell the characters outside of that range apart. -/
def Narrow (p : Char → Bool) : Prop :=
  ∀ c d : Char, 128 ≤ c.toNat → 128 ≤ d.toNat → p c = p d

theorem narrow_of_lt {p : Char → Bool} (h : ∀ c, p c = true → c.toNat < 128) : Narrow p := by
  have wide : ∀ c : Char, 128 ≤ c.toNat → p c = false := fun c wide =>
    Bool.eq_false_iff.2 fun some => absurd (h c some) (Nat.not_lt_of_le wide)
  intro c d hc hd
  rw [wide c hc, wide d hd]

theorem narrow_beq {k : Char} (h : k.toNat < 128) : Narrow (· == k) :=
  narrow_of_lt fun _ same => beq_iff_eq.1 same ▸ h

theorem narrow_bne {k : Char} (h : k.toNat < 128) : Narrow (· != k) := fun c d hc hd =>
  congrArg not (narrow_beq h c d hc hd)

theorem lt_of_isWordChar (c : Char) (h : isWordChar c = true) : c.toNat < 128 := by
  have le {k : Char} (le : c.val ≤ k.val) (ascii : k.toNat < 128) : c.toNat < 128 :=
    Nat.lt_of_le_of_lt (UInt32.le_iff_toNat_le.1 le) ascii
  rcases Bool.or_eq_true_iff.1 h with alphanum | underscore
  · rcases Bool.or_eq_true_iff.1 alphanum with alpha | digit
    · rcases Bool.or_eq_true_iff.1 alpha with upper | lower
      · exact @le 'Z' (of_decide_eq_true upper).2 (by decide)
      · exact @le 'z' (of_decide_eq_true (Bool.and_eq_true_iff.1 lower).2) (by decide)
    · exact @le '9' (of_decide_eq_true (Bool.and_eq_true_iff.1 digit).2) (by decide)
  · rw [beq_iff_eq.1 underscore]
    decide

theorem narrow_isWordChar : Narrow isWordChar := narrow_of_lt lt_of_isWordChar

theorem narrow_isDigit : Narrow Char.isDigit := by
  refine narrow_of_lt fun c digit => lt_of_isWordChar c ?_
  simp [isWordChar, Char.isAlphanum, digit]

theorem takeWhile_octets {p : Char → Bool} (narrow : Narrow p) (cs : List Char) :
    (octets cs).takeWhile p = octets (cs.takeWhile p) := by
  induction cs with
  | nil => rfl
  | cons c cs ih =>
    rw [octets_cons]
    by_cases ascii : c.toNat < 128
    · rw [octets_narrow ascii, List.singleton_append, List.takeWhile_cons, List.takeWhile_cons, ih]
      split
      · rw [octets_cons c, octets_narrow ascii, List.singleton_append]
      · rfl
    · obtain ⟨some, wide⟩ := octets_wide (Nat.le_of_not_lt ascii)
      have alike : ∀ b ∈ octets [c], p b = p c := fun b mem =>
        narrow b c (wide b mem) (Nat.le_of_not_lt ascii)
      cases h : p c with
      | true =>
        rw [List.takeWhile_append_of_pos fun b mem => (alike b mem).trans h, ih,
          List.takeWhile_cons_of_pos h, ← octets_cons]
      | false =>
        obtain ⟨b, bs, first⟩ := List.exists_cons_of_ne_nil some
        have stops : p b = false := (alike b (first ▸ List.mem_cons_self)).trans h
        rw [first, List.cons_append, List.takeWhile_cons_of_neg (by simp [stops]),
          List.takeWhile_cons_of_neg (by simp [h]), octets_nil]

theorem count_octets (cs : List Char) : (octets cs).count '\n' = cs.count '\n' := by
  induction cs with
  | nil => rfl
  | cons c cs ih =>
    rw [octets_cons, List.count_append, ih, List.count_cons, Nat.add_comm]
    congr 1
    by_cases ascii : c.toNat < 128
    · rw [octets_narrow ascii, List.count_singleton]
    · obtain ⟨-, wide⟩ := octets_wide (Nat.le_of_not_lt ascii)
      have none : '\n' ∉ octets [c] := fun mem => absurd (wide _ mem) (by decide)
      have other : ¬ (c == '\n') = true := by
        rw [beq_iff_eq]
        rintro rfl
        exact ascii (by decide)
      rw [List.count_eq_zero.2 none, if_neg other]

/-- The first byte of a text answers as its first character does. -/
theorem any_head?_octets {p : Char → Bool} (narrow : Narrow p) (cs : List Char) :
    (octets cs).head?.any p = cs.head?.any p := by
  cases cs with
  | nil => rfl
  | cons c cs =>
    rw [octets_cons]
    by_cases ascii : c.toNat < 128
    · rw [octets_narrow ascii]
      rfl
    · obtain ⟨some, wide⟩ := octets_wide (Nat.le_of_not_lt ascii)
      obtain ⟨b, bs, first⟩ := List.exists_cons_of_ne_nil some
      rw [first]
      exact narrow b c (wide b (first ▸ List.mem_cons_self)) (Nat.le_of_not_lt ascii)

theorem octets_toList (source : String) :
    octets source.toList = source.toByteArray.data.toList.map Char.ofUInt8 := by
  have bytes : source.toByteArray = source.toList.utf8Encode := by
    rw [← String.toByteArray_ofList, String.ofList_toList]
  rw [bytes, List.utf8Encode, List.data_toByteArray, octets]

/-! ## Positions -/

section

variable {source : String} {p q : source.Pos} {before behind : List Char}

theorem Stands.offset_eq (stands : Stands p before behind) :
    p.offset.byteIdx = (octets before).length := by
  rw [stands.offset_eq_rawEndPos, String.byteIdx_rawEndPos, length_octets]

theorem Stands.eq {behind' : List Char} (hp : Stands p before behind)
    (hq : Stands q before behind') : p = q := by
  apply String.Pos.ext
  rw [hp.offset_eq_rawEndPos, hq.offset_eq_rawEndPos]

/-- Behind a text that stands at a position, there is a position. -/
theorem Stands.exists_stop (text : List Char) (start : Stands p before (text ++ behind)) :
    ∃ q : source.Pos, Stands q (before ++ text) behind :=
  exists_stands _ _ (by rw [start.toList_eq, List.append_assoc])

/-- Of two positions, the first has the text between them behind it, and the second in front. -/
theorem exists_stands_of_le (le : p ≤ q) : ∃ front behind,
    Stands p front (between p q ++ behind) ∧ Stands q (front ++ between p q) behind := by
  obtain ⟨front, ahead, first⟩ := exists_parts_of_pos p
  obtain ⟨passed, behind, second⟩ := exists_parts_of_pos q
  obtain ⟨text, hpassed, hahead⟩ := (String.Pos.Splits.le_iff_exists_eq_append first second).1 le
  have hpassed : passed = front ++ text.toList := by simpa using congrArg String.toList hpassed
  have hahead : ahead = text.toList ++ behind := by simpa using congrArg String.toList hahead
  subst hpassed hahead
  have same : between p q = text.toList := first.between_eq front second
  rw [same]
  exact ⟨front, behind, first, second⟩

/-- The text between two positions is there to be taken. -/
theorem slice?_pos (le : p ≤ q) :
    slice? source p.offset.byteIdx q.offset.byteIdx = some (source.extract p q) := by
  rw [slice?, dif_pos ⟨p.isValid, q.isValid, le⟩]

theorem Stands.slice?_eq {text : List Char} (start : Stands p before (text ++ behind))
    (stop : Stands q (before ++ text) behind) :
    slice? source p.offset.byteIdx q.offset.byteIdx = some (String.ofList text) := by
  rw [slice?_pos (start.le stop), ← start.between_eq before stop, between, String.ofList_toList]

end

end Lox
