/-
What the scanner that goes over bytes comes to. Where it stands at a position, each of its steps
ends at a position again, and reads there what the scan over characters reads (`scanToken_within`);
so no call fails, and the calls answer the items of `scan`, each with the bytes that it was read
from (`exists_calls`).

The main result is `calls_account`, which says of the bytes alone that the calls account for all of
them.
-/
import Lox.Proofs.Token.Bytes

namespace Lox

namespace Scanner

variable {source : String}

/-! ## The bytes ahead -/

/-- The bytes from the next one on. -/
def ahead (s : Scanner source) : List Char := (octets source.toList).drop s.current

theorem byteAt_eq (offset : Nat) :
    byteAt source offset = (octets source.toList)[offset]?.getD '\x00' := by
  rw [byteAt, octets_toList, List.getElem?_map, Array.getElem?_toList]
  cases source.toByteArray.data[offset]? with
  | none => rfl
  | some b => rfl

theorem isAtEnd_iff {s : Scanner source} : s.isAtEnd = true ↔ s.ahead = [] := by
  rw [ahead, List.drop_eq_nil_iff, length_octets, String.ofList_toList]
  exact decide_eq_true_iff

theorem ahead_eq_cons {s : Scanner source} (inside : ¬ s.isAtEnd = true) :
    s.ahead = s.peek :: s.forward.ahead := by
  have lt : s.current < (octets source.toList).length := by
    rw [length_octets, String.ofList_toList]
    exact lt_of_not_isAtEnd inside
  rw [ahead, List.drop_eq_getElem_cons lt, peek, byteAt_eq, List.getElem?_eq_getElem lt]
  rfl

/-- The scanner that has passed some more bytes. -/
def pass (s : Scanner source) (bytes : List Char) : Scanner source :=
  { s with current := s.current + bytes.length }

theorem pass_cons (s : Scanner source) (b : Char) (bytes : List Char) :
    s.pass (b :: bytes) = s.forward.pass bytes := by
  rw [pass, pass, List.length_cons, forward, Nat.add_right_comm, Nat.add_assoc]

/-- A loop passes no byte at the end of the source, and none in front of a byte it stops at. -/
theorem takeWhile_ahead_eq_nil {s : Scanner source} {p : Char → Bool}
    (stops : s.isAtEnd = true ∨ p s.peek = false) : s.ahead.takeWhile p = [] := by
  by_cases ended : s.isAtEnd = true
  · rw [isAtEnd_iff.1 ended]
    rfl
  · rw [ahead_eq_cons ended, List.takeWhile_cons_of_neg]
    simp [stops.resolve_left ended]

theorem takeWhile_ahead_eq_cons {s : Scanner source} {p : Char → Bool}
    (inside : ¬ s.isAtEnd = true) (here : p s.peek = true) :
    s.ahead.takeWhile p = s.peek :: s.forward.ahead.takeWhile p := by
  rw [ahead_eq_cons inside, List.takeWhile_cons_of_pos here]

theorem skipWhile_eq {p : Char → Bool} (zero : p '\x00' = false) (s : Scanner source) :
    s.skipWhile p zero = s.pass (s.ahead.takeWhile p) := by
  fun_induction skipWhile p zero s with
  | case1 s here ih =>
    rw [ih, takeWhile_ahead_eq_cons (isAtEnd_eq_false zero here) here, pass_cons]
  | case2 s stops =>
    rw [takeWhile_ahead_eq_nil (.inr (Bool.eq_false_iff.2 stops))]
    rfl

theorem skipLine_eq (s : Scanner source) :
    s.skipLine = s.pass (s.ahead.takeWhile (· != '\n')) := by
  fun_induction skipLine s with
  | case1 s stops =>
    rw [takeWhile_ahead_eq_nil (by simpa using stops)]
    rfl
  | case2 s goesOn ih =>
    obtain ⟨inside, here⟩ : ¬ s.isAtEnd = true ∧ (s.peek != '\n') = true := by
      simpa using goesOn
    rw [ih, takeWhile_ahead_eq_cons inside here, pass_cons]

theorem skipString_eq (s : Scanner source) :
    s.skipString =
      { s.pass (s.ahead.takeWhile (· != '"')) with
        line := s.line + (s.ahead.takeWhile (· != '"')).count '\n' } := by
  fun_induction skipString s with
  | case1 s stops =>
    rw [takeWhile_ahead_eq_nil (by simpa using stops)]
    rfl
  | case2 s goesOn line ih =>
    obtain ⟨inside, here⟩ : ¬ s.isAtEnd = true ∧ (s.peek != '"') = true := by
      simpa using goesOn
    have lines (n : Nat) : line + n = s.line + (n + if s.peek == '\n' then 1 else 0) := by
      grind
    rw [ih, takeWhile_ahead_eq_cons inside here, pass_cons, List.count_cons, ← lines]
    rfl

/-! ## Reading between positions -/

section

variable {p q r : source.Pos} {before behind cs : List Char} {c : Char} {line : Nat}

/-- The scanner inside of a lexeme that starts at the first position, with the second one next. -/
def within (p q : source.Pos) (line : Nat) : Scanner source :=
  ⟨p.offset.byteIdx, q.offset.byteIdx, line, false⟩

theorem ahead_within (stands : Stands q before behind) :
    (within p q line).ahead = octets behind := by
  show (octets source.toList).drop q.offset.byteIdx = _
  rw [stands.toList_eq, octets_append, stands.offset_eq, List.drop_left]

theorem pass_within {text : List Char} (stands : Stands q before (text ++ behind))
    (stop : Stands r (before ++ text) behind) :
    (within p q line).pass (octets text) = within p r line := by
  have moved : q.offset.byteIdx + (octets text).length = r.offset.byteIdx := by
    rw [stands.offset_eq, stop.offset_eq, octets_append, List.length_append]
  rw [pass, within, moved]
  rfl

theorem forward_within (ascii : c.toNat < 128) (stands : Stands q before (c :: behind))
    (stop : Stands r (before ++ [c]) behind) :
    (within p q line).forward = within p r line := by
  have passed : (within p q line).pass (octets [c]) = within p r line := pass_within stands stop
  rw [← passed, octets_narrow ascii]
  rfl

theorem isAtEnd_within (stands : Stands q before behind) :
    (within p q line).isAtEnd = behind.isEmpty := by
  rw [Bool.eq_iff_iff, isAtEnd_iff, ahead_within stands, List.isEmpty_iff, octets_eq_nil]

/-- What is asked of the next byte is asked of the next character. -/
theorem peek_within {f : Char → Bool} (narrow : Narrow f) (zero : f '\x00' = false)
    (stands : Stands q before behind) : f (within p q line).peek = behind.head?.any f := by
  have bytes : (within p q line).ahead = octets behind := ahead_within stands
  rw [← any_head?_octets narrow, ← bytes]
  by_cases ended : (within p q line).isAtEnd = true
  · rw [isAtEnd_iff.1 ended, Bool.eq_false_iff.2 fun h => isAtEnd_eq_false zero h ended]
    rfl
  · rw [ahead_eq_cons ended]
    rfl

theorem lexeme?_within {text : List Char} (start : Stands p before (text ++ behind))
    (stop : Stands q (before ++ text) behind) :
    (within p q line).lexeme? = some (String.ofList text) := start.slice?_eq stop

theorem skipWhile_within {f : Char → Bool} (narrow : Narrow f) (zero : f '\x00' = false)
    (stands : Stands q before cs)
    (stop : Stands r (before ++ cs.takeWhile f) (cs.dropWhile f)) :
    (within p q line).skipWhile f zero = within p r line := by
  rw [skipWhile_eq, ahead_within stands, takeWhile_octets narrow]
  exact pass_within (by rwa [List.takeWhile_append_dropWhile]) stop

theorem skipLine_within (stands : Stands q before cs)
    (stop : Stands r (before ++ cs.takeWhile (· != '\n')) (cs.dropWhile (· != '\n'))) :
    (within p q line).skipLine = within p r line := by
  rw [skipLine_eq, ahead_within stands, takeWhile_octets (narrow_bne (by decide))]
  exact pass_within (by rwa [List.takeWhile_append_dropWhile]) stop

theorem skipString_within (stands : Stands q before cs)
    (stop : Stands r (before ++ cs.takeWhile (· != '"')) (cs.dropWhile (· != '"'))) :
    (within p q line).skipString = within p r (line + (cs.takeWhile (· != '"')).count '\n') := by
  rw [skipString_eq, ahead_within stands, takeWhile_octets (narrow_bne (by decide)), count_octets,
    pass_within (by rwa [List.takeWhile_append_dropWhile]) stop]
  rfl

/-! ## Lexemes -/

/-- A text goes on with the character, or the next byte is not that character. -/
theorem exists_cons_or_head? (k : Char) (cs : List Char) :
    (∃ rest, cs = k :: rest) ∨ cs.head?.any (· == k) = false := by
  cases cs with
  | nil => exact .inr rfl
  | cons d ds =>
    by_cases same : d = k
    · exact .inl ⟨ds, by rw [same]⟩
    · exact .inr (beq_eq_false_iff_ne.2 same)

theorem either_within {alone withEqual : Kind} (stands : Stands q before cs)
    (stop : Stands r (before ++ (Piece.operator alone withEqual cs).taken)
      (Piece.operator alone withEqual cs).rest) :
    (within p q line).either '=' withEqual alone =
      ((Piece.operator alone withEqual cs).form,
        within p r (line + (Piece.operator alone withEqual cs).taken.count '\n')) := by
  have asked : ((within p q line).peek == '=') = cs.head?.any (· == '=') :=
    peek_within (narrow_beq (by decide)) rfl stands
  rcases exists_cons_or_head? '=' cs with ⟨rest, rfl⟩ | other
  · have next : (!(within p q line).isAtEnd && (within p q line).peek == '=') = true := by
      rw [isAtEnd_within stands, asked]
      rfl
    rw [either, if_pos next, forward_within (by decide) stands stop]
    rfl
  · have single : Piece.operator alone withEqual cs = Piece.single alone cs := by
      unfold Piece.operator
      split
      · cases other
      · rfl
    rw [single, Piece.single, List.append_nil] at stop
    rw [single, either, asked, other, Bool.and_false, stands.eq stop]
    rfl

theorem count_takeWhile {f : Char → Bool} (hf : f '\n' = false) (cs : List Char) :
    (cs.takeWhile f).count '\n' = 0 := by
  rw [List.count_eq_zero]
  intro mem
  have := List.all_eq_true.1 (List.all_takeWhile (p := f) (l := cs)) _ mem
  rw [hf] at this
  cases this

/-- What a slash begins. -/
theorem slash_within (stands : Stands q before cs)
    (stop : Stands r (before ++ (Piece.slash cs).taken) (Piece.slash cs).rest) :
    (if (within p q line).peek == '/' then (within p q line).comment
      else some (.token .slash, within p q line)) =
      some ((Piece.slash cs).form, within p r (line + (Piece.slash cs).taken.count '\n')) := by
  rw [peek_within (narrow_beq (k := '/') (by decide)) (by decide) stands]
  rcases exists_cons_or_head? '/' cs with ⟨rest, rfl⟩ | other
  · have inside : (within p q line).current ≤ source.utf8ByteSize := q.isValid.le_utf8ByteSize
    have lines : (Piece.slash ('/' :: rest)).taken.count '\n' = 0 := count_takeWhile rfl _
    rw [lines]
    show (within p q line).comment = _
    rw [comment, if_pos inside, skipLine_within stands stop]
    rfl
  · have single : Piece.slash cs = Piece.single .slash cs := by
      unfold Piece.slash
      split
      · cases other
      · rfl
    rw [single, Piece.single, List.append_nil] at stop
    rw [single, other, if_neg Bool.false_ne_true, stands.eq stop]
    rfl

/-- Without its first and its last byte, a text in quotes is the text between them. -/
theorem slice?_quoted (body : List Char) :
    let lexeme := String.ofList ('"' :: (body ++ ['"']))
    slice? lexeme 1 (lexeme.utf8ByteSize - 1) = some (String.ofList body) := by
  intro lexeme
  have text : lexeme.toList = ['"'] ++ (body ++ ['"']) := String.toList_ofList
  obtain ⟨p, opened⟩ := exists_stands ['"'] (body ++ ['"']) text
  obtain ⟨q, closes⟩ := exists_stands (['"'] ++ body) ['"'] (by rw [text, List.append_assoc])
  have quote : (octets ['"']).length = 1 := by
    rw [octets_narrow (by decide)]
    rfl
  have first : p.offset.byteIdx = 1 := opened.offset_eq.trans quote
  have size : lexeme.utf8ByteSize = q.offset.byteIdx + 1 := by
    rw [closes.offset_eq, ← quote, ← List.length_append, ← octets_append, length_octets,
      List.append_assoc]
    rfl
  rw [size, Nat.add_sub_cancel, ← first, opened.slice?_eq closes]

theorem string_within (start : Stands p before ('"' :: cs)) (stands : Stands q (before ++ ['"']) cs)
    (stop : Stands r (before ++ '"' :: (Piece.string cs).taken) (Piece.string cs).rest) :
    (within p q line).string =
      some ((Piece.string cs).form, within p r (line + (Piece.string cs).taken.count '\n')) := by
  have whole := List.takeWhile_append_dropWhile (p := fun c => c != '"') (l := cs)
  obtain ⟨closing, skipped⟩ := (whole.symm ▸ stands).exists_stop (cs.takeWhile (· != '"'))
  rw [string, skipString_within stands skipped, isAtEnd_within skipped]
  rw [List.append_assoc, List.singleton_append] at skipped
  simp only [Piece.string] at stop ⊢
  generalize cs.takeWhile (· != '"') = body at *
  cases left : cs.dropWhile (· != '"') with
  | nil =>
    rw [left] at stop skipped
    rw [skipped.eq stop]
    rfl
  | cons quote rest =>
    have last : quote = '"' := by
      have stopped := List.head?_dropWhile_not (· != '"') cs
      rw [left] at stopped
      simpa using stopped
    subst last
    rw [left] at stop skipped whole
    have lexeme : (within p r (line + body.count '\n')).lexeme? =
        some (String.ofList ('"' :: (body ++ ['"']))) := by
      have opened : Stands p before ('"' :: (body ++ ['"']) ++ rest) := by simpa [whole] using start
      exact lexeme?_within opened stop
    have lines : (body ++ ['"']).count '\n' = body.count '\n' := by simp
    have next : (within p closing (line + body.count '\n')).forward =
        within p r (line + body.count '\n') := by
      refine forward_within (by decide) skipped ?_
      simpa using stop
    rw [lines]
    show ((within p closing _).forward.lexeme?).bind _ = _
    rw [next, lexeme, Option.bind_some, slice?_quoted]
    rfl

theorem decimal?_integer {first : Char} {integer : List Char} (digit : first.isDigit = true)
    (digits : ∀ d ∈ integer, d.isDigit = true) :
    decimal? (String.ofList (first :: integer)) = some (Number.ofDigits (first :: integer) []) := by
  have all : ∀ d ∈ first :: integer, d.isDigit = true := List.forall_mem_cons.2 ⟨digit, digits⟩
  have taken : (first :: integer ++ []).takeWhile Char.isDigit = first :: integer ++ [] :=
    List.takeWhile_append_of_pos all
  have left : (first :: integer ++ []).dropWhile Char.isDigit = [] :=
    List.dropWhile_append_of_pos all
  rw [List.append_nil] at taken left
  simp only [decimal?, String.toList_ofList, taken, left]
  rfl

theorem decimal?_fraction {first : Char} {integer fraction : List Char}
    (digit : first.isDigit = true) (digits : ∀ d ∈ integer, d.isDigit = true)
    (more : ∀ d ∈ fraction, d.isDigit = true) :
    decimal? (String.ofList (first :: (integer ++ '.' :: fraction))) =
      some (Number.ofDigits (first :: integer) fraction) := by
  have all : ∀ d ∈ first :: integer, d.isDigit = true := List.forall_mem_cons.2 ⟨digit, digits⟩
  have taken : (first :: integer ++ '.' :: fraction).takeWhile Char.isDigit = first :: integer := by
    rw [List.takeWhile_append_of_pos all]
    simp
  have left : (first :: integer ++ '.' :: fraction).dropWhile Char.isDigit = '.' :: fraction := by
    rw [List.dropWhile_append_of_pos all]
    rfl
  rw [List.cons_append] at taken left
  simp only [decimal?, String.toList_ofList, taken, left, List.all_eq_true.2 more]
  rfl

/-- A point with a digit behind it, or what a number ends in front of. -/
theorem number_cases (first : Char) (cs : List Char) :
    (∃ d more, cs.dropWhile Char.isDigit = '.' :: d :: more ∧ d.isDigit = true) ∨
      (((cs.dropWhile Char.isDigit).head?.any (· == '.') &&
          (cs.dropWhile Char.isDigit).tail.head?.any Char.isDigit) = false ∧
        Piece.number first cs =
          ⟨.token (.number (Number.ofDigits (first :: cs.takeWhile Char.isDigit) [])),
            cs.takeWhile Char.isDigit, cs.dropWhile Char.isDigit⟩) := by
  simp only [Piece.number]
  split
  · rename_i d more left
    cases digit : d.isDigit with
    | true => exact .inl ⟨d, more, left, digit⟩
    | false =>
      refine .inr ⟨?_, by simp⟩
      rw [left]
      exact digit
  · rename_i other
    refine .inr ⟨?_, rfl⟩
    rcases exists_cons_or_head? '.' (cs.dropWhile Char.isDigit) with ⟨behind, left⟩ | none
    · cases behind with
      | nil =>
        rw [left]
        rfl
      | cons d more => exact absurd left (other d more)
    · rw [none, Bool.false_and]

/-- Whether a point and a digit are next. -/
theorem point_within (stands : Stands q before cs) :
    ((within p q line).peek == '.' && (within p q line).peekNext.isDigit) =
      (cs.head?.any (· == '.') && cs.tail.head?.any Char.isDigit) := by
  rw [peek_within (narrow_beq (k := '.') (by decide)) (by decide) stands]
  rcases exists_cons_or_head? '.' cs with ⟨behind, rfl⟩ | none
  · obtain ⟨m, point⟩ := stands.exists_stop ['.']
    have moved : (within p q line).peekNext = (within p m line).peek := by
      rw [← forward_within (by decide) stands point]
      rfl
    rw [moved, peek_within narrow_isDigit rfl point]
    rfl
  · rw [none, Bool.false_and, Bool.false_and]

theorem number_within (digit : c.isDigit = true)
    (start : Stands p before (c :: cs)) (stands : Stands q (before ++ [c]) cs)
    (stop : Stands r (before ++ c :: (Piece.number c cs).taken) (Piece.number c cs).rest) :
    (within p q line).number =
      some ((Piece.number c cs).form,
        within p r (line + (Piece.number c cs).taken.count '\n')) := by
  have whole := List.takeWhile_append_dropWhile (p := Char.isDigit) (l := cs)
  have digits : ∀ d ∈ cs.takeWhile Char.isDigit, d.isDigit = true :=
    List.all_eq_true.1 List.all_takeWhile
  obtain ⟨m, integer⟩ := (whole.symm ▸ stands).exists_stop (cs.takeWhile Char.isDigit)
  have lexeme : (within p r line).lexeme? =
      some (String.ofList (c :: (Piece.number c cs).taken)) := by
    have whole : Stands p before (c :: (Piece.number c cs).taken ++ (Piece.number c cs).rest) := by
      rwa [List.cons_append, Piece.taken_append_rest_number]
    exact lexeme?_within whole stop
  rw [number, skipWhile_within narrow_isDigit rfl stands integer, point_within integer]
  rcases number_cases c cs with ⟨d, more, left, fraction⟩ | ⟨none, single⟩
  · have pointed : Piece.number c cs =
        ⟨.token (.number (Number.ofDigits (c :: cs.takeWhile Char.isDigit)
            ((d :: more).takeWhile Char.isDigit))),
          cs.takeWhile Char.isDigit ++ '.' :: (d :: more).takeWhile Char.isDigit,
          (d :: more).dropWhile Char.isDigit⟩ := by
      simp only [Piece.number, left, if_pos fraction, List.takeWhile_cons_of_pos fraction,
        List.dropWhile_cons_of_pos fraction]
    have asked : ((cs.dropWhile Char.isDigit).head?.any (· == '.') &&
        (cs.dropWhile Char.isDigit).tail.head?.any Char.isDigit) = true := by
      rw [left]
      exact fraction
    rw [left] at integer
    obtain ⟨m', point⟩ := integer.exists_stop ['.']
    rw [pointed] at stop lexeme ⊢
    rw [asked, if_pos rfl, forward_within (by decide) integer point,
      skipWhile_within narrow_isDigit rfl point (by simpa using stop), lexeme, Option.map_some,
      decimal?_fraction digit digits (List.all_eq_true.1 List.all_takeWhile)]
    have lines : (cs.takeWhile Char.isDigit ++
        '.' :: (d :: more).takeWhile Char.isDigit).count '\n' = 0 := by
      simp [List.count_append, count_takeWhile]
    show _ = some (_, within p r (line + (_ ++ '.' :: _).count '\n'))
    rw [lines]
    rfl
  · rw [single] at stop lexeme ⊢
    have same : m = r := integer.eq (by simpa using stop)
    rw [none, if_neg Bool.false_ne_true, same, lexeme, Option.map_some,
      decimal?_integer digit digits]
    show _ = some (_, within p r (line + (cs.takeWhile Char.isDigit).count '\n'))
    rw [count_takeWhile rfl]
    rfl

theorem identifier_within (start : Stands p before (c :: cs))
    (stands : Stands q (before ++ [c]) cs)
    (stop : Stands r (before ++ c :: (Piece.word c cs).taken) (Piece.word c cs).rest) :
    (within p q line).identifier =
      some ((Piece.word c cs).form, within p r (line + (Piece.word c cs).taken.count '\n')) := by
  have lexeme : (within p r line).lexeme? =
      some (String.ofList (c :: (Piece.word c cs).taken)) := by
    have whole : Stands p before (c :: (Piece.word c cs).taken ++ (Piece.word c cs).rest) := by
      rwa [List.cons_append, Piece.taken_append_rest_word]
    exact lexeme?_within whole stop
  have lines : (Piece.word c cs).taken.count '\n' = 0 := count_takeWhile rfl _
  rw [identifier, skipWhile_within narrow_isWordChar rfl stands (by rwa [List.append_assoc]),
    lexeme, lines]
  rfl

/-- A character that begins no lexeme is passed as a whole, whichever of its bytes is next. -/
theorem unexpected_within {s : Scanner source} (started : s.start = p.offset.byteIdx)
    (fresh : s.done = false) (start : Stands p before (c :: cs))
    (stop : Stands r (before ++ [c]) cs) :
    s.unexpected = some (.fault .unexpectedCharacter, within p r s.line) := by
  have rest : slice? source s.start source.utf8ByteSize = some (String.ofList (c :: cs)) := by
    have ends : source.endPos.offset.byteIdx = source.utf8ByteSize := rfl
    rw [started, ← ends]
    have whole : Stands p before (c :: cs ++ []) := by rwa [List.append_nil]
    refine whole.slice?_eq ?_
    rw [← start.toList_eq]
    exact stands_endPos
  have moved : s.start + c.utf8Size = r.offset.byteIdx := by
    rw [started, start.offset_eq, stop.offset_eq, octets_append, List.length_append,
      length_octets [c]]
    simp
  rw [unexpected, rest, Option.map_some, String.toList_ofList]
  show some (Form.fault _, Scanner.mk s.start (s.start + c.utf8Size) s.line s.done) = _
  rw [moved, started, fresh]
  rfl

theorem scanBehind_of_wide {byte : Char} (wide : 128 ≤ byte.toNat) (s : Scanner source) :
    s.scanBehind byte = s.unexpected := by
  have word : isWordChar byte = false :=
    Bool.eq_false_iff.2 fun h => absurd (lt_of_isWordChar byte h) (Nat.not_lt_of_le wide)
  simp only [isWordChar, Char.isAlphanum, Bool.or_eq_false_iff] at word
  unfold scanBehind
  split
  case h_21 => simp [word]
  all_goals exact absurd wide (by decide)

theorem piece_at_of_wide (wide : 128 ≤ c.toNat) (cs : List Char) :
    Piece.at c cs = ⟨.fault .unexpectedCharacter, [], cs⟩ := by
  have word : isWordChar c = false :=
    Bool.eq_false_iff.2 fun h => absurd (lt_of_isWordChar c h) (Nat.not_lt_of_le wide)
  simp only [isWordChar, Char.isAlphanum, Bool.or_eq_false_iff] at word
  unfold Piece.at
  split
  case h_21 => simp [word]
  all_goals exact absurd wide (by decide)

theorem peek_eq (ascii : c.toNat < 128) (stands : Stands q before (c :: cs)) :
    (within p q line).peek = c := by
  have inside : ¬ (within p q line).isAtEnd = true := by
    rw [isAtEnd_within stands]
    exact Bool.false_ne_true
  have bytes := ahead_eq_cons inside
  rw [ahead_within stands, octets_cons, octets_narrow ascii] at bytes
  exact (List.cons.inj bytes).1.symm

theorem peek_wide (wide : 128 ≤ c.toNat) (stands : Stands q before (c :: cs)) :
    128 ≤ (within p q line).peek.toNat := by
  have inside : ¬ (within p q line).isAtEnd = true := by
    rw [isAtEnd_within stands]
    exact Bool.false_ne_true
  obtain ⟨some, all⟩ := octets_wide wide
  obtain ⟨b, bs, first⟩ := List.exists_cons_of_ne_nil some
  have bytes := ahead_eq_cons inside
  rw [ahead_within stands, octets_cons, first] at bytes
  rw [← (List.cons.inj bytes).1]
  exact all b (first ▸ List.mem_cons_self)

theorem endLine_eq (other : c ≠ '\n') (piece : Piece) :
    piece.endLine c line = line + piece.taken.count '\n' := by
  rw [Piece.endLine, List.count_cons_of_ne other]

theorem scanBehind_digit (digit : c.isDigit = true) (s : Scanner source) :
    s.scanBehind c = s.number := by
  unfold scanBehind
  split
  case h_21 => rw [if_pos digit]
  all_goals exact absurd digit (by decide)

theorem scanBehind_letter (other : ¬ c.isDigit = true) (letter : (c.isAlpha || c == '_') = true)
    (s : Scanner source) : s.scanBehind c = s.identifier := by
  unfold scanBehind
  split
  case h_21 => rw [if_neg other, if_pos letter]
  all_goals exact absurd letter (by decide)

/-- Behind an ASCII character, the scanner goes on as the piece does. -/
theorem scanBehind_within (start : Stands p before (c :: cs)) (stands : Stands q (before ++ [c]) cs)
    (stop : Stands r (before ++ c :: (Piece.at c cs).taken) (Piece.at c cs).rest) :
    (within p q line).scanBehind c =
      some ((Piece.at c cs).form, within p r ((Piece.at c cs).endLine c line)) := by
  have behind := stop
  rw [List.append_cons] at behind
  revert stop behind
  fun_cases Piece.at c cs
  all_goals intro stop behind
  case case11 | case12 | case13 | case14 =>
    rw [endLine_eq (by decide)]
    exact congrArg some (either_within stands behind)
  case case15 =>
    rw [endLine_eq (by decide)]
    exact slash_within stands behind
  case case20 =>
    rw [endLine_eq (by decide)]
    exact string_within start stands stop
  case case21 digit =>
    rw [endLine_eq ‹_›, scanBehind_digit digit]
    exact number_within digit start stands stop
  case case22 digit letter =>
    rw [endLine_eq ‹_›, scanBehind_letter digit letter]
    exact identifier_within start stands stop
  case case23 digit letter =>
    rw [endLine_eq ‹_›]
    unfold scanBehind
    split
    case h_21 =>
      rw [if_neg digit, if_neg letter]
      exact unexpected_within rfl rfl start stop
    all_goals contradiction
  all_goals
    obtain rfl := stands.eq stop
    rfl

/-- The scanner reads the piece that starts where it stands. -/
theorem scanToken_within (start : Stands p before (c :: cs))
    (stop : Stands r (before ++ c :: (Piece.at c cs).taken) (Piece.at c cs).rest) :
    (within p p line).scanToken =
      some ((Piece.at c cs).form, within p r ((Piece.at c cs).endLine c line)) := by
  by_cases ascii : c.toNat < 128
  · obtain ⟨q, stands⟩ := start.exists_stop [c]
    rw [scanToken, forward_within ascii start stands, peek_eq ascii start,
      scanBehind_within start stands stop]
  · have wide := Nat.le_of_not_lt ascii
    have other : c ≠ '\n' := by
      rintro rfl
      exact ascii (by decide)
    rw [piece_at_of_wide wide] at stop ⊢
    rw [scanToken, scanBehind_of_wide (peek_wide wide start), unexpected_within rfl rfl start stop,
      endLine_eq other]
    rfl

end

/-! ## Calls -/

/-- Between two calls: the next byte is the first one behind a position. -/
structure At (s : Scanner source) (p : source.Pos) : Prop where
  current : s.current = p.offset.byteIdx
  line : s.line = lineAt p
  done : s.done = false

section

variable {s : Scanner source} {p q : source.Pos} {before cs : List Char} {c : Char}

theorem at_within (p q : source.Pos) : At (within p q (lineAt q)) q := ⟨rfl, rfl, rfl⟩

theorem at_new (source : String) : At (new source) source.startPos :=
  ⟨rfl, stands_startPos.lineAt_eq.symm, rfl⟩

theorem At.begin_eq (here : At s p) : s.begin = within p p (lineAt p) := by
  rw [begin, here.current, here.line, here.done]
  rfl

theorem At.isAtEnd_eq (here : At s p) (stands : Stands p before cs) : s.isAtEnd = cs.isEmpty := by
  have inside : (within p p 1).isAtEnd = cs.isEmpty := isAtEnd_within stands
  rw [← inside, isAtEnd, isAtEnd, here.current]
  rfl

/-- The scanner reads the piece that starts where it stands. -/
theorem At.scanToken_eq (here : At s p) (start : Stands p before (c :: cs))
    (stop : Stands q (before ++ c :: (Piece.at c cs).taken) (Piece.at c cs).rest) :
    s.begin.scanToken = some ((Piece.at c cs).form, within p q (lineAt q)) := by
  have line : (Piece.at c cs).endLine c (lineAt p) = lineAt q := by
    rw [Piece.endLine, start.lineAt_eq, stop.lineAt_eq, List.count_append, Nat.add_assoc]
  rw [here.begin_eq, scanToken_within start stop, line]

section

variable {s' : Scanner source} (done : s.done = false) (inside : s.isAtEnd = false)

include done inside

theorem next_of_blank (read : s.begin.scanToken = some (.blank, s')) : s.next = s'.next := by
  rw [next, if_neg (by simp [done]), if_neg (by simp [inside])]
  split <;> simp_all

theorem next_of_token {kind : Kind} {lexeme : String}
    (read : s.begin.scanToken = some (.token kind, s')) (text : s'.lexeme? = some lexeme) :
    s.next = some (some (.token ⟨kind, lexeme, s'.line⟩), s') := by
  rw [next, if_neg (by simp [done]), if_neg (by simp [inside])]
  split <;> simp_all

theorem next_of_fault {fault : LexicalFault}
    (read : s.begin.scanToken = some (.fault fault, s')) :
    s.next = some (some (.fault s'.line fault), s') := by
  rw [next, if_neg (by simp [done]), if_neg (by simp [inside])]
  split <;> simp_all

end

/-- Blank pieces are passed within the call. -/
theorem At.next_of_blank_piece (here : At s p) (start : Stands p before (c :: cs))
    (stop : Stands q (before ++ c :: (Piece.at c cs).taken) (Piece.at c cs).rest)
    (blank : (Piece.at c cs).form = .blank) : s.next = (within p q (lineAt q)).next := by
  have read := here.scanToken_eq start stop
  rw [blank] at read
  exact next_of_blank here.done (here.isAtEnd_eq start) read

/-- A call answers the item of the piece that starts where the scanner stands. -/
theorem At.next_of_item {item : Item} (here : At s p) (start : Stands p before (c :: cs))
    (stop : Stands q (before ++ c :: (Piece.at c cs).taken) (Piece.at c cs).rest)
    (items : (Piece.at c cs).items c (lineAt q) = [item]) :
    s.next = some (some item, within p q (lineAt q)) := by
  have lexeme : (within p q (lineAt q)).lexeme? =
      some (String.ofList (c :: (Piece.at c cs).taken)) := by
    have whole : Stands p before (c :: (Piece.at c cs).taken ++ (Piece.at c cs).rest) := by
      rwa [List.cons_append, Piece.taken_append_rest]
    exact lexeme?_within whole stop
  have read := here.scanToken_eq start stop
  unfold Piece.items at items
  split at items
  · cases items
  · rename_i kind form
    cases items
    rw [form] at read
    exact next_of_token here.done (here.isAtEnd_eq start) read lexeme
  · rename_i fault form
    cases items
    rw [form] at read
    exact next_of_fault here.done (here.isAtEnd_eq start) read

theorem At.next_at_end (here : At s p) (ended : Stands p before []) :
    s.next = some (some (.token (.endOn (lineAt p))), { s with done := true }) := by
  have atEnd : s.isAtEnd = true := here.isAtEnd_eq ended
  rw [next, if_neg (by simp [here.done]), if_pos atEnd, here.line]

theorem next_of_done (done : s.done = true) : s.next = some (none, s) := by
  rw [next, if_pos done]

/-- Blanks are passed within the call. -/
theorem At.exists_next_of_blank {gap rest : List Char} (blank : Blank gap) (here : At s p)
    (start : Stands p before (gap ++ rest)) (stop : Stands q (before ++ gap) rest) :
    ∃ s', At s' q ∧ s.next = s'.next := by
  induction blank generalizing s p before with
  | nil =>
    rw [List.append_nil] at stop
    obtain rfl := start.eq stop
    exact ⟨s, here, rfl⟩
  | @space c gap space _ ih =>
    have piece := Piece.at_space space (gap ++ rest)
    rw [List.cons_append] at start
    obtain ⟨m, middle⟩ := start.exists_stop [c]
    obtain ⟨s', there, same⟩ := ih (at_within p m) middle (by rwa [List.append_assoc])
    refine ⟨s', there, ?_⟩
    rw [here.next_of_blank_piece start (by rwa [piece]) (by rw [piece]), same]
  | @comment body gap line _ ih =>
    have text : '/' :: '/' :: (body ++ '\n' :: gap) ++ rest =
        '/' :: ('/' :: (body ++ '\n' :: (gap ++ rest))) := by simp
    rw [text] at start
    have slashes := Piece.at_slashes line (.inr ⟨gap ++ rest, rfl⟩)
    have newline := Piece.at_space (c := '\n') rfl (gap ++ rest)
    obtain ⟨m, open'⟩ := start.exists_stop ('/' :: '/' :: body)
    obtain ⟨m', closed⟩ := open'.exists_stop ['\n']
    obtain ⟨s', there, same⟩ := ih (at_within m m') closed (by simpa using stop)
    refine ⟨s', there, ?_⟩
    rw [here.next_of_blank_piece start (by rwa [slashes]) (by rw [slashes]),
      (at_within p m).next_of_blank_piece open' (by rwa [newline]) (by rw [newline]), same]

/-- Behind the last item, a call comes to the end of the source. -/
theorem At.exists_next_at_end (here : At s p) (blank : BlankToEnd (between p source.endPos)) :
    ∃ s', At s' source.endPos ∧
      s.next = some (some (.token (.endOn (lineAt source.endPos))), { s' with done := true }) := by
  obtain ⟨before, behind, start⟩ := exists_parts_of_pos p
  rw [start.between_endPos] at blank
  rcases blank with blank | ⟨gap, comment, rfl, blank, body, rfl, line⟩
  · rw [← List.append_nil behind] at start
    have stop : Stands source.endPos (before ++ behind) [] := by
      rw [← List.append_nil (before ++ behind), List.append_assoc, ← start.toList_eq]
      exact stands_endPos
    obtain ⟨s', there, same⟩ := here.exists_next_of_blank blank start stop
    exact ⟨s', there, same.trans (there.next_at_end stands_endPos)⟩
  · obtain ⟨m, middle⟩ := start.exists_stop gap
    obtain ⟨s', there, same⟩ := here.exists_next_of_blank blank start middle
    have slashes := Piece.at_slashes line (.inl rfl)
    rw [List.append_nil] at slashes
    have ended : Stands source.endPos (before ++ gap ++ '/' :: '/' :: body) [] := by
      rw [← middle.toList_eq]
      exact stands_endPos
    refine ⟨within m source.endPos (lineAt source.endPos), at_within .., ?_⟩
    rw [same, there.next_of_blank_piece middle (by rwa [slashes]) (by rw [slashes]),
      (at_within _ _).next_at_end stands_endPos]

/-- The scanner as the call for a part leaves it. -/
def behindPart (part : Span source × Item) : Scanner source :=
  within part.1.start part.1.stop (lineAt part.1.stop)

theorem calls_of_done (done : s.done = true) (n : Nat) :
    s.calls n = some (List.replicate n (none, s)) := by
  induction n with
  | zero => rfl
  | succ n ih =>
    rw [calls, next_of_done done, Option.bind_some, ih]
    rfl

/-- The calls answer the items of the parts ahead, then the end of the source, then nothing. -/
theorem At.exists_calls (parts : List (Span source × Item)) (here : At s p) (tiles : Tiles p parts)
    (read : ∀ part ∈ parts, part.2.ReadAt part.1) :
    ∃ ended : Scanner source, ended.current = source.utf8ByteSize ∧ ∀ n,
      s.calls (parts.length + (n + 1)) =
        some (parts.map (fun part => (some part.2, behindPart part)) ++
          (some (.token (.endOn (lineAt source.endPos))), ended) ::
            List.replicate n (none, ended)) := by
  induction parts generalizing s p with
  | nil =>
    obtain ⟨s', there, answer⟩ := here.exists_next_at_end tiles
    refine ⟨{ s' with done := true }, there.current, fun n => ?_⟩
    rw [List.length_nil, Nat.zero_add, calls, answer, Option.bind_some, calls_of_done rfl]
    rfl
  | cons part parts ih =>
    obtain ⟨le, blank, behind⟩ := tiles
    obtain ⟨before, c, cs, start, stop, items⟩ := read part List.mem_cons_self
    obtain ⟨ended, size, later⟩ := ih (at_within part.1.start part.1.stop) behind
      fun other mem => read other (List.mem_cons_of_mem _ mem)
    have answer : s.next = some (some part.2, behindPart part) := by
      obtain ⟨front, rest, first, last⟩ := exists_stands_of_le le
      obtain ⟨s', there, same⟩ := here.exists_next_of_blank blank first last
      rw [same, there.next_of_item start stop items]
      rfl
    refine ⟨ended, size, fun n => ?_⟩
    rw [List.length_cons, Nat.succ_add, calls, answer, Option.bind_some, behindPart, later]
    rfl

end

/-! ## The bytes of a source -/

/-- The line ends among the bytes in front of an offset. -/
def lineEnds (source : String) (offset : Nat) : Nat :=
  (source.toByteArray.data.toList.take offset).count '\n'.toUInt8

/-- What an item says of the bytes that were read for it, where they end, and the text they are. -/
inductive Tells (source : String) (stop : Nat) (text : String) : Item → Prop
  | token {t : Token} (kind : t.kind ≠ .eof) (lexeme : t.lexeme = text)
    (line : t.line = 1 + lineEnds source stop) : Tells source stop text (.token t)
  | unexpected (single : text.length = 1) :
    Tells source stop text (.fault (1 + lineEnds source stop) .unexpectedCharacter)
  | unterminated {body : List Char} (quote : text.toList = '"' :: body)
    (ends : stop = source.utf8ByteSize) :
    Tells source stop text (.fault (1 + lineEnds source stop) .unterminatedString)

/-- What a call has read that started behind an offset, answered an item, and left the scanner. -/
structure Reads (behind : Nat) (item : Item) (s : Scanner source) : Prop where
  first : (String.Pos.Raw.mk s.start).IsValid source
  last : (String.Pos.Raw.mk s.current).IsValid source
  start_lt_current : s.start < s.current
  current_le : s.current ≤ source.utf8ByteSize
  gap : ∃ gap, slice? source behind s.start = some gap ∧ Blank gap.toList
  text : ∃ text, slice? source s.start s.current = some text ∧ Tells source s.current text item

/-- From an offset on, the calls have read the bytes up to the end, those that they passed over
between them being blank. -/
def Account (behind : Nat) : List (Item × Scanner source) → Prop
  | [] => ∃ gap, slice? source behind source.utf8ByteSize = some gap ∧ BlankToEnd gap.toList
  | (item, s) :: later => Reads behind item s ∧ Account s.current later

theorem lineEnds_eq (p : source.Pos) : 1 + lineEnds source p.offset.byteIdx = lineAt p := by
  obtain ⟨before, behind, stands⟩ := exists_parts_of_pos p
  rw [stands.lineAt_eq, ← count_octets]
  have bytes :
      (source.toByteArray.data.toList.take p.offset.byteIdx).map Char.ofUInt8 = octets before := by
    rw [List.map_take, ← octets_toList, stands.toList_eq, octets_append, stands.offset_eq,
      List.take_left]
  have newline : ((· == '\n') ∘ Char.ofUInt8) = (· == '\n'.toUInt8) := by
    funext b
    rw [Function.comp_apply, Bool.eq_iff_iff, beq_iff_eq, beq_iff_eq, ← Char.toNat_inj,
      ← UInt8.toNat_inj]
    rfl
  rw [← bytes, List.count_eq_countP, List.countP_map, newline]
  rfl

theorem reads_of_covers {span : Span source} {item : Item} (covers : item.Covers span) :
    Tells source span.stop.offset.byteIdx span.text item := by
  cases covers with
  | token kind lexeme line => exact .token kind lexeme (line.trans (lineEnds_eq _).symm)
  | unexpected single =>
    rw [← lineEnds_eq]
    exact .unexpected single
  | unterminated quote ends =>
    rw [← lineEnds_eq]
    exact .unterminated quote (by rw [ends]; rfl)

theorem account_of_tiles {p : source.Pos} (parts : List (Span source × Item))
    (tiles : Tiles p parts) (covers : ∀ part ∈ parts, part.2.Covers part.1) :
    Account p.offset.byteIdx (parts.map fun part => (part.2, behindPart part)) := by
  induction parts generalizing p with
  | nil => exact ⟨_, slice?_pos (String.Pos.le_endPos p), tiles⟩
  | cons part parts ih =>
    obtain ⟨le, blank, behind⟩ := tiles
    refine ⟨⟨part.1.start.isValid, part.1.stop.isValid, part.1.start_lt_stop,
      part.1.stop.isValid.le_utf8ByteSize, ⟨_, slice?_pos le, blank⟩,
      ⟨_, slice?_pos (String.Pos.le_of_lt part.1.start_lt_stop),
        reads_of_covers (covers part List.mem_cons_self)⟩⟩, ?_⟩
    exact ih behind fun other mem => covers other (List.mem_cons_of_mem _ mem)

/-- The calls of the iterator account for every byte of the source: none of them fails, their items
are those of the scan, each was read from bytes of its own, and only blanks stand between; the end
of the source is answered once, and from then on nothing. -/
theorem calls_account (source : String) :
    ∃ (parts : List (Item × Scanner source)) (ended : Scanner source),
      let eof := Item.token (.endOn (1 + lineEnds source source.utf8ByteSize))
      Account 0 parts ∧ ended.current = source.utf8ByteSize ∧
      scan source = parts.map Prod.fst ++ [eof] ∧
      ∀ n, (new source).calls (parts.length + (n + 1)) =
        some (parts.map (fun part => (some part.1, part.2)) ++
          (some eof, ended) :: List.replicate n (none, ended)) := by
  have first : lineAt source.startPos = 1 := stands_startPos.lineAt_eq
  have last : 1 + lineEnds source source.utf8ByteSize = lineAt source.endPos :=
    lineEnds_eq source.endPos
  obtain ⟨parts, scanned, tiles, all⟩ :=
    exists_parts_read source.startPos [] source.toList stands_startPos
  obtain ⟨ended, size, answers⟩ :=
    (at_new source).exists_calls parts tiles fun part mem => (all part mem).2
  have account := account_of_tiles parts tiles fun part mem => (all part mem).1
  rw [first] at scanned
  refine ⟨_, ended, account, size, ?_, fun n => ?_⟩
  · rw [last, List.map_map]
    exact scanned
  · rw [last, List.length_map, answers, List.map_map]
    rfl

end Scanner

end Lox
