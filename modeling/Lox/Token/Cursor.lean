/-
Reading tokens byte by byte. A `Scanner` is a place among the bytes of a source: where the lexeme
being read begins, the next byte, and the line. Its steps look at single bytes, and behind the last
byte they see zeros. Text is taken out of the source between two byte offsets; where one of them is
inside of a character or behind the end there is no such text, and the scanner fails.

`Scanner.next` is one call of the iterator: an item, and from the end of the source on nothing.
Nothing here says that the calls do not fail, or that they answer the items of `scan`.
-/
import Lox.Token.Scan

namespace Lox

/-- The text between two byte offsets, which have to stand between characters and in this order. -/
def slice? (source : String) (start stop : Nat) : Option String :=
  if h : (String.Pos.Raw.mk start).IsValid source ∧ (String.Pos.Raw.mk stop).IsValid source ∧
      start ≤ stop then
    some (source.extract ⟨⟨start⟩, h.1⟩ ⟨⟨stop⟩, h.2.1⟩)
  else none

/-- The value of a decimal without sign or exponent: digits, of which some may follow a point. -/
def decimal? (text : String) : Option Float :=
  let integer := text.toList.takeWhile Char.isDigit
  match text.toList.dropWhile Char.isDigit with
  | [] => if integer.isEmpty then none else some (Number.ofDigits integer [])
  | point :: fraction =>
    if point == '.' && fraction.all Char.isDigit && !(integer ++ fraction).isEmpty then
      some (Number.ofDigits integer fraction)
    else none

/-- A scan under way. -/
structure Scanner (source : String) where
  /-- The byte where the lexeme being read begins. -/
  start : Nat
  /-- The next byte. -/
  current : Nat
  line : Nat
  /-- The end of the source has been answered. -/
  done : Bool

namespace Scanner

/-- The scanner at the start of a source. -/
def new (source : String) : Scanner source := ⟨0, 0, 1, false⟩

variable {source : String}

def isAtEnd (s : Scanner source) : Bool := decide (source.utf8ByteSize ≤ s.current)

/-- The byte at an offset, read as a character of its own; a zero behind the end. -/
def byteAt (source : String) (offset : Nat) : Char :=
  Char.ofUInt8 (source.toByteArray.data[offset]?.getD 0)

def peek (s : Scanner source) : Char := byteAt source s.current

def peekNext (s : Scanner source) : Char := byteAt source (s.current + 1)

/-- The scanner behind the next byte, be there one or not. -/
def forward (s : Scanner source) : Scanner source := { s with current := s.current + 1 }

/-- The text from the start of the lexeme up to the next byte. -/
def lexeme? (s : Scanner source) : Option String := slice? source s.start s.current

theorem lt_of_not_isAtEnd {s : Scanner source} (inside : ¬ s.isAtEnd = true) :
    s.current < source.utf8ByteSize :=
  Nat.lt_of_not_le fun le => inside (decide_eq_true le)

theorem byteAt_eq_zero {offset : Nat} (behind : source.utf8ByteSize ≤ offset) :
    byteAt source offset = '\x00' := by
  rw [byteAt, Array.getElem?_eq_none (by rwa [← String.size_toByteArray] at behind)]
  rfl

theorem isAtEnd_eq_false {s : Scanner source} {p : Char → Bool} (zero : p '\x00' = false)
    (some : p s.peek = true) : ¬ s.isAtEnd = true := by
  intro ended
  rw [peek, byteAt_eq_zero (of_decide_eq_true ended), zero] at some
  cases some

/-! ## Loops over bytes -/

/-- Passes the bytes of a kind. No zero is of the kind, so the end of the source stops this. -/
def skipWhile (p : Char → Bool) (zero : p '\x00' = false) (s : Scanner source) : Scanner source :=
  if p s.peek then s.forward.skipWhile p zero else s
termination_by source.utf8ByteSize - s.current
decreasing_by
  have := lt_of_not_isAtEnd (isAtEnd_eq_false zero ‹_›)
  show source.utf8ByteSize - (s.current + 1) < _
  omega

/-- Passes the bytes of a comment, up to the end of its line. -/
def skipLine (s : Scanner source) : Scanner source :=
  if s.isAtEnd || s.peek == '\n' then s else s.forward.skipLine
termination_by source.utf8ByteSize - s.current
decreasing_by
  have := lt_of_not_isAtEnd fun ended => ‹¬ _› (Bool.or_eq_true_iff.2 (.inl ended))
  show source.utf8ByteSize - (s.current + 1) < _
  omega

/-- Passes the bytes of a string, up to the quote behind it, and counts the lines that end in it. -/
def skipString (s : Scanner source) : Scanner source :=
  if s.isAtEnd || s.peek == '"' then s
  else
    let line := if s.peek == '\n' then s.line + 1 else s.line
    skipString { s.forward with line }
termination_by source.utf8ByteSize - s.current
decreasing_by
  have := lt_of_not_isAtEnd fun ended => ‹¬ _› (Bool.or_eq_true_iff.2 (.inl ended))
  show source.utf8ByteSize - (s.current + 1) < _
  omega

/-! ## Lexemes -/

/-- An operator of two characters if the second is the next byte, and otherwise of one. -/
def either (s : Scanner source) (expected : Char) (matched single : Kind) : Form × Scanner source :=
  if !s.isAtEnd && s.peek == expected then (.token matched, s.forward) else (.token single, s)

/-- The rest of a string behind its opening quote. -/
def string (s : Scanner source) : Option (Form × Scanner source) :=
  let s := s.skipString
  if s.isAtEnd then some (.fault .unterminatedString, s)
  else
    let s := s.forward
    s.lexeme?.bind fun lexeme =>
      (slice? lexeme 1 (lexeme.utf8ByteSize - 1)).map fun text => (.token (.string text), s)

/-- The rest of a number. A point belongs to it only if a digit follows. -/
def number (s : Scanner source) : Option (Form × Scanner source) :=
  let s := s.skipWhile Char.isDigit rfl
  let s := if s.peek == '.' && s.peekNext.isDigit then s.forward.skipWhile Char.isDigit rfl else s
  s.lexeme?.map fun lexeme => (.token (.number ((decimal? lexeme).getD 0)), s)

/-- The rest of an identifier or a reserved word. -/
def identifier (s : Scanner source) : Option (Form × Scanner source) :=
  let s := s.skipWhile isWordChar rfl
  s.lexeme?.map fun lexeme => (.token (.ofWord lexeme), s)

/-- Goes on behind the character that the lexeme begins with, however many bytes it has. -/
def unexpected (s : Scanner source) : Option (Form × Scanner source) :=
  (slice? source s.start source.utf8ByteSize).map fun rest =>
    (.fault .unexpectedCharacter,
      match rest.toList with
      | c :: _ => { s with current := s.start + c.utf8Size }
      | [] => s)

/-- Goes on up to the end of the line. -/
def comment (s : Scanner source) : Option (Form × Scanner source) :=
  if s.current ≤ source.utf8ByteSize then some (.blank, s.skipLine) else none

/-- Reads on behind the first byte of a lexeme, or of a blank. -/
def scanBehind (s : Scanner source) (byte : Char) : Option (Form × Scanner source) :=
  match byte with
  | '(' => some (.token .leftParen, s)
  | ')' => some (.token .rightParen, s)
  | '{' => some (.token .leftBrace, s)
  | '}' => some (.token .rightBrace, s)
  | ',' => some (.token .comma, s)
  | '.' => some (.token .dot, s)
  | '-' => some (.token .minus, s)
  | '+' => some (.token .plus, s)
  | ';' => some (.token .semicolon, s)
  | '*' => some (.token .star, s)
  | '!' => some (s.either '=' .bangEqual .bang)
  | '=' => some (s.either '=' .equalEqual .equal)
  | '<' => some (s.either '=' .lessEqual .less)
  | '>' => some (s.either '=' .greaterEqual .greater)
  | '/' => if s.peek == '/' then s.comment else some (.token .slash, s)
  | ' ' | '\r' | '\t' => some (.blank, s)
  | '\n' => some (.blank, { s with line := s.line + 1 })
  | '"' => s.string
  | byte =>
    if byte.isDigit then s.number
    else if byte.isAlpha || byte == '_' then s.identifier
    else s.unexpected

/-- Reads one lexeme, or one blank. -/
def scanToken (s : Scanner source) : Option (Form × Scanner source) := s.forward.scanBehind s.peek

/-! ## The iterator -/

theorem current_le_skipLine (s : Scanner source) : s.current ≤ s.skipLine.current := by
  fun_induction skipLine s with
  | case1 s => exact Nat.le_refl _
  | case2 s _ ih => exact Nat.le_trans (Nat.le_succ _) ih

/-- Where a blank was read, nothing was given back. -/
theorem current_le_of_blank {s s' : Scanner source} {byte : Char}
    (h : s.scanBehind byte = some (.blank, s')) : s.current ≤ s'.current := by
  unfold scanBehind at h
  split at h
  case h_11 | h_12 | h_13 | h_14 =>
    unfold either at h
    split at h <;> cases h
  case h_15 =>
    unfold comment at h
    split at h
    · split at h
      · cases h
        exact current_le_skipLine s
      · cases h
    · cases h
  case h_20 =>
    simp only [string] at h
    split at h
    · cases h
    · obtain ⟨lexeme, -, h⟩ := Option.bind_eq_some_iff.1 h
      obtain ⟨text, -, h⟩ := Option.map_eq_some_iff.1 h
      cases h
  case h_21 =>
    split at h
    · obtain ⟨lexeme, -, h⟩ := Option.map_eq_some_iff.1 h
      cases h
    · split at h
      · obtain ⟨lexeme, -, h⟩ := Option.map_eq_some_iff.1 h
        cases h
      · obtain ⟨rest, -, h⟩ := Option.map_eq_some_iff.1 h
        cases h
  all_goals
    cases h
    try exact Nat.le_refl _

/-- The scanner where the next lexeme begins. -/
def begin (s : Scanner source) : Scanner source := { s with start := s.current }

theorem lt_of_begin_blank {s s' : Scanner source} (h : s.begin.scanToken = some (.blank, s')) :
    s.current < s'.current :=
  current_le_of_blank h

/-- One call of the iterator: an item, or nothing once the end of the source has been answered. -/
def next (s : Scanner source) : Option (Option Item × Scanner source) :=
  if s.done then some (none, s)
  else if s.isAtEnd then some (some (.token (.endOn s.line)), { s with done := true })
  else
    match _h : s.begin.scanToken with
    | none => none
    | some (.blank, s') => s'.next
    | some (.token kind, s') =>
      s'.lexeme?.map fun lexeme => (some (.token ⟨kind, lexeme, s'.line⟩), s')
    | some (.fault fault, s') => some (some (.fault s'.line fault), s')
termination_by source.utf8ByteSize - s.current
decreasing_by
  have before := lt_of_not_isAtEnd ‹_›
  have after := lt_of_begin_blank _h
  omega

/-- The answers of the first calls, each with the scanner as the call leaves it. -/
def calls : Nat → Scanner source → Option (List (Option Item × Scanner source))
  | 0, _ => some []
  | n + 1, s => s.next.bind fun answer => (answer.2.calls n).map (answer :: ·)

end Scanner

end Lox
