/-
The lexical grammar, and that scanning follows it. `Lexeme` says what the lexemes are, without a word
on how they are found. A piece reaches over every lexeme that the text starts with
(`Piece.reaches_at`), and it is a token only of a lexeme (`Piece.lexeme_at`). Both together make the
lexeme of a token the longest one, and a fault a place where there is neither a lexeme nor a blank.

The main result is `scan_munches`: the items of a source stand one behind the other, and each of them
is what the grammar asks for in front of the text where it starts.
-/
import Lox.Proofs.Token.Spans

namespace Lox

/-! ## The lexical grammar -/

def Digit (c : Char) : Prop := '0' ≤ c ∧ c ≤ '9'

/-- The letters that words are made of; the underscore is one of them. -/
def Letter (c : Char) : Prop := 'a' ≤ c ∧ c ≤ 'z' ∨ 'A' ≤ c ∧ c ≤ 'Z' ∨ c = '_'

/-- The operators, of one and of two characters. -/
def operators : List (List Char × Kind) :=
  [(['('], .leftParen), ([')'], .rightParen), (['{'], .leftBrace), (['}'], .rightBrace),
    ([','], .comma), (['.'], .dot), (['-'], .minus), (['+'], .plus), ([';'], .semicolon),
    (['/'], .slash), (['*'], .star), (['!'], .bang), (['!', '='], .bangEqual), (['='], .equal),
    (['=', '='], .equalEqual), (['>'], .greater), (['>', '='], .greaterEqual), (['<'], .less),
    (['<', '='], .lessEqual)]

/-- The texts that are lexemes, and of which kind. -/
inductive Lexeme : Kind → List Char → Prop
  | operator {text : List Char} {kind : Kind} (listed : (text, kind) ∈ operators) : Lexeme kind text
  | string {body : List Char} (inside : '"' ∉ body) :
    Lexeme (.string (String.ofList body)) ('"' :: (body ++ ['"']))
  | integer {first : Char} {digits : List Char} (starts : Digit first) (all : ∀ d ∈ digits, Digit d) :
    Lexeme (.number (Number.ofDigits (first :: digits) [])) (first :: digits)
  | decimal {first d : Char} {digits more : List Char} (starts : Digit first)
    (all : ∀ d ∈ digits, Digit d) (fraction : ∀ e ∈ d :: more, Digit e) :
    Lexeme (.number (Number.ofDigits (first :: digits) (d :: more)))
      (first :: (digits ++ '.' :: d :: more))
  | keyword {text : List Char} {kind : Kind} (listed : (String.ofList text, kind) ∈ Kind.reserved) :
    Lexeme kind text
  | identifier {first : Char} {tail : List Char} (starts : Letter first)
    (all : ∀ c ∈ tail, Letter c ∨ Digit c)
    (free : String.ofList (first :: tail) ∉ Kind.reserved.map Prod.fst) :
    Lexeme .identifier (first :: tail)

/-- A character of white space, or a comment in its line. -/
inductive Skipped : List Char → Prop
  | space {c : Char} (h : isSpace c) : Skipped [c]
  | comment {body : List Char} (line : '\n' ∉ body) : Skipped ('/' :: '/' :: body)

/-- The text is a lexeme, and no longer one starts the same text. -/
structure Longest (text rest : List Char) : Prop where
  lexeme : ∃ kind, Lexeme kind text
  starts : text <+: rest
  longest : ∀ kind text', Lexeme kind text' → text' <+: rest → text'.length ≤ text.length

/-- The item is what the grammar asks for in front of the text. -/
structure Munched (rest : List Char) (item : Item) : Prop where
  lexeme : ∀ t, item = .token t → Longest t.lexeme.toList rest
  kind : ∀ t, item = .token t → ∀ kind, Lexeme kind t.lexeme.toList ↔ kind = t.kind
  keyword : ∀ t, item = .token t →
    (t.kind ∈ Kind.reserved.map Prod.snd ↔ t.lexeme ∈ Kind.reserved.map Prod.fst)
  payload : ∀ t s, item = .token t → t.kind = .string s → t.lexeme = "\"" ++ s ++ "\""
  fault : (∃ line f, item = .fault line f) ↔
    ∀ text, text <+: rest → (∀ kind, ¬ Lexeme kind text) ∧ ¬ Skipped text

/-! ## Characters -/

theorem isDigit_iff {c : Char} : c.isDigit ↔ Digit c := by
  unfold Char.isDigit Digit
  rw [Bool.and_eq_true, decide_eq_true_iff, decide_eq_true_iff]
  rfl

theorem isLetter_iff {c : Char} : (c.isAlpha || c == '_') ↔ Letter c := by
  unfold Char.isAlpha Char.isUpper Char.isLower Letter
  simp only [Bool.or_eq_true, Bool.and_eq_true, decide_eq_true_iff, beq_iff_eq]
  show ((_ ∧ _) ∨ (_ ∧ _)) ∨ _ ↔ _
  constructor
  · rintro ((upper | lower) | rfl)
    · exact .inr (.inl upper)
    · exact .inl lower
    · exact .inr (.inr rfl)
  · rintro (lower | upper | rfl)
    · exact .inl (.inr lower)
    · exact .inl (.inl upper)
    · exact .inr rfl

theorem isWordChar_iff {c : Char} : isWordChar c ↔ Letter c ∨ Digit c := by
  rw [← isLetter_iff, ← isDigit_iff]
  unfold isWordChar Char.isAlphanum
  simp only [Bool.or_eq_true]
  constructor
  · rintro ((alpha | digit) | under)
    · exact .inl (.inl alpha)
    · exact .inr digit
    · exact .inl (.inr under)
  · rintro ((alpha | under) | digit)
    · exact .inl (.inl alpha)
    · exact .inr under
    · exact .inl (.inr digit)

theorem Letter.not_digit {c : Char} (letter : Letter c) : ¬ Digit c := by
  rintro ⟨low, high⟩
  have low : 48 ≤ c.toNat := low
  have high : c.toNat ≤ 57 := high
  rcases letter with ⟨lower, -⟩ | ⟨upper, -⟩ | rfl
  · have : 97 ≤ c.toNat := lower
    omega
  · have : 65 ≤ c.toNat := upper
    omega
  · exact absurd high (by decide)

/-! ## Reserved words -/

theorem Kind.ofWord_of_mem {word : String} {kind : Kind} (mem : (word, kind) ∈ reserved) :
    ofWord word = kind := by
  have all : ∀ entry ∈ reserved, ofWord entry.1 = entry.2 := by decide
  exact all _ mem

theorem Kind.ofWord_of_notMem {word : String} (free : word ∉ reserved.map Prod.fst) :
    ofWord word = identifier := by
  have none : reserved.lookup word = none := by
    rw [List.lookup_eq_none_iff]
    intro entry mem
    rw [bne_iff_ne]
    rintro rfl
    exact free (List.mem_map_of_mem mem)
  rw [ofWord, none]
  rfl

theorem Kind.exists_letter {word : String} (mem : word ∈ reserved.map Prod.fst) :
    ∃ c cs, word.toList = c :: cs ∧ Letter c ∧ ∀ d ∈ cs, isWordChar d := by
  have all : ∀ entry ∈ reserved, entry.1.toList ≠ [] ∧ entry.1.toList.all Char.isLower := by
    decide +kernel
  have letter : ∀ {c : Char}, c.isLower → Letter c := by
    intro c lower
    refine isLetter_iff.1 ?_
    unfold Char.isAlpha
    rw [lower, Bool.or_true, Bool.true_or]
  obtain ⟨entry, listed, rfl⟩ := List.mem_map.1 mem
  obtain ⟨some, lower⟩ := all entry listed
  obtain ⟨c, cs, chars⟩ := List.exists_cons_of_ne_nil some
  rw [chars] at lower
  obtain ⟨first, rest⟩ := List.forall_mem_cons.1 (List.all_eq_true.1 lower)
  refine ⟨c, cs, chars, letter first, fun d mem => ?_⟩
  exact isWordChar_iff.2 (.inl (letter (rest d mem)))

theorem Kind.ofWord_mem_or (word : String) :
    (word, ofWord word) ∈ reserved ∨ ofWord word = identifier ∧ word ∉ reserved.map Prod.fst := by
  by_cases mem : word ∈ reserved.map Prod.fst
  · obtain ⟨⟨_, kind⟩, listed, rfl⟩ := List.mem_map.1 mem
    left
    rw [ofWord_of_mem listed]
    exact listed
  · exact .inr ⟨ofWord_of_notMem mem, mem⟩

/-! ## Pieces reach over lexemes -/

namespace Piece

/-- The piece is no fault and takes the text at least, and exactly the text only as a token of the
kind. -/
structure Reaches (piece : Piece) (kind : Kind) (text : List Char) : Prop where
  sound : ∀ f, piece.form ≠ .fault f
  taken : ∃ more, piece.taken = text ++ more ∧ (more = [] → piece.form = .token kind)

theorem reaches_single (kind : Kind) (cs : List Char) : Reaches (single kind cs) kind [] := by
  constructor
  · intro f fault
    cases fault
  · exact ⟨[], rfl, fun _ => rfl⟩

theorem reaches_operator_alone (alone withEqual : Kind) (cs : List Char) :
    Reaches (operator alone withEqual cs) alone [] := by
  unfold operator
  split
  · constructor
    · intro f fault
      cases fault
    · exact ⟨['='], rfl, fun none => absurd none (List.cons_ne_nil _ _)⟩
  · exact reaches_single alone _

theorem reaches_operator_equal (alone withEqual : Kind) (cs : List Char) :
    Reaches (operator alone withEqual ('=' :: cs)) withEqual ['='] := by
  constructor
  · intro f fault
    cases fault
  · exact ⟨[], rfl, fun _ => rfl⟩

/-- A slash in front of another one is part of a comment. -/
theorem reaches_slash (cs : List Char) : Reaches (slash cs) .slash [] := by
  unfold slash
  split
  · constructor
    · intro f fault
      cases fault
    · exact ⟨_, rfl, fun none => absurd none (List.cons_ne_nil _ _)⟩
  · exact reaches_single .slash _

theorem reaches_listed {c : Char} {text : List Char} {kind : Kind}
    (listed : (c :: text, kind) ∈ operators) (rest : List Char) :
    Reaches («at» c (text ++ rest)) kind text := by
  unfold operators at listed
  -- one case for each entry
  repeat' rcases listed with _ | ⟨_, listed⟩
  all_goals
    first
      | exact reaches_single ..
      | exact reaches_operator_alone ..
      | exact reaches_slash ..
      -- what the operator is alone plays no part
      | exact reaches_operator_equal .equal _ rest

theorem reaches_string {body : List Char} (inside : '"' ∉ body) (rest : List Char) :
    Reaches (string (body ++ ['"'] ++ rest)) (.string (String.ofList body)) (body ++ ['"']) := by
  have all : ∀ c ∈ body, (c != '"') = true := by
    intro c mem
    rw [bne_iff_ne]
    rintro rfl
    exact inside mem
  have text : body ++ ['"'] ++ rest = body ++ '"' :: rest := by simp
  have taken : (body ++ '"' :: rest).takeWhile (· != '"') = body := by
    rw [List.takeWhile_append_of_pos all, List.takeWhile_cons_of_neg (by decide), List.append_nil]
  have left : (body ++ '"' :: rest).dropWhile (· != '"') = '"' :: rest := by
    rw [List.dropWhile_append_of_pos all, List.dropWhile_cons_of_neg (by decide)]
  have piece : string (body ++ ['"'] ++ rest) =
      ⟨.token (.string (String.ofList body)), body ++ ['"'], rest⟩ := by
    rw [text]
    simp only [string, taken, left]
  rw [piece]
  constructor
  · intro f fault
    cases fault
  · exact ⟨[], (List.append_nil _).symm, fun _ => rfl⟩

/-- The ways to read a number, by what stands behind the first digits. -/
theorem number_cases (first : Char) (cs : List Char) :
    (∃ d more, cs.dropWhile Char.isDigit = '.' :: d :: more ∧ d.isDigit ∧
      number first cs = ⟨.token (.number (Number.ofDigits (first :: cs.takeWhile Char.isDigit)
          (d :: more.takeWhile Char.isDigit))),
        cs.takeWhile Char.isDigit ++ '.' :: d :: more.takeWhile Char.isDigit,
        more.dropWhile Char.isDigit⟩) ∨
    (∀ d more, cs.dropWhile Char.isDigit = '.' :: d :: more → d.isDigit = false) ∧
      number first cs = ⟨.token (.number (Number.ofDigits (first :: cs.takeWhile Char.isDigit) [])),
        cs.takeWhile Char.isDigit, cs.dropWhile Char.isDigit⟩ := by
  by_cases pointed : ∃ d more, cs.dropWhile Char.isDigit = '.' :: d :: more ∧ d.isDigit
  · obtain ⟨d, more, left, digit⟩ := pointed
    refine .inl ⟨d, more, left, digit, ?_⟩
    simp only [number, left]
    rw [if_pos digit]
  · right
    have whole : ∀ d more, cs.dropWhile Char.isDigit = '.' :: d :: more → d.isDigit = false := by
      intro d more left
      rw [← Bool.not_eq_true]
      exact fun digit => pointed ⟨d, more, left, digit⟩
    refine ⟨whole, ?_⟩
    simp only [number]
    split
    · rename_i d more left
      rw [whole d more left, left]
      rfl
    · rfl

theorem reaches_integer {digits : List Char} (all : ∀ d ∈ digits, Digit d) (first : Char)
    (rest : List Char) : Reaches (number first (digits ++ rest))
      (.number (Number.ofDigits (first :: digits) [])) digits := by
  have all : ∀ d ∈ digits, d.isDigit := fun d mem => isDigit_iff.2 (all d mem)
  have taken : (digits ++ rest).takeWhile Char.isDigit = digits ++ rest.takeWhile Char.isDigit :=
    List.takeWhile_append_of_pos all
  rcases number_cases first (digits ++ rest) with ⟨d, more, -, -, read⟩ | ⟨-, read⟩
  · rw [read, taken]
    constructor
    · intro f fault
      cases fault
    · refine ⟨_, List.append_assoc .., fun none => ?_⟩
      exact absurd (List.append_eq_nil_iff.1 none).2 (List.cons_ne_nil _ _)
  · rw [read, taken]
    constructor
    · intro f fault
      cases fault
    · refine ⟨_, rfl, fun none => ?_⟩
      rw [none, List.append_nil]

theorem reaches_decimal {d : Char} {digits more : List Char} (all : ∀ d ∈ digits, Digit d)
    (fraction : ∀ e ∈ d :: more, Digit e) (first : Char) (rest : List Char) :
    Reaches (number first (digits ++ '.' :: d :: more ++ rest))
      (.number (Number.ofDigits (first :: digits) (d :: more))) (digits ++ '.' :: d :: more) := by
  have all : ∀ d ∈ digits, d.isDigit := fun d mem => isDigit_iff.2 (all d mem)
  have fraction : ∀ e ∈ d :: more, e.isDigit := fun e mem => isDigit_iff.2 (fraction e mem)
  have inside : ∀ e ∈ more, e.isDigit := fun e mem => fraction e (List.mem_cons_of_mem _ mem)
  have text : digits ++ '.' :: d :: more ++ rest = digits ++ '.' :: d :: (more ++ rest) := by simp
  have taken : (digits ++ '.' :: d :: (more ++ rest)).takeWhile Char.isDigit = digits := by
    rw [List.takeWhile_append_of_pos all, List.takeWhile_cons_of_neg (by decide), List.append_nil]
  have left : (digits ++ '.' :: d :: (more ++ rest)).dropWhile Char.isDigit =
      '.' :: d :: (more ++ rest) := by
    rw [List.dropWhile_append_of_pos all, List.dropWhile_cons_of_neg (by decide)]
  rw [text]
  rcases number_cases first (digits ++ '.' :: d :: (more ++ rest)) with
    ⟨d', more', found, -, read⟩ | ⟨whole, -⟩
  · rw [left] at found
    cases found
    rw [read, taken, List.takeWhile_append_of_pos inside]
    constructor
    · intro f fault
      cases fault
    · refine ⟨rest.takeWhile Char.isDigit, by simp, fun none => ?_⟩
      rw [none, List.append_nil]
  · have := whole d (more ++ rest) left
    rw [fraction d (List.mem_cons_self ..)] at this
    cases this

theorem reaches_word {tail : List Char} (all : ∀ c ∈ tail, isWordChar c) (first : Char)
    (rest : List Char) :
    Reaches (word first (tail ++ rest)) (.ofWord (String.ofList (first :: tail))) tail := by
  unfold word
  rw [List.takeWhile_append_of_pos all]
  constructor
  · intro f fault
    cases fault
  · refine ⟨_, rfl, fun none => ?_⟩
    rw [none, List.append_nil]

theorem at_digit {c : Char} (digit : Digit c) (cs : List Char) : «at» c cs = number c cs := by
  have digit : c.isDigit := isDigit_iff.2 digit
  unfold «at»
  split
  case h_21 => rw [if_pos digit]
  all_goals exact absurd digit (by decide)

theorem at_letter {c : Char} (letter : Letter c) (cs : List Char) : «at» c cs = word c cs := by
  have alpha : c.isAlpha || c == '_' := isLetter_iff.2 letter
  unfold «at»
  split
  case h_21 =>
    rw [if_neg fun digit => letter.not_digit (isDigit_iff.1 digit), if_pos alpha]
  all_goals exact absurd alpha (by decide)

/-- A piece reaches over every lexeme that starts there. -/
theorem reaches_at {kind : Kind} {c : Char} {text : List Char} (lexeme : Lexeme kind (c :: text))
    (rest : List Char) : Reaches («at» c (text ++ rest)) kind text := by
  cases lexeme with
  | operator listed => exact reaches_listed listed rest
  | string inside => exact reaches_string inside rest
  | integer starts all =>
    rw [at_digit starts]
    exact reaches_integer all c rest
  | decimal starts all fraction =>
    rw [at_digit starts]
    exact reaches_decimal all fraction c rest
  | keyword listed =>
    obtain ⟨d, ds, chars, letter, all⟩ := Kind.exists_letter (List.mem_map_of_mem listed)
    rw [String.toList_ofList] at chars
    cases chars
    rw [at_letter letter, ← Kind.ofWord_of_mem listed]
    exact reaches_word all c rest
  | identifier starts all free =>
    rw [at_letter starts, ← Kind.ofWord_of_notMem free]
    exact reaches_word (fun d mem => isWordChar_iff.2 (all d mem)) c rest

/-! ## Pieces are lexemes -/

theorem lexeme_single {c : Char} {alone : Kind} {cs : List Char} {kind : Kind}
    (one : ([c], alone) ∈ operators) (form : (single alone cs).form = .token kind) :
    Lexeme kind (c :: (single alone cs).taken) := by
  cases form
  exact .operator one

theorem lexeme_operator {c : Char} {alone withEqual : Kind} {cs : List Char} {kind : Kind}
    (one : ([c], alone) ∈ operators) (two : ([c, '='], withEqual) ∈ operators)
    (form : (operator alone withEqual cs).form = .token kind) :
    Lexeme kind (c :: (operator alone withEqual cs).taken) := by
  unfold operator at form ⊢
  split at form
  · cases form
    exact .operator two
  · exact lexeme_single one form

theorem all_takeWhile_digit (cs : List Char) : ∀ d ∈ cs.takeWhile Char.isDigit, Digit d := by
  intro d mem
  exact isDigit_iff.1 (List.all_eq_true.1 List.all_takeWhile d mem)

theorem lexeme_number {first : Char} (starts : Digit first) {cs : List Char} {kind : Kind}
    (form : (number first cs).form = .token kind) : Lexeme kind (first :: (number first cs).taken) := by
  rcases number_cases first cs with ⟨d, more, -, digit, read⟩ | ⟨-, read⟩
  · rw [read] at form ⊢
    cases form
    refine .decimal starts (all_takeWhile_digit cs) ?_
    intro e mem
    rcases List.mem_cons.1 mem with rfl | mem
    · exact isDigit_iff.1 digit
    · exact all_takeWhile_digit more e mem
  · rw [read] at form ⊢
    cases form
    exact .integer starts (all_takeWhile_digit cs)

theorem lexeme_word {first : Char} (starts : Letter first) {cs : List Char} {kind : Kind}
    (form : (word first cs).form = .token kind) : Lexeme kind (first :: (word first cs).taken) := by
  unfold word at form ⊢
  cases form
  rcases Kind.ofWord_mem_or (String.ofList (first :: cs.takeWhile isWordChar)) with
    listed | ⟨identifier, free⟩
  · exact .keyword listed
  · rw [identifier]
    refine .identifier starts ?_ free
    intro c mem
    exact isWordChar_iff.1 (List.all_eq_true.1 List.all_takeWhile c mem)

theorem lexeme_string {cs : List Char} {kind : Kind} (form : (string cs).form = .token kind) :
    Lexeme kind ('"' :: (string cs).taken) := by
  have inside : '"' ∉ cs.takeWhile (· != '"') := by
    intro mem
    have := List.all_eq_true.1 (List.all_takeWhile (p := (· != '"')) (l := cs)) _ mem
    simp at this
  have stopped := List.head?_dropWhile_not (· != '"') cs
  simp only [string] at form ⊢
  split at form
  · rename_i quote rest left
    rw [left] at stopped
    have isQuote : quote = '"' := by simpa using stopped
    cases form
    rw [isQuote]
    exact .string inside
  · cases form

/-- A piece is a token only of a lexeme. -/
theorem lexeme_at {c : Char} {cs : List Char} {kind : Kind} (form : («at» c cs).form = .token kind) :
    Lexeme kind (c :: («at» c cs).taken) := by
  unfold «at» at form ⊢
  split at form
  case h_11 | h_12 | h_13 | h_14 => exact lexeme_operator (by decide) (by decide) form
  case h_15 =>
    unfold slash at form ⊢
    split at form
    · cases form
    · exact lexeme_single (by decide) form
  case h_16 | h_17 | h_18 | h_19 => cases form
  case h_20 => exact lexeme_string form
  case h_21 =>
    split
    · rename_i digit
      rw [if_pos digit] at form
      exact lexeme_number (isDigit_iff.1 digit) form
    · rename_i digit
      rw [if_neg digit] at form
      split at form
      · rename_i alpha
        rw [if_pos alpha]
        exact lexeme_word (isLetter_iff.1 alpha) form
      · cases form
  all_goals exact lexeme_single (by decide) form

/-! ## Faults and blanks -/

theorem form_of_skipped {c : Char} {cs text : List Char} (skipped : Skipped text)
    (starts : text <+: c :: cs) : («at» c cs).form = .blank := by
  obtain ⟨behind, text⟩ := starts
  cases skipped with
  | space h =>
    cases text
    simp only [isSpace, Bool.or_eq_true, beq_iff_eq] at h
    rcases h with ((rfl | rfl) | rfl) | rfl <;> rfl
  | comment line =>
    cases text
    rfl

theorem exists_skipped {c : Char} {cs : List Char} (blank : («at» c cs).form = .blank) :
    ∃ text, text <+: c :: cs ∧ Skipped text := by
  have shape := shape_at c cs
  have text := taken_append_rest c cs
  generalize «at» c cs = piece at *
  cases shape with
  | token | unexpected | unterminated => cases blank
  | space h rest => exact ⟨[c], ⟨cs, rfl⟩, .space h⟩
  | @comment h body line rest ends =>
    subst h
    exact ⟨'/' :: '/' :: body, ⟨rest, congrArg ('/' :: ·) text⟩, .comment line⟩

end Piece

theorem Lexeme.ne_nil {kind : Kind} {text : List Char} (lexeme : Lexeme kind text) : text ≠ [] := by
  rintro rfl
  cases lexeme with
  | operator listed =>
    have some : ∀ entry ∈ operators, entry.1 ≠ [] := by decide
    exact some _ listed rfl
  | keyword listed =>
    obtain ⟨c, cs, chars, -⟩ := Kind.exists_letter (List.mem_map_of_mem listed)
    rw [String.toList_ofList] at chars
    cases chars

/-- There is a fault exactly where neither a lexeme nor a blank starts. -/
theorem Piece.fault_iff (c : Char) (cs : List Char) : (∃ f, («at» c cs).form = .fault f) ↔
    ∀ text, text <+: c :: cs → (∀ kind, ¬ Lexeme kind text) ∧ ¬ Skipped text := by
  constructor
  · rintro ⟨f, fault⟩ text starts
    constructor
    · intro kind lexeme
      obtain ⟨rest, whole⟩ := starts
      cases text with
      | nil => exact lexeme.ne_nil rfl
      | cons d ds =>
        cases whole
        exact (reaches_at lexeme rest).sound f fault
    · intro skipped
      rw [form_of_skipped skipped starts] at fault
      cases fault
  · intro nothing
    cases form : («at» c cs).form with
    | fault f => exact ⟨f, rfl⟩
    | blank =>
      obtain ⟨text, starts, skipped⟩ := exists_skipped form
      exact absurd skipped (nothing text starts).2
    | token kind =>
      have starts : c :: («at» c cs).taken <+: c :: cs := by
        refine ⟨(«at» c cs).rest, ?_⟩
        rw [List.cons_append, taken_append_rest]
      exact absurd (lexeme_at form) ((nothing _ starts).1 kind)

/-- The lexeme of a token is the longest one that starts there. -/
theorem Piece.longest_at {c : Char} {cs : List Char} {kind : Kind}
    (form : («at» c cs).form = .token kind) : Longest (c :: («at» c cs).taken) (c :: cs) := by
  constructor
  · exact ⟨kind, lexeme_at form⟩
  · exact ⟨(«at» c cs).rest, congrArg (c :: ·) (taken_append_rest c cs)⟩
  · rintro kind' text lexeme ⟨rest, whole⟩
    cases text with
    | nil => exact absurd rfl lexeme.ne_nil
    | cons d ds =>
      obtain ⟨rfl, behind⟩ := List.cons.inj whole
      have behind : ds ++ rest = cs := behind
      subst behind
      obtain ⟨more, taken, -⟩ := (reaches_at lexeme rest).taken
      rw [List.length_cons, List.length_cons, taken, List.length_append]
      omega

/-! ## Kinds of lexemes -/

/-- A lexeme with nothing behind it is read as it is. -/
theorem Piece.form_of_lexeme {kind : Kind} {c : Char} {cs : List Char}
    (lexeme : Lexeme kind (c :: cs)) : (Piece.at c cs).form = .token kind := by
  have reaches := Piece.reaches_at lexeme []
  rw [List.append_nil] at reaches
  obtain ⟨more, taken, exact⟩ := reaches.taken
  have text := congrArg List.length (Piece.taken_append_rest c cs)
  rw [taken, List.length_append, List.length_append] at text
  exact exact (List.eq_nil_of_length_eq_zero (by omega))

/-- A text is a lexeme of one kind only. -/
theorem Lexeme.unique {kind kind' : Kind} {text : List Char} (lexeme : Lexeme kind text)
    (lexeme' : Lexeme kind' text) : kind = kind' := by
  cases text with
  | nil => exact absurd rfl lexeme.ne_nil
  | cons c cs =>
    have same := (Piece.form_of_lexeme lexeme).symm.trans (Piece.form_of_lexeme lexeme')
    cases same
    rfl

theorem Lexeme.keyword_iff {kind : Kind} {text : List Char} (lexeme : Lexeme kind text) :
    kind ∈ Kind.reserved.map Prod.snd ↔ String.ofList text ∈ Kind.reserved.map Prod.fst := by
  -- what is not made of letters is no reserved word
  have other : ∀ {c cs}, text = c :: cs → ¬ Letter c →
      String.ofList text ∉ Kind.reserved.map Prod.fst := by
    rintro c cs rfl other mem
    obtain ⟨d, ds, chars, letter, -⟩ := Kind.exists_letter mem
    rw [String.toList_ofList] at chars
    cases chars
    exact other letter
  cases lexeme with
  | operator listed =>
    have all : ∀ entry ∈ operators, entry.2 ∉ Kind.reserved.map Prod.snd ∧
      String.ofList entry.1 ∉ Kind.reserved.map Prod.fst := by decide
    obtain ⟨kind, text⟩ := all _ listed
    exact iff_of_false kind text
  | string =>
    have quote : ¬ Letter '"' := by
      rw [← isLetter_iff]
      decide
    exact iff_of_false (by simp [Kind.reserved]) (other rfl quote)
  | integer starts | decimal starts =>
    exact iff_of_false (by simp [Kind.reserved]) (other rfl fun letter => letter.not_digit starts)
  | keyword listed =>
    exact iff_of_true (List.mem_map_of_mem listed) (List.mem_map_of_mem listed)
  | identifier _ _ free => exact iff_of_false (by decide) free

theorem Lexeme.payload {s : String} {text : List Char} (lexeme : Lexeme (.string s) text) :
    String.ofList text = "\"" ++ s ++ "\"" := by
  cases lexeme with
  | operator listed => simp [operators] at listed
  | string => simp [← String.toList_inj]
  | keyword listed => simp [Kind.reserved] at listed

/-! ## Items -/

/-- An item is what the grammar asks for where it is read. -/
theorem Item.munched {c : Char} {cs : List Char} {line : Nat} {item : Item}
    (items : (Piece.at c cs).items c line = [item]) : Munched (c :: cs) item := by
  have faults := Piece.fault_iff c cs
  unfold Piece.items at items
  split at items
  · cases items
  · rename_i kind form
    cases items
    have lexeme := Piece.lexeme_at form
    constructor
    · rintro t ⟨⟩
      rw [String.toList_ofList]
      exact Piece.longest_at form
    · rintro t ⟨⟩ kind'
      rw [String.toList_ofList]
      constructor
      · exact fun lexeme' => lexeme'.unique lexeme
      · rintro rfl
        exact lexeme
    · rintro t ⟨⟩
      exact lexeme.keyword_iff
    · rintro t s ⟨⟩ string
      have string : kind = .string s := string
      subst string
      exact lexeme.payload
    · rw [← faults, form]
      constructor
      · rintro ⟨line, f, ⟨⟩⟩
      · rintro ⟨f, ⟨⟩⟩
  · rename_i f form
    cases items
    constructor
    · rintro t ⟨⟩
    · rintro t ⟨⟩
    · rintro t ⟨⟩
    · rintro t s ⟨⟩
    · rw [← faults, form]
      exact iff_of_true ⟨line, f, rfl⟩ ⟨f, rfl⟩

/-- The items of a source stand one behind the other, with nothing but blanks between; and each of
them is what the grammar asks for in front of the text where it starts. -/
theorem scan_munches (source : String) : ∃ parts : List (Span source × Item),
    scan source = parts.map Prod.snd ++ [.token (.endOn (lineAt source.endPos))] ∧
      Tiles source.startPos parts ∧
      ∀ part ∈ parts, part.2.Covers part.1 ∧
        Munched (between part.1.start source.endPos) part.2 := by
  have first : lineAt source.startPos = 1 := stands_startPos.lineAt_eq
  obtain ⟨parts, scanned, tiles, all⟩ :=
    exists_parts_read source.startPos [] source.toList stands_startPos
  rw [first] at scanned
  refine ⟨parts, scanned, tiles, fun part mem => ?_⟩
  obtain ⟨covers, _, c, cs, start, _, items⟩ := all part mem
  refine ⟨covers, ?_⟩
  rw [start.between_endPos]
  exact Item.munched items

end Lox
