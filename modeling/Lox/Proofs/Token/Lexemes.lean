/-
Lexemes out of their context. A piece that is a token ends where it ends, whatever made it end there:
in front of white space or at the end of the source it is the same piece (`at_lexeme`). So the lexemes
of tokens, kept apart by white space, are scanned as the same tokens.

The main result is `lexemes_rescan`: any lexemes, with any blanks between them, give their tokens again,
and so do those of one source.
-/
import Lox.Proofs.Token.Spans

namespace Lox

/-- Text that keeps the piece in front of it apart: none, or text that starts with white space. -/
def Apart (rest : List Char) : Prop := ∀ c ∈ rest.head?, isSpace c

theorem Apart.nil : Apart [] := by
  intro c h
  cases h

theorem Apart.ne_cons {rest : List Char} (h : Apart rest) {c : Char} (solid : isSpace c = false)
    (more : List Char) : rest ≠ c :: more := by
  rintro rfl
  have space := h c rfl
  rw [solid] at space
  cases space

namespace Piece

/-! ## Pieces in front of white space -/

/-- What runs up to a character of another sort runs up to white space. -/
theorem takeWhile_apart {p : Char → Bool} (stops : ∀ c, isSpace c → p c = false)
    {taken rest : List Char} (all : ∀ c ∈ taken, p c) (apart : Apart rest) :
    (taken ++ rest).takeWhile p = taken := by
  rw [List.takeWhile_append_of_pos all]
  cases rest with
  | nil => simp
  | cons d ds => simp [stops d (apart d rfl)]

theorem dropWhile_apart {p : Char → Bool} (stops : ∀ c, isSpace c → p c = false)
    {taken rest : List Char} (all : ∀ c ∈ taken, p c) (apart : Apart rest) :
    (taken ++ rest).dropWhile p = rest := by
  rw [List.dropWhile_append_of_pos all]
  cases rest with
  | nil => rfl
  | cons d ds => simp [stops d (apart d rfl)]

theorem isDigit_of_isSpace {c : Char} (space : isSpace c) : c.isDigit = false := by
  simp only [isSpace, Bool.or_eq_true, beq_iff_eq] at space
  rcases space with ((rfl | rfl) | rfl) | rfl <;> rfl

theorem isWordChar_of_isSpace {c : Char} (space : isSpace c) : isWordChar c = false := by
  simp only [isSpace, Bool.or_eq_true, beq_iff_eq] at space
  rcases space with ((rfl | rfl) | rfl) | rfl <;> rfl

variable {kind : Kind} {cs rest : List Char}

/-- The same piece with another text behind it. -/
def followed (piece : Piece) (rest : List Char) : Piece := { piece with rest }

theorem operator_alone {alone withEqual : Kind} (h : ∀ more, cs ≠ '=' :: more) :
    operator alone withEqual cs = single alone cs := by
  unfold operator
  split
  · exact absurd rfl (h _)
  · rfl

theorem slash_alone (h : ∀ more, cs ≠ '/' :: more) : slash cs = single .slash cs := by
  unfold slash
  split
  · exact absurd rfl (h _)
  · rfl

theorem operator_lexeme {alone withEqual : Kind} (apart : Apart rest) :
    operator alone withEqual ((operator alone withEqual cs).taken ++ rest) =
      (operator alone withEqual cs).followed rest := by
  by_cases equal : ∃ more, cs = '=' :: more
  · obtain ⟨more, rfl⟩ := equal
    rfl
  · have here : operator alone withEqual cs = single alone cs :=
      operator_alone fun more h => equal ⟨more, h⟩
    have there : operator alone withEqual rest = single alone rest :=
      operator_alone (apart.ne_cons rfl)
    rw [here]
    exact there

theorem slash_lexeme (h : (slash cs).form = .token kind) (apart : Apart rest) :
    slash ((slash cs).taken ++ rest) = (slash cs).followed rest := by
  by_cases comment : ∃ more, cs = '/' :: more
  · obtain ⟨more, rfl⟩ := comment
    cases h
  · have here : slash cs = single .slash cs := slash_alone fun more h => comment ⟨more, h⟩
    have there : slash rest = single .slash rest := slash_alone (apart.ne_cons rfl)
    rw [here]
    exact there

/-- A string ends with its own quote, whatever stands behind it. -/
theorem string_lexeme (h : (string cs).form = .token kind) :
    string ((string cs).taken ++ rest) = (string cs).followed rest := by
  have body : ∀ c ∈ cs.takeWhile (· != '"'), (c != '"') = true := by
    intro c mem
    exact List.all_eq_true.1 List.all_takeWhile c mem
  cases closed : cs.dropWhile (· != '"') with
  | nil =>
    simp only [string, closed] at h
    cases h
  | cons quote more =>
    have stopped := List.head?_dropWhile_not (· != '"') cs
    rw [closed] at stopped
    have isQuote : quote = '"' := by simpa using stopped
    subst isQuote
    have taken : (string cs).taken = cs.takeWhile (· != '"') ++ ['"'] := by simp only [string, closed]
    have text : (string cs).taken ++ rest = cs.takeWhile (· != '"') ++ '"' :: rest := by
      rw [taken, List.append_assoc]
      rfl
    rw [text]
    simp only [string, closed, List.takeWhile_append_of_pos body, List.dropWhile_append_of_pos body]
    simp [followed]

/-- A number without a fraction. -/
theorem number_whole (first : Char)
    (h : ∀ d more, cs.dropWhile Char.isDigit = '.' :: d :: more → d.isDigit = false) :
    number first cs = ⟨.token (.number (Number.ofDigits (first :: cs.takeWhile Char.isDigit) [])),
      cs.takeWhile Char.isDigit, cs.dropWhile Char.isDigit⟩ := by
  simp only [number]
  split
  · rename_i d more left
    simp [h d more left, left]
  · rfl

theorem number_lexeme (first : Char) (apart : Apart rest) :
    number first ((number first cs).taken ++ rest) = (number first cs).followed rest := by
  have integer : ∀ c ∈ cs.takeWhile Char.isDigit, c.isDigit := by
    intro c mem
    exact List.all_eq_true.1 List.all_takeWhile c mem
  have stops : ∀ c, isSpace c → c.isDigit = false := fun _ => isDigit_of_isSpace
  by_cases pointed : ∃ d more, cs.dropWhile Char.isDigit = '.' :: d :: more ∧ d.isDigit
  · obtain ⟨d, more, left, digit⟩ := pointed
    have fraction : ∀ c ∈ more.takeWhile Char.isDigit, c.isDigit := by
      intro c mem
      exact List.all_eq_true.1 List.all_takeWhile c mem
    have taken : (number first cs).taken ++ rest = cs.takeWhile Char.isDigit ++
        '.' :: d :: (more.takeWhile Char.isDigit ++ rest) := by
      simp [number, left, digit]
    rw [taken]
    simp only [number, left, digit, List.takeWhile_append_of_pos integer,
      List.dropWhile_append_of_pos integer]
    simp [takeWhile_apart stops fraction apart, dropWhile_apart stops fraction apart, digit, followed]
  · have here := number_whole first fun d more left => by
      rw [← Bool.not_eq_true]
      exact fun digit => pointed ⟨d, more, left, digit⟩
    have taken : (cs.takeWhile Char.isDigit ++ rest).takeWhile Char.isDigit =
        cs.takeWhile Char.isDigit := takeWhile_apart stops integer apart
    have left : (cs.takeWhile Char.isDigit ++ rest).dropWhile Char.isDigit = rest :=
      dropWhile_apart stops integer apart
    have there := @number_whole (cs.takeWhile Char.isDigit ++ rest) first fun d more h => by
      rw [left] at h
      exact absurd h (apart.ne_cons rfl _)
    rw [taken, left] at there
    rw [here]
    exact there

theorem word_lexeme (first : Char) (apart : Apart rest) :
    word first ((word first cs).taken ++ rest) = (word first cs).followed rest := by
  have all : ∀ c ∈ cs.takeWhile isWordChar, isWordChar c := by
    intro c mem
    exact List.all_eq_true.1 List.all_takeWhile c mem
  simp only [word, takeWhile_apart (fun _ => isWordChar_of_isSpace) all apart,
    dropWhile_apart (fun _ => isWordChar_of_isSpace) all apart]
  rfl

/-- A token is the same token in front of white space, and at the end of the source. -/
theorem at_lexeme {c : Char} (h : («at» c cs).form = .token kind) (apart : Apart rest) :
    «at» c ((«at» c cs).taken ++ rest) = («at» c cs).followed rest := by
  have reader := reader_at c
  generalize «at» c = read at *
  cases reader with
  | single kind => rfl
  | operator alone withEqual => exact operator_lexeme apart
  | slash => exact slash_lexeme h apart
  | string => exact string_lexeme h
  | number => exact number_lexeme c apart
  | word => exact word_lexeme c apart
  | space | unexpected => cases h

end Piece

/-! ## Lexemes -/

/-- A token that some scan reports, other than the end of source. -/
def Token.Scanned (t : Token) : Prop := t.kind ≠ .eof ∧ ∃ source, .token t ∈ scan source

/-- All there is to a token but its line. -/
def Token.content (t : Token) : Kind × String := (t.kind, t.lexeme)

/-- Blanks that keep two lexemes apart. -/
def Separator (sep : String) : Prop :=
  (∃ c cs, sep.toList = c :: cs ∧ isSpace c) ∧ Blank sep.toList

/-- The lexemes of the tokens, each with a text behind it. -/
def spread (parts : List (Token × String)) : String :=
  String.join (parts.map fun (t, sep) => t.lexeme ++ sep)

/-- The text has no lexical errors, and is made of the tokens; only their lines may be others. -/
def ScansAs (source : String) (ts : List Token) : Prop :=
  Item.errors (scan source) = [] ∧
    (Item.tokens (scan source)).map Token.content = ts.map Token.content ++ [(.eof, "")]

/-- Every token is read off a piece. -/
theorem exists_piece {t : Token} (kind : t.kind ≠ .eof) {line : Nat} {text : List Char}
    (mem : .token t ∈ scanAfter [] line text) : ∃ c cs, (Piece.at c cs).form = .token t.kind ∧
      t.lexeme = String.ofList (c :: (Piece.at c cs).taken) := by
  induction hn : text.length using Nat.strongRecOn generalizing line text with
  | _ n ih =>
    cases text with
    | nil =>
      rw [scanAfter] at mem
      cases List.mem_singleton.1 mem
      exact absurd rfl kind
    | cons c cs =>
      have shorter : (Piece.at c cs).rest.length < n := hn ▸ Piece.length_rest_lt c cs
      rw [scanAfter_eq] at mem
      rcases List.mem_append.1 mem with here | behind
      · refine ⟨c, cs, ?_⟩
        unfold Piece.items at here
        split at here
        · cases here
        · rename_i found
          cases List.mem_singleton.1 here
          exact ⟨found, rfl⟩
        · cases List.mem_singleton.1 here
      · exact ih _ shorter behind rfl

/-- The lexeme of a token is scanned as the token again, in front of white space and at the end. -/
theorem scanAfter_lexeme {t : Token} (scanned : t.Scanned) {rest : List Char} (apart : Apart rest)
    (line : Nat) : ∃ line', scanAfter [] line (t.lexeme.toList ++ rest) =
      .token { t with line := line' } :: scanAfter [] line' rest := by
  obtain ⟨kind, source, mem⟩ := scanned
  obtain ⟨c, cs, form, lexeme⟩ := exists_piece kind mem
  refine ⟨(Piece.at c cs).endLine c line, ?_⟩
  have same := Piece.at_lexeme form apart
  rw [lexeme, String.toList_ofList, List.cons_append, scanAfter_eq, same]
  have items : ((Piece.at c cs).followed rest).items c ((Piece.at c cs).endLine c line) =
      [.token { t with line := (Piece.at c cs).endLine c line }] := by
    have form' : ((Piece.at c cs).followed rest).form = .token t.kind := form
    rw [Piece.items, form', lexeme]
    rfl
  rw [← lexeme]
  exact congrArg (· ++ scanAfter [] ((Piece.at c cs).endLine c line) rest) items

/-- Lexemes that are kept apart are scanned as their tokens, one behind the other. -/
theorem scanAfter_spread {parts : List (Token × String)}
    (all : ∀ part ∈ parts, part.1.Scanned ∧ Separator part.2) (line : Nat) (more : List Char) :
    ∃ items line', scanAfter [] line ((spread parts).toList ++ more) =
        items ++ scanAfter [] line' more ∧
      Item.errors items = [] ∧
        (Item.tokens items).map Token.content = parts.map fun part => part.1.content := by
  induction parts generalizing line with
  | nil => exact ⟨[], line, rfl, rfl, rfl⟩
  | cons part parts ih =>
    obtain ⟨t, sep⟩ := part
    obtain ⟨scanned, ⟨c, cs, starts, space⟩, blank⟩ := all _ (List.mem_cons_self ..)
    have text : (spread ((t, sep) :: parts)).toList ++ more =
        t.lexeme.toList ++ (sep.toList ++ ((spread parts).toList ++ more)) := by
      simp [spread, String.join_cons]
    have apart : Apart (sep.toList ++ ((spread parts).toList ++ more)) := by
      intro d first
      rw [starts] at first
      cases first
      exact space
    obtain ⟨line₁, first⟩ := scanAfter_lexeme scanned apart line
    obtain ⟨items, line₂, rest, errors, tokens⟩ :=
      ih (fun part mem => all part (List.mem_cons_of_mem _ mem)) (line₁ + sep.toList.count '\n')
    refine ⟨.token { t with line := line₁ } :: items, line₂, ?_, errors, ?_⟩
    · rw [text, first, scanAfter_blank blank, rest]
      rfl
    · exact congrArg (t.content :: ·) tokens

/-- Behind lexemes that are kept apart a text is made of the same tokens as on any line. -/
theorem scansAs_spread {parts : List (Token × String)}
    (all : ∀ part ∈ parts, part.1.Scanned ∧ Separator part.2) {more : List Char} {ts : List Token}
    (behind : ∀ line, Item.errors (scanAfter [] line more) = [] ∧
      (Item.tokens (scanAfter [] line more)).map Token.content =
        ts.map Token.content ++ [(.eof, "")]) {source : String}
    (text : source.toList = (spread parts).toList ++ more) :
    ScansAs source (parts.map Prod.fst ++ ts) := by
  obtain ⟨items, line, scanned, errors, tokens⟩ := scanAfter_spread all 1 more
  obtain ⟨errors', tokens'⟩ := behind line
  unfold ScansAs scan
  rw [text, scanned]
  constructor
  · rw [Item.errors, List.filterMap_append]
    exact List.append_eq_nil_iff.2 ⟨errors, errors'⟩
  · rw [Item.tokens_append, List.map_append, tokens, tokens', List.map_append, List.map_map,
      List.append_assoc]
    rfl

/-- The tokens, each with a space behind it. -/
def spaced (ts : List Token) : List (Token × String) := ts.map fun t => (t, " ")

theorem fst_spaced (ts : List Token) : (spaced ts).map Prod.fst = ts := by
  rw [spaced, List.map_map]
  exact List.map_id ts

theorem apart_spaced {ts : List Token} (scanned : ∀ t ∈ ts, t.Scanned) :
    ∀ part ∈ spaced ts, part.1.Scanned ∧ Separator part.2 := by
  intro part mem
  obtain ⟨t, ht, rfl⟩ := List.mem_map.1 mem
  have space : " ".toList = [' '] := by decide
  refine ⟨scanned t ht, ⟨' ', [], space, rfl⟩, ?_⟩
  show Blank " ".toList
  rw [space]
  exact .space rfl .nil

theorem intercalate_concat (ts : List Token) (last : Token) :
    " ".intercalate ((ts ++ [last]).map Token.lexeme) = spread (spaced ts) ++ last.lexeme := by
  induction ts with
  | nil => simp [spread, spaced]
  | cons t ts ih =>
    have some : (ts ++ [last]).map Token.lexeme ≠ [] := by simp
    rw [List.cons_append, List.map_cons, String.intercalate_cons_of_ne_nil some, ih]
    simp [spread, spaced, String.join_cons, String.append_assoc]

/-- The tokens of a source are some other tokens and its end. -/
theorem exists_tokens (source : String) : ∃ ts eof, Item.tokens (scan source) = ts ++ [eof] ∧
    eof.content = (.eof, "") ∧ ∀ t ∈ ts, t.Scanned := by
  obtain ⟨parts, scanned, covers⟩ := exists_covered source
  refine ⟨Item.tokens (parts.map Prod.snd), .endOn (lineAt source.endPos), ?_, rfl, ?_⟩
  · rw [scanned, Item.tokens_append]
    rfl
  · intro t mem
    obtain ⟨part, mem, is⟩ := List.mem_map.1 (Item.mem_tokens.1 mem)
    have covered := covers part mem
    rw [is] at covered
    cases covered with
    | token kind =>
      refine ⟨kind, source, ?_⟩
      rw [scanned, ← is]
      exact List.mem_append_left _ (List.mem_map_of_mem mem)

theorem scansAs_parts {parts : List (Token × String)}
    (all : ∀ part ∈ parts, part.1.Scanned ∧ Separator part.2) :
    ScansAs (spread parts) (parts.map Prod.fst) := by
  have nothing : ∀ line, Item.errors (scanAfter [] line []) = [] ∧
      (Item.tokens (scanAfter [] line [])).map Token.content = [(.eof, "")] := by
    intro line
    rw [scanAfter]
    exact ⟨rfl, rfl⟩
  have scans := @scansAs_spread parts all [] [] nothing (spread parts) (List.append_nil _).symm
  rwa [List.append_nil] at scans

/-- Lexemes joined by spaces are scanned as their tokens; nothing stands behind the last. -/
theorem scansAs_joined {ts : List Token} (scanned : ∀ t ∈ ts, t.Scanned) :
    ScansAs (" ".intercalate (ts.map Token.lexeme)) ts := by
  rcases List.eq_nil_or_concat ts with rfl | ⟨front, last, rfl⟩
  · exact @scansAs_parts [] fun _ mem => nomatch mem
  · rw [List.concat_eq_append] at scanned ⊢
    have behind : ∀ line, Item.errors (scanAfter [] line last.lexeme.toList) = [] ∧
        (Item.tokens (scanAfter [] line last.lexeme.toList)).map Token.content =
          [last].map Token.content ++ [(.eof, "")] := by
      intro line
      obtain ⟨line', scans⟩ := scanAfter_lexeme
        (scanned last (List.mem_append_right _ (List.mem_singleton_self _))) .nil line
      rw [List.append_nil] at scans
      rw [scans, scanAfter]
      exact ⟨rfl, rfl⟩
    have all := apart_spaced fun t mem => scanned t (List.mem_append_left _ mem)
    have scans := scansAs_spread all behind (String.toList_append (t := last.lexeme))
    rwa [fst_spaced, ← intercalate_concat] at scans

/-- Lexemes kept apart by blanks are scanned as their tokens; in particular those of the tokens of one
source, joined by spaces, whether its end of source is among them or not. -/
theorem lexemes_rescan :
    (∀ parts : List (Token × String), (∀ part ∈ parts, part.1.Scanned ∧ Separator part.2) →
      ScansAs (spread parts) (parts.map Prod.fst)) ∧
    ∀ source, ∃ ts eof, Item.tokens (scan source) = ts ++ [eof] ∧ eof.content = (.eof, "") ∧
      ScansAs (" ".intercalate (ts.map Token.lexeme)) ts ∧
      ScansAs (" ".intercalate ((ts ++ [eof]).map Token.lexeme)) ts := by
  refine ⟨fun parts => scansAs_parts, fun source => ?_⟩
  obtain ⟨ts, eof, tokens, final, scanned⟩ := exists_tokens source
  refine ⟨ts, eof, tokens, final, scansAs_joined scanned, ?_⟩
  have nameless : eof.lexeme = "" := congrArg Prod.snd final
  have scans := scansAs_parts (apart_spaced scanned)
  rwa [fst_spaced, ← String.append_empty (s := spread _), ← nameless, ← intercalate_concat] at scans

/-- Operators that would be read as one, or as a comment, if they stood together. -/
theorem lexemes_rescan_operators :
    let equal : Token := ⟨.equal, "=", 1⟩
    let slash : Token := ⟨.slash, "/", 2⟩
    (∀ t ∈ [equal, slash], t.Scanned) ∧ (∀ sep ∈ [" ", "\t// =\n"], Separator sep) ∧
      ScansAs "= =\t// =\n/ / " [equal, equal, slash, slash] := by
  intro equal slash
  have scanned : ∀ t ∈ [equal, slash], t.Scanned := by
    intro t mem
    have kinds : t.kind ≠ .eof ∧ t ∈ Item.tokens (scan "=\n/") := by
      revert t
      decide +kernel
    exact ⟨kinds.1, _, Item.mem_tokens.1 kinds.2⟩
  have space : Separator " " := ⟨⟨' ', [], by decide, rfl⟩, .space rfl .nil⟩
  have comment : Separator "\t// =\n" := by
    have text : "\t// =\n".toList = '\t' :: '/' :: '/' :: ([' ', '='] ++ '\n' :: []) := by decide
    refine ⟨⟨'\t', _, text, rfl⟩, ?_⟩
    rw [text]
    exact .space rfl (.comment (by decide) .nil)
  have separators : ∀ sep ∈ [" ", "\t// =\n"], Separator sep := by
    simp only [List.mem_cons, List.not_mem_nil, or_false, forall_eq_or_imp, forall_eq]
    exact ⟨space, comment⟩
  refine ⟨scanned, separators, ?_⟩
  have scans := lexemes_rescan.1
    [(equal, " "), (equal, "\t// =\n"), (slash, " "), (slash, " ")] (by
      have first := scanned equal (by decide)
      have second := scanned slash (by decide)
      simp [first, second, space, comment])
  exact scans

end Lox
