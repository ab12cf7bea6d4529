/-
Where the items of a scan stand. Every item covers a span of the source, the spans follow each other,
and between them there is nothing but white space and comments (`Tiles`). What an item says of its
text and of its line can be read off its span (`Covers`); so no item is on a line that the source does
not have (`line_of_mem_tokens`, `line_of_mem_errors`).

The main result is `exists_parts_read`: the items of every text tile it, up to the one end of source,
and each is the item of the piece that its span takes.
-/
import Lox.Proofs.Token.Join

namespace Lox

/-! ## Blanks -/

/-- The characters of white space. -/
def isSpace (c : Char) : Bool := c == ' ' || c == '\t' || c == '\r' || c == '\n'

/-- White space and comments, each with the end of its line. -/
inductive Blank : List Char → Prop
  | nil : Blank []
  | space {c : Char} {cs : List Char} (h : isSpace c) (behind : Blank cs) : Blank (c :: cs)
  | comment {body cs : List Char} (h : '\n' ∉ body) (behind : Blank cs) :
    Blank ('/' :: '/' :: (body ++ '\n' :: cs))

/-- A comment without the end of its line. -/
def OpenComment (cs : List Char) : Prop := ∃ body, cs = '/' :: '/' :: body ∧ '\n' ∉ body

/-- White space and comments, of which the last may lack the end of its line. -/
def BlankToEnd (cs : List Char) : Prop :=
  Blank cs ∨ ∃ front comment, cs = front ++ comment ∧ Blank front ∧ OpenComment comment

namespace Piece

/-- The ways to read a piece, by the character it starts with. -/
inductive Reader (c : Char) : (List Char → Piece) → Prop
  | single (kind : Kind) : Reader c (single kind)
  | operator (alone withEqual : Kind) : Reader c (operator alone withEqual)
  | slash (h : c = '/') : Reader c slash
  | space (h : isSpace c) : Reader c fun cs => ⟨.blank, [], cs⟩
  | string (h : c = '"') : Reader c string
  | number : Reader c (number c)
  | word : Reader c (word c)
  | unexpected : Reader c fun cs => ⟨.fault .unexpectedCharacter, [], cs⟩

theorem reader_at (c : Char) : Reader c («at» c) := by
  show Reader c fun cs => «at» c cs
  unfold «at»
  split
  case h_11 | h_12 | h_13 | h_14 => exact .operator ..
  case h_15 => exact .slash rfl
  case h_16 | h_17 | h_18 | h_19 => exact .space rfl
  case h_20 => exact .string rfl
  case h_21 =>
    split
    · exact .number
    · split
      · exact .word
      · exact .unexpected
  all_goals exact .single _

/-- What a piece can be, and what it takes if it is no token. -/
inductive Shape (c : Char) : Piece → Prop
  | token (kind : Kind) (taken rest : List Char) : Shape c ⟨.token kind, taken, rest⟩
  | space (h : isSpace c) (rest : List Char) : Shape c ⟨.blank, [], rest⟩
  | comment (h : c = '/') {body : List Char} (line : '\n' ∉ body) (rest : List Char)
    (ends : rest = [] ∨ ∃ more, rest = '\n' :: more) : Shape c ⟨.blank, '/' :: body, rest⟩
  | unexpected (rest : List Char) : Shape c ⟨.fault .unexpectedCharacter, [], rest⟩
  | unterminated (h : c = '"') (body : List Char) : Shape c ⟨.fault .unterminatedString, body, []⟩

theorem shape_operator (c : Char) (alone withEqual : Kind) (cs : List Char) :
    Shape c (operator alone withEqual cs) := by
  unfold operator
  split
  · exact .token ..
  · exact .token ..

theorem shape_slash (cs : List Char) : Shape '/' (slash cs) := by
  unfold slash
  split
  · rename_i ds
    have line : '\n' ∉ ds.takeWhile (· != '\n') := by
      intro mem
      have all := List.all_takeWhile (p := (· != '\n')) (l := ds)
      have := List.all_eq_true.1 all _ mem
      simp at this
    refine .comment rfl line _ ?_
    show ds.dropWhile (· != '\n') = [] ∨ ∃ more, ds.dropWhile (· != '\n') = '\n' :: more
    cases left : ds.dropWhile (· != '\n') with
    | nil => exact .inl rfl
    | cons e more =>
      have stopped := List.head?_dropWhile_not (· != '\n') ds
      rw [left] at stopped
      have : e = '\n' := by simpa using stopped
      exact .inr ⟨more, by rw [this]⟩
  · exact .token ..

theorem shape_string (cs : List Char) : Shape '"' (string cs) := by
  simp only [string]
  split
  · exact .token ..
  · exact .unterminated rfl _

theorem shape_number (first : Char) (cs : List Char) : Shape first (number first cs) := by
  simp only [number]
  split
  · split
    · exact .token ..
    · exact .token ..
  · exact .token ..

theorem shape_at (c : Char) (cs : List Char) : Shape c («at» c cs) := by
  have reader := reader_at c
  generalize «at» c = read at *
  cases reader with
  | single kind => exact .token ..
  | operator alone withEqual => exact shape_operator ..
  | slash h =>
    subst h
    exact shape_slash cs
  | space h => exact .space h cs
  | string h =>
    subst h
    exact shape_string cs
  | number => exact shape_number ..
  | word => exact .token ..
  | unexpected => exact .unexpected cs

end Piece

theorem Piece.at_space {c : Char} (space : isSpace c) (cs : List Char) :
    Piece.at c cs = ⟨.blank, [], cs⟩ := by
  simp only [isSpace, Bool.or_eq_true, beq_iff_eq] at space
  rcases space with ((rfl | rfl) | rfl) | rfl <;> rfl

/-- A comment goes on up to the end of its line. -/
theorem Piece.at_slashes {body rest : List Char} (line : '\n' ∉ body)
    (ends : rest = [] ∨ ∃ more, rest = '\n' :: more) :
    Piece.at '/' ('/' :: (body ++ rest)) = ⟨.blank, '/' :: body, rest⟩ := by
  have inside : ∀ d ∈ '/' :: body, (d != '\n') = true := by
    intro d mem
    rw [bne_iff_ne]
    rintro rfl
    rcases List.mem_cons.1 mem with slash | mem
    · cases slash
    · exact line mem
  show Piece.mk .blank (List.takeWhile _ ('/' :: body ++ rest))
    (List.dropWhile _ ('/' :: body ++ rest)) = _
  rw [List.takeWhile_append_of_pos inside, List.dropWhile_append_of_pos inside]
  rcases ends with rfl | ⟨more, rfl⟩ <;> simp

theorem scanAfter_space {c : Char} (space : isSpace c) (line : Nat) (cs : List Char) :
    scanAfter [] line (c :: cs) = scanAfter [] (line + [c].count '\n') cs := by
  rw [scanAfter_eq, Piece.at_space space]
  rfl

theorem scanAfter_slashes {body rest : List Char} (line : '\n' ∉ body)
    (ends : rest = [] ∨ ∃ more, rest = '\n' :: more) (n : Nat) :
    scanAfter [] n ('/' :: '/' :: (body ++ rest)) = scanAfter [] n rest := by
  have none : ('/' :: '/' :: body).count '\n' = 0 := by
    rw [List.count_eq_zero]
    simpa using line
  have first := scanAfter_eq n '/' ('/' :: (body ++ rest))
  rwa [Piece.at_slashes line ends, Piece.endLine, none] at first

/-- Blanks are skipped. -/
theorem scanAfter_blank {gap : List Char} (blank : Blank gap) (line : Nat) (cs : List Char) :
    scanAfter [] line (gap ++ cs) = scanAfter [] (line + gap.count '\n') cs := by
  induction blank generalizing line with
  | nil => rfl
  | @space c gap h _ ih =>
    rw [List.cons_append, scanAfter_space h, ih, ← List.singleton_append (l := gap), List.count_append,
      Nat.add_assoc]
  | @comment body gap h _ ih =>
    have lines : ('/' :: '/' :: (body ++ '\n' :: gap)).count '\n' = 1 + gap.count '\n' := by
      have none : body.count '\n' = 0 := List.count_eq_zero.2 h
      simp [none, Nat.add_comm]
    have text : '/' :: '/' :: (body ++ '\n' :: gap) ++ cs =
        '/' :: '/' :: (body ++ '\n' :: (gap ++ cs)) := by simp
    rw [text, scanAfter_slashes h (.inr ⟨_, rfl⟩), scanAfter_space rfl, ih, lines, ← Nat.add_assoc]
    rfl

/-- Behind the blanks a text starts with stands its end, a comment up to the end, or an item. -/
theorem exists_gap (text : List Char) : ∃ gap rest, text = gap ++ rest ∧ Blank gap ∧
    (rest = [] ∨ OpenComment rest ∨ ∃ c cs, rest = c :: cs ∧ (Piece.at c cs).form ≠ .blank) := by
  induction hn : text.length using Nat.strongRecOn generalizing text with
  | _ n ih =>
    cases text with
    | nil => exact ⟨[], [], rfl, .nil, .inl rfl⟩
    | cons c cs =>
      by_cases blank : (Piece.at c cs).form = .blank
      · have shape := Piece.shape_at c cs
        have text := Piece.taken_append_rest c cs
        have shorter := Piece.length_rest_lt c cs
        generalize Piece.at c cs = piece at blank shape text shorter
        cases shape with
        | token | unexpected | unterminated => cases blank
        | space h rest =>
          subst text
          obtain ⟨gap, rest', rfl, hgap, next⟩ := ih _ (hn ▸ shorter) rest rfl
          exact ⟨c :: gap, rest', rfl, .space h hgap, next⟩
        | @comment h body line rest ends =>
          subst h text
          rcases ends with rfl | ⟨more, rfl⟩
          · exact ⟨[], _, rfl, .nil, .inr (.inl ⟨body, by simp, line⟩)⟩
          · have fewer : more.length < n := by
              rw [← hn]
              simp
              omega
            obtain ⟨gap, rest', rfl, hgap, next⟩ := ih _ fewer more rfl
            exact ⟨_, rest', by simp, .comment line hgap, next⟩
      · exact ⟨[], c :: cs, rfl, .nil, .inr (.inr ⟨c, cs, rfl, blank⟩)⟩

theorem scanAfter_openComment {comment : List Char} (h : OpenComment comment) (line : Nat) :
    scanAfter [] line comment = [.token (.endOn line)] := by
  obtain ⟨body, rfl, h⟩ := h
  have skipped := scanAfter_slashes h (.inl rfl) line
  rw [List.append_nil] at skipped
  rw [skipped, scanAfter]
  rfl

/-! ## Spans -/

/-- A stretch of the source between two positions. Positions stand between characters. -/
structure Span (source : String) where
  start : source.Pos
  stop : source.Pos
  start_lt_stop : start < stop

/-- The text between two positions. -/
def between {source : String} (p q : source.Pos) : List Char := (source.extract p q).toList

/-- The text of a span. -/
def Span.text {source : String} (span : Span source) : String := source.extract span.start span.stop

/-- The line of a position: one more than the line ends in front of it. -/
def lineAt {source : String} (p : source.Pos) : Nat := 1 + (between source.startPos p).count '\n'

section

variable {source : String}

/-- What an item says about the span it covers. -/
inductive Item.Covers (span : Span source) : Item → Prop
  | token {t : Token} (kind : t.kind ≠ .eof) (lexeme : t.lexeme = span.text)
    (line : t.line = lineAt span.stop) : Covers span (.token t)
  | unexpected (single : span.text.length = 1) :
    Covers span (.fault (lineAt span.stop) .unexpectedCharacter)
  | unterminated {body : List Char} (quote : span.text.toList = '"' :: body)
    (ends : span.stop = source.endPos) :
    Covers span (.fault (lineAt span.stop) .unterminatedString)

/-- From the position on there are the spans, one behind the other, and nothing else but blanks. -/
def Tiles (p : source.Pos) : List (Span source × Item) → Prop
  | [] => BlankToEnd (between p source.endPos)
  | (span, _) :: parts =>
    p ≤ span.start ∧ Blank (between p span.start) ∧ Tiles span.stop parts

/-- The position stands between the two parts of the source. -/
def Stands (p : source.Pos) (before behind : List Char) : Prop :=
  p.Splits (String.ofList before) (String.ofList behind)

theorem exists_stands (before behind : List Char) (h : source.toList = before ++ behind) :
    ∃ p : source.Pos, Stands p before behind := by
  have parts : source = String.ofList before ++ String.ofList behind := by
    rw [← String.ofList_append, ← h, String.ofList_toList]
  exact ⟨_, String.Pos.splits_ofEqAppend parts⟩

theorem Stands.toList_eq {p : source.Pos} {before behind : List Char} (h : Stands p before behind) :
    source.toList = before ++ behind := by
  rw [h.eq_append]
  simp

theorem stands_startPos : Stands source.startPos [] source.toList := by
  unfold Stands
  rw [String.ofList_toList]
  exact source.splits_startPos

theorem stands_endPos : Stands source.endPos source.toList [] := by
  unfold Stands
  rw [String.ofList_toList]
  exact source.splits_endPos

theorem Stands.le {p q : source.Pos} {before text behind : List Char}
    (hp : Stands p before (text ++ behind)) (hq : Stands q (before ++ text) behind) : p ≤ q := by
  rw [String.Pos.Splits.le_iff_exists_eq_append hp hq]
  exact ⟨String.ofList text, String.ofList_append, String.ofList_append⟩

theorem Stands.lt {p q : source.Pos} {before text behind : List Char}
    (hp : Stands p before (text ++ behind)) (hq : Stands q (before ++ text) behind)
    (some : text ≠ []) : p < q := by
  rw [String.Pos.Splits.lt_iff_exists_eq_append hp hq]
  refine ⟨String.ofList text, ?_, String.ofList_append, String.ofList_append⟩
  intro h
  have := congrArg String.toList h
  simp at this
  exact some this

theorem Stands.between_eq {p q : source.Pos} (before : List Char) {text behind : List Char}
    (hp : Stands p before (text ++ behind)) (hq : Stands q (before ++ text) behind) :
    between p q = text := by
  have same : source.extract p q = String.ofList text := by
    have bytes : source.toByteArray = (String.ofList before).toByteArray ++
        ((String.ofList text).toByteArray ++ (String.ofList behind).toByteArray) := by
      rw [← String.toByteArray_append, ← String.toByteArray_append, ← String.ofList_append]
      exact congrArg String.toByteArray hp.eq_append
    have stop : q.offset.byteIdx =
        (String.ofList before).toByteArray.size + (String.ofList text).toByteArray.size := by
      rw [hq.offset_eq_rawEndPos, String.ofList_append, String.byteIdx_rawEndPos,
        String.utf8ByteSize_append, String.size_toByteArray, String.size_toByteArray]
    rw [← String.toByteArray_inj, String.toByteArray_extract, bytes, stop, hp.offset_eq_rawEndPos,
      String.byteIdx_rawEndPos, ← String.size_toByteArray]
    exact (ByteArray.extract_append_size_add (i := 0)).trans (ByteArray.extract_append_eq_left rfl)
  rw [between, same, String.toList_ofList]

theorem Stands.lineAt_eq {p : source.Pos} {before behind : List Char} (h : Stands p before behind) :
    lineAt p = 1 + before.count '\n' := by
  have start : Stands source.startPos [] (before ++ behind) := by
    rw [← h.toList_eq]
    exact stands_startPos
  rw [lineAt, Stands.between_eq [] start h]

/-- The item of a piece covers the span that the piece takes. -/
theorem covers_items {c : Char} {cs before : List Char} {span : Span source}
    (start : Stands span.start before (c :: cs))
    (stop : Stands span.stop (before ++ c :: (Piece.at c cs).taken) (Piece.at c cs).rest)
    (some : (Piece.at c cs).form ≠ .blank) :
    ∃ item, (Piece.at c cs).items c (lineAt span.stop) = [item] ∧ item.Covers span := by
  have text := Piece.taken_append_rest c cs
  have shape := Piece.shape_at c cs
  have kinds := Piece.form_ne_eof c cs
  have covered : span.text.toList = c :: (Piece.at c cs).taken := by
    refine Stands.between_eq before ?_ stop
    rwa [List.cons_append, text]
  generalize Piece.at c cs = piece at *
  cases shape with
  | space | comment => exact absurd rfl some
  | token kind taken rest =>
    refine ⟨_, rfl, .token (fun eof => kinds (congrArg Form.token eof)) ?_ rfl⟩
    rw [← String.ofList_toList (s := span.text), covered]
  | unexpected rest =>
    refine ⟨_, rfl, .unexpected ?_⟩
    rw [← String.length_toList, covered]
    rfl
  | unterminated quote body =>
    subst quote
    refine ⟨_, rfl, .unterminated covered ?_⟩
    rw [String.Pos.Splits.eq_endPos_iff stop, String.ofList_nil]

/-- A piece that is no blank covers a span. -/
theorem exists_span {c : Char} {cs before : List Char} {p : source.Pos}
    (start : Stands p before (c :: cs)) (some : (Piece.at c cs).form ≠ .blank) :
    ∃ (span : Span source) (item : Item), span.start = p ∧
      Stands span.stop (before ++ c :: (Piece.at c cs).taken) (Piece.at c cs).rest ∧
      (Piece.at c cs).items c (lineAt span.stop) = [item] ∧ item.Covers span := by
  have taken : c :: cs = c :: (Piece.at c cs).taken ++ (Piece.at c cs).rest := by
    rw [List.cons_append, Piece.taken_append_rest]
  obtain ⟨q, stop⟩ := exists_stands (before ++ c :: (Piece.at c cs).taken) (Piece.at c cs).rest
    (by rw [start.toList_eq, List.append_assoc, ← taken])
  let span : Span source := ⟨p, q, Stands.lt (taken ▸ start) stop (List.cons_ne_nil c _)⟩
  have start' : Stands span.start before (c :: cs) := start
  obtain ⟨item, items, covers⟩ := covers_items start' stop some
  exact ⟨span, item, rfl, stop, items, covers⟩

end

/-! ## Tilings -/

/-- The item is the one of the piece that starts where the span starts, and ends where it ends. -/
def Item.ReadAt {source : String} (span : Span source) (item : Item) : Prop :=
  ∃ before c cs, Stands span.start before (c :: cs) ∧
    Stands span.stop (before ++ c :: (Piece.at c cs).taken) (Piece.at c cs).rest ∧
    (Piece.at c cs).items c (lineAt span.stop) = [item]

theorem Stands.between_endPos {source : String} {p : source.Pos} {before text : List Char}
    (stands : Stands p before text) : between p source.endPos = text := by
  have start : Stands p before (text ++ []) := by rwa [List.append_nil]
  refine Stands.between_eq before start ?_
  rw [← stands.toList_eq]
  exact stands_endPos

/-- The items of a text tile it, wherever it stands in the source, and each is read where its span
starts. -/
theorem exists_parts_read {source : String} (p : source.Pos) (before text : List Char)
    (stands : Stands p before text) : ∃ parts : List (Span source × Item),
      scanAfter [] (lineAt p) text =
        parts.map Prod.snd ++ [.token (.endOn (lineAt source.endPos))] ∧
      Tiles p parts ∧ ∀ part ∈ parts, part.2.Covers part.1 ∧ part.2.ReadAt part.1 := by
  induction hn : text.length using Nat.strongRecOn generalizing p before text with
  | _ n ih =>
    have whole := stands.toList_eq
    have ends : lineAt source.endPos = lineAt p + text.count '\n' := by
      rw [stands_endPos.lineAt_eq, stands.lineAt_eq, whole, List.count_append, Nat.add_assoc]
    have left : between p source.endPos = text := stands.between_endPos
    obtain ⟨gap, rest, rfl, blank, next⟩ := exists_gap text
    rw [scanAfter_blank blank]
    rcases next with rfl | comment | ⟨c, cs, rfl, some⟩
    · refine ⟨[], ?_, ?_, fun _ h => nomatch h⟩
      · rw [ends, List.append_nil, scanAfter]
        rfl
      · rw [Tiles, left, List.append_nil]
        exact .inl blank
    · refine ⟨[], ?_, ?_, fun _ h => nomatch h⟩
      · have single : rest.count '\n' = 0 := by
          obtain ⟨body, rfl, line⟩ := comment
          rw [List.count_eq_zero]
          simpa using line
        rw [ends, List.count_append, single, scanAfter_openComment comment]
        rfl
      · rw [Tiles, left]
        exact .inr ⟨gap, rest, rfl, blank, comment⟩
    · obtain ⟨start, hstart⟩ := exists_stands (before ++ gap) (c :: cs)
        (by rw [whole, List.append_assoc])
      obtain ⟨span, item, rfl, hstop, items, covers⟩ := exists_span hstart some
      have fewer : (Piece.at c cs).rest.length < n := by
        have shorter := Piece.length_rest_lt c cs
        rw [← hn, List.length_append]
        omega
      obtain ⟨parts, scanned, tiles, all⟩ := ih _ fewer span.stop _ _ hstop rfl
      refine ⟨(span, item) :: parts, ?_, ⟨?_, ?_, tiles⟩, ?_⟩
      · have line : (Piece.at c cs).endLine c (lineAt p + gap.count '\n') = lineAt span.stop := by
          rw [Piece.endLine, hstop.lineAt_eq, stands.lineAt_eq]
          simp only [List.count_append]
          omega
        rw [scanAfter_eq, line, items, scanned]
        rfl
      · exact Stands.le stands hstart
      · rw [Stands.between_eq before stands hstart]
        exact blank
      · intro part mem
        rcases List.mem_cons.1 mem with rfl | mem
        · exact ⟨covers, _, c, cs, hstart, hstop, items⟩
        · exact all part mem

/-- The items of a text tile it, wherever it stands in the source. -/
theorem exists_parts {source : String} (p : source.Pos) (before text : List Char)
    (stands : Stands p before text) : ∃ parts : List (Span source × Item),
      scanAfter [] (lineAt p) text =
        parts.map Prod.snd ++ [.token (.endOn (lineAt source.endPos))] ∧
      Tiles p parts ∧ ∀ part ∈ parts, part.2.Covers part.1 := by
  obtain ⟨parts, scanned, tiles, all⟩ := exists_parts_read p before text stands
  exact ⟨parts, scanned, tiles, fun part mem => (all part mem).1⟩

/-- All items of a source but its end cover spans of it. -/
theorem exists_covered (source : String) : ∃ parts : List (Span source × Item),
    scan source = parts.map Prod.snd ++ [.token (.endOn (lineAt source.endPos))] ∧
      ∀ part ∈ parts, part.2.Covers part.1 := by
  have first : lineAt source.startPos = 1 := stands_startPos.lineAt_eq
  obtain ⟨parts, scanned, -, covers⟩ :=
    exists_parts source.startPos [] source.toList stands_startPos
  rw [first] at scanned
  exact ⟨parts, scanned, covers⟩

/-! ## Lines -/

section

variable {source : String}

theorem exists_parts_of_pos (p : source.Pos) : ∃ before behind, Stands p before behind := by
  obtain ⟨before, behind, splits⟩ : ∃ before behind, p.Splits before behind := ⟨_, _, p.splits⟩
  refine ⟨before.toList, behind.toList, ?_⟩
  rwa [Stands, String.ofList_toList, String.ofList_toList]

theorem one_le_lineAt (p : source.Pos) : 1 ≤ lineAt p := Nat.le_add_right 1 _

theorem lineAt_le_lineCount (p : source.Pos) : lineAt p ≤ lineCount source := by
  obtain ⟨before, behind, stands⟩ := exists_parts_of_pos p
  rw [stands.lineAt_eq, lineCount, stands.toList_eq, List.count_append]
  omega

/-- The line of an item is the line of the position where it ends. -/
theorem exists_pos_of_mem_scan {item : Item} (mem : item ∈ scan source) : ∃ p : source.Pos,
    match item with
    | .token t => t.line = lineAt p
    | .fault line _ => line = lineAt p := by
  obtain ⟨parts, scanned, covers⟩ := exists_covered source
  rw [scanned] at mem
  rcases List.mem_append.1 mem with mem | last
  · obtain ⟨⟨span, item⟩, covered, rfl⟩ := List.mem_map.1 mem
    have covers : item.Covers span := covers _ covered
    refine ⟨span.stop, ?_⟩
    cases covers with
    | token _ _ line => exact line
    | unexpected => rfl
    | unterminated => rfl
  · obtain rfl := List.mem_singleton.1 last
    exact ⟨source.endPos, rfl⟩

theorem line_of_mem_tokens {t : Token} (mem : t ∈ Item.tokens (scan source)) :
    1 ≤ t.line ∧ t.line ≤ lineCount source := by
  obtain ⟨p, line⟩ := exists_pos_of_mem_scan (Item.mem_tokens.1 mem)
  rw [line]
  exact ⟨one_le_lineAt p, lineAt_le_lineCount p⟩

theorem line_of_mem_errors {e : StaticError} (mem : e ∈ Item.errors (scan source)) :
    e.token? = none ∧ 1 ≤ e.line ∧ e.line ≤ lineCount source := by
  obtain ⟨item, mem, is⟩ := List.mem_filterMap.1 mem
  obtain ⟨p, line⟩ := exists_pos_of_mem_scan mem
  cases item with
  | token => cases is
  | fault l fault =>
    cases is
    refine ⟨rfl, ?_⟩
    show 1 ≤ l ∧ l ≤ lineCount source
    rw [line]
    exact ⟨one_le_lineAt p, lineAt_le_lineCount p⟩

end

end Lox
