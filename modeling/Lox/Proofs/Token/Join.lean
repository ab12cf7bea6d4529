/-
Scanning is compositional at line ends. No piece but a string goes on over the end of a line, and
all others end there as they end at the end of the source; so a text whose strings are all closed is
scanned as if nothing came behind the line end (`scan_append_line`), and what comes behind as if nothing
stood in front, but for its lines (`scan_lines`).
-/
import Lox.Token.Scan

namespace Lox

/-! ## Pieces in front of a line end -/

theorem takeWhile_append_line {p : Char → Bool} (hp : p '\n' = false) (cs more : List Char) :
    (cs ++ '\n' :: more).takeWhile p = cs.takeWhile p := by
  induction cs with
  | nil => simp [hp]
  | cons c cs ih => simp only [List.cons_append, List.takeWhile_cons, ih]

theorem dropWhile_append_line {p : Char → Bool} (hp : p '\n' = false) (cs more : List Char) :
    (cs ++ '\n' :: more).dropWhile p = cs.dropWhile p ++ '\n' :: more := by
  induction cs with
  | nil => simp [hp]
  | cons c cs ih =>
    simp only [List.cons_append, List.dropWhile_cons, ih]
    split <;> rfl

namespace Piece

/-- The piece with more text behind it. -/
def before (piece : Piece) (more : List Char) : Piece := { piece with rest := piece.rest ++ more }

theorem operator_append (alone withEqual : Kind) (cs more : List Char) :
    operator alone withEqual (cs ++ '\n' :: more) =
      (operator alone withEqual cs).before ('\n' :: more) := by
  cases cs with
  | nil => rfl
  | cons c cs =>
    simp only [operator, List.cons_append]
    split
    · rename_i heq
      cases heq
      rfl
    · rename_i h
      split
      · rename_i heq
        cases heq
        exact absurd rfl (h _)
      · rfl

theorem slash_append (cs more : List Char) :
    slash (cs ++ '\n' :: more) = (slash cs).before ('\n' :: more) := by
  have stop : (fun c : Char => c != '\n') '\n' = false := rfl
  cases cs with
  | nil => rfl
  | cons c cs =>
    by_cases hc : c = '/'
    · subst hc
      have taken := takeWhile_append_line (p := fun c => c != '\n') stop ('/' :: cs) more
      have dropped := dropWhile_append_line (p := fun c => c != '\n') stop ('/' :: cs) more
      simp only [List.cons_append] at taken dropped
      simp only [slash, List.cons_append, taken, dropped]
      rfl
    · have alone : ∀ ds, slash (c :: ds) = single .slash (c :: ds) := fun ds => by
        unfold slash
        split
        · rename_i heq
          cases heq
          exact absurd rfl hc
        · rfl
      rw [List.cons_append, alone, alone]
      rfl

/-- A string that is closed is closed by the same quote. -/
theorem string_append (cs more : List Char) (h : (string cs).form ≠ .fault .unterminatedString) :
    string (cs ++ more) = (string cs).before more := by
  -- the closing quote is in the text itself
  have closed : cs.dropWhile (· != '"') ≠ [] := fun none => by
    simp only [string, none] at h
    exact h rfl
  have dropped : (cs ++ more).dropWhile (· != '"') = cs.dropWhile (· != '"') ++ more := by
    rw [List.dropWhile_append, if_neg (by simpa using closed)]
  have taken : (cs ++ more).takeWhile (· != '"') = cs.takeWhile (· != '"') := by
    rw [List.takeWhile_append, if_neg fun full => closed ?_]
    have parts := congrArg List.length
      (List.takeWhile_append_dropWhile (p := (· != '"')) (l := cs))
    rw [List.length_append, full] at parts
    exact List.eq_nil_of_length_eq_zero (by omega)
  obtain ⟨quote, rest, hd⟩ := List.exists_cons_of_ne_nil closed
  simp only [string, taken, dropped, hd, List.cons_append]
  rfl

theorem number_append (first : Char) (cs more : List Char) :
    number first (cs ++ '\n' :: more) = (number first cs).before ('\n' :: more) := by
  have stop : Char.isDigit '\n' = false := rfl
  simp only [number, takeWhile_append_line stop, dropWhile_append_line stop]
  -- a dot in front of the line end has no digit behind it
  rcases cs.dropWhile Char.isDigit with - | ⟨c, rest⟩
  · rfl
  · by_cases hc : c = '.'
    · subst hc
      rcases rest with - | ⟨d, rest⟩
      · rfl
      · simp only [List.cons_append, takeWhile_append_line stop, dropWhile_append_line stop]
        split <;> rfl
    · simp only [List.cons_append]
      split
      · rename_i heq
        exact absurd (List.cons.inj heq).1 hc
      · split
        · rename_i heq
          exact absurd (List.cons.inj heq).1 hc
        · rfl

theorem word_append (first : Char) (cs more : List Char) :
    word first (cs ++ '\n' :: more) = (word first cs).before ('\n' :: more) := by
  have stop : isWordChar '\n' = false := rfl
  simp only [word, takeWhile_append_line stop, dropWhile_append_line stop]
  rfl

/-- A piece is the same in front of a line end, unless it is a string that is not closed. -/
theorem at_append (c : Char) (cs more : List Char)
    (h : («at» c cs).form ≠ .fault .unterminatedString) :
    «at» c (cs ++ '\n' :: more) = («at» c cs).before ('\n' :: more) := by
  unfold «at» at h ⊢
  split
  case h_11 | h_12 | h_13 | h_14 => exact operator_append ..
  case h_15 => exact slash_append ..
  case h_20 => exact string_append _ _ h
  case h_21 =>
    split
    · exact number_append ..
    · split
      · exact word_append ..
      · rfl
  all_goals rfl

theorem ofWord_ne_eof (text : String) : Kind.ofWord text ≠ .eof := by
  unfold Kind.ofWord
  cases h : Kind.reserved.lookup text with
  | none => decide
  | some kind =>
    have reserved : ∀ entry ∈ Kind.reserved, entry.2 ≠ .eof := by decide
    obtain ⟨before, behind, found, -⟩ := List.lookup_eq_some_iff.1 h
    refine reserved (text, kind) ?_
    rw [found]
    exact List.mem_append_right _ (List.mem_cons_self ..)

/-- No piece is an end of source. -/
theorem form_ne_eof (c : Char) (cs : List Char) : («at» c cs).form ≠ .token .eof := by
  unfold «at»
  split
  case h_11 | h_12 | h_13 | h_14 =>
    unfold operator
    split <;> simp [single]
  case h_15 =>
    unfold slash
    split <;> simp [single]
  case h_20 =>
    unfold string
    split <;> simp
  case h_21 =>
    split
    · simp only [number]
      repeat' split
      all_goals simp
    · split
      · simp only [word, ne_eq, Form.token.injEq]
        exact ofWord_ne_eof _
      · simp
  all_goals simp [single]

end Piece

/-- A scan goes on with less text. -/
theorem Piece.length_rest_lt (c : Char) (cs : List Char) :
    («at» c cs).rest.length < (c :: cs).length := by
  have le := length_rest_le c cs
  rw [List.length_cons]
  omega

/-! ## Scans -/

namespace Item

/-- The item some lines further down. -/
def below (lines : Nat) : Item → Item
  | token t => token { t with line := t.line + lines }
  | fault line f => fault (line + lines) f

end Item

/-- What a piece is reported as. -/
def Piece.items (piece : Piece) (c : Char) (line : Nat) : List Item :=
  match piece.form with
  | .blank => []
  | .token kind => [.token ⟨kind, String.ofList (c :: piece.taken), line⟩]
  | .fault fault => [.fault line fault]

/-- The line that a piece ends on. -/
def Piece.endLine (piece : Piece) (c : Char) (line : Nat) : Nat :=
  line + (c :: piece.taken).count '\n'

theorem scanAfter_cons (done : List Item) (line : Nat) (c : Char) (cs : List Char) :
    scanAfter done line (c :: cs) =
      scanAfter (((Piece.at c cs).items c ((Piece.at c cs).endLine c line)).reverse ++ done)
        ((Piece.at c cs).endLine c line) (Piece.at c cs).rest := by
  rw [scanAfter, Piece.items, Piece.endLine]
  cases (Piece.at c cs).form <;> rfl

theorem scanAfter_done (done : List Item) (line : Nat) (text : List Char) :
    scanAfter done line text = done.reverse ++ scanAfter [] line text := by
  induction hn : text.length using Nat.strongRecOn generalizing done line text with
  | _ n ih =>
    cases text with
    | nil => simp [scanAfter]
    | cons c cs =>
      have shorter : (Piece.at c cs).rest.length < n := hn ▸ Piece.length_rest_lt c cs
      rw [scanAfter_cons, ih _ shorter _ _ _ rfl, scanAfter_cons, eq_comm, ih _ shorter _ _ _ rfl]
      simp

/-- A scan reports its first piece and then the rest. -/
theorem scanAfter_eq (line : Nat) (c : Char) (cs : List Char) :
    scanAfter [] line (c :: cs) =
      (Piece.at c cs).items c ((Piece.at c cs).endLine c line) ++
        scanAfter [] ((Piece.at c cs).endLine c line) (Piece.at c cs).rest := by
  rw [scanAfter_cons, scanAfter_done]
  simp

/-- Further down, the same is reported further down. -/
theorem scanAfter_below (lines line : Nat) (text : List Char) :
    scanAfter [] (line + lines) text = (scanAfter [] line text).map (Item.below lines) := by
  induction hn : text.length using Nat.strongRecOn generalizing line text with
  | _ n ih =>
    cases text with
    | nil => simp [scanAfter, Item.below, Token.endOn]
    | cons c cs =>
      have shorter : (Piece.at c cs).rest.length < n := hn ▸ Piece.length_rest_lt c cs
      have ends : (Piece.at c cs).endLine c (line + lines) =
          (Piece.at c cs).endLine c line + lines := by
        unfold Piece.endLine
        omega
      have items : ∀ l, (Piece.at c cs).items c (l + lines) =
          ((Piece.at c cs).items c l).map (Item.below lines) := fun l => by
        unfold Piece.items
        split <;> rfl
      rw [scanAfter_eq, scanAfter_eq, ends, ih _ shorter _ _ rfl, items, List.map_append]

/-- A text without an open string is scanned in front of a line end as it is scanned alone, but for
the end of source. -/
theorem exists_items (line : Nat) (text : List Char)
    (closed : ∀ l, .fault l .unterminatedString ∉ scanAfter [] line text) :
    ∃ items, scanAfter [] line text = items ++ [.token (.endOn (line + text.count '\n'))] ∧
      (∀ t, .token t ∈ items → t.kind ≠ .eof) ∧
        ∀ more, scanAfter [] line (text ++ '\n' :: more) =
          items ++ scanAfter [] (line + text.count '\n' + 1) more := by
  induction hn : text.length using Nat.strongRecOn generalizing line text with
  | _ n ih =>
    cases text with
    | nil =>
      refine ⟨[], by simp [scanAfter], by simp, fun more => ?_⟩
      rw [List.nil_append, scanAfter_eq]
      rfl
    | cons c cs =>
      have shorter : (Piece.at c cs).rest.length < n := hn ▸ Piece.length_rest_lt c cs
      rw [scanAfter_eq] at closed
      obtain ⟨items, alone, kinds, joined⟩ := ih _ shorter ((Piece.at c cs).endLine c line) _
        (fun l h => closed l (List.mem_append_right _ h)) rfl
      -- the lines of the piece and those behind it are all lines
      have lines : (Piece.at c cs).endLine c line + (Piece.at c cs).rest.count '\n' =
          line + (c :: cs).count '\n' := by
        have parts := congrArg (List.count '\n') (Piece.taken_append_rest c cs)
        rw [List.count_append] at parts
        rw [Piece.endLine, List.count_cons, List.count_cons, ← parts]
        omega
      -- the first piece is reported too, so it is not an open string
      have closed' : (Piece.at c cs).form ≠ .fault .unterminatedString := fun h => by
        refine closed ((Piece.at c cs).endLine c line) (List.mem_append_left _ ?_)
        rw [Piece.items, h]
        exact List.mem_singleton_self _
      refine ⟨(Piece.at c cs).items c ((Piece.at c cs).endLine c line) ++ items, ?_,
        fun t ht => ?_, fun more => ?_⟩
      · rw [scanAfter_eq, alone, lines, List.append_assoc]
      · rcases List.mem_append.1 ht with ht | ht
        · unfold Piece.items at ht
          split at ht
          · cases ht
          · rename_i kind hk
            cases List.mem_singleton.1 ht
            rintro rfl
            exact Piece.form_ne_eof c cs hk
          · cases List.mem_singleton.1 ht
        · exact kinds t ht
      · have same : ((Piece.at c cs).before ('\n' :: more)).items = (Piece.at c cs).items ∧
            ((Piece.at c cs).before ('\n' :: more)).endLine = (Piece.at c cs).endLine :=
          ⟨rfl, rfl⟩
        have rest : ((Piece.at c cs).before ('\n' :: more)).rest =
            (Piece.at c cs).rest ++ '\n' :: more := rfl
        rw [List.cons_append, scanAfter_eq, Piece.at_append c cs more closed', same.1, same.2, rest,
          joined, lines, List.append_assoc]

/-- The lines that a text in front of a line end takes up. -/
def lineCount (source : String) : Nat := source.toList.count '\n' + 1

/-- Scanning is compositional at line ends: what is behind is scanned as if it stood alone, further
down. -/
theorem scan_append_line (source source' : String)
    (closed : ∀ l, .fault l .unterminatedString ∉ scan source) :
    ∃ items, scan source = items ++ [.token (.endOn (lineCount source))] ∧
      (∀ t, .token t ∈ items → t.kind ≠ .eof) ∧
        scan (source ++ "\n" ++ source') =
          items ++ (scan source').map (Item.below (lineCount source)) := by
  obtain ⟨items, alone, kinds, joined⟩ := exists_items 1 source.toList closed
  have lines : 1 + source.toList.count '\n' = lineCount source := Nat.add_comm 1 _
  rw [lines] at alone joined
  refine ⟨items, alone, kinds, ?_⟩
  have text : (source ++ "\n" ++ source').toList = source.toList ++ '\n' :: source'.toList := by
    simp
  rw [scan, text, joined, scan, ← scanAfter_below, Nat.add_comm 1]

/-- A text behind the end of a line adds its own items to those that are in front of it, so much
further down; of the items in front it takes the place of the end of source. -/
theorem scan_lines (front behind : String)
    (closed : ∀ line, .fault line .unterminatedString ∉ scan front) :
    (scan front).getLast? = some (.token (.endOn (lineCount front))) ∧
      scan (front ++ "\n" ++ behind) =
        (scan front).dropLast ++ (scan behind).map (Item.below (lineCount front)) := by
  obtain ⟨items, alone, -, joined⟩ := scan_append_line front behind closed
  constructor
  · rw [alone]
    exact List.getLast?_concat
  · rw [joined, alone, List.dropLast_concat]

/-- A slash at the end of a line and one at the start of the next are no comment, a bang and an equals
sign no operator; and a character that belongs nowhere ends with its line. -/
theorem scan_lines_slashes :
    let front := "!\n§ /"
    let behind := "/ =\n\"open"
    (∀ line, .fault line .unterminatedString ∉ scan front) ∧
      (scan front).getLast? = some (.token (.endOn 2)) ∧
      scan (front ++ "\n" ++ behind) =
        [.token ⟨.bang, "!", 1⟩, .fault 2 .unexpectedCharacter, .token ⟨.slash, "/", 2⟩,
          .token ⟨.slash, "/", 3⟩, .token ⟨.equal, "=", 3⟩, .fault 4 .unterminatedString,
          .token (.endOn 4)] := by
  intro front behind
  have first : scan front = [.token ⟨.bang, "!", 1⟩, .fault 2 .unexpectedCharacter,
      .token ⟨.slash, "/", 2⟩, .token (.endOn 2)] := by decide +kernel
  have second : scan behind = [.token ⟨.slash, "/", 1⟩, .token ⟨.equal, "=", 1⟩,
      .fault 2 .unterminatedString, .token (.endOn 2)] := by decide +kernel
  have lines : lineCount front = 2 := by decide
  have closed : ∀ line, .fault line .unterminatedString ∉ scan front := by
    rw [first]
    simp
  obtain ⟨last, joined⟩ := scan_lines front behind closed
  rw [lines] at last
  rw [lines, first, second] at joined
  exact ⟨closed, last, joined⟩

/-! ## Tokens and errors -/

/-- The token some lines further down. -/
def Token.below (lines : Nat) (t : Token) : Token := { t with line := t.line + lines }

namespace Item

theorem tokens_append (items items' : List Item) :
    tokens (items ++ items') = tokens items ++ tokens items' := List.filterMap_append

theorem tokens_below (lines : Nat) (items : List Item) :
    tokens (items.map (below lines)) = (tokens items).map (Token.below lines) := by
  induction items with
  | nil => rfl
  | cons item items ih => cases item with
    | token t => exact congrArg (t.below lines :: ·) ih
    | fault line f => exact ih

theorem mem_tokens {items : List Item} {t : Token} : t ∈ tokens items ↔ .token t ∈ items := by
  induction items with
  | nil => simp [tokens]
  | cons item items ih =>
    cases item with
    | token u => rw [show tokens (.token u :: items) = u :: tokens items from rfl]; simp [ih]
    | fault line f => rw [show tokens (.fault line f :: items) = tokens items from rfl]; simp [ih]

theorem errors_eq_nil_iff {items : List Item} :
    errors items = [] ↔ ∀ line f, .fault line f ∉ items := by
  induction items with
  | nil => simp [errors]
  | cons item items ih =>
    cases item with
    | token t => rw [show errors (.token t :: items) = errors items from rfl, ih]; simp
    | fault line f =>
      refine ⟨fun h => ?_, fun h => absurd (List.mem_cons_self ..) (h line f)⟩
      cases h

end Item

/-- The tokens of a text without lexical errors, and behind them those of the text behind it. -/
theorem tokens_append_line {source source' : String} (clean : Item.errors (scan source) = [])
    (clean' : Item.errors (scan source') = []) :
    ∃ ts eof, Item.tokens (scan source) = ts ++ [eof] ∧ eof.kind = .eof ∧
      (∀ t ∈ ts, t.kind ≠ .eof) ∧
        Item.tokens (scan (source ++ "\n" ++ source')) =
          ts ++ (Item.tokens (scan source')).map (Token.below (lineCount source)) ∧
        Item.errors (scan (source ++ "\n" ++ source')) = [] := by
  rw [Item.errors_eq_nil_iff] at clean clean'
  obtain ⟨items, alone, kinds, joined⟩ := scan_append_line source source' fun l => clean l _
  refine ⟨Item.tokens items, .endOn (lineCount source), ?_, rfl,
    fun t ht => kinds t (Item.mem_tokens.1 ht), ?_, ?_⟩
  · rw [alone, Item.tokens_append]
    rfl
  · rw [joined, Item.tokens_append, Item.tokens_below]
  · rw [joined, Item.errors_eq_nil_iff]
    intro line f hf
    rcases List.mem_append.1 hf with hf | hf
    · refine clean line f ?_
      rw [alone]
      exact List.mem_append_left _ hf
    · obtain ⟨item, hitem, heq⟩ := List.mem_map.1 hf
      cases item with
      | token t => cases heq
      | fault line' f' => exact clean' line' f' hitem

end Lox
