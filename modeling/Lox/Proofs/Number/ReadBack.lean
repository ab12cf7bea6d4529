/-
Printed numbers read back. With a semicolon behind it, the text that a program prints for a finite
number is a program of one expression statement: a number, or a minus sign in front of one. The
expression evaluates to the number that was printed, every bit of it (`numbers_read_back`).
-/
import Lox.Interpreter
import Lox.Eval.Run
import Lox.Parse.Run
import Lox.Proofs.Grammar.Loops
import Lox.Proofs.Number.Text

namespace Lox

/-! ## Scanning -/

/-- Behind a number a semicolon starts a token of its own. -/
theorem Piece.at_number {x : Float} {c : Char} {text : List Char}
    (lexeme : Lexeme (.number x) (c :: text)) (rest : List Char) :
    Piece.at c (text ++ ';' :: rest) = ⟨.token (.number x), text, ';' :: rest⟩ := by
  have stop : (';' :: rest).takeWhile Char.isDigit = [] ∧
    (';' :: rest).dropWhile Char.isDigit = ';' :: rest := ⟨rfl, rfl⟩
  cases lexeme with
  | operator listed => simp [operators] at listed
  | keyword listed => simp [Kind.reserved] at listed
  | integer starts all =>
    have all : ∀ d ∈ text, d.isDigit := fun d mem => isDigit_iff.2 (all d mem)
    rw [at_digit starts]
    rcases number_cases c (text ++ ';' :: rest) with ⟨d, more, left, -, -⟩ | ⟨-, read⟩
    · rw [List.dropWhile_append_of_pos all, stop.2] at left
      cases left
    · rw [read, List.takeWhile_append_of_pos all, List.dropWhile_append_of_pos all, stop.1, stop.2,
        List.append_nil]
  | @decimal _ d digits more starts all fraction =>
    have all : ∀ d ∈ digits, d.isDigit := fun d mem => isDigit_iff.2 (all d mem)
    have digit : d.isDigit := isDigit_iff.2 (fraction d (List.mem_cons_self ..))
    have inside : ∀ e ∈ more, e.isDigit := fun e mem =>
      isDigit_iff.2 (fraction e (List.mem_cons_of_mem _ mem))
    have taken : (digits ++ '.' :: d :: more ++ ';' :: rest).takeWhile Char.isDigit = digits := by
      rw [List.append_assoc, List.takeWhile_append_of_pos all, List.cons_append,
        List.takeWhile_cons_of_neg (by decide), List.append_nil]
    have left : (digits ++ '.' :: d :: more ++ ';' :: rest).dropWhile Char.isDigit =
        '.' :: d :: (more ++ ';' :: rest) := by
      rw [List.append_assoc, List.dropWhile_append_of_pos all, List.cons_append,
        List.dropWhile_cons_of_neg (by decide), List.cons_append]
    rw [at_digit starts]
    rcases number_cases c (digits ++ '.' :: d :: more ++ ';' :: rest) with
      ⟨d', more', found, -, read⟩ | ⟨whole, -⟩
    · rw [left] at found
      cases found
      rw [read, taken, List.takeWhile_append_of_pos inside, List.dropWhile_append_of_pos inside,
        stop.1, stop.2, List.append_nil]
    · rw [whole d _ left] at digit
      cases digit

theorem scanAfter_semicolon (line : Nat) : scanAfter [] line [';'] =
    [.token ⟨.semicolon, ";", line⟩, .token (.endOn line)] := by
  rw [scanAfter_eq, show (Piece.at ';' []).rest = [] from rfl, scanAfter]
  rfl

theorem scanAfter_minus (line : Nat) (text : List Char) :
    scanAfter [] line ('-' :: text) = .token ⟨.minus, "-", line⟩ :: scanAfter [] line text := by
  rw [scanAfter_eq]
  rfl

/-- A number and the semicolon behind it are two tokens. -/
theorem scanAfter_number {x : Float} {text : List Char} (lexeme : Lexeme (.number x) text)
    (line : Nat) : ∃ line', scanAfter [] line (text ++ [';']) =
      [.token ⟨.number x, String.ofList text, line'⟩, .token ⟨.semicolon, ";", line'⟩,
        .token (.endOn line')] := by
  obtain ⟨c, text, rfl⟩ := List.exists_cons_of_ne_nil lexeme.ne_nil
  refine ⟨(Piece.at c (text ++ [';'])).endLine c line, ?_⟩
  rw [List.cons_append, scanAfter_eq]
  generalize (Piece.at c (text ++ [';'])).endLine c line = line'
  rw [Piece.at_number lexeme, scanAfter_semicolon]
  rfl

/-! ## Parsing -/

namespace Grammar

open Parse

/-- An operand as an expression without infix operators. -/
def orOfUnary (e : Derivation (.expression .unary)) : Derivation (.expression (.binary .or)) :=
  .binaryOfOperand .or <| .binaryOfOperand .and <| .binaryOfOperand .equality <|
    .binaryOfOperand .comparison <| .binaryOfOperand .term <| .binaryOfOperand .factor e

/-- An operand as a statement. -/
def operandStatement (e : Derivation (.expression .unary)) (semicolon : Terminal .semicolon) :
    Derivation .statement :=
  .statementOfExpression (.expressionStatement (.assignmentOfOr (orOfUnary e)) semicolon)

/-- A number as an operand. -/
def numberOperand (x : Float) (lexeme : String) (line : Nat) : Derivation (.expression .unary) :=
  .unaryOfCall (.callOfPrimary (.literal ⟨.number x, lexeme, line⟩ (.number x) rfl))

/-- The parser makes an expression statement of an operand. -/
theorem program_operand {e : Derivation (.expression .unary)} (bounded : e.Bounded)
    (semicolon : Terminal .semicolon) {eof : Token} (ends : eof.kind = .eof) (n : Nat) :
    (program n (e.tokens ++ [semicolon.1, eof])).program = .ok [.expression (e.tree n).1] := by
  have parsed := program_statement (s := operandStatement e semicolon) bounded trivial ends n
  have tokens : (operandStatement e semicolon).tokens = e.tokens ++ [semicolon.1] := rfl
  rw [tokens, List.append_assoc] at parsed
  exact congrArg Parsed.program parsed

end Grammar

/-! ## Reading back -/

theorem readable_valueNumber : Number.Readable valueNumber :=
  ⟨fun _ => rfl, rfl, .inl rfl, .inl rfl⟩

/-- The text is a program of one expression statement, whatever ids are used up; and the expression
has the value in every state of a program, which it leaves as it is. -/
def ReadsAs (source : String) (v : Value) : Prop :=
  Item.errors (scan source) = [] ∧ ∀ n, ∃ e,
    (Parse.program n (Item.tokens (scan source))).program = .ok [.expression e] ∧
      ∀ it : Interpreter, ∃ fuel, it.evaluate fuel e = some (.ok v, it)

/-- A number reads as itself. -/
theorem readsAs_number {source : String} {x : Float} {body : List Char}
    (lexeme : Lexeme (.number x) body) (chars : source.toList = body ++ [';']) :
    ReadsAs source (.number x) := by
  obtain ⟨line, items⟩ := scanAfter_number lexeme 1
  unfold ReadsAs scan
  rw [chars, items]
  refine ⟨rfl, fun n => ⟨.literal (.number x), ?_, fun it => ⟨2, rfl⟩⟩⟩
  exact Grammar.program_operand (e := Grammar.numberOperand x (String.ofList body) line) trivial
    ⟨⟨.semicolon, ";", line⟩, rfl⟩ rfl n

/-- A number behind a minus sign reads as the negated number. -/
theorem readsAs_minus {source : String} {x : Float} {body : List Char}
    (lexeme : Lexeme (.number x) body) (chars : source.toList = '-' :: (body ++ [';'])) :
    ReadsAs source (.number (-x)) := by
  obtain ⟨line, items⟩ := scanAfter_number lexeme 1
  unfold ReadsAs scan
  rw [chars, scanAfter_minus, items]
  refine ⟨rfl, fun n => ⟨.unary ⟨.minus, "-", 1⟩ (.literal (.number x)), ?_, fun it => ⟨4, rfl⟩⟩⟩
  exact Grammar.program_operand
    (e := .prefixed ⟨⟨.minus, "-", 1⟩, .inr rfl⟩
      (Grammar.numberOperand x (String.ofList body) line))
    trivial ⟨⟨.semicolon, ";", line⟩, rfl⟩ rfl n

/-- What a program prints for a finite number reads as the number, bit for bit. -/
theorem numbers_read_back (x : Float) (finite : x.isFinite) (h : Heap) :
    ReadsAs (h.text (.number x) ++ ";") (.number x) := by
  obtain ⟨negative, m, e, spelt⟩ := Number.spelt_of_isFinite finite
  obtain ⟨body, lexeme, text⟩ := Number.lexeme_text readable_valueNumber spelt
  have chars : (h.text (.number x) ++ ";").toList =
      (if negative then ['-'] else []) ++ body ++ [';'] := by
    rw [String.toList_append, ← text]
    rfl
  rw [spelt.value]
  rw [spelt.value] at chars
  cases negative with
  | false => exact readsAs_number lexeme chars
  | true => exact readsAs_minus lexeme chars

/-- The subnormal next to zero is printed with all its places, and read back with its sign; and so is
the number next to `10 ^ 15` with its one place. -/
theorem numbers_read_back_subnormal :
    let least := Float.ofBits 0x8000000000000001
    let large := Float.ofBits 0x430C6BF526340001
    let places := "-0." ++ String.ofList (.replicate 323 '0') ++ "5"
    (least.isFinite ∧ large.isFinite) ∧
      Heap.empty.text (.number least) = places ∧ ReadsAs (places ++ ";") (.number least) ∧
      Heap.empty.text (.number large) = "1000000000000000.1" ∧
      ReadsAs "1000000000000000.1;" (.number large) := by
  intro least large places
  have finite : least.isFinite ∧ large.isFinite := by decide +kernel
  have text : Heap.empty.text (.number least) = places := by decide +kernel
  have text' : Heap.empty.text (.number large) = "1000000000000000.1" := by decide +kernel
  have reads := numbers_read_back least finite.1 Heap.empty
  have reads' := numbers_read_back large finite.2 Heap.empty
  rw [text] at reads
  rw [text'] at reads'
  exact ⟨finite, text, reads, text', reads'⟩

end Lox
