/-
Loops written out. A `for` loop stands for a `while` loop in blocks, which can be written in its place
(`Loop.whileForm`). There the step stands behind the body, so the parser draws the ids of the two in
the other order; but for that exchange both are parsed to the same tree (`Loop.map_tree`).
-/
import Lox.Proofs.Grammar.Mapped
import Lox.Proofs.Grammar.Shift
import Lox.Proofs.Token.Lexemes
import Mathlib.Logic.Function.Basic
import Mathlib.Tactic.SplitIfs

namespace Lox

namespace Grammar

open Parse

/-! ## Two ways to write a loop -/

/-- The parts of a `for` loop. -/
structure Loop where
  keyword : Terminal .for
  opening : Terminal .leftParen
  initializer : Derivation .initializer
  test : Derivation .optional
  semicolon : Terminal .semicolon
  step : Derivation .optional
  closing : Terminal .rightParen
  body : Derivation .statement

/-- The tokens between braces. -/
def braced (ts : List Token) : List Token :=
  ⟨.leftBrace, "\x7b", 1⟩ :: ts ++ [⟨.rightBrace, "\x7d", 1⟩]

namespace Loop

variable (l : Loop)

/-- The loop as a statement. -/
def statement : Derivation .statement :=
  .forLoop l.keyword l.opening l.initializer l.test l.semicolon l.step l.closing l.body

/-- The loop is a way to read the tokens: none of its lists is too long, and every `else` belongs to
the nearest `if`. -/
structure Reads (ts : List Token) : Prop where
  tokens : l.statement.tokens = ts
  bounded : l.statement.Bounded
  nearest : l.statement.Nearest []

/-- The condition of the `while` loop: without a test, `true`. -/
def condition : List Token :=
  match l.test with
  | .absent => [⟨.true, "true", 1⟩]
  | .present test => test.tokens

/-- What the `while` loop repeats: with a step, a block of the body and the step. -/
def repeated : List Token :=
  match l.step with
  | .absent => l.body.tokens
  | .present step => braced (l.body.tokens ++ step.tokens ++ [⟨.semicolon, ";", 1⟩])

/-- The `while` loop. -/
def whileLoop : List Token :=
  ⟨.while, "while", 1⟩ :: ⟨.leftParen, "(", 1⟩ :: l.condition ++ ⟨.rightParen, ")", 1⟩ :: l.repeated

/-- The loop written out: with an initializer, a block of the initializer and the `while` loop. -/
def whileForm : List Token :=
  match l.initializer with
  | .noInitializer _ => l.whileLoop
  | .variableInitializer v => braced (v.tokens ++ l.whileLoop)
  | .expressionInitializer e => braced (e.tokens ++ l.whileLoop)

end Loop

/-! ## The loop written out -/

/-- A token of a loop that is written out. -/
def written (kind : Kind) (lexeme : String) : Terminal kind := ⟨⟨kind, lexeme, 1⟩, rfl⟩

/-- A constant as a whole expression. -/
def constant (t : Token) (l : Literal) (h : literal? t.kind = some l) :
    Derivation (.expression .assignment) :=
  .assignmentOfOr (orOfCall (.callOfPrimary (.literal t l h)))

/-- A block of two. -/
def pair (first : Derivation .declaration) (second : Derivation .statement) :
    Derivation .statement :=
  .statementOfBlock <| .block (written .leftBrace "\x7b")
    (.declarations first (.declarations (.declarationOfStatement second) .noDeclarations))
    (written .rightBrace "\x7d")

namespace Loop

variable (l : Loop)

def conditionDerivation : Derivation (.expression .assignment) :=
  match l.test with
  | .absent => constant ⟨.true, "true", 1⟩ (.bool true) rfl
  | .present test => test

def repeatedDerivation : Derivation .statement :=
  match l.step with
  | .absent => l.body
  | .present step =>
    pair (.declarationOfStatement l.body)
      (.statementOfExpression (.expressionStatement step (written .semicolon ";")))

def whileDerivation : Derivation .statement :=
  .while (written .while "while") (written .leftParen "(") l.conditionDerivation
    (written .rightParen ")") l.repeatedDerivation

/-- How the loop is derived that is written out. -/
def writtenOut : Derivation .statement :=
  match l.initializer with
  | .noInitializer _ => l.whileDerivation
  | .variableInitializer v => pair (.declarationOfVariable v) l.whileDerivation
  | .expressionInitializer e =>
    pair (.declarationOfStatement (.statementOfExpression e)) l.whileDerivation

theorem tokens_writtenOut : l.writtenOut.tokens = l.whileForm := by
  obtain ⟨keyword, opening, initializer, test, semicolon, step, closing, body⟩ := l
  cases initializer <;> cases test <;> cases step <;>
    simp [writtenOut, whileForm, whileDerivation, whileLoop, conditionDerivation, condition,
      repeatedDerivation, repeated, pair, braced, written, constant, orOfCall]

/-- Written out, the loop has the tree of a `for` loop, but with the step read behind the body. -/
theorem tree_writtenOut (n : Nat) :
    let i := l.initializer.tree n
    let t := l.test.tree i.2
    let b := l.body.tree t.2
    let s := l.step.tree b.2
    l.writtenOut.tree n = (forLoop i.1 t.1 s.1 b.1, s.2) := by
  obtain ⟨keyword, opening, initializer, test, semicolon, step, closing, body⟩ := l
  cases initializer <;> cases test <;> cases step <;>
    simp [writtenOut, whileDerivation, conditionDerivation, repeatedDerivation, pair, constant,
      orOfCall, forLoop]

variable {l}

theorem bounded_writtenOut (h : l.statement.Bounded) : l.writtenOut.Bounded := by
  obtain ⟨keyword, opening, initializer, test, semicolon, step, closing, body⟩ := l
  obtain ⟨hi, ht, hs, hb⟩ := h
  cases initializer <;> cases test <;> cases step <;>
    simp_all [writtenOut, whileDerivation, conditionDerivation, repeatedDerivation, pair, constant,
      orOfCall]

/-- In a block, too, no `else` stands behind the body. -/
theorem nearest_repeated (h : l.body.Nearest []) {after : List Token}
    (next : firstKind after ≠ .else) : l.repeatedDerivation.Nearest after := by
  unfold repeatedDerivation
  cases l.step with
  | absent => exact Derivation.nearest_congr h fun he => absurd he next
  | present step =>
    refine ⟨Derivation.nearest_congr h fun he => absurd he ?_, trivial, trivial⟩
    -- the step starts as an expression does
    have first := starts_tokens step
    simp only [Derivation.tokens, List.append_assoc]
    exact firstKind_ne (first _) rfl

theorem nearest_writtenOut (h : l.statement.Nearest []) : l.writtenOut.Nearest [] := by
  have body : l.body.Nearest [] := h
  unfold writtenOut
  cases l.initializer with
  | noInitializer semicolon => exact nearest_repeated body (by decide)
  | variableInitializer v => exact ⟨trivial, nearest_repeated body (by decide), trivial⟩
  | expressionInitializer e => exact ⟨trivial, nearest_repeated body (by decide), trivial⟩

end Loop

/-! ## Ids in another order -/

/-- Exchanges the `a` numbers from `n` on with the `b` numbers behind them. -/
def exchange (n a b i : Nat) : Nat :=
  if i < n then i else if i < n + a then i + b else if i < n + a + b then i - a else i

section

variable (n a b : Nat)

theorem exchange_exchange (i : Nat) : exchange n b a (exchange n a b i) = i := by
  unfold exchange
  split_ifs <;> omega

theorem bijective_exchange : (exchange n a b).Bijective :=
  Function.bijective_iff_has_inverse.2
    ⟨exchange n b a, exchange_exchange n a b, exchange_exchange n b a⟩

variable {n a b} {i : Nat}

theorem exchange_of_lt (h : i < n) : exchange n a b i = i := if_pos h

theorem exchange_first (h : i < a) : exchange n a b (i + n) = i + (n + b) := by
  unfold exchange
  split_ifs <;> omega

theorem exchange_second (h : i < b) : exchange n a b (i + (n + a)) = i + n := by
  unfold exchange
  split_ifs <;> omega

theorem exchange_of_le (h : n + a + b ≤ i) : exchange n a b i = i := by
  unfold exchange
  split_ifs <;> omega

end

namespace Loop

variable (l : Loop)

/-- From the ids of the loop, counted from `n`, to those of the loop written out. -/
def ids (n : Nat) : Nat → Nat :=
  exchange (n + l.initializer.drawn + l.test.drawn) l.step.drawn l.body.drawn

/-- The next free id behind the loop. -/
theorem tree_snd (n : Nat) : (l.statement.tree n).2 =
    n + l.initializer.drawn + l.test.drawn + l.step.drawn + l.body.drawn := by
  simp only [statement, Derivation.tree, Derivation.tree_snd]

/-- Written out, the loop has the same tree with other ids, and uses up as many. -/
theorem map_tree (n : Nat) : l.writtenOut.tree n =
    ((l.statement.tree n).1.map (l.ids n) id, (l.statement.tree n).2) := by
  rw [tree_writtenOut, tree_snd]
  simp only [statement, Derivation.tree, Derivation.tree_snd, map_forLoop]
  have initializer := l.initializer.map_tree (l.ids n) (n := n) (m := n) fun i hi =>
    exchange_of_lt (by omega)
  have test := l.test.map_tree (l.ids n) (n := n + l.initializer.drawn)
    (m := n + l.initializer.drawn) fun i hi => exchange_of_lt (by omega)
  have step := l.step.map_tree (l.ids n) fun i hi => exchange_first hi
  have body := l.body.map_tree (l.ids n) fun i hi => exchange_second hi
  simp only [Phrase.map] at initializer test step body
  rw [initializer, test, step, body, Nat.add_right_comm _ l.body.drawn]

end Loop

/-! ## Programs that are a loop -/

/-- The statement as a program. -/
def alone (s : Derivation .statement) : Derivation .declarations :=
  .declarations (.declarationOfStatement s) .noDeclarations

theorem program_statement {s : Derivation .statement} (bounded : s.Bounded) (nearest : s.Nearest [])
    {eof : Token} (ends : eof.kind = .eof) (n : Nat) :
    program n (s.tokens ++ [eof]) = ⟨.ok [(s.tree n).1], (s.tree n).2⟩ := by
  have parsed := program_tokens (alone s) ⟨bounded, trivial⟩ ⟨nearest, trivial⟩ eof ends n
  simpa [alone] using parsed

/-- Of the statements and declarations only a `for` loop starts with its keyword. -/
theorem exists_loop_of_starts (d : Derivation .declaration) {after : List Token}
    (starts : firstKind (d.tokens ++ after) = .for) :
    ∃ l : Loop, d = .declarationOfStatement l.statement := by
  -- what stands first is the keyword of each other, or starts an expression or a block
  have other : ∀ {k : Kind}, firstKind (d.tokens ++ after) = k → k ≠ .for → False :=
    fun is ne => ne (is.symm.trans starts)
  cases d with
  | functionDeclaration keyword f => exact (other keyword.2 (by decide)).elim
  | classDeclaration keyword => exact (other keyword.2 (by decide)).elim
  | declarationOfVariable v =>
    exact (other (of_decide_eq_true (starts_tokens v after)) (by decide)).elim
  | declarationOfStatement s =>
    cases s with
    | forLoop keyword opening initializer test semicolon step closing body =>
      exact ⟨⟨keyword, opening, initializer, test, semicolon, step, closing, body⟩, rfl⟩
    | statementOfExpression e => exact (firstKind_ne (starts_tokens e after) rfl starts).elim
    | statementOfBlock b =>
      exact (other (of_decide_eq_true (starts_tokens b after)) (by decide)).elim
    | ifThen keyword | ifElse keyword | print keyword | «return» keyword | «while» keyword =>
      exact (other keyword.2 (by decide)).elim

/-- A program that is one statement and starts with the keyword is a loop. -/
theorem exists_loop {n : Nat} {ts : List Token} {eof : Token} {s : Stmt}
    (kinds : ∀ t ∈ ts, t.kind ≠ .eof) (ends : eof.kind = .eof) (starts : firstKind ts = .for)
    (parses : (program n (ts ++ [eof])).program = .ok [s]) : ∃ l : Loop, l.Reads ts := by
  obtain ⟨d, tokens, bounded, nearest, tree⟩ := exists_derivation _ n parses
  obtain rfl : d.tokens = ts := tokens.trans (takeWhile_append_eof kinds ends)
  cases d with
  | noDeclarations => cases starts
  | declarations first others =>
    obtain ⟨l, rfl⟩ := exists_loop_of_starts first starts
    cases others with
    | noDeclarations => exact ⟨l, (List.append_nil _).symm, bounded.1, nearest.1⟩
    | declarations second others => cases congrArg (List.length ∘ Prod.fst) tree

namespace Loop

variable {l : Loop} {ts : List Token} {eof : Token}

/-- The loop as a program. -/
theorem program_loop (h : l.Reads ts) (ends : eof.kind = .eof) (n : Nat) :
    program n (ts ++ [eof]) = ⟨.ok [(l.statement.tree n).1], (l.statement.tree n).2⟩ := by
  rw [← h.tokens]
  exact program_statement h.bounded h.nearest ends n

/-- The loop written out as a program. -/
theorem program_whileForm (h : l.Reads ts) (ends : eof.kind = .eof) (n : Nat) :
    program n (l.whileForm ++ [eof]) =
      ⟨.ok [(l.statement.tree n).1.map (l.ids n) id], (l.statement.tree n).2⟩ := by
  have parsed := program_statement (bounded_writtenOut h.bounded) (nearest_writtenOut h.nearest)
    ends n
  rwa [tokens_writtenOut, map_tree] at parsed

end Loop

/-! ## Tokens on other lines -/

theorem map_unlined_of_content {ts us : List Token}
    (same : us.map Token.content = ts.map Token.content) :
    us.map Token.unlined = ts.map Token.unlined := by
  have unlined : Token.unlined = (fun c => ⟨c.1, c.2, 0⟩) ∘ Token.content := rfl
  rw [unlined, ← List.map_map, same, List.map_map]

/-- No lines, and the ids as they are. -/
def unlinedShift : Shift := ⟨0, Token.unlined, Token.kind_unlined, id⟩

/-- Tokens on other lines are parsed to the same program, but for its lines. -/
theorem exists_program_of_content {n m : Nat} {ts us : List Token} {ss : List Stmt}
    (ends : ∃ t ∈ ts, t.kind = .eof) (same : us.map Token.content = ts.map Token.content)
    (parsed : program n ts = ⟨.ok ss, m⟩) : ∃ ss', program n us = ⟨.ok ss', m⟩ ∧
      Stmt.mapAll id Token.unlined ss' = Stmt.mapAll id Token.unlined ss := by
  have ends' : ∃ t ∈ us, t.kind = .eof := by
    obtain ⟨t, ht, kind⟩ := ends
    have found : t.content ∈ us.map Token.content := same ▸ List.mem_map_of_mem ht
    obtain ⟨u, hu, is⟩ := List.mem_map.1 found
    exact ⟨u, hu, (congrArg Prod.fst is).trans kind⟩
  -- without lines the two parses are one
  have parse := program_map (m := unlinedShift) n ends
  have parse' := program_map (m := unlinedShift) n ends'
  rw [show us.map unlinedShift.token = ts.map unlinedShift.token from map_unlined_of_content same,
    parse, parsed] at parse'
  generalize program n us = parsed' at parse' ⊢
  obtain ⟨result, k⟩ := parsed'
  cases result with
  | error errors => cases congrArg Parsed.program parse'
  | ok ss' =>
    obtain rfl : m = k := congrArg Parsed.nextId parse'
    have trees := congrArg Parsed.program parse'
    exact ⟨ss', rfl, (Except.ok.inj trees).symm⟩

end Grammar

end Lox
