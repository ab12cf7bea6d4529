/-
Trees written out as tokens. Names, operators and keywords that a tree keeps are written as they
are, the rest of the notation on line 1, and a rewritten `for` as the `while` it became. For every
derivation there is one of the written tokens with the same tree, but for its ids
(`Derivation.plain`, `unparse_tree`, `anonymous_tree`); so the parser gives back every tree that the
grammar can derive.
-/
import Lox.Proofs.Grammar.Mapped
import Lox.Syntax.Text

namespace Lox

/-! ## Writing trees -/

/-- A token that no tree keeps. -/
def Token.mark (kind : Kind) (lexeme : String) : Token := ⟨kind, lexeme, 1⟩

namespace Literal

def kind : Literal → Kind
  | nil => .nil
  | bool b => if b then .true else .false
  | number x => .number x
  | string s => .string s

def token (l : Literal) : Token := .mark l.kind l.text

end Literal

mutual

@[simp] def Expr.unparse : Expr → List Token
  | .assign _ name value => name :: .mark .equal "=" :: value.unparse
  | .binary left op right => left.unparse ++ op :: right.unparse
  | .call callee paren args =>
    callee.unparse ++ .mark .leftParen "(" :: Expr.unparseAll args ++ [paren]
  | .get object name => object.unparse ++ [.mark .dot ".", name]
  | .group inner => .mark .leftParen "(" :: inner.unparse ++ [.mark .rightParen ")"]
  | .literal l => [l.token]
  | .logical left op right => left.unparse ++ op :: right.unparse
  | .set object name value =>
    object.unparse ++ .mark .dot "." :: name :: .mark .equal "=" :: value.unparse
  | .unary op right => op :: right.unparse
  | .variable _ name => [name]

/-- The expressions with commas between them. -/
@[simp] def Expr.unparseAll : List Expr → List Token
  | [] => []
  | [e] => e.unparse
  | e :: es => e.unparse ++ .mark .comma "," :: Expr.unparseAll es

end

/-- The names with commas between them. -/
def unparseNames : List Token → List Token
  | [] => []
  | name :: names => name :: names.flatMap fun name => [.mark .comma ",", name]

mutual

@[simp] def Stmt.unparse : Stmt → List Token
  | .block body =>
    .mark .leftBrace "\x7b" :: Stmt.unparseAll body ++ [.mark .rightBrace "\x7d"]
  | .class name methods =>
    .mark .class "class" :: name :: .mark .leftBrace "\x7b" :: Stmt.unparseMethods methods ++
      [.mark .rightBrace "\x7d"]
  | .expression e => e.unparse ++ [.mark .semicolon ";"]
  | .function ⟨name, params, body⟩ =>
    .mark .fun "fun" :: name :: .mark .leftParen "(" :: unparseNames params ++
      .mark .rightParen ")" :: .mark .leftBrace "\x7b" :: Stmt.unparseAll body ++
      [.mark .rightBrace "\x7d"]
  | .if condition thenBranch none =>
    .mark .if "if" :: .mark .leftParen "(" :: condition.unparse ++
      .mark .rightParen ")" :: thenBranch.unparse
  | .if condition thenBranch (some elseBranch) =>
    .mark .if "if" :: .mark .leftParen "(" :: condition.unparse ++
      .mark .rightParen ")" :: thenBranch.unparse ++ .mark .else "else" :: elseBranch.unparse
  | .print e => .mark .print "print" :: e.unparse ++ [.mark .semicolon ";"]
  | .return keyword none => [keyword, .mark .semicolon ";"]
  | .return keyword (some value) => keyword :: value.unparse ++ [.mark .semicolon ";"]
  | .var name none => [.mark .var "var", name, .mark .semicolon ";"]
  | .var name (some value) =>
    .mark .var "var" :: name :: .mark .equal "=" :: value.unparse ++ [.mark .semicolon ";"]
  | .while condition body =>
    .mark .while "while" :: .mark .leftParen "(" :: condition.unparse ++
      .mark .rightParen ")" :: body.unparse

@[simp] def Stmt.unparseAll : List Stmt → List Token
  | [] => []
  | s :: ss => s.unparse ++ Stmt.unparseAll ss

@[simp] def Stmt.unparseMethods : List Function → List Token
  | [] => []
  | ⟨name, params, body⟩ :: methods =>
    name :: .mark .leftParen "(" :: unparseNames params ++ .mark .rightParen ")" ::
      .mark .leftBrace "\x7b" :: Stmt.unparseAll body ++ [.mark .rightBrace "\x7d"] ++
      Stmt.unparseMethods methods

end

/-! ## Ids are not written -/

section

variable (ids : Nat → Nat)

mutual

theorem Expr.unparse_map : ∀ e : Expr, (e.map ids id).unparse = e.unparse
  | .assign id name value => by simp [unparse_map value]
  | .binary left op right => by simp [unparse_map left, unparse_map right]
  | .call callee paren args => by simp [unparse_map callee, unparseAll_map args]
  | .get object name => by simp [unparse_map object]
  | .group inner => by simp [unparse_map inner]
  | .literal l => rfl
  | .logical left op right => by simp [unparse_map left, unparse_map right]
  | .set object name value => by simp [unparse_map object, unparse_map value]
  | .unary op right => by simp [unparse_map right]
  | .variable id name => rfl

theorem Expr.unparseAll_map : ∀ es : List Expr,
    Expr.unparseAll (Expr.mapAll ids id es) = Expr.unparseAll es
  | [] => rfl
  | [e] => by simp [unparse_map e]
  | e :: e' :: es => by
    have := unparseAll_map (e' :: es)
    simp_all [unparse_map e]

end

mutual

theorem Stmt.unparse_map : ∀ s : Stmt, (s.map ids id).unparse = s.unparse
  | .block body => by simp [unparseAll_map body]
  | .class name methods => by simp [unparseMethods_map methods]
  | .expression e => by simp [e.unparse_map]
  | .function ⟨name, params, body⟩ => by simp [unparseAll_map body]
  | .if condition thenBranch none => by simp [condition.unparse_map, unparse_map thenBranch]
  | .if condition thenBranch (some elseBranch) => by
    simp [condition.unparse_map, unparse_map thenBranch, unparse_map elseBranch]
  | .print e => by simp [e.unparse_map]
  | .return keyword none => rfl
  | .return keyword (some value) => by simp [value.unparse_map]
  | .var name none => rfl
  | .var name (some value) => by simp [value.unparse_map]
  | .while condition body => by simp [condition.unparse_map, unparse_map body]

theorem Stmt.unparseAll_map : ∀ ss : List Stmt,
    Stmt.unparseAll (Stmt.mapAll ids id ss) = Stmt.unparseAll ss
  | [] => rfl
  | s :: ss => by simp [unparse_map s, unparseAll_map ss]

theorem Stmt.unparseMethods_map : ∀ fs : List Function,
    Stmt.unparseMethods (Stmt.mapMethods ids id fs) = Stmt.unparseMethods fs
  | [] => rfl
  | ⟨name, params, body⟩ :: fs => by simp [unparseAll_map body, unparseMethods_map fs]

end

end

namespace Grammar

open Parse

/-- Writes out what a phrase derives. -/
@[simp] def Phrase.unparse : (p : Phrase) → p.Tree → List Token
  | expression _, e => Expr.unparse e
  | arguments, es => Expr.unparseAll es
  | optional, none => []
  | optional, some e => Expr.unparse e
  | initializer, none => [.mark .semicolon ";"]
  | initializer, some s => Stmt.unparse s
  | varDeclaration, s => Stmt.unparse s
  | expressionStatement, s => Stmt.unparse s
  | statement, s => Stmt.unparse s
  | declaration, s => Stmt.unparse s
  | declarations, ss => Stmt.unparseAll ss
  | block, ss => .mark .leftBrace "\x7b" :: Stmt.unparseAll ss ++ [.mark .rightBrace "\x7d"]
  | function, f => Stmt.unparseMethods [f]
  | functions, fs => Stmt.unparseMethods fs

/-! ## Derivations of what is written -/

/-- The token of a kind as it is written. -/
def mark (kind : Kind) (lexeme : String) : Terminal kind := ⟨.mark kind lexeme, rfl⟩

theorem literal?_kind (l : Literal) : literal? l.kind = some l := by
  cases l with
  | bool b => cases b <;> rfl
  | _ => rfl

def Parameters.plain : Parameters → Parameters
  | none => none
  | some first others => some first (others.map fun (_, name) => (mark .comma ",", name))

namespace Derivation

/-- The test of a loop, which goes on without one. -/
@[simp] def loopTest : Derivation .optional → Derivation (.expression .assignment)
  | absent =>
    assignmentOfOr <| orOfCall <| callOfPrimary <|
      literal (Literal.bool true).token (.bool true) rfl
  | present e => e

/-- The statements between braces. -/
@[simp] def braces (body : Derivation .declarations) : Derivation .block :=
  block (mark .leftBrace "\x7b") body (mark .rightBrace "\x7d")

/-- The body of a loop with the step behind it. -/
@[simp] def loopBody (body : Derivation .statement) : Derivation .optional → Derivation .statement
  | absent => body
  | present e =>
    statementOfBlock <| braces <| declarations (declarationOfStatement body) <|
      declarations
        (declarationOfStatement (statementOfExpression (expressionStatement e (mark .semicolon ";"))))
        noDeclarations

/-- The loop with the initializer in front of it. -/
@[simp] def withInitializer (loop : Derivation .statement) :
    Derivation .initializer → Derivation .statement
  | noInitializer _ => loop
  | variableInitializer v =>
    statementOfBlock <| braces <| declarations (declarationOfVariable v) <|
      declarations (declarationOfStatement loop) noDeclarations
  | expressionInitializer e =>
    statementOfBlock <| braces <| declarations (declarationOfStatement (statementOfExpression e)) <|
      declarations (declarationOfStatement loop) noDeclarations

/-- The derivation of what is written for the derived tree. -/
@[simp] def plain : {p : Phrase} → Derivation p → Derivation p
  | _, literal _ l _ => literal l.token l (literal?_kind l)
  | _, identifier name => identifier name
  | _, group _ inner _ => group (mark .leftParen "(") inner.plain (mark .rightParen ")")
  | _, callOfPrimary e => callOfPrimary e.plain
  | _, callNone callee _ closing => callNone callee.plain (mark .leftParen "(") closing
  | _, callSome callee _ args closing =>
    callSome callee.plain (mark .leftParen "(") args.plain closing
  | _, get object _ name => get object.plain (mark .dot ".") name
  | _, unaryOfCall e => unaryOfCall e.plain
  | _, prefixed op right => prefixed op right.plain
  | _, binaryOfOperand l e => binaryOfOperand l e.plain
  | _, binary l left op right => binary l left.plain op right.plain
  | _, assignmentOfOr e => assignmentOfOr e.plain
  | _, assign name _ value => assign name (mark .equal "=") value.plain
  | _, set object _ name _ value =>
    set object.plain (mark .dot ".") name (mark .equal "=") value.plain
  | _, lastArgument e => lastArgument e.plain
  | _, argument e _ others => argument e.plain (mark .comma ",") others.plain
  | _, absent => absent
  | _, present e => present e.plain
  | _, uninitialized _ name _ => uninitialized (mark .var "var") name (mark .semicolon ";")
  | _, initialized _ name _ value _ =>
    initialized (mark .var "var") name (mark .equal "=") value.plain (mark .semicolon ";")
  | _, expressionStatement e _ => expressionStatement e.plain (mark .semicolon ";")
  | _, noInitializer _ => noInitializer (mark .semicolon ";")
  | _, variableInitializer v => variableInitializer v.plain
  | _, expressionInitializer e => expressionInitializer e.plain
  | _, statementOfExpression e => statementOfExpression e.plain
  | _, forLoop _ _ initializer test _ step _ body =>
    withInitializer
      (.while (mark .while "while") (mark .leftParen "(") test.plain.loopTest
        (mark .rightParen ")") (body.plain.loopBody step.plain))
      initializer.plain
  | _, ifThen _ _ test _ thenBranch =>
    ifThen (mark .if "if") (mark .leftParen "(") test.plain (mark .rightParen ")") thenBranch.plain
  | _, ifElse _ _ test _ thenBranch _ elseBranch =>
    ifElse (mark .if "if") (mark .leftParen "(") test.plain (mark .rightParen ")") thenBranch.plain
      (mark .else "else") elseBranch.plain
  | _, print _ e _ => print (mark .print "print") e.plain (mark .semicolon ";")
  | _, .return keyword value _ => .return keyword value.plain (mark .semicolon ";")
  | _, .while _ _ test _ body =>
    .while (mark .while "while") (mark .leftParen "(") test.plain (mark .rightParen ")") body.plain
  | _, statementOfBlock b => statementOfBlock b.plain
  | _, block _ body _ => braces body.plain
  | _, noDeclarations => noDeclarations
  | _, declarations first others => declarations first.plain others.plain
  | _, declarationOfStatement s => declarationOfStatement s.plain
  | _, declarationOfVariable v => declarationOfVariable v.plain
  | _, functionDeclaration _ f => functionDeclaration (mark .fun "fun") f.plain
  | _, classDeclaration _ name _ methods _ =>
    classDeclaration (mark .class "class") name (mark .leftBrace "\x7b") methods.plain
      (mark .rightBrace "\x7d")
  | _, function name _ params _ body =>
    function name (mark .leftParen "(") params.plain (mark .rightParen ")") body.plain
  | _, noFunctions => noFunctions
  | _, functions first others => functions first.plain others.plain

theorem unparse_join (l : Level) (left : Expr) (op : Token) (right : Expr) :
    (l.join left op right).unparse = left.unparse ++ op :: right.unparse := by
  cases l <;> rfl

/-- The arguments of a call are not none. -/
theorem unparseAll_cons (e : Expr) {args : Derivation .arguments} (n : Nat) :
    Expr.unparseAll (e :: (args.tree n).1) =
      e.unparse ++ .mark .comma "," :: Expr.unparseAll (args.tree n).1 := by
  cases args <;> simp

theorem unparse_names (params : Parameters) : unparseNames params.names = params.plain.tokens := by
  cases params with
  | none => rfl
  | some first others =>
    simp only [Parameters.names, unparseNames, Parameters.plain, Parameters.tokens,
      List.flatMap_map]
    rfl

/-- What is written for the tree of a derivation are the tokens of its plain form. -/
theorem unparse_tree {p : Phrase} (d : Derivation p) (n : Nat) :
    p.unparse (d.tree n).1 = d.plain.tokens := by
  induction d generalizing n with
  | forLoop keyword opening initializer test semicolon step closing body hi ht hs hb =>
    cases initializer <;> cases test <;> cases step <;> simp_all [mark, Parse.forLoop, orOfCall]
  | argument e comma others he ho => simp_all [mark, unparseAll_cons]
  | function name opening params closing body hb => simp_all [mark, unparse_names]
  | «return» keyword value semicolon ih => cases value <;> simp_all [mark]
  | _ => simp_all [mark, unparse_join]

theorem names_plain (params : Parameters) : params.plain.names = params.names := by
  cases params <;> simp [Parameters.plain, Parameters.names]

theorem arity_plain {p : Phrase} (d : Derivation p) : d.plain.arity = d.arity := by
  induction d with
  | forLoop keyword opening initializer test semicolon step closing body =>
    cases initializer <;> cases step <;> rfl
  | _ => simp_all

theorem bounded_plain {p : Phrase} (d : Derivation p) (h : d.Bounded) : d.plain.Bounded := by
  induction d with
  | forLoop keyword opening initializer test semicolon step closing body hi ht hs hb =>
    cases initializer <;> cases test <;> cases step <;> simp_all [orOfCall]
  | _ => simp_all [arity_plain, names_plain]

/-- No declaration starts with an `else`. -/
theorem firstKind_declaration_ne (d : Derivation .declaration) (rest : List Token) :
    firstKind (d.tokens ++ rest) ≠ .else := by
  intro h
  have first := starts_tokens d rest
  rw [h] at first
  cases first

theorem nearest_loopBody {body : Derivation .statement} {after : List Token}
    (hb : ∀ ts, (firstKind ts = .else → firstKind after = .else) → body.Nearest ts)
    (step : Derivation .optional) : (body.loopBody step).Nearest after := by
  cases step with
  | absent => exact hb after id
  | present e =>
    refine ⟨hb _ fun h => ?_, trivial, trivial⟩
    simp only [tokens, List.append_assoc] at h
    exact absurd h (firstKind_ne (starts_tokens e _) rfl)

theorem nearest_withInitializer {loop : Derivation .statement} {after : List Token}
    (hl : ∀ ts, (firstKind ts = .else → firstKind after = .else) → loop.Nearest ts)
    (initializer : Derivation .initializer) : (loop.withInitializer initializer).Nearest after := by
  cases initializer with
  | noInitializer semicolon => exact hl after id
  | variableInitializer v | expressionInitializer e =>
    exact ⟨trivial, hl _ (fun h => by cases h), trivial⟩

/-- Only whether an `else` follows matters, and what is written for a declaration does not start
with one. -/
theorem nearest_plain {p : Phrase} (d : Derivation p) {after after' : List Token}
    (h : d.Nearest after) (h' : firstKind after' = .else → firstKind after = .else) :
    d.plain.Nearest after' := by
  induction d generalizing after after' with
  | ifThen keyword opening test closing thenBranch ht hb =>
    have last : firstKind after ≠ .else := (firstKind_ne_iff (by decide)).2 h.2
    exact ⟨hb h.1 h', (firstKind_ne_iff (by decide)).1 fun he => last (h' he)⟩
  | ifElse keyword opening test closing thenBranch otherwise elseBranch hc ht he =>
    exact ⟨ht h.1 fun _ => otherwise.2, he h.2 h'⟩
  | «while» keyword opening test closing body hc hb => exact hb h h'
  | forLoop keyword opening initializer test semicolon step closing body hi ht hs hb =>
    -- the loop is wrapped in blocks, and what closes them is no `else`
    have body' : ∀ ts, (firstKind ts = .else → firstKind after' = .else) →
        (body.plain.loopBody step.plain).Nearest ts := fun ts hts =>
      nearest_loopBody (fun us hus => hb h fun he => h' (hts (hus he))) _
    exact @nearest_withInitializer (.while _ _ _ _ _) _ body' initializer.plain
  | block opening body closing ih => exact ih h fun he => by cases he
  | classDeclaration keyword name opening methods closing ih => exact ih h fun he => by cases he
  | statementOfBlock d ih | declarationOfStatement d ih | functionDeclaration keyword d ih
  | function name opening params closing d ih => exact ih h h'
  | declarations first others hf ho =>
    refine ⟨hf h.1 fun he => ?_, ho h.2 h'⟩
    cases others with
    | noDeclarations => exact h' he
    | declarations second others =>
      simp only [plain, tokens, List.append_assoc] at he
      exact absurd he (firstKind_declaration_ne _ _)
  | functions first others hf ho =>
    refine ⟨hf h.1 fun he => ?_, ho h.2 h'⟩
    cases others with
    | noFunctions => exact h' he
    | functions second others =>
      cases second with
      | function name opening params closing body =>
        simp [firstKind, name.2] at he
  | _ => trivial

/-! ## Trees without ids -/

/-- The tree of a derivation with all ids equal. -/
def shape {p : Phrase} (d : Derivation p) : p.Tree := p.map (fun _ => 0) id (d.tree 0).1

/-- The plain form of a loop derives the loop that it stands for. -/
theorem tree_withInitializer (initializer : Derivation .initializer)
    (test step : Derivation .optional) (body : Derivation .statement) (n : Nat) :
    ∃ a b c d, ((withInitializer (.while (mark .while "while") (mark .leftParen "(") test.loopTest
        (mark .rightParen ")") (body.loopBody step)) initializer).tree n).1 =
      Parse.forLoop (initializer.tree a).1 (test.tree b).1 (step.tree c).1 (body.tree d).1 := by
  let b := (initializer.tree n).2
  let d := (test.loopTest.tree b).2
  refine ⟨n, b, (body.tree d).2, d, ?_⟩
  cases initializer <;> cases test <;> cases step <;> rfl

/-- The ids apart, the tree of a derivation and that of its plain form are one. -/
theorem anonymous_tree {p : Phrase} (d : Derivation p) :
    (∀ n, p.map (fun _ => 0) id (d.tree n).1 = d.shape) ∧
      ∀ n, p.map (fun _ => 0) id (d.plain.tree n).1 = d.shape := by
  induction d with
  | forLoop keyword opening initializer test semicolon step closing body hi ht hs hb =>
    constructor
    · intro n
      rw [shape]
      simp_all [map_forLoop]
    · intro n
      obtain ⟨a, b, c, d, h⟩ :=
        tree_withInitializer initializer.plain test.plain step.plain body.plain n
      rw [shape, plain, h]
      simp_all [map_forLoop]
  | function name opening params closing body ih =>
    rw [shape]
    simp_all [FunctionOf.mapTokens, names_plain]
  | _ =>
    rw [shape]
    simp_all [map_join, FunctionOf.mapTokens]

end Derivation

/-! ## Programs written out and read -/

/-- The statements are a tree of the grammar, whatever the ids in them. -/
def Shaped (ss : List Stmt) : Prop :=
  ∃ (d : Derivation .declarations) (n : Nat), d.Bounded ∧ d.Nearest [] ∧
    Stmt.mapAll (fun _ => 0) id (d.tree n).1 = Stmt.mapAll (fun _ => 0) id ss

/-- The parser accepts the tokens of every derivation of a program in which no list is too long and
every `else` belongs to the nearest `if`, and makes its tree of them. So what is written for a tree
of the grammar is read back as that tree, with ids of its own. -/
theorem program_complete :
    (∀ (d : Derivation .declarations) (eof : Token) (n : Nat), d.Bounded → d.Nearest [] →
      eof.kind = .eof → program n (d.tokens ++ [eof]) = ⟨.ok (d.tree n).1, (d.tree n).2⟩) ∧
    ∀ (ss : List Stmt) (eof : Token) (n : Nat), Shaped ss → eof.kind = .eof →
      ∃ ss', (program n (Stmt.unparseAll ss ++ [eof])).program = .ok ss' ∧
        Stmt.mapAll (fun _ => 0) id ss' = Stmt.mapAll (fun _ => 0) id ss := by
  refine ⟨fun d eof n hb hn he => program_tokens d hb hn eof he n, ?_⟩
  rintro ss eof n ⟨d, m, hb, hn, hs⟩ he
  -- writing does not see the ids, so the tree of the derivation is written for the statements
  have written : Stmt.unparseAll ss = d.plain.tokens := by
    rw [← Stmt.unparseAll_map (fun _ => 0), ← hs, Stmt.unparseAll_map]
    exact d.unparse_tree m
  refine ⟨(d.plain.tree n).1, ?_, ?_⟩
  · rw [written, program_tokens d.plain (d.bounded_plain hb) (d.nearest_plain hn id) eof he n]
  · rw [← hs]
    exact (d.anonymous_tree.2 n).trans (d.anonymous_tree.1 m).symm

/-- `if (a) if (b) c; else d;` is read as it was derived, and read again when it is written out. -/
theorem program_complete_dangling :
    program 0 (dangling.tokens ++ [.endOn 1]) = ⟨.ok (dangling.tree 0).1, 4⟩ ∧
      ∃ ss', (program 7 (Stmt.unparseAll (dangling.tree 0).1 ++ [.endOn 1])).program = .ok ss' ∧
        Stmt.mapAll (fun _ => 0) id ss' = Stmt.mapAll (fun _ => 0) id (dangling.tree 0).1 :=
  ⟨program_complete.1 dangling (.endOn 1) 0 bounded_dangling nearest_dangling rfl,
    program_complete.2 (dangling.tree 0).1 (.endOn 1) 7
      ⟨dangling, 0, bounded_dangling, nearest_dangling, rfl⟩ rfl⟩

end Grammar

end Lox
