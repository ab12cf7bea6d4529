/-
The tokens that syntax trees keep. What a tree has of a scanned source are lexemes of their kinds:
names are identifiers, a call keeps its `)`, a `return` its keyword, and a number was read from digits.
So it is for all that the grammar derives from lexemes (`spelled_tree`), and for every program that is
parsed from a source.
-/
import Lox.Proofs.Grammar.Operators
import Lox.Proofs.Token.Lexemes
import Lox.Proofs.Token.Longest

namespace Lox

/-! ## Spelled trees -/

/-- The lexeme is one of the token's kind. -/
def Token.Spelled (t : Token) : Prop := Lexeme t.kind t.lexeme.toList

/-- The token is a name. -/
def Token.Names (t : Token) : Prop := t.kind = .identifier ∧ t.Spelled

/-- A number that some source wrote, or another constant. -/
@[simp] def Literal.Spelled : Literal → Prop
  | .number x => ∃ text, Lexeme (.number x) text
  | _ => True

mutual

/-- The tokens of the expression are lexemes, each of a kind that suits its place. -/
@[simp] def Expr.Spelled : Expr → Prop
  | .literal l => l.Spelled
  | .variable _ name => name.Names
  | .group inner => inner.Spelled
  | .unary op right => op.Spelled ∧ right.Spelled
  | .binary left op right => left.Spelled ∧ op.Spelled ∧ right.Spelled
  | .logical left op right => left.Spelled ∧ op.Spelled ∧ right.Spelled
  | .assign _ name value => name.Names ∧ value.Spelled
  | .call callee paren args =>
    callee.Spelled ∧ paren.content = (.rightParen, ")") ∧ Expr.AllSpelled args
  | .get object name => object.Spelled ∧ name.Names
  | .set object name value => object.Spelled ∧ name.Names ∧ value.Spelled

@[simp] def Expr.AllSpelled : List Expr → Prop
  | [] => True
  | e :: es => e.Spelled ∧ Expr.AllSpelled es

end

/-- The tokens of the expression, if there is one, are lexemes. -/
@[simp] def Expr.Spelled? : Option Expr → Prop
  | none => True
  | some e => e.Spelled

mutual

/-- The tokens of the statement are lexemes, each of a kind that suits its place, those in functions
and methods included. -/
@[simp] def Stmt.Spelled : Stmt → Prop
  | .block body => Stmt.AllSpelled body
  | .class name methods => name.Names ∧ Stmt.MethodsSpelled methods
  | .expression e => e.Spelled
  | .function ⟨name, params, body⟩ =>
    name.Names ∧ (∀ param ∈ params, param.Names) ∧ Stmt.AllSpelled body
  | .if condition thenBranch none => condition.Spelled ∧ thenBranch.Spelled
  | .if condition thenBranch (some elseBranch) =>
    condition.Spelled ∧ thenBranch.Spelled ∧ elseBranch.Spelled
  | .print e => e.Spelled
  | .return keyword value => keyword.content = (.return, "return") ∧ Expr.Spelled? value
  | .var name initializer => name.Names ∧ Expr.Spelled? initializer
  | .while condition body => condition.Spelled ∧ body.Spelled

@[simp] def Stmt.AllSpelled : List Stmt → Prop
  | [] => True
  | s :: ss => s.Spelled ∧ Stmt.AllSpelled ss

@[simp] def Stmt.MethodsSpelled : List Function → Prop
  | [] => True
  | ⟨name, params, body⟩ :: fs =>
    (name.Names ∧ (∀ param ∈ params, param.Names) ∧ Stmt.AllSpelled body) ∧ Stmt.MethodsSpelled fs

end

theorem Stmt.allSpelled_iff {ss : List Stmt} : Stmt.AllSpelled ss ↔ ∀ s ∈ ss, s.Spelled := by
  induction ss with
  | nil => simp
  | cons s ss ih => rw [Stmt.AllSpelled, ih, List.forall_mem_cons]

/-! ## Lexemes of one text -/

theorem Token.Spelled.content_rightParen {t : Token} (spelled : t.Spelled)
    (kind : t.kind = .rightParen) : t.content = (.rightParen, ")") := by
  have lexeme : Lexeme .rightParen t.lexeme.toList := kind ▸ spelled
  have text : t.lexeme.toList = [')'] := by
    generalize t.lexeme.toList = text at lexeme
    cases lexeme with
    | operator listed => simpa [operators] using listed
    | keyword listed => simp [Kind.reserved] at listed
  exact Prod.ext kind (String.toList_inj.1 text)

theorem Token.Spelled.content_return {t : Token} (spelled : t.Spelled)
    (kind : t.kind = .return) : t.content = (.return, "return") := by
  have lexeme : Lexeme .return t.lexeme.toList := kind ▸ spelled
  have text : String.ofList t.lexeme.toList = "return" := by
    generalize t.lexeme.toList = text at lexeme
    cases lexeme with
    | operator listed => simp [operators] at listed
    | keyword listed => simpa [Kind.reserved] using listed
  rw [String.ofList_toList] at text
  exact Prod.ext kind text

/-! ## Tokens of derivations -/

namespace Grammar

open Parse

/-- The tokens in what a phrase derives are lexemes. -/
@[simp] def Phrase.Spelled : (p : Phrase) → p.Tree → Prop
  | expression _, e => Expr.Spelled e
  | arguments, es => Expr.AllSpelled es
  | optional, e => Expr.Spelled? e
  | initializer, none => True
  | initializer, some s => Stmt.Spelled s
  | varDeclaration, s => Stmt.Spelled s
  | expressionStatement, s => Stmt.Spelled s
  | statement, s => Stmt.Spelled s
  | declaration, s => Stmt.Spelled s
  | declarations, ss => Stmt.AllSpelled ss
  | block, ss => Stmt.AllSpelled ss
  | function, f => f.name.Names ∧ (∀ param ∈ f.params, param.Names) ∧ Stmt.AllSpelled f.body
  | functions, fs => Stmt.MethodsSpelled fs

theorem spelled_literal {t : Token} (spelled : t.Spelled) {l : Literal}
    (reads : literal? t.kind = some l) : l.Spelled := by
  obtain ⟨kind, lexeme, line⟩ := t
  cases kind <;> cases reads <;> first | trivial | exact ⟨_, spelled⟩

theorem spelled_join (l : Level) {left right : Expr} (hl : left.Spelled) {op : Token}
    (spelled : op.Spelled) (hr : right.Spelled) : (l.join left op right).Spelled := by
  cases l <;> exact ⟨hl, spelled, hr⟩

theorem spelled_forLoop {initializer : Option Stmt} {test step : Option Expr} {body : Stmt}
    (hi : Phrase.Spelled .initializer initializer) (ht : Expr.Spelled? test)
    (hs : Expr.Spelled? step) (hb : body.Spelled) :
    (Parse.forLoop initializer test step body).Spelled := by
  cases initializer <;> cases test <;> cases step <;> simp_all [Parse.forLoop]

theorem names_terminal (name : Terminal .identifier) (spelled : name.1.Spelled) : name.1.Names :=
  ⟨name.2, spelled⟩

theorem content_closing (paren : Terminal .rightParen) (spelled : paren.1.Spelled) :
    paren.1.content = (.rightParen, ")") :=
  spelled.content_rightParen paren.2

theorem content_keyword (keyword : Terminal .return) (spelled : keyword.1.Spelled) :
    keyword.1.content = (.return, "return") :=
  spelled.content_return keyword.2

theorem names_of_mem_parameters {params : Parameters} (spelled : ∀ t ∈ params.tokens, t.Spelled) :
    ∀ name ∈ params.names, name.Names := by
  cases params with
  | none => nofun
  | some first others =>
    intro name mem
    rcases List.mem_cons.1 mem with rfl | mem
    · exact names_terminal first (spelled _ (List.mem_cons_self ..))
    · obtain ⟨⟨comma, other⟩, listed, rfl⟩ := List.mem_map.1 mem
      refine names_terminal other (spelled _ (List.mem_cons_of_mem _ ?_))
      refine List.mem_flatMap.2 ⟨_, listed, ?_⟩
      exact List.mem_cons_of_mem _ (List.mem_singleton_self _)

/-- What is derived from lexemes keeps lexemes. -/
theorem spelled_tree {p : Phrase} (d : Derivation p) (spelled : ∀ t ∈ d.tokens, t.Spelled) (n : Nat) :
    p.Spelled (d.tree n).1 := by
  induction d generalizing n with
  | literal t l reads => exact spelled_literal (spelled t (by simp)) reads
  | prefixed op right ih =>
    exact ⟨spelled op.1 (by simp), ih (fun t mem => spelled t (by simp [mem])) n⟩
  | binary l left op right hl hr =>
    exact spelled_join l (hl (fun t mem => spelled t (by simp [mem])) n) (spelled op.1 (by simp))
      (hr (fun t mem => spelled t (by simp [mem])) _)
  | forLoop keyword opening initializer test semicolon step closing body hi ht hs hb =>
    exact spelled_forLoop (hi (fun t mem => spelled t (by simp [mem])) n)
      (ht (fun t mem => spelled t (by simp [mem])) _)
      (hs (fun t mem => spelled t (by simp [mem])) _)
      (hb (fun t mem => spelled t (by simp [mem])) _)
  | function name opening params closing body ih =>
    exact ⟨names_terminal name (spelled _ (by simp)),
      names_of_mem_parameters fun t mem => spelled t (by simp [mem]),
      ih (fun t mem => spelled t (by simp [mem])) n⟩
  | functionDeclaration keyword f ih => exact ih (fun t mem => spelled t (by simp [mem])) n
  | functions first others hf ho =>
    exact ⟨hf (fun t mem => spelled t (by simp [mem])) n,
      ho (fun t mem => spelled t (by simp [mem])) _⟩
  | _ =>
    simp only [Derivation.tokens, List.forall_mem_cons, List.forall_mem_append, List.cons_append]
      at spelled
    simp_all [names_terminal, content_closing, content_keyword]

/-- The tokens of a source are lexemes, but for its end. -/
theorem spelled_of_mem_tokens {source : String} {t : Token} (mem : t ∈ Item.tokens (scan source))
    (inner : t.kind ≠ .eof) : t.Spelled := by
  obtain ⟨c, cs, form, lexeme⟩ := exists_piece inner (Item.mem_tokens.1 mem)
  unfold Token.Spelled
  rw [lexeme, String.toList_ofList]
  exact Piece.lexeme_at form

/-- In a program that is parsed from a source, all tokens are lexemes. -/
theorem spelled_of_program {source : String} {n : Nat} {ss : List Stmt}
    (parsed : (program n (Item.tokens (scan source))).program = .ok ss) : Stmt.AllSpelled ss := by
  obtain ⟨d, tokens, -, -, tree⟩ := exists_derivation _ n parsed
  have spelled : ∀ t ∈ d.tokens, t.Spelled := by
    intro t mem
    rw [tokens] at mem
    have inner : (t.kind != .eof) = true := List.all_eq_true.1 List.all_takeWhile t mem
    exact spelled_of_mem_tokens ((List.takeWhile_prefix _).subset mem) (bne_iff_ne.1 inner)
  have spelt := spelled_tree d spelled n
  rw [tree] at spelt
  exact spelt

end Grammar

end Lox
