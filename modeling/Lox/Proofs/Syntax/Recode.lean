/-
Code as a running program sees it. A program that runs cannot tell where its tokens stand, it knows
references only by what is recorded under their ids, and it never looks into a class. A `Recoding`
replaces ids and moves tokens to other lines; recoded code has no methods in it. Code that differs
in no other way is the same once it is recoded.
-/
import Lox.Proofs.Scoping.Ids
import Lox.Proofs.Syntax.Map

namespace Lox

/-- Other ids, and other lines for tokens. -/
structure Recoding where
  ids : Nat → Nat
  token : Token → Token
  kind_token : ∀ t, (token t).kind = t.kind
  lexeme_token : ∀ t, (token t).lexeme = t.lexeme

attribute [simp] Recoding.kind_token Recoding.lexeme_token

/-- The token without its line. -/
def Token.unlined (t : Token) : Token := { t with line := 0 }

theorem Token.kind_unlined (t : Token) : t.unlined.kind = t.kind := rfl

theorem Token.kind_id (t : Token) : (id t).kind = t.kind := rfl

theorem Token.lexeme_id (t : Token) : (id t).lexeme = t.lexeme := rfl

namespace Recoding

/-- Other ids, and no lines. -/
def unlined (ids : Nat → Nat) : Recoding := ⟨ids, Token.unlined, fun _ => rfl, fun _ => rfl⟩

/-- Other ids, and the tokens as they are. -/
def renumbered (ids : Nat → Nat) : Recoding := ⟨ids, id, Token.kind_id, Token.lexeme_id⟩

theorem token_renumbered (ids : Nat → Nat) : (renumbered ids).token = id := rfl

end Recoding

section

variable (r : Recoding)

def Expr.recode (e : Expr) : Expr := e.map r.ids r.token

def Expr.recodeAll (es : List Expr) : List Expr := Expr.mapAll r.ids r.token es

mutual

/-- The statement with other ids and tokens, and without methods. -/
@[simp] def Stmt.recode : Stmt → Stmt
  | .block body => .block (Stmt.recodeAll body)
  | .class name _ => .class (r.token name) []
  | .expression e => .expression (e.recode r)
  | .function ⟨name, params, body⟩ =>
    .function ⟨r.token name, params.map r.token, Stmt.recodeAll body⟩
  | .if condition thenBranch none => .if (condition.recode r) thenBranch.recode none
  | .if condition thenBranch (some elseBranch) =>
    .if (condition.recode r) thenBranch.recode (some elseBranch.recode)
  | .print e => .print (e.recode r)
  | .return keyword value => .return (r.token keyword) (value.map (Expr.recode r))
  | .var name initializer => .var (r.token name) (initializer.map (Expr.recode r))
  | .while condition body => .while (condition.recode r) body.recode

@[simp] def Stmt.recodeAll : List Stmt → List Stmt
  | [] => []
  | s :: ss => s.recode :: Stmt.recodeAll ss

end

/-- The function with other ids and tokens, and without methods. -/
def FunctionOf.recode (f : Function) : Function :=
  ⟨r.token f.name, f.params.map r.token, Stmt.recodeAll r f.body⟩

end

theorem Stmt.recode_if (r : Recoding) (condition : Expr) (thenBranch : Stmt)
    (elseBranch : Option Stmt) : (Stmt.if condition thenBranch elseBranch).recode r =
      .if (condition.recode r) (thenBranch.recode r) (elseBranch.map (Stmt.recode r)) := by
  cases elseBranch <;> rfl

theorem Stmt.recode_function (r : Recoding) (f : Function) :
    (Stmt.function f).recode r = .function (f.recode r) := by
  cases f
  rfl

/-! ## Recoding what is mapped -/

section

variable {ids ids' : Nat → Nat} {token token' : Token → Token} {r r' : Recoding}

mutual

theorem Expr.recode_map (hi : ∀ i, r'.ids (ids i) = r.ids i)
    (ht : ∀ t, r'.token (token t) = r.token t) :
    ∀ e : Expr, (e.map ids token).recode r' = e.recode r
  | .literal _ => rfl
  | .group inner => by
    have h := recode_map hi ht inner
    simp_all [recode]
  | .unary op right => by
    have h := recode_map hi ht right
    simp_all [recode]
  | .binary left op right | .logical left op right | .set left op right => by
    have h := recode_map hi ht left
    have h' := recode_map hi ht right
    simp_all [recode]
  | .variable id name => by simp_all [recode]
  | .assign id name value => by
    have h := recode_map hi ht value
    simp_all [recode]
  | .call callee paren args => by
    have h := recode_map hi ht callee
    have h' := recodeAll_map hi ht args
    simp_all [recode, recodeAll]
  | .get object name => by
    have h := recode_map hi ht object
    simp_all [recode]

theorem Expr.recodeAll_map (hi : ∀ i, r'.ids (ids i) = r.ids i)
    (ht : ∀ t, r'.token (token t) = r.token t) :
    ∀ es : List Expr, Expr.recodeAll r' (Expr.mapAll ids token es) = Expr.recodeAll r es
  | [] => rfl
  | e :: es => by
    have h := recode_map hi ht e
    have h' := recodeAll_map hi ht es
    simp_all [recode, recodeAll]

end

mutual

/-- Code that was replaced before it is recoded. -/
theorem Stmt.recode_map (hi : ∀ i, r'.ids (ids i) = r.ids i)
    (ht : ∀ t, r'.token (token t) = r.token t) :
    ∀ s : Stmt, (s.map ids token).recode r' = s.recode r
  | .block body => by simp [recodeAll_map hi ht body]
  | .class name _ => by simp [ht]
  | .expression e | .print e => by simp [e.recode_map hi ht]
  | .function ⟨name, params, body⟩ => by simp [ht, recodeAll_map hi ht body]
  | .if condition thenBranch none => by
    simp [condition.recode_map hi ht, recode_map hi ht thenBranch]
  | .if condition thenBranch (some elseBranch) => by
    simp [condition.recode_map hi ht, recode_map hi ht thenBranch, recode_map hi ht elseBranch]
  | .return keyword value => by
    cases value <;> simp [ht, Expr.recode_map hi ht]
  | .var name initializer => by
    cases initializer <;> simp [ht, Expr.recode_map hi ht]
  | .while condition body => by simp [condition.recode_map hi ht, recode_map hi ht body]

theorem Stmt.recodeAll_map (hi : ∀ i, r'.ids (ids i) = r.ids i)
    (ht : ∀ t, r'.token (token t) = r.token t) :
    ∀ ss : List Stmt, Stmt.recodeAll r' (Stmt.mapAll ids token ss) = Stmt.recodeAll r ss
  | [] => rfl
  | s :: ss => by simp [recode_map hi ht s, recodeAll_map hi ht ss]

end

/-! ## Recoding twice -/

section

variable {r'' : Recoding}

mutual

theorem Stmt.recode_recode (hi : ∀ i, r'.ids (r.ids i) = r''.ids i)
    (ht : ∀ t, r'.token (r.token t) = r''.token t) : ∀ s : Stmt, (s.recode r).recode r' = s.recode r''
  | .block body => by simp [recodeAll_recodeAll hi ht body]
  | .class name _ => by simp [ht]
  | .expression e | .print e => congrArg _ (e.recode_map hi ht)
  | .function ⟨name, params, body⟩ => by simp [ht, recodeAll_recodeAll hi ht body]
  | .if condition thenBranch none => by
    have first : (condition.recode r).recode r' = _ := condition.recode_map hi ht
    simp [first, recode_recode hi ht thenBranch]
  | .if condition thenBranch (some elseBranch) => by
    have first : (condition.recode r).recode r' = _ := condition.recode_map hi ht
    simp [first, recode_recode hi ht thenBranch, recode_recode hi ht elseBranch]
  | .return keyword value => by
    cases value with
    | none => simp [ht]
    | some e => simp [ht, show (e.recode r).recode r' = _ from e.recode_map hi ht]
  | .var name initializer => by
    cases initializer with
    | none => simp [ht]
    | some e => simp [ht, show (e.recode r).recode r' = _ from e.recode_map hi ht]
  | .while condition body => by
    have first : (condition.recode r).recode r' = _ := condition.recode_map hi ht
    simp [first, recode_recode hi ht body]

theorem Stmt.recodeAll_recodeAll (hi : ∀ i, r'.ids (r.ids i) = r''.ids i)
    (ht : ∀ t, r'.token (r.token t) = r''.token t) :
    ∀ ss : List Stmt, Stmt.recodeAll r' (Stmt.recodeAll r ss) = Stmt.recodeAll r'' ss
  | [] => rfl
  | s :: ss => by simp [recode_recode hi ht s, recodeAll_recodeAll hi ht ss]

end

end

/-! ## Only the ids of references matter -/

mutual

theorem Expr.recode_congr (ht : r.token = r'.token) :
    ∀ e : Expr, (∀ i ∈ e.ids, r.ids i = r'.ids i) → e.recode r = e.recode r'
  | .literal _, _ => rfl
  | .group inner, h => by
    have h := recode_congr ht inner h
    simp_all [recode]
  | .unary op right, h => by
    have h := recode_congr ht right h
    simp_all [recode]
  | .binary left op right, h | .logical left op right, h => by
    simp only [ids, references, List.map_append, List.forall_mem_append] at h
    have hl := recode_congr ht left h.1
    have hr := recode_congr ht right h.2
    simp_all [recode]
  | .set object name value, h => by
    simp only [ids, references, List.map_append, List.forall_mem_append] at h
    have ho := recode_congr ht object h.2
    have hv := recode_congr ht value h.1
    simp_all [recode]
  | .variable id name, h => by simp_all [recode, ids, references]
  | .assign id name value, h => by
    simp only [ids, references, List.map_append, List.forall_mem_append] at h
    have hv := recode_congr ht value h.1
    simp_all [recode]
  | .call callee paren args, h => by
    simp only [ids, references, List.map_append, List.forall_mem_append] at h
    have hc := recode_congr ht callee h.1
    have ha := recodeAll_congr ht args h.2
    simp_all [recode, recodeAll]
  | .get object name, h => by
    have h := recode_congr ht object h
    simp_all [recode]

theorem Expr.recodeAll_congr (ht : r.token = r'.token) : ∀ es : List Expr,
    (∀ i ∈ (Expr.referencesAll es).map (·.id), r.ids i = r'.ids i) →
      Expr.recodeAll r es = Expr.recodeAll r' es
  | [], _ => rfl
  | e :: es, h => by
    simp only [referencesAll, List.map_append, List.forall_mem_append] at h
    have he := recode_congr ht e h.1
    have hes := recodeAll_congr ht es h.2
    simp_all [recode, recodeAll]

end

mutual

theorem Stmt.recode_congr (ht : r.token = r'.token) :
    ∀ s : Stmt, (∀ i ∈ s.ids, r.ids i = r'.ids i) → s.recode r = s.recode r'
  | .block body, h => by simp [recodeAll_congr ht body h]
  | .class name _, _ => by simp [ht]
  | .expression e, h | .print e, h => by simp [e.recode_congr ht h]
  | .function ⟨name, params, body⟩, h => by simp [ht, recodeAll_congr ht body h]
  | .if condition thenBranch none, h => by
    simp only [ids, List.forall_mem_append] at h
    simp [condition.recode_congr ht h.1, recode_congr ht thenBranch h.2]
  | .if condition thenBranch (some elseBranch), h => by
    simp only [ids, List.forall_mem_append] at h
    simp [condition.recode_congr ht h.1.1, recode_congr ht thenBranch h.1.2,
      recode_congr ht elseBranch h.2]
  | .return keyword none, _ | .var keyword none, _ => by simp [ht]
  | .return keyword (some e), h | .var keyword (some e), h => by simp [ht, e.recode_congr ht h]
  | .while condition body, h => by
    simp only [ids, List.forall_mem_append] at h
    simp [condition.recode_congr ht h.1, recode_congr ht body h.2]

theorem Stmt.recodeAll_congr (ht : r.token = r'.token) : ∀ ss : List Stmt,
    (∀ i ∈ Stmt.idsAll ss, r.ids i = r'.ids i) → Stmt.recodeAll r ss = Stmt.recodeAll r' ss
  | [], _ => rfl
  | s :: ss, h => by
    simp only [idsAll, List.forall_mem_append] at h
    simp [recode_congr ht s h.1, recodeAll_congr ht ss h.2]

end

/-- The same of an expression that is mapped. -/
theorem Expr.map_congr (e : Expr) (h : ∀ i ∈ e.ids, ids i = ids' i) :
    e.map ids id = e.map ids' id :=
  @recode_congr ⟨ids, id, Token.kind_id, Token.lexeme_id⟩
    ⟨ids', id, Token.kind_id, Token.lexeme_id⟩ rfl e h

theorem Expr.mapAll_congr (es : List Expr)
    (h : ∀ i ∈ (Expr.referencesAll es).map (·.id), ids i = ids' i) :
    Expr.mapAll ids id es = Expr.mapAll ids' id es :=
  @recodeAll_congr ⟨ids, id, Token.kind_id, Token.lexeme_id⟩
    ⟨ids', id, Token.kind_id, Token.lexeme_id⟩ rfl es h

mutual

/-- A statement that is mapped has its methods with it, so their ids matter too. -/
theorem Stmt.map_congr : ∀ s : Stmt, (∀ i ∈ s.everyId, ids i = ids' i) →
    s.map ids id = s.map ids' id
  | .block body, h => by simp [mapAll_congr body h]
  | .class name methods, h => by simp [mapMethods_congr methods h]
  | .expression e, h | .print e, h => by simp [e.map_congr h]
  | .function ⟨name, params, body⟩, h => by simp [mapAll_congr body h]
  | .if condition thenBranch none, h => by
    simp only [everyId, List.forall_mem_append] at h
    simp [condition.map_congr h.1, map_congr thenBranch h.2]
  | .if condition thenBranch (some elseBranch), h => by
    simp only [everyId, List.forall_mem_append] at h
    simp [condition.map_congr h.1.1, map_congr thenBranch h.1.2, map_congr elseBranch h.2]
  | .return keyword none, _ | .var keyword none, _ => rfl
  | .return keyword (some e), h | .var keyword (some e), h => by simp [e.map_congr h]
  | .while condition body, h => by
    simp only [everyId, List.forall_mem_append] at h
    simp [condition.map_congr h.1, map_congr body h.2]

theorem Stmt.mapAll_congr : ∀ ss : List Stmt, (∀ i ∈ Stmt.everyIdAll ss, ids i = ids' i) →
    Stmt.mapAll ids id ss = Stmt.mapAll ids' id ss
  | [], _ => rfl
  | s :: ss, h => by
    simp only [everyIdAll, List.forall_mem_append] at h
    simp [map_congr s h.1, mapAll_congr ss h.2]

theorem Stmt.mapMethods_congr : ∀ fs : List Function,
    (∀ i ∈ Stmt.everyIdMethods fs, ids i = ids' i) →
      Stmt.mapMethods ids id fs = Stmt.mapMethods ids' id fs
  | [], _ => rfl
  | ⟨_, _, body⟩ :: fs, h => by
    simp only [everyIdMethods, List.forall_mem_append] at h
    simp [mapAll_congr body h.1, mapMethods_congr fs h.2]

end

end

end Lox
