/-
Trees with other ids and tokens. Two trees are the same but for their references if they are equal
once all ids are made equal, and the same but for their lines if they are once all tokens stand on
one line.
-/
import Lox.StaticError
import Lox.Syntax

namespace Lox

section

variable (ids : Nat → Nat) (token : Token → Token)

mutual

/-- The tree with each id and each token replaced. -/
@[simp] def Expr.map : Expr → Expr
  | .assign id name value => .assign (ids id) (token name) value.map
  | .binary left op right => .binary left.map (token op) right.map
  | .call callee paren args => .call callee.map (token paren) (Expr.mapAll args)
  | .get object name => .get object.map (token name)
  | .group inner => .group inner.map
  | .literal l => .literal l
  | .logical left op right => .logical left.map (token op) right.map
  | .set object name value => .set object.map (token name) value.map
  | .unary op right => .unary (token op) right.map
  | .variable id name => .variable (ids id) (token name)

@[simp] def Expr.mapAll : List Expr → List Expr
  | [] => []
  | e :: es => e.map :: Expr.mapAll es

end

mutual

/-- The tree with each id and each token replaced. -/
@[simp] def Stmt.map : Stmt → Stmt
  | .block body => .block (Stmt.mapAll body)
  | .class name methods => .class (token name) (Stmt.mapMethods methods)
  | .expression e => .expression (e.map ids token)
  | .function ⟨name, params, body⟩ =>
    .function ⟨token name, params.map token, Stmt.mapAll body⟩
  | .if condition thenBranch none => .if (condition.map ids token) thenBranch.map none
  | .if condition thenBranch (some elseBranch) =>
    .if (condition.map ids token) thenBranch.map (some elseBranch.map)
  | .print e => .print (e.map ids token)
  | .return keyword value => .return (token keyword) (value.map (Expr.map ids token))
  | .var name initializer => .var (token name) (initializer.map (Expr.map ids token))
  | .while condition body => .while (condition.map ids token) body.map

@[simp] def Stmt.mapAll : List Stmt → List Stmt
  | [] => []
  | s :: ss => s.map :: Stmt.mapAll ss

@[simp] def Stmt.mapMethods : List Function → List Function
  | [] => []
  | ⟨name, params, body⟩ :: methods =>
    ⟨token name, params.map token, Stmt.mapAll body⟩ :: Stmt.mapMethods methods

end

/-- The function with each id and each token replaced. -/
def FunctionOf.mapTokens (f : Function) : Function :=
  ⟨token f.name, f.params.map token, Stmt.mapAll ids token f.body⟩

end

/-- The error with its token replaced, or with its line replaced if it has no token. -/
@[simp] def StaticError.map (token : Token → Token) (line : Nat → Nat) : StaticError → StaticError
  | lexical l fault => lexical (line l) fault
  | syntactic t fault => syntactic (token t) fault
  | scoping t fault => scoping (token t) fault

theorem StaticError.map_id : StaticError.map id id = id := by
  funext e
  cases e <;> rfl

/-! ## Mapping twice -/

section

variable {ids ids' ids'' : Nat → Nat} {token token' token'' : Token → Token}

mutual

theorem Expr.map_map (hi : ∀ i, ids' (ids i) = ids'' i) (ht : ∀ t, token' (token t) = token'' t) :
    ∀ e : Expr, (e.map ids token).map ids' token' = e.map ids'' token''
  | .literal _ => rfl
  | .group inner => by simp [inner.map_map hi ht]
  | .unary _ right => by simp [ht, right.map_map hi ht]
  | .binary left _ right | .logical left _ right => by
    simp [ht, left.map_map hi ht, right.map_map hi ht]
  | .variable _ _ => by simp [hi, ht]
  | .assign _ _ value => by simp [hi, ht, value.map_map hi ht]
  | .call callee _ args => by simp [ht, callee.map_map hi ht, mapAll_mapAll hi ht args]
  | .get object _ => by simp [ht, object.map_map hi ht]
  | .set object _ value => by simp [ht, object.map_map hi ht, value.map_map hi ht]

theorem Expr.mapAll_mapAll (hi : ∀ i, ids' (ids i) = ids'' i)
    (ht : ∀ t, token' (token t) = token'' t) : ∀ es : List Expr,
      Expr.mapAll ids' token' (Expr.mapAll ids token es) = Expr.mapAll ids'' token'' es
  | [] => rfl
  | e :: es => by simp [e.map_map hi ht, mapAll_mapAll hi ht es]

end

mutual

/-- A tree that is mapped twice is mapped at once. -/
theorem Stmt.map_map (hi : ∀ i, ids' (ids i) = ids'' i) (ht : ∀ t, token' (token t) = token'' t) :
    ∀ s : Stmt, (s.map ids token).map ids' token' = s.map ids'' token''
  | .block body => by simp [mapAll_mapAll hi ht body]
  | .class _ methods => by simp [ht, mapMethods_mapMethods hi ht methods]
  | .expression e | .print e => by simp [e.map_map hi ht]
  | .function ⟨_, _, body⟩ => by simp [ht, mapAll_mapAll hi ht body]
  | .if condition thenBranch none => by simp [condition.map_map hi ht, map_map hi ht thenBranch]
  | .if condition thenBranch (some elseBranch) => by
    simp [condition.map_map hi ht, map_map hi ht thenBranch, map_map hi ht elseBranch]
  | .return _ none | .var _ none => by simp [ht]
  | .return _ (some e) | .var _ (some e) => by simp [ht, e.map_map hi ht]
  | .while condition body => by simp [condition.map_map hi ht, map_map hi ht body]

theorem Stmt.mapAll_mapAll (hi : ∀ i, ids' (ids i) = ids'' i)
    (ht : ∀ t, token' (token t) = token'' t) : ∀ ss : List Stmt,
      Stmt.mapAll ids' token' (Stmt.mapAll ids token ss) = Stmt.mapAll ids'' token'' ss
  | [] => rfl
  | s :: ss => by simp [map_map hi ht s, mapAll_mapAll hi ht ss]

theorem Stmt.mapMethods_mapMethods (hi : ∀ i, ids' (ids i) = ids'' i)
    (ht : ∀ t, token' (token t) = token'' t) : ∀ fs : List Function,
      Stmt.mapMethods ids' token' (Stmt.mapMethods ids token fs) = Stmt.mapMethods ids'' token'' fs
  | [] => rfl
  | ⟨_, _, body⟩ :: fs => by simp [ht, mapAll_mapAll hi ht body, mapMethods_mapMethods hi ht fs]

end

end

end Lox
