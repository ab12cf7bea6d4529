/-
Code without methods. The method lists of all classes are left out, in whatever block, branch, loop or
function a class is declared (`Stmt.bare`). The static walk and the search for function declarations do
not enter class bodies, so neither tells bare code from the code that it was made of.
-/
import Lox.Proofs.Syntax.Recode
import Lox.Session

namespace Lox

mutual

/-- The statement without the methods of its classes. -/
@[simp] def Stmt.bare : Stmt → Stmt
  | .block body => .block (Stmt.bareAll body)
  | .class name _ => .class name []
  | .expression e => .expression e
  | .function ⟨name, params, body⟩ => .function ⟨name, params, Stmt.bareAll body⟩
  | .if condition thenBranch none => .if condition thenBranch.bare none
  | .if condition thenBranch (some elseBranch) =>
    .if condition thenBranch.bare (some elseBranch.bare)
  | .print e => .print e
  | .return keyword value => .return keyword value
  | .var name initializer => .var name initializer
  | .while condition body => .while condition body.bare

@[simp] def Stmt.bareAll : List Stmt → List Stmt
  | [] => []
  | s :: ss => s.bare :: Stmt.bareAll ss

end

/-! ## Static checks -/

mutual

theorem Stmt.scope_bare (b : Bool) (w : Scoping) : ∀ s : Stmt, s.bare.scope b w = s.scope b w
  | .block body => by simp only [bare, scope, scopeAll_bareAll b w.enter body]
  | .class _ _ | .expression _ | .print _ | .return _ _ | .var _ _ => rfl
  | .function ⟨name, params, body⟩ => by simp only [bare, scope, scopeAll_bareAll true _ body]
  | .if condition thenBranch none => by simp only [bare, scope, scope_bare b _ thenBranch]
  | .if condition thenBranch (some elseBranch) => by
    simp only [bare, scope, scope_bare b _ thenBranch, scope_bare b _ elseBranch]
  | .while condition body => by simp only [bare, scope, scope_bare b _ body]

theorem Stmt.scopeAll_bareAll (b : Bool) (w : Scoping) :
    ∀ ss : List Stmt, Stmt.scopeAll b w (Stmt.bareAll ss) = Stmt.scopeAll b w ss
  | [] => rfl
  | s :: ss => by simp only [bareAll, scopeAll, scope_bare b w s, scopeAll_bareAll b _ ss]

end

/-- Bare code has the same scoping errors or the same distances. -/
theorem distancesOf_bareAll (ss : List Stmt) : distancesOf (Stmt.bareAll ss) = distancesOf ss := by
  rw [distancesOf, Stmt.scopeAll_bareAll, distancesOf]

mutual

theorem Stmt.declaresFunction_bare : ∀ s : Stmt, s.bare.declaresFunction = s.declaresFunction
  | .block body => anyDeclaresFunction_bareAll body
  | .class _ _ | .expression _ | .print _ | .return _ _ | .var _ _ | .function _ => rfl
  | .if _ thenBranch none => declaresFunction_bare thenBranch
  | .if _ thenBranch (some elseBranch) => by
    simp only [bare, declaresFunction, declaresFunction_bare thenBranch,
      declaresFunction_bare elseBranch]
  | .while _ body => declaresFunction_bare body

theorem Stmt.anyDeclaresFunction_bareAll :
    ∀ ss : List Stmt, Stmt.anyDeclaresFunction (Stmt.bareAll ss) = Stmt.anyDeclaresFunction ss
  | [] => rfl
  | s :: ss => by
    simp only [bareAll, anyDeclaresFunction, declaresFunction_bare s,
      anyDeclaresFunction_bareAll ss]

end

/-! ## Bare code as recoded code -/

mutual

/-- Nothing is replaced. -/
theorem Expr.map_id : ∀ e : Expr, e.map id id = e
  | .literal _ | .variable _ _ => rfl
  | .group inner => by simp [map_id inner]
  | .unary _ right => by simp [map_id right]
  | .binary left _ right | .logical left _ right => by simp [map_id left, map_id right]
  | .assign _ _ value => by simp [map_id value]
  | .call callee _ args => by simp [map_id callee, mapAll_id args]
  | .get object _ => by simp [map_id object]
  | .set object _ value => by simp [map_id object, map_id value]

theorem Expr.mapAll_id : ∀ es : List Expr, Expr.mapAll id id es = es
  | [] => rfl
  | e :: es => by simp [map_id e, mapAll_id es]

end

theorem Expr.recode_plain : Expr.recode (.renumbered id) = id := funext map_id

mutual

/-- Recoded with its own ids and tokens, code is left without methods. -/
theorem Stmt.recode_plain : ∀ s : Stmt, s.recode (.renumbered id) = s.bare
  | .block body => by simp [recodeAll_plain body]
  | .class _ _ => rfl
  | .expression _ | .print _ => by simp [Expr.recode_plain]
  | .function ⟨name, params, body⟩ => by
    simp [Recoding.token_renumbered, recodeAll_plain body]
  | .if _ thenBranch none => by simp [Expr.recode_plain, recode_plain thenBranch]
  | .if _ thenBranch (some elseBranch) => by
    simp [Expr.recode_plain, recode_plain thenBranch, recode_plain elseBranch]
  | .return _ _ | .var _ _ => by
    simp [Expr.recode_plain, Recoding.token_renumbered]
  | .while _ body => by simp [Expr.recode_plain, recode_plain body]

theorem Stmt.recodeAll_plain : ∀ ss : List Stmt,
    Stmt.recodeAll (.renumbered id) ss = Stmt.bareAll ss
  | [] => rfl
  | s :: ss => by simp [recode_plain s, recodeAll_plain ss]

end

/-- Bare code is recoded as the code that it was made of. -/
theorem Stmt.recodeAll_bareAll (ss : List Stmt) :
    Stmt.recodeAll (.renumbered id) (Stmt.bareAll ss) = Stmt.recodeAll (.renumbered id) ss := by
  rw [← recodeAll_plain]
  exact recodeAll_recodeAll (fun _ => rfl) (fun _ => rfl) ss

end Lox
