/-
The ids of references. They do not depend on where the static walk is (`ids_visitsAll`), which does not
enter methods; with methods a tree can have more of them (`ids_sublist_all`). The ids of a tree are
fresh if they are different ones of a range of numbers (`FreshIds`).
-/
import Lox.Proofs.Scoping.Visits

namespace Lox

def Expr.ids (e : Expr) : List Nat := e.references.map (·.id)

mutual

/-- The ids of a statement's references, in the order of the walk. -/
@[simp] def Stmt.ids : Stmt → List Nat
  | .block body => Stmt.idsAll body
  | .class _ _ => []
  | .var _ none => []
  | .var _ (some e) => e.ids
  | .function ⟨_, _, body⟩ => Stmt.idsAll body
  | .expression e => e.ids
  | .print e => e.ids
  | .if condition thenBranch none => condition.ids ++ thenBranch.ids
  | .if condition thenBranch (some elseBranch) =>
    condition.ids ++ thenBranch.ids ++ elseBranch.ids
  | .while condition body => condition.ids ++ body.ids
  | .return _ none => []
  | .return _ (some e) => e.ids

@[simp] def Stmt.idsAll : List Stmt → List Nat
  | [] => []
  | s :: ss => s.ids ++ Stmt.idsAll ss

end

theorem Expr.ids_visits (declared : List (List String)) (b : Bool) (w : Scoping) (e : Expr) :
    (e.visits declared b w).map (·.id) = e.ids := by
  rw [visits_eq, List.map_map]
  rfl

mutual

/-- The ids of the references do not depend on where the walk is. -/
theorem Stmt.ids_visits (declared : List (List String)) (b : Bool) (w : Scoping) :
    ∀ s : Stmt, (s.visits declared b w).map (·.id) = s.ids
  | .block body => by rw [visits, ids_visitsAll _ b _ body, ids]
  | .class _ _ => rfl
  | .var name none => rfl
  | .var name (some e) => by rw [visits, Expr.visits?, e.ids_visits, ids]
  | .function ⟨name, params, body⟩ => by rw [visits, ids_visitsAll _ true _ body, ids]
  | .expression e | .print e => by rw [visits, e.ids_visits, ids]
  | .if condition thenBranch none => by
    rw [visits, List.map_append, condition.ids_visits, ids_visits _ b _ thenBranch, ids]
  | .if condition thenBranch (some elseBranch) => by
    rw [visits, List.map_append, List.map_append, condition.ids_visits, ids_visits _ b _ thenBranch,
      ids_visits _ b _ elseBranch, ids]
  | .while condition body => by
    rw [visits, List.map_append, condition.ids_visits, ids_visits _ b _ body, ids]
  | .return keyword none => rfl
  | .return keyword (some e) => by rw [visits, Expr.visits?, e.ids_visits, ids]

theorem Stmt.ids_visitsAll (declared : List (List String)) (b : Bool) (w : Scoping) :
    ∀ ss : List Stmt, (Stmt.visitsAll declared b w ss).map (·.id) = Stmt.idsAll ss
  | [] => rfl
  | s :: ss => by
    rw [visitsAll, List.map_append, ids_visits _ b _ s, ids_visitsAll _ b _ ss, idsAll]

end

mutual

/-- The ids of all references in a statement, those in methods included. -/
@[simp] def Stmt.everyId : Stmt → List Nat
  | .block body => Stmt.everyIdAll body
  | .class _ methods => Stmt.everyIdMethods methods
  | .var _ none => []
  | .var _ (some e) => e.ids
  | .function ⟨_, _, body⟩ => Stmt.everyIdAll body
  | .expression e => e.ids
  | .print e => e.ids
  | .if condition thenBranch none => condition.ids ++ thenBranch.everyId
  | .if condition thenBranch (some elseBranch) =>
    condition.ids ++ thenBranch.everyId ++ elseBranch.everyId
  | .while condition body => condition.ids ++ body.everyId
  | .return _ none => []
  | .return _ (some e) => e.ids

@[simp] def Stmt.everyIdAll : List Stmt → List Nat
  | [] => []
  | s :: ss => s.everyId ++ Stmt.everyIdAll ss

@[simp] def Stmt.everyIdMethods : List Function → List Nat
  | [] => []
  | ⟨_, _, body⟩ :: methods => Stmt.everyIdAll body ++ Stmt.everyIdMethods methods

end

mutual

/-- The walk meets the references outside of methods. -/
theorem Stmt.ids_sublist : ∀ s : Stmt, s.ids.Sublist s.everyId
  | .block body => ids_sublist_all body
  | .class _ _ => List.nil_sublist _
  | .var _ none | .var _ (some _) | .expression _ | .print _ | .return _ none
  | .return _ (some _) => .refl _
  | .function ⟨_, _, body⟩ => ids_sublist_all body
  | .if _ thenBranch none => .append (.refl _) (ids_sublist thenBranch)
  | .if _ thenBranch (some elseBranch) =>
    .append (.append (.refl _) (ids_sublist thenBranch)) (ids_sublist elseBranch)
  | .while _ body => .append (.refl _) (ids_sublist body)

theorem Stmt.ids_sublist_all : ∀ ss : List Stmt, (Stmt.idsAll ss).Sublist (Stmt.everyIdAll ss)
  | [] => .refl _
  | s :: ss => .append (ids_sublist s) (ids_sublist_all ss)

end

/-- The ids are different ones of those from `n` up to `m`. -/
structure FreshIds (n m : Nat) (ids : List Nat) : Prop where
  le : n ≤ m
  bounds : ∀ id ∈ ids, n ≤ id ∧ id < m
  nodup : ids.Nodup

namespace FreshIds

theorem none {n m : Nat} (h : n ≤ m) : FreshIds n m [] := ⟨h, by simp, List.nodup_nil⟩

theorem single (n : Nat) : FreshIds n (n + 1) [n] :=
  ⟨Nat.le_succ n, by simp, by simp⟩

theorem append {n m k : Nat} {ids ids' : List Nat} (h : FreshIds n m ids)
    (h' : FreshIds m k ids') : FreshIds n k (ids ++ ids') := by
  refine ⟨Nat.le_trans h.le h'.le, fun id hid => ?_, ?_⟩
  · rcases List.mem_append.1 hid with hid | hid
    · exact ⟨(h.bounds id hid).1, Nat.lt_of_lt_of_le (h.bounds id hid).2 h'.le⟩
    · exact ⟨Nat.le_trans h.le (h'.bounds id hid).1, (h'.bounds id hid).2⟩
  · -- the two ranges do not overlap
    refine List.nodup_append.2 ⟨h.nodup, h'.nodup, fun a ha b hb hab => ?_⟩
    have := (h.bounds a ha).2
    have := (h'.bounds b hb).1
    omega

theorem perm {n m : Nat} {ids ids' : List Nat} (h : FreshIds n m ids) (p : ids.Perm ids') :
    FreshIds n m ids' :=
  ⟨h.le, fun id hid => h.bounds id (p.mem_iff.2 hid), p.nodup_iff.1 h.nodup⟩

theorem sublist {n m : Nat} {ids ids' : List Nat} (h : FreshIds n m ids) (some : ids'.Sublist ids) :
    FreshIds n m ids' :=
  ⟨h.le, fun id hid => h.bounds id (some.subset hid), h.nodup.sublist some⟩

end FreshIds

end Lox
