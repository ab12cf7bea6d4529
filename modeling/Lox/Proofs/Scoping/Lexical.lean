/-
Distances are lexical scoping: the distance of a reference leads to the innermost scope around it
that has declared the name before it, and a reference without one is in no such scope. Nothing else
has a distance.
-/
import Lox.Proofs.Scoping.Ids
import Lox.Proofs.Scoping.Walk

namespace Lox

open Scoping

section

variable {program : List Stmt} {ds : Distances}

theorem recorded_of_distancesOf (accepted : distancesOf program = .ok ds) :
    ds = (visitsOf program).foldl Visit.record ∅ := by
  obtain ⟨-, rfl⟩ := distancesOf_eq_ok.1 accepted
  exact Stmt.distances_scopeAll [] false .start program

theorem ids_visitsOf (program : List Stmt) :
    (visitsOf program).map (·.id) = Stmt.idsAll program := Stmt.ids_visitsAll [] false .start program

/-- What is recorded for a reference is what the scopes open at its mark say. -/
theorem get?_of_mark (unique : (Stmt.idsAll program).Nodup)
    (accepted : distancesOf program = .ok ds) {before behind : List Mark} {r : Reference}
    (h : Stmt.outlineAll program = before ++ .reference r :: behind) :
    ds[r.id]? = distance? (Walk.start.along before).scopes r.name.lexeme := by
  obtain ⟨v, hv, id, name, -, scopes⟩ := exists_visit_of_mark h
  rw [← ids_visitsOf] at unique
  rw [recorded_of_distancesOf accepted, ← id, ← name, ← scopes]
  exact get?_record unique (fun u _ => by simp) hv

/-- An id with a distance is that of a marked reference. -/
theorem exists_mark_of_get? (accepted : distancesOf program = .ok ds) {id : Nat}
    (h : ds[id]? ≠ none) :
    ∃ before r behind, Stmt.outlineAll program = before ++ .reference r :: behind ∧ r.id = id := by
  by_cases mem : id ∈ (visitsOf program).map (·.id)
  · obtain ⟨v, hv, rfl⟩ := List.mem_map.1 mem
    obtain ⟨before, r, behind, hs, same, -⟩ := exists_mark hv
    exact ⟨before, r, behind, hs, same⟩
  · rw [recorded_of_distancesOf accepted, get?_record_of_not_mem mem] at h
    exact absurd rfl h

end

/-- The distances of an accepted program are those of lexical scoping. -/
theorem distancesOf_lexical {program : List Stmt} {ds : Distances}
    (unique : (Stmt.idsAll program).Nodup) (accepted : distancesOf program = .ok ds) :
    (∀ before r behind, Stmt.outlineAll program = before ++ .reference r :: behind →
      (∀ d, ds[r.id]? = some d ↔ NearestAt before r.name.lexeme d) ∧
        (ds[r.id]? = none ↔ ∀ d, ¬DeclaredAt before r.name.lexeme d)) ∧
      ∀ id, ds[id]? ≠ none → ∃ before r behind,
        Stmt.outlineAll program = before ++ .reference r :: behind ∧ r.id = id := by
  refine ⟨fun before r behind h => ?_, fun id h => exists_mark_of_get? accepted h⟩
  have shows := shows_along h
  rw [get?_of_mark unique accepted h]
  exact ⟨fun d => shows.distance?_eq_some_iff, shows.distance?_eq_none_iff⟩

/-- A name assigned before its scope declares it belongs to the next scope outwards, and behind the
declaration to this one; a parameter belongs to its function.
`{ var a; { a = nil; var a = a = nil; fun f(b) { print b; } f(a); } print f; }` -/
theorem distancesOf_lexical_redeclared :
    let name (lexeme : String) : Token := ⟨.identifier, lexeme, 1⟩
    let assign (i : Nat) : Expr := .assign i (name "a") (.literal .nil)
    let inner : List Stmt := [.expression (assign 0), .var (name "a") (some (assign 1)),
      .function ⟨name "f", [name "b"], [.print (.variable 2 (name "b"))]⟩,
      .expression (.call (.variable 3 (name "f")) (name "f") [.variable 4 (name "a")])]
    let program : List Stmt :=
      [.block [.var (name "a") none, .block inner, .print (.variable 5 (name "f"))]]
    (Stmt.idsAll program).Nodup ∧ ∃ ds, distancesOf program = .ok ds ∧
      (List.range 6).map (ds[·]?) = [some 1, some 0, some 0, some 0, some 0, none] ∧
      (∀ d, NearestAt [.block, .var (name "a"), .varEnd (name "a"), .block] "a" d ↔ d = 1) ∧
      ∀ id, ds[id]? ≠ none → ∃ before r behind,
        Stmt.outlineAll program = before ++ .reference r :: behind ∧ r.id = id := by
  intro name assign inner program
  have unique : (Stmt.idsAll program).Nodup := by decide
  have faultless : (Stmt.scopeAll false .start program).errors = [] := by decide +kernel
  have accepted : distancesOf program = .ok (Stmt.scopeAll false .start program).distances :=
    distancesOf_eq_ok.2 ⟨faultless, rfl⟩
  have table : (List.range 6).map ((Stmt.scopeAll false .start program).distances[·]?) =
      [some 1, some 0, some 0, some 0, some 0, none] := by decide +kernel
  obtain ⟨lexical, marked⟩ := distancesOf_lexical unique accepted
  have first := (lexical [.block, .var (name "a"), .varEnd (name "a"), .block] ⟨0, name "a", false⟩ _
    rfl).1
  have one : (Stmt.scopeAll false .start program).distances[0]? = some 1 := by decide +kernel
  refine ⟨unique, _, accepted, table, fun d => ?_, marked⟩
  rw [← first d, one, Option.some.injEq, eq_comm]

end Lox
