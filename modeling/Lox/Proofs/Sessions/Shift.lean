/-
The static checks of a text when its references are counted from elsewhere. Neither the parser nor
the walk looks at an id: a text is rejected for the same errors (`check_shift_error`), or accepted as
the same program with other ids (`check_shift_ok`), and uses up as many ids.
-/
import Lox.Proofs.Grammar.Shift
import Lox.Proofs.Lockstep.Session
import Lox.Proofs.Scoping.Mapped

namespace Lox

namespace Recoding

/-- Each id `d` greater, and the tokens as they are. -/
def shifted (d : Nat) : Recoding := ⟨(· + d), id, Token.kind_id, Token.lexeme_id⟩

theorem unseen_shifted (d : Nat) : (shifted d).Unseen (id : StaticError → StaticError) id :=
  fun _ _ => rfl

end Recoding

/-! ## Programs -/

mutual

theorem Stmt.declaresFunction_map (ids : Nat → Nat) (token : Token → Token) :
    ∀ s : Stmt, (s.map ids token).declaresFunction = s.declaresFunction
  | .block body => anyDeclaresFunction_map ids token body
  | .function ⟨_, _, _⟩ => rfl
  | .if _ thenBranch none => declaresFunction_map ids token thenBranch
  | .if _ thenBranch (some elseBranch) => by
    rw [Stmt.map, declaresFunction, declaresFunction, declaresFunction_map ids token thenBranch,
      declaresFunction_map ids token elseBranch]
  | .while _ body => declaresFunction_map ids token body
  | .class _ _ | .var _ _ | .expression _ | .print _ | .return _ _ => rfl

theorem Stmt.anyDeclaresFunction_map (ids : Nat → Nat) (token : Token → Token) :
    ∀ ss : List Stmt, Stmt.anyDeclaresFunction (Stmt.mapAll ids token ss) =
      Stmt.anyDeclaresFunction ss
  | [] => rfl
  | s :: ss => by
    rw [mapAll, anyDeclaresFunction, anyDeclaresFunction, declaresFunction_map ids token s,
      anyDeclaresFunction_map ids token ss]

end

/-- The second program is the first with each id `d` greater. -/
structure Program.Shifted (d : Nat) (p p' : Program) : Prop where
  statements : p'.statements = Stmt.mapAll (· + d) id p.statements

namespace Program.Shifted

variable {d : Nat} {p p' : Program} (shifted : p.Shifted d p')

include shifted

theorem declaresFunction : Stmt.anyDeclaresFunction p'.statements =
    Stmt.anyDeclaresFunction p.statements := by
  rw [shifted.statements, Stmt.anyDeclaresFunction_map]

/-- With ids that move as far for all of its references, the first program is recoded to what the
second is recoded to with the same ids. -/
theorem recodeAll {r r' : Recoding} (tokens : r.token = r'.token) (plain : ∀ i, r'.ids i = i)
    (moved : ∀ v ∈ p.visits, r.ids v.id = v.id + d) :
    Stmt.recodeAll r p.statements = Stmt.recodeAll r' p'.statements := by
  let far : Recoding := { r' with ids := (· + d) }
  have renamed : Stmt.recodeAll r p.statements = Stmt.recodeAll far p.statements := by
    refine @Stmt.recodeAll_congr r far tokens _ fun i hi => ?_
    rw [← Stmt.ids_visitsAll [] false .start] at hi
    obtain ⟨v, hv, rfl⟩ := List.mem_map.1 hi
    exact moved v hv
  have mapped : Stmt.recodeAll r' p'.statements = Stmt.recodeAll far p.statements := by
    rw [shifted.statements]
    exact @Stmt.recodeAll_map (· + d) id far r' (fun i => plain (i + d)) (fun _ => rfl) _
  exact renamed.trans mapped.symm

/-- The walk meets the same references in both. -/
theorem visits {ids : Nat → Nat} (moved : ∀ v ∈ p.visits, ids v.id = v.id + d) :
    p'.visits = p.visits.map (Visit.renamed ids) := by
  have mapped := visitsOf_mapAll (.shifted d) p.statements
  rw [Program.visits, shifted.statements]
  refine mapped.trans (List.map_congr_left fun v hv => ?_)
  exact congrArg (fun i => ({ v with id := i } : Visit)) (moved v hv).symm

end Program.Shifted

/-! ## Checks -/

namespace Session

theorem check_eq {s : Session} {source : String} {statements : List Stmt} {ds : Distances}
    {n : Nat} (parsed : Parse.program s.nextId (Item.tokens (scan source)) = ⟨.ok statements, n⟩)
    (lexical : Item.errors (scan source) = []) (resolved : distancesOf statements = .ok ds) :
    s.check source = (.ok ⟨statements, ds⟩, { s with nextId := n }) := by
  simp only [check, parsed, lexical, resolved]
  rfl

variable {s s' t : Session} {d : Nat} {source : String}

/-- A check uses up ids and does nothing else to the session. -/
theorem eq_of_check {result : Except (List StaticError) Program}
    (h : s.check source = (result, t)) : t = { s with nextId := t.nextId } ∧ s.nextId ≤ t.nextId := by
  obtain rfl : (s.check source).2 = t := congrArg Prod.snd h
  exact ⟨rfl, nextId_check s source⟩

theorem check_shift_error (hs : s'.nextId = s.nextId + d) {errors : List StaticError}
    (h : s.check source = (.error errors, t)) :
    s'.check source = (.error errors, { s' with nextId := t.nextId + d }) := by
  have shifted := Parse.program_shift s.nextId d (Item.tokens (scan source))
  simp only [check, hs, shifted]
  simp only [check, Prod.mk.injEq] at h
  obtain ⟨h, rfl⟩ := h
  cases hp : (Parse.program s.nextId (Item.tokens (scan source))).program with
  | error syntactic =>
    rw [hp] at h
    cases h
    rfl
  | ok statements =>
    rw [hp] at h
    cases hl : Item.errors (scan source) with
    | cons e es =>
      rw [hl] at h
      cases h
      rfl
    | nil =>
      rw [hl] at h
      cases hr : distancesOf statements with
      | ok ds =>
        simp only [hr] at h
        cases h
      | error scoping =>
        simp only [hr] at h
        cases h
        obtain ⟨errors', hr', same⟩ := error_distancesOf_mapAll _ (Recoding.unseen_shifted d) hr
        rw [List.map_id, List.map_id] at same
        subst same
        exact congrArg (·, _) (congrArg (Except.map _) hr')

theorem check_shift_ok (hs : s'.nextId = s.nextId + d) {p : Program}
    (h : s.check source = (.ok p, t)) : ∃ p',
      s'.check source = (.ok p', { s' with nextId := t.nextId + d }) ∧ p.Shifted d p' := by
  obtain ⟨parsed, next, lexical, resolved⟩ := parsed_of_check h
  have shifted := Parse.program_shift s.nextId d (Item.tokens (scan source))
  rw [parsed, ← next, ← hs] at shifted
  obtain ⟨ds, resolved'⟩ := exists_distancesOf_mapAll (.shifted d) resolved
  exact ⟨_, check_eq shifted lexical resolved', ⟨rfl⟩⟩

end Session

end Lox
