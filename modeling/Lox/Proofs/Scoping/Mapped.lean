/-
The static walk looks at lexemes only. With other ids and with tokens on other lines it meets the
same references under other ids (`visitsOf_mapAll`) and finds the same errors on other lines
(`error_distancesOf_mapAll`). At the top level it keeps nothing of one statement for the next, so
one program can follow another (`exists_distancesOf_append`).
-/
import Lox.Proofs.Scoping.Accepted
import Lox.Proofs.Syntax.Recode

namespace Lox

open Scoping

/-- The error without its line. -/
def StaticError.unlined : StaticError → StaticError
  | lexical _ fault => lexical 0 fault
  | syntactic token fault => syntactic token.unlined fault
  | scoping token fault => scoping token.unlined fault

theorem Recoding.unlined_token (r : Recoding) (t : Token) : (r.token t).unlined = t.unlined := by
  simp [Token.unlined]

/-- The walks are at the same place and have found errors that look the same, those of the second in a
way of their own. -/
structure Scoping.Mirrors {α : Type} (look look' : StaticError → α) (w w' : Scoping) : Prop where
  scopes : w.scopes = w'.scopes
  errors : w.errors.map look = w'.errors.map look'

/-- The walks are at the same place and have found the same errors, but for their lines. -/
structure Scoping.Alike (w w' : Scoping) : Prop where
  scopes : w.scopes = w'.scopes
  errors : w.errors.map StaticError.unlined = w'.errors.map StaticError.unlined

theorem Scoping.alike_iff_mirrors {w w' : Scoping} :
    w.Alike w' ↔ w.Mirrors StaticError.unlined StaticError.unlined w' :=
  ⟨fun h => ⟨h.scopes, h.errors⟩, fun h => ⟨h.scopes, h.errors⟩⟩

/-- Errors with their tokens recoded look in the second way as they do in the first. -/
def Recoding.Unseen {α : Type} (r : Recoding) (look look' : StaticError → α) : Prop :=
  ∀ t fault, look' (.scoping (r.token t) fault) = look (.scoping t fault)

theorem Recoding.unseen_map (r : Recoding) (line : Nat → Nat) :
    r.Unseen (StaticError.map r.token line) id := fun _ _ => rfl

theorem Recoding.unseen_unlined (r : Recoding) :
    r.Unseen StaticError.unlined StaticError.unlined := fun t fault =>
  congrArg (StaticError.scoping · fault) (r.unlined_token t)

namespace Scoping.Mirrors

variable {α : Type} {look look' : StaticError → α} {w w' : Scoping} {r : Recoding}
  (unseen : r.Unseen look look')

theorem refl (w : Scoping) : w.Mirrors look look w := ⟨rfl, rfl⟩

include unseen

theorem report (h : w.Mirrors look look' w') (t : Token) (fault : ScopeFault) :
    (w.report t fault).Mirrors look look' (w'.report (r.token t) fault) := by
  refine ⟨h.scopes, ?_⟩
  simp only [Scoping.report, List.map_cons, unseen t fault, h.errors]

omit unseen

theorem enter (h : w.Mirrors look look' w') : w.enter.Mirrors look look' w'.enter :=
  ⟨congrArg (List.cons _) h.scopes, h.errors⟩

theorem leave (h : w.Mirrors look look' w') : w.leave.Mirrors look look' w'.leave :=
  ⟨congrArg List.tail h.scopes, h.errors⟩

theorem define (h : w.Mirrors look look' w') (r : Recoding) (name : Token) :
    (w.define name).Mirrors look look' (w'.define (r.token name)) := by
  refine ⟨by rw [scopes_define, scopes_define, h.scopes, r.lexeme_token], ?_⟩
  rw [errors_define, errors_define]
  exact h.errors

theorem refer (h : w.Mirrors look look' w') (id id' : Nat) (name name' : Token) :
    (w.refer id name).Mirrors look look' (w'.refer id' name') := by
  refine ⟨by rw [scopes_refer, scopes_refer, h.scopes], ?_⟩
  rw [errors_refer, errors_refer]
  exact h.errors

include unseen

theorem declare (h : w.Mirrors look look' w') (name : Token) :
    (w.declare name).Mirrors look look' (w'.declare (r.token name)) := by
  obtain ⟨scopes, ds, errors⟩ := w
  obtain ⟨scopes', ds', errors'⟩ := w'
  obtain ⟨rfl, he⟩ := h
  cases scopes with
  | nil => exact ⟨rfl, he⟩
  | cons scope outer =>
    have here : Scoping.Mirrors look look' ⟨scope :: outer, ds, errors⟩
        ⟨scope :: outer, ds', errors'⟩ := ⟨rfl, he⟩
    -- only the lexeme decides whether the name is taken
    simp only [Scoping.declare, r.lexeme_token]
    split
    · exact here.report unseen name .alreadyDeclared
    · exact ⟨rfl, he⟩

theorem introduce (h : w.Mirrors look look' w') (name : Token) :
    (w.introduce name).Mirrors look look' (w'.introduce (r.token name)) :=
  (h.declare unseen name).define r name

theorem introduceAll (h : w.Mirrors look look' w') (names : List Token) :
    (names.foldl Scoping.introduce w).Mirrors look look'
      ((names.map r.token).foldl Scoping.introduce w') := by
  induction names generalizing w w' with
  | nil => exact h
  | cons name names ih => exact ih (h.introduce unseen name)

theorem read (h : w.Mirrors look look' w') (id id' : Nat) (name : Token) :
    (w.read id name).Mirrors look look' (w'.read id' (r.token name)) := by
  unfold Scoping.read
  rw [h.scopes, r.lexeme_token]
  split
  · exact (h.report unseen ..).refer ..
  · exact h.refer ..

end Scoping.Mirrors

/-- The reference under another id. -/
def Visit.renamed (ids : Nat → Nat) (v : Visit) : Visit := { v with id := ids v.id }

section

variable {α : Type} {look look' : StaticError → α} {r : Recoding}

mutual

theorem Expr.mirrors_scope (unseen : r.Unseen look look') {w w' : Scoping}
    (h : w.Mirrors look look' w') :
    ∀ e : Expr, (e.scope w).Mirrors look look' ((e.map r.ids r.token).scope w')
  | .literal _ => h
  | .group inner => inner.mirrors_scope unseen h
  | .unary _ right => right.mirrors_scope unseen h
  | .binary left _ right | .logical left _ right =>
    right.mirrors_scope unseen (left.mirrors_scope unseen h)
  | .variable _ name => h.read unseen _ _ name
  | .assign _ _ value => (value.mirrors_scope unseen h).refer ..
  | .call callee _ args => mirrors_scopeAll unseen (callee.mirrors_scope unseen h) args
  | .get object _ => object.mirrors_scope unseen h
  | .set object _ value => object.mirrors_scope unseen (value.mirrors_scope unseen h)

theorem Expr.mirrors_scopeAll (unseen : r.Unseen look look') {w w' : Scoping}
    (h : w.Mirrors look look' w') : ∀ es : List Expr,
      (Expr.scopeAll w es).Mirrors look look' (Expr.scopeAll w' (Expr.mapAll r.ids r.token es))
  | [] => h
  | e :: es => mirrors_scopeAll unseen (e.mirrors_scope unseen h) es

end

theorem Expr.mirrors_scope? (unseen : r.Unseen look look') {w w' : Scoping}
    (h : w.Mirrors look look' w') (e : Option Expr) :
    (Expr.scope? w e).Mirrors look look' (Expr.scope? w' (e.map (Expr.map r.ids r.token))) := by
  cases e with
  | none => exact h
  | some e => exact e.mirrors_scope unseen h

mutual

/-- Walks through mapped statements go on in step. -/
theorem Stmt.mirrors_scope (unseen : r.Unseen look look') (b : Bool) {w w' : Scoping}
    (h : w.Mirrors look look' w') :
    ∀ s : Stmt, (s.scope b w).Mirrors look look' ((s.map r.ids r.token).scope b w')
  | .block body => (mirrors_scopeAll unseen b h.enter body).leave
  | .class name _ => h.introduce unseen name
  | .var name initializer =>
    (Expr.mirrors_scope? unseen (h.declare unseen name) initializer).define r name
  | .function ⟨name, params, body⟩ =>
    (mirrors_scopeAll unseen true ((h.introduce unseen name).enter.introduceAll unseen params)
      body).leave
  | .expression e | .print e => e.mirrors_scope unseen h
  | .if condition thenBranch none =>
    thenBranch.mirrors_scope unseen b (condition.mirrors_scope unseen h)
  | .if condition thenBranch (some elseBranch) =>
    elseBranch.mirrors_scope unseen b
      (thenBranch.mirrors_scope unseen b (condition.mirrors_scope unseen h))
  | .while condition body => body.mirrors_scope unseen b (condition.mirrors_scope unseen h)
  | .return keyword value => by
    cases b with
    | true => exact Expr.mirrors_scope? unseen h value
    | false => exact Expr.mirrors_scope? unseen (h.report unseen ..) value

theorem Stmt.mirrors_scopeAll (unseen : r.Unseen look look') (b : Bool) {w w' : Scoping}
    (h : w.Mirrors look look' w') : ∀ ss : List Stmt, (Stmt.scopeAll b w ss).Mirrors look look'
      (Stmt.scopeAll b w' (Stmt.mapAll r.ids r.token ss))
  | [] => h
  | s :: ss => mirrors_scopeAll unseen b (s.mirrors_scope unseen b h) ss

end

/-! ## References -/

mutual

theorem Expr.references_map : ∀ e : Expr, (e.map r.ids r.token).references =
    e.references.map fun ref => ⟨r.ids ref.id, r.token ref.name, ref.reads⟩
  | .literal _ => rfl
  | .group inner => inner.references_map
  | .unary _ right => right.references_map
  | .binary left _ right | .logical left _ right => by
    simp [references, references_map left, references_map right]
  | .variable id name => rfl
  | .assign id name value => by simp [references, references_map value]
  | .call callee _ args => by simp [references, references_map callee, referencesAll_map args]
  | .get object _ => object.references_map
  | .set object _ value => by simp [references, references_map object, references_map value]

theorem Expr.referencesAll_map : ∀ es : List Expr,
    Expr.referencesAll (Expr.mapAll r.ids r.token es) =
      (Expr.referencesAll es).map fun ref => ⟨r.ids ref.id, r.token ref.name, ref.reads⟩
  | [] => rfl
  | e :: es => by simp [referencesAll, references_map e, referencesAll_map es]

end

theorem Expr.visits_map (declared : List (List String)) (b : Bool) {w w' : Scoping}
    (h : w.scopes = w'.scopes) (e : Expr) : (e.map r.ids r.token).visits declared b w' =
      (e.visits declared b w).map (Visit.renamed r.ids) := by
  rw [visits_eq, visits_eq, references_map, h, List.map_map, List.map_map]
  refine List.map_congr_left fun ref _ => ?_
  simp [Reference.visitAt, Visit.renamed]

theorem Expr.visits?_map (declared : List (List String)) (b : Bool) {w w' : Scoping}
    (h : w.scopes = w'.scopes) (e : Option Expr) :
    Expr.visits? declared b w' (e.map (Expr.map r.ids r.token)) =
      (Expr.visits? declared b w e).map (Visit.renamed r.ids) := by
  cases e with
  | none => rfl
  | some e => exact e.visits_map declared b h

theorem Stmt.declares_map (s : Stmt) : (s.map r.ids r.token).declares = s.declares := by
  cases s with
  | «if» condition thenBranch elseBranch => cases elseBranch <;> rfl
  | _ => simp [declares]

theorem Stmt.flatMap_declares_map (ss : List Stmt) :
    (Stmt.mapAll r.ids r.token ss).flatMap Stmt.declares = ss.flatMap Stmt.declares := by
  induction ss with
  | nil => rfl
  | cons s ss ih => simp [ih, declares_map]

mutual

/-- A walk through mapped statements meets the same references under other ids. -/
theorem Stmt.visits_map (unseen : r.Unseen look look') (declared : List (List String)) (b : Bool)
    {w w' : Scoping} (h : w.Mirrors look look' w') : ∀ s : Stmt,
      (s.map r.ids r.token).visits declared b w' =
        (s.visits declared b w).map (Visit.renamed r.ids)
  | .block body => by
    rw [Stmt.map, visits, visits, flatMap_declares_map, visitsAll_map unseen _ b h.enter body]
  | .class name _ => rfl
  | .var name initializer => Expr.visits?_map declared b (h.declare unseen name).scopes initializer
  | .function ⟨name, params, body⟩ => by
    -- parameters on other lines have the same names
    have names : (params.map r.token).map (·.lexeme) = params.map (·.lexeme) := by
      rw [List.map_map]
      exact List.map_congr_left fun t _ => r.lexeme_token t
    have inner := (h.introduce unseen name).enter.introduceAll unseen params
    rw [Stmt.map, visits, visits, flatMap_declares_map, names,
      visitsAll_map unseen _ true inner body]
  | .expression e | .print e => e.visits_map declared b h.scopes
  | .if condition thenBranch none => by
    have inner := condition.mirrors_scope unseen h
    rw [Stmt.map, visits, visits, condition.visits_map declared b h.scopes,
      visits_map unseen declared b inner thenBranch, List.map_append]
  | .if condition thenBranch (some elseBranch) => by
    have inner := condition.mirrors_scope unseen h
    have behind := mirrors_scope unseen b inner thenBranch
    rw [Stmt.map, visits, visits, condition.visits_map declared b h.scopes,
      visits_map unseen declared b inner thenBranch, visits_map unseen declared b behind elseBranch,
      List.map_append, List.map_append]
  | .while condition body => by
    have inner := condition.mirrors_scope unseen h
    rw [Stmt.map, visits, visits, condition.visits_map declared b h.scopes,
      visits_map unseen declared b inner body, List.map_append]
  | .return keyword value => by
    cases b with
    | true => exact Expr.visits?_map declared true h.scopes value
    | false => exact Expr.visits?_map declared false (h.report unseen ..).scopes value

theorem Stmt.visitsAll_map (unseen : r.Unseen look look') (declared : List (List String)) (b : Bool)
    {w w' : Scoping} (h : w.Mirrors look look' w') : ∀ ss : List Stmt,
      Stmt.visitsAll declared b w' (Stmt.mapAll r.ids r.token ss) =
        (Stmt.visitsAll declared b w ss).map (Visit.renamed r.ids)
  | [] => rfl
  | s :: ss => by
    rw [Stmt.mapAll, visitsAll, visitsAll, visits_map unseen declared b h s,
      visitsAll_map unseen declared b (mirrors_scope unseen b h s) ss, List.map_append]

end

end

/-! ## Programs -/

section

variable (r : Recoding)

theorem visitsOf_mapAll (program : List Stmt) :
    visitsOf (Stmt.mapAll r.ids r.token program) =
      (visitsOf program).map (Visit.renamed r.ids) :=
  Stmt.visitsAll_map r.unseen_unlined [] false (.refl _) program

/-- A mapped program is rejected for errors that look the same. -/
theorem error_distancesOf_mapAll {α : Type} {look look' : StaticError → α}
    (unseen : r.Unseen look look') {program : List Stmt} {errors : List StaticError} (h : distancesOf program = .error errors) :
    ∃ errors', distancesOf (Stmt.mapAll r.ids r.token program) = .error errors' ∧
      errors'.map look' = errors.map look := by
  have start : Scoping.Mirrors look look' .start .start := ⟨rfl, rfl⟩
  have mirrors := Stmt.mirrors_scopeAll unseen false start program
  unfold distancesOf at h ⊢
  dsimp only at h ⊢
  split at h
  · cases h
  · rename_i found
    cases h
    have found' : ¬(Stmt.scopeAll false .start
        (Stmt.mapAll r.ids r.token program)).errors.isEmpty = true := by
      have same := congrArg List.isEmpty mirrors.errors
      rw [List.isEmpty_map, List.isEmpty_map] at same
      rwa [← same]
    rw [if_neg found']
    exact ⟨_, rfl, by rw [List.map_reverse, List.map_reverse, mirrors.errors]⟩

theorem Stmt.scopeAll_append (b : Bool) (w : Scoping) (ss ss' : List Stmt) :
    Stmt.scopeAll b w (ss ++ ss') = Stmt.scopeAll b (Stmt.scopeAll b w ss) ss' := by
  induction ss generalizing w with
  | nil => rfl
  | cons s ss ih => exact ih _

theorem Stmt.visitsAll_append (declared : List (List String)) (b : Bool) (w : Scoping)
    (ss ss' : List Stmt) : Stmt.visitsAll declared b w (ss ++ ss') =
      Stmt.visitsAll declared b w ss ++
        Stmt.visitsAll declared b (Stmt.scopeAll b w ss) ss' := by
  induction ss generalizing w with
  | nil => rfl
  | cons s ss ih =>
    rw [List.cons_append, visitsAll, ih, visitsAll, scopeAll, List.append_assoc]

/-- Behind a program that is accepted the walk is where it was before it: the top level is not a
scope. -/
theorem alike_scopeAll_start {program : List Stmt} {ds : Distances}
    (straight : Stmt.AllStraight program) (h : distancesOf program = .ok ds) :
    Scoping.Alike .start (Stmt.scopeAll false .start program) := by
  refine ⟨?_, by rw [(distancesOf_eq_ok.1 h).1]; rfl⟩
  rw [Stmt.scopes_scopeAll false .start program straight]
  exact (foldl_introduceIn_nil _).symm

/-- A program that is accepted can be followed by another. -/
theorem exists_distancesOf_append {program program' : List Stmt} {ds ds' : Distances}
    (straight : Stmt.AllStraight program) (h : distancesOf program = .ok ds)
    (h' : distancesOf program' = .ok ds') :
    ∃ ds'', distancesOf (program ++ Stmt.mapAll r.ids r.token program') = .ok ds'' := by
  -- behind the first program the second is walked as from the start
  have second := (distancesOf_eq_ok.1 h').1
  have behind := Scoping.alike_iff_mirrors.1 (alike_scopeAll_start straight h)
  have mirrors := (Stmt.mirrors_scopeAll r.unseen_unlined false behind program').errors
  rw [second, List.map_nil, eq_comm, List.map_eq_nil_iff] at mirrors
  exact ⟨_, distancesOf_eq_ok.2 ⟨by rw [Stmt.scopeAll_append, mirrors], rfl⟩⟩

theorem exists_distancesOf_mapAll {program : List Stmt} {ds : Distances}
    (h : distancesOf program = .ok ds) :
    ∃ ds', distancesOf (Stmt.mapAll r.ids r.token program) = .ok ds' := by
  have empty : Stmt.AllStraight [] := trivial
  exact exists_distancesOf_append r empty rfl h

theorem visitsOf_append_mapAll {program : List Stmt} {ds : Distances}
    (straight : Stmt.AllStraight program) (h : distancesOf program = .ok ds)
    (program' : List Stmt) : visitsOf (program ++ Stmt.mapAll r.ids r.token program') =
      visitsOf program ++ (visitsOf program').map (Visit.renamed r.ids) := by
  have behind := Scoping.alike_iff_mirrors.1 (alike_scopeAll_start straight h)
  rw [visitsOf, Stmt.visitsAll_append, Stmt.visitsAll_map r.unseen_unlined [] false behind program',
    visitsOf, visitsOf]

end

end Lox
