/-
What the static walk meets. A `Visit` is one reference of a program with the place the walk is at
when it gets there: the open scopes, all names that the blocks and functions around it declare
anywhere, and whether it is inside a function. The visits of a program are listed by a recursion
that carries the walk itself along, so that the scopes of a visit are the walk's.

Only the open scopes of a walk matter for what it meets (`visits_congr`), and expressions leave them
as they are.
-/
import Lox.Scope

namespace Lox

/-! ## Places and visits -/

/-- Where a walk is. -/
structure Site where
  /-- The open scopes, innermost first. -/
  scopes : List Scope
  /-- For each open scope, the names that its block or function declares, before or behind. -/
  declared : List (List String)
  inFunction : Bool

/-- A reference as the walk meets it. -/
structure Visit where
  id : Nat
  name : String
  /-- Is the variable read, and not written? -/
  reads : Bool
  site : Site

/-- The names that a statement declares in the scope it stands in. -/
def Stmt.declares : Stmt → List String
  | .class name _ => [name.lexeme]
  | .function decl => [decl.name.lexeme]
  | .var name _ => [name.lexeme]
  | _ => []

mutual

/-- The references of an expression, in the order of the walk. -/
def Expr.visits (declared : List (List String)) (inFunction : Bool) (w : Scoping) :
    Expr → List Visit
  | .literal _ => []
  | .group inner => inner.visits declared inFunction w
  | .unary _ right => right.visits declared inFunction w
  | .binary left _ right =>
    left.visits declared inFunction w ++ right.visits declared inFunction (left.scope w)
  | .logical left _ right =>
    left.visits declared inFunction w ++ right.visits declared inFunction (left.scope w)
  | .variable id name => [⟨id, name.lexeme, true, w.scopes, declared, inFunction⟩]
  | .assign id name value =>
    value.visits declared inFunction w ++
      [⟨id, name.lexeme, false, (value.scope w).scopes, declared, inFunction⟩]
  | .call callee _ args =>
    callee.visits declared inFunction w ++
      Expr.visitsAll declared inFunction (callee.scope w) args
  | .get object _ => object.visits declared inFunction w
  | .set object _ value =>
    value.visits declared inFunction w ++ object.visits declared inFunction (value.scope w)

def Expr.visitsAll (declared : List (List String)) (inFunction : Bool) (w : Scoping) :
    List Expr → List Visit
  | [] => []
  | e :: es =>
    e.visits declared inFunction w ++ Expr.visitsAll declared inFunction (e.scope w) es

end

/-- The references of an expression that may be absent. -/
def Expr.visits? (declared : List (List String)) (inFunction : Bool) (w : Scoping) :
    Option Expr → List Visit
  | none => []
  | some e => e.visits declared inFunction w

mutual

/-- The references of a statement, in the order of the walk. -/
def Stmt.visits (declared : List (List String)) (inFunction : Bool) (w : Scoping) :
    Stmt → List Visit
  | .block body =>
    Stmt.visitsAll (body.flatMap Stmt.declares :: declared) inFunction w.enter body
  | .class _ _ => []
  | .var name initializer =>
    Expr.visits? declared inFunction (w.declare name) initializer
  | .function ⟨name, params, body⟩ =>
    -- parameters and the names of the body share one scope
    Stmt.visitsAll ((params.map (·.lexeme) ++ body.flatMap Stmt.declares) :: declared) true
      (params.foldl Scoping.introduce (w.introduce name).enter) body
  | .expression e => e.visits declared inFunction w
  | .print e => e.visits declared inFunction w
  | .if condition thenBranch none =>
    condition.visits declared inFunction w ++
      thenBranch.visits declared inFunction (condition.scope w)
  | .if condition thenBranch (some elseBranch) =>
    condition.visits declared inFunction w ++
      thenBranch.visits declared inFunction (condition.scope w) ++
      elseBranch.visits declared inFunction (thenBranch.scope inFunction (condition.scope w))
  | .while condition body =>
    condition.visits declared inFunction w ++
      body.visits declared inFunction (condition.scope w)
  | .return keyword value =>
    Expr.visits? declared inFunction
      -- a misplaced `return` is reported, and the walk goes on
      (if inFunction then w else w.report keyword .returnOutsideFunction) value

def Stmt.visitsAll (declared : List (List String)) (inFunction : Bool) (w : Scoping) :
    List Stmt → List Visit
  | [] => []
  | s :: ss =>
    s.visits declared inFunction w ++
      Stmt.visitsAll declared inFunction (s.scope inFunction w) ss

end

/-- All references of a program. -/
def visitsOf (program : List Stmt) : List Visit := Stmt.visitsAll [] false .start program

/-! ## Expressions -/

/-- A reference without its place. -/
structure Reference where
  id : Nat
  name : Token
  reads : Bool

namespace Reference

/-- The walk behind the reference. -/
def walk (w : Scoping) (r : Reference) : Scoping :=
  if r.reads then w.read r.id r.name else w.refer r.id r.name

/-- The reference at a place. -/
def visitAt (r : Reference) (π : Site) : Visit := ⟨r.id, r.name.lexeme, r.reads, π⟩

end Reference

mutual

/-- The references of an expression, in the order of the walk. -/
def Expr.references : Expr → List Reference
  | .literal _ => []
  | .group inner => inner.references
  | .unary _ right => right.references
  | .binary left _ right => left.references ++ right.references
  | .logical left _ right => left.references ++ right.references
  | .variable id name => [⟨id, name, true⟩]
  | .assign id name value => value.references ++ [⟨id, name, false⟩]
  | .call callee _ args => callee.references ++ Expr.referencesAll args
  | .get object _ => object.references
  | .set object _ value => value.references ++ object.references

def Expr.referencesAll : List Expr → List Reference
  | [] => []
  | e :: es => e.references ++ Expr.referencesAll es

end

/-- The references of an expression that may be absent. -/
def Expr.references? : Option Expr → List Reference
  | none => []
  | some e => e.references

mutual

/-- The walk through an expression meets its references one after another. -/
theorem Expr.scope_eq (w : Scoping) : ∀ e : Expr, e.scope w = e.references.foldl Reference.walk w
  | .literal _ => rfl
  | .group inner => by simp [Expr.scope, references, scope_eq w inner]
  | .unary _ right => by simp [Expr.scope, references, scope_eq w right]
  | .binary left _ right | .logical left _ right => by
    simp [Expr.scope, references, scope_eq w left, scope_eq _ right]
  | .variable id name => rfl
  | .assign id name value => by
    simp [Expr.scope, references, scope_eq w value, Reference.walk]
  | .call callee _ args => by
    simp [Expr.scope, references, scope_eq w callee, scopeAll_eq _ args]
  | .get object _ => by simp [Expr.scope, references, scope_eq w object]
  | .set object _ value => by
    simp [Expr.scope, references, scope_eq w value, scope_eq _ object]

theorem Expr.scopeAll_eq (w : Scoping) : ∀ es : List Expr,
    Expr.scopeAll w es = (Expr.referencesAll es).foldl Reference.walk w
  | [] => rfl
  | e :: es => by simp [Expr.scopeAll, referencesAll, scope_eq w e, scopeAll_eq _ es]

end

theorem Expr.scope?_eq (w : Scoping) (e : Option Expr) :
    Expr.scope? w e = (Expr.references? e).foldl Reference.walk w := by
  cases e with
  | none => rfl
  | some e => exact e.scope_eq w

namespace Scoping

@[simp] theorem scopes_report (w : Scoping) (t : Token) (fault : ScopeFault) :
    (w.report t fault).scopes = w.scopes := rfl

@[simp] theorem scopes_refer (w : Scoping) (id : Nat) (name : Token) :
    (w.refer id name).scopes = w.scopes := by
  unfold refer
  split <;> rfl

@[simp] theorem scopes_read (w : Scoping) (id : Nat) (name : Token) :
    (w.read id name).scopes = w.scopes := by
  unfold read
  split <;> simp

@[simp] theorem scopes_walk (w : Scoping) (r : Reference) : (r.walk w).scopes = w.scopes := by
  unfold Reference.walk
  split <;> simp

theorem scopes_walks (w : Scoping) (rs : List Reference) :
    (rs.foldl Reference.walk w).scopes = w.scopes := by
  induction rs generalizing w with
  | nil => rfl
  | cons r rs ih => rw [List.foldl_cons, ih, scopes_walk]

end Scoping

/-- An expression opens no scope and declares nothing. -/
@[simp] theorem Expr.scopes_scope (w : Scoping) (e : Expr) : (e.scope w).scopes = w.scopes := by
  rw [scope_eq, Scoping.scopes_walks]

@[simp] theorem Expr.scopes_scope? (w : Scoping) (e : Option Expr) :
    (Expr.scope? w e).scopes = w.scopes := by
  rw [scope?_eq, Scoping.scopes_walks]

mutual

/-- All references of an expression are met at one place. -/
theorem Expr.visits_eq (declared : List (List String)) (inFunction : Bool) (w : Scoping) :
    ∀ e : Expr, e.visits declared inFunction w =
      e.references.map (·.visitAt ⟨w.scopes, declared, inFunction⟩)
  | .literal _ => rfl
  | .group inner => by simp [visits, references, visits_eq declared inFunction w inner]
  | .unary _ right => by simp [visits, references, visits_eq declared inFunction w right]
  | .binary left _ right | .logical left _ right => by
    simp [visits, references, visits_eq declared inFunction _ left,
      visits_eq declared inFunction _ right]
  | .variable id name => rfl
  | .assign id name value => by
    simp [visits, references, visits_eq declared inFunction w value, Reference.visitAt]
  | .call callee _ args => by
    simp [visits, references, visits_eq declared inFunction w callee,
      visitsAll_eq declared inFunction _ args]
  | .get object _ => by simp [visits, references, visits_eq declared inFunction w object]
  | .set object _ value => by
    simp [visits, references, visits_eq declared inFunction _ value,
      visits_eq declared inFunction _ object]

theorem Expr.visitsAll_eq (declared : List (List String)) (inFunction : Bool) (w : Scoping) :
    ∀ es : List Expr, Expr.visitsAll declared inFunction w es =
      (Expr.referencesAll es).map (·.visitAt ⟨w.scopes, declared, inFunction⟩)
  | [] => rfl
  | e :: es => by
    simp [visitsAll, referencesAll, visits_eq declared inFunction w e,
      visitsAll_eq declared inFunction _ es]

end

theorem Expr.visits?_eq (declared : List (List String)) (inFunction : Bool) (w : Scoping)
    (e : Option Expr) : Expr.visits? declared inFunction w e =
      (Expr.references? e).map (·.visitAt ⟨w.scopes, declared, inFunction⟩) := by
  cases e with
  | none => rfl
  | some e => exact e.visits_eq declared inFunction w

theorem Expr.site_of_mem_visits {declared : List (List String)} {b : Bool} {w : Scoping}
    {e : Expr} {v : Visit} (hv : v ∈ e.visits declared b w) : v.site = ⟨w.scopes, declared, b⟩ := by
  rw [visits_eq] at hv
  obtain ⟨r, -, rfl⟩ := List.mem_map.1 hv
  rfl

/-! ## Scopes behind a statement -/

namespace Scoping

/-- The open scopes when a name is declared in the innermost one. -/
def declareIn (name : String) : List Scope → List Scope
  | [] => []
  | scope :: outer => (if scope.binds name then scope else scope.put name false) :: outer

/-- The open scopes when a name of the innermost one is made ready. -/
def defineIn (name : String) : List Scope → List Scope
  | [] => []
  | scope :: outer => scope.put name true :: outer

/-- The open scopes when a name is declared and made ready. -/
def introduceIn (scopes : List Scope) (name : String) : List Scope :=
  defineIn name (declareIn name scopes)

@[simp] theorem scopes_declare (w : Scoping) (name : Token) :
    (w.declare name).scopes = declareIn name.lexeme w.scopes := by
  obtain ⟨scopes, ds, errors⟩ := w
  cases scopes with
  | nil => rfl
  | cons scope outer =>
    simp only [declare, declareIn]
    split <;> rfl

@[simp] theorem scopes_define (w : Scoping) (name : Token) :
    (w.define name).scopes = defineIn name.lexeme w.scopes := by
  obtain ⟨scopes, ds, errors⟩ := w
  cases scopes <;> rfl

@[simp] theorem scopes_introduce (w : Scoping) (name : Token) :
    (w.introduce name).scopes = introduceIn w.scopes name.lexeme := by
  rw [introduce, scopes_define, scopes_declare, introduceIn]

@[simp] theorem scopes_enter (w : Scoping) : w.enter.scopes = .empty :: w.scopes := rfl

@[simp] theorem scopes_leave (w : Scoping) : w.leave.scopes = w.scopes.tail := rfl

theorem scopes_introduceAll (w : Scoping) (names : List Token) :
    (names.foldl introduce w).scopes = (names.map (·.lexeme)).foldl introduceIn w.scopes := by
  induction names generalizing w with
  | nil => rfl
  | cons name names ih => rw [List.foldl_cons, ih, scopes_introduce, List.map_cons, List.foldl_cons]

/-- The top level is not a scope, so nothing is declared there. -/
theorem foldl_introduceIn_nil (names : List String) : names.foldl introduceIn [] = [] := by
  induction names with
  | nil => rfl
  | cons name names ih => exact ih

theorem tail_introduceIn (scopes : List Scope) (name : String) :
    (introduceIn scopes name).tail = scopes.tail := by
  cases scopes <;> rfl

theorem tail_introduceAll (scopes : List Scope) (names : List String) :
    (names.foldl introduceIn scopes).tail = scopes.tail := by
  induction names generalizing scopes with
  | nil => rfl
  | cons name names ih => rw [List.foldl_cons, ih, tail_introduceIn]

end Scoping

open Scoping

mutual

/-- No declaration stands where the grammar has a statement. -/
@[simp] def Stmt.Straight : Stmt → Prop
  | .block body => Stmt.AllStraight body
  | .function ⟨_, _, body⟩ => Stmt.AllStraight body
  | .if _ thenBranch none => thenBranch.declares = [] ∧ thenBranch.Straight
  | .if _ thenBranch (some elseBranch) =>
    (thenBranch.declares = [] ∧ thenBranch.Straight) ∧
      elseBranch.declares = [] ∧ elseBranch.Straight
  | .while _ body => body.declares = [] ∧ body.Straight
  | _ => True

@[simp] def Stmt.AllStraight : List Stmt → Prop
  | [] => True
  | s :: ss => s.Straight ∧ Stmt.AllStraight ss

end

mutual

/-- Behind a statement, the names that it declares are ready in the innermost scope, and nothing
else has changed. -/
theorem Stmt.scopes_scope (b : Bool) (w : Scoping) : ∀ s : Stmt, s.Straight →
    (s.scope b w).scopes = s.declares.foldl introduceIn w.scopes
  | .block body, h => by
    have inner := scopes_scopeAll b w.enter body h
    rw [Stmt.scope, scopes_leave, inner, tail_introduceAll]
    rfl
  | .class name _, _ => by simp [Stmt.scope, declares]
  | .var name initializer, _ => by simp [Stmt.scope, declares, introduceIn]
  | .function ⟨name, params, body⟩, h => by
    -- what the body does to the scopes is gone with its own
    have inner := scopes_scopeAll true (params.foldl introduce (w.introduce name).enter) body h
    rw [Stmt.scope, scopes_leave, inner, tail_introduceAll, scopes_introduceAll, tail_introduceAll]
    simp [declares]
  | .expression e, _ | .print e, _ => by simp [Stmt.scope, declares]
  | .if condition thenBranch none, h => by
    rw [Stmt.scope, scopes_scope b _ thenBranch h.2, h.1, condition.scopes_scope]
    rfl
  | .if condition thenBranch (some elseBranch), h => by
    rw [Stmt.scope, scopes_scope b _ elseBranch h.2.2, h.2.1, scopes_scope b _ thenBranch h.1.2,
      h.1.1, condition.scopes_scope]
    rfl
  | .while condition body, h => by
    rw [Stmt.scope, scopes_scope b _ body h.2, h.1, condition.scopes_scope]
    rfl
  | .return keyword value, _ => by
    cases b <;> simp [Stmt.scope, declares]

theorem Stmt.scopes_scopeAll (b : Bool) (w : Scoping) : ∀ ss : List Stmt, Stmt.AllStraight ss →
    (Stmt.scopeAll b w ss).scopes = (ss.flatMap Stmt.declares).foldl introduceIn w.scopes
  | [], _ => rfl
  | s :: ss, h => by
    rw [Stmt.scopeAll, scopes_scopeAll b _ ss h.2, scopes_scope b w s h.1, List.flatMap_cons,
      List.foldl_append]

end

/-! ## Only the scopes matter -/

theorem Expr.visits_congr {declared : List (List String)} {b : Bool} {w w' : Scoping}
    (h : w.scopes = w'.scopes) (e : Expr) : e.visits declared b w = e.visits declared b w' := by
  rw [visits_eq, visits_eq, h]

theorem Expr.visits?_congr {declared : List (List String)} {b : Bool} {w w' : Scoping}
    (h : w.scopes = w'.scopes) (e : Option Expr) :
    Expr.visits? declared b w e = Expr.visits? declared b w' e := by
  rw [visits?_eq, visits?_eq, h]

mutual

theorem Stmt.visits_congr {declared : List (List String)} {b : Bool} {w w' : Scoping}
    (h : w.scopes = w'.scopes) : ∀ s : Stmt, s.Straight →
      s.visits declared b w = s.visits declared b w'
  | .block body, hs => visitsAll_congr (by simp [h]) body hs
  | .class _ _, _ => rfl
  | .var name initializer, _ => Expr.visits?_congr (by simp [h]) initializer
  | .function ⟨name, params, body⟩, hs =>
    visitsAll_congr (by rw [scopes_introduceAll, scopes_introduceAll]; simp [h]) body hs
  | .expression e, _ | .print e, _ => e.visits_congr h
  | .if condition thenBranch none, hs => by
    have inner : (condition.scope w).scopes = (condition.scope w').scopes := by simp [h]
    rw [visits, visits, condition.visits_congr h, visits_congr inner thenBranch hs.2]
  | .if condition thenBranch (some elseBranch), hs => by
    have inner : (condition.scope w).scopes = (condition.scope w').scopes := by simp [h]
    -- the first branch declares nothing, so the second is met in the scopes of the condition
    have behind : (thenBranch.scope b (condition.scope w)).scopes =
        (thenBranch.scope b (condition.scope w')).scopes := by
      rw [scopes_scope _ _ _ hs.1.2, scopes_scope _ _ _ hs.1.2, inner]
    rw [visits, visits, condition.visits_congr h, visits_congr inner thenBranch hs.1.2,
      visits_congr behind elseBranch hs.2.2]
  | .while condition body, hs => by
    have inner : (condition.scope w).scopes = (condition.scope w').scopes := by simp [h]
    rw [visits, visits, condition.visits_congr h, visits_congr inner body hs.2]
  | .return keyword value, _ => by
    cases b <;> exact Expr.visits?_congr (by simp [h]) value

theorem Stmt.visitsAll_congr {declared : List (List String)} {b : Bool} {w w' : Scoping}
    (h : w.scopes = w'.scopes) : ∀ ss : List Stmt, Stmt.AllStraight ss →
      Stmt.visitsAll declared b w ss = Stmt.visitsAll declared b w' ss
  | [], _ => rfl
  | s :: ss, hs => by
    -- the names that the first declares are ready in both
    have behind : (s.scope b w).scopes = (s.scope b w').scopes := by
      rw [scopes_scope _ _ _ hs.1, scopes_scope _ _ _ hs.1, h]
    rw [visitsAll, visitsAll, visits_congr h s hs.1, visitsAll_congr behind ss hs.2]

end

/-! ## What is met from a place -/

namespace Site

/-- A walk that is at the place and has found nothing yet. -/
def walk (π : Site) : Scoping := ⟨π.scopes, ∅, []⟩

/-- The place of an initializer of the name. -/
def declare (π : Site) (name : String) : Site := { π with scopes := declareIn name π.scopes }

/-- The place where a declared name is ready. -/
def define (π : Site) (name : String) : Site := { π with scopes := defineIn name π.scopes }

/-- The place behind a declaration of the names. -/
def introduce (π : Site) (names : List String) : Site :=
  { π with scopes := names.foldl introduceIn π.scopes }

/-- The place at the start of a block. -/
def block (π : Site) (body : List Stmt) : Site :=
  { π with scopes := .empty :: π.scopes, declared := body.flatMap Stmt.declares :: π.declared }

/-- The place at the start of a function's body. -/
def function (π : Site) (params : List String) (body : List Stmt) : Site where
  scopes := params.foldl introduceIn (.empty :: π.scopes)
  declared := (params ++ body.flatMap Stmt.declares) :: π.declared
  inFunction := true

theorem introduce_append (π : Site) (names others : List String) :
    π.introduce (names ++ others) = (π.introduce names).introduce others := by
  simp only [introduce, List.foldl_append]

end Site

/-- The references of an expression at a place. -/
def Expr.visitsAt (π : Site) (e : Expr) : List Visit := e.visits π.declared π.inFunction π.walk

def Expr.visitsAllAt (π : Site) (es : List Expr) : List Visit :=
  Expr.visitsAll π.declared π.inFunction π.walk es

/-- The references of a statement at a place. -/
def Stmt.visitsAt (π : Site) (s : Stmt) : List Visit := s.visits π.declared π.inFunction π.walk

def Stmt.visitsAllAt (π : Site) (ss : List Stmt) : List Visit :=
  Stmt.visitsAll π.declared π.inFunction π.walk ss

theorem Expr.visitsAt_eq (π : Site) (e : Expr) :
    e.visitsAt π = e.references.map (·.visitAt π) := e.visits_eq ..

theorem Expr.visitsAllAt_eq (π : Site) (es : List Expr) :
    Expr.visitsAllAt π es = (Expr.referencesAll es).map (·.visitAt π) := Expr.visitsAll_eq ..

section

variable {π : Site}

theorem Stmt.visitsAt_var (name : Token) (e : Expr) :
    (Stmt.var name (some e)).visitsAt π = e.visitsAt (π.declare name.lexeme) :=
  e.visits_congr (scopes_declare _ _)

theorem Stmt.visitsAt_function (name : Token) (params : List Token) {body : List Stmt}
    (h : Stmt.AllStraight body) :
    (Stmt.function ⟨name, params, body⟩).visitsAt π =
      Stmt.visitsAllAt
        ((π.introduce [name.lexeme]).function (params.map (·.lexeme)) body) body := by
  refine visitsAll_congr ?_ body h
  rw [scopes_introduceAll, scopes_enter, scopes_introduce]
  rfl

theorem Stmt.visitsAt_if_none (condition : Expr) {thenBranch : Stmt} (h : thenBranch.Straight) :
    (Stmt.if condition thenBranch none).visitsAt π =
      condition.visitsAt π ++ thenBranch.visitsAt π := by
  have inner : (condition.scope π.walk).scopes = π.walk.scopes := condition.scopes_scope _
  rw [visitsAt, visits, visits_congr inner thenBranch h]
  rfl

theorem Stmt.visitsAt_if_some (condition : Expr) {thenBranch elseBranch : Stmt}
    (h : (Stmt.if condition thenBranch (some elseBranch)).Straight) :
    (Stmt.if condition thenBranch (some elseBranch)).visitsAt π =
      condition.visitsAt π ++ thenBranch.visitsAt π ++ elseBranch.visitsAt π := by
  obtain ⟨⟨ht, hst⟩, -, hse⟩ := h
  have inner : (condition.scope π.walk).scopes = π.walk.scopes := condition.scopes_scope _
  have behind : (thenBranch.scope π.inFunction (condition.scope π.walk)).scopes =
      π.walk.scopes := by
    rw [scopes_scope _ _ _ hst, ht, inner]
    rfl
  rw [visitsAt, visits, visits_congr inner thenBranch hst, visits_congr behind elseBranch hse]
  rfl

theorem Stmt.visitsAt_while (condition : Expr) {body : Stmt} (h : body.Straight) :
    (Stmt.while condition body).visitsAt π = condition.visitsAt π ++ body.visitsAt π := by
  have inner : (condition.scope π.walk).scopes = π.walk.scopes := condition.scopes_scope _
  rw [visitsAt, visits, visits_congr inner body h]
  rfl

theorem Stmt.visitsAt_return (keyword : Token) (e : Expr) :
    (Stmt.return keyword (some e)).visitsAt π = e.visitsAt π := by
  refine e.visits_congr ?_
  split <;> rfl

theorem Stmt.visitsAllAt_cons {s : Stmt} {ss : List Stmt} (h : Stmt.AllStraight (s :: ss)) :
    Stmt.visitsAllAt π (s :: ss) =
      s.visitsAt π ++ Stmt.visitsAllAt (π.introduce s.declares) ss := by
  have behind : (s.scope π.inFunction π.walk).scopes = (π.introduce s.declares).walk.scopes :=
    scopes_scope _ _ _ h.1
  rw [visitsAllAt, visitsAll, visitsAll_congr behind ss h.2]
  rfl

end

end Lox
