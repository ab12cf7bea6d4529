/-
The invariant that keeps frames and scopes in step. Each frame is given the names that the block or
function it was made for declares. A frame agrees with a place of the program (`Site.Agrees`) if its
links lead to the top level in as many steps as scopes are open, each frame on the way binding what
is ready in its scope. It matches the place (`Site.Matches`) if it binds nothing else itself; a frame
that is gone back to later does, because frames made before bind nothing new in the meantime. An
evaluation fits (`Eval.State.Fits`) if the code it is at, the code that waits, and the body of every
function on the heap were met by the static walk at places that their frames match, or for functions
agree with.

What waits for the end of a block or call keeps a place of its own, that of the frame it goes back
to; so a `return` and an error find their way without any agreement on the way (`Cont.Fits`).
-/
import Lox.Eval.Step
import Lox.Proofs.Heap.Frames
import Lox.Proofs.Scoping.Accepted

namespace Lox

open Scoping

/-! ## Frames and places -/

/-- From the frame, the links lead to the top level, one for each scope. Each frame on the way was
made for the declared names of its scope, and binds all names that are ready in it. -/
def Agrees (names : List (List String)) (globals : FrameRef) (h : Heap) :
    FrameRef → List Scope → List (List String) → Prop
  | f, [], [] => f = globals
  | f, S :: scopes, D :: declared =>
    names[f.index]? = some D ∧ (∀ x, S.get? x = some true → (h.get? f x).isSome) ∧
      ∃ p, h.parent? f = some p ∧ Agrees names globals h p scopes declared
  | _, _, _ => False

/-- The frame agrees with the place. -/
def Site.Agrees (π : Site) (names : List (List String)) (globals : FrameRef) (h : Heap)
    (f : FrameRef) : Prop := Lox.Agrees names globals h f π.scopes π.declared

/-- The frame, in which code at the place runs, agrees with it, and of the names of its scope it
binds those only that are ready. -/
structure Site.Matches (π : Site) (names : List (List String)) (globals : FrameRef) (h : Heap)
    (f : FrameRef) : Prop where
  agrees : π.Agrees names globals h f
  ready : ∀ S scopes, π.scopes = S :: scopes → ∀ x, (h.get? f x).isSome → S.get? x = some true

/-- The place is one where the name is declared in the innermost block or function, if any. -/
def Site.Declares (π : Site) (name : String) : Prop :=
  ∀ D declared, π.declared = D :: declared → name ∈ D

namespace Agrees

variable {names names' : List (List String)} {globals : FrameRef} {h h' : Heap}

/-- Agreement lasts while the heap grows. -/
theorem mono (hn : names <+: names') (he : h.Extends h') {f : FrameRef} {scopes : List Scope}
    {declared : List (List String)} (a : Agrees names globals h f scopes declared) :
    Agrees names' globals h' f scopes declared := by
  -- one link for each scope, outwards
  induction scopes generalizing f declared with
  | nil => cases declared with
    | nil => exact a
    | cons D declared => cases a
  | cons S scopes ih => cases declared with
    | nil => cases a
    | cons D declared =>
      obtain ⟨hD, ready, p, hp, rest⟩ := a
      refine ⟨?_, fun x hx => he.bound f x (ready x hx), p, he.parent f p hp, ih rest⟩
      obtain ⟨more, rfl⟩ := hn
      rw [List.getElem?_append_left (List.getElem?_eq_some_iff.1 hD).1, hD]

theorem length_eq {f : FrameRef} {scopes : List Scope} {declared : List (List String)}
    (a : Agrees names globals h f scopes declared) : declared.length = scopes.length := by
  induction scopes generalizing f declared with
  | nil => cases declared with
    | nil => rfl
    | cons D declared => cases a
  | cons S scopes ih => cases declared with
    | nil => cases a
    | cons D declared =>
      obtain ⟨-, -, p, -, rest⟩ := a
      rw [List.length_cons, List.length_cons, ih rest]

/-- The top level is as many links away as scopes are open. -/
theorem ancestor?_globals {f : FrameRef} {scopes : List Scope} {declared : List (List String)}
    (a : Agrees names globals h f scopes declared) : h.ancestor? f scopes.length = some globals := by
  induction scopes generalizing f declared with
  | nil => cases declared with
    | nil => exact congrArg some a
    | cons D declared => cases a
  | cons S scopes ih => cases declared with
    | nil => cases a
    | cons D declared =>
      obtain ⟨-, -, p, hp, rest⟩ := a
      rw [List.length_cons, Heap.ancestor?_succ hp, ih rest]

/-- The frame a number of links away, its scope and the names it was made for. -/
theorem exists_ancestor {f : FrameRef} {scopes : List Scope} {declared : List (List String)}
    (a : Agrees names globals h f scopes declared) {k : Nat} {S : Scope} {D : List String}
    (hS : scopes[k]? = some S) (hD : declared[k]? = some D) :
    ∃ g p, h.ancestor? f k = some g ∧ h.parent? g = some p ∧ names[g.index]? = some D ∧
      ∀ x, S.get? x = some true → (h.get? g x).isSome := by
  induction scopes generalizing f declared k with
  | nil => cases hS
  | cons T scopes ih => cases declared with
    | nil => cases hD
    | cons E declared =>
      obtain ⟨hE, ready, p, hp, rest⟩ := a
      cases k with
      | zero =>
        obtain rfl : T = S := Option.some.inj hS
        obtain rfl : E = D := Option.some.inj hD
        exact ⟨f, p, rfl, hp, hE, ready⟩
      | succ k =>
        obtain ⟨g, q, hg, hq, hnames, hready⟩ := ih rest hS hD
        exact ⟨g, q, by rwa [Heap.ancestor?_succ hp], hq, hnames, hready⟩

end Agrees

namespace Site

variable {names : List (List String)} {globals : FrameRef} {h : Heap} {π : Site} {f : FrameRef}

theorem Agrees.mono {names' : List (List String)} {h' : Heap} (hn : names <+: names')
    (he : h.Extends h') (a : π.Agrees names globals h f) : π.Agrees names' globals h' f :=
  Lox.Agrees.mono hn he a

/-- A name that is declared but not ready asks nothing of the frame. -/
theorem Agrees.declare (a : π.Agrees names globals h f) (name : String) :
    (π.declare name).Agrees names globals h f := by
  obtain ⟨scopes, declared, b⟩ := π
  cases scopes with
  | nil => exact a
  | cons S scopes => cases declared with
    | nil => cases a
    | cons D declared =>
      obtain ⟨hD, ready, rest⟩ := a
      refine ⟨hD, fun x hx => ready x ?_, rest⟩
      split at hx
      · exact hx
      · rw [Bindings.get?_put] at hx
        split at hx
        · cases hx
        · exact hx

/-- A name is ready once it is bound. -/
theorem Agrees.define (a : π.Agrees names globals h f) {name : String}
    (hb : (h.get? f name).isSome) : (π.define name).Agrees names globals h f := by
  obtain ⟨scopes, declared, b⟩ := π
  cases scopes with
  | nil => exact a
  | cons S scopes => cases declared with
    | nil => cases a
    | cons D declared =>
      obtain ⟨hD, ready, rest⟩ := a
      refine ⟨hD, fun x hx => ?_, rest⟩
      rw [Bindings.get?_put] at hx
      split at hx
      · rename_i hx'
        rwa [hx']
      · exact ready x hx

theorem Agrees.introduce (a : π.Agrees names globals h f) {bound : List String}
    (hb : ∀ name ∈ bound, (h.get? f name).isSome) :
    (π.introduce bound).Agrees names globals h f := by
  induction bound generalizing π with
  | nil => exact a
  | cons name bound ih =>
    have first := (a.declare name).define (hb name (List.mem_cons_self ..))
    exact ih first fun m hm => hb m (List.mem_cons_of_mem _ hm)

/-- In a frame other than the top level, a declared name is one the frame was made for. -/
theorem Agrees.mem_names (a : π.Agrees names globals h f) {name : String} (hd : π.Declares name)
    (hf : f ≠ globals) {D : List String} (hD : names[f.index]? = some D) : name ∈ D := by
  obtain ⟨scopes, declared, b⟩ := π
  cases scopes with
  | nil => cases declared with
    | nil => exact absurd a hf
    | cons E declared => cases a
  | cons S scopes => cases declared with
    | nil => cases a
    | cons E declared =>
      obtain ⟨hE, -⟩ := a
      rw [hE] at hD
      obtain rfl : E = D := Option.some.inj hD
      exact hd E declared rfl

end Site

namespace Site.Matches

variable {names : List (List String)} {globals : FrameRef} {h : Heap} {π : Site} {f : FrameRef}

/-- The match lasts while the heap grows, as long as the frame binds nothing new. -/
theorem mono {names' : List (List String)} {h' : Heap} (hn : names <+: names') (he : h.Extends h')
    (quiet : h.Quiet (f.index + 1) h') (m : π.Matches names globals h f) :
    π.Matches names' globals h' f :=
  ⟨m.agrees.mono hn he, fun S scopes hS x hx =>
    m.ready S scopes hS x (quiet f x (Nat.lt_succ_self _) hx)⟩

/-- A name that is declared but not ready is not bound. -/
theorem declare (m : π.Matches names globals h f) (name : String) :
    (π.declare name).Matches names globals h f := by
  refine ⟨m.agrees.declare name, fun T scopes hT x hx => ?_⟩
  obtain ⟨scopes', declared, b⟩ := π
  cases scopes' with
  | nil => cases hT
  | cons S outer =>
    cases hT
    have ready := m.ready S _ rfl x hx
    split
    · exact ready
    · rename_i unbound
      rw [Bindings.get?_put, if_neg, ready]
      -- the name is new in its scope, and a ready one is not
      rintro rfl
      exact unbound (by rw [Bindings.binds, ready]; rfl)

/-- Once its name is ready, it may be bound. -/
theorem define (m : π.Matches names globals h f) (hf : f.index < h.frames.size) (name : String)
    (v : Value) : (π.define name).Matches names globals (h.define f name v) f := by
  refine ⟨(m.agrees.mono (List.prefix_refl _) (.define ..)).define
    (Heap.isSome_get?_define hf name v), fun T scopes hT x hx => ?_⟩
  obtain ⟨scopes', declared, b⟩ := π
  cases scopes' with
  | nil => cases hT
  | cons S outer =>
    cases hT
    rw [Bindings.get?_put]
    split
    · rfl
    · rename_i other
      rcases Heap.bound_of_define hx with ⟨-, same⟩ | hx
      · exact absurd same other
      · exact m.ready S _ rfl x hx

theorem introduce (m : π.Matches names globals h f) (hf : f.index < h.frames.size) (name : String)
    (v : Value) : (π.introduce [name]).Matches names globals (h.define f name v) f :=
  (m.declare name).define hf name v

end Site.Matches

/-! ## Code at a place -/

/-- The code of the expression was met at the place. -/
def Expr.Placed (log : List Visit) (π : Site) (e : Expr) : Prop := ∀ v ∈ e.visitsAt π, v ∈ log

def Expr.AllPlaced (log : List Visit) (π : Site) (es : List Expr) : Prop :=
  ∀ v ∈ Expr.visitsAllAt π es, v ∈ log

theorem Expr.placed_iff {log : List Visit} {π : Site} {e : Expr} :
    e.Placed log π ↔ ∀ r ∈ e.references, r.visitAt π ∈ log := by
  rw [Placed, visitsAt_eq, List.forall_mem_map]

theorem Expr.allPlaced_iff {log : List Visit} {π : Site} {es : List Expr} :
    Expr.AllPlaced log π es ↔ ∀ r ∈ Expr.referencesAll es, r.visitAt π ∈ log := by
  rw [AllPlaced, visitsAllAt_eq, List.forall_mem_map]

/-- The code of the statement was met at the place, `return` in functions only, and its names are
among those declared there. -/
structure Stmt.Placed (log : List Visit) (π : Site) (s : Stmt) : Prop where
  straight : s.Straight
  visits : ∀ v ∈ s.visitsAt π, v ∈ log
  returns : π.inFunction = false → s.returns = false
  declares : ∀ name ∈ s.declares, π.Declares name

/-- The statements were met one behind another, from the place on. -/
def Stmt.AllPlaced (log : List Visit) : Site → List Stmt → Prop
  | _, [] => True
  | π, s :: ss => s.Placed log π ∧ Stmt.AllPlaced log (π.introduce s.declares) ss

/-- A statement that declares nothing was met at the place. -/
def Stmt.PlacedInside (log : List Visit) (π : Site) (s : Stmt) : Prop :=
  s.declares = [] ∧ s.Placed log π

variable {log : List Visit} {π : Site}

theorem Stmt.allPlaced_of_visits {ss : List Stmt} (straight : Stmt.AllStraight ss)
    (visits : ∀ v ∈ Stmt.visitsAllAt π ss, v ∈ log)
    (returns : π.inFunction = false → Stmt.anyReturns ss = false)
    (declares : ∀ name ∈ ss.flatMap Stmt.declares, π.Declares name) :
    Stmt.AllPlaced log π ss := by
  induction ss generalizing π with
  | nil => trivial
  | cons s ss ih =>
    rw [visitsAllAt_cons straight] at visits
    rw [List.flatMap_cons] at declares
    simp only [anyReturns, Bool.or_eq_false_iff] at returns
    refine ⟨⟨straight.1, fun v hv => visits v (List.mem_append_left _ hv),
      fun hb => (returns hb).1, fun name hn => declares name (List.mem_append_left _ hn)⟩, ?_⟩
    exact ih straight.2 (fun v hv => visits v (List.mem_append_right _ hv))
      (fun hb => (returns hb).2) fun name hn => declares name (List.mem_append_right _ hn)

theorem Stmt.Placed.block {body : List Stmt} (p : (Stmt.block body).Placed log π) :
    Stmt.AllPlaced log (π.block body) body := by
  refine allPlaced_of_visits p.straight p.visits p.returns fun name hn D declared hD => ?_
  cases hD
  exact hn

/-- The body of a function was met inside of its declaration. -/
def FunctionOf.Placed (log : List Visit) (π : Site) (decl : Function) : Prop :=
  Stmt.AllStraight decl.body ∧
    ∀ v ∈ Stmt.visitsAllAt (π.function (decl.params.map (·.lexeme)) decl.body) decl.body, v ∈ log

theorem Stmt.Placed.function {decl : Function} (p : (Stmt.function decl).Placed log π) :
    decl.Placed log (π.introduce [decl.name.lexeme]) := by
  obtain ⟨name, params, body⟩ := decl
  refine ⟨p.straight, fun v hv => p.visits v ?_⟩
  rwa [visitsAt_function name params p.straight]

theorem FunctionOf.Placed.body {decl : Function} (p : decl.Placed log π) :
    Stmt.AllPlaced log (π.function (decl.params.map (·.lexeme)) decl.body) decl.body := by
  refine Stmt.allPlaced_of_visits p.1 p.2 (fun hb => by cases hb) fun name hn D declared hD => ?_
  cases hD
  exact List.mem_append_right _ hn

theorem Stmt.Placed.var {name : Token} {e : Expr} (p : (Stmt.var name (some e)).Placed log π) :
    e.Placed log (π.declare name.lexeme) := by
  intro v hv
  rw [← visitsAt_var] at hv
  exact p.visits v hv

theorem Stmt.placedInside {s : Stmt} (none : s.declares = []) (straight : s.Straight)
    (visits : ∀ v ∈ s.visitsAt π, v ∈ log) (returns : π.inFunction = false → s.returns = false) :
    s.PlacedInside log π := by
  refine ⟨none, straight, visits, returns, fun name hn => ?_⟩
  rw [none] at hn
  cases hn

theorem Stmt.Placed.if_none {condition : Expr} {thenBranch : Stmt}
    (p : (Stmt.if condition thenBranch none).Placed log π) :
    condition.Placed log π ∧ thenBranch.PlacedInside log π := by
  obtain ⟨none, straight⟩ := p.straight
  have hv := p.visits
  rw [visitsAt_if_none condition straight] at hv
  constructor
  · exact fun v h => hv v (List.mem_append_left _ h)
  · exact placedInside none straight (fun v h => hv v (List.mem_append_right _ h)) p.returns

theorem Stmt.Placed.if_some {condition : Expr} {thenBranch elseBranch : Stmt}
    (p : (Stmt.if condition thenBranch (some elseBranch)).Placed log π) :
    condition.Placed log π ∧ thenBranch.PlacedInside log π ∧ elseBranch.PlacedInside log π := by
  obtain ⟨⟨ht, hst⟩, he, hse⟩ := p.straight
  have hv := p.visits
  have hr := p.returns
  rw [visitsAt_if_some condition p.straight] at hv
  simp only [Stmt.returns, Bool.or_eq_false_iff] at hr
  refine ⟨fun v h => ?_, placedInside ht hst (fun v h => ?_) fun hb => (hr hb).1,
    placedInside he hse (fun v h => ?_) fun hb => (hr hb).2⟩
  · exact hv v (List.mem_append_left _ (List.mem_append_left _ h))
  · exact hv v (List.mem_append_left _ (List.mem_append_right _ h))
  · exact hv v (List.mem_append_right _ h)

theorem Stmt.Placed.while {condition : Expr} {body : Stmt}
    (p : (Stmt.while condition body).Placed log π) :
    condition.Placed log π ∧ body.PlacedInside log π := by
  obtain ⟨none, straight⟩ := p.straight
  have hv := p.visits
  rw [visitsAt_while condition straight] at hv
  constructor
  · exact fun v h => hv v (List.mem_append_left _ h)
  · exact placedInside none straight (fun v h => hv v (List.mem_append_right _ h)) p.returns

theorem Stmt.Placed.return {keyword : Token} {e : Expr}
    (p : (Stmt.return keyword (some e)).Placed log π) : e.Placed log π := by
  intro v hv
  rw [← visitsAt_return keyword] at hv
  exact p.visits v hv

/-! ## The heap -/

/-- The heap fits: the top level has no link, each other frame binds only names that it was made
for, and each function was met at a place that its frame agrees with. -/
structure Heap.Fits (log : List Visit) (names : List (List String)) (globals : FrameRef)
    (h : Heap) : Prop where
  size : names.length = h.frames.size
  root : h.parent? globals = none
  exists_root : globals.index < h.frames.size
  bound : ∀ f D x, f ≠ globals → names[f.index]? = some D → (h.get? f x).isSome → x ∈ D
  placed : ∀ c ∈ h.functions, ∃ π : Site, π.Agrees names globals h c.frame ∧ c.decl.Placed log π

namespace Heap.Fits

variable {names : List (List String)} {globals : FrameRef} {h : Heap}

theorem lt (fits : h.Fits log names globals) {f : FrameRef}
    (a : π.Agrees names globals h f) : f.index < h.frames.size := by
  obtain ⟨scopes, declared, b⟩ := π
  cases scopes with
  | nil => cases declared with
    | nil =>
      cases a
      exact fits.exists_root
    | cons D declared => cases a
  | cons S scopes => cases declared with
    | nil => cases a
    | cons D declared =>
      obtain ⟨-, -, p, hp, -⟩ := a
      exact Heap.lt_of_parent? hp

/-- Binding a name that is declared where the frame agrees keeps the heap fit. -/
theorem define (fits : h.Fits log names globals) {f : FrameRef} {name : String}
    (hd : ∀ D, f ≠ globals → names[f.index]? = some D → name ∈ D) (v : Value) :
    (h.define f name v).Fits log names globals := by
  refine ⟨by rw [Heap.size_define, fits.size], by rw [Heap.parent?_define, fits.root],
    by rw [Heap.size_define]; exact fits.exists_root, fun g D x hg hD hb => ?_, fun c hc => ?_⟩
  · rcases Heap.bound_of_define hb with ⟨rfl, rfl⟩ | hb
    · exact hd D hg hD
    · exact fits.bound g D x hg hD hb
  · obtain ⟨ρ, a, p⟩ := fits.placed c hc
    exact ⟨ρ, a.mono (List.prefix_refl _) (.define ..), p⟩

/-- Changes outside of frames and functions keep the heap fit. -/
theorem of_frames (fits : h.Fits log names globals) {h' : Heap} (frames : h.frames = h'.frames)
    (functions : h.functions = h'.functions) : h'.Fits log names globals := by
  refine ⟨by rw [← frames, fits.size], by rw [← Heap.parent?_congr frames, fits.root],
    by rw [← frames]; exact fits.exists_root, fun g D x hg hD hb => ?_, fun c hc => ?_⟩
  · rw [← Heap.get?_congr frames] at hb
    exact fits.bound g D x hg hD hb
  · rw [← functions] at hc
    obtain ⟨ρ, a, p⟩ := fits.placed c hc
    exact ⟨ρ, a.mono (List.prefix_refl _) (.of_frames frames), p⟩

/-- A frame for a block or function that binds only names declared there keeps the heap fit. -/
theorem newFrame (fits : h.Fits log names globals) {D : List String} {bindings : Bindings Value}
    (hd : ∀ x, (bindings.get? x).isSome → x ∈ D) (p : FrameRef) :
    (h.newFrame (some p) bindings).2.Fits log (names ++ [D]) globals := by
  have size : (h.newFrame (some p) bindings).2.frames.size = h.frames.size + 1 :=
    Array.size_push ..
  refine ⟨?_, ?_, ?_, fun g E x hg hE hb => ?_, fun c hc => ?_⟩
  · rw [List.length_append, fits.size, size]
    rfl
  · rw [Heap.parent?_newFrame fits.exists_root, fits.root]
  · have := fits.exists_root
    omega
  · -- the new frame has the new names; an older one is as it was
    by_cases hnew : g.index = h.frames.size
    · obtain rfl : g = (h.newFrame (some p) bindings).1 := by
        cases g
        cases hnew
        rfl
      have last : (h.newFrame (some p) bindings).1.index = names.length := fits.size.symm
      rw [Heap.get?_newFrame_self] at hb
      rw [last, List.getElem?_concat_length] at hE
      cases hE
      exact hd x hb
    · rw [Heap.get?_newFrame hnew] at hb
      have old : g.index < names.length := fits.size ▸ Heap.lt_of_get? hb
      rw [List.getElem?_append_left old] at hE
      exact fits.bound g E x hg hE hb
  · obtain ⟨ρ, a, hp⟩ := fits.placed c hc
    exact ⟨ρ, a.mono (List.prefix_append ..) (.newFrame ..), hp⟩

/-- The new frame agrees with a place inside of the one its parent agrees with. -/
theorem agrees_newFrame (fits : h.Fits log names globals) {D : List String}
    {bindings : Bindings Value} {p : FrameRef} (a : π.Agrees names globals h p) {S : Scope}
    (ready : ∀ x, S.get? x = some true → (bindings.get? x).isSome) (b : Bool) :
    Site.Agrees ⟨S :: π.scopes, D :: π.declared, b⟩ (names ++ [D]) globals
      (h.newFrame (some p) bindings).2 (h.newFrame (some p) bindings).1 := by
  refine ⟨?_, fun x hx => ?_, p, Heap.parent?_newFrame_self (fits.lt a) bindings,
    a.mono (List.prefix_append ..) (.newFrame ..)⟩
  · have last : (h.newFrame (some p) bindings).1.index = names.length := fits.size.symm
    rw [last, List.getElem?_concat_length]
  · rw [Heap.get?_newFrame_self]
    exact ready x hx

/-- The new frame, if it binds just what is ready, matches the place. -/
theorem matches_newFrame (fits : h.Fits log names globals) {D : List String}
    {bindings : Bindings Value} {p : FrameRef} (a : π.Agrees names globals h p) {S : Scope}
    (ready : ∀ x, S.get? x = some true ↔ (bindings.get? x).isSome) (b : Bool) :
    Site.Matches ⟨S :: π.scopes, D :: π.declared, b⟩ (names ++ [D]) globals
      (h.newFrame (some p) bindings).2 (h.newFrame (some p) bindings).1 := by
  refine ⟨fits.agrees_newFrame a (fun x => (ready x).1) b, fun T scopes hT x hx => ?_⟩
  cases hT
  rw [Heap.get?_newFrame_self] at hx
  exact (ready x).2 hx

/-- A function declared where the frame agrees keeps the heap fit, once its name is bound. -/
theorem newFunction (fits : h.Fits log names globals) {f : FrameRef} {decl : Function}
    (a : π.Agrees names globals h f) (hd : π.Declares decl.name.lexeme)
    (p : decl.Placed log (π.introduce [decl.name.lexeme])) (v : Value) :
    ((h.newFunction ⟨decl, f⟩).2.define f decl.name.lexeme v).Fits log names globals := by
  have grown : h.Extends ((h.newFunction ⟨decl, f⟩).2.define f decl.name.lexeme v) :=
    .newFunction ..
  have bound : (((h.newFunction ⟨decl, f⟩).2.define f decl.name.lexeme v).get? f
      decl.name.lexeme).isSome := Heap.isSome_get?_define (fits.lt a) _ _
  refine ⟨by rw [Heap.size_define]; exact fits.size,
    by rw [Heap.parent?_define]; exact fits.root,
    by rw [Heap.size_define]; exact fits.exists_root, fun g D x hg hD hb => ?_, fun c hc => ?_⟩
  · rcases Heap.bound_of_define hb with ⟨rfl, rfl⟩ | hb
    · exact a.mem_names hd hg hD
    · exact fits.bound g D x hg hD hb
  · rcases Array.mem_push.1 hc with hc | rfl
    · obtain ⟨ρ, a', p'⟩ := fits.placed c hc
      exact ⟨ρ, a'.mono (List.prefix_refl _) grown, p'⟩
    · -- the function itself is among the names that are ready in its frame
      refine ⟨_, (a.mono (List.prefix_refl _) grown).introduce ?_, p⟩
      intro name hn
      rw [List.mem_singleton.1 hn]
      exact bound

end Heap.Fits

/-! ## What waits -/

namespace Eval

/-- What waits, when the place goes on and the frame is entered: the code in it was met from the
place on, and the places that blocks and calls go back to match their frames, which are older the
further down they wait. At the end of the chain the frame is the top level. -/
def Cont.Fits (log : List Visit) (names : List (List String)) (globals : FrameRef) (h : Heap) :
    {a : Answer} → Cont a → Site → FrameRef → Prop
  | _, .value, _, f => f = globals
  | _, .flow, π, f => f = globals ∧ π.inFunction = false
  | _, .operand _ k, π, f => k.Fits log names globals h π f
  | _, .leftOperand _ right k, π, f => right.Placed log π ∧ k.Fits log names globals h π f
  | _, .rightOperand _ _ k, π, f => k.Fits log names globals h π f
  | _, .decision _ right k, π, f => right.Placed log π ∧ k.Fits log names globals h π f
  | _, .assigned id name k, π, f =>
    ⟨id, name.lexeme, false, π⟩ ∈ log ∧ k.Fits log names globals h π f
  | _, .callee _ args k, π, f => Expr.AllPlaced log π args ∧ k.Fits log names globals h π f
  | _, .argument _ _ _ rest k, π, f => Expr.AllPlaced log π rest ∧ k.Fits log names globals h π f
  | _, .getObject _ k, π, f => k.Fits log names globals h π f
  | _, .setObject _ e k, π, f => e.Placed log π ∧ k.Fits log names globals h π f
  | _, .setValue _ _ k, π, f => k.Fits log names globals h π f
  | _, .discarded k, π, f => k.Fits log names globals h π f
  | _, .printed k, π, f => k.Fits log names globals h π f
  | _, .initializer name k, π, f =>
    π.Declares name.lexeme ∧ k.Fits log names globals h (π.define name.lexeme) f
  | _, .returned k, π, f => π.inFunction = true ∧ k.Fits log names globals h π f
  | _, .ifTest thenBranch elseBranch k, π, f =>
    thenBranch.PlacedInside log π ∧ (∀ s, elseBranch = some s → s.PlacedInside log π) ∧
      k.Fits log names globals h π f
  | _, .whileTest condition body k, π, f =>
    (condition.Placed log π ∧ body.PlacedInside log π) ∧ k.Fits log names globals h π f
  | _, .whileBody condition body k, π, f =>
    (condition.Placed log π ∧ body.PlacedInside log π) ∧ k.Fits log names globals h π f
  | _, .sequence rest k, π, f =>
    Stmt.AllPlaced log π rest ∧
      k.Fits log names globals h (π.introduce (rest.flatMap Stmt.declares)) f
  | _, .blockEnd g k, π, f =>
    g.index < f.index ∧ ∃ ρ : Site, ρ.inFunction = π.inFunction ∧ ρ.Matches names globals h g ∧
      k.Fits log names globals h ρ g
  | _, .callEnd g k, π, f =>
    g.index < f.index ∧ π.inFunction = true ∧ ∃ ρ : Site, ρ.Matches names globals h g ∧
      k.Fits log names globals h ρ g

/-- What waits still fits when the heap has grown, if no frame that waits binds anything new. -/
theorem Cont.Fits.mono {names names' : List (List String)} {globals : FrameRef} {h h' : Heap}
    (hn : names <+: names') (he : h.Extends h') {a : Answer} {k : Cont a} {π : Site} {f : FrameRef}
    (quiet : h.Quiet f.index h') (fits : k.Fits log names globals h π f) :
    k.Fits log names' globals h' π f := by
  induction k generalizing π f with
  | value | flow => exact fits
  | operand op k ih | rightOperand op left k ih | getObject name k ih | setValue target name k ih
  | discarded k ih | printed k ih => exact ih quiet fits
  | leftOperand op right k ih | decision op right k ih | assigned id name k ih
  | callee paren args k ih | argument callee paren done rest k ih | setObject name value k ih
  | initializer name k ih | returned k ih | whileTest condition body k ih
  | whileBody condition body k ih | sequence rest k ih => exact ⟨fits.1, ih quiet fits.2⟩
  | ifTest thenBranch elseBranch k ih => exact ⟨fits.1, fits.2.1, ih quiet fits.2.2⟩
  | blockEnd g k ih =>
    -- the place to go back to is a new one, so the induction is over all places
    obtain ⟨older, ρ, hb, m, fits⟩ := fits
    have before := ih (quiet.mono (Nat.le_of_lt older)) fits
    exact ⟨older, ρ, hb, m.mono hn he (quiet.mono older), before⟩
  | callEnd g k ih =>
    obtain ⟨older, hb, ρ, m, fits⟩ := fits
    have before := ih (quiet.mono (Nat.le_of_lt older)) fits
    exact ⟨older, hb, ρ, m.mono hn he (quiet.mono older), before⟩

/-- What happens next fits. Only on the way of a `return` or an error the place need not match the
frame. -/
def Control.Fits (log : List Visit) (names : List (List String)) (globals : FrameRef) (h : Heap)
    (f : FrameRef) : Control → Prop
  | .evaluate e k =>
    ∃ π : Site, π.Matches names globals h f ∧ e.Placed log π ∧ k.Fits log names globals h π f
  | .execute s k =>
    ∃ π : Site, π.Matches names globals h f ∧ s.Placed log π ∧
      k.Fits log names globals h (π.introduce s.declares) f
  | .executeAll ss k =>
    ∃ π : Site, π.Matches names globals h f ∧ Stmt.AllPlaced log π ss ∧
      k.Fits log names globals h (π.introduce (ss.flatMap Stmt.declares)) f
  | .call _ _ _ k => ∃ π : Site, π.Matches names globals h f ∧ k.Fits log names globals h π f
  | .give _ k => ∃ π : Site, π.Matches names globals h f ∧ k.Fits log names globals h π f
  | .finish .normal k => ∃ π : Site, π.Matches names globals h f ∧ k.Fits log names globals h π f
  | .finish (.returned _) k => ∃ π : Site, π.inFunction = true ∧ k.Fits log names globals h π f
  | .raise _ k => ∃ π : Site, k.Fits log names globals h π f
  | .ended (.flow (.returned _)) => False
  | .ended _ => f = globals

/-- An evaluation that has ended is at the top level. -/
theorem Control.Fits.frame_of_ended {names : List (List String)} {globals f : FrameRef} {h : Heap}
    {c : Control} (fits : c.Fits log names globals h f) {o : Outcome} (ended : c = .ended o) :
    f = globals := by
  subst ended
  cases o with
  | value v | fault e => exact fits
  | flow f => cases f with
    | normal => exact fits
    | returned v => cases fits

/-- The evaluation fits. -/
structure State.Fits (log : List Visit) (names : List (List String)) (e : State) : Prop where
  heap : e.it.heap.Fits log names e.it.globals
  control : e.control.Fits log names e.it.globals e.it.heap e.it.frame

end Eval

end Lox
