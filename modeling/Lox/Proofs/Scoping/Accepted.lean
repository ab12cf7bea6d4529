/-
Programs that the static walk accepts. The distances of an accepted program are those of its
references, each recorded under its id (`get?_record`); no name is read before it is ready
(`ready_of_allowed`), because behind a statement all declared names are ready and in an initializer only
the innermost scope has a name that is not; and `return` stands in functions only.
-/
import Lox.Proofs.Scoping.Visits

namespace Lox

open Scoping

/-! ## Distances -/

/-- Records the distance of a reference. -/
def Visit.record (ds : Distances) (v : Visit) : Distances :=
  match distance? v.site.scopes v.name with
  | some d => ds.insert v.id d
  | none => ds

namespace Scoping

theorem distances_walk (w : Scoping) (r : Reference) (declared : List (List String)) (b : Bool) :
    (r.walk w).distances = Visit.record w.distances (r.visitAt ⟨w.scopes, declared, b⟩) := by
  obtain ⟨id, name, reads⟩ := r
  simp only [Reference.walk, Reference.visitAt, Visit.record, read, refer]
  cases reads <;> cases unready w.scopes name.lexeme <;>
    cases h : distance? w.scopes name.lexeme <;> simp [report, h]

theorem distances_walks (w : Scoping) (rs : List Reference) (declared : List (List String))
    (b : Bool) : (rs.foldl Reference.walk w).distances =
      (rs.map (·.visitAt ⟨w.scopes, declared, b⟩)).foldl Visit.record w.distances := by
  induction rs generalizing w with
  | nil => rfl
  | cons r rs ih => rw [List.foldl_cons, ih, scopes_walk, distances_walk w r declared b]; rfl

@[simp] theorem distances_declare (w : Scoping) (name : Token) :
    (w.declare name).distances = w.distances := by
  unfold declare
  split
  · rfl
  · split <;> rfl

@[simp] theorem distances_define (w : Scoping) (name : Token) :
    (w.define name).distances = w.distances := by
  unfold define
  split <;> rfl

@[simp] theorem distances_introduce (w : Scoping) (name : Token) :
    (w.introduce name).distances = w.distances := by
  rw [introduce, distances_define, distances_declare]

theorem distances_introduceAll (w : Scoping) (names : List Token) :
    (names.foldl introduce w).distances = w.distances := by
  induction names generalizing w with
  | nil => rfl
  | cons name names ih => rw [List.foldl_cons, ih, distances_introduce]

@[simp] theorem distances_enter (w : Scoping) : w.enter.distances = w.distances := rfl

@[simp] theorem distances_leave (w : Scoping) : w.leave.distances = w.distances := rfl

end Scoping

theorem Expr.distances_scope (declared : List (List String)) (b : Bool) (w : Scoping) (e : Expr) :
    (e.scope w).distances = (e.visits declared b w).foldl Visit.record w.distances := by
  rw [scope_eq, visits_eq, distances_walks w _ declared b]

theorem Expr.distances_scope? (declared : List (List String)) (b : Bool) (w : Scoping)
    (e : Option Expr) :
    (Expr.scope? w e).distances = (Expr.visits? declared b w e).foldl Visit.record w.distances := by
  rw [scope?_eq, visits?_eq, distances_walks w _ declared b]

mutual

/-- A walk records the distances of the references it meets. -/
theorem Stmt.distances_scope (declared : List (List String)) (b : Bool) (w : Scoping) :
    ∀ s : Stmt, (s.scope b w).distances = (s.visits declared b w).foldl Visit.record w.distances
  | .block body => by
    rw [Stmt.scope, distances_leave, distances_scopeAll _ b w.enter body, visits, distances_enter]
  | .class name _ => distances_introduce w name
  | .var name initializer => by
    rw [Stmt.scope, distances_define, Expr.distances_scope? declared b, distances_declare, visits]
  | .function ⟨name, params, body⟩ => by
    rw [Stmt.scope, distances_leave, distances_scopeAll _ true _ body, distances_introduceAll,
      distances_enter, distances_introduce, visits]
  | .expression e | .print e => by rw [Stmt.scope, e.distances_scope declared b, visits]
  | .if condition thenBranch none => by
    rw [Stmt.scope, distances_scope declared b _ thenBranch, condition.distances_scope declared b,
      visits, List.foldl_append]
  | .if condition thenBranch (some elseBranch) => by
    rw [Stmt.scope, distances_scope declared b _ elseBranch, distances_scope declared b _ thenBranch,
      condition.distances_scope declared b, visits, List.foldl_append, List.foldl_append]
  | .while condition body => by
    rw [Stmt.scope, distances_scope declared b _ body, condition.distances_scope declared b, visits,
      List.foldl_append]
  | .return keyword value => by
    rw [Stmt.scope, Expr.distances_scope? declared b, visits]
    cases b <;> rfl

theorem Stmt.distances_scopeAll (declared : List (List String)) (b : Bool) (w : Scoping) :
    ∀ ss : List Stmt, (Stmt.scopeAll b w ss).distances =
      (Stmt.visitsAll declared b w ss).foldl Visit.record w.distances
  | [] => rfl
  | s :: ss => by
    rw [Stmt.scopeAll, distances_scopeAll declared b _ ss, distances_scope declared b w s, visitsAll,
      List.foldl_append]

end

/-- Recording references with other ids does not change what is recorded under an id. -/
theorem get?_record_of_not_mem {ds : Distances} {vs : List Visit} {id : Nat}
    (h : id ∉ vs.map (·.id)) : (vs.foldl Visit.record ds)[id]? = ds[id]? := by
  induction vs generalizing ds with
  | nil => rfl
  | cons v vs ih =>
    rw [List.map_cons, List.mem_cons, not_or] at h
    rw [List.foldl_cons, ih h.2, Visit.record]
    split
    · rw [Std.ExtTreeMap.getElem?_insert, if_neg]
      simpa using Ne.symm h.1
    · rfl

/-- What is recorded for references with different ids. -/
theorem get?_record {ds : Distances} {vs : List Visit} (unique : (vs.map (·.id)).Nodup)
    (fresh : ∀ v ∈ vs, ds[v.id]? = none) {v : Visit} (hv : v ∈ vs) :
    (vs.foldl Visit.record ds)[v.id]? = distance? v.site.scopes v.name := by
  -- the table grows along the list, and each reference finds its id still free
  induction vs generalizing ds with
  | nil => cases hv
  | cons u us ih =>
    rw [List.map_cons, List.nodup_cons] at unique
    rw [List.foldl_cons]
    rcases List.mem_cons.1 hv with rfl | hv
    · rw [get?_record_of_not_mem unique.1, Visit.record]
      split
      · rename_i d hd
        rw [Std.ExtTreeMap.getElem?_insert_self, hd]
      · rename_i hd
        rw [fresh v (List.mem_cons_self ..), hd]
    · -- the entry just made is not under the id of a reference to come
      refine ih unique.2 (fun u' hu' => ?_) hv
      have other : u.id ≠ u'.id := fun h => unique.1 (h ▸ List.mem_map_of_mem hu')
      rw [Visit.record]
      split
      · rw [Std.ExtTreeMap.getElem?_insert, if_neg (by simpa using other)]
        exact fresh u' (List.mem_cons_of_mem _ hu')
      · exact fresh u' (List.mem_cons_of_mem _ hu')

/-! ## Scopes with every name ready -/

namespace Scope

/-- Every name of the scope is ready. -/
def Settled (S : Scope) : Prop := ∀ name, S.get? name ≠ some false

end Scope

/-- Every name of the scopes is ready. -/
def AllSettled (scopes : List Scope) : Prop := ∀ S ∈ scopes, S.Settled

theorem settled_empty : Scope.Settled .empty := by
  intro name
  rw [Bindings.get?_empty]
  simp

theorem AllSettled.enter {scopes : List Scope} (h : AllSettled scopes) :
    AllSettled (.empty :: scopes) := by
  intro S hS
  rcases List.mem_cons.1 hS with rfl | hS
  · exact settled_empty
  · exact h S hS

theorem AllSettled.tail {scopes : List Scope} (h : AllSettled scopes) : AllSettled scopes.tail :=
  fun S hS => h S (List.mem_of_mem_tail hS)

/-- What the innermost scope says when a name is declared in it and made ready. -/
theorem get?_introduced (S : Scope) (name m : String) :
    ((if S.binds name then S else S.put name false).put name true).get? m =
      if m = name then some true else S.get? m := by
  rw [Bindings.get?_put]
  split
  · rfl
  · split
    · rfl
    · rw [Bindings.get?_put, if_neg (by assumption)]

/-- The innermost scope when names are declared in it and made ready. -/
theorem exists_introduceAll (S : Scope) (outer : List Scope) (names : List String) :
    ∃ T, names.foldl introduceIn (S :: outer) = T :: outer ∧
      ∀ m, T.get? m = if m ∈ names then some true else S.get? m := by
  induction names generalizing S with
  | nil => exact ⟨S, rfl, fun m => by rw [if_neg (List.not_mem_nil)]⟩
  | cons name names ih =>
    obtain ⟨T, hT, ready⟩ := ih ((if S.binds name then S else S.put name false).put name true)
    refine ⟨T, hT, fun m => ?_⟩
    rw [ready, get?_introduced]
    -- a name of the rest is ready anyway; another one is as the first left it
    by_cases hm : m ∈ names
    · rw [if_pos hm, if_pos (List.mem_cons_of_mem _ hm)]
    · by_cases hn : m = name
      · rw [if_neg hm, if_pos hn, if_pos (hn ▸ List.mem_cons_self ..)]
      · rw [if_neg hm, if_neg hn, if_neg (by simp [hm, hn])]

theorem AllSettled.introduce {scopes : List Scope} (h : AllSettled scopes) (name : String) :
    AllSettled (introduceIn scopes name) := by
  cases scopes with
  | nil => exact h
  | cons S outer =>
    intro T hT
    rcases List.mem_cons.1 hT with rfl | hT
    · intro m
      rw [get?_introduced]
      split
      · simp
      · exact h S (List.mem_cons_self ..) m
    · exact h T (List.mem_cons_of_mem _ hT)

theorem AllSettled.introduceAll {scopes : List Scope} (h : AllSettled scopes)
    (names : List String) : AllSettled (names.foldl introduceIn scopes) := by
  induction names generalizing scopes with
  | nil => exact h
  | cons name names ih => exact ih (h.introduce name)

theorem tail_declareIn (name : String) (scopes : List Scope) :
    (declareIn name scopes).tail = scopes.tail := by
  cases scopes <;> rfl

theorem Expr.settled_visits {declared : List (List String)} {b : Bool} {w : Scoping}
    (h : AllSettled w.scopes) (e : Expr) :
    ∀ v ∈ e.visits declared b w, AllSettled v.site.scopes.tail := by
  intro v hv
  rw [e.site_of_mem_visits hv]
  exact h.tail

mutual

/-- Wherever a walk meets a reference, only the innermost scope may have a name that is not
ready. -/
theorem Stmt.settled_visits {declared : List (List String)} {b : Bool} {w : Scoping}
    (h : AllSettled w.scopes) : ∀ s : Stmt, s.Straight →
      ∀ v ∈ s.visits declared b w, AllSettled v.site.scopes.tail
  | .block body, hs, v, hv => settled_visitsAll h.enter body hs v hv
  | .class _ _, _, v, hv => by cases hv
  | .var name initializer, _, v, hv => by
    rw [visits, Expr.visits?_eq] at hv
    obtain ⟨r, -, rfl⟩ := List.mem_map.1 hv
    -- the declared name is not ready, but it is in the innermost scope
    rw [Reference.visitAt, scopes_declare, tail_declareIn]
    exact h.tail
  | .function ⟨name, params, body⟩, hs, v, hv => by
    refine settled_visitsAll ?_ body hs v hv
    rw [scopes_introduceAll, scopes_enter, scopes_introduce]
    exact (h.introduce _).enter.introduceAll _
  | .expression e, _, v, hv | .print e, _, v, hv => e.settled_visits h v hv
  | .if condition thenBranch none, hs, v, hv => by
    rcases List.mem_append.1 hv with hv | hv
    · exact condition.settled_visits h v hv
    · exact settled_visits (by rwa [condition.scopes_scope]) thenBranch hs.2 v hv
  | .if condition thenBranch (some elseBranch), hs, v, hv => by
    obtain ⟨⟨ht, hst⟩, -, hse⟩ := hs
    rcases List.mem_append.1 hv with hv | hv
    · rcases List.mem_append.1 hv with hv | hv
      · exact condition.settled_visits h v hv
      · exact settled_visits (by rwa [condition.scopes_scope]) thenBranch hst v hv
    · refine settled_visits ?_ elseBranch hse v hv
      rw [scopes_scope _ _ _ hst, ht, condition.scopes_scope]
      exact h
  | .while condition body, hs, v, hv => by
    rcases List.mem_append.1 hv with hv | hv
    · exact condition.settled_visits h v hv
    · exact settled_visits (by rwa [condition.scopes_scope]) body hs.2 v hv
  | .return keyword value, _, v, hv => by
    rw [visits, Expr.visits?_eq] at hv
    obtain ⟨r, -, rfl⟩ := List.mem_map.1 hv
    cases b <;> exact h.tail

theorem Stmt.settled_visitsAll {declared : List (List String)} {b : Bool} {w : Scoping}
    (h : AllSettled w.scopes) : ∀ ss : List Stmt, Stmt.AllStraight ss →
      ∀ v ∈ Stmt.visitsAll declared b w ss, AllSettled v.site.scopes.tail
  | [], _, v, hv => by cases hv
  | s :: ss, hs, v, hv => by
    rcases List.mem_append.1 hv with hv | hv
    · exact settled_visits h s hs.1 v hv
    · refine settled_visitsAll ?_ ss hs.2 v hv
      rw [scopes_scope _ _ _ hs.1]
      exact h.introduceAll _

end

/-! ## Walks without errors -/

namespace Visit

/-- The reference does not read a name of the innermost scope that is not ready. -/
def Allowed (v : Visit) : Prop := v.reads = true → unready v.site.scopes v.name = false

/-- If the reference reads a name, the declaration that it means is ready. -/
def Ready (v : Visit) : Prop :=
  v.reads = true → ∀ d, distance? v.site.scopes v.name = some d →
    ∃ S, v.site.scopes[d]? = some S ∧ S.get? v.name = some true

end Visit

mutual

/-- Does the statement return from the function it stands in? -/
def Stmt.returns : Stmt → Bool
  | .block body => Stmt.anyReturns body
  | .if _ thenBranch none => thenBranch.returns
  | .if _ thenBranch (some elseBranch) => thenBranch.returns || elseBranch.returns
  | .while _ body => body.returns
  | .return _ _ => true
  | _ => false

def Stmt.anyReturns : List Stmt → Bool
  | [] => false
  | s :: ss => s.returns || Stmt.anyReturns ss

end

namespace Scoping

theorem errors_report (w : Scoping) (t : Token) (fault : ScopeFault) :
    (w.report t fault).errors ≠ [] := by
  simp [report]

@[simp] theorem errors_refer (w : Scoping) (id : Nat) (name : Token) :
    (w.refer id name).errors = w.errors := by
  unfold refer
  split <;> rfl

theorem errors_walk {w : Scoping} {r : Reference} (h : (r.walk w).errors = [])
    (declared : List (List String)) (b : Bool) :
    w.errors = [] ∧ (r.visitAt ⟨w.scopes, declared, b⟩).Allowed := by
  obtain ⟨id, name, reads⟩ := r
  cases reads with
  | false =>
    rw [Reference.walk, if_neg Bool.false_ne_true, errors_refer] at h
    exact ⟨h, fun hr => by cases hr⟩
  | true =>
    rw [Reference.walk, if_pos rfl, read, errors_refer] at h
    split at h
    · exact absurd h (errors_report _ _ _)
    · rename_i hu
      exact ⟨h, fun _ => eq_false_of_ne_true hu⟩

theorem errors_walks {w : Scoping} {rs : List Reference}
    (h : (rs.foldl Reference.walk w).errors = []) (declared : List (List String)) (b : Bool) :
    w.errors = [] ∧ ∀ v ∈ rs.map (·.visitAt ⟨w.scopes, declared, b⟩), v.Allowed := by
  induction rs generalizing w with
  | nil => exact ⟨h, by simp⟩
  | cons r rs ih =>
    obtain ⟨hw, hrs⟩ := ih h
    obtain ⟨hw, hr⟩ := errors_walk hw declared b
    rw [scopes_walk] at hrs
    exact ⟨hw, by simpa using ⟨hr, by simpa using hrs⟩⟩

theorem errors_declare {w : Scoping} {name : Token} (h : (w.declare name).errors = []) :
    w.errors = [] := by
  unfold declare at h
  split at h
  · exact h
  · split at h
    · exact absurd h (errors_report _ _ _)
    · exact h

@[simp] theorem errors_define (w : Scoping) (name : Token) :
    (w.define name).errors = w.errors := by
  unfold define
  split <;> rfl

theorem errors_introduce {w : Scoping} {name : Token} (h : (w.introduce name).errors = []) :
    w.errors = [] := by
  rw [introduce, errors_define] at h
  exact errors_declare h

theorem errors_introduceAll {w : Scoping} {names : List Token}
    (h : (names.foldl introduce w).errors = []) : w.errors = [] := by
  induction names generalizing w with
  | nil => exact h
  | cons name names ih => exact errors_introduce (ih h)

end Scoping

theorem Expr.allowed_of_errors {declared : List (List String)} {b : Bool} {w : Scoping} {e : Expr}
    (h : (e.scope w).errors = []) : w.errors = [] ∧ ∀ v ∈ e.visits declared b w, v.Allowed := by
  rw [scope_eq] at h
  rw [visits_eq]
  exact errors_walks h declared b

theorem Expr.allowed_of_errors? {declared : List (List String)} {b : Bool} {w : Scoping}
    {e : Option Expr} (h : (Expr.scope? w e).errors = []) :
    w.errors = [] ∧ ∀ v ∈ Expr.visits? declared b w e, v.Allowed := by
  rw [scope?_eq] at h
  rw [visits?_eq]
  exact errors_walks h declared b

mutual

/-- A walk without errors meets allowed references only, and `return` in functions only. -/
theorem Stmt.allowed_of_errors {declared : List (List String)} {b : Bool} {w : Scoping} :
    ∀ s : Stmt, (s.scope b w).errors = [] → w.errors = [] ∧
      (∀ v ∈ s.visits declared b w, v.Allowed) ∧ (b = false → s.returns = false)
  | .block body, h => by
    obtain ⟨hw, hv, hr⟩ := allowed_of_errorsAll body h
    exact ⟨hw, hv, hr⟩
  | .class name _, h => ⟨errors_introduce h, (fun v hv => by cases hv), fun _ => rfl⟩
  | .var name initializer, h => by
    rw [Stmt.scope, errors_define] at h
    obtain ⟨hw, hv⟩ := Expr.allowed_of_errors? h
    exact ⟨errors_declare hw, hv, fun _ => rfl⟩
  | .function ⟨name, params, body⟩, h => by
    obtain ⟨hw, hv, -⟩ := allowed_of_errorsAll body h
    have entered : (w.introduce name).enter.errors = [] := errors_introduceAll hw
    exact ⟨errors_introduce entered, hv, fun _ => rfl⟩
  | .expression e, h | .print e, h => by
    obtain ⟨hw, hv⟩ := Expr.allowed_of_errors h
    exact ⟨hw, hv, fun _ => rfl⟩
  | .if condition thenBranch none, h => by
    obtain ⟨hw, ht, hr⟩ := allowed_of_errors thenBranch h
    obtain ⟨hw, hc⟩ := Expr.allowed_of_errors hw
    exact ⟨hw, fun v hv => (List.mem_append.1 hv).elim (hc v) (ht v), hr⟩
  | .if condition thenBranch (some elseBranch), h => by
    obtain ⟨hw, he, hr'⟩ := allowed_of_errors elseBranch h
    obtain ⟨hw, ht, hr⟩ := allowed_of_errors thenBranch hw
    obtain ⟨hw, hc⟩ := Expr.allowed_of_errors hw
    refine ⟨hw, fun v hv => ?_, fun hb => by rw [returns, hr hb, hr' hb]; rfl⟩
    rcases List.mem_append.1 hv with hv | hv
    · exact (List.mem_append.1 hv).elim (hc v) (ht v)
    · exact he v hv
  | .while condition body, h => by
    obtain ⟨hw, hb, hr⟩ := allowed_of_errors body h
    obtain ⟨hw, hc⟩ := Expr.allowed_of_errors hw
    exact ⟨hw, fun v hv => (List.mem_append.1 hv).elim (hc v) (hb v), hr⟩
  | .return keyword value, h => by
    obtain ⟨hw, hv⟩ := Expr.allowed_of_errors? h
    cases b with
    | true => exact ⟨hw, hv, fun hb => by cases hb⟩
    | false => exact absurd hw (errors_report _ _ _)

theorem Stmt.allowed_of_errorsAll {declared : List (List String)} {b : Bool} {w : Scoping} :
    ∀ ss : List Stmt, (Stmt.scopeAll b w ss).errors = [] → w.errors = [] ∧
      (∀ v ∈ Stmt.visitsAll declared b w ss, v.Allowed) ∧ (b = false → Stmt.anyReturns ss = false)
  | [], h => ⟨h, (fun v hv => by cases hv), fun _ => rfl⟩
  | s :: ss, h => by
    obtain ⟨hw, hss, hr'⟩ := allowed_of_errorsAll ss h
    obtain ⟨hw, hs, hr⟩ := allowed_of_errors s hw
    refine ⟨hw, fun v hv => (List.mem_append.1 hv).elim (hs v) (hss v), fun hb => ?_⟩
    rw [anyReturns, hr hb, hr' hb]
    rfl

end

/-! ## Accepted programs -/

/-- A name that is read has its declaration, at the distance that is recorded, ready. -/
theorem ready_of_allowed {v : Visit} (allowed : v.Allowed)
    (settled : AllSettled v.site.scopes.tail) : v.Ready := by
  intro reads d hd
  obtain ⟨hlt, binds, -⟩ := List.findIdx?_eq_some_iff_getElem.1 hd
  refine ⟨v.site.scopes[d], List.getElem?_eq_getElem hlt, ?_⟩
  obtain ⟨b, hb⟩ := Option.isSome_iff_exists.1 binds
  rw [hb]
  cases b with
  | true => rfl
  | false =>
    -- a name that is not ready is in the innermost scope, where it may not be read
    exfalso
    cases hs : v.site.scopes with
    | nil => simp [hs] at hlt
    | cons S outer =>
      cases d with
      | zero =>
        have := allowed reads
        simp_all [unready]
      | succ d =>
        have hd' : d < outer.length := by simpa [hs] using hlt
        have hS : outer[d] ∈ v.site.scopes.tail := by simp [hs]
        refine settled _ hS v.name ?_
        simpa [hs] using hb

/-- What an accepted program has: no `return` outside of functions, no read of a name that is not
ready, and a table with the distance of each of its references. -/
structure Accepted (program : List Stmt) (ds : Distances) : Prop where
  returns : Stmt.anyReturns program = false
  ready : ∀ v ∈ visitsOf program, v.Ready
  recorded : ds = (visitsOf program).foldl Visit.record ∅

/-- A program is accepted if the walk through it finds no error, and its distances are the walk's. -/
theorem distancesOf_eq_ok {program : List Stmt} {ds : Distances} :
    distancesOf program = .ok ds ↔ (Stmt.scopeAll false .start program).errors = [] ∧
      (Stmt.scopeAll false .start program).distances = ds := by
  unfold distancesOf
  dsimp only
  split
  · rename_i none
    simp [List.isEmpty_iff.1 none]
  · rename_i some
    constructor
    · exact fun h => by cases h
    · exact fun h => absurd (List.isEmpty_iff.2 h.1) some

theorem accepted_of_distancesOf {program : List Stmt} {ds : Distances}
    (straight : Stmt.AllStraight program) (h : distancesOf program = .ok ds) :
    Accepted program ds := by
  obtain ⟨none, rfl⟩ := distancesOf_eq_ok.1 h
  obtain ⟨-, allowed, returns⟩ := @Stmt.allowed_of_errorsAll [] false .start program none
  refine ⟨returns rfl, fun v hv => ?_, Stmt.distances_scopeAll [] false .start program⟩
  have settled : AllSettled Scoping.start.scopes := by simp [AllSettled, Scoping.start]
  exact ready_of_allowed (allowed v hv) (Stmt.settled_visitsAll settled program straight v hv)

end Lox
