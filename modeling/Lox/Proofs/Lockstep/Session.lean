/-
Frames follow scopes over whole sessions. Between runs a session fits its programs
(`Session.Fits`): the functions on its heap were met at places that their frames agree with, and the
table still has the distances of all references in functions. A run adds the references of its
program; at its end those outside of functions can be forgotten, because nothing on the heap holds
them.

The main result is `reaches_followsScopes`: wherever a run of a session is at a reference, the frames
around it are those of the scopes in which the static walk met it.
-/
import Mathlib.Data.List.Nodup
import Lox.Proofs.Grammar.Sound
import Lox.Proofs.Grammar.Trees
import Lox.Proofs.Lockstep.Step
import Lox.Session

namespace Lox

open Scoping

/-! ## Distances between runs -/

namespace Interpreter

theorem distances_addDistances (it : Interpreter) (ds : Distances) (id : Nat) :
    (it.addDistances ds).distances[id]? = ds[id]?.or it.distances[id]? := by
  unfold addDistances
  cases hd : ds[id]? with
  | some d =>
    have mem : (id, d) ∈ ds.toList := Std.ExtTreeMap.mem_toList_iff_getElem?_eq_some.2 hd
    exact Std.ExtTreeMap.getElem?_insertMany_list_of_mem (by simp)
      Std.ExtTreeMap.distinct_keys_toList mem
  | none =>
    rw [Option.none_or]
    refine Std.ExtTreeMap.getElem?_insertMany_list_of_contains_eq_false ?_
    rw [Std.ExtTreeMap.map_fst_toList_eq_keys, List.contains_eq_mem, decide_eq_false_iff_not,
      Std.ExtTreeMap.mem_keys, Std.ExtTreeMap.mem_iff_isSome_getElem?, hd]
    decide

theorem distances_forget (it : Interpreter) (ids : List Nat) (id : Nat) :
    (it.forget ids).distances[id]? = if id ∈ ids then none else it.distances[id]? := by
  unfold forget
  suffices ∀ ds : Distances, (ids.foldl (fun ds i => ds.erase i) ds)[id]? =
      if id ∈ ids then none else ds[id]? from this _
  induction ids with
  | nil => simp
  | cons i ids ih =>
    intro ds
    rw [List.foldl_cons, ih, Std.ExtTreeMap.getElem?_erase]
    by_cases hid : id ∈ ids
    · rw [if_pos hid, if_pos (List.mem_cons_of_mem _ hid)]
    · by_cases hi : i = id
      · rw [if_neg hid, if_pos (by simp [hi]), if_pos (hi ▸ List.mem_cons_self ..)]
      · rw [if_neg hid, if_neg (by simp [hi]), if_neg (by simp [hid, Ne.symm hi])]

end Interpreter

/-! ## References inside of functions -/

theorem Expr.inFunction_visits {declared : List (List String)} {b : Bool} {w : Scoping} {e : Expr}
    {v : Visit} (hv : v ∈ e.visits declared b w) : v.site.inFunction = b := by
  rw [e.site_of_mem_visits hv]

theorem Expr.inFunction_visits? {declared : List (List String)} {b : Bool} {w : Scoping}
    {e : Option Expr} {v : Visit} (hv : v ∈ Expr.visits? declared b w e) :
    v.site.inFunction = b := by
  cases e with
  | none => cases hv
  | some e => exact e.inFunction_visits hv

mutual

/-- Without a function declaration on the way, a walk does not come to be inside of a function; and
it never leaves the function that it started in. -/
theorem Stmt.inFunction_visits {declared : List (List String)} {b : Bool} {w : Scoping} {v : Visit} :
    ∀ s : Stmt, s.declaresFunction = false ∨ b = true → v ∈ s.visits declared b w →
      v.site.inFunction = b
  | .block body, h, hv => inFunction_visitsAll body h hv
  | .class _ _, _, hv => by cases hv
  | .var name initializer, _, hv => Expr.inFunction_visits? hv
  | .function ⟨name, params, body⟩, h, hv => by
    rcases h with h | rfl
    · cases h
    · exact inFunction_visitsAll body (.inr rfl) hv
  | .expression e, _, hv | .print e, _, hv => e.inFunction_visits hv
  | .if condition thenBranch none, h, hv => by
    rcases List.mem_append.1 hv with hv | hv
    · exact condition.inFunction_visits hv
    · exact inFunction_visits thenBranch h hv
  | .if condition thenBranch (some elseBranch), h, hv => by
    rw [declaresFunction, Bool.or_eq_false_iff] at h
    rcases List.mem_append.1 hv with hv | hv
    · rcases List.mem_append.1 hv with hv | hv
      · exact condition.inFunction_visits hv
      · exact inFunction_visits thenBranch (h.imp_left And.left) hv
    · exact inFunction_visits elseBranch (h.imp_left And.right) hv
  | .while condition body, h, hv => by
    rcases List.mem_append.1 hv with hv | hv
    · exact condition.inFunction_visits hv
    · exact inFunction_visits body h hv
  | .return keyword value, _, hv => Expr.inFunction_visits? hv

theorem Stmt.inFunction_visitsAll {declared : List (List String)} {b : Bool} {w : Scoping}
    {v : Visit} : ∀ ss : List Stmt, Stmt.anyDeclaresFunction ss = false ∨ b = true →
      v ∈ Stmt.visitsAll declared b w ss → v.site.inFunction = b
  | [], _, hv => by cases hv
  | s :: ss, h, hv => by
    rw [anyDeclaresFunction, Bool.or_eq_false_iff] at h
    rcases List.mem_append.1 hv with hv | hv
    · exact inFunction_visits s (h.imp_left And.left) hv
    · exact inFunction_visitsAll ss (h.imp_left And.right) hv

end

/-- Only the references inside of functions matter for a heap. -/
theorem Heap.Fits.weaken {log log' : List Visit} {names : List (List String)} {globals : FrameRef}
    {h : Heap} (fits : h.Fits log names globals)
    (kept : ∀ v ∈ log, v.site.inFunction = true → v ∈ log') : h.Fits log' names globals := by
  refine { fits with placed := fun c hc => ?_ }
  obtain ⟨π, a, straight, placed⟩ := fits.placed c hc
  refine ⟨π, a, straight, fun v hv => kept v (placed v hv) ?_⟩
  exact Stmt.inFunction_visitsAll c.decl.body (.inr rfl) hv

/-! ## Texts that are checked -/

namespace Program

/-- The references of a program. -/
def visits (p : Program) : List Visit := visitsOf p.statements

/-- The references of programs. -/
def allVisits (ps : List Program) : List Visit := ps.flatMap visits

/-- The references of programs that functions hold. -/
def lasting (ps : List Program) : List Visit := (allVisits ps).filter (·.site.inFunction)

theorem mem_lasting {ps : List Program} {v : Visit} :
    v ∈ lasting ps ↔ v ∈ allVisits ps ∧ v.site.inFunction = true := List.mem_filter

theorem allVisits_concat (ps : List Program) (p : Program) :
    allVisits (ps ++ [p]) = allVisits ps ++ p.visits := by
  simp [allVisits]

end Program

namespace Session

/-- What the static checks of a text find out about a program that passes them. -/
structure Checked (s : Session) (p : Program) (t : Session) : Prop where
  interpreter : t.interpreter = s.interpreter
  straight : Stmt.AllStraight p.statements
  ids : FreshIds s.nextId t.nextId (p.visits.map (·.id))
  accepted : Accepted p.statements p.distances

theorem interpreter_check (s : Session) (source : String) :
    (s.check source).2.interpreter = s.interpreter := rfl

theorem interpreter_of_check {s t : Session} {source : String}
    {result : Except (List StaticError) Program} (h : s.check source = (result, t)) :
    t.interpreter = s.interpreter := by
  rw [← interpreter_check s source, h]

theorem nextId_check (s : Session) (source : String) : s.nextId ≤ (s.check source).2.nextId :=
  (Parse.State.grows_run (.start s.nextId _)).nextId

/-- The text of a program that passes the checks parses to it. -/
theorem parsed_of_check {s t : Session} {source : String} {p : Program}
    (h : s.check source = (.ok p, t)) :
    (Parse.program s.nextId (Item.tokens (scan source))).program = .ok p.statements ∧
      t.nextId = (Parse.program s.nextId (Item.tokens (scan source))).nextId ∧
      Item.errors (scan source) = [] ∧ distancesOf p.statements = .ok p.distances := by
  simp only [check, Prod.mk.injEq] at h
  obtain ⟨h, rfl⟩ := h
  split at h
  · cases h
  · rename_i statements lexical parsed
    cases hd : distancesOf statements with
    | error errors =>
      rw [hd] at h
      cases h
    | ok ds =>
      rw [hd] at h
      cases h
      exact ⟨parsed, rfl, lexical, hd⟩
  · cases h

theorem checked_of_check {s t : Session} {source : String} {p : Program}
    (h : s.check source = (.ok p, t)) : Checked s p t := by
  obtain ⟨parsed, next, -, resolved⟩ := parsed_of_check h
  obtain ⟨d, -, -, -, tree⟩ := Grammar.exists_derivation _ _ parsed
  have fresh := Grammar.fresh_tree d s.nextId
  have straight := Grammar.straight_tree d s.nextId
  rw [tree] at fresh straight
  refine ⟨interpreter_of_check h, straight, ?_, accepted_of_distancesOf straight resolved⟩
  rw [Program.visits, visitsOf, Stmt.ids_visitsAll, next]
  exact fresh

/-- What a run of a text does: it is rejected, or its program runs to its end. -/
theorem run_cases {s u : Session} {fuel : Nat} {source : String} {r : Except RunError Unit}
    (h : s.run fuel source = some (r, u)) :
    (∃ errors, s.check source = (.error errors, u) ∧ r = .error (.rejected errors)) ∨
      ∃ p t o, s.check source = (.ok p, t) ∧ ((t.launch p).run fuel).control = .ended o ∧
        t.settle p o ((t.launch p).run fuel).it = (r, u) := by
  unfold run at h
  split at h
  · rename_i errors t hc
    cases h
    exact .inl ⟨errors, hc, rfl⟩
  · rename_i p t hc
    obtain ⟨o, ho, hu⟩ := Option.map_eq_some_iff.1 h
    exact .inr ⟨p, t, o, hc, Eval.control_of_outcome? ho, hu⟩

section

variable (s : Session) (p : Program) (o : Eval.Outcome) (it : Interpreter)

/-- The end of a run changes nothing but the table. -/
theorem interpreter_settle : (s.settle p o it).2.interpreter =
    { it with distances := (s.settle p o it).2.interpreter.distances } := by
  unfold settle
  dsimp only
  split <;> rfl

theorem heap_settle : (s.settle p o it).2.interpreter.heap = it.heap := by
  rw [interpreter_settle]

theorem frame_settle : (s.settle p o it).2.interpreter.frame = it.frame := by
  rw [interpreter_settle]

theorem globals_settle : (s.settle p o it).2.interpreter.globals = it.globals := by
  rw [interpreter_settle]

theorem natives_settle : (s.settle p o it).2.interpreter.natives = it.natives := by
  rw [interpreter_settle]

/-- Behind a run the distances of a program without functions are forgotten. -/
theorem distances_settle (id : Nat) : (s.settle p o it).2.interpreter.distances[id]? =
    if Stmt.anyDeclaresFunction p.statements = false ∧ id ∈ p.distances.keys then none
    else it.distances[id]? := by
  unfold settle
  dsimp only
  cases Stmt.anyDeclaresFunction p.statements with
  | true => rw [if_pos rfl, if_neg (by simp)]
  | false =>
    rw [if_neg Bool.false_ne_true, Interpreter.distances_forget]
    simp

end

/-! ## What is recorded for a program -/

namespace Checked

variable {s t : Session} {p : Program}

theorem get?_distances (checked : Checked s p t) {v : Visit} (hv : v ∈ p.visits) :
    p.distances[v.id]? = distance? v.site.scopes v.name := by
  rw [checked.accepted.recorded]
  exact get?_record checked.ids.nodup (fun u _ => by simp) hv

theorem get?_distances_of_not_mem (checked : Checked s p t) {id : Nat}
    (hid : id ∉ p.visits.map (·.id)) : p.distances[id]? = none := by
  rw [checked.accepted.recorded, ← Program.visits, get?_record_of_not_mem hid]
  simp

theorem mem_of_mem_keys (checked : Checked s p t) {id : Nat} (hid : id ∈ p.distances.keys) :
    id ∈ p.visits.map (·.id) := by
  rw [Std.ExtTreeMap.mem_keys, Std.ExtTreeMap.mem_iff_isSome_getElem?] at hid
  refine Decidable.byContradiction fun absent => ?_
  rw [checked.get?_distances_of_not_mem absent] at hid
  cases hid

theorem launch_eq (checked : Checked s p t) : t.launch p =
    ⟨.executeAll p.statements .flow, s.interpreter.addDistances p.distances⟩ := by
  rw [launch, checked.interpreter]

theorem le_id (checked : Checked s p t) {v : Visit} (hv : v ∈ p.visits) : s.nextId ≤ v.id :=
  (checked.ids.bounds v.id (List.mem_map_of_mem hv)).1

end Checked

/-! ## Between runs -/

/-- The session fits the programs it has run: it is at the top level, no two of their references
share an id, and for those in functions the heap fits and the table has the distances. -/
structure Fits (past : List Program) (s : Session) : Prop where
  frame : s.interpreter.frame = s.interpreter.globals
  bounded : ∀ v ∈ Program.allVisits past, v.id < s.nextId
  unique : ((Program.allVisits past).map (·.id)).Nodup
  ready : ∀ v ∈ Program.allVisits past, v.Ready
  recorded : ∀ v ∈ Program.lasting past,
    s.interpreter.distances[v.id]? = distance? v.site.scopes v.name
  fresh : ∀ id, s.nextId ≤ id → s.interpreter.distances[id]? = none
  heap : ∃ names,
    s.interpreter.heap.Fits (Program.lasting past) names s.interpreter.globals

theorem fits_start (maxDepth : Nat) (sink : Sink) (clock : Clock) :
    (start (.start maxDepth sink clock)).Fits [] := by
  refine ⟨rfl, by simp [Program.allVisits], by simp [Program.allVisits],
    by simp [Program.allVisits], by simp [Program.lasting, Program.allVisits], fun id _ => ?_,
    [[]], rfl, rfl, Nat.zero_lt_one, fun f D x hf hD _ => ?_, fun c hc => ?_⟩
  · exact Std.ExtTreeMap.getElem?_empty
  · have only : f.index = 0 := by
      have := (List.getElem?_eq_some_iff.1 hD).1
      simpa using this
    obtain ⟨i⟩ := f
    cases only
    exact absurd rfl hf
  · cases Array.not_mem_empty c hc

namespace Fits

variable {s t : Session} {past : List Program} {p : Program}

/-- A text that is rejected uses up ids and nothing else. -/
theorem reject (fits : s.Fits past) (kept : t.interpreter = s.interpreter)
    (le : s.nextId ≤ t.nextId) : t.Fits past := by
  obtain ⟨it, n⟩ := t
  cases kept
  exact { fits with
    bounded := fun v hv => Nat.lt_of_lt_of_le (fits.bounded v hv) le
    fresh := fun id hid => fits.fresh id (Nat.le_trans le hid) }

/-- The references of all programs have different ids. -/
theorem unique_concat (fits : s.Fits past) (checked : Checked s p t) :
    ((Program.allVisits (past ++ [p])).map (·.id)).Nodup := by
  rw [Program.allVisits_concat, List.map_append]
  refine List.nodup_append.2 ⟨fits.unique, checked.ids.nodup, fun a ha b hb hab => ?_⟩
  obtain ⟨v, hv, rfl⟩ := List.mem_map.1 ha
  have below := fits.bounded v hv
  have above := (checked.ids.bounds b hb).1
  omega

theorem ready_concat (fits : s.Fits past) (checked : Checked s p t) :
    ∀ v ∈ Program.allVisits (past ++ [p]), v.Ready := by
  rw [Program.allVisits_concat]
  intro v hv
  rcases List.mem_append.1 hv with hv | hv
  · exact fits.ready v hv
  · exact checked.accepted.ready v hv

/-- A program is launched at the top level. -/
theorem launched (fits : s.Fits past) (checked : Checked s p t) :
    ∃ names, (t.launch p).Fits (Program.lasting past ++ p.visits) names := by
  obtain ⟨names, heap⟩ := fits.heap
  have visited : ∀ v ∈ Stmt.visitsAllAt ⟨[], [], false⟩ p.statements,
      v ∈ Program.lasting past ++ p.visits := fun v hv => List.mem_append_right _ hv
  have placed : Stmt.AllPlaced (Program.lasting past ++ p.visits) ⟨[], [], false⟩ p.statements :=
    Stmt.allPlaced_of_visits checked.straight visited (fun _ => checked.accepted.returns)
      (fun name _ D declared hD => by cases hD)
  -- nothing is declared at the top level, which is not a scope
  have outermost : Site.introduce ⟨[], [], false⟩ (p.statements.flatMap Stmt.declares) =
      ⟨[], [], false⟩ := by
    rw [Site.introduce, foldl_introduceIn_nil]
  refine ⟨names, ?_⟩
  rw [checked.launch_eq]
  have starts : Site.Matches ⟨[], [], false⟩ names s.interpreter.globals s.interpreter.heap
      s.interpreter.frame := ⟨fits.frame, fun S scopes hS => by cases hS⟩
  refine ⟨heap.weaken fun v hv _ => List.mem_append_left _ hv, ⟨[], [], false⟩, starts, placed, ?_⟩
  rw [outermost]
  exact ⟨fits.frame, rfl⟩

/-- During a run the table has the distances of all references that the run can come to. -/
theorem recorded_launch (fits : s.Fits past) (checked : Checked s p t) :
    ∀ v ∈ Program.lasting past ++ p.visits,
      (t.launch p).it.distances[v.id]? = distance? v.site.scopes v.name := by
  intro v hv
  rw [checked.launch_eq, Interpreter.distances_addDistances]
  rcases List.mem_append.1 hv with hv | hv
  · -- the ids of the program are above all that were drawn before
    have older : v.id ∉ p.visits.map (·.id) := fun hid => by
      have below := fits.bounded v (Program.mem_lasting.1 hv).1
      have above := (checked.ids.bounds v.id hid).1
      omega
    rw [checked.get?_distances_of_not_mem older, Option.none_or]
    exact fits.recorded v hv
  · rw [checked.get?_distances hv, fits.fresh v.id (checked.le_id hv), Option.or_none]

/-- An id that is yet to be drawn is in no table. -/
theorem fresh_launch (fits : s.Fits past) (checked : Checked s p t) :
    ∀ id, t.nextId ≤ id → (t.launch p).it.distances[id]? = none := by
  intro id hid
  have newer : id ∉ p.visits.map (·.id) := fun h => Nat.not_lt.2 hid (checked.ids.bounds id h).2
  rw [checked.launch_eq, Interpreter.distances_addDistances,
    checked.get?_distances_of_not_mem newer, fits.fresh id (Nat.le_trans checked.ids.le hid)]
  rfl

/-- Behind a run the session fits the programs before it and the one that was run. -/
theorem settled (fits : s.Fits past) (checked : Checked s p t) {n : Nat} {o : Eval.Outcome}
    (ended : ((t.launch p).run n).control = .ended o) :
    (t.settle p o ((t.launch p).run n).it).2.Fits (past ++ [p]) := by
  obtain ⟨names, started⟩ := fits.launched checked
  obtain ⟨names', -, heap, control⟩ := Eval.run_fits started n
  have kept := Eval.run_keeps (t.launch p) n
  have frame : ((t.launch p).run n).it.frame = ((t.launch p).run n).it.globals :=
    control.frame_of_ended ended
  generalize hit : ((t.launch p).run n).it = it at *
  have lasting : ∀ v ∈ Program.lasting past ++ p.visits, v.site.inFunction = true →
      v ∈ Program.lasting (past ++ [p]) := fun v hv inside => by
    rw [Program.mem_lasting, Program.allVisits_concat, List.mem_append]
    exact ⟨(List.mem_append.1 hv).imp_left fun hv => (Program.mem_lasting.1 hv).1, inside⟩
  refine ⟨?_, fun v hv => ?_, fits.unique_concat checked, fits.ready_concat checked,
    fun v hv => ?_, fun id hid => ?_, names', ?_⟩
  · rw [frame_settle, globals_settle, frame]
  · rw [Program.allVisits_concat] at hv
    rcases List.mem_append.1 hv with hv | hv
    · exact Nat.lt_of_lt_of_le (fits.bounded v hv) checked.ids.le
    · exact (checked.ids.bounds v.id (List.mem_map_of_mem hv)).2
  · -- a reference in a function of this program is not forgotten: there is such a function
    rw [Program.mem_lasting, Program.allVisits_concat, List.mem_append] at hv
    obtain ⟨hv, inside⟩ := hv
    rw [distances_settle, if_neg, kept.distances]
    · refine fits.recorded_launch checked v (List.mem_append.2 (hv.imp_left fun hv => ?_))
      exact Program.mem_lasting.2 ⟨hv, inside⟩
    · rintro ⟨none, hid⟩
      rcases hv with hv | hv
      · have below := fits.bounded v hv
        have above := (checked.ids.bounds v.id (checked.mem_of_mem_keys hid)).1
        omega
      · rw [Stmt.inFunction_visitsAll p.statements (.inl none) hv] at inside
        cases inside
  · rw [distances_settle, kept.distances, fits.fresh_launch checked id hid]
    split <;> rfl
  · rw [heap_settle, globals_settle]
    exact heap.weaken lasting

end Fits

/-! ## Sessions -/

/-- The programs that a run of the text comes to: one, or none if it is rejected. -/
def accepted (s : Session) (source : String) : List Program :=
  match (s.check source).1 with
  | .ok p => [p]
  | .error _ => []

/-- The second session is reached from the first by runs of texts, rejected ones and failed ones
included. The programs are those of the texts that were not rejected. -/
inductive Reaches (s : Session) : List Program → Session → Prop
  | none : s.Reaches [] s
  | run {past : List Program} {t u : Session} {fuel : Nat} {source : String}
      {r : Except RunError Unit} : s.Reaches past t → t.run fuel source = some (r, u) →
      s.Reaches (past ++ t.accepted source) u

/-- A run of a text keeps a session fit. -/
theorem Fits.run {s t : Session} {past : List Program} (fits : s.Fits past) {fuel : Nat}
    {source : String} {r : Except RunError Unit} (h : s.run fuel source = some (r, t)) :
    t.Fits (past ++ s.accepted source) := by
  rcases run_cases h with ⟨errors, rejected, -⟩ | ⟨p, u, o, passed, ended, settled⟩
  · rw [accepted, rejected, List.append_nil]
    obtain rfl : (s.check source).2 = t := by rw [rejected]
    exact fits.reject (interpreter_check s source) (nextId_check s source)
  · rw [accepted, passed]
    have behind := fits.settled (checked_of_check passed) ended
    rwa [settled] at behind

theorem Reaches.fits {s t : Session} {before past : List Program} (h : s.Reaches past t)
    (fits : s.Fits before) : t.Fits (before ++ past) := by
  induction h with
  | none => rwa [List.append_nil]
  | run h hr ih =>
    rw [← List.append_assoc]
    exact ih.run hr

end Session

/-! ## At a reference -/

/-- The frames around a reference are those of the scopes in which the walk met it. -/
structure Interpreter.FollowsScopes (it : Interpreter) (v : Visit) : Prop where
  /-- The top level is as many links away as scopes were open, and has no link itself. -/
  length : it.heap.ancestor? it.frame v.site.scopes.length = some it.globals ∧
    it.heap.parent? it.globals = none
  /-- Each frame before it binds all names that were ready in its scope, and only names that its
  block or function declares. -/
  frames : ∀ k, k < v.site.scopes.length → ∃ S D f, v.site.scopes[k]? = some S ∧
    v.site.declared[k]? = some D ∧ it.heap.ancestor? it.frame k = some f ∧
      (∀ x, S.get? x = some true → (it.heap.get? f x).isSome) ∧
      ∀ x, (it.heap.get? f x).isSome → x ∈ D
  /-- The table says how far out the walk found a declaration. -/
  entry : it.distances[v.id]? = distance? v.site.scopes v.name
  /-- What is read is bound where the table says. -/
  found : v.reads = true → ∀ d, it.distances[v.id]? = some d →
    ∃ f, it.heap.ancestor? it.frame d = some f ∧ (it.heap.get? f v.name).isSome
  /-- What the table does not have is looked up at the top level only. -/
  global : it.distances[v.id]? = none →
    it.referred? v.id v.name =
      if (it.heap.get? it.globals v.name).isSome then some it.globals else none

/-- Where a frame agrees with the place of a reference that the table has, frames follow scopes. -/
theorem Site.Agrees.followsScopes {log : List Visit} {names : List (List String)}
    {it : Interpreter} {v : Visit} (a : v.site.Agrees names it.globals it.heap it.frame)
    (heap : it.heap.Fits log names it.globals) (ready : v.Ready)
    (recorded : it.distances[v.id]? = distance? v.site.scopes v.name) : it.FollowsScopes v := by
  have same : v.site.declared.length = v.site.scopes.length := Lox.Agrees.length_eq a
  refine ⟨⟨a.ancestor?_globals, heap.root⟩, fun k hk => ?_, recorded, fun reads d hd => ?_,
    fun none => ?_⟩
  · have hS := List.getElem?_eq_getElem hk
    have hD := List.getElem?_eq_getElem (same ▸ hk : k < v.site.declared.length)
    obtain ⟨f, p, hf, hp, hnames, hready⟩ := Lox.Agrees.exists_ancestor a hS hD
    -- the top level has no link, so the frame is not it
    have inner : f ≠ it.globals := by
      rintro rfl
      rw [heap.root] at hp
      cases hp
    exact ⟨_, _, f, hS, hD, hf, hready, fun x hx => heap.bound f _ x inner hnames hx⟩
  · rw [recorded] at hd
    obtain ⟨S, hS, hready⟩ := ready reads d hd
    have hk := (List.getElem?_eq_some_iff.1 hS).1
    have hD := List.getElem?_eq_getElem (same ▸ hk : d < v.site.declared.length)
    obtain ⟨f, -, hf, -, -, bound⟩ := Lox.Agrees.exists_ancestor a hS hD
    exact ⟨f, hf, bound v.name hready⟩
  · unfold Interpreter.referred?
    rw [none]
    exact Heap.owner?_of_root heap.root

/-- What is read or written next was met by the walk at a place that the frame matches. -/
theorem Eval.State.Fits.exists_site {log : List Visit} {names : List (List String)}
    {e : Eval.State} (fits : e.Fits log names) {r : Reference}
    (next : e.control.reference? = some r) :
    ∃ π : Site, π.Matches names e.it.globals e.it.heap e.it.frame ∧ r.visitAt π ∈ log := by
  obtain ⟨-, control⟩ := fits
  obtain ⟨c, it⟩ := e
  change c.reference? = some r at next
  unfold Eval.Control.reference? at next
  split at next <;> cases next
  · obtain ⟨π, a, placed, -⟩ := control
    exact ⟨π, a, Expr.placed_iff.1 placed _ (List.mem_singleton_self _)⟩
  · obtain ⟨π, a, placed, -⟩ := control
    refine ⟨π, a, Expr.placed_iff.1 placed _ ?_⟩
    exact List.mem_append_right _ (List.mem_singleton_self _)
  · obtain ⟨π, a, logged, -⟩ := control
    exact ⟨π, a, logged⟩

/-- What is read or written next was met by the walk at a place that the frame agrees with. -/
theorem Eval.State.Fits.exists_visit {log : List Visit} {names : List (List String)}
    {e : Eval.State} (fits : e.Fits log names) {r : Reference}
    (next : e.control.reference? = some r) :
    ∃ π : Site, π.Agrees names e.it.globals e.it.heap e.it.frame ∧ r.visitAt π ∈ log := by
  obtain ⟨π, a, logged⟩ := fits.exists_site next
  exact ⟨π, a.agrees, logged⟩

/-- Static and dynamic scoping agree over whole sessions: whenever a run is at a reference, the walk
through one of the programs so far met it, and the frames follow the scopes it was met in. -/
theorem reaches_followsScopes {maxDepth : Nat} {sink : Sink} {clock : Clock}
    {past : List Program} {s : Session}
    (reached : (Session.start (.start maxDepth sink clock)).Reaches past s)
    {source : String} {p : Program} {t : Session} (passed : s.check source = (.ok p, t)) (n : Nat)
    {r : Reference} (next : ((t.launch p).run n).control.reference? = some r) :
    ∃ v ∈ Program.allVisits (past ++ [p]),
      (∀ u ∈ Program.allVisits (past ++ [p]), u.id = r.id → u = v) ∧
        v.id = r.id ∧ v.name = r.name.lexeme ∧ v.reads = r.reads ∧
          ((t.launch p).run n).it.FollowsScopes v := by
  have fits : s.Fits past := reached.fits (Session.fits_start maxDepth sink clock)
  have checked := Session.checked_of_check passed
  obtain ⟨names, started⟩ := fits.launched checked
  obtain ⟨names', -, running⟩ := Eval.run_fits started n
  obtain ⟨π, a, logged⟩ := running.exists_visit next
  -- the frame agrees with the place of the visit that the code was logged under
  have mem : r.visitAt π ∈ Program.allVisits (past ++ [p]) := by
    rw [Program.allVisits_concat, List.mem_append]
    exact (List.mem_append.1 logged).imp_left fun h => (Program.mem_lasting.1 h).1
  have recorded := fits.recorded_launch checked _ logged
  rw [← (Eval.run_keeps (t.launch p) n).distances] at recorded
  refine ⟨r.visitAt π, mem, fun u hu same => ?_, rfl, rfl, rfl, ?_⟩
  · exact List.inj_on_of_nodup_map (fits.unique_concat checked) hu mem same
  · exact a.followsScopes running.heap (fits.ready_concat checked _ mem) recorded

/-- The function that one text declares is called by the next, and comes to read its parameter from
a block, one frame up. -/
theorem reaches_followsScopes_parameter :
    ∃ past s p t r, (Session.start (.start 1 .unlimited (.stopped 0))).Reaches past s ∧
      s.check "f(nil);" = (.ok p, t) ∧ ((t.launch p).run 12).control.reference? = some r ∧
        r.name.lexeme = "a" ∧ ∃ v ∈ Program.allVisits (past ++ [p]),
          (∀ u ∈ Program.allVisits (past ++ [p]), u.id = r.id → u = v) ∧
            v.id = r.id ∧ v.name = r.name.lexeme ∧ v.reads = r.reads ∧
              ((t.launch p).run 12).it.FollowsScopes v := by
  have reads : ((Session.start (.start 1 .unlimited (.stopped 0))).run 8
      "fun f(a) \x7b \x7b print a; \x7d \x7d").bind (fun x => match x.2.check "f(nil);" with
        | (.ok p, t) => ((t.launch p).run 12).control.reference?.map (·.name.lexeme)
        | (.error _, _) => none) = some "a" := by
    decide +kernel
  obtain ⟨⟨_, s⟩, first, second⟩ := Option.bind_eq_some_iff.1 reads
  split at second
  · rename_i p t passed
    obtain ⟨r, next, name⟩ := Option.map_eq_some_iff.1 second
    have reached := Session.Reaches.run .none first
    exact ⟨_, s, p, t, r, reached, passed, next, name, reaches_followsScopes reached passed 12 next⟩
  · cases second

end Lox
