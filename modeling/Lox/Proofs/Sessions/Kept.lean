/-
The distances that a session keeps. Behind a run it drops those of a program without a function
declaration. Nobody can tell: a session that drops nothing runs all texts in the same way
(`Undropped.run`), because what is dropped belongs to references that no code is left to evaluate. And
no more than that is kept: the table is the disjoint union of the tables of the programs that declare
functions (`Reaches.tabled`).
-/
import Lox.Proofs.Sessions.Transcript

namespace Lox

open Scoping

/-! ## Function declarations -/

/-- A function is declared somewhere in the statement. Methods are no declarations of functions. -/
inductive Stmt.HasFunction : Stmt → Prop
  | function (decl : Function) : HasFunction (.function decl)
  | block {body : List Stmt} {s : Stmt} : s ∈ body → s.HasFunction → HasFunction (.block body)
  | thenBranch {condition : Expr} {thenBranch : Stmt} {elseBranch : Option Stmt} :
    thenBranch.HasFunction → HasFunction (.if condition thenBranch elseBranch)
  | elseBranch {condition : Expr} {thenBranch elseBranch : Stmt} :
    elseBranch.HasFunction → HasFunction (.if condition thenBranch (some elseBranch))
  | whileBody {condition : Expr} {body : Stmt} :
    body.HasFunction → HasFunction (.while condition body)

mutual

theorem Stmt.declaresFunction_iff : ∀ s : Stmt, s.declaresFunction = true ↔ s.HasFunction
  | .function decl => ⟨fun _ => .function decl, fun _ => rfl⟩
  | .block body => by
    rw [declaresFunction, anyDeclaresFunction_iff body]
    constructor
    · rintro ⟨s, hs, h⟩
      exact .block hs h
    · rintro ⟨⟩
      exact ⟨_, ‹_›, ‹_›⟩
  | .if condition thenBranch none => by
    rw [declaresFunction, declaresFunction_iff thenBranch]
    constructor
    · exact .thenBranch
    · rintro ⟨⟩
      assumption
  | .if condition thenBranch (some elseBranch) => by
    rw [declaresFunction, Bool.or_eq_true, declaresFunction_iff thenBranch,
      declaresFunction_iff elseBranch]
    constructor
    · rintro (h | h)
      · exact .thenBranch h
      · exact .elseBranch h
    · rintro ⟨⟩
      · exact .inl ‹_›
      · exact .inr ‹_›
  | .while condition body => by
    rw [declaresFunction, declaresFunction_iff body]
    constructor
    · exact .whileBody
    · rintro ⟨⟩
      assumption
  | .class _ _ | .var _ _ | .expression _ | .print _ | .return _ _ => ⟨nofun, nofun⟩

theorem Stmt.anyDeclaresFunction_iff : ∀ ss : List Stmt,
    Stmt.anyDeclaresFunction ss = true ↔ ∃ s ∈ ss, s.HasFunction
  | [] => ⟨nofun, nofun⟩
  | s :: ss => by
    rw [anyDeclaresFunction, Bool.or_eq_true, declaresFunction_iff s, anyDeclaresFunction_iff ss]
    exact (List.exists_mem_cons_iff ..).symm

end

/-- The program declares a function somewhere. -/
def Program.HasFunction (p : Program) : Prop := ∃ s ∈ p.statements, s.HasFunction

namespace Session

/-! ## Without dropping -/

/-- Runs a text, if it ends in `fuel` steps, and drops no distances. -/
def runUndropped (s : Session) (fuel : Nat) (source : String) :
    Option (Except RunError Unit × Session) :=
  match s.check source with
  | (.error errors, s) => some (.error (.rejected errors), s)
  | (.ok p, s) =>
    let e := (s.launch p).run fuel
    e.outcome?.map fun o =>
      ((e.it.conclude o).mapError RunError.failed, { s with interpreter := e.it })

/-- The second session is the first with distances that the first has dropped. -/
structure Undropped (past : List Program) (s s' : Session) : Prop where
  fits : s.Fits past
  fits' : s'.Fits past
  interpreter : s.interpreter.recode (.renumbered id) ∅ = s'.interpreter.recode (.renumbered id) ∅
  blind : ∀ n ∈ s.interpreter.natives, n.Blind
  nextId : s'.nextId = s.nextId

theorem check_congr {s s' : Session} (same : s'.nextId = s.nextId) (source : String) :
    s'.check source = ((s.check source).1, { s' with nextId := (s.check source).2.nextId }) := by
  simp only [check, same]

theorem runUndropped_of_error {s t : Session} {source : String} {errors : List StaticError}
    (h : s.check source = (.error errors, t)) (fuel : Nat) :
    s.runUndropped fuel source = some (.error (.rejected errors), t) := by
  simp only [runUndropped, h]

theorem runUndropped_of_ok {s t : Session} {source : String} {p : Program}
    (h : s.check source = (.ok p, t)) (fuel : Nat) : s.runUndropped fuel source =
      ((t.launch p).run fuel).outcome?.map fun o =>
        ((((t.launch p).run fuel).it.conclude o).mapError RunError.failed,
          { t with interpreter := ((t.launch p).run fuel).it }) := by
  simp only [runUndropped, h]

/-- A session with another table fits, if the table has what is needed and nothing of what is to
come. -/
theorem Fits.retable {past : List Program} {s : Session} (fits : s.Fits past) {T : Distances}
    (recorded : ∀ v ∈ Program.lasting past, T[v.id]? = distance? v.site.scopes v.name)
    (fresh : ∀ id, s.nextId ≤ id → T[id]? = none) :
    Fits past { s with interpreter := { s.interpreter with distances := T } } :=
  { fits with recorded, fresh }

/-- A session that drops nothing fits behind a run as one that does. -/
theorem Fits.undropped {past : List Program} {s t : Session} {p : Program} (fits : s.Fits past)
    (checked : Checked s p t) {n : Nat} {o : Eval.Outcome}
    (ended : ((t.launch p).run n).control = .ended o) :
    Fits (past ++ [p]) { t with interpreter := ((t.launch p).run n).it } := by
  have kept := (Eval.run_keeps (t.launch p) n).distances
  have behind := (fits.settled checked ended).retable (T := (t.launch p).it.distances)
    (fun v hv => ?_) (fits.fresh_launch checked)
  · rw [interpreter_settle, ← kept] at behind
    exact behind
  · refine fits.recorded_launch checked v ?_
    rw [Program.mem_lasting, Program.allVisits_concat, List.mem_append] at hv
    obtain ⟨hv, inside⟩ := hv
    exact List.mem_append.2 (hv.imp_left fun older => Program.mem_lasting.2 ⟨older, inside⟩)

namespace Undropped

variable {past : List Program} {s s' t t' : Session} {source : String} {p : Program}

/-- Ids that are used up in one session are used up in the other. -/
theorem count (h : s.Undropped past s') {n : Nat} (le : s.nextId ≤ n) :
    Undropped past { s with nextId := n } { s' with nextId := n } where
  fits := h.fits.reject rfl le
  fits' := h.fits'.reject rfl (by rwa [h.nextId])
  interpreter := h.interpreter
  blind := h.blind
  nextId := rfl

/-- Evaluations of a program look up what both tables have. -/
theorem launched (h : s.Undropped past s') (checked : Checked s p t) (checked' : Checked s' p t')
    (n : Nat) : ((t.launch p).run n).recode (.renumbered id) ∅ =
      ((t'.launch p).run n).recode (.renumbered id) ∅ := by
  obtain ⟨names, started⟩ := h.fits.launched checked
  have start : (t.launch p).recode (.renumbered id) ∅ = (t'.launch p).recode (.renumbered id) ∅ := by
    rw [checked.launch_eq, checked'.launch_eq]
    exact congrArg (Eval.State.mk _) h.interpreter
  have blind : ∀ n ∈ (t.launch p).it.natives, n.Blind := by
    rw [checked.launch_eq]
    exact h.blind
  refine Eval.run_recode_eq (fun _ => rfl) start blind n fun m _ ref next => ?_
  obtain ⟨names', -, running⟩ := Eval.run_fits started m
  obtain ⟨π, -, logged⟩ := running.exists_visit next
  exact (h.fits'.recorded_launch checked' _ logged).trans
    (h.fits.recorded_launch checked _ logged).symm

/-- Behind a program that has ended one session drops its distances, or not, and the other keeps
them. -/
theorem settled (h : s.Undropped past s') (checked : Checked s p t) (checked' : Checked s' p t')
    (next : t'.nextId = t.nextId) {n : Nat} {o : Eval.Outcome}
    (ended : ((t.launch p).run n).control = .ended o)
    (ended' : ((t'.launch p).run n).control = .ended o) :
    Undropped (past ++ [p]) (t.settle p o ((t.launch p).run n).it).2
      { t' with interpreter := ((t'.launch p).run n).it } where
  fits := h.fits.settled checked ended
  fits' := h.fits'.undropped checked' ended'
  interpreter := by
    rw [recode_settle]
    exact congrArg Eval.State.it (h.launched checked checked' n)
  blind := by
    rw [natives_settle, (Eval.run_keeps (t.launch p) n).natives, checked.launch_eq]
    exact h.blind
  nextId := next

/-- A run of a text shows the same in both sessions, and behind it the second is again the first
with distances that the first has dropped. -/
theorem run (h : s.Undropped past s') (fuel : Nat) (source : String) :
    s.printed fuel source = s'.printed fuel source ∧
      Option.Rel (fun x x' => x.1 = x'.1 ∧ ∃ past, x.2.Undropped past x'.2)
        (s.run fuel source) (s'.runUndropped fuel source) := by
  have checks := check_congr h.nextId source
  cases hc : s.check source with
  | mk result t =>
    rw [hc] at checks
    cases result with
    | error errors =>
      obtain ⟨same, grown⟩ := eq_of_check hc
      have behind := h.count grown
      rw [← same] at behind
      rw [printed_of_error hc, printed_of_error checks, run_of_error hc,
        runUndropped_of_error checks]
      exact ⟨Interpreter.sink_eq behind.interpreter, .some ⟨rfl, past, behind⟩⟩
    | ok p =>
      have checked := checked_of_check hc
      have checked' := checked_of_check checks
      have same := h.launched checked checked' fuel
      have outcomes := Eval.State.outcome?_eq same
      have sinks := Interpreter.sink_eq (congrArg Eval.State.it same)
      rw [printed_of_ok hc, printed_of_ok checks, run_of_ok hc, runUndropped_of_ok checks]
      refine ⟨sinks, ?_⟩
      rw [← outcomes]
      cases ended : ((t.launch p).run fuel).outcome? with
      | none => exact .none
      | some o =>
        rw [ended] at outcomes
        have behind := h.settled checked checked' rfl (Eval.control_of_outcome? ended)
          (Eval.control_of_outcome? outcomes.symm)
        have result := congrArg (Except.mapError RunError.failed)
          (Interpreter.conclude_congr sinks o)
        exact .some ⟨result, _, behind⟩

end Undropped

theorem undropped_start (maxDepth : Nat) (sink : Sink) (clock : Clock) :
    Undropped [] (start (.start maxDepth sink clock)) (start (.start maxDepth sink clock)) where
  fits := fits_start maxDepth sink clock
  fits' := fits_start maxDepth sink clock
  interpreter := rfl
  blind := Reaches.none.blind
  nextId := rfl

/-! ## What is kept -/

/-- The table of the session is the disjoint union of the tables of those programs that declare
functions, each as the walk through the program has found it. -/
structure Tabled (past : List Program) (s : Session) : Prop where
  resolved : ∀ p ∈ past, distancesOf p.statements = .ok p.distances
  disjoint : past.Pairwise fun p q => ∀ id ∈ p.distances, id ∉ q.distances
  table : ∀ id d : Nat, s.interpreter.distances[id]? = some d ↔
    ∃ p ∈ past, p.HasFunction ∧ p.distances[id]? = some d

/-- The ids in the table of a program were drawn for it. -/
theorem Checked.drawn {s t : Session} {p : Program} (checked : Checked s p t) {id : Nat}
    (h : id ∈ p.distances) : s.nextId ≤ id ∧ id < t.nextId :=
  checked.ids.bounds id (checked.mem_of_mem_keys (Std.ExtTreeMap.mem_keys.2 h))

/-- Behind a run the table has, besides what it had, what was found for the program if it declares a
function. -/
theorem Fits.table_settled {past : List Program} {s t : Session} {p : Program}
    (fits : s.Fits past) (checked : Checked s p t) (o : Eval.Outcome) (n : Nat) (id d : Nat) :
    (t.settle p o ((t.launch p).run n).it).2.interpreter.distances[id]? = some d ↔
      s.interpreter.distances[id]? = some d ∨ p.HasFunction ∧ p.distances[id]? = some d := by
  have declares : p.HasFunction ↔ Stmt.anyDeclaresFunction p.statements = true :=
    (Stmt.anyDeclaresFunction_iff p.statements).symm
  rw [distances_settle, (Eval.run_keeps (t.launch p) n).distances, checked.launch_eq,
    Interpreter.distances_addDistances, declares]
  cases found : p.distances[id]? with
  | some e =>
    -- an id of the program was in no table before
    have key : id ∈ p.distances := by
      rw [Std.ExtTreeMap.mem_iff_isSome_getElem?, found]
      rfl
    rw [fits.fresh id (checked.drawn key).1]
    cases Stmt.anyDeclaresFunction p.statements <;> simp [key]
  | none =>
    have absent : id ∉ p.distances.keys := by
      rw [Std.ExtTreeMap.mem_keys, Std.ExtTreeMap.mem_iff_isSome_getElem?, found]
      nofun
    simp [absent]

theorem tabled_start (maxDepth : Nat) (sink : Sink) (clock : Clock) :
    Tabled [] (start (.start maxDepth sink clock)) where
  resolved := by simp
  disjoint := .nil
  table := fun id d => by simp [start, Interpreter.start]

/-- A run adds the program of its text, if it is accepted. -/
theorem Tabled.run {past : List Program} {s u : Session} (tabled : s.Tabled past)
    (fits : s.Fits past) (drawn : ∀ p ∈ past, ∀ id ∈ p.distances, id < s.nextId) {fuel : Nat}
    {source : String} {r : Except RunError Unit} (h : s.run fuel source = some (r, u)) :
    u.Tabled (past ++ s.accepted source) ∧
      ∀ p ∈ past ++ s.accepted source, ∀ id ∈ p.distances, id < u.nextId := by
  rcases run_cases h with ⟨errors, rejected, -⟩ | ⟨p, t, o, passed, ended, settled⟩
  · rw [accepted, rejected, List.append_nil]
    obtain ⟨same, grown⟩ := eq_of_check rejected
    rw [same]
    exact ⟨⟨tabled.resolved, tabled.disjoint, tabled.table⟩,
      fun p hp id hid => Nat.lt_of_lt_of_le (drawn p hp id hid) grown⟩
  · have checked := checked_of_check passed
    obtain ⟨-, -, -, resolved⟩ := parsed_of_check passed
    have next : u.nextId = t.nextId := (congrArg (·.2.nextId) settled).symm
    rw [accepted, passed]
    refine ⟨⟨?_, ?_, fun id d => ?_⟩, ?_⟩
    · rw [List.forall_mem_append]
      exact ⟨tabled.resolved, by simpa using resolved⟩
    · refine List.pairwise_append.2 ⟨tabled.disjoint, List.pairwise_singleton .., ?_⟩
      intro q hq p' hp' id hid hid'
      obtain rfl := List.mem_singleton.1 hp'
      -- ids are drawn upwards
      exact Nat.not_lt.2 (checked.drawn hid').1 (drawn q hq id hid)
    · have table := fits.table_settled checked o fuel id d
      rw [settled, tabled.table] at table
      simpa [or_and_right, exists_or] using table
    · rw [List.forall_mem_append, next]
      refine ⟨fun q hq id hid => Nat.lt_of_lt_of_le (drawn q hq id hid) checked.ids.le, ?_⟩
      intro p' hp' id hid
      obtain rfl := List.mem_singleton.1 hp'
      exact (checked.drawn hid).2

theorem Reaches.tabled {maxDepth : Nat} {sink : Sink} {clock : Clock} {past : List Program}
    {s : Session} (reached : (start (.start maxDepth sink clock)).Reaches past s) :
    s.Tabled past ∧ ∀ p ∈ past, ∀ id ∈ p.distances, id < s.nextId := by
  induction reached with
  | none => exact ⟨tabled_start maxDepth sink clock, by simp⟩
  | run before h ih => exact ih.1.run (before.fits (fits_start maxDepth sink clock)) ih.2 h

end Session

/-- Dropping distances is not seen, and nothing is kept that could be dropped. A session that drops
nothing prints the same for all texts and comes to the same results; and behind all runs, however they
ended, the table is the disjoint union of the tables of those programs that declare a function. -/
theorem dropping_is_unobservable (maxDepth : Nat) (sink : Sink) (clock : Clock) :
    let start := Session.start (.start maxDepth sink clock)
    (∀ texts, start.shown Session.runUndropped (fun _ => ()) texts =
      start.shown Session.run (fun _ => ()) texts) ∧
    ∀ past s, start.Reaches past s → s.Tabled past := by
  intro start
  refine ⟨fun texts => ?_, fun past s reached => reached.tabled.1⟩
  refine (Session.shown_eq (R := fun s s' => ∃ past, s.Undropped past s') ?_
    ⟨[], Session.undropped_start maxDepth sink clock⟩ texts).symm
  rintro s s' ⟨past, h⟩ fuel source
  obtain ⟨printed, ended⟩ := h.run fuel source
  refine ⟨printed, ?_⟩
  generalize s.run fuel source = x at *
  generalize s'.runUndropped fuel source = x' at *
  cases ended with
  | none => exact .none
  | some same => exact .some ⟨same.1, rfl, same.2⟩

/-- Of a function and a block, each with a reference to a local, one distance is kept. -/
theorem dropping_is_unobservable_block :
    let start := Session.start (.start 1 .unlimited (.stopped 0))
    let function := "fun f(n) \x7b return n; \x7d"
    let block := "\x7b var a = 1; print a; \x7d"
    start.shown Session.runUndropped (fun _ => ()) [(9, function), (30, block)] =
      start.shown Session.run (fun _ => ()) [(9, function), (30, block)] ∧
    ∃ past s, start.Reaches past s ∧ past.map (·.distances.size) = [1, 1] ∧ s.Tabled past ∧
      s.interpreter.distances.size = 1 := by
  intro start function block
  obtain ⟨shown, tabled⟩ := dropping_is_unobservable 1 .unlimited (.stopped 0)
  refine ⟨shown _, ?_⟩
  have sizes : ((start.run 9 function).bind fun x => (x.2.run 30 block).map fun y =>
      (([] ++ start.accepted function ++ x.2.accepted block).map
        (fun p : Program => p.distances.size), y.2.interpreter.distances.size)) = some ([1, 1], 1) := by
    decide +kernel
  obtain ⟨⟨_, s⟩, first, found⟩ := Option.bind_eq_some_iff.1 sizes
  obtain ⟨⟨_, t⟩, second, found⟩ := Option.map_eq_some_iff.1 found
  obtain ⟨found, kept⟩ := Prod.mk.inj found
  have reached := (Session.Reaches.run .none first).run second
  exact ⟨_, t, reached, found, tabled _ t reached, kept⟩

end Lox
