/-
A text that is rejected leaves no trace. It uses up reference ids and changes nothing else, so the
session behind it is the session before it, up to the ids that are drawn from then on
(`Fits.renumbered`). Sessions that are the same up to ids (`Session.Renumbered`) stay so from
run to run, with the same results, the same output, and tables that are equally large
(`Renumbered.run`).
-/
import Lox.Proofs.Sessions.Transcript

namespace Lox

/-! ## Tables -/

/-- The second table has what the first has, under other ids, and nothing else. -/
structure Renumbers (ids : Nat → Nat) (T T' : Distances) : Prop where
  moved : ∀ i, T'[ids i]? = T[i]?
  only : ∀ j, (∀ i, ids i ≠ j) → T'[j]? = none

namespace Renumbers

variable {ids : Nat → Nat} {T T' : Distances}

theorem mem_keys (h : Renumbers ids T T') (i : Nat) : ids i ∈ T'.keys ↔ i ∈ T.keys := by
  rw [Std.ExtTreeMap.mem_keys, Std.ExtTreeMap.mem_keys, Std.ExtTreeMap.mem_iff_isSome_getElem?,
    Std.ExtTreeMap.mem_iff_isSome_getElem?, h.moved]

/-- A key of the second table was a key of the first. -/
theorem exists_of_mem_keys (h : Renumbers ids T T') {j : Nat} (hj : j ∈ T'.keys) :
    ∃ i, ids i = j := by
  by_contra none
  have absent := h.only j fun i hi => none ⟨i, hi⟩
  rw [Std.ExtTreeMap.mem_keys, Std.ExtTreeMap.mem_iff_isSome_getElem?, absent] at hj
  cases hj

/-- Tables that are the same up to ids are equally large. -/
theorem size_eq (h : Renumbers ids T T') (injective : ids.Injective) : T.size = T'.size := by
  have keys : (T.keys.map ids).Perm T'.keys := by
    refine (List.perm_ext_iff_of_nodup (Std.ExtTreeMap.nodup_keys.map injective)
      Std.ExtTreeMap.nodup_keys).2 fun j => ?_
    rw [List.mem_map]
    constructor
    · rintro ⟨i, hi, rfl⟩
      exact (h.mem_keys i).2 hi
    · intro hj
      obtain ⟨i, rfl⟩ := h.exists_of_mem_keys hj
      exact ⟨i, (h.mem_keys i).1 hj, rfl⟩
  have lengths := keys.length_eq
  rwa [List.length_map, Std.ExtTreeMap.length_keys, Std.ExtTreeMap.length_keys] at lengths

theorem addDistances {it it' : Interpreter} {ds ds' : Distances}
    (h : Renumbers ids it.distances it'.distances) (new : Renumbers ids ds ds') :
    Renumbers ids (it.addDistances ds).distances (it'.addDistances ds').distances := by
  constructor
  · intro i
    rw [it'.distances_addDistances, it.distances_addDistances, new.moved, h.moved]
  · intro j none
    rw [it'.distances_addDistances, new.only j none, h.only j none]
    rfl

/-- What is forgotten at the end of a run is forgotten in both. -/
theorem settle {it it' : Interpreter} (h : Renumbers ids it.distances it'.distances)
    {p p' : Program} (new : Renumbers ids p.distances p'.distances)
    (declares : Stmt.anyDeclaresFunction p'.statements = Stmt.anyDeclaresFunction p.statements)
    (s s' : Session) (o o' : Eval.Outcome) :
    Renumbers ids (s.settle p o it).2.interpreter.distances
      (s'.settle p' o' it').2.interpreter.distances := by
  constructor
  · intro i
    rw [Session.distances_settle, Session.distances_settle, h.moved]
    exact if_congr (by rw [declares, new.mem_keys]) rfl rfl
  · intro j none
    rw [Session.distances_settle, h.only j none]
    split <;> rfl

end Renumbers

namespace Session

/-- What is recorded for a program is recorded for the same program with other ids. -/
theorem Checked.renumbers {ids : Nat → Nat} {s s' t t' : Session} {p p' : Program}
    (checked : Checked s p t) (checked' : Checked s' p' t') (injective : ids.Injective)
    (visits : p'.visits = p.visits.map (Visit.renamed ids)) :
    Renumbers ids p.distances p'.distances := by
  have met : p'.visits.map (·.id) = (p.visits.map (·.id)).map ids := by
    rw [visits, List.map_map, List.map_map]
    rfl
  constructor
  · intro i
    by_cases hi : i ∈ p.visits.map (·.id)
    · obtain ⟨v, hv, rfl⟩ := List.mem_map.1 hi
      have hv' : v.renamed ids ∈ p'.visits := by
        rw [visits]
        exact List.mem_map_of_mem hv
      rw [checked.get?_distances hv]
      exact checked'.get?_distances hv'
    · have hi' : ids i ∉ p'.visits.map (·.id) := by
        rwa [met, List.mem_map_of_injective injective]
      rw [checked.get?_distances_of_not_mem hi, checked'.get?_distances_of_not_mem hi']
  · intro j none
    refine checked'.get?_distances_of_not_mem fun hj => ?_
    rw [met] at hj
    obtain ⟨i, -, hi⟩ := List.mem_map.1 hj
    exact none i hi

/-! ## Sessions that are the same up to ids -/

/-- The second session is the first with other ids, and ids yet to be drawn are the same number
further on. -/
structure Renumbered (ids : Nat → Nat) (s s' : Session) : Prop where
  injective : ids.Injective
  interpreter : s.interpreter.recode (.renumbered ids) ∅ =
    s'.interpreter.recode (.renumbered id) ∅
  table : Renumbers ids s.interpreter.distances s'.interpreter.distances
  blind : ∀ n ∈ s.interpreter.natives, n.Blind
  counted : ∃ d, s'.nextId = s.nextId + d ∧ ∀ i, s.nextId ≤ i → ids i = i + d

/-- Ids below `n` as they are, and those from there on `d` greater. -/
def renumbering (n d i : Nat) : Nat := if i < n then i else i + d

theorem injective_renumbering (n d : Nat) : (renumbering n d).Injective := by
  intro i j h
  unfold renumbering at h
  split at h <;> split at h <;> omega

/-- A session that has used up ids is the same up to ids. -/
theorem Fits.renumbered {past : List Program} {s : Session} (fits : s.Fits past)
    (blind : ∀ n ∈ s.interpreter.natives, n.Blind) (d : Nat) :
    s.Renumbered (renumbering s.nextId d) { s with nextId := s.nextId + d } where
  injective := injective_renumbering s.nextId d
  interpreter := by
    obtain ⟨names, heap⟩ := fits.heap
    have code : s.interpreter.heap.recode (.renumbered (renumbering s.nextId d)) =
        s.interpreter.heap.recode (.renumbered id) := by
      refine @Heap.recode_congr (.renumbered (renumbering s.nextId d)) (.renumbered id) rfl _
        fun c hc i hi => ?_
      -- the ids in functions were drawn before
      obtain ⟨v, hv, rfl⟩ := heap.exists_visit hc hi
      exact if_pos (fits.bounded v (Program.mem_lasting.1 hv).1)
    rw [Interpreter.recode, code]
    rfl
  table := by
    constructor
    · intro i
      by_cases old : i < s.nextId
      · rw [renumbering, if_pos old]
      · rw [renumbering, if_neg old, fits.fresh i (Nat.le_of_not_lt old),
          fits.fresh (i + d) (Nat.le_trans (Nat.le_of_not_lt old) (Nat.le_add_right i d))]
    · intro j none
      refine fits.fresh j (Nat.le_of_not_lt fun old => none j (if_pos old))
  blind := blind
  counted := ⟨d, rfl, fun i hi => if_neg (Nat.not_lt.2 hi)⟩

namespace Renumbered

variable {ids : Nat → Nat} {s s' t t' : Session} {source : String} {p p' : Program}

/-- Ids that are used up in one session are used up in the other. -/
theorem count (h : s.Renumbered ids s') {n : Nat} (le : s.nextId ≤ n) {d : Nat}
    (hd : ∀ i, s.nextId ≤ i → ids i = i + d) :
    Renumbered ids { s with nextId := n } { s' with nextId := n + d } where
  injective := h.injective
  interpreter := h.interpreter
  table := h.table
  blind := h.blind
  counted := ⟨d, rfl, fun i hi => hd i (Nat.le_trans le hi)⟩

/-- A text that is accepted in one session is accepted in the other, and the evaluations of the two
programs stay the same up to ids. -/
theorem launched (h : s.Renumbered ids s') (passed : s.check source = (.ok p, t)) :
    ∃ p' t', s'.check source = (.ok p', t') ∧ t.Renumbered ids t' ∧
      Renumbers ids p.distances p'.distances ∧
      Stmt.anyDeclaresFunction p'.statements = Stmt.anyDeclaresFunction p.statements ∧
      Renumbers ids (t.launch p).it.distances (t'.launch p').it.distances ∧
      ∀ n, ((t.launch p).run n).recode (.renumbered ids) ∅ =
        ((t'.launch p').run n).recode (.renumbered id) ∅ := by
  obtain ⟨d, hs, hd⟩ := h.counted
  obtain ⟨p', passed', shifted⟩ := check_shift_ok hs passed
  obtain ⟨same, grown⟩ := eq_of_check passed
  have checked := checked_of_check passed
  have moved : ∀ v ∈ p.visits, ids v.id = v.id + d := fun v hv => hd v.id (checked.le_id hv)
  have found := checked.renumbers (checked_of_check passed') h.injective (shifted.visits moved)
  have counted : t.Renumbered ids { s' with nextId := t.nextId + d } := by
    rw [same]
    exact h.count grown hd
  have table := counted.table.addDistances found
  refine ⟨p', _, passed', counted, found, shifted.declaresFunction, table, fun n => ?_⟩
  have start : (t.launch p).recode (.renumbered ids) ∅ =
      (Session.launch { s' with nextId := t.nextId + d } p').recode (.renumbered id) ∅ := by
    have code := @Program.Shifted.recodeAll _ _ _ shifted (.renumbered ids) (.renumbered id) rfl
      (fun _ => rfl) moved
    have interpreter := counted.interpreter
    exact congrArg₂ Eval.State.mk (congrArg (Eval.Control.executeAll · .flow) code) interpreter
  exact Eval.run_recode_eq (fun _ => rfl) start counted.blind n fun m _ ref _ => table.moved ref.id

/-- Behind programs that ended the same up to ids, so are the sessions. -/
theorem settled (h : t.Renumbered ids t') {it it' : Interpreter}
    (natives : it.natives = t.interpreter.natives)
    (same : it.recode (.renumbered ids) ∅ = it'.recode (.renumbered id) ∅)
    (table : Renumbers ids it.distances it'.distances)
    (found : Renumbers ids p.distances p'.distances)
    (declares : Stmt.anyDeclaresFunction p'.statements = Stmt.anyDeclaresFunction p.statements)
    (o : Eval.Outcome) : (t.settle p o it).2.Renumbered ids (t'.settle p' o it').2 where
  injective := h.injective
  interpreter := by
    rw [recode_settle, recode_settle, same]
  table := table.settle found declares t t' o o
  blind := by
    rw [natives_settle, natives]
    exact h.blind
  counted := h.counted

/-- A run of a text shows the same in both sessions, and they are the same up to ids behind it. -/
theorem run (h : s.Renumbered ids s') (fuel : Nat) (source : String) :
    s.printed fuel source = s'.printed fuel source ∧
      Option.Rel (fun x x' => x.1 = x'.1 ∧
          x.2.interpreter.distances.size = x'.2.interpreter.distances.size ∧
          x.2.Renumbered ids x'.2)
        (s.run fuel source) (s'.run fuel source) := by
  cases hc : s.check source with
  | mk result t => cases result with
    | error errors =>
      obtain ⟨d, hs, hd⟩ := h.counted
      have hc' := check_shift_error hs hc
      obtain ⟨same, grown⟩ := eq_of_check hc
      have behind : t.Renumbered ids { s' with nextId := t.nextId + d } := by
        rw [same]
        exact h.count grown hd
      rw [printed_of_error hc, printed_of_error hc', run_of_error hc, run_of_error hc']
      exact ⟨Interpreter.sink_eq behind.interpreter,
        .some ⟨rfl, behind.table.size_eq h.injective, behind⟩⟩
    | ok p =>
      obtain ⟨p', t', hc', counted, found, declares, table, runs⟩ := h.launched hc
      rw [printed_of_ok hc, printed_of_ok hc', run_of_ok hc, run_of_ok hc']
      have same := runs fuel
      have sinks := Interpreter.sink_eq (congrArg Eval.State.it same)
      refine ⟨sinks, ?_⟩
      rw [← Eval.State.outcome?_eq same]
      cases ended : ((t.launch p).run fuel).outcome? with
      | none => exact .none
      | some o =>
        have kept := Eval.run_keeps (t.launch p) fuel
        have kept' := Eval.run_keeps (t'.launch p') fuel
        rw [← kept.distances, ← kept'.distances] at table
        have behind := counted.settled kept.natives (congrArg Eval.State.it same) table found
          declares o
        have result : (t.settle p o ((t.launch p).run fuel).it).1 =
            (t'.settle p' o ((t'.launch p').run fuel).it).1 :=
          congrArg (Except.mapError RunError.failed) (Interpreter.conclude_congr sinks o)
        exact .some ⟨result, behind.table.size_eq h.injective, behind⟩

end Renumbered

end Session

/-- A text that is rejected leaves no trace, in any session that runs have led to: nothing is printed,
and nothing in the interpreter changes; and whatever texts are run then, for however many steps each,
the results, the output and the number of distances kept are what they would be without it. -/
theorem rejected_leaves_no_trace {maxDepth : Nat} {sink : Sink} {clock : Clock}
    {past : List Program} {s t : Session} {fuel : Nat} {source : String}
    {errors : List StaticError}
    (reached : (Session.start (.start maxDepth sink clock)).Reaches past s)
    (rejected : s.run fuel source = some (.error (.rejected errors), t)) :
    (∀ steps, s.printed steps source = s.interpreter.sink) ∧ t.interpreter = s.interpreter ∧
      ∀ texts, t.shown Session.run (·.interpreter.distances.size) texts =
        s.shown Session.run (·.interpreter.distances.size) texts := by
  have fits := reached.fits (Session.fits_start maxDepth sink clock)
  rcases Session.run_cases rejected with ⟨errors, hc, -⟩ | ⟨p, u, o, -, -, settled⟩
  · obtain ⟨same, grown⟩ := Session.eq_of_check hc
    obtain ⟨d, hd⟩ := Nat.exists_eq_add_of_le grown
    have renumbered := fits.renumbered reached.blind d
    rw [← hd, ← same] at renumbered
    refine ⟨fun steps => ?_, ?_, fun texts => ?_⟩
    · rw [Session.printed_of_error hc, same]
    · rw [same]
    · exact (Session.shown_eq (fun h fuel source => h.run fuel source) renumbered texts).symm
  · -- a program that was accepted does not end so
    have failed := congrArg Prod.fst settled
    unfold Session.settle at failed
    cases hr : ((u.launch p).run fuel).it.conclude o <;> rw [hr] at failed <;> cases failed

/-- An expression that breaks off uses up the id of its first operand, behind a run that declared a
function. -/
theorem rejected_leaves_no_trace_ids :
    ∃ past s t errors, (Session.start (.start 1 .unlimited (.stopped 0))).Reaches past s ∧
      s.run 0 "print n +;" = some (.error (.rejected errors), t) ∧ s.nextId < t.nextId ∧
        t.interpreter = s.interpreter ∧
          ∀ texts, t.shown Session.run (·.interpreter.distances.size) texts =
            s.shown Session.run (·.interpreter.distances.size) texts := by
  have rejected : ((Session.start (.start 1 .unlimited (.stopped 0))).run 9
      "fun f(n) \x7b return n; \x7d").bind (fun x => (x.2.run 0 "print n +;").map fun y =>
        (y.1, decide (x.2.nextId < y.2.nextId))) =
      some (.error (.rejected [.syntactic ⟨.semicolon, ";", 1⟩ (.expected .expression)]), true) := by
    decide +kernel
  obtain ⟨⟨_, s⟩, first, found⟩ := Option.bind_eq_some_iff.1 rejected
  obtain ⟨⟨r, t⟩, second, found⟩ := Option.map_eq_some_iff.1 found
  simp only [Prod.mk.injEq, decide_eq_true_eq] at found
  obtain ⟨rfl, grown⟩ := found
  have reached := Session.Reaches.run .none first
  obtain ⟨-, kept, shown⟩ := rejected_leaves_no_trace reached second
  exact ⟨_, s, t, _, reached, second, grown, kept, shown⟩

end Lox
