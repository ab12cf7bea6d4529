/-
Sessions that cannot be told apart. Two sessions are alike if the one is the other with other ids in
its code and with its tokens on other lines (`Session.Alike`); what their tables have of references
that no code is left to evaluate plays no part. Alike sessions run a text to the same result and are
alike behind it (`Alike.runs`), and so are they for all texts to come (`Alike.interchangeable`).
-/
import Lox.Proofs.Eval.Recode
import Lox.Proofs.Eval.Sequence
import Lox.Proofs.Sessions.Shift

namespace Lox

/-! ## Without lines -/

namespace RuntimeError

/-- The error without its line. -/
def unlined (e : RuntimeError) : RuntimeError := e.recode (.unlined id)

theorem recode_unlined (ids : Nat → Nat) (e : RuntimeError) :
    e.recode (.unlined ids) = e.unlined := by
  cases e <;> rfl

end RuntimeError

namespace Eval.Outcome

/-- The outcome without the line of its error. -/
def unlined (o : Outcome) : Outcome := o.recode (.unlined id)

theorem recode_unlined (ids : Nat → Nat) (o : Outcome) : o.recode (.unlined ids) = o.unlined := by
  cases o with
  | fault e => exact congrArg Outcome.fault (e.recode_unlined ids)
  | _ => rfl

theorem unlined_eq_normal {o : Outcome} :
    o.unlined = (Outcome.flow .normal).unlined ↔ o = .flow .normal := by
  constructor
  · intro h
    cases o <;> cases h
    rfl
  · rintro rfl
    rfl

end Eval.Outcome

/-- The error without its lines. -/
def RunError.unlined : RunError → RunError
  | rejected errors => rejected (errors.map StaticError.unlined)
  | failed e => failed e.unlined

/-! ## Evaluations -/

/-- The interpreters are in the same state, but for their tables, for the ids in the functions on
the heap, and for lines. -/
structure Interpreter.Alike (ids : Nat → Nat) (it it' : Interpreter) : Prop where
  recode : it.recode (.unlined ids) ∅ = it'.recode (.unlined id) ∅

namespace Interpreter.Alike

variable {ids : Nat → Nat} {it it' : Interpreter}

/-- The tables play no part. -/
theorem iff_recode (T : Distances) :
    it.Alike ids it' ↔ it.recode (.unlined ids) T = it'.recode (.unlined id) T := by
  constructor
  · exact fun h => congrArg (fun it => { it with distances := T }) h.recode
  · exact fun h => ⟨congrArg (fun it => { it with distances := ∅ }) h⟩

theorem sink (h : it.Alike ids it') : it.sink = it'.sink := by
  have same := congrArg Interpreter.sink h.recode
  exact same

theorem globals (h : it.Alike ids it') : it.globals = it'.globals := by
  have same := congrArg Interpreter.globals h.recode
  exact same

theorem heap (h : it.Alike ids it') :
    it.heap.recode (.unlined ids) = it'.heap.recode (.unlined id) := congrArg Interpreter.heap h.recode

/-- What a program ends with is the same for both. -/
theorem conclude (h : it.Alike ids it') {o o' : Eval.Outcome} (ho : o.unlined = o'.unlined) :
    (it.conclude o).mapError RuntimeError.unlined =
      (it'.conclude o').mapError RuntimeError.unlined := by
  cases o <;> cases o' <;> simp_all [Eval.Outcome.unlined, Interpreter.conclude,
    Eval.Outcome.asFlow, Except.mapError, h.sink, RuntimeError.unlined]

/-- Only the ids in functions matter. -/
theorem rename (h : it.Alike ids it') {ids' : Nat → Nat}
    (agree : ∀ c ∈ it.heap.functions, ∀ i ∈ Stmt.idsAll c.decl.body, ids' i = ids i) :
    it.Alike ids' it' := by
  have heap : it.heap.recode (.unlined ids') = it.heap.recode (.unlined ids) :=
    @Heap.recode_congr (.unlined ids') (.unlined ids) rfl it.heap agree
  constructor
  rw [← h.recode, Interpreter.recode, heap, Interpreter.recode]

end Interpreter.Alike

/-- The ids in functions are those of references that the walk met. -/
theorem Heap.Fits.exists_visit {log : List Visit} {names : List (List String)}
    {globals : FrameRef} {h : Heap} (fits : h.Fits log names globals) {c : Closure}
    (hc : c ∈ h.functions) {i : Nat} (hi : i ∈ Stmt.idsAll c.decl.body) : ∃ v ∈ log, v.id = i := by
  obtain ⟨π, -, -, placed⟩ := fits.placed c hc
  let inner := π.function (c.decl.params.map (·.lexeme)) c.decl.body
  rw [← Stmt.ids_visitsAll inner.declared inner.inFunction inner.walk] at hi
  obtain ⟨v, hv, rfl⟩ := List.mem_map.1 hi
  exact ⟨v, placed v hv, rfl⟩

namespace Eval

/-- The evaluations are at the same place in the same state, but for what sets interpreters
apart. -/
structure State.Alike (ids : Nat → Nat) (e e' : State) : Prop where
  control : e.control.recode (.unlined ids) = e'.control.recode (.unlined id)
  it : e.it.Alike ids e'.it

namespace State.Alike

variable {ids : Nat → Nat} {e e' : State}

theorem iff_recode (T : Distances) :
    e.Alike ids e' ↔ e.recode (.unlined ids) T = e'.recode (.unlined id) T := by
  constructor
  · rintro ⟨control, it⟩
    rw [State.recode, State.recode, control, (Interpreter.Alike.iff_recode T).1 it]
  · exact fun h => ⟨congrArg State.control h,
      (Interpreter.Alike.iff_recode T).2 (congrArg State.it h)⟩

/-- Evaluations stay alike, step by step, if the tables say the same of all references that the first
can come to. -/
theorem run (alike : e.Alike ids e') {log : List Visit} {names : List (List String)}
    (fits : e.Fits log names) (blind : ∀ n ∈ e.it.natives, n.Blind)
    (known : ∀ v ∈ log, e'.it.distances[ids v.id]? = e.it.distances[v.id]?) (n : Nat) :
    (e.run n).Alike ids (e'.run n) := by
  rw [iff_recode ∅] at alike ⊢
  refine run_recode_eq (fun _ => rfl) alike blind n fun m _ ref next => ?_
  obtain ⟨names', -, running⟩ := run_fits fits m
  obtain ⟨π, -, logged⟩ := running.exists_visit next
  exact known _ logged

end State.Alike

theorem exists_ended {ids ids' : Nat → Nat} {o : Outcome} {c' : Control}
    (h : Control.recode (.unlined ids) (.ended o) = c'.recode (.unlined ids')) :
    ∃ o', c' = .ended o' ∧ o.unlined = o'.unlined := by
  cases c' <;> simp only [Control.recode, Control.ended.injEq, reduceCtorEq] at h
  rename_i o'
  rw [Outcome.recode_unlined, Outcome.recode_unlined] at h
  exact ⟨o', rfl, h⟩

section

variable {ids : Nat → Nat} {e e' : State}

/-- Evaluations that stay alike end alike. -/
theorem ends_alike (alike : ∀ n, (e.run n).Alike ids (e'.run n)) {o : Outcome} {it : Interpreter}
    (h : e.Ends o it) : ∃ o' it', e'.Ends o' it' ∧ o.unlined = o'.unlined ∧ it.Alike ids it' := by
  obtain ⟨n, hn⟩ := h
  have same := alike n
  rw [hn] at same
  obtain ⟨o', ended, outcome⟩ := exists_ended same.control
  exact ⟨o', (e'.run n).it, ⟨n, by rw [← ended]⟩, outcome, same.it⟩

theorem ends_alike_symm (alike : ∀ n, (e.run n).Alike ids (e'.run n)) {o' : Outcome}
    {it' : Interpreter} (h : e'.Ends o' it') :
    ∃ o it, e.Ends o it ∧ o.unlined = o'.unlined ∧ it.Alike ids it' := by
  obtain ⟨n, hn⟩ := h
  have same := alike n
  rw [hn] at same
  obtain ⟨o, ended, outcome⟩ := exists_ended same.control.symm
  exact ⟨o, (e.run n).it, ⟨n, by rw [← ended]⟩, outcome.symm, same.it⟩

theorem prints_alike (alike : ∀ n, (e.run n).Alike ids (e'.run n)) {sink : Sink} :
    e.Prints sink ↔ e'.Prints sink :=
  exists_congr fun n => by rw [(alike n).it.sink]

end

end Eval

/-! ## Programs -/

/-- The second program is the first with other ids, but for lines. -/
structure Program.Alike (ids : Nat → Nat) (p p' : Program) : Prop where
  statements : Stmt.recodeAll (.unlined ids) p.statements =
    Stmt.recodeAll (.unlined id) p'.statements
  visits : p'.visits = p.visits.map (Visit.renamed ids)

namespace Session

/-! ## Sessions -/

/-- The second session is the first with other ids in its code, but for lines, and it has met all
references that functions of the first may come to. Nothing is said of ids yet to be drawn. -/
structure Matches (ids : Nat → Nat) (past past' : List Program) (s s' : Session) : Prop where
  fits : s.Fits past
  fits' : s'.Fits past'
  interpreter : s.interpreter.Alike ids s'.interpreter
  blind : ∀ n ∈ s.interpreter.natives, n.Blind
  lasting : ∀ v ∈ Program.lasting past, v.renamed ids ∈ Program.lasting past'

/-- The second session is the first with other ids, but for lines: its interpreter is alike, it has
met all references that functions of the first may come to, and ids yet to be drawn are the same
number further on. -/
structure Alike (ids : Nat → Nat) (past past' : List Program) (s s' : Session) : Prop where
  fits : s.Fits past
  fits' : s'.Fits past'
  interpreter : s.interpreter.Alike ids s'.interpreter
  blind : ∀ n ∈ s.interpreter.natives, n.Blind
  lasting : ∀ v ∈ Program.lasting past, v.renamed ids ∈ Program.lasting past'
  counted : ∃ d, s'.nextId = s.nextId + d ∧ ∀ i, s.nextId ≤ i → ids i = i + d

namespace Alike

variable {ids : Nat → Nat} {past past' : List Program} {s s' t t' : Session} {source : String}
  {p p' : Program}

theorem toMatches (alike : s.Alike ids past past' s') : s.Matches ids past past' s' :=
  ⟨alike.fits, alike.fits', alike.interpreter, alike.blind, alike.lasting⟩

/-- Ids that are used up in one session are used up in the other. -/
theorem count (alike : s.Alike ids past past' s') {n : Nat} (le : s.nextId ≤ n) {d : Nat}
    (hd : ∀ i, s.nextId ≤ i → ids i = i + d) (hs : s'.nextId = s.nextId + d) :
    Alike ids past past' { s with nextId := n } { s' with nextId := n + d } where
  fits := alike.fits.reject rfl le
  fits' := alike.fits'.reject rfl (by rw [hs]; exact Nat.add_le_add_right le d)
  interpreter := alike.interpreter
  blind := alike.blind
  lasting := alike.lasting
  counted := ⟨d, rfl, fun i hi => hd i (Nat.le_trans le hi)⟩

/-- A text that one session rejects is rejected by the other. -/
theorem rejected (alike : s.Alike ids past past' s') {errors : List StaticError}
    (h : s.check source = (.error errors, t)) : ∃ errors' t',
      s'.check source = (.error errors', t') ∧
        errors.map StaticError.unlined = errors'.map StaticError.unlined ∧
          t.Alike ids past past' t' := by
  obtain ⟨d, hs, hd⟩ := alike.counted
  obtain ⟨same, grown⟩ := eq_of_check h
  rw [same]
  exact ⟨errors, _, check_shift_error hs h, rfl, alike.count grown hd hs⟩

/-- A text that one session accepts is accepted by the other, as the same program with other ids. -/
theorem passed (alike : s.Alike ids past past' s') (h : s.check source = (.ok p, t)) :
    ∃ p' t', s'.check source = (.ok p', t') ∧ p.Alike ids p' ∧
      ∃ d, t'.nextId = t.nextId + d ∧ ∀ i, t.nextId ≤ i → ids i = i + d := by
  obtain ⟨d, hs, hd⟩ := alike.counted
  have checked := checked_of_check h
  obtain ⟨p', passed, shifted⟩ := check_shift_ok hs h
  have moved : ∀ v ∈ p.visits, ids v.id = v.id + d := fun v hv => hd v.id (checked.le_id hv)
  refine ⟨p', _, passed, ⟨shifted.recodeAll rfl (fun _ => rfl) moved, shifted.visits moved⟩, d, rfl,
    fun i hi => hd i (Nat.le_trans checked.ids.le hi)⟩

end Alike

theorem recode_settle (s : Session) (p : Program) (o : Eval.Outcome) (it : Interpreter)
    (r : Recoding) (T : Distances) :
    (s.settle p o it).2.interpreter.recode r T = it.recode r T := by
  rw [interpreter_settle]
  rfl

theorem alike_settle {ids : Nat → Nat} {it it' : Interpreter} (alike : it.Alike ids it')
    {o o' : Eval.Outcome} (s s' : Session) (p p' : Program) :
    (s.settle p o it).2.interpreter.Alike ids (s'.settle p' o' it').2.interpreter := by
  constructor
  rw [recode_settle, recode_settle, alike.recode]

theorem result_settle {ids : Nat → Nat} {it it' : Interpreter} (alike : it.Alike ids it')
    {o o' : Eval.Outcome} (same : o.unlined = o'.unlined) (s s' : Session) (p p' : Program) :
    (s.settle p o it).1.mapError RunError.unlined =
      (s'.settle p' o' it').1.mapError RunError.unlined := by
  have concluded := alike.conclude same
  unfold settle
  generalize it.conclude o = r at *
  generalize it'.conclude o' = r' at *
  cases r <;> cases r' <;> simp_all [Except.mapError, RunError.unlined]

/-! ## Runs -/

/-- A run of the text ends, with a result, and leads to a session. -/
def Runs (s : Session) (source : String) (r : Except RunError Unit) (u : Session) : Prop :=
  ∃ fuel, s.run fuel source = some (r, u)

/-- At some moment of a run of the text, which need not end, the sink is this one. -/
def Prints (s : Session) (source : String) (sink : Sink) : Prop :=
  ∃ p t, s.check source = (.ok p, t) ∧ (t.launch p).Prints sink

section

variable {s t u : Session} {source : String} {r : Except RunError Unit}

theorem runs_of_error {errors : List StaticError} (h : s.check source = (.error errors, t)) :
    s.Runs source r u ↔ r = .error (.rejected errors) ∧ u = t := by
  simp only [Runs, run, h]
  constructor
  · rintro ⟨_, hr⟩
    cases hr
    exact ⟨rfl, rfl⟩
  · rintro ⟨rfl, rfl⟩
    exact ⟨0, rfl⟩

theorem runs_of_ok {p : Program} (h : s.check source = (.ok p, t)) :
    s.Runs source r u ↔ ∃ o it, (t.launch p).Ends o it ∧ t.settle p o it = (r, u) := by
  constructor
  · rintro ⟨fuel, hr⟩
    rcases run_cases hr with ⟨errors, hc, -⟩ | ⟨p', t', o, hc, ended, settled⟩
    · rw [h] at hc
      cases hc
    · rw [h] at hc
      cases hc
      exact ⟨o, _, ⟨fuel, by rw [← ended]⟩, settled⟩
  · rintro ⟨o, it, ⟨n, hn⟩, settled⟩
    refine ⟨n, ?_⟩
    simp only [run, h, hn, Eval.State.outcome?, Option.map_some, settled]

theorem prints_of_ok {p : Program} (h : s.check source = (.ok p, t)) {sink : Sink} :
    s.Prints source sink ↔ (t.launch p).Prints sink := by
  constructor
  · rintro ⟨p', t', hc, printed⟩
    rw [h] at hc
    cases hc
    exact printed
  · exact fun printed => ⟨p, t, h, printed⟩

end

section

variable {s t : Session} {p : Program} {o : Eval.Outcome} {it : Interpreter}

theorem Fits.ended {past : List Program} (fits : s.Fits past) (checked : Checked s p t)
    (h : (t.launch p).Ends o it) : (t.settle p o it).2.Fits (past ++ [p]) := by
  obtain ⟨n, hn⟩ := h
  have ended : ((t.launch p).run n).control = .ended o := by rw [hn]
  have behind := fits.settled checked ended
  rwa [hn] at behind

theorem Checked.keeps (checked : Checked s p t) (h : (t.launch p).Ends o it) :
    (s.interpreter.addDistances p.distances).Keeps it := by
  have kept := h.keeps
  rwa [checked.launch_eq] at kept

theorem Checked.natives_settle (checked : Checked s p t) (h : (t.launch p).Ends o it) :
    (t.settle p o it).2.interpreter.natives = s.interpreter.natives :=
  (Session.natives_settle t p o it).trans (checked.keeps h).natives

end

namespace Matches

variable {ids : Nat → Nat} {past past' : List Program} {s s' t t' : Session}
  {source source' : String} {p p' : Program}

/-- Evaluations of the two programs stay alike. -/
theorem launched (alike : s.Matches ids past past' s') (h : s.check source = (.ok p, t))
    (h' : s'.check source' = (.ok p', t')) (same : p.Alike ids p') (n : Nat) :
    ((t.launch p).run n).Alike ids ((t'.launch p').run n) := by
  have checked := checked_of_check h
  have checked' := checked_of_check h'
  obtain ⟨names, started⟩ := alike.fits.launched checked
  refine Eval.State.Alike.run ⟨?_, ?_⟩ started ?_ (fun v hv => ?_) n
  · exact congrArg (Eval.Control.executeAll · .flow) same.statements
  · rw [checked.launch_eq, checked'.launch_eq]
    exact ⟨alike.interpreter.recode⟩
  · rw [checked.launch_eq]
    exact alike.blind
  · -- both tables have what the walks found out, and the walks were at the same places
    rw [alike.fits.recorded_launch checked v hv]
    refine alike.fits'.recorded_launch checked' (v.renamed ids) ?_
    rw [same.visits]
    exact List.mem_append.2 ((List.mem_append.1 hv).imp (alike.lasting v) List.mem_map_of_mem)

/-- Behind programs that were alike and ended alike the sessions are alike. -/
theorem settled (alike : s.Matches ids past past' s') (h : s.check source = (.ok p, t))
    (h' : s'.check source' = (.ok p', t')) (same : p.Alike ids p')
    (counted : ∃ d, t'.nextId = t.nextId + d ∧ ∀ i, t.nextId ≤ i → ids i = i + d)
    {o o' : Eval.Outcome} {it it' : Interpreter} (ended : (t.launch p).Ends o it)
    (ended' : (t'.launch p').Ends o' it') (alike' : it.Alike ids it') :
    (t.settle p o it).2.Alike ids (past ++ [p]) (past' ++ [p']) (t'.settle p' o' it').2 where
  fits := alike.fits.ended (checked_of_check h) ended
  fits' := alike.fits'.ended (checked_of_check h') ended'
  interpreter := alike_settle alike' ..
  blind := by
    rw [(checked_of_check h).natives_settle ended]
    exact alike.blind
  lasting := fun v hv => by
    rw [Program.mem_lasting, Program.allVisits_concat, List.mem_append] at hv ⊢
    refine ⟨hv.1.imp (fun older => ?_) fun newer => ?_, hv.2⟩
    · exact (Program.mem_lasting.1 (alike.lasting v (Program.mem_lasting.2 ⟨older, hv.2⟩))).1
    · rw [same.visits]
      exact List.mem_map_of_mem newer
  counted := counted

section

variable (alike : s.Matches ids past past' s') (h : s.check source = (.ok p, t))
  (h' : s'.check source' = (.ok p', t')) (same : p.Alike ids p')

include alike h h' same

/-- On its way the second program prints what the first does. -/
theorem prints {sink : Sink} : s.Prints source sink ↔ s'.Prints source' sink := by
  rw [prints_of_ok h, prints_of_ok h']
  exact Eval.prints_alike (alike.launched h h' same)

variable (counted : ∃ d, t'.nextId = t.nextId + d ∧ ∀ i, t.nextId ≤ i → ids i = i + d)

include counted

/-- The second program comes to the result of the first, and behind them the sessions are alike. -/
theorem runs {r : Except RunError Unit} {u : Session} (run : s.Runs source r u) :
    ∃ r' u', s'.Runs source' r' u' ∧
      r.mapError RunError.unlined = r'.mapError RunError.unlined ∧
        ∃ past past', u.Alike ids past past' u' := by
  obtain ⟨o, it, ended, settled⟩ := (runs_of_ok h).1 run
  obtain ⟨o', it', ended', outcome, alike'⟩ := Eval.ends_alike (alike.launched h h' same) ended
  have results := result_settle alike' outcome t t' p p'
  have behind := alike.settled h h' same counted ended ended' alike'
  rw [settled] at results behind
  exact ⟨_, _, (runs_of_ok h').2 ⟨o', it', ended', rfl⟩, results, _, _, behind⟩

theorem runs_symm {r' : Except RunError Unit} {u' : Session} (run : s'.Runs source' r' u') :
    ∃ r u, s.Runs source r u ∧
      r.mapError RunError.unlined = r'.mapError RunError.unlined ∧
        ∃ past past', u.Alike ids past past' u' := by
  obtain ⟨o', it', ended', settled⟩ := (runs_of_ok h').1 run
  obtain ⟨o, it, ended, outcome, alike'⟩ :=
    Eval.ends_alike_symm (alike.launched h h' same) ended'
  have results := result_settle alike' outcome t t' p p'
  have behind := alike.settled h h' same counted ended ended' alike'
  rw [settled] at results behind
  exact ⟨_, _, (runs_of_ok h).2 ⟨o, it, ended, rfl⟩, results, _, _, behind⟩

end

end Matches

namespace Alike

variable {ids : Nat → Nat} {past past' : List Program} {s s' : Session} {source : String}

/-- A run of a text keeps sessions alike, and has the same result in both. -/
theorem runs (alike : s.Alike ids past past' s') {r : Except RunError Unit} {u : Session}
    (h : s.Runs source r u) : ∃ r' u', s'.Runs source r' u' ∧
      r.mapError RunError.unlined = r'.mapError RunError.unlined ∧
        ∃ past past', u.Alike ids past past' u' := by
  cases hc : s.check source with
  | mk result t => cases result with
    | error errors =>
      obtain ⟨rfl, rfl⟩ := (runs_of_error hc).1 h
      obtain ⟨errors', t', hc', same, behind⟩ := alike.rejected hc
      refine ⟨_, t', (runs_of_error hc').2 ⟨rfl, rfl⟩, ?_, past, past', behind⟩
      simp [Except.mapError, RunError.unlined, same]
    | ok p =>
      obtain ⟨p', t', hc', same, counted⟩ := alike.passed hc
      exact alike.toMatches.runs hc hc' same counted h

theorem runs_symm (alike : s.Alike ids past past' s') {r' : Except RunError Unit} {u' : Session}
    (h : s'.Runs source r' u') : ∃ r u, s.Runs source r u ∧
      r.mapError RunError.unlined = r'.mapError RunError.unlined ∧
        ∃ past past', u.Alike ids past past' u' := by
  cases hc : s.check source with
  | mk result t => cases result with
    | error errors =>
      obtain ⟨errors', t', hc', same, behind⟩ := alike.rejected hc
      obtain ⟨rfl, rfl⟩ := (runs_of_error hc').1 h
      refine ⟨_, t, (runs_of_error hc).2 ⟨rfl, rfl⟩, ?_, past, past', behind⟩
      simp [Except.mapError, RunError.unlined, same]
    | ok p =>
      obtain ⟨p', t', hc', same, counted⟩ := alike.passed hc
      exact alike.toMatches.runs_symm hc hc' same counted h

/-- A run of a text prints the same in both sessions, also if it never ends. -/
theorem prints (alike : s.Alike ids past past' s') {sink : Sink} :
    s.Prints source sink ↔ s'.Prints source sink := by
  cases hc : s.check source with
  | mk result t => cases result with
    | error errors =>
      obtain ⟨errors', t', hc', -, -⟩ := alike.rejected hc
      simp [Prints, hc, hc']
    | ok p =>
      obtain ⟨p', t', hc', same, -⟩ := alike.passed hc
      exact alike.toMatches.prints hc hc' same

end Alike

/-! ## Texts to come -/

/-- Runs of texts, one after another, that all end, with the result of each. -/
inductive RunsAll : Session → List String → List (Except RunError Unit) → Session → Prop
  | none (s : Session) : s.RunsAll [] [] s
  | run {s t u : Session} {source : String} {sources : List String} {r : Except RunError Unit}
      {rs : List (Except RunError Unit)} : s.Runs source r t → t.RunsAll sources rs u →
      s.RunsAll (source :: sources) (r :: rs) u

/-- Whatever texts are run in the first session, the second comes to the same results, but for
lines, and has printed the same behind them; and a text that is run then prints the same on the way,
also if its run never ends. -/
def Imitated (s s' : Session) : Prop :=
  ∀ sources rs u, s.RunsAll sources rs u → ∃ rs' u', s'.RunsAll sources rs' u' ∧
    rs.map (Except.mapError RunError.unlined) = rs'.map (Except.mapError RunError.unlined) ∧
      u.interpreter.sink = u'.interpreter.sink ∧
        ∀ source sink, u.Prints source sink → u'.Prints source sink

/-- The sessions cannot be told apart: they have printed the same, their top levels bind the same
names to the same values, with the same objects behind them but for ids and lines in the code of
functions, and no texts to come will tell them apart. -/
structure Interchangeable (s s' : Session) : Prop where
  sink : s.interpreter.sink = s'.interpreter.sink
  globals : ∀ name, s.interpreter.heap.get? s.interpreter.globals name =
    s'.interpreter.heap.get? s'.interpreter.globals name
  heap : s.interpreter.heap.recode (.unlined fun _ => 0) =
    s'.interpreter.heap.recode (.unlined fun _ => 0)
  imitated : s.Imitated s'
  imitates : s'.Imitated s

namespace Alike

variable {ids : Nat → Nat} {past past' : List Program} {s s' : Session}

theorem runsAll (alike : s.Alike ids past past' s') : s.Imitated s' := by
  intro sources rs u h
  -- what the sessions are alike by changes from run to run
  induction h generalizing s' past past' with
  | none s =>
    exact ⟨[], s', .none s', rfl, alike.interpreter.sink, fun _ _ => alike.prints.1⟩
  | run first others ih =>
    obtain ⟨r', t', first', same, _, _, behind⟩ := alike.runs first
    obtain ⟨rs', u', others', sames, printed⟩ := ih behind
    exact ⟨_, u', .run first' others', by rw [List.map_cons, same, sames, List.map_cons], printed⟩

theorem runsAll_symm (alike : s.Alike ids past past' s') : s'.Imitated s := by
  intro sources rs u h
  induction h generalizing s past past' with
  | none s' =>
    exact ⟨[], s, .none s, rfl, alike.interpreter.sink.symm, fun _ _ => alike.prints.2⟩
  | run first others ih =>
    obtain ⟨r', t', first', same, _, _, behind⟩ := alike.runs_symm first
    obtain ⟨rs', u', others', sames, printed⟩ := ih behind
    refine ⟨_, u', .run first' others', ?_, printed⟩
    rw [List.map_cons, ← same, sames, List.map_cons]

/-- Sessions that are alike cannot be told apart. -/
theorem interchangeable (alike : s.Alike ids past past' s') : s.Interchangeable s' where
  sink := alike.interpreter.sink
  globals := by
    intro name
    rw [← Heap.get?_recode (.unlined ids), alike.interpreter.heap, alike.interpreter.globals]
    rfl
  heap := by
    have erased := congrArg (Heap.recode (.unlined fun _ => 0)) alike.interpreter.heap
    -- with all ids equal it does not matter what they were
    have twice : ∀ (ids : Nat → Nat) (h : Heap),
        (h.recode (.unlined ids)).recode (.unlined fun _ => 0) = h.recode (.unlined fun _ => 0) :=
      fun ids h => Heap.recode_recode (fun _ => rfl) (fun _ => rfl) h
    rwa [twice, twice] at erased
  imitated := alike.runsAll
  imitates := alike.runsAll_symm

end Alike

end Session

end Lox
