/-
A program split over runs. Two texts that pass the static checks on their own pass them as one text,
with the same references (`exists_joined`). As one text they are run as one after the other, the
second only if the first comes to its end; and behind it the session is, but for lines, the one that
the two runs lead to, or one with more ids used up (`Joined.alike_settled`, `Joined.alike_failed`).
In every session that is reached by runs the two cannot be told apart (`reaches_splits`).
-/
import Lox.Proofs.Grammar.Mapped
import Lox.Proofs.Sessions.Alike
import Lox.Proofs.Token.Join

namespace Lox

/-! ## One text behind another -/

/-- The tokens further down. -/
def Recoding.below (lines : Nat) : Recoding := ⟨id, Token.below lines, fun _ => rfl, fun _ => rfl⟩

theorem map_renamed_id (vs : List Visit) : vs.map (Visit.renamed id) = vs := List.map_id vs

namespace Session

/-- The static checks of two texts, the second in the session that the first leads to, and of the
text that has both: as one text they are the programs one behind the other. -/
structure Joined (s : Session) (source source' : String) (t u : Session) (p q whole : Program) :
    Prop where
  first : s.check source = (.ok p, t)
  second : ∀ v : Session, v.nextId = t.nextId →
    v.check source' = (.ok q, ⟨v.interpreter, u.nextId⟩)
  passes : s.check (source ++ "\n" ++ source') = (.ok whole, u)
  statements : whole.statements =
    p.statements ++ Stmt.mapAll id (Token.below (lineCount source)) q.statements
  visits : whole.visits = p.visits ++ q.visits

/-- Two texts that pass the static checks on their own pass them as one. -/
theorem exists_joined {s t t' : Session} {source source' : String} {p p' : Program}
    (first : s.check source = (.ok p, t)) (second : s.check source' = (.ok p', t')) :
    ∃ u q whole, s.Joined source source' t u p q whole := by
  obtain ⟨parsed, next, clean, resolved⟩ := parsed_of_check first
  obtain ⟨parsed', -, clean', resolved'⟩ := parsed_of_check second
  obtain ⟨ts, eof, alone, he, kinds, joined, none⟩ := tokens_append_line clean clean'
  obtain ⟨us, eof', alone', he', kinds', -⟩ := tokens_append_line clean' clean'
  -- behind the first text the second is parsed to the same program, with its ids further on
  have le : s.nextId ≤ t.nextId := (checked_of_check first).ids.le
  obtain ⟨d, hd⟩ := Nat.exists_eq_add_of_le le
  have counted := Parse.program_shift s.nextId d (Item.tokens (scan source'))
  rw [parsed', ← hd] at counted
  let r : Recoding := ⟨(· + d), id, fun _ => rfl, fun _ => rfl⟩
  obtain ⟨ds, resolves⟩ := exists_distancesOf_mapAll r resolved'
  -- as one text they are parsed one behind the other
  have parses : Parse.program s.nextId (Item.tokens (scan source)) =
      ⟨.ok p.statements, t.nextId⟩ := by
    rw [← parsed, next]
  rw [alone] at parses
  rw [alone'] at counted joined
  have whole := Grammar.program_append kinds kinds' he he' (.below (lineCount source))
    (fun _ => rfl) parses counted
  have straight := (checked_of_check first).straight
  obtain ⟨ds', resolves'⟩ :=
    exists_distancesOf_append (.below (lineCount source)) straight resolved resolves
  generalize (Parse.program s.nextId (us ++ [eof'])).nextId + d = n at counted whole
  refine ⟨{ s with nextId := n }, ⟨_, ds⟩, ⟨_, ds'⟩, first, fun v hv => ?_,
    check_eq ?_ none resolves', rfl, ?_⟩
  · refine check_eq ?_ clean' resolves
    rw [hv, alone']
    exact counted
  · rw [joined]
    exact whole
  · have visits := visitsOf_append_mapAll (.below (lineCount source)) straight resolved
      (Stmt.mapAll r.ids r.token p'.statements)
    exact visits.trans (congrArg _ (map_renamed_id _))

/-! ## The two parts of a run -/

namespace Joined

variable {past : List Program} {s t u : Session} {source source' : String} {p q whole : Program}

/-- The references of the first text are some of those of the whole. -/
theorem mem_first {v : Visit} (joined : s.Joined source source' t u p q whole)
    (hv : v ∈ Program.lasting past ++ p.visits) :
    v ∈ Program.lasting past ++ whole.visits := by
  rw [joined.visits]
  exact List.mem_append.2 ((List.mem_append.1 hv).imp_right (List.mem_append_left _))

/-- So are those that the second text can come to. -/
theorem mem_second {v : Visit} (joined : s.Joined source source' t u p q whole)
    (hv : v ∈ Program.lasting (past ++ [p]) ++ q.visits) :
    v ∈ Program.lasting past ++ whole.visits := by
  rw [joined.visits]
  rcases List.mem_append.1 hv with hv | hv
  · rw [Program.mem_lasting, Program.allVisits_concat, List.mem_append] at hv
    obtain ⟨hv | hv, inside⟩ := hv
    · exact List.mem_append_left _ (Program.mem_lasting.2 ⟨hv, inside⟩)
    · exact List.mem_append_right _ (List.mem_append_left _ hv)
  · exact List.mem_append_right _ (List.mem_append_right _ hv)

/-- As a part of the whole, the first text runs as it does alone. -/
theorem first_alike (joined : s.Joined source source' t u p q whole) (fits : s.Fits past)
    (blind : ∀ n ∈ s.interpreter.natives, n.Blind) (n : Nat) :
    ((t.launch p).run n).Alike id
      (Eval.State.run n ⟨.executeAll p.statements .flow, (u.launch whole).it⟩) := by
  have checked := checked_of_check joined.first
  have checked' := checked_of_check joined.passes
  obtain ⟨names, started⟩ := fits.launched checked
  have alike : (t.launch p).Alike id
      ⟨.executeAll p.statements .flow, (u.launch whole).it⟩ := by
    rw [checked.launch_eq, checked'.launch_eq]
    exact ⟨rfl, ⟨rfl⟩⟩
  refine alike.run started ?_ (fun v hv => ?_) n
  · rw [checked.launch_eq]
    exact blind
  · rw [fits.recorded_launch checked v hv]
    exact fits.recorded_launch checked' v (joined.mem_first hv)

/-- So does the second behind it. -/
theorem second_alike (joined : s.Joined source source' t u p q whole) (fits : s.Fits past)
    (blind : ∀ n ∈ s.interpreter.natives, n.Blind) {o : Eval.Outcome} {it it' : Interpreter}
    (ended : (t.launch p).Ends o it) (same : it.Alike id it')
    (kept : (u.launch whole).it.Keeps it') (n : Nat) :
    ((launch ⟨(t.settle p o it).2.interpreter, u.nextId⟩ q).run n).Alike id
      (Eval.State.run n
        ⟨.executeAll (Stmt.mapAll id (Token.below (lineCount source)) q.statements) .flow, it'⟩) := by
  have checked := checked_of_check joined.first
  have checked' := checked_of_check (joined.second (t.settle p o it).2 rfl)
  have whole := checked_of_check joined.passes
  have behind := fits.ended checked ended
  obtain ⟨names, started⟩ := behind.launched checked'
  refine Eval.State.Alike.run ⟨?_, ?_⟩ started ?_ (fun v hv => ?_) n
  · have code := @Stmt.recodeAll_map id (Token.below (lineCount source)) (.unlined id) (.unlined id)
      (fun _ => rfl) (fun _ => rfl) q.statements
    exact congrArg (Eval.Control.executeAll · .flow) code.symm
  · rw [checked'.launch_eq]
    exact ⟨(recode_settle ..).trans same.recode⟩
  · rw [checked'.launch_eq]
    show ∀ n ∈ (t.settle p o it).2.interpreter.natives, n.Blind
    rw [checked.natives_settle ended]
    exact blind
  · rw [behind.recorded_launch checked' v hv, kept.distances]
    exact fits.recorded_launch whole v (joined.mem_second hv)

/-! ## Behind the runs -/

/-- Behind a first text that failed, the sessions are the same but for lines and for the ids that the
second text used up as a part of the whole. -/
theorem alike_failed (joined : s.Joined source source' t u p q whole) (fits : s.Fits past)
    (blind : ∀ n ∈ s.interpreter.natives, n.Blind) {o o' : Eval.Outcome} {it it' : Interpreter}
    (ended : (t.launch p).Ends o it) (ended' : (u.launch whole).Ends o' it')
    (same : it.Alike id it') : ∃ ids,
      (t.settle p o it).2.Alike ids (past ++ [p]) (past ++ [whole]) (u.settle whole o' it').2 := by
  have checked := checked_of_check joined.first
  have behind := fits.ended checked ended
  have le : t.nextId ≤ u.nextId := by
    have grown := nextId_check t source'
    rwa [joined.second t rfl] at grown
  obtain ⟨d, hd⟩ := Nat.exists_eq_add_of_le le
  -- the ids of the first text stay; those that were drawn for the second are skipped
  let ids : Nat → Nat := fun i => if i < t.nextId then i else i + d
  have older : ∀ v ∈ Program.lasting (past ++ [p]), ids v.id = v.id := fun v hv =>
    if_pos (behind.bounded v (Program.mem_lasting.1 hv).1)
  refine ⟨ids, behind, fits.ended (checked_of_check joined.passes) ended', ?_, ?_, fun v hv => ?_, d,
    hd, fun i hi => if_neg (Nat.not_lt.2 hi)⟩
  · refine (alike_settle same ..).rename fun c hc i hi => ?_
    obtain ⟨names, heap⟩ := behind.heap
    obtain ⟨v, hv, rfl⟩ := heap.exists_visit hc hi
    exact older v hv
  · rw [checked.natives_settle ended]
    exact blind
  · rw [Visit.renamed, older v hv]
    rw [Program.mem_lasting, Program.allVisits_concat, List.mem_append] at hv ⊢
    rw [joined.visits]
    exact ⟨hv.1.imp_right (List.mem_append_left _), hv.2⟩

/-- Behind the second text the sessions are the same, but for lines. -/
theorem alike_settled (joined : s.Joined source source' t u p q whole) (fits : s.Fits past)
    (blind : ∀ n ∈ s.interpreter.natives, n.Blind) {o o₁ o' : Eval.Outcome}
    {it it₁ it' : Interpreter} (ended : (t.launch p).Ends o it) {v : Session}
    (hv : v = ⟨(t.settle p o it).2.interpreter, u.nextId⟩) (ended₁ : (v.launch q).Ends o₁ it₁)
    (ended' : (u.launch whole).Ends o' it') (same : it₁.Alike id it') :
    (v.settle q o₁ it₁).2.Alike id (past ++ [p] ++ [q]) (past ++ [whole])
      (u.settle whole o' it').2 := by
  have checked := checked_of_check joined.first
  have checked₁ := checked_of_check (joined.second (t.settle p o it).2 rfl)
  have behind := fits.ended checked ended
  rw [← hv] at checked₁
  refine ⟨behind.ended checked₁ ended₁, fits.ended (checked_of_check joined.passes) ended',
    alike_settle same .., ?_, fun w hw => ?_, 0, ?_, fun _ _ => rfl⟩
  · rw [checked₁.natives_settle ended₁, checked.natives_settle ended]
    exact blind
  · rw [Program.mem_lasting] at hw ⊢
    rw [Program.allVisits_concat, Program.allVisits_concat, List.append_assoc, ← joined.visits] at hw
    rwa [Program.allVisits_concat]
  · rw [hv]
    rfl

end Joined

/-! ## Two runs and one -/

/-- A program ends normally or with an error: no `return` is outside of a function. -/
theorem Fits.normal_or_fault {past : List Program} {s t : Session} {p : Program}
    (fits : s.Fits past) (checked : Checked s p t) {o : Eval.Outcome} {it : Interpreter}
    (h : (t.launch p).Ends o it) : o = .flow .normal ∨ ∃ e, o = .fault e := by
  rcases Eval.exists_flow_or_fault rfl h with ⟨f, rfl⟩ | fault
  · cases f with
    | normal => exact .inl rfl
    | returned v =>
      obtain ⟨names, started⟩ := fits.launched checked
      obtain ⟨n, hn⟩ := h
      obtain ⟨names', -, -, control⟩ := Eval.run_fits started n
      rw [hn] at control
      -- a `return` at the top level would have to be inside of a function
      cases control
  · exact .inr fault

/-- A program that ends normally has run well, unless the sink refuses to be flushed. -/
theorem settle_normal {s : Session} {p : Program} {it : Interpreter}
    (flushes : it.sink.refusesFlush = false) : (s.settle p (.flow .normal) it).1 = .ok () := by
  simp [settle, Interpreter.conclude, Eval.Outcome.asFlow, Sink.flush, flushes, Except.mapError]

/-- Runs of two texts, the second only if the first came to its end. -/
inductive RunsBoth (s : Session) (source source' : String) : Except RunError Unit → Session → Prop
  | failed {e : RunError} {u : Session} : s.Runs source (.error e) u →
    s.RunsBoth source source' (.error e) u
  | run {t u : Session} {r : Except RunError Unit} : s.Runs source (.ok ()) t →
    t.Runs source' r u → s.RunsBoth source source' r u

/-- Running two texts as one is running them one after the other: the text with both passes the
static checks; its run ends if and only if the two runs do, with the same result but for lines; the
sessions behind cannot be told apart; and also a run that never ends prints what the two print. -/
structure Splits (s : Session) (source source' : String) : Prop where
  passes : ∃ p u, s.check (source ++ "\n" ++ source') = (.ok p, u)
  split : ∀ r u, s.Runs (source ++ "\n" ++ source') r u → ∃ r' u',
    s.RunsBoth source source' r' u' ∧
      r.mapError RunError.unlined = r'.mapError RunError.unlined ∧ u'.Interchangeable u
  joined : ∀ r' u', s.RunsBoth source source' r' u' → ∃ r u,
    s.Runs (source ++ "\n" ++ source') r u ∧
      r.mapError RunError.unlined = r'.mapError RunError.unlined ∧ u'.Interchangeable u
  prints : ∀ sink, s.Prints (source ++ "\n" ++ source') sink ↔
    s.Prints source sink ∨ ∃ t, s.Runs source (.ok ()) t ∧ t.Prints source' sink

namespace Joined

variable {past : List Program} {s t u : Session} {source source' : String} {p q whole : Program}

/-- The whole ends as its second text does behind its first, or as its first does if that fails. -/
theorem ends_whole (joined : s.Joined source source' t u p q whole) {o : Eval.Outcome}
    {it : Interpreter} : (u.launch whole).Ends o it ↔
      (∃ it₁, Eval.State.Ends ⟨.executeAll p.statements .flow, (u.launch whole).it⟩
          (.flow .normal) it₁ ∧
        Eval.State.Ends
          ⟨.executeAll (Stmt.mapAll id (Token.below (lineCount source)) q.statements) .flow, it₁⟩
          o it) ∨
      Eval.State.Ends ⟨.executeAll p.statements .flow, (u.launch whole).it⟩ o it ∧
        o ≠ .flow .normal := by
  rw [← Eval.ends_append, ← joined.statements]
  rfl

theorem prints_whole (joined : s.Joined source source' t u p q whole) {sink : Sink} :
    (u.launch whole).Prints sink ↔
      Eval.State.Prints ⟨.executeAll p.statements .flow, (u.launch whole).it⟩ sink ∨
      ∃ it₁, Eval.State.Ends ⟨.executeAll p.statements .flow, (u.launch whole).it⟩
          (.flow .normal) it₁ ∧
        Eval.State.Prints
          ⟨.executeAll (Stmt.mapAll id (Token.below (lineCount source)) q.statements) .flow, it₁⟩
          sink := by
  rw [← Eval.prints_append, ← joined.statements]
  rfl

section

variable (joined : s.Joined source source' t u p q whole) (fits : s.Fits past)
  (blind : ∀ n ∈ s.interpreter.natives, n.Blind)

include joined fits blind

/-- Where the first text fails, the whole fails in the same way. -/
theorem failed {e : RuntimeError} {it it' : Interpreter} {o' : Eval.Outcome}
    (ended : (t.launch p).Ends (.fault e) it) (ended' : (u.launch whole).Ends o' it')
    (same : it.Alike id it') (outcome : (Eval.Outcome.fault e).unlined = o'.unlined) :
    s.RunsBoth source source' (.error (.failed e)) (t.settle p (.fault e) it).2 ∧
      (u.settle whole o' it').1.mapError RunError.unlined =
        Except.mapError RunError.unlined (.error (.failed e)) ∧
      (t.settle p (.fault e) it).2.Interchangeable (u.settle whole o' it').2 := by
  obtain ⟨ids, alike⟩ := joined.alike_failed fits blind ended ended' same
  refine ⟨.failed ?_, ?_, alike.interchangeable⟩
  · exact (runs_of_ok joined.first).2 ⟨_, it, ended, rfl⟩
  · exact (result_settle same outcome t u p whole).symm

/-- Where the first text comes to its end, the whole ends as the second does behind it. -/
theorem followed (flushes : s.interpreter.sink.refusesFlush = false)
    {it it₁ it' : Interpreter} {o₁ o' : Eval.Outcome} {v : Session}
    (normal : (t.launch p).Ends (.flow .normal) it)
    (hv : v = ⟨(t.settle p (.flow .normal) it).2.interpreter, u.nextId⟩)
    (ended₁ : (v.launch q).Ends o₁ it₁) (ended' : (u.launch whole).Ends o' it')
    (same : it₁.Alike id it') (outcome : o₁.unlined = o'.unlined) :
    s.RunsBoth source source' (v.settle q o₁ it₁).1 (v.settle q o₁ it₁).2 ∧
      (u.settle whole o' it').1.mapError RunError.unlined =
        (v.settle q o₁ it₁).1.mapError RunError.unlined ∧
      (v.settle q o₁ it₁).2.Interchangeable (u.settle whole o' it').2 := by
  have alike := joined.alike_settled fits blind normal hv ended₁ ended' same
  have checked := checked_of_check joined.first
  have refuses : it.sink.refusesFlush = false := (checked.keeps normal).refusesFlush.trans flushes
  have second := joined.second (t.settle p (.flow .normal) it).2 rfl
  rw [← hv] at second
  refine ⟨.run (t := (t.settle p (.flow .normal) it).2) ?_ ?_, ?_, alike.interchangeable⟩
  · refine (runs_of_ok joined.first).2 ⟨_, it, normal, ?_⟩
    rw [← @settle_normal t p it refuses]
  · exact (runs_of_ok second).2 ⟨o₁, it₁, ended₁, rfl⟩
  · exact (result_settle same outcome v u q whole).symm

/-- If the first text runs well alone, it comes to its end as a part of the whole. -/
theorem ended_first {v : Session} (h : s.Runs source (.ok ()) v) : ∃ it it',
    (t.launch p).Ends (.flow .normal) it ∧ v = (t.settle p (.flow .normal) it).2 ∧
      it.Alike id it' ∧
        Eval.State.Ends ⟨.executeAll p.statements .flow, (u.launch whole).it⟩
          (.flow .normal) it' := by
  have checked := checked_of_check joined.first
  obtain ⟨o, it, ended, settled⟩ := (runs_of_ok joined.first).1 h
  rcases fits.normal_or_fault checked ended with rfl | ⟨e, rfl⟩
  · obtain ⟨o', it', ended', outcome, same⟩ :=
      Eval.ends_alike (joined.first_alike fits blind) ended
    obtain rfl := Eval.Outcome.unlined_eq_normal.1 outcome.symm
    exact ⟨it, it', ended, (congrArg Prod.snd settled).symm, same, ended'⟩
  · cases settled

/-- If the first text comes to its end as a part of the whole, it runs well alone. -/
theorem runs_first (flushes : s.interpreter.sink.refusesFlush = false) {it' : Interpreter}
    (h : Eval.State.Ends ⟨.executeAll p.statements .flow, (u.launch whole).it⟩
      (.flow .normal) it') : ∃ it, (t.launch p).Ends (.flow .normal) it ∧ it.Alike id it' ∧
        s.Runs source (.ok ()) (t.settle p (.flow .normal) it).2 := by
  have checked := checked_of_check joined.first
  obtain ⟨o, it, ended, outcome, same⟩ :=
    Eval.ends_alike_symm (joined.first_alike fits blind) h
  obtain rfl := Eval.Outcome.unlined_eq_normal.1 outcome
  have refuses : it.sink.refusesFlush = false := (checked.keeps ended).refusesFlush.trans flushes
  refine ⟨it, ended, same, (runs_of_ok joined.first).2 ⟨_, it, ended, ?_⟩⟩
  rw [← @settle_normal t p it refuses]

/-- What a run of the whole comes to, the two runs come to. -/
theorem split (flushes : s.interpreter.sink.refusesFlush = false) {r : Except RunError Unit}
    {w : Session} (h : s.Runs (source ++ "\n" ++ source') r w) : ∃ r' w',
      s.RunsBoth source source' r' w' ∧
        r.mapError RunError.unlined = r'.mapError RunError.unlined ∧ w'.Interchangeable w := by
  obtain ⟨o', it', ended', settled⟩ := (runs_of_ok joined.passes).1 h
  -- either the whole went on to the second text, or the first stopped it
  rcases joined.ends_whole.1 ended' with ⟨it₁', normal', rest'⟩ | ⟨failed', abrupt⟩
  · obtain ⟨it, normal, same, -⟩ := joined.runs_first fits blind flushes normal'
    have second := joined.second_alike fits blind normal same normal'.keeps
    obtain ⟨o₁, it₁, ended₁, outcome₁, same₁⟩ := Eval.ends_alike_symm second rest'
    obtain ⟨both, result, behind⟩ :=
      joined.followed fits blind flushes normal rfl ended₁ ended' same₁ outcome₁
    rw [settled] at result behind
    exact ⟨_, _, both, result, behind⟩
  · obtain ⟨o, it, ended, outcome, same⟩ :=
      Eval.ends_alike_symm (joined.first_alike fits blind) failed'
    rcases fits.normal_or_fault (checked_of_check joined.first) ended with rfl | ⟨e, rfl⟩
    · exact absurd (Eval.Outcome.unlined_eq_normal.1 outcome.symm) abrupt
    · obtain ⟨both, result, behind⟩ := joined.failed fits blind ended ended' same outcome
      rw [settled] at result behind
      exact ⟨_, _, both, result, behind⟩

/-- What the two runs come to, a run of the whole comes to. -/
theorem join (flushes : s.interpreter.sink.refusesFlush = false) {r' : Except RunError Unit}
    {w' : Session} (h : s.RunsBoth source source' r' w') : ∃ r w,
      s.Runs (source ++ "\n" ++ source') r w ∧
        r.mapError RunError.unlined = r'.mapError RunError.unlined ∧ w'.Interchangeable w := by
  cases h with
  | failed h =>
    have checked := checked_of_check joined.first
    obtain ⟨o, it, ended, settled⟩ := (runs_of_ok joined.first).1 h
    rcases fits.normal_or_fault checked ended with rfl | ⟨e, rfl⟩
    · have refuses := (checked.keeps ended).refusesFlush.trans flushes
      rw [Prod.ext_iff, settle_normal refuses] at settled
      cases settled.1
    · cases settled
      obtain ⟨o', it', failed', outcome, same⟩ :=
        Eval.ends_alike (joined.first_alike fits blind) ended
      have abrupt : o' ≠ .flow .normal := by
        rintro rfl
        cases outcome
      have ended' := joined.ends_whole.2 (.inr ⟨failed', abrupt⟩)
      obtain ⟨-, result, behind⟩ := joined.failed fits blind ended ended' same outcome
      exact ⟨_, _, (runs_of_ok joined.passes).2 ⟨o', it', ended', rfl⟩, result, behind⟩
  | run h h' =>
    obtain ⟨it, it', normal, rfl, same, normal'⟩ := joined.ended_first fits blind h
    have passed := joined.second (t.settle p (.flow .normal) it).2 rfl
    obtain ⟨o₁, it₁, ended₁, settled₁⟩ := (runs_of_ok passed).1 h'
    have second := joined.second_alike fits blind normal same normal'.keeps
    obtain ⟨o'', it'', rest', outcome₁, same₁⟩ := Eval.ends_alike second ended₁
    have ended' := joined.ends_whole.2 (.inl ⟨it', normal', rest'⟩)
    obtain ⟨-, result, behind⟩ :=
      joined.followed fits blind flushes normal rfl ended₁ ended' same₁ outcome₁
    rw [settled₁] at result behind
    exact ⟨_, _, (runs_of_ok joined.passes).2 ⟨o'', it'', ended', rfl⟩, result, behind⟩

/-- On its way the whole prints what the first text prints and, if that comes to its end, what the
second prints behind it. -/
theorem prints (flushes : s.interpreter.sink.refusesFlush = false) {sink : Sink} :
    s.Prints (source ++ "\n" ++ source') sink ↔
      s.Prints source sink ∨ ∃ v, s.Runs source (.ok ()) v ∧ v.Prints source' sink := by
  -- the first part prints the same as a part and alone, so the second parts are compared
  rw [prints_of_ok joined.passes, prints_of_ok joined.first, joined.prints_whole,
    Eval.prints_alike (joined.first_alike fits blind)]
  refine or_congr_right ⟨?_, ?_⟩
  · rintro ⟨it', normal', printed⟩
    obtain ⟨it, normal, same, well⟩ := joined.runs_first fits blind flushes normal'
    have second := joined.second_alike fits blind normal same normal'.keeps
    have passed := joined.second (t.settle p (.flow .normal) it).2 rfl
    exact ⟨_, well, (prints_of_ok passed).2 ((Eval.prints_alike second).2 printed)⟩
  · rintro ⟨v, well, printed⟩
    obtain ⟨it, it', normal, rfl, same, normal'⟩ := joined.ended_first fits blind well
    have passed := joined.second (t.settle p (.flow .normal) it).2 rfl
    have second := joined.second_alike fits blind normal same normal'.keeps
    exact ⟨it', normal', (Eval.prints_alike second).1 ((prints_of_ok passed).1 printed)⟩

theorem splits (flushes : s.interpreter.sink.refusesFlush = false) : s.Splits source source' where
  passes := ⟨whole, u, joined.passes⟩
  split := fun _ _ h => joined.split fits blind flushes h
  joined := fun _ _ h => joined.join fits blind flushes h
  prints := fun _ => joined.prints fits blind flushes

end

end Joined

/-- No run adds a native. -/
theorem Reaches.natives {s t : Session} {past : List Program} (h : s.Reaches past t) :
    t.interpreter.natives = s.interpreter.natives := by
  induction h with
  | none => rfl
  | @run past t u fuel source r h hr ih =>
    rw [← ih]
    rcases run_cases hr with ⟨errors, rejected, -⟩ | ⟨p, v, o, passed, ended, settled⟩
    · exact congrArg Interpreter.natives (interpreter_of_check rejected)
    · have natives := (checked_of_check passed).natives_settle ⟨fuel, by rw [← ended]⟩
      rwa [settled] at natives

end Session

/-- Splitting a program over runs does not change it: in every session that is reached by runs, two
texts that pass the static checks on their own can be run as one or one after the other. A text that
starts with an `else`, and so might go on with the text in front of it, does not pass on its own. -/
theorem reaches_splits {maxDepth : Nat} {sink : Sink} {clock : Clock} {past : List Program}
    {s t t' : Session} (reached : (Session.start (.start maxDepth sink clock)).Reaches past s)
    (flushes : s.interpreter.sink.refusesFlush = false) {source source' : String} {p p' : Program}
    (first : s.check source = (.ok p, t)) (second : s.check source' = (.ok p', t')) :
    s.Splits source source' := by
  have start := Session.fits_start maxDepth sink clock
  have blind : ∀ n ∈ s.interpreter.natives, n.Blind := by
    rw [reached.natives]
    intro n hn
    obtain rfl := Array.mem_singleton.1 hn
    exact blind_clock
  obtain ⟨u, q, whole, joined⟩ := Session.exists_joined first second
  exact joined.splits (reached.fits start) blind flushes

/-- A counter and its use, behind a run that declared what it counts with. -/
theorem reaches_splits_counter :
    ∃ past s p t p' t', (Session.start (.start 1 .unlimited (.stopped 0))).Reaches past s ∧
      s.interpreter.sink.refusesFlush = false ∧
        s.check "fun f() \x7b n = n + 1; return n; \x7d" = (.ok p, t) ∧
          s.check "f(); print f();" = (.ok p', t') ∧
            s.Splits "fun f() \x7b n = n + 1; return n; \x7d" "f(); print f();" := by
  have passes : ((Session.start (.start 1 .unlimited (.stopped 0))).run 9 "var n = 0;").map
      (fun x => (x.2.interpreter.sink.refusesFlush,
        (x.2.check "fun f() \x7b n = n + 1; return n; \x7d").1.isOk,
        (x.2.check "f(); print f();").1.isOk)) = some (false, true, true) := by
    decide +kernel
  obtain ⟨⟨_, s⟩, first, found⟩ := Option.map_eq_some_iff.1 passes
  simp only [Prod.mk.injEq] at found
  obtain ⟨flushes, passed, passed'⟩ := found
  have reached := Session.Reaches.run .none first
  cases hc : s.check "fun f() \x7b n = n + 1; return n; \x7d" with
  | mk result t => cases hc' : s.check "f(); print f();" with
    | mk result' t' =>
      rw [hc] at passed
      rw [hc'] at passed'
      cases result with
      | error errors => cases passed
      | ok p => cases result' with
        | error errors => cases passed'
        | ok p' =>
          exact ⟨_, s, p, t, p', t', reached, flushes, hc, hc',
            reaches_splits reached flushes hc hc'⟩

end Lox
