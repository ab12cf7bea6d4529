/-
Texts that come to the same. The static checks and the evaluation know a reference by its id, but they
do not look at ids, nor at lines. So two texts that are parsed to the same tree but for both cannot be
told apart by running them (`Fits.equates`).
-/
import Lox.Proofs.Sessions.Alike

namespace Lox

/-! ## Verdicts -/

/-- What static checks say, but for lines: that they have nothing to say, or their errors. -/
def StaticError.verdict {α : Type} (result : Except (List StaticError) α) :
    Except (List StaticError) Unit :=
  (result.map fun _ => ()).mapError (List.map StaticError.unlined)

/-- The walk says the same of a program with other ids and lines. -/
theorem verdict_distancesOf_mapAll (r : Recoding) (program : List Stmt) :
    StaticError.verdict (distancesOf (Stmt.mapAll r.ids r.token program)) =
      StaticError.verdict (distancesOf program) := by
  cases h : distancesOf program with
  | error errors =>
    obtain ⟨errors', h', same⟩ := error_distancesOf_mapAll r r.unseen_unlined h
    rw [h']
    exact congrArg Except.error same
  | ok ds =>
    obtain ⟨ds', h'⟩ := exists_distancesOf_mapAll r h
    rw [h']
    rfl

section

variable {ids : Nat → Nat} {ss ss' : List Stmt}
  (same : Stmt.mapAll ids Token.unlined ss = Stmt.mapAll id Token.unlined ss')

include same

theorem verdict_distancesOf_of_same :
    StaticError.verdict (distancesOf ss) = StaticError.verdict (distancesOf ss') := by
  have one := verdict_distancesOf_mapAll (.unlined ids) ss
  have other := verdict_distancesOf_mapAll (.unlined id) ss'
  exact one.symm.trans ((congrArg (StaticError.verdict ∘ distancesOf) same).trans other)

/-- Programs that are the same but for ids and lines are run alike. -/
theorem Program.alike_of_same (ds ds' : Distances) : Program.Alike ids ⟨ss, ds⟩ ⟨ss', ds'⟩ where
  statements := by
    have one := @Stmt.recodeAll_map ids Token.unlined (.unlined ids) (.unlined id) (fun _ => rfl)
      (fun _ => rfl) ss
    have other := @Stmt.recodeAll_map id Token.unlined (.unlined id) (.unlined id) (fun _ => rfl)
      (fun _ => rfl) ss'
    exact one.symm.trans ((congrArg _ same).trans other)
  visits := by
    have one := visitsOf_mapAll (.unlined ids) ss
    have other := visitsOf_mapAll (.unlined id) ss'
    refine Eq.trans ?_ ((other.symm.trans (congrArg visitsOf same.symm)).trans one)
    exact (List.map_id _).symm

end

namespace Session

/-- What the static checks say of a text in a session, but for lines. -/
def verdict (s : Session) (source : String) : Except (List StaticError) Unit :=
  StaticError.verdict (s.check source).1

/-- Two texts come to the same in a session: the static checks say the same of them; the run of one
ends if that of the other does, with the same result but for lines, and the sessions behind the two
cannot be told apart; and on the way they print the same, also if they never end. -/
structure Equates (s : Session) (source source' : String) : Prop where
  verdict : s.verdict source = s.verdict source'
  runs : ∀ r u, s.Runs source r u → ∃ r' u', s.Runs source' r' u' ∧
    r.mapError RunError.unlined = r'.mapError RunError.unlined ∧ u.Interchangeable u'
  runs_symm : ∀ r' u', s.Runs source' r' u' → ∃ r u, s.Runs source r u ∧
    r.mapError RunError.unlined = r'.mapError RunError.unlined ∧ u.Interchangeable u'
  prints : ∀ sink, s.Prints source sink ↔ s.Prints source' sink

/-! ## Runs -/

variable {s t : Session} {past : List Program} {source source' : String}

/-- After parsing, the walk decides. -/
theorem check_of_parsed {ss : List Stmt} {m : Nat} (lexical : Item.errors (scan source) = [])
    (parsed : Parse.program s.nextId (Item.tokens (scan source)) = ⟨.ok ss, m⟩) :
    s.check source = ((distancesOf ss).map fun ds => ⟨ss, ds⟩, { s with nextId := m }) := by
  simp only [check, parsed, lexical]

namespace Fits

variable (fits : s.Fits past) (blind : ∀ n ∈ s.interpreter.natives, n.Blind)

include fits

/-- The ids that the session has in its code are used up. -/
theorem alike_of_older {ids : Nat → Nat} (older : ∀ i < s.nextId, ids i = i) {it : Interpreter}
    (same : s.interpreter.Alike id it) : s.interpreter.Alike ids it :=
  same.rename fun c hc i hi => by
    obtain ⟨names, heap⟩ := fits.heap
    obtain ⟨v, hv, rfl⟩ := heap.exists_visit hc hi
    exact older v.id (fits.bounded v (Program.mem_lasting.1 hv).1)

theorem renamed_lasting {ids : Nat → Nat} (older : ∀ i < s.nextId, ids i = i) {v : Visit}
    (hv : v ∈ Program.lasting past) : v.renamed ids = v := by
  rw [Visit.renamed, older v.id (fits.bounded v (Program.mem_lasting.1 hv).1)]

include blind

/-- With ids that are yet to be drawn exchanged a session is still the same. -/
theorem matches_self {ids : Nat → Nat} (older : ∀ i < s.nextId, ids i = i) :
    s.Matches ids past past s where
  fits := fits
  fits' := fits
  interpreter := fits.alike_of_older older ⟨rfl⟩
  blind := blind
  lasting := fun v hv => by rwa [fits.renamed_lasting older hv]

theorem interchangeable_self : s.Interchangeable s := by
  have same : s.Matches id past past s := fits.matches_self blind fun _ _ => rfl
  obtain ⟨fits, fits', interpreter, blind, lasting⟩ := same
  exact Alike.interchangeable ⟨fits, fits', interpreter, blind, lasting, 0, rfl, fun _ _ => rfl⟩

/-- Texts that are rejected for the same errors, with as many ids used up. -/
theorem equates_rejected {errors errors' : List StaticError}
    (check : s.check source = (.error errors, t)) (check' : s.check source' = (.error errors', t))
    (same : errors.map StaticError.unlined = errors'.map StaticError.unlined) :
    s.Equates source source' := by
  obtain ⟨kept, le⟩ := eq_of_check check
  have behind : t.Interchangeable t := by
    have same : t.interpreter = s.interpreter := by rw [kept]
    refine (fits.reject same le).interchangeable_self ?_
    rwa [same]
  refine ⟨?_, fun r u run => ?_, fun r' u' run => ?_, fun sink => ?_⟩
  · rw [verdict, verdict, check, check']
    exact congrArg Except.error same
  · obtain ⟨rfl, rfl⟩ := (runs_of_error check).1 run
    exact ⟨_, u, (runs_of_error check').2 ⟨rfl, rfl⟩, congrArg (Except.error ∘ RunError.rejected) same,
      behind⟩
  · obtain ⟨rfl, rfl⟩ := (runs_of_error check').1 run
    exact ⟨_, u', (runs_of_error check).2 ⟨rfl, rfl⟩, congrArg (Except.error ∘ RunError.rejected) same,
      behind⟩
  · simp [Prints, check, check']

/-- Texts that are accepted as the same program but for ids and lines, with as many ids used up. -/
theorem equates_accepted {ids : Nat → Nat} {p p' : Program}
    (check : s.check source = (.ok p, t)) (check' : s.check source' = (.ok p', t))
    (same : p.Alike ids p') (older : ∀ i < s.nextId, ids i = i)
    (newer : ∀ i, t.nextId ≤ i → ids i = i) : s.Equates source source' := by
  have matched := fits.matches_self blind older
  have counted : ∃ d, t.nextId = t.nextId + d ∧ ∀ i, t.nextId ≤ i → ids i = i + d :=
    ⟨0, rfl, newer⟩
  refine ⟨?_, fun r u run => ?_, fun r' u' run => ?_, fun sink => ?_⟩
  · rw [verdict, verdict, check, check']
    rfl
  · obtain ⟨r', u', run', result, _, _, alike⟩ := matched.runs check check' same counted run
    exact ⟨r', u', run', result, alike.interchangeable⟩
  · obtain ⟨r, u, run', result, _, _, alike⟩ := matched.runs_symm check check' same counted run
    exact ⟨r, u, run', result, alike.interchangeable⟩
  · exact matched.prints check check' same

/-- Texts that are parsed to the same tree but for ids and lines, with as many ids used up. -/
theorem equates {ids : Nat → Nat} {ss ss' : List Stmt} {m : Nat}
    (lexical : Item.errors (scan source) = []) (lexical' : Item.errors (scan source') = [])
    (parsed : Parse.program s.nextId (Item.tokens (scan source)) = ⟨.ok ss, m⟩)
    (parsed' : Parse.program s.nextId (Item.tokens (scan source')) = ⟨.ok ss', m⟩)
    (same : Stmt.mapAll ids Token.unlined ss = Stmt.mapAll id Token.unlined ss')
    (older : ∀ i < s.nextId, ids i = i) (newer : ∀ i, m ≤ i → ids i = i) :
    s.Equates source source' := by
  have check := check_of_parsed lexical parsed
  have check' := check_of_parsed lexical' parsed'
  have verdicts := verdict_distancesOf_of_same same
  -- the walk rejects both programs or none
  cases h : distancesOf ss with
  | error errors => cases h' : distancesOf ss' with
    | error errors' =>
      rw [h] at check verdicts
      rw [h'] at check' verdicts
      exact fits.equates_rejected blind check check' (Except.error.inj verdicts)
    | ok ds' =>
      rw [h, h'] at verdicts
      cases verdicts
  | ok ds => cases h' : distancesOf ss' with
    | error errors' =>
      rw [h, h'] at verdicts
      cases verdicts
    | ok ds' =>
      rw [h] at check
      rw [h'] at check'
      exact fits.equates_accepted blind check check' (Program.alike_of_same same ds ds') older newer

end Fits

end Session

end Lox
