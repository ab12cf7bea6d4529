/-
Where an assignment misses. The frame that the table means for an assignment is that of a scope which
has declared the name, and it binds the name if the name is ready there. A declared name is not
ready in one place only, its own initializer: there the static walk rejects reads, but not
assignments, and the frame does not bind the name yet.

So an assignment with an entry in the table fails just if it stands in the initializer of its own
variable (`assigned_missing_iff`).
-/
import Lox.Proofs.Lockstep.Session
import Lox.Proofs.Scoping.Walk

namespace Lox

open Scoping

/-! ## Places of assignments -/

/-- The reference with the id stands in the initializer of its own variable. -/
def Program.InOwnInitializer (ps : List Program) (id : Nat) : Prop :=
  ∃ p ∈ ps, ∃ before r behind, Stmt.outlineAll p.statements = before ++ .reference r :: behind ∧
    r.id = id ∧ OwnInitializer before r.name.lexeme

namespace Program

variable {ps : List Program} {v : Visit}

/-- A reference stands in its own initializer if the walk meets it while its name is not ready. -/
theorem inOwnInitializer_iff (unique : ((allVisits ps).map (·.id)).Nodup) (hv : v ∈ allVisits ps) :
    InOwnInitializer ps v.id ↔ unready v.site.scopes v.name = true := by
  constructor
  · rintro ⟨p, hp, before, r, behind, hs, id, own⟩
    obtain ⟨u, hu, uid, uname, -, uscopes⟩ := exists_visit_of_mark hs
    have hu : u ∈ allVisits ps := List.mem_flatMap.2 ⟨p, hp, hu⟩
    -- ids are not shared, so the marked reference is the one that was met
    obtain rfl : u = v := List.inj_on_of_nodup_map unique hu hv (uid.trans id)
    rw [uscopes, uname]
    exact (unready_along hs _).2 own
  · intro hu
    obtain ⟨p, hp, hv⟩ := List.mem_flatMap.1 hv
    obtain ⟨before, r, behind, hs, id, name, -, scopes⟩ := exists_mark hv
    rw [← scopes, ← name] at hu
    exact ⟨p, hp, before, r, behind, hs, id, (unready_along hs _).1 hu⟩

theorem settled_tail (hv : v ∈ allVisits ps) : AllSettled v.site.scopes.tail := by
  obtain ⟨p, -, hv⟩ := List.mem_flatMap.1 hv
  obtain ⟨before, r, behind, hs, -, -, -, scopes⟩ := exists_mark hv
  rw [← scopes]
  exact settled_tail_along hs

end Program

/-! ## What the frame of an assignment binds -/

section

variable {names : List (List String)} {globals : FrameRef} {h : Heap} {f : FrameRef} {π : Site}
  {name : String} {d : Nat}

/-- The frame of a declared name binds it if it is ready. -/
theorem Site.Matches.bound_iff (m : π.Matches names globals h f) (settled : AllSettled π.scopes.tail)
    (hd : distance? π.scopes name = some d) :
    (∃ g, h.ancestor? f d = some g ∧ (h.get? g name).isSome) ↔ unready π.scopes name = false := by
  constructor
  · rintro ⟨g, hg, bound⟩
    obtain ⟨scopes, declared, b⟩ := π
    cases scopes with
    | nil => rfl
    | cons S outer =>
      -- a name that is not ready would be in the innermost scope, and so in the frame itself
      refine eq_false_of_ne_true fun hu => ?_
      have declared : S.get? name = some false := by simpa [unready] using hu
      have here : d = 0 := by
        rw [distance?, List.findIdx?_cons, Bindings.binds, declared] at hd
        exact (Option.some.inj hd).symm
      subst here
      cases hg
      have ready := m.ready S outer rfl name bound
      rw [declared] at ready
      cases ready
  · intro hu
    -- as if it were read
    obtain ⟨S, hS, ready⟩ := ready_of_allowed (v := ⟨0, name, true, π⟩) (fun _ => hu) settled rfl d hd
    have same : π.declared.length = π.scopes.length := Lox.Agrees.length_eq m.agrees
    have hk := (List.getElem?_eq_some_iff.1 hS).1
    have hD := List.getElem?_eq_getElem (same ▸ hk : d < π.declared.length)
    obtain ⟨g, -, hg, -, -, bound⟩ := Lox.Agrees.exists_ancestor m.agrees hS hD
    exact ⟨g, hg, bound name ready⟩

end

namespace Eval

variable {it : Interpreter} {id : Nat} {name : Token} {d : Nat}

/-- An assignment with an entry in the table fails if the frame does not bind the name. -/
theorem writeVariable_missing_iff (entry : it.distances[id]? = some d) (v : Value)
    (k : Cont .value) :
    (writeVariable it id name v k).control = .raise (.failure name .undefinedVariable) k ↔
      ¬∃ f, it.heap.ancestor? it.frame d = some f ∧ (it.heap.get? f name.lexeme).isSome := by
  unfold writeVariable Interpreter.referred? Heap.ownerAt?
  rw [entry]
  dsimp only
  cases hf : it.heap.ancestor? it.frame d with
  | none => simp
  | some f =>
    by_cases bound : (it.heap.get? f name.lexeme).isSome
    · simp [bound]
    · simp [bound]

end Eval

/-- In every run of a session, an assignment that the table has an entry for finds its name bound in
the frame at the distance of the entry, unless it stands in the initializer of its own variable.
There, and only there, it fails. -/
theorem assigned_missing_iff {maxDepth : Nat} {sink : Sink} {clock : Clock} {past : List Program}
    {s : Session} (reached : (Session.start (.start maxDepth sink clock)).Reaches past s)
    {source : String} {p : Program} {t : Session} (passed : s.check source = (.ok p, t)) (n : Nat)
    {it : Interpreter} {v : Value} {id : Nat} {name : Token} {k : Eval.Cont .value}
    (next : (t.launch p).run n = ⟨.give v (.assigned id name k), it⟩) {d : Nat}
    (entry : it.distances[id]? = some d) :
    ((∃ f, it.heap.ancestor? it.frame d = some f ∧ (it.heap.get? f name.lexeme).isSome) ↔
        ¬Program.InOwnInitializer (past ++ [p]) id) ∧
      (((t.launch p).run n).step.control = .raise (.failure name .undefinedVariable) k ↔
        Program.InOwnInitializer (past ++ [p]) id) := by
  have fits : s.Fits past := reached.fits (Session.fits_start maxDepth sink clock)
  have checked := Session.checked_of_check passed
  obtain ⟨names, started⟩ := fits.launched checked
  obtain ⟨names', -, running⟩ := Eval.run_fits started n
  have recorded := fits.recorded_launch checked
  rw [← (Eval.run_keeps (t.launch p) n).distances] at recorded
  rw [next] at running recorded ⊢
  obtain ⟨π, m, logged⟩ := running.exists_site (r := ⟨id, name, false⟩) rfl
  have mem : Reference.visitAt ⟨id, name, false⟩ π ∈ Program.allVisits (past ++ [p]) := by
    rw [Program.allVisits_concat, List.mem_append]
    exact (List.mem_append.1 logged).imp_left fun h => (Program.mem_lasting.1 h).1
  have own : Program.InOwnInitializer (past ++ [p]) id ↔ unready π.scopes name.lexeme = true :=
    Program.inOwnInitializer_iff (fits.unique_concat checked) mem
  have hd : distance? π.scopes name.lexeme = some d := (recorded _ logged).symm.trans entry
  have bound := m.bound_iff (Program.settled_tail mem) hd
  have found : (∃ f, it.heap.ancestor? it.frame d = some f ∧ (it.heap.get? f name.lexeme).isSome) ↔
      ¬Program.InOwnInitializer (past ++ [p]) id := by
    rw [own, Bool.not_eq_true]
    exact bound
  refine ⟨found, ?_⟩
  change (Eval.writeVariable it id name v k).control = _ ↔ _
  rw [Eval.writeVariable_missing_iff entry, found, not_not]

/-- The assignment that is about to take its value. -/
def Eval.Control.assigned? : Control → Option (Value × Nat × Token × Cont .value)
  | .give v (.assigned id name k) => some (v, id, name, k)
  | _ => none

theorem Eval.control_of_assigned? {c : Control} {v : Value} {id : Nat} {name : Token}
    {k : Cont .value} (h : c.assigned? = some (v, id, name, k)) :
    c = .give v (.assigned id name k) := by
  unfold Control.assigned? at h
  split at h
  · cases h
    rfl
  · cases h

/-- A variable that its own initializer assigns: the assignment has an entry, the frame of its block
does not bind the name, and the run fails. -/
theorem assigned_missing_iff_own :
    ∃ p t it v id name k, (Session.start (.start 1 .unlimited (.stopped 0))).check
        "\x7b var a = a = nil; \x7d" = (.ok p, t) ∧
      (t.launch p).run 6 = ⟨.give v (.assigned id name k), it⟩ ∧ name.lexeme = "a" ∧
        it.distances[id]? = some 0 ∧ Program.InOwnInitializer [p] id ∧
          ((t.launch p).run 6).step.control = .raise (.failure name .undefinedVariable) k := by
  have meets : (fun x => x.1.toOption.bind fun p =>
      let e := (x.2.launch p).run 6
      e.control.assigned?.map fun y => (y.2.2.1.lexeme, e.it.distances[y.2.1]?,
        (e.it.heap.get? e.it.frame y.2.2.1.lexeme).isSome))
      ((Session.start (.start 1 .unlimited (.stopped 0))).check "\x7b var a = a = nil; \x7d") =
        some ("a", some 0, false) := by
    decide +kernel
  generalize passed : (Session.start (.start 1 .unlimited (.stopped 0))).check
    "\x7b var a = a = nil; \x7d" = result at *
  obtain ⟨_ | p, t⟩ := result
  · cases meets
  obtain ⟨⟨v, id, name, k⟩, assigned, found⟩ := Option.map_eq_some_iff.1 meets
  rw [Prod.mk.injEq, Prod.mk.injEq] at found
  obtain ⟨lexeme, entry, unbound⟩ := found
  have next : (t.launch p).run 6 = ⟨.give v (.assigned id name k), ((t.launch p).run 6).it⟩ :=
    congrArg (Eval.State.mk · ((t.launch p).run 6).it) (Eval.control_of_assigned? assigned)
  have missing := assigned_missing_iff .none passed 6 next entry
  have own : Program.InOwnInitializer ([] ++ [p]) id := by
    by_contra other
    obtain ⟨f, hf, bound⟩ := missing.1.2 other
    cases hf
    rw [unbound] at bound
    cases bound
  exact ⟨p, t, _, v, id, name, k, rfl, next, lexeme, entry, own, missing.2.2 own⟩

end Lox
