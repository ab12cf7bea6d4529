/-
Failures that no source text leads to. The evaluator checks for operators that it does not know, for a
class whose name is not bound when it is made, and for distances longer than the chain of frames. In
a session none of these checks ever fails: operators suit their nodes in all code that there is, also
in functions of earlier texts (`Session.Apt`), a class is declared in a frame that was made, and a
distance in the table was counted along the links (`internal_failures_unreachable`).
-/
import Lox.Proofs.Eval.Faults
import Lox.Proofs.Sessions.Split

namespace Lox

open Eval

/-! ## Operators -/

namespace Session

/-- The functions on the heap are made of code whose operators suit, and natives answer. -/
structure Apt (s : Session) : Prop where
  heap : s.interpreter.heap.In Eval.apt
  natives : ∀ n ∈ s.interpreter.natives, n.Reliable

theorem apt_start (maxDepth : Nat) (sink : Sink) (clock : Clock) :
    (start (.start maxDepth sink clock)).Apt := by
  constructor
  · intro f c found
    cases found
  · intro n hn
    obtain rfl := Array.mem_singleton.1 hn
    exact reliable_clock

variable {s t : Session} {p : Program} {source : String}

theorem apt_of_check (passed : s.check source = (.ok p, t)) : Stmt.AllApt p.statements := by
  obtain ⟨parsed, -⟩ := parsed_of_check passed
  exact Grammar.apt_of_program parsed

/-- All that a run comes to is code whose operators suit. -/
theorem Apt.launched (apt : s.Apt) (passed : s.check source = (.ok p, t)) :
    (t.launch p).In Eval.apt := by
  rw [(checked_of_check passed).launch_eq]
  exact ⟨⟨Stmt.allApt_iff.1 (apt_of_check passed), trivial⟩, apt.heap⟩

theorem Apt.natives_launch (apt : s.Apt) (passed : s.check source = (.ok p, t)) :
    ∀ n ∈ (t.launch p).it.natives, n.Reliable := by
  rw [(checked_of_check passed).launch_eq]
  exact apt.natives

theorem Apt.run (apt : s.Apt) {fuel : Nat} {r : Except RunError Unit}
    (h : s.run fuel source = some (r, t)) : t.Apt := by
  rcases run_cases h with ⟨errors, rejected, -⟩ | ⟨p, u, o, passed, -, settled⟩
  · have kept := interpreter_of_check rejected
    exact ⟨kept ▸ apt.heap, kept ▸ apt.natives⟩
  · obtain rfl : (u.settle p o ((u.launch p).run fuel).it).2 = t := by rw [settled]
    constructor
    · rw [heap_settle]
      exact (run_in (apt.launched passed) fuel).heap
    · rw [natives_settle, (run_keeps (u.launch p) fuel).natives]
      exact apt.natives_launch passed

theorem Reaches.apt {past : List Program} (h : s.Reaches past t) (apt : s.Apt) : t.Apt := by
  induction h with
  | none => exact apt
  | run _ hr ih => exact ih.run hr

/-- A run fails with usual errors only. -/
theorem Apt.usual (apt : s.Apt) {fuel : Nat} {e : RuntimeError}
    (h : s.run fuel source = some (.error (.failed e), t)) : e.Usual := by
  rcases run_cases h with ⟨errors, -, rejected⟩ | ⟨p, u, o, passed, ended, settled⟩
  · cases rejected
  · have usual := run_usual (apt.launched passed) (apt.natives_launch passed) trivial fuel
    rw [ended] at usual
    have concluded : (Interpreter.conclude ((u.launch p).run fuel).it o).mapError RunError.failed =
        .error (.failed e) := congrArg Prod.fst settled
    generalize ((u.launch p).run fuel).it = it at concluded
    unfold Interpreter.conclude at concluded
    cases o with
    | fault e' =>
      cases concluded
      exact usual
    | value v | flow f =>
      -- otherwise only the flush can have failed
      simp only [Outcome.asFlow] at concluded
      cases flushed : it.sink.flush with
      | ok u =>
        rw [flushed] at concluded
        cases concluded
      | error refusal =>
        rw [flushed] at concluded
        cases concluded
        trivial

end Session

/-! ## Classes and distances -/

namespace Eval.State.Fits

variable {log : List Visit} {names : List (List String)} {e : State}

theorem step_class (fits : e.Fits log names) {name : Token} {methods : List Function}
    {k : Cont .flow} (next : e.control = .execute (.class name methods) k) :
    e.step.control = .finish .normal k := by
  obtain ⟨control, it⟩ := e
  obtain ⟨heap, control⟩ := fits
  cases next
  obtain ⟨π, here, -⟩ := control
  have found := withClass_owner? (heap.lt here.agrees) name.lexeme
  rw [(Rule.class it name methods it.frame k found).step_eq]

/-- The table has no distance that is longer than the chain of frames. -/
theorem isSome_ancestor? (fits : e.Fits log names)
    (recorded : ∀ v ∈ log, e.it.distances[v.id]? = Scoping.distance? v.site.scopes v.name)
    {r : Reference} (next : e.control.reference? = some r) {d : Nat}
    (known : e.it.distances[r.id]? = some d) : (e.it.heap.ancestor? e.it.frame d).isSome := by
  obtain ⟨π, here, logged⟩ := fits.exists_visit next
  have entry : e.it.distances[r.id]? = Scoping.distance? π.scopes r.name.lexeme := recorded _ logged
  rw [known] at entry
  obtain ⟨lt, -⟩ := List.findIdx?_eq_some_iff_getElem.1 entry.symm
  have same : π.declared.length = π.scopes.length := Lox.Agrees.length_eq here
  obtain ⟨f, -, hf, -⟩ := Lox.Agrees.exists_ancestor here (List.getElem?_eq_getElem lt)
    (List.getElem?_eq_getElem (same ▸ lt))
  rw [hf]
  rfl

end Eval.State.Fits

/-- Whatever texts a session runs, no run fails because of an operator that the evaluator does not
know; all operators in what is parsed suit their nodes, so those that decide whether their right side
is evaluated are `and` and `or`; a class declaration never fails where the class is bound to its name;
and a distance that is looked up is never longer than the chain of frames. -/
theorem internal_failures_unreachable {maxDepth : Nat} {sink : Sink} {clock : Clock}
    {past : List Program} {s : Session}
    (reached : (Session.start (.start maxDepth sink clock)).Reaches past s) :
    (∀ fuel source e t, s.run fuel source = some (.error (.failed e), t) →
      e.message ≠ "Invalid unary operator." ∧ e.message ≠ "Invalid binary operator.") ∧
    (∀ tokens n ss, (Parse.program n tokens).program = .ok ss → Stmt.AllApt ss) ∧
    ∀ source p t, s.check source = (.ok p, t) → ∀ n,
      let e := (t.launch p).run n
      (∀ name methods k, e.control = .execute (.class name methods) k →
        e.step.control = .finish .normal k) ∧
      ∀ r d, e.control.reference? = some r → e.it.distances[r.id]? = some d →
        (e.it.heap.ancestor? e.it.frame d).isSome := by
  have apt : s.Apt := reached.apt (Session.apt_start maxDepth sink clock)
  have fits : s.Fits past := reached.fits (Session.fits_start maxDepth sink clock)
  refine ⟨?_, ?_, ?_⟩
  · intro fuel source e t h
    exact RuntimeError.message_usual (apt.usual h)
  · intro tokens n ss parsed
    exact Grammar.apt_of_program parsed
  · intro source p t passed n e
    have checked := Session.checked_of_check passed
    obtain ⟨names, started⟩ := fits.launched checked
    obtain ⟨names', -, running⟩ := run_fits started n
    constructor
    · intro name methods k next
      exact running.step_class next
    · intro r d next known
      refine running.isSome_ancestor? (fun v hv => ?_) next known
      rw [(run_keeps (t.launch p) n).distances]
      exact fits.recorded_launch checked v hv

/-- The class whose declaration is executed next. -/
def Eval.Control.class? : Eval.Control → Option Token
  | .execute (.class name _) _ => some name
  | _ => none

theorem Eval.Control.exists_class {c : Eval.Control} {name : Token} (next : c.class? = some name) :
    ∃ methods k, c = .execute (.class name methods) k := by
  unfold Eval.Control.class? at next
  split at next
  · cases next
    exact ⟨_, _, rfl⟩
  · cases next

/-- The function that one text declares is called by the next, in which a class is declared. It reads
its parameter from a block, where the table has a distance of one link. -/
theorem internal_failures_unreachable_call :
    ∃ past s p t r, (Session.start (.start 1 .unlimited (.stopped 0))).Reaches past s ∧
      s.check "class C \x7b \x7d f(nil);" = (.ok p, t) ∧
      (∃ name methods k, ((t.launch p).run 1).control = .execute (.class name methods) k ∧
        ((t.launch p).run 1).step.control = .finish .normal k) ∧
      ((t.launch p).run 15).control.reference? = some r ∧
      ((t.launch p).run 15).it.distances[r.id]? = some 1 ∧
      (((t.launch p).run 15).it.heap.ancestor? ((t.launch p).run 15).it.frame 1).isSome := by
  have reads : ((Session.start (.start 1 .unlimited (.stopped 0))).run 8
      "fun f(a) \x7b \x7b print a; \x7d \x7d").bind (fun x =>
        let checked := x.2.check "class C \x7b \x7d f(nil);"
        checked.1.toOption.bind fun p => ((checked.2.launch p).run 1).control.class?.bind fun name =>
          let e := (checked.2.launch p).run 15
          e.control.reference?.map fun r => (name.lexeme, r.name.lexeme, e.it.distances[r.id]?)) =
      some ("C", "a", some 1) := by
    decide +kernel
  obtain ⟨⟨_, s⟩, first, reads⟩ := Option.bind_eq_some_iff.1 reads
  obtain ⟨p, passed, reads⟩ := Option.bind_eq_some_iff.1 reads
  obtain ⟨name, declares, reads⟩ := Option.bind_eq_some_iff.1 reads
  obtain ⟨r, next, found⟩ := Option.map_eq_some_iff.1 reads
  obtain ⟨methods, k, declares⟩ := Eval.Control.exists_class declares
  generalize checked : s.check "class C \x7b \x7d f(nil);" = result at *
  obtain ⟨verdict, t⟩ := result
  cases verdict with
  | error errors => cases passed
  | ok p' =>
    obtain rfl : p' = p := Option.some.inj passed
    have reached := Session.Reaches.run .none first
    obtain ⟨-, -, steps⟩ := internal_failures_unreachable reached
    obtain ⟨classes, -⟩ := steps _ _ _ checked 1
    obtain ⟨-, lookups⟩ := steps _ _ _ checked 15
    have known : ((t.launch p').run 15).it.distances[r.id]? = some 1 := congrArg (fun x => x.2.2) found
    exact ⟨_, s, p', t, r, reached, checked, ⟨name, methods, k, declares, classes _ _ _ declares⟩, next,
      known, lookups r 1 next known⟩

end Lox
