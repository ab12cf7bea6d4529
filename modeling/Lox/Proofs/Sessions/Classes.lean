/-
Class bodies are inert. Bare code is run as the code that it was made of: it prints the same and ends in
the same way, in every state of the interpreter (`run_bareAll`). What an instance has is not what its
class declares but what was assigned to it, in whatever text of a session that was done
(`Session.Logs.recalls`).

The main result is `class_bodies_inert`.
-/
import Lox.Proofs.Eval.Properties
import Lox.Proofs.Sessions.Transcript
import Lox.Proofs.Syntax.Bare

namespace Lox

/-! ## Running bare code -/

/-- The function without the methods of the classes in it. -/
def Closure.bare (c : Closure) : Closure := { c with decl.body := Stmt.bareAll c.decl.body }

/-- The heap with bare functions. -/
def Heap.bare (h : Heap) : Heap := { h with functions := h.functions.map Closure.bare }

/-- The native does not look for methods in the code on the heap; a function of the host might. -/
def Native.IgnoresMethods (n : Native) : Prop :=
  ∀ h reading args, n.act ⟨h.bare, reading, args⟩ = n.act ⟨h, reading, args⟩

theorem Native.Blind.ignoresMethods {n : Native} (blind : n.Blind) : n.IgnoresMethods :=
  fun _ _ _ => blind ..

theorem Heap.recode_plain (h : Heap) : h.recode (.renumbered id) = h.bare := by
  have code : Closure.recode (.renumbered id) = Closure.bare := by
    funext c
    have params : c.decl.params.map (Recoding.renumbered id).token = c.decl.params := List.map_id _
    rw [Closure.recode, FunctionOf.recode, Stmt.recodeAll_plain, params]
    rfl
  rw [recode, code, bare]

theorem Native.IgnoresMethods.overlooks {n : Native} (ignores : n.IgnoresMethods) :
    n.Overlooks (.renumbered id) := by
  intro h reading args
  rw [h.recode_plain]
  exact ignores h reading args

section

variable {it : Interpreter} (ignores : ∀ n ∈ it.natives, n.IgnoresMethods) (ss : List Stmt) (n : Nat)

include ignores

/-- A run of bare code is the run of the code that it was made of, but for methods. -/
theorem run_bareAll :
    (Eval.State.run n ⟨.executeAll (Stmt.bareAll ss) .flow, it⟩).recode (.renumbered id) it.distances =
      (Eval.State.run n ⟨.executeAll ss .flow, it⟩).recode (.renumbered id) it.distances := by
  have overlooks : ∀ n ∈ it.natives, n.Overlooks (.renumbered id) := fun n hn =>
    (ignores n hn).overlooks
  have recoded : ∀ control, (Eval.State.run n ⟨control, it⟩).recode (.renumbered id) it.distances =
      Eval.State.run n (Eval.State.recode (.renumbered id) it.distances ⟨control, it⟩) := by
    intro control
    refine (Eval.run_recode overlooks n fun m _ ref _ => ?_).symm
    rw [(Eval.run_keeps ⟨control, it⟩ m).distances]
    rfl
  rw [recoded, recoded]
  simp only [Eval.State.recode, Eval.Control.recode, Stmt.recodeAll_bareAll]

theorem sink_bareAll : (Eval.State.run n ⟨.executeAll (Stmt.bareAll ss) .flow, it⟩).it.sink =
    (Eval.State.run n ⟨.executeAll ss .flow, it⟩).it.sink :=
  Interpreter.sink_eq (congrArg (·.it) (run_bareAll ignores ss n))

theorem outcome?_bareAll : (Eval.State.run n ⟨.executeAll (Stmt.bareAll ss) .flow, it⟩).outcome? =
    (Eval.State.run n ⟨.executeAll ss .flow, it⟩).outcome? :=
  Eval.State.outcome?_eq (run_bareAll ignores ss n)

/-- As a whole program, bare code ends with the same result. -/
theorem interpret_bareAll : (it.interpret n (Stmt.bareAll ss)).map Prod.fst =
    (it.interpret n ss).map Prod.fst := by
  have concluded := Interpreter.conclude_congr (sink_bareAll ignores ss n)
  simp only [Interpreter.interpret, Interpreter.runFor, outcome?_bareAll ignores ss n,
    Option.map_map]
  refine congrArg (Option.map · _) ?_
  funext o
  exact concluded o

end

/-! ## Property assignments of a session -/

namespace Session

/-- The property assignments that a run of the text makes, newest first. -/
def writes (s : Session) (fuel : Nat) (source : String) : List Write :=
  match s.check source with
  | (.error _, _) => []
  | (.ok p, t) => (t.launch p).writes fuel

/-- The second session is reached from the first by runs of texts, which made these property
assignments. -/
inductive Logs (s : Session) : List Write → Session → Prop
  | none : s.Logs [] s
  | run {log : List Write} {t u : Session} {fuel : Nat} {source : String}
      {r : Except RunError Unit} : s.Logs log t → t.run fuel source = some (r, u) →
      s.Logs (t.writes fuel source ++ log) u

/-- Properties of instances are what the assignments made them, and no native makes up instances. -/
structure Recalls (log : List Write) (s : Session) : Prop where
  heap : s.interpreter.heap.Recalls log
  detached : ∀ n ∈ s.interpreter.natives, n.Detached

variable {log : List Write} {s t : Session} {p : Program} {source : String}

theorem recalls_start (maxDepth : Nat) (sink : Sink) (clock : Clock) :
    (start (.start maxDepth sink clock)).Recalls [] := by
  constructor
  · -- the only global is a native
    refine Heap.recalls_empty.newFrame _ fun name v found => ?_
    rw [Bindings.get?_put] at found
    split at found
    · cases found
      exact within_none
    · cases found
  · intro n hn
    obtain rfl := Array.mem_singleton.1 hn
    exact detached_clock

theorem Recalls.launched (recalls : s.Recalls log) (passed : s.check source = (.ok p, t)) (n : Nat) :
    ((t.launch p).run n).Recalls ((t.launch p).writes n ++ log) := by
  rw [(checked_of_check passed).launch_eq]
  apply Eval.run_recalls
  · exact ⟨trivial, recalls.heap⟩
  · exact recalls.detached

theorem Recalls.run (recalls : s.Recalls log) {fuel : Nat} {r : Except RunError Unit}
    (h : s.run fuel source = some (r, t)) : t.Recalls (s.writes fuel source ++ log) := by
  rcases run_cases h with ⟨errors, rejected, -⟩ | ⟨p, u, o, passed, -, settled⟩
  · have kept := interpreter_of_check rejected
    have silent : s.writes fuel source = [] := by rw [writes, rejected]
    rw [silent]
    exact ⟨kept ▸ recalls.heap, kept ▸ recalls.detached⟩
  · obtain rfl : (u.settle p o ((u.launch p).run fuel).it).2 = t := by rw [settled]
    have writes : s.writes fuel source = (u.launch p).writes fuel := by rw [writes, passed]
    constructor
    · rw [heap_settle, writes]
      exact (recalls.launched passed fuel).heap
    · rw [natives_settle, (Eval.run_keeps (u.launch p) fuel).natives,
        (checked_of_check passed).launch_eq]
      exact recalls.detached

theorem Logs.recalls (h : s.Logs log t) (recalls : s.Recalls []) : t.Recalls log := by
  induction h with
  | none => exact recalls
  | run _ hr ih => exact ih.run hr

end Session

open Eval

/-- Class bodies are inert. Code without the methods of its classes has the same scoping errors or the
same distances, declares functions if and only if the code with them does, and in every state of the
interpreter whose natives do not look for methods prints the same and ends in the same way.

In a session, whatever its texts declare, a property of an instance is read if and only if it was
assigned to before, in the same text or in an earlier one, and it is read as what was last assigned. -/
theorem class_bodies_inert :
    (∀ ss : List Stmt,
      distancesOf (Stmt.bareAll ss) = distancesOf ss ∧
      Stmt.anyDeclaresFunction (Stmt.bareAll ss) = Stmt.anyDeclaresFunction ss ∧
      ∀ it : Interpreter, (∀ n ∈ it.natives, n.IgnoresMethods) → ∀ n,
        let e := State.run n ⟨.executeAll ss .flow, it⟩
        let e' := State.run n ⟨.executeAll (Stmt.bareAll ss) .flow, it⟩
        e'.it.sink = e.it.sink ∧ e'.outcome? = e.outcome? ∧
          (it.interpret n (Stmt.bareAll ss)).map Prod.fst = (it.interpret n ss).map Prod.fst) ∧
    ∀ maxDepth sink clock past s, (Session.start (.start maxDepth sink clock)).Logs past s →
      ∀ source p t, s.check source = (.ok p, t) → ∀ n i name k,
        let e := (t.launch p).run n
        let log := (t.launch p).writes n ++ past
        e.control = .give (.instance i) (.getObject name k) →
          ((∃ v, e.step.control = .give v k) ↔ Assigned log i name.lexeme) ∧
          (∀ v, e.step.control = .give v k ↔ lastAssigned? log i name.lexeme = some v) ∧
          (e.step.control = .raise (.failure name .undefinedProperty) k ↔
            ¬Assigned log i name.lexeme) := by
  constructor
  · intro ss
    refine ⟨distancesOf_bareAll ss, Stmt.anyDeclaresFunction_bareAll ss, ?_⟩
    intro it ignores n e e'
    exact ⟨sink_bareAll ignores ss n, outcome?_bareAll ignores ss n, interpret_bareAll ignores ss n⟩
  · intro maxDepth sink clock past s reached source p t passed n i name k e log next
    have recalls := reached.recalls (Session.recalls_start maxDepth sink clock)
    obtain ⟨reads, fails⟩ := (recalls.launched passed n).step_getObject next
    refine ⟨?_, reads, fails⟩
    rw [← isSome_lastAssigned?, Option.isSome_iff_exists]
    exact exists_congr reads

/-- The property that is read next, and the instance it is read from. -/
def Eval.Control.read? : Eval.Control → Option (InstanceRef × Token)
  | .give (.instance i) (.getObject name _) => some (i, name)
  | _ => none

theorem Eval.Control.exists_read {c : Eval.Control} {i : InstanceRef} {name : Token}
    (next : c.read? = some (i, name)) : ∃ k, c = .give (.instance i) (.getObject name k) := by
  unfold Eval.Control.read? at next
  split at next
  · cases next
    exact ⟨_, rfl⟩
  · cases next

/-- A class with a method and the bare class; and an instance of one, which has a property that was
assigned to by another name, in an earlier text, and no method. -/
theorem class_bodies_inert_alias :
    let it := Interpreter.start 1 .unlimited (.stopped 0)
    let c : Token := ⟨.identifier, "C", 1⟩
    let m : Function := ⟨⟨.identifier, "m", 1⟩, [], []⟩
    (it.interpret 9 [.class c []]).map Prod.fst = (it.interpret 9 [.class c [m]]).map Prod.fst ∧
    ∃ log s p t i x y k k', (Session.start it).Logs log s ∧
      s.check "print a.x; a.m;" = (.ok p, t) ∧
      ((t.launch p).run 4).control = .give (.instance i) (.getObject x k) ∧
      ((t.launch p).run 4).step.control = .give (.bool true) k ∧
      ((t.launch p).run 11).control = .give (.instance i) (.getObject y k') ∧
      ((t.launch p).run 11).step.control = .raise (.failure y .undefinedProperty) k' := by
  intro it c m
  obtain ⟨bare, properties⟩ := class_bodies_inert
  constructor
  · obtain ⟨-, -, runs⟩ := bare [.class c [m]]
    have ignores : ∀ n ∈ it.natives, n.IgnoresMethods := by
      intro n hn
      obtain rfl := Array.mem_singleton.1 hn
      exact blind_clock.ignoresMethods
    obtain ⟨-, -, result⟩ := runs it ignores 9
    exact result
  · let text := "class C \x7b m() \x7b \x7d \x7d var a = C(); var b = a; a.x = false; b.x = true;"
    have reads : ((Session.start it).run 36 text).bind (fun ran =>
        let log := (Session.start it).writes 36 text ++ []
        let checked := ran.2.check "print a.x; a.m;"
        checked.1.toOption.bind fun p =>
          let e := checked.2.launch p
          (e.run 4).control.read?.bind fun first => (e.run 11).control.read?.map fun second =>
            (first.1, second.1, lastAssigned? (e.writes 4 ++ log) first.1 first.2.lexeme,
              lastAssigned? (e.writes 11 ++ log) second.1 second.2.lexeme)) =
        some (⟨0⟩, ⟨0⟩, some (.bool true), none) := by
      decide +kernel
    obtain ⟨⟨_, s⟩, ran, reads⟩ := Option.bind_eq_some_iff.1 reads
    obtain ⟨p, passed, reads⟩ := Option.bind_eq_some_iff.1 reads
    obtain ⟨⟨i, x⟩, first, reads⟩ := Option.bind_eq_some_iff.1 reads
    obtain ⟨⟨j, y⟩, second, reads⟩ := Option.map_eq_some_iff.1 reads
    generalize checked : s.check "print a.x; a.m;" = result at *
    obtain ⟨verdict, t⟩ := result
    cases verdict with
    | error errors => cases passed
    | ok p' =>
      obtain rfl : p' = p := Option.some.inj passed
      obtain ⟨k, first⟩ := Eval.Control.exists_read first
      obtain ⟨k', second⟩ := Eval.Control.exists_read second
      simp only [Prod.mk.injEq] at reads
      obtain ⟨rfl, rfl, assigned, never⟩ := reads
      have reached := Session.Logs.run .none ran
      obtain ⟨-, reads, -⟩ := properties _ _ _ _ _ reached _ _ _ checked 4 _ _ _ first
      obtain ⟨-, -, fails⟩ := properties _ _ _ _ _ reached _ _ _ checked 11 _ _ _ second
      exact ⟨_, s, p', t, _, x, y, k, k', reached, checked, first, (reads _).2 assigned, second,
        fails.2 ((lastAssigned?_eq_none ..).1 never)⟩

end Lox
