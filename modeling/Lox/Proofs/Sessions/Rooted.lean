/-
The frames of a session. A session begins with one frame, the top level, and whatever texts it runs, all
frames that are ever made hang from it; nothing that was made is lost, in no step and in no run.

The main result is `frames_hang_from_top`.
-/
import Lox.Proofs.Eval.Growth
import Lox.Proofs.Lockstep.Session

namespace Lox

open Eval

namespace Session

/-- The frames of the session are a tree, and the one that it is in is among them. -/
structure Rooted (s : Session) : Prop where
  tree : s.interpreter.heap.Tree s.interpreter.globals
  made : s.interpreter.heap.Has (.frame s.interpreter.frame)

theorem rooted_start (maxDepth : Nat) (sink : Sink) (clock : Clock) :
    (start (.start maxDepth sink clock)).Rooted := by
  refine ⟨⟨⟨_, rfl, rfl⟩, ?_, ?_⟩, Nat.zero_lt_one⟩
  · rintro ⟨i⟩ made
    obtain rfl : i = 0 := Nat.lt_one_iff.1 made
    exact ⟨0, rfl⟩
  · rintro f c ⟨⟩

variable {s t u : Session} {past : List Program} {p : Program} {source : String}

/-- A program begins in the frame that the session is in. -/
theorem Rooted.launched (rooted : s.Rooted) (passed : s.check source = (.ok p, t)) :
    (t.launch p).Rooted := by
  rw [(checked_of_check passed).launch_eq]
  refine ⟨rooted.tree, fun f mem => ?_⟩
  obtain rfl := List.mem_singleton.1 mem
  exact rooted.made

theorem Rooted.run (rooted : s.Rooted) {fuel : Nat} {r : Except RunError Unit}
    (h : s.run fuel source = some (r, t)) : t.Rooted := by
  rcases run_cases h with ⟨errors, rejected, -⟩ | ⟨p, u, o, passed, -, settled⟩
  · have kept := interpreter_of_check rejected
    exact ⟨kept ▸ rooted.tree, kept ▸ rooted.made⟩
  · obtain rfl : (u.settle p o ((u.launch p).run fuel).it).2 = t := by rw [settled]
    have behind := run_rooted (rooted.launched passed) fuel
    constructor
    · rw [heap_settle, globals_settle]
      exact behind.tree
    · rw [heap_settle, frame_settle]
      exact behind.made _ List.mem_cons_self

theorem Reaches.rooted (h : s.Reaches past t) (rooted : s.Rooted) : t.Rooted := by
  induction h with
  | none => exact rooted
  | run _ hr ih => exact ih.run hr

/-- A run loses nothing that has been made, however it ends. -/
theorem grows_run {fuel : Nat} {r : Except RunError Unit} (h : s.run fuel source = some (r, t)) :
    s.interpreter.heap.Keeps t.interpreter.heap := by
  rcases run_cases h with ⟨errors, rejected, -⟩ | ⟨p, u, o, passed, -, settled⟩
  · rw [interpreter_of_check rejected]
    exact .refl _
  · obtain rfl : (u.settle p o ((u.launch p).run fuel).it).2 = t := by rw [settled]
    have grows := run_grows (u.launch p) fuel
    rw [(checked_of_check passed).launch_eq] at grows
    rw [heap_settle, (checked_of_check passed).launch_eq]
    exact grows

end Session

/-- All frames hang from the top level, between the runs of a session and at any moment of a run: the
frame that is current, those that are gone back to, those that functions keep, and all others that were
ever made. No step of an evaluation loses anything, whatever state it starts from and whether it succeeds
or fails: frames keep their parents and the names that they bind, functions their declarations and frames,
instances their classes and fields. So the same holds of all that runs do. -/
theorem frames_hang_from_top {maxDepth : Nat} {sink : Sink} {clock : Clock} {past : List Program}
    {s : Session} (reached : (Session.start (.start maxDepth sink clock)).Reaches past s) :
    (s.interpreter.heap.Tree s.interpreter.globals ∧
      s.interpreter.heap.Has (.frame s.interpreter.frame)) ∧
    (∀ source p t, s.check source = (.ok p, t) → ∀ n,
      let e := (t.launch p).run n
      e.it.heap.Tree e.it.globals ∧ ∀ f ∈ e.frames, e.it.heap.Has (.frame f)) ∧
    (∀ fuel source r t, s.run fuel source = some (r, t) →
      s.interpreter.heap.Keeps t.interpreter.heap) ∧
    ∀ e : State, e.it.heap.Keeps e.step.it.heap := by
  have rooted : s.Rooted := reached.rooted (Session.rooted_start maxDepth sink clock)
  refine ⟨⟨rooted.tree, rooted.made⟩, ?_, ?_, step_grows⟩
  · intro source p t passed n e
    have running : e.Rooted := run_rooted (rooted.launched passed) n
    exact ⟨running.tree, running.made⟩
  · intro fuel source r t h
    exact Session.grows_run h

/-- A text makes a closure in a block of a function, and then fails. When the next one calls the closure,
the frame of the call hangs from the top level by three links, and so do all others by some. -/
theorem frames_hang_from_top_closure :
    ∃ past s p t, (Session.start (.start 2 .unlimited (.stopped 0))).Reaches past s ∧
      s.check "h();" = (.ok p, t) ∧
      let e := (t.launch p).run 6
      e.it.heap.ancestor? e.it.frame 3 = some e.it.globals ∧
        e.it.heap.Tree e.it.globals ∧ (∀ f ∈ e.frames, e.it.heap.Has (.frame f)) ∧
          e.it.heap.Keeps e.step.it.heap := by
  let text := "fun f(a) \x7b \x7b fun g() \x7b print a; \x7d return g; \x7d \x7d var h = f(nil); h.x;"
  have calls : ((Session.start (.start 2 .unlimited (.stopped 0))).run 34 text).bind (fun ran =>
      let checked := ran.2.check "h();"
      checked.1.toOption.map fun p =>
        let e := (checked.2.launch p).run 6
        decide (e.it.heap.ancestor? e.it.frame 3 = some e.it.globals)) = some true := by
    decide +kernel
  obtain ⟨⟨_, s⟩, ran, calls⟩ := Option.bind_eq_some_iff.1 calls
  obtain ⟨p, passed, linked⟩ := Option.map_eq_some_iff.1 calls
  generalize checked : s.check "h();" = result at *
  obtain ⟨verdict, t⟩ := result
  cases verdict with
  | error errors => cases passed
  | ok p' =>
    obtain rfl : p' = p := Option.some.inj passed
    have reached := Session.Reaches.run .none ran
    obtain ⟨-, during, -, grows⟩ := frames_hang_from_top reached
    obtain ⟨tree, made⟩ := during _ _ _ checked 6
    exact ⟨_, s, p', t, reached, checked, of_decide_eq_true linked, tree, made, grows _⟩

end Lox
