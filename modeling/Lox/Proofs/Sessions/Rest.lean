/-
Evaluations and runs put the interpreter back. An expression, a statement, a list of statements, a
block and a call end in the frame and at the number of open calls that they began with, whether with a
value, a `return` or an error, for any tree, any distances and any heap. So a session is at rest
between its runs (`Session.AtRest`): at the top level, with no call open.

The main result is `evaluations_go_back`.
-/
import Lox.Proofs.Eval.Home
import Lox.Proofs.Lockstep.Session

namespace Lox

namespace Interpreter

variable {it it' : Interpreter} {fuel : Nat}

theorem back_evaluate {e : Expr} {r : Except RuntimeError Value}
    (h : it.evaluate fuel e = some (r, it')) : it.Back it' := by
  unfold evaluate at h
  obtain ⟨⟨o, it''⟩, ran, same⟩ := Option.map_eq_some_iff.1 h
  cases same
  exact (Eval.ends_of_runFor ran).back rfl (.refl it)

theorem back_execute {s : Stmt} {r : Except RuntimeError Eval.Flow}
    (h : it.execute fuel s = some (r, it')) : it.Back it' := by
  unfold execute at h
  obtain ⟨⟨o, it''⟩, ran, same⟩ := Option.map_eq_some_iff.1 h
  cases same
  exact (Eval.ends_of_runFor ran).back rfl (.refl it)

theorem back_executeAll {ss : List Stmt} {r : Except RuntimeError Eval.Flow}
    (h : it.executeAll fuel ss = some (r, it')) : it.Back it' := by
  unfold executeAll at h
  obtain ⟨⟨o, it''⟩, ran, same⟩ := Option.map_eq_some_iff.1 h
  cases same
  exact (Eval.ends_of_runFor ran).back rfl (.refl it)

/-- A block goes back to the frame from which its own was entered. -/
theorem back_executeBlock {ss : List Stmt} {frame : FrameRef} {r : Except RuntimeError Eval.Flow}
    (h : it.executeBlock fuel ss frame = some (r, it')) : it.Back it' := by
  unfold executeBlock at h
  obtain ⟨⟨o, it''⟩, ran, same⟩ := Option.map_eq_some_iff.1 h
  cases same
  have kept : it.Keeps (it.enter frame) := ⟨rfl, rfl, rfl, rfl, rfl⟩
  exact (Eval.ends_of_runFor ran).back rfl kept

theorem back_call {callee : Value} {paren : Token} {args : List Value}
    {r : Except RuntimeError Value} (h : it.call fuel callee paren args = some (r, it')) :
    it.Back it' := by
  unfold call at h
  obtain ⟨⟨o, it''⟩, ran, same⟩ := Option.map_eq_some_iff.1 h
  cases same
  exact (Eval.ends_of_runFor ran).back rfl (.refl it)

end Interpreter

namespace Session

/-- The session is at the top level, and no call is open. -/
structure AtRest (s : Session) : Prop where
  frame : s.interpreter.frame = s.interpreter.globals
  depth : s.interpreter.depth = 0

theorem atRest_start (maxDepth : Nat) (sink : Sink) (clock : Clock) :
    (start (.start maxDepth sink clock)).AtRest := ⟨rfl, rfl⟩

theorem depth_settle (s : Session) (p : Program) (o : Eval.Outcome) (it : Interpreter) :
    (s.settle p o it).2.interpreter.depth = it.depth := by
  rw [interpreter_settle]

/-- What a session at rest launches ends at rest. -/
theorem AtRest.settled {s : Session} (rest : s.AtRest) {p : Program} {n : Nat} {o : Eval.Outcome}
    (ended : ((s.launch p).run n).control = .ended o) :
    (s.settle p o ((s.launch p).run n).it).2.AtRest := by
  have ends : (s.launch p).Ends o ((s.launch p).run n).it :=
    ⟨n, congrArg (Eval.State.mk · ((s.launch p).run n).it) ended⟩
  have back : (s.launch p).it.Back ((s.launch p).run n).it := ends.back rfl (.refl _)
  constructor
  · rw [frame_settle, globals_settle, back.frame, back.globals]
    exact rest.frame
  · rw [depth_settle, back.depth]
    exact rest.depth

/-- A run leaves a session at rest, whether its text is rejected, fails or completes. -/
theorem AtRest.run {s t : Session} (rest : s.AtRest) {fuel : Nat} {source : String}
    {r : Except RunError Unit} (h : s.run fuel source = some (r, t)) : t.AtRest := by
  have checked : (s.check source).2.AtRest := by
    constructor
    · rw [interpreter_check, rest.frame]
    · rw [interpreter_check, rest.depth]
  rcases run_cases h with ⟨errors, rejected, -⟩ | ⟨p, u, o, passed, ended, settled⟩
  · rwa [rejected] at checked
  · rw [passed] at checked
    have behind := checked.settled ended
    rwa [settled] at behind

theorem Reaches.atRest {s t : Session} {past : List Program} (h : s.Reaches past t)
    (rest : s.AtRest) : t.AtRest := by
  induction h with
  | none => exact rest
  | run _ hr ih => exact ih.run hr

end Session

/-- Evaluation always puts the interpreter back, and keeps to the call limit on the way; after every
run of a session the interpreter is at the top level and no call is open. -/
theorem evaluations_go_back (it : Interpreter) :
    (∀ fuel e r it', it.evaluate fuel e = some (r, it') → it.Back it') ∧
    (∀ fuel s r it', it.execute fuel s = some (r, it') → it.Back it') ∧
    (∀ fuel ss r it', it.executeAll fuel ss = some (r, it') → it.Back it') ∧
    (∀ fuel ss frame r it', it.executeBlock fuel ss frame = some (r, it') → it.Back it') ∧
    (∀ fuel callee paren args r it', it.call fuel callee paren args = some (r, it') →
      it.Back it') ∧
    (it.depth ≤ it.maxDepth → ∀ control n,
      (Eval.State.run n ⟨control, it⟩).it.depth ≤ it.maxDepth) ∧
    ∀ maxDepth sink clock past s fuel source r t,
      (Session.start (.start maxDepth sink clock)).Reaches past s →
        s.run fuel source = some (r, t) →
          t.interpreter.frame = t.interpreter.globals ∧ t.interpreter.depth = 0 := by
  refine ⟨?_, ?_, ?_, ?_, ?_, ?_, ?_⟩
  · intro fuel e r it' h
    exact Interpreter.back_evaluate h
  · intro fuel s r it' h
    exact Interpreter.back_execute h
  · intro fuel ss r it' h
    exact Interpreter.back_executeAll h
  · intro fuel ss frame r it' h
    exact Interpreter.back_executeBlock h
  · intro fuel callee paren args r it' h
    exact Interpreter.back_call h
  · intro within control n
    exact (Eval.run_homeward n ⟨control, it⟩).depth within
  · intro maxDepth sink clock past s fuel source r t reached run
    have rest := reached.atRest (Session.atRest_start maxDepth sink clock)
    obtain ⟨frame, depth⟩ := rest.run run
    exact ⟨frame, depth⟩

/-- From inside of blocks and calls: an unbound name, a `return`, and a recursion beyond the limit. -/
theorem evaluations_go_back_overflow :
    let it := Interpreter.start 1 .unlimited (.stopped 0)
    let x : Token := ⟨.identifier, "x", 1⟩
    (∃ r it', it.evaluate 2 (.variable 0 x) = some (r, it') ∧ it.Back it') ∧
    (∃ r it', it.execute 9 (.block [.print (.variable 0 x)]) = some (r, it') ∧ it.Back it') ∧
    (∃ r it', it.executeAll 9 [.block [.return x none], .print (.variable 0 x)] = some (r, it') ∧
      it.Back it') ∧
    (∃ r it', it.executeBlock 9 [.return x none] ⟨7⟩ = some (r, it') ∧ it.Back it') ∧
    (∃ r it', it.call 9 (.native ⟨0⟩) x [] = some (r, it') ∧ it.Back it') ∧
    (∀ control n, (Eval.State.run n ⟨control, it⟩).it.depth ≤ 1) ∧
    ∃ token t, (Session.start it).run 30 "fun f() \x7b \x7b f(); \x7d \x7d f();" =
        some (.error (.failed (.stackOverflow token)), t) ∧
      t.interpreter.frame = t.interpreter.globals ∧ t.interpreter.depth = 0 := by
  intro it x
  obtain ⟨evaluate, execute, executeAll, executeBlock, call, limit, session⟩ :=
    evaluations_go_back it
  refine ⟨?_, ?_, ?_, ?_, ?_, limit (by decide), ?_⟩
  · obtain ⟨⟨r, it'⟩, h⟩ : ∃ y, it.evaluate 2 (.variable 0 x) = some y :=
      Option.isSome_iff_exists.1 (by decide +kernel)
    exact ⟨r, it', h, evaluate _ _ _ _ h⟩
  · obtain ⟨⟨r, it'⟩, h⟩ : ∃ y, it.execute 9 (.block [.print (.variable 0 x)]) = some y :=
      Option.isSome_iff_exists.1 (by decide +kernel)
    exact ⟨r, it', h, execute _ _ _ _ h⟩
  · obtain ⟨⟨r, it'⟩, h⟩ : ∃ y, it.executeAll 9 [.block [.return x none],
        .print (.variable 0 x)] = some y :=
      Option.isSome_iff_exists.1 (by decide +kernel)
    exact ⟨r, it', h, executeAll _ _ _ _ h⟩
  · obtain ⟨⟨r, it'⟩, h⟩ : ∃ y, it.executeBlock 9 [.return x none] ⟨7⟩ = some y :=
      Option.isSome_iff_exists.1 (by decide +kernel)
    exact ⟨r, it', h, executeBlock _ _ _ _ _ h⟩
  · obtain ⟨⟨r, it'⟩, h⟩ : ∃ y, it.call 9 (.native ⟨0⟩) x [] = some y :=
      Option.isSome_iff_exists.1 (by decide +kernel)
    exact ⟨r, it', h, call _ _ _ _ _ _ h⟩
  · have overflows : ((Session.start it).run 30 "fun f() \x7b \x7b f(); \x7d \x7d f();").map
        Prod.fst = some (.error (.failed (.stackOverflow ⟨.rightParen, ")", 1⟩))) := by
      decide +kernel
    obtain ⟨⟨r, t⟩, h, rfl⟩ := Option.map_eq_some_iff.1 overflows
    exact ⟨_, t, h, session _ _ _ _ _ _ _ _ _ .none h⟩

end Lox
