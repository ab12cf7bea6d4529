/-
Evaluation on a tree of frames. A step does to the heap what can be done in the frame that it is in, and
goes on in a frame that it was in before, in one that waits to be gone back to, or in one that it has
just made (`step_moves`). So no step loses anything that has been made (`step_grows`), and the frames
stay a tree with the frame of the evaluation in it (`run_rooted`).
-/
import Lox.Proofs.Eval.Steps
import Lox.Proofs.Heap.Growth

namespace Lox.Eval

/-! ## Frames to go back to -/

/-- The frames that the ends of blocks and calls go back to. -/
def Cont.frames : {a : Answer} → Cont a → List FrameRef
  | _, .value | _, .flow => []
  | _, .blockEnd frame k => frame :: k.frames
  | _, .callEnd frame k => frame :: k.frames
  | _, .operand _ k => k.frames
  | _, .leftOperand _ _ k => k.frames
  | _, .rightOperand _ _ k => k.frames
  | _, .decision _ _ k => k.frames
  | _, .assigned _ _ k => k.frames
  | _, .callee _ _ k => k.frames
  | _, .argument _ _ _ _ k => k.frames
  | _, .getObject _ k => k.frames
  | _, .setObject _ _ k => k.frames
  | _, .setValue _ _ k => k.frames
  | _, .discarded k => k.frames
  | _, .printed k => k.frames
  | _, .initializer _ k => k.frames
  | _, .returned k => k.frames
  | _, .ifTest _ _ k => k.frames
  | _, .whileTest _ _ k => k.frames
  | _, .whileBody _ _ k => k.frames
  | _, .sequence _ k => k.frames

def Control.frames : Control → List FrameRef
  | .evaluate _ k => k.frames
  | .execute _ k => k.frames
  | .executeAll _ k => k.frames
  | .call _ _ _ k => k.frames
  | .give _ k => k.frames
  | .finish _ k => k.frames
  | .raise _ k => k.frames
  | .ended _ => []

/-- The frame that the evaluation is in, and those it goes back to. -/
def State.frames (e : State) : List FrameRef := e.it.frame :: e.control.frames

/-! ## Steps -/

/-- Where an evaluation goes that was under way in an interpreter, with these frames to go back to: the
heap is what became of it in the frame that the interpreter was in, and the frames are the same, or have
been made. -/
structure State.Moves (e : State) (it : Interpreter) (waiting : List FrameRef) : Prop where
  heap : Heap.Develops it.frame it.heap e.it.heap
  frames : ∀ f ∈ e.frames, f ∈ it.frame :: waiting ∨ e.it.heap.Has (.frame f)

variable {it : Interpreter}

/-- The evaluation stays in its frame, and goes back to no others. -/
theorem State.Moves.stay {waiting : List FrameRef} {e : State}
    (heap : Heap.Develops it.frame it.heap e.it.heap) (frame : e.it.frame = it.frame)
    (same : e.control.frames = waiting) : e.Moves it waiting := by
  refine ⟨heap, fun f mem => .inl ?_⟩
  rwa [State.frames, frame, same] at mem

/-- The evaluation enters a frame that has been made, and goes back to the one that it was in. -/
theorem State.Moves.enter {waiting : List FrameRef} {e : State}
    (heap : Heap.Develops it.frame it.heap e.it.heap) (made : e.it.heap.Has (.frame e.it.frame))
    (same : e.control.frames = it.frame :: waiting) : e.Moves it waiting := by
  refine ⟨heap, fun f mem => ?_⟩
  rw [State.frames, same] at mem
  rcases List.mem_cons.1 mem with rfl | mem
  · exact .inr made
  · exact .inl mem

/-- A frame that is made is there. -/
theorem has_newFrame (h : Heap) (parent : Option FrameRef) (bindings : Bindings Value) :
    (h.newFrame parent bindings).2.Has (.frame (h.newFrame parent bindings).1) :=
  Nat.lt_of_lt_of_eq (Nat.lt_succ_self _) (Array.size_push _).symm

theorem Turn.frames_eq {c c' : Control} (turn : Turn it c c') : c'.frames = c.frames := by
  cases turn with
  | yield e k k' yields => cases yields <;> rfl
  | _ => rfl

theorem Fail.frames_eq {c : Control} {e : RuntimeError} {k : Cont .value} (fail : Fail it c e k) :
    k.frames = c.frames := by
  cases fail <;> rfl

/-- A class is made behind the binding of its name. -/
theorem develops_withClass (it : Interpreter) (name : String) :
    Heap.Develops it.frame it.heap (withClass it name).heap :=
  .newClass (.define .refl ..) _

theorem Rule.moves {e e' : State} (rule : Rule e e') : e'.Moves e.it e.control.frames := by
  cases rule with
  | turn turn => exact .stay .refl rfl turn.frames_eq
  | fail fail => exact .stay .refl rfl fail.frames_eq
  | varNil | var | write => exact .stay (.define .refl ..) rfl rfl
  | function it decl k => exact .stay (.define (.newFunction .refl decl) ..) rfl rfl
  | «class» it name => exact .stay (.define (develops_withClass it name.lexeme) ..) rfl rfl
  | lostClass it name => exact .stay (develops_withClass it name.lexeme) rfl rfl
  | setField => exact .stay (.setField .refl ..) rfl rfl
  | instantiate it c paren k => exact .stay (.newInstance .refl c) rfl rfl
  | block => exact .enter (.newFrame .refl (.inl rfl) _) (has_newFrame ..) rfl
  | call it f c paren args k found =>
    exact .enter (.newFrame .refl (.inr ⟨f, c, found, rfl⟩) _) (has_newFrame ..) rfl
  | blockEnd | blockFault | callEnd | callReturn | callFault =>
    exact ⟨.refl, fun _ mem => .inl (.tail _ mem)⟩
  | native | nativeFault | printed | unprinted => exact .stay .refl rfl rfl

theorem step_moves (e : State) : e.step.Moves e.it e.control.frames := (step_rule e).moves

/-! ## Runs -/

/-- No step loses anything that has been made, whether it succeeds or fails. -/
theorem step_grows (e : State) : e.it.heap.Keeps e.step.it.heap := (step_moves e).heap.keeps

theorem run_grows (e : State) (n : Nat) : e.it.heap.Keeps (e.run n).it.heap :=
  run_invariant (P := fun e' => e.it.heap.Keeps e'.it.heap)
    (fun e' kept => kept.trans (step_grows e')) (.refl _) n

/-- The frames on the heap are a tree, and those that the evaluation is in or goes back to are among
them. -/
structure State.Rooted (e : State) : Prop where
  tree : e.it.heap.Tree e.it.globals
  made : ∀ f ∈ e.frames, e.it.heap.Has (.frame f)

theorem step_rooted {e : State} (rooted : e.Rooted) : e.step.Rooted := by
  have moves := step_moves e
  constructor
  · rw [(step_keeps e).globals]
    exact rooted.tree.develop (rooted.made _ List.mem_cons_self) moves.heap
  · intro f mem
    rcases moves.frames f mem with mem | made
    · exact moves.heap.keeps.has_frame (rooted.made f mem)
    · exact made

theorem run_rooted {e : State} (rooted : e.Rooted) (n : Nat) : (e.run n).Rooted :=
  run_invariant (P := State.Rooted) (fun _ => step_rooted) rooted n

end Lox.Eval
