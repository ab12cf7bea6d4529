/-
Heaps that grow. All that evaluation makes of a heap is made by six operations, and a new frame is
linked to the frame that the evaluation is in or to one that a function keeps (`Develops`). So whatever
has been made stays, with its links, its names and its fields (`Keeps`), and frames that hang from one
root go on hanging from it (`Tree`).
-/
import Lox.Proofs.Heap.Reach

namespace Lox

/-! ## Heaps that keep what there is -/

/-- The second frame has the parent of the first, and binds all names that the first does. -/
structure Frame.Keeps (frame frame' : Frame) : Prop where
  parent : frame'.parent = frame.parent
  bound : ∀ name, (frame.bindings.get? name).isSome → (frame'.bindings.get? name).isSome

/-- The second instance is of the class of the first, and has all fields that the first has. -/
structure Instance.Keeps (inst inst' : Instance) : Prop where
  cls : inst'.cls = inst.cls
  fields : ∀ name, (inst.fields.get? name).isSome → (inst'.fields.get? name).isSome

theorem Frame.Keeps.refl (frame : Frame) : frame.Keeps frame := ⟨rfl, fun _ => id⟩

theorem Instance.Keeps.refl (inst : Instance) : inst.Keeps inst := ⟨rfl, fun _ => id⟩

namespace Heap

/-- What has been made in the first heap is there in the second. A frame has the parent it was made with,
a function is the same declaration in the same frame, a class has its name and an instance its class;
names that are bound stay bound, and fields that are set stay set. -/
structure Keeps (h h' : Heap) : Prop where
  frames : ∀ f frame, h.frame? f = some frame →
    ∃ frame', h'.frame? f = some frame' ∧ frame.Keeps frame'
  functions : ∀ f c, h.function? f = some c → h'.function? f = some c
  classes : ∀ c : ClassRef, ∀ name, h.classes[c.index]? = some name → h'.classes[c.index]? = some name
  instances : ∀ i inst, h.instance? i = some inst →
    ∃ inst', h'.instance? i = some inst' ∧ inst.Keeps inst'

variable {h h' h'' : Heap}

/-- What is found in an array is still found there when one more is pushed. -/
theorem getElem?_push_of_some {α : Type} {xs : Array α} {i : Nat} {x : α} (found : xs[i]? = some x)
    (y : α) : (xs.push y)[i]? = some x := by
  have inside : i < xs.size := (Array.getElem?_eq_some_iff.1 found).1
  rw [Array.getElem?_push, if_neg (Nat.ne_of_lt inside), found]

namespace Keeps

theorem refl (h : Heap) : h.Keeps h where
  frames _ frame found := ⟨frame, found, .refl frame⟩
  functions _ _ := id
  classes _ _ := id
  instances _ inst found := ⟨inst, found, .refl inst⟩

theorem trans (k : h.Keeps h') (k' : h'.Keeps h'') : h.Keeps h'' where
  frames f frame found := by
    obtain ⟨frame', found', first⟩ := k.frames f frame found
    obtain ⟨frame'', found'', second⟩ := k'.frames f frame' found'
    exact ⟨frame'', found'', second.parent.trans first.parent,
      fun name bound => second.bound name (first.bound name bound)⟩
  functions f c found := k'.functions f c (k.functions f c found)
  classes c name found := k'.classes c name (k.classes c name found)
  instances i inst found := by
    obtain ⟨inst', found', first⟩ := k.instances i inst found
    obtain ⟨inst'', found'', second⟩ := k'.instances i inst' found'
    exact ⟨inst'', found'', second.cls.trans first.cls,
      fun name set => second.fields name (first.fields name set)⟩

theorem define (h : Heap) (f : FrameRef) (name : String) (v : Value) : h.Keeps (h.define f name v) :=
  { refl h with
    frames := fun g frame found => by
      rw [frame?_define, found]
      split
      · refine ⟨_, rfl, rfl, fun m bound => ?_⟩
        exact (Bindings.isSome_get?_put ..).2 (.inr bound)
      · exact ⟨frame, rfl, .refl frame⟩ }

theorem newFrame (h : Heap) (parent : Option FrameRef) (bindings : Bindings Value) :
    h.Keeps (h.newFrame parent bindings).2 :=
  { refl h with frames := fun _ frame found => ⟨frame, getElem?_push_of_some found _, .refl frame⟩ }

theorem newFunction (h : Heap) (c : Closure) : h.Keeps (h.newFunction c).2 :=
  { refl h with functions := fun _ _ found => getElem?_push_of_some found _ }

theorem newClass (h : Heap) (name : String) : h.Keeps (h.newClass name).2 :=
  { refl h with classes := fun _ _ found => getElem?_push_of_some found _ }

theorem newInstance (h : Heap) (cls : ClassRef) : h.Keeps (h.newInstance cls).2 :=
  { refl h with instances := fun _ inst found => ⟨inst, getElem?_push_of_some found _, .refl inst⟩ }

theorem setField (h : Heap) (i : InstanceRef) (name : String) (v : Value) :
    h.Keeps (h.setField i name v) :=
  { refl h with
    instances := fun j inst found => by
      rw [instance?_setField, found]
      split
      · refine ⟨_, rfl, rfl, fun m set => ?_⟩
        exact (Bindings.isSome_get?_put ..).2 (.inr set)
      · exact ⟨inst, rfl, .refl inst⟩ }

theorem has_frame (k : h.Keeps h') {f : FrameRef} (made : h.Has (.frame f)) : h'.Has (.frame f) := by
  obtain ⟨frame', found, -⟩ := k.frames f _ (Array.getElem?_eq_getElem made)
  exact (Array.getElem?_eq_some_iff.1 found).1

theorem parent? (k : h.Keeps h') {f p : FrameRef} (up : h.parent? f = some p) :
    h'.parent? f = some p := by
  have made : f.index < h.frames.size := lt_of_parent? up
  obtain ⟨frame', found', same⟩ := k.frames f _ (Array.getElem?_eq_getElem made)
  have stored : (h'.frame? f).bind (·.parent) = (h.frame? f).bind (·.parent) := by
    rw [found', frame?, Array.getElem?_eq_getElem made]
    exact same.parent
  rwa [Heap.parent?, stored]

/-- The way along the links is the same. -/
theorem ancestor? (k : h.Keeps h') {f g : FrameRef} {n : Nat} (way : h.ancestor? f n = some g) :
    h'.ancestor? f n = some g := by
  induction n generalizing f with
  | zero => exact way
  | succ n ih =>
    cases up : h.parent? f with
    | none =>
      rw [Heap.ancestor?, up] at way
      cases way
    | some p =>
      rw [ancestor?_succ up] at way
      rw [ancestor?_succ (k.parent? up)]
      exact ih way

end Keeps

/-! ## What evaluation makes of a heap -/

/-- What can become of a heap while the evaluation is in a frame: names are bound and fields set,
functions that keep this frame are made, classes and instances, and frames that are linked to this one or
to one that a function keeps. -/
inductive Develops (current : FrameRef) (h : Heap) : Heap → Prop
  | refl : Develops current h h
  | define {h' : Heap} (before : Develops current h h') (f : FrameRef) (name : String) (v : Value) :
    Develops current h (h'.define f name v)
  | newFrame {h' : Heap} (before : Develops current h h') {p : FrameRef}
    (known : p = current ∨ ∃ f c, h'.function? f = some c ∧ c.frame = p) (bindings : Bindings Value) :
    Develops current h (h'.newFrame (some p) bindings).2
  | newFunction {h' : Heap} (before : Develops current h h') (decl : Function) :
    Develops current h (h'.newFunction ⟨decl, current⟩).2
  | newClass {h' : Heap} (before : Develops current h h') (name : String) :
    Develops current h (h'.newClass name).2
  | newInstance {h' : Heap} (before : Develops current h h') (cls : ClassRef) :
    Develops current h (h'.newInstance cls).2
  | setField {h' : Heap} (before : Develops current h h') (i : InstanceRef) (name : String) (v : Value) :
    Develops current h (h'.setField i name v)

/-- Nothing that has been made is lost. -/
theorem Develops.keeps {current : FrameRef} (develops : Develops current h h') : h.Keeps h' := by
  induction develops with
  | refl => exact .refl h
  | define _ f name v ih => exact ih.trans (.define ..)
  | newFrame _ _ bindings ih => exact ih.trans (.newFrame ..)
  | newFunction _ decl ih => exact ih.trans (.newFunction ..)
  | newClass _ name ih => exact ih.trans (.newClass ..)
  | newInstance _ cls ih => exact ih.trans (.newInstance ..)
  | setField _ i name v ih => exact ih.trans (.setField ..)

/-! ## Trees of frames -/

/-- All frames hang from the root: it has no parent, the links lead to it from every frame in a number of
steps, and the frames that functions keep are among them. -/
structure Tree (h : Heap) (root : FrameRef) : Prop where
  top : ∃ frame, h.frame? root = some frame ∧ frame.parent = none
  leads : ∀ f, h.Has (.frame f) → ∃ n, h.ancestor? f n = some root
  captured : ∀ f c, h.function? f = some c → h.Has (.frame c.frame)

namespace Tree

variable {root : FrameRef}

/-- A heap with the frames and functions of a tree, all of them as they were, is a tree. -/
theorem of_keeps (tree : h.Tree root) (k : h.Keeps h')
    (frames : ∀ f, h'.Has (.frame f) → h.Has (.frame f))
    (functions : ∀ f c, h'.function? f = some c → h.Has (.frame c.frame)) : h'.Tree root where
  top := by
    obtain ⟨frame, found, none⟩ := tree.top
    obtain ⟨frame', found', same⟩ := k.frames root frame found
    exact ⟨frame', found', same.parent.trans none⟩
  leads f made := by
    obtain ⟨n, way⟩ := tree.leads f (frames f made)
    exact ⟨n, k.ancestor? way⟩
  captured f c found := k.has_frame (functions f c found)

theorem define (tree : h.Tree root) (f : FrameRef) (name : String) (v : Value) :
    (h.define f name v).Tree root :=
  tree.of_keeps (.define ..) (fun g made => by rwa [Has, size_define] at made) tree.captured

theorem newFunction (tree : h.Tree root) {c : Closure} (made : h.Has (.frame c.frame)) :
    (h.newFunction c).2.Tree root := by
  refine tree.of_keeps (.newFunction ..) (fun _ => id) fun f c' found => ?_
  rw [function?_newFunction] at found
  split at found
  · cases found
    exact made
  · exact tree.captured f c' found

/-- A frame that is linked to one of the tree is one more of it. -/
theorem newFrame (tree : h.Tree root) {p : FrameRef} (made : h.Has (.frame p))
    (bindings : Bindings Value) : (h.newFrame (some p) bindings).2.Tree root where
  top := by
    obtain ⟨frame, found, none⟩ := tree.top
    exact ⟨frame, getElem?_push_of_some found _, none⟩
  leads f made' := by
    have keeps : h.Keeps (h.newFrame (some p) bindings).2 := .newFrame ..
    have size : (h.newFrame (some p) bindings).2.frames.size = h.frames.size + 1 := Array.size_push _
    have inside : f.index < h.frames.size + 1 := size ▸ made'
    by_cases new : f.index = h.frames.size
    · obtain rfl : f = (h.newFrame (some p) bindings).1 := by
        cases f
        cases new
        rfl
      obtain ⟨n, way⟩ := tree.leads p made
      refine ⟨n + 1, ?_⟩
      rw [ancestor?_succ (parent?_newFrame_self made bindings)]
      exact keeps.ancestor? way
    · have older : f.index < h.frames.size := by omega
      obtain ⟨n, way⟩ := tree.leads f older
      exact ⟨n, keeps.ancestor? way⟩
  captured f c found := (Keeps.newFrame h (some p) bindings).has_frame (tree.captured f c found)

/-- Evaluation in a frame of the tree leaves a tree. -/
theorem develop (tree : h.Tree root) {current : FrameRef} (made : h.Has (.frame current))
    (develops : Develops current h h') : h'.Tree root := by
  induction develops with
  | refl => exact tree
  | define _ f name v ih => exact ih.define f name v
  | newFrame before known bindings ih =>
    rcases known with rfl | ⟨f, c, found, rfl⟩
    · exact ih.newFrame (before.keeps.has_frame made) bindings
    · exact ih.newFrame (ih.captured f c found) bindings
  | newFunction before decl ih => exact ih.newFunction (before.keeps.has_frame made)
  | newClass _ name ih => exact ih.of_keeps (.newClass ..) (fun _ => id) ih.captured
  | newInstance _ cls ih => exact ih.of_keeps (.newInstance ..) (fun _ => id) ih.captured
  | setField _ i name v ih => exact ih.of_keeps (.setField ..) (fun _ => id) ih.captured

end Tree

end Heap

end Lox
