/-
What can be got to in a heap. Frames, functions and instances are the cells that hold values, and a
link leads from one to another: to a frame's parent, to the frame that a function keeps, to what a
name or a field is bound to (`Link`). What links lead to from some cells is `Reachable` from them.

A region of cells that no link leads out of, and that all cells still to be made belong to, is kept by
every operation on it (`Closed`). The cells outside keep their contents (`Spares`), and what they hold
makes no difference inside (`Agrees`).
-/
import Lox.Proofs.Heap.Frames
import Mathlib.Logic.Relation

namespace Lox

/-! ## Cells and links -/

/-- A place of the heap that holds values. -/
inductive Cell
  | frame (f : FrameRef)
  | function (f : FunctionRef)
  | «instance» (i : InstanceRef)

/-- The cell that a value refers to. Classes have a name only. -/
def Value.cell? : Value → Option Cell
  | .function f => some (.function f)
  | .instance i => some (.instance i)
  | _ => none

namespace Heap

inductive Link (h : Heap) : Cell → Cell → Prop
  | parent {f p : FrameRef} : h.parent? f = some p → Link h (.frame f) (.frame p)
  | bound {f : FrameRef} {name : String} {v : Value} {c : Cell} : h.get? f name = some v →
    v.cell? = some c → Link h (.frame f) c
  | captured {f : FunctionRef} {closure : Closure} : h.function? f = some closure →
    Link h (.function f) (.frame closure.frame)
  | field {i : InstanceRef} {name : String} {v : Value} {c : Cell} : h.field? i name = some v →
    v.cell? = some c → Link h (.instance i) c

/-- Links lead from one of the roots to the cell. -/
def Reachable (h : Heap) (roots : List Cell) (c : Cell) : Prop :=
  ∃ root ∈ roots, Relation.ReflTransGen h.Link root c

/-- The cell has been made. -/
def Has (h : Heap) : Cell → Prop
  | .frame f => f.index < h.frames.size
  | .function f => f.index < h.functions.size
  | .instance i => i.index < h.instances.size

theorem reachable_root {h : Heap} {roots : List Cell} {c : Cell} (mem : c ∈ roots) :
    h.Reachable roots c := ⟨c, mem, .refl⟩

theorem Reachable.link {h : Heap} {roots : List Cell} {c c' : Cell} (reachable : h.Reachable roots c)
    (link : h.Link c c') : h.Reachable roots c' := by
  obtain ⟨root, mem, path⟩ := reachable
  exact ⟨root, mem, path.tail link⟩

/-- Nothing leads on from a cell that has not been made. -/
theorem Link.has {h : Heap} {c c' : Cell} (link : h.Link c c') : h.Has c := by
  cases link with
  | parent hp => exact lt_of_parent? hp
  | bound hb _ => exact lt_of_get? (Option.isSome_of_mem hb)
  | captured hf => exact (Array.getElem?_eq_some_iff.1 hf).1
  | @field i name v _ hv _ =>
    cases hi : h.instance? i with
    | none =>
      rw [field?, hi] at hv
      cases hv
    | some inst => exact (Array.getElem?_eq_some_iff.1 hi).1

end Heap

/-! ## Regions -/

/-- What the value refers to is in the region. -/
def Value.Within (R : Cell → Prop) (v : Value) : Prop := ∀ c, v.cell? = some c → R c

/-- A value that refers to nothing is in every region. -/
theorem within_none {R : Cell → Prop} : ∀ c, (none : Option Cell) = some c → R c := by
  rintro c ⟨⟩

theorem within_empty {R : Cell → Prop} :
    ∀ name v, (Bindings.empty : Bindings Value).get? name = some v → v.Within R := by
  rintro name v ⟨⟩

namespace Heap

/-- No link leads out of the region, and all that is still to be made belongs to it. -/
structure Closed (h : Heap) (R : Cell → Prop) : Prop where
  link : ∀ {c c'}, R c → h.Link c c' → R c'
  new : ∀ c, ¬h.Has c → R c

/-- Outside of the region the second heap is as the first. -/
structure Spares (R : Cell → Prop) (h h' : Heap) : Prop where
  frames : ∀ f, ¬R (.frame f) → h'.frame? f = h.frame? f
  functions : ∀ f, ¬R (.function f) → h'.function? f = h.function? f
  instances : ∀ i, ¬R (.instance i) → h'.instance? i = h.instance? i

/-- In the region the second heap is as the first, and as many cells have been made. -/
structure Agrees (R : Cell → Prop) (h h' : Heap) : Prop where
  frameCount : h'.frames.size = h.frames.size
  functionCount : h'.functions.size = h.functions.size
  instanceCount : h'.instances.size = h.instances.size
  classes : h'.classes = h.classes
  frames : ∀ f, R (.frame f) → h'.frame? f = h.frame? f
  functions : ∀ f, R (.function f) → h'.function? f = h.function? f
  instances : ∀ i, R (.instance i) → h'.instance? i = h.instance? i

section

variable {R : Cell → Prop} {h h' h'' : Heap}

theorem Closed.reachable (closed : h.Closed R) {roots : List Cell} (within : ∀ c ∈ roots, R c)
    {c : Cell} (reachable : h.Reachable roots c) : R c := by
  obtain ⟨root, mem, path⟩ := reachable
  induction path with
  | refl => exact within root mem
  | tail _ link ih => exact closed.link ih link

/-- What can be reached from the roots, or is still to be made. -/
def Touchable (h : Heap) (roots : List Cell) (c : Cell) : Prop := h.Reachable roots c ∨ ¬h.Has c

theorem closed_touchable (h : Heap) (roots : List Cell) : h.Closed (h.Touchable roots) where
  link inside link := .inl (inside.elim (·.link link) fun new => absurd link.has new)
  new _ := .inr

/-- Cells that cannot be reached from the roots are as they were in the second heap, and are not reached
in it from the roots that there are then. -/
structure Confined (h : Heap) (roots : List Cell) (h' : Heap) (roots' : List Cell) : Prop where
  frames : ∀ f, h.Has (.frame f) → ¬h.Reachable roots (.frame f) →
    h'.frame? f = h.frame? f ∧ ¬h'.Reachable roots' (.frame f)
  instances : ∀ i, h.Has (.instance i) → ¬h.Reachable roots (.instance i) →
    h'.instance? i = h.instance? i ∧ ¬h'.Reachable roots' (.instance i)

theorem Spares.confined {roots roots' : List Cell} (spares : Spares (h.Touchable roots) h h')
    (closed : h'.Closed (h.Touchable roots)) (within : ∀ c ∈ roots', h.Touchable roots c) :
    h.Confined roots h' roots' := by
  have apart : ∀ c, h.Has c → ¬h.Reachable roots c → ¬h.Touchable roots c :=
    fun c has unreachable => not_or.2 ⟨unreachable, fun new => new has⟩
  exact ⟨fun f has unreachable => ⟨spares.frames f (apart _ has unreachable),
      fun reachable => apart _ has unreachable (closed.reachable within reachable)⟩,
    fun i has unreachable => ⟨spares.instances i (apart _ has unreachable),
      fun reachable => apart _ has unreachable (closed.reachable within reachable)⟩⟩

theorem Agrees.refl (R : Cell → Prop) (h : Heap) : Agrees R h h :=
  ⟨rfl, rfl, rfl, rfl, fun _ _ => rfl, fun _ _ => rfl, fun _ _ => rfl⟩

theorem Agrees.symm (agrees : Agrees R h h') : Agrees R h' h :=
  ⟨agrees.frameCount.symm, agrees.functionCount.symm, agrees.instanceCount.symm,
    agrees.classes.symm, fun f hf => (agrees.frames f hf).symm,
    fun f hf => (agrees.functions f hf).symm, fun i hi => (agrees.instances i hi).symm⟩

/-- Cells that have not been made are the same in both heaps. -/
theorem Agrees.touchable {roots : List Cell} (agrees : Agrees (h.Reachable roots) h h') :
    Agrees (h.Touchable roots) h h' := by
  refine ⟨agrees.frameCount, agrees.functionCount, agrees.instanceCount, agrees.classes, ?_, ?_, ?_⟩
  · rintro f (reachable | new)
    · exact agrees.frames f reachable
    · rw [frame?, frame?, Array.getElem?_eq_none (Nat.le_of_not_lt new),
        Array.getElem?_eq_none (Nat.le_of_not_lt (agrees.frameCount ▸ new))]
  · rintro f (reachable | new)
    · exact agrees.functions f reachable
    · rw [function?, function?, Array.getElem?_eq_none (Nat.le_of_not_lt new),
        Array.getElem?_eq_none (Nat.le_of_not_lt (agrees.functionCount ▸ new))]
  · rintro i (reachable | new)
    · exact agrees.instances i reachable
    · rw [instance?, instance?, Array.getElem?_eq_none (Nat.le_of_not_lt new),
        Array.getElem?_eq_none (Nat.le_of_not_lt (agrees.instanceCount ▸ new))]

theorem Spares.refl (R : Cell → Prop) (h : Heap) : Spares R h h :=
  ⟨fun _ _ => rfl, fun _ _ => rfl, fun _ _ => rfl⟩

theorem Spares.trans (s : Spares R h h') (s' : Spares R h' h'') : Spares R h h'' :=
  ⟨fun f hf => (s'.frames f hf).trans (s.frames f hf),
    fun f hf => (s'.functions f hf).trans (s.functions f hf),
    fun i hi => (s'.instances i hi).trans (s.instances i hi)⟩

end

/-! ## Looking things up -/

section

variable {R : Cell → Prop} {h h' : Heap} {f : FrameRef} {name : String}

namespace Agrees

theorem has (agrees : Agrees R h h') (c : Cell) : h'.Has c ↔ h.Has c := by
  cases c with
  | frame f => rw [Has, Has, agrees.frameCount]
  | function f => rw [Has, Has, agrees.functionCount]
  | «instance» i => rw [Has, Has, agrees.instanceCount]

theorem parent? (agrees : Agrees R h h') (hf : R (.frame f)) : h'.parent? f = h.parent? f := by
  rw [Heap.parent?, Heap.parent?, agrees.frames f hf]

theorem get? (agrees : Agrees R h h') (hf : R (.frame f)) : h'.get? f name = h.get? f name := by
  rw [Heap.get?, Heap.get?, agrees.frames f hf]

theorem field? (agrees : Agrees R h h') {i : InstanceRef} (hi : R (.instance i)) :
    h'.field? i name = h.field? i name := by
  rw [Heap.field?, Heap.field?, agrees.instances i hi]

/-- The other heap's links in the region are the same. -/
theorem closed (agrees : Agrees R h h') (closed : h.Closed R) : h'.Closed R where
  link inside link := by
    cases link with
    | parent hp => exact closed.link inside (.parent (agrees.parent? inside ▸ hp))
    | bound hb cell => exact closed.link inside (.bound (agrees.get? inside ▸ hb) cell)
    | captured hc => exact closed.link inside (.captured (agrees.functions _ inside ▸ hc))
    | field hv cell => exact closed.link inside (.field (agrees.field? inside ▸ hv) cell)
  new c new := closed.new c fun made => new ((agrees.has c).2 made)

end Agrees

/-- A name is searched in the region only, and found in it. -/
theorem Closed.owner? (closed : h.Closed R) (agrees : Agrees R h h') (hf : R (.frame f))
    (name : String) :
    h'.owner? f name = h.owner? f name ∧ ∀ g, h.owner? f name = some g → R (.frame g) := by
  fun_induction Heap.owner? h f name with
  | case1 f bound =>
    rw [← agrees.get? hf] at bound
    refine ⟨by rw [Heap.owner?, if_pos bound], ?_⟩
    rintro g ⟨⟩
    exact hf
  | case2 f bound p hp ih =>
    obtain ⟨same, inside⟩ := ih (closed.link hf (.parent hp))
    refine ⟨?_, inside⟩
    rw [← agrees.get? hf] at bound
    rw [← agrees.parent? hf] at hp
    rw [Heap.owner?, if_neg bound]
    split
    · rename_i q hq
      rw [hp] at hq
      cases hq
      exact same
    · rename_i hq
      rw [hp] at hq
      cases hq
  | case3 f bound hp =>
    refine ⟨?_, by rintro g ⟨⟩⟩
    rw [← agrees.get? hf] at bound
    rw [← agrees.parent? hf] at hp
    rw [Heap.owner?, if_neg bound]
    split
    · rename_i q hq
      rw [hp] at hq
      cases hq
    · rfl

theorem Closed.ancestor? (closed : h.Closed R) (agrees : Agrees R h h') (hf : R (.frame f)) (d : Nat) :
    h'.ancestor? f d = h.ancestor? f d ∧ ∀ g, h.ancestor? f d = some g → R (.frame g) := by
  induction d generalizing f with
  | zero =>
    refine ⟨rfl, ?_⟩
    rintro g ⟨⟩
    exact hf
  | succ d ih =>
    simp only [Heap.ancestor?, agrees.parent? hf]
    cases hp : h.parent? f with
    | none => exact ⟨rfl, by rintro g ⟨⟩⟩
    | some p => exact ih (closed.link hf (.parent hp))

theorem Closed.ownerAt? (closed : h.Closed R) (agrees : Agrees R h h') (hf : R (.frame f)) (d : Nat)
    (name : String) :
    h'.ownerAt? f d name = h.ownerAt? f d name ∧
      ∀ g, h.ownerAt? f d name = some g → R (.frame g) := by
  obtain ⟨same, inside⟩ := closed.ancestor? agrees hf d
  simp only [Heap.ownerAt?, same]
  cases ha : h.ancestor? f d with
  | none => exact ⟨rfl, by rintro g ⟨⟩⟩
  | some g =>
    have owner := inside g ha
    simp only [agrees.get? owner]
    refine ⟨trivial, fun g' found => ?_⟩
    split at found
    · cases found
      exact owner
    · cases found

/-- The text of a value of the region is found in it. -/
theorem Agrees.text (agrees : Agrees R h h') {v : Value} (within : v.Within R) :
    h'.text v = h.text v := by
  cases v with
  | function f => simp only [Heap.text, functionName, agrees.functions f (within _ rfl)]
  | «instance» i =>
    simp only [Heap.text, instanceClassName, className, agrees.instances i (within _ rfl),
      agrees.classes]
  | «class» c => simp only [Heap.text, className, agrees.classes]
  | bool b => cases b <;> rfl
  | _ => rfl

end

/-! ## Binding names and setting fields -/

section

variable {R : Cell → Prop} {h h' : Heap} {f : FrameRef} {i : InstanceRef} {name : String} {v : Value}

theorem Closed.define (closed : h.Closed R) (within : v.Within R) : (h.define f name v).Closed R where
  link inside link := by
    cases link with
    | parent hp =>
      rw [parent?_define] at hp
      exact closed.link inside (.parent hp)
    | bound hb cell =>
      rw [get?_define] at hb
      split at hb
      · obtain ⟨-, -, rfl⟩ := Option.map_eq_some_iff.1 hb
        exact within _ cell
      · exact closed.link inside (.bound hb cell)
    | captured hc => exact closed.link inside (.captured hc)
    | field hv cell => exact closed.link inside (.field hv cell)
  new c new := closed.new c fun made => new <| by
    cases c with
    | frame f => rwa [Has, size_define]
    | _ => exact made

theorem spares_define (hf : R (.frame f)) : Spares R h (h.define f name v) where
  frames g hg := by
    rw [frame?_define, if_neg]
    rintro rfl
    exact hg hf
  functions _ _ := rfl
  instances _ _ := rfl

theorem Agrees.define (agrees : Agrees R h h') :
    Agrees R (h.define f name v) (h'.define f name v) where
  frameCount := by rw [size_define, size_define, agrees.frameCount]
  functionCount := agrees.functionCount
  instanceCount := agrees.instanceCount
  classes := agrees.classes
  frames g hg := by
    rw [frame?_define, frame?_define, agrees.frames g hg]
  functions := agrees.functions
  instances := agrees.instances

theorem instance?_setField (h : Heap) (i j : InstanceRef) (name : String) (v : Value) :
    (h.setField i name v).instance? j =
      if j = i then (h.instance? j).map fun inst =>
        { inst with fields := inst.fields.put name v }
      else h.instance? j := by
  obtain ⟨i⟩ := i
  obtain ⟨j⟩ := j
  simp only [setField, instance?, Array.getElem?_modify, InstanceRef.mk.injEq]
  by_cases hij : i = j
  · rw [if_pos hij, if_pos hij.symm]
  · rw [if_neg hij, if_neg (Ne.symm hij)]

theorem field?_setField (h : Heap) (i j : InstanceRef) (name m : String) (v : Value) :
    (h.setField i name v).field? j m =
      if j = i ∧ m = name then (h.instance? i).map fun _ => v else h.field? j m := by
  rw [field?, instance?_setField, field?]
  by_cases hj : j = i
  · subst hj
    rw [if_pos rfl]
    cases h.instance? j with
    | none => split <;> rfl
    | some inst => simp only [Option.map_some, Option.bind_some, Bindings.get?_put, true_and]
  · rw [if_neg hj, if_neg fun hm => hj hm.1]

theorem size_setField (h : Heap) (i : InstanceRef) (name : String) (v : Value) :
    (h.setField i name v).instances.size = h.instances.size := Array.size_modify ..

theorem Closed.setField (closed : h.Closed R) (within : v.Within R) :
    (h.setField i name v).Closed R where
  link inside link := by
    cases link with
    | parent hp => exact closed.link inside (.parent hp)
    | bound hb cell => exact closed.link inside (.bound hb cell)
    | captured hc => exact closed.link inside (.captured hc)
    | field hv cell =>
      rw [field?_setField] at hv
      split at hv
      · obtain ⟨-, -, rfl⟩ := Option.map_eq_some_iff.1 hv
        exact within _ cell
      · exact closed.link inside (.field hv cell)
  new c new := closed.new c fun made => new <| by
    cases c with
    | «instance» i => rwa [Has, size_setField]
    | _ => exact made

theorem spares_setField (hi : R (.instance i)) : Spares R h (h.setField i name v) where
  frames _ _ := rfl
  functions _ _ := rfl
  instances j hj := by
    rw [instance?_setField, if_neg]
    rintro rfl
    exact hj hi

theorem Agrees.setField (agrees : Agrees R h h') :
    Agrees R (h.setField i name v) (h'.setField i name v) where
  frameCount := agrees.frameCount
  functionCount := agrees.functionCount
  instanceCount := by rw [size_setField, size_setField, agrees.instanceCount]
  classes := agrees.classes
  frames := agrees.frames
  functions := agrees.functions
  instances j hj := by
    rw [instance?_setField, instance?_setField, agrees.instances j hj]

end

/-! ## Making cells -/

section

variable {R : Cell → Prop} {h h' : Heap} {p : FrameRef} {bindings : Bindings Value} {c : Closure}
  {cls : ClassRef}

theorem Closed.newFrame (closed : h.Closed R) (hp : R (.frame p))
    (within : ∀ name v, bindings.get? name = some v → v.Within R) :
    (h.newFrame (some p) bindings).2.Closed R where
  link inside link := by
    cases link with
    | @parent f q hq =>
      by_cases new : f.index = h.frames.size
      · rw [Heap.parent?, frame?_newFrame, if_pos new] at hq
        simp only [Option.bind_some] at hq
        split at hq
        · cases hq
          exact hp
        · cases hq
      · rw [Heap.parent?, frame?_newFrame, if_neg new, ← Heap.parent?] at hq
        exact closed.link inside (.parent hq)
    | @bound f name v _ hb cell =>
      rw [Heap.get?, frame?_newFrame] at hb
      split at hb
      · exact within name v hb _ cell
      · exact closed.link inside (.bound hb cell)
    | captured hc => exact closed.link inside (.captured hc)
    | field hv cell => exact closed.link inside (.field hv cell)
  new c new := closed.new c fun made => new <| by
    cases c with
    | frame f => exact Nat.lt_of_lt_of_eq (Nat.lt_succ_of_lt made) (Array.size_push _).symm
    | _ => exact made

theorem Closed.spares_newFrame (closed : h.Closed R) :
    Spares R h (h.newFrame (some p) bindings).2 where
  frames g hg := by
    rw [frame?_newFrame, if_neg]
    exact fun same => hg (closed.new _ (Nat.not_lt_of_ge (Nat.le_of_eq same.symm)))
  functions _ _ := rfl
  instances _ _ := rfl

theorem Agrees.newFrame (agrees : Agrees R h h') :
    Agrees R (h.newFrame (some p) bindings).2 (h'.newFrame (some p) bindings).2 where
  frameCount := by simp [Heap.newFrame, agrees.frameCount]
  functionCount := agrees.functionCount
  instanceCount := agrees.instanceCount
  classes := agrees.classes
  frames g hg := by
    rw [frame?_newFrame, frame?_newFrame, agrees.frameCount, agrees.frames g hg]
  functions := agrees.functions
  instances := agrees.instances

namespace Agrees

/-- What is made has the same number in both heaps. -/
theorem newFunction_fst (agrees : Agrees R h h') : (h'.newFunction c).1 = (h.newFunction c).1 := by
  simp [Heap.newFunction, agrees.functionCount]

theorem newClass_fst (agrees : Agrees R h h') (name : String) :
    (h'.newClass name).1 = (h.newClass name).1 := by
  simp [Heap.newClass, agrees.classes]

theorem newInstance_fst (agrees : Agrees R h h') : (h'.newInstance cls).1 = (h.newInstance cls).1 := by
  simp [Heap.newInstance, agrees.instanceCount]

end Agrees

theorem function?_newFunction (h : Heap) (c : Closure) (f : FunctionRef) :
    (h.newFunction c).2.function? f =
      if f.index = h.functions.size then some c else h.function? f := by
  simp only [newFunction, function?, Array.getElem?_push]

theorem Closed.newFunction (closed : h.Closed R) (hc : R (.frame c.frame)) :
    (h.newFunction c).2.Closed R where
  link inside link := by
    cases link with
    | parent hp => exact closed.link inside (.parent hp)
    | bound hb cell => exact closed.link inside (.bound hb cell)
    | captured hc' =>
      rw [function?_newFunction] at hc'
      split at hc'
      · cases hc'
        exact hc
      · exact closed.link inside (.captured hc')
    | field hv cell => exact closed.link inside (.field hv cell)
  new c new := closed.new c fun made => new <| by
    cases c with
    | function f => exact Nat.lt_of_lt_of_eq (Nat.lt_succ_of_lt made) (Array.size_push _).symm
    | _ => exact made

theorem Closed.new_function (closed : h.Closed R) : (h.newFunction c).1.Within R := by
  rintro _ ⟨⟩
  exact closed.new _ (Nat.lt_irrefl _)

theorem Closed.spares_newFunction (closed : h.Closed R) : Spares R h (h.newFunction c).2 where
  frames _ _ := rfl
  functions f hf := by
    rw [function?_newFunction, if_neg]
    exact fun same => hf (closed.new _ (Nat.not_lt_of_ge (Nat.le_of_eq same.symm)))
  instances _ _ := rfl

theorem Agrees.newFunction (agrees : Agrees R h h') :
    Agrees R (h.newFunction c).2 (h'.newFunction c).2 where
  frameCount := agrees.frameCount
  functionCount := by simp [Heap.newFunction, agrees.functionCount]
  instanceCount := agrees.instanceCount
  classes := agrees.classes
  frames := agrees.frames
  functions f hf := by
    rw [function?_newFunction, function?_newFunction, agrees.functionCount, agrees.functions f hf]
  instances := agrees.instances

theorem instance?_newInstance (h : Heap) (cls : ClassRef) (i : InstanceRef) :
    (h.newInstance cls).2.instance? i =
      if i.index = h.instances.size then some ⟨cls, .empty⟩ else h.instance? i := by
  simp only [newInstance, instance?, Array.getElem?_push]

theorem Closed.newInstance (closed : h.Closed R) : (h.newInstance cls).2.Closed R where
  link inside link := by
    cases link with
    | parent hp => exact closed.link inside (.parent hp)
    | bound hb cell => exact closed.link inside (.bound hb cell)
    | captured hc => exact closed.link inside (.captured hc)
    | field hv cell =>
      rw [field?, instance?_newInstance] at hv
      split at hv
      · cases hv
      · exact closed.link inside (.field hv cell)
  new c new := closed.new c fun made => new <| by
    cases c with
    | «instance» i => exact Nat.lt_of_lt_of_eq (Nat.lt_succ_of_lt made) (Array.size_push _).symm
    | _ => exact made

theorem Closed.new_instance (closed : h.Closed R) : (h.newInstance cls).1.Within R := by
  rintro _ ⟨⟩
  exact closed.new _ (Nat.lt_irrefl _)

theorem Closed.spares_newInstance (closed : h.Closed R) : Spares R h (h.newInstance cls).2 where
  frames _ _ := rfl
  functions _ _ := rfl
  instances i hi := by
    rw [instance?_newInstance, if_neg]
    exact fun same => hi (closed.new _ (Nat.not_lt_of_ge (Nat.le_of_eq same.symm)))

theorem Agrees.newInstance (agrees : Agrees R h h') :
    Agrees R (h.newInstance cls).2 (h'.newInstance cls).2 where
  frameCount := agrees.frameCount
  functionCount := agrees.functionCount
  instanceCount := by simp [Heap.newInstance, agrees.instanceCount]
  classes := agrees.classes
  frames := agrees.frames
  functions := agrees.functions
  instances i hi := by
    rw [instance?_newInstance, instance?_newInstance, agrees.instanceCount, agrees.instances i hi]

/-- Classes hold no values. -/
theorem Closed.newClass (closed : h.Closed R) (name : String) : (h.newClass name).2.Closed R where
  link inside link := by
    cases link with
    | parent hp => exact closed.link inside (.parent hp)
    | bound hb cell => exact closed.link inside (.bound hb cell)
    | captured hc => exact closed.link inside (.captured hc)
    | field hv cell => exact closed.link inside (.field hv cell)
  new c new := closed.new c fun made => new <| by
    cases c <;> exact made

theorem spares_newClass (h : Heap) (name : String) : Spares R h (h.newClass name).2 :=
  ⟨fun _ _ => rfl, fun _ _ => rfl, fun _ _ => rfl⟩

theorem within_newClass (h : Heap) (name : String) : (h.newClass name).1.Within R := by
  rintro c ⟨⟩

theorem Agrees.newClass (agrees : Agrees R h h') (name : String) :
    Agrees R (h.newClass name).2 (h'.newClass name).2 where
  frameCount := agrees.frameCount
  functionCount := agrees.functionCount
  instanceCount := agrees.instanceCount
  classes := by rw [Heap.newClass, Heap.newClass, agrees.classes]
  frames := agrees.frames
  functions := agrees.functions
  instances := agrees.instances

end

end Heap

end Lox
