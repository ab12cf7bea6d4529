/-
How the frames of a heap change. Frames are only added, links stay, and bindings are added or bound
anew, never taken away (`Heap.Extends`). Each operation says what the frames bind afterwards.
-/
import Lox.Heap

namespace Lox.Heap

/-! ## Frames that stay -/

/-- Heaps with the same frames have the same links and bindings. -/
theorem parent?_congr {h h' : Heap} (same : h.frames = h'.frames) (f : FrameRef) :
    h.parent? f = h'.parent? f := by
  rw [parent?, parent?, frame?, frame?, same]

theorem get?_congr {h h' : Heap} (same : h.frames = h'.frames) (f : FrameRef) (name : String) :
    h.get? f name = h'.get? f name := by
  rw [get?, get?, frame?, frame?, same]

/-- Where a name is bound depends on the frames alone. -/
theorem owner?_congr {h h' : Heap} (same : h.frames = h'.frames) (f : FrameRef) (name : String) :
    h.owner? f name = h'.owner? f name := by
  -- along the links, up to the frame that binds the name
  fun_induction owner? h f name with
  | case1 f hb =>
    rw [get?_congr same] at hb
    rw [owner?, if_pos hb]
  | case2 f hb p hp ih =>
    rw [get?_congr same] at hb
    rw [parent?_congr same] at hp
    rw [ih, eq_comm, owner?, if_neg hb]
    split
    · rename_i q hq
      rw [hp] at hq
      cases hq
      rfl
    · rename_i hq
      rw [hp] at hq
      cases hq
  | case3 f hb hp =>
    rw [get?_congr same] at hb
    rw [parent?_congr same] at hp
    rw [owner?, if_neg hb]
    split
    · rename_i q hq
      rw [hp] at hq
      cases hq
    · rfl

theorem ancestor?_congr {h h' : Heap} (same : h.frames = h'.frames) (f : FrameRef) (d : Nat) :
    h.ancestor? f d = h'.ancestor? f d := by
  induction d generalizing f with
  | zero => rfl
  | succ d ih => simp only [ancestor?, parent?_congr same, ih]

theorem lt_of_parent? {h : Heap} {f p : FrameRef} (hp : h.parent? f = some p) :
    f.index < h.frames.size := by
  unfold parent? at hp
  cases hf : h.frame? f with
  | none =>
    rw [hf] at hp
    cases hp
  | some frame => exact (Array.getElem?_eq_some_iff.1 hf).1

theorem lt_of_get? {h : Heap} {f : FrameRef} {name : String} (hb : (h.get? f name).isSome) :
    f.index < h.frames.size := by
  cases hf : h.frame? f with
  | none =>
    rw [get?, hf] at hb
    cases hb
  | some frame => exact (Array.getElem?_eq_some_iff.1 hf).1

/-! ## Binding a name -/

theorem frame?_define (h : Heap) (f g : FrameRef) (name : String) (v : Value) :
    (h.define f name v).frame? g =
      if g = f then (h.frame? g).map fun frame =>
        { frame with bindings := frame.bindings.put name v }
      else h.frame? g := by
  obtain ⟨i⟩ := f
  obtain ⟨j⟩ := g
  simp only [define, frame?, Array.getElem?_modify, FrameRef.mk.injEq]
  by_cases hij : i = j
  · rw [if_pos hij, if_pos hij.symm]
  · rw [if_neg hij, if_neg (Ne.symm hij)]

/-- Binding a name leaves the links as they are. -/
@[simp] theorem parent?_define (h : Heap) (f g : FrameRef) (name : String) (v : Value) :
    (h.define f name v).parent? g = h.parent? g := by
  have same : ((h.define f name v).frame? g).bind (·.parent) = (h.frame? g).bind (·.parent) := by
    rw [frame?_define]
    split
    · cases h.frame? g <;> rfl
    · rfl
  rw [parent?, parent?, same]

theorem get?_define (h : Heap) (f g : FrameRef) (name m : String) (v : Value) :
    (h.define f name v).get? g m =
      if g = f ∧ m = name then (h.frame? f).map fun _ => v else h.get? g m := by
  rw [get?, frame?_define, get?]
  -- only the frame itself is changed, and in it only the name
  by_cases hg : g = f
  · subst hg
    rw [if_pos rfl]
    cases h.frame? g with
    | none => split <;> rfl
    | some frame =>
      simp only [Option.map_some, Option.bind_some, Bindings.get?_put, true_and]
  · rw [if_neg hg, if_neg fun hm => hg hm.1]

@[simp] theorem size_define (h : Heap) (f : FrameRef) (name : String) (v : Value) :
    (h.define f name v).frames.size = h.frames.size := Array.size_modify ..

/-- A name that was just bound is bound. -/
theorem isSome_get?_define {h : Heap} {f : FrameRef} (hf : f.index < h.frames.size) (name : String)
    (v : Value) : ((h.define f name v).get? f name).isSome := by
  rw [get?_define, if_pos ⟨rfl, rfl⟩, frame?, Array.getElem?_eq_getElem hf]
  rfl

/-- What is bound behind a definition was bound before or is the name that was defined. -/
theorem bound_of_define {h : Heap} {f g : FrameRef} {name m : String} {v : Value}
    (hb : ((h.define f name v).get? g m).isSome) : g = f ∧ m = name ∨ (h.get? g m).isSome := by
  rw [get?_define] at hb
  split at hb
  · exact .inl (by assumption)
  · exact .inr hb

/-! ## Adding a frame -/

theorem frame?_newFrame (h : Heap) (parent : Option FrameRef) (bindings : Bindings Value)
    (f : FrameRef) : (h.newFrame parent bindings).2.frame? f =
      if f.index = h.frames.size then some ⟨parent, bindings⟩ else h.frame? f := by
  simp only [newFrame, frame?, Array.getElem?_push]

/-- The new frame is linked to its parent. -/
theorem parent?_newFrame_self {h : Heap} {p : FrameRef} (hp : p.index < h.frames.size)
    (bindings : Bindings Value) :
    (h.newFrame (some p) bindings).2.parent? (h.newFrame (some p) bindings).1 = some p := by
  rw [parent?, frame?_newFrame, newFrame, if_pos rfl]
  exact if_pos hp

theorem parent?_newFrame {h : Heap} {f : FrameRef} (hf : f.index < h.frames.size)
    (parent : Option FrameRef) (bindings : Bindings Value) :
    (h.newFrame parent bindings).2.parent? f = h.parent? f := by
  rw [parent?, frame?_newFrame, if_neg (Nat.ne_of_lt hf), parent?]

theorem get?_newFrame_self (h : Heap) (parent : Option FrameRef) (bindings : Bindings Value)
    (name : String) :
    (h.newFrame parent bindings).2.get? (h.newFrame parent bindings).1 name =
      bindings.get? name := by
  rw [get?, frame?_newFrame, newFrame, if_pos rfl]
  rfl

theorem get?_newFrame {h : Heap} {f : FrameRef} (hf : f.index ≠ h.frames.size)
    (parent : Option FrameRef) (bindings : Bindings Value) (name : String) :
    (h.newFrame parent bindings).2.get? f name = h.get? f name := by
  rw [get?, frame?_newFrame, if_neg hf, get?]

/-! ## Heaps that extend others -/

/-- Links stay, and what is bound stays bound. -/
structure Extends (h h' : Heap) : Prop where
  parent : ∀ f p, h.parent? f = some p → h'.parent? f = some p
  bound : ∀ f name, (h.get? f name).isSome → (h'.get? f name).isSome

namespace Extends

theorem of_frames {h h' : Heap} (same : h.frames = h'.frames) : Extends h h' :=
  ⟨fun f _ hp => parent?_congr same f ▸ hp, fun f name hb => get?_congr same f name ▸ hb⟩

theorem trans {h h' h'' : Heap} (e : Extends h h') (e' : Extends h' h'') : Extends h h'' :=
  ⟨fun f p hp => e'.parent f p (e.parent f p hp), fun f name hb => e'.bound f name (e.bound f name hb)⟩

theorem define (h : Heap) (f : FrameRef) (name : String) (v : Value) :
    Extends h (h.define f name v) := by
  refine ⟨fun g _ hp => by rwa [parent?_define], fun g m hb => ?_⟩
  rw [get?_define]
  split
  · rename_i hg
    obtain ⟨rfl, -⟩ := hg
    rw [frame?, Array.getElem?_eq_getElem (lt_of_get? hb)]
    rfl
  · exact hb

theorem newFrame (h : Heap) (parent : Option FrameRef) (bindings : Bindings Value) :
    Extends h (h.newFrame parent bindings).2 := by
  refine ⟨fun f p hp => ?_, fun f name hb => ?_⟩
  · rwa [parent?_newFrame (lt_of_parent? hp)]
  · rwa [get?_newFrame (Nat.ne_of_lt (lt_of_get? hb))]

/-- A function is made and bound to a name. -/
theorem newFunction (h : Heap) (c : Closure) (f : FrameRef) (name : String) (v : Value) :
    Extends h ((h.newFunction c).2.define f name v) := by
  have made : Extends h (h.newFunction c).2 := of_frames rfl
  exact made.trans (define ..)

end Extends

/-! ## Frames that bind nothing new -/

/-- Behind a change of the heap, the frames made before the `n`-th bind nothing that they did not
bind. -/
def Quiet (n : Nat) (h h' : Heap) : Prop :=
  ∀ (f : FrameRef) (name : String), f.index < n → (h'.get? f name).isSome → (h.get? f name).isSome

namespace Quiet

variable {n : Nat} {h h' : Heap}

theorem of_frames (same : h.frames = h'.frames) : Quiet n h h' :=
  fun f name _ hb => get?_congr same f name ▸ hb

theorem trans {h'' : Heap} (q : Quiet n h h') (q' : Quiet n h' h'') : Quiet n h h'' :=
  fun f name hf hb => q f name hf (q' f name hf hb)

theorem mono {m : Nat} (q : Quiet n h h') (le : m ≤ n) : Quiet m h h' :=
  fun f name hf => q f name (Nat.lt_of_lt_of_le hf le)

/-- A name is bound in a later frame. -/
theorem define {f : FrameRef} (hf : n ≤ f.index) (name : String) (v : Value) :
    Quiet n h (h.define f name v) := by
  intro g m hg hb
  rcases bound_of_define hb with ⟨rfl, -⟩ | hb
  · exact absurd hg (Nat.not_lt.2 hf)
  · exact hb

/-- A name is bound anew. -/
theorem rebind {f : FrameRef} {name : String} (bound : (h.get? f name).isSome) (v : Value) :
    Quiet n h (h.define f name v) := by
  intro g m _ hb
  rcases bound_of_define hb with ⟨rfl, rfl⟩ | hb
  · exact bound
  · exact hb

theorem newFrame (hn : n ≤ h.frames.size) (parent : Option FrameRef) (bindings : Bindings Value) :
    Quiet n h (h.newFrame parent bindings).2 := by
  intro f name hf hb
  rwa [get?_newFrame (Nat.ne_of_lt (Nat.lt_of_lt_of_le hf hn))] at hb

/-- A function is made and bound to a name of a later frame. -/
theorem newFunction (c : Closure) {f : FrameRef} (hf : n ≤ f.index) (name : String) (v : Value) :
    Quiet n h ((h.newFunction c).2.define f name v) := by
  have made : Quiet n h (h.newFunction c).2 := of_frames rfl
  exact made.trans (define hf name v)

end Quiet

/-! ## Walking along the links -/

theorem ancestor?_succ {h : Heap} {f p : FrameRef} (hp : h.parent? f = some p) (d : Nat) :
    h.ancestor? f (d + 1) = h.ancestor? p d := by
  simp only [ancestor?, hp]

/-- A frame that binds a name is the nearest one that does. -/
theorem owner?_self {h : Heap} {f : FrameRef} {name : String} (hb : (h.get? f name).isSome) :
    h.owner? f name = some f := by
  rw [owner?, if_pos hb]

/-- Without links to follow, a name is looked up in the frame only. -/
theorem owner?_of_root {h : Heap} {f : FrameRef} {name : String} (root : h.parent? f = none) :
    h.owner? f name = if (h.get? f name).isSome then some f else none := by
  rw [owner?]
  split
  · rfl
  · split
    · rename_i p hp
      rw [root] at hp
      cases hp
    · rfl

end Lox.Heap
