/-
Chains of frames as shadowed bindings. A frame is seen from another for a name if the links lead to it
and no frame on the way binds the name (`Sees`); where it binds the name itself, it is the one that the
name is looked up in (`Nearest`). So a binding that is changed is changed for exactly the frames that
see it, a name that is defined is found anew by exactly the frames that see where, and of all that is
done to frames only a definition makes a name found (`chains_shadow`).
-/
import Lox.Proofs.Heap.Frames
import Mathlib.Logic.Relation

namespace Lox

namespace Heap

/-! ## Frames that are seen -/

/-- One link up, from a frame that does not bind the name. -/
def Passes (h : Heap) (name : String) (f p : FrameRef) : Prop :=
  (h.get? f name).isSome = false ∧ h.parent? f = some p

/-- Links lead from the first frame to the second, and none before it binds the name. -/
def Sees (h : Heap) (name : String) : FrameRef → FrameRef → Prop :=
  Relation.ReflTransGen (h.Passes name)

/-- The second frame is the nearest one from the first that binds the name. -/
def Nearest (h : Heap) (name : String) (f g : FrameRef) : Prop :=
  h.Sees name f g ∧ (h.get? g name).isSome

variable {h h' : Heap} {f g e : FrameRef} {name : String}

theorem owner?_of_passes {p : FrameRef} (passes : h.Passes name f p) :
    h.owner? f name = h.owner? p name := by
  obtain ⟨unbound, parent⟩ := passes
  rw [owner?, if_neg (by rw [unbound]; decide)]
  split
  · rename_i q hq
    rw [parent] at hq
    cases hq
    rfl
  · rename_i hq
    rw [parent] at hq
    cases hq

theorem lookup?_of_passes {p : FrameRef} (passes : h.Passes name f p) :
    h.lookup? f name = h.lookup? p name := by
  rw [lookup?, lookup?, owner?_of_passes passes]

theorem lookup?_self (bound : (h.get? f name).isSome) : h.lookup? f name = h.get? f name := by
  rw [lookup?, owner?_self bound]
  rfl

/-- A name is looked up in the nearest frame that binds it. -/
theorem owner?_eq_some_iff : h.owner? f name = some g ↔ h.Nearest name f g := by
  constructor
  · intro owner
    -- along the links, up to the frame that binds the name
    fun_induction owner? h f name with
    | case1 f bound =>
      cases owner
      exact ⟨.refl, bound⟩
    | case2 f unbound p parent ih =>
      obtain ⟨sees, bound⟩ := ih owner
      exact ⟨.head ⟨Bool.eq_false_iff.2 unbound, parent⟩ sees, bound⟩
    | case3 => cases owner
  · rintro ⟨sees, bound⟩
    induction sees using Relation.ReflTransGen.head_induction_on with
    | refl => exact owner?_self bound
    | head passes _ ih => exact (owner?_of_passes passes).trans ih

theorem Nearest.unique (nearest : h.Nearest name f g) (nearest' : h.Nearest name f e) : g = e := by
  have same : some g = some e :=
    (owner?_eq_some_iff.2 nearest).symm.trans (owner?_eq_some_iff.2 nearest')
  exact Option.some.inj same

theorem lookup?_of_sees (sees : h.Sees name f g) : h.lookup? f name = h.lookup? g name := by
  induction sees using Relation.ReflTransGen.head_induction_on with
  | refl => rfl
  | head passes _ ih => exact (lookup?_of_passes passes).trans ih

/-- A name is found in the frame that it is assigned in. -/
theorem isSome_assign? (h : Heap) (f : FrameRef) (name : String) (v : Value) :
    (h.assign? f name v).isSome ↔ (h.lookup? f name).isSome := by
  rw [assign?, lookup?]
  cases owner : h.owner? f name with
  | none => exact Iff.rfl
  | some g =>
    obtain ⟨-, bound⟩ := owner?_eq_some_iff.1 owner
    exact ⟨fun _ => bound, fun _ => rfl⟩

/-- Links lead to older frames. -/
theorem Passes.lt {p : FrameRef} (passes : h.Passes name f p) : p.index < f.index :=
  parent?_lt passes.2

theorem Sees.le (sees : h.Sees name f g) : g.index ≤ f.index := by
  induction sees using Relation.ReflTransGen.head_induction_on with
  | refl => exact Nat.le_refl _
  | head passes _ ih => exact Nat.le_trans ih (Nat.le_of_lt passes.lt)

/-- A look-up depends on the frames seen from where it starts, and on nothing else. -/
theorem lookup?_congr (same : ∀ g, h.Sees name f g →
      h'.parent? g = h.parent? g ∧ h'.get? g name = h.get? g name) :
    h'.lookup? f name = h.lookup? f name := by
  obtain ⟨parent, bound⟩ := same f .refl
  -- along the links of the first heap
  fun_induction owner? h f name with
  | case1 f hb => rw [lookup?_self hb, lookup?_self (bound ▸ hb), bound]
  | case2 f hb p hp ih =>
    have passes : h.Passes name f p := ⟨Bool.eq_false_iff.2 hb, hp⟩
    have passes' : h'.Passes name f p := ⟨bound ▸ passes.1, parent ▸ hp⟩
    have onward : ∀ g, h.Sees name p g →
        h'.parent? g = h.parent? g ∧ h'.get? g name = h.get? g name :=
      fun g sees => same g (.head passes sees)
    rw [lookup?_of_passes passes, lookup?_of_passes passes']
    exact ih onward (onward p .refl).1 (onward p .refl).2
  | case3 f hb hp =>
    rw [lookup?, lookup?, owner?_of_root (parent ▸ hp), owner?_of_root hp, bound, if_neg hb]
    rfl

/-! ## What an operation changes -/

/-- Between the two heaps, a name is bound to the value for the frames given, and nothing else is. -/
structure Rebinds (h h' : Heap) (name : String) (v : Value) (frames : FrameRef → Prop) : Prop where
  here : ∀ f, frames f → h'.lookup? f name = some v
  elsewhere : ∀ f m, ¬ (m = name ∧ frames f) → h'.lookup? f m = h.lookup? f m

/-- A definition is found from the frames that see where it is made. -/
theorem rebinds_define (made : e.index < h.frames.size) (name : String) (v : Value) :
    h.Rebinds (h.define e name v) name v fun f => h.Sees name f e := by
  constructor
  · intro f sees
    -- the frames on the way come after the one that is changed
    have sees' : (h.define e name v).Sees name f e := by
      induction sees using Relation.ReflTransGen.head_induction_on with
      | refl => exact .refl
      | @head f p passes sees ih =>
        have other : f ≠ e := by
          rintro rfl
          exact absurd passes.lt (Nat.not_lt.2 (Sees.le sees))
        refine .head ⟨?_, ?_⟩ ih
        · rw [get?_define, if_neg fun here => other here.1]
          exact passes.1
        · rw [parent?_define]
          exact passes.2
    rw [lookup?_of_sees sees', lookup?_self (isSome_get?_define made name v), get?_define,
      if_pos ⟨rfl, rfl⟩, frame?, Array.getElem?_eq_getElem made]
    rfl
  · intro f m apart
    apply lookup?_congr
    intro g sees
    refine ⟨parent?_define .., ?_⟩
    rw [get?_define, if_neg]
    rintro ⟨rfl, rfl⟩
    exact apart ⟨rfl, sees⟩

/-- An assignment is found from the frames that the name is looked up from in the same frame. -/
theorem rebinds_assign? {v : Value} (assigned : h.assign? e name v = some h') :
    h.Rebinds h' name v fun f => ∃ g, h.Nearest name f g ∧ h.Nearest name e g := by
  rw [assign?] at assigned
  cases owner : h.owner? e name with
  | none =>
    rw [owner] at assigned
    cases assigned
  | some o =>
    rw [owner] at assigned
    cases assigned
    have nearest : h.Nearest name e o := owner?_eq_some_iff.1 owner
    obtain ⟨here, elsewhere⟩ := rebinds_define (lt_of_get? nearest.2) name v
    constructor
    · rintro f ⟨g, shared, nearest'⟩
      cases nearest'.unique nearest
      exact here f shared.1
    · intro f m apart
      apply elsewhere
      rintro ⟨rfl, sees⟩
      exact apart ⟨rfl, o, ⟨sees, nearest.2⟩, nearest⟩

/-- A new frame is not seen from the frames there are. -/
theorem lookup?_newFrame (made : f.index < h.frames.size) (parent : Option FrameRef)
    (bindings : Bindings Value) (name : String) :
    (h.newFrame parent bindings).2.lookup? f name = h.lookup? f name := by
  apply lookup?_congr
  intro g sees
  have older : g.index < h.frames.size := Nat.lt_of_le_of_lt (Sees.le sees) made
  exact ⟨parent?_newFrame older .., get?_newFrame (Nat.ne_of_lt older) ..⟩

/-! ## Sequences of operations -/

end Heap

/-- What is done to frames. -/
inductive FrameOp
  | new
  | child (parent : FrameRef)
  | define (f : FrameRef) (name : String) (v : Value)
  | assign (f : FrameRef) (name : String) (v : Value)

def FrameOp.isDefine : FrameOp → Bool
  | .define .. => true
  | _ => false

namespace Heap

/-- One operation. An assignment that fails leaves the heap as it is. -/
def perform (h : Heap) : FrameOp → Heap
  | .new => (h.newFrame none .empty).2
  | .child parent => (h.newFrame (some parent) .empty).2
  | .define f name v => h.define f name v
  | .assign f name v => (h.assign? f name v).getD h

def performAll (h : Heap) (ops : List FrameOp) : Heap := ops.foldl perform h

variable {h h' : Heap} {f g e : FrameRef} {name : String}

theorem size_perform (h : Heap) (op : FrameOp) : h.frames.size ≤ (h.perform op).frames.size := by
  cases op with
  | new => exact Nat.le_of_lt (by simp [perform, newFrame])
  | child parent => exact Nat.le_of_lt (by simp [perform, newFrame])
  | define f name v => exact Nat.le_of_eq (size_define ..).symm
  | assign f name v =>
    rw [perform, assign?]
    cases h.owner? f name with
    | none => exact Nat.le_refl _
    | some owner => exact Nat.le_of_eq (size_define ..).symm

/-- There is nothing to define in a frame that was not made. -/
theorem define_missing (missing : ¬ f.index < h.frames.size) (name : String) (v : Value) :
    h.define f name v = h := by
  have same : h.frames.modify f.index (fun frame =>
      { frame with bindings := frame.bindings.put name v }) = h.frames := by
    apply Array.ext_getElem?
    intro i
    rw [Array.getElem?_modify]
    split
    · rename_i here
      subst here
      rw [Array.getElem?_eq_none (Nat.not_lt.1 missing)]
      rfl
    · rfl
  rw [define, same]

/-- What is found stays found, bound to the same value or another. -/
theorem Rebinds.isSome {v : Value} {frames : FrameRef → Prop} (rebinds : h.Rebinds h' name v frames)
    {m : String} (found : (h.lookup? f m).isSome) : (h'.lookup? f m).isSome := by
  by_cases here : m = name ∧ frames f
  · obtain ⟨rfl, seen⟩ := here
    rw [rebinds.here f seen]
    rfl
  · rwa [rebinds.elsewhere f m here]

/-- Between the two heaps, a name is found from the frames it was found from. -/
theorem isSome_lookup?_assign? {v : Value} (assigned : h.assign? e name v = some h') (f : FrameRef)
    (m : String) : (h'.lookup? f m).isSome ↔ (h.lookup? f m).isSome := by
  have rebinds := rebinds_assign? assigned
  constructor
  · intro found
    by_cases here : m = name ∧ ∃ g, h.Nearest name f g ∧ h.Nearest name e g
    · obtain ⟨rfl, g, ⟨sees, bound⟩, -⟩ := here
      rwa [lookup?_of_sees sees, lookup?_self bound]
    · rwa [← rebinds.elsewhere f m here]
  · exact rebinds.isSome

/-- No operation makes a name lost to a frame. -/
theorem isSome_perform (made : f.index < h.frames.size) (op : FrameOp)
    (found : (h.lookup? f name).isSome) : ((h.perform op).lookup? f name).isSome := by
  cases op with
  | new => rwa [perform, lookup?_newFrame made]
  | child parent => rwa [perform, lookup?_newFrame made]
  | define g m v =>
    rw [perform]
    by_cases there : g.index < h.frames.size
    · exact (rebinds_define there m v).isSome found
    · rwa [define_missing there]
  | assign g m v =>
    rw [perform]
    cases assigned : h.assign? g m v with
    | none => exact found
    | some h' => exact (isSome_lookup?_assign? assigned f name).2 found

/-- And none but a definition makes it found. -/
theorem found_of_perform (made : f.index < h.frames.size) {op : FrameOp}
    (other : op.isDefine = false) (found : ((h.perform op).lookup? f name).isSome) :
    (h.lookup? f name).isSome := by
  cases op with
  | new => rwa [perform, lookup?_newFrame made] at found
  | child parent => rwa [perform, lookup?_newFrame made] at found
  | define => cases other
  | assign g m v =>
    rw [perform] at found
    cases assigned : h.assign? g m v with
    | none => rwa [assigned] at found
    | some h' =>
      rw [assigned] at found
      exact (isSome_lookup?_assign? assigned f name).1 found

theorem isSome_performAll (made : f.index < h.frames.size) (ops : List FrameOp)
    (found : (h.lookup? f name).isSome) : ((h.performAll ops).lookup? f name).isSome := by
  induction ops generalizing h with
  | nil => exact found
  | cons op ops ih =>
    exact ih (Nat.lt_of_lt_of_le made (size_perform h op)) (isSome_perform made op found)

theorem found_of_performAll (made : f.index < h.frames.size) {ops : List FrameOp}
    (others : ∀ op ∈ ops, op.isDefine = false)
    (found : ((h.performAll ops).lookup? f name).isSome) : (h.lookup? f name).isSome := by
  induction ops generalizing h with
  | nil => exact found
  | cons op ops ih =>
    obtain ⟨other, others⟩ := List.forall_mem_cons.1 others
    exact found_of_perform made other
      (ih (Nat.lt_of_lt_of_le made (size_perform h op)) others found)

/-- Chains of frames are shadowed bindings, in every heap and so in each that operations lead to. An
assignment succeeds where the name is found. It then binds the name anew for the frames with the same
nearest binding of it, and for no other frame or name; one that fails changes nothing. A definition
binds the name for the frames that see the frame it is made in. Whatever is done, a name that is found
from a frame stays found, and if nothing is defined, one that is not found stays so. -/
theorem chains_shadow (h : Heap) (e : FrameRef) (made : e.index < h.frames.size) (name : String)
    (v : Value) :
    ((h.assign? e name v).isSome ↔ (h.lookup? e name).isSome) ∧
      (∀ h', h.assign? e name v = some h' →
        h.Rebinds h' name v fun f => ∃ g, h.Nearest name f g ∧ h.Nearest name e g) ∧
      (h.assign? e name v = none →
        ∀ f m, (h.perform (.assign e name v)).lookup? f m = h.lookup? f m) ∧
      h.Rebinds (h.perform (.define e name v)) name v (fun f => h.Sees name f e) ∧
      ∀ f m, f.index < h.frames.size → ∀ ops,
        ((h.lookup? f m).isSome → ((h.performAll ops).lookup? f m).isSome) ∧
        ((∀ op ∈ ops, op.isDefine = false) → ((h.performAll ops).lookup? f m).isSome →
          (h.lookup? f m).isSome) := by
  refine ⟨isSome_assign? h e name v, ?_, ?_, rebinds_define made name v, ?_⟩
  · intro h' assigned
    exact rebinds_assign? assigned
  · intro failed f m
    rw [perform, failed]
    rfl
  · intro f m made' ops
    constructor
    · exact isSome_performAll made' ops
    · exact found_of_performAll made'

/-- A global with a block that shadows it, and a block inside of that and one beside it. -/
def shadowed : Heap :=
  performAll empty [.new, .define ⟨0⟩ "a" .nil, .child ⟨0⟩, .define ⟨1⟩ "a" (.bool true), .child ⟨1⟩,
    .child ⟨0⟩]

/-- Assigned from the innermost block, the name is changed for the block that shadows the global, and
not for the block beside it. -/
theorem chains_shadow_shadowed : (2 : Nat) < shadowed.frames.size ∧
    ∀ h', shadowed.assign? ⟨2⟩ "a" (.bool false) = some h' →
      h'.lookup? ⟨1⟩ "a" = some (.bool false) ∧
      h'.lookup? ⟨3⟩ "a" = shadowed.lookup? ⟨3⟩ "a" := by
  obtain ⟨-, assigned, -⟩ := chains_shadow shadowed ⟨2⟩ (by decide) "a" (.bool false)
  have inner : shadowed.Nearest "a" ⟨2⟩ ⟨1⟩ := ⟨.single ⟨by decide, rfl⟩, by decide⟩
  have shadow : shadowed.Nearest "a" ⟨1⟩ ⟨1⟩ := ⟨.refl, by decide⟩
  have beside : shadowed.Nearest "a" ⟨3⟩ ⟨0⟩ := ⟨.single ⟨by decide, rfl⟩, by decide⟩
  refine ⟨by decide, fun h' hh' => ⟨(assigned h' hh').here ⟨1⟩ ⟨⟨1⟩, shadow, inner⟩, ?_⟩⟩
  apply (assigned h' hh').elsewhere
  rintro ⟨-, g, fromBeside, fromInner⟩
  cases fromBeside.unique beside
  cases fromInner.unique inner

end Heap

end Lox
