/-
What properties instances have. Only a property assignment writes to an instance, and it writes to the
instance that its object was, by whatever name the program got hold of it. So a property has the value
that was last assigned to it, and none if there was no assignment (`run_recalls`).

For that it matters that an assignment finds its instance: no value refers to an instance that is still
to be made (`Heap.Made`).
-/
import Lox.Proofs.Eval.Reach

namespace Lox

/-! ## Property assignments -/

/-- A property assignment. -/
structure Write where
  target : InstanceRef
  name : String
  value : Value

/-- One of the assignments is to that property. -/
def Assigned (log : List Write) (i : InstanceRef) (name : String) : Prop :=
  ∃ w ∈ log, w.target = i ∧ w.name = name

/-- What was last assigned to the property, the newest assignment coming first. -/
def lastAssigned? (log : List Write) (i : InstanceRef) (name : String) : Option Value :=
  (log.find? fun w => w.target = i ∧ w.name = name).map (·.value)

theorem lastAssigned?_cons (w : Write) (log : List Write) (i : InstanceRef) (name : String) :
    lastAssigned? (w :: log) i name =
      if i = w.target ∧ name = w.name then some w.value else lastAssigned? log i name := by
  rw [lastAssigned?, List.find?_cons]
  by_cases same : w.target = i ∧ w.name = name
  · obtain ⟨rfl, rfl⟩ := same
    simp
  · have other : ¬(i = w.target ∧ name = w.name) := fun ⟨hi, hn⟩ => same ⟨hi.symm, hn.symm⟩
    simp only [same, other, decide_false, if_false]
    rfl

theorem isSome_lastAssigned? (log : List Write) (i : InstanceRef) (name : String) :
    (lastAssigned? log i name).isSome ↔ Assigned log i name := by
  simp only [lastAssigned?, Option.isSome_map, List.find?_isSome, decide_eq_true_eq, Assigned]

theorem lastAssigned?_eq_none (log : List Write) (i : InstanceRef) (name : String) :
    lastAssigned? log i name = none ↔ ¬Assigned log i name := by
  rw [← isSome_lastAssigned?, Option.not_isSome_iff_eq_none]

/-! ## Heaps that recall assignments -/

namespace Heap

/-- The cell is no instance that is still to be made. -/
def Made (h : Heap) : Cell → Prop
  | .instance i => i.index < h.instances.size
  | _ => True

/-- Fields have what was last assigned to them, and all instances that names and fields are bound to
have been made. -/
structure Recalls (log : List Write) (h : Heap) : Prop where
  bound : ∀ {f name v}, h.get? f name = some v → v.Within h.Made
  field : ∀ {i name v}, h.field? i name = some v → v.Within h.Made
  last : ∀ i name, h.field? i name = lastAssigned? log i name

theorem recalls_empty : Heap.empty.Recalls [] where
  bound := by rintro f name v ⟨⟩
  field := by rintro i name v ⟨⟩
  last _ _ := rfl

theorem made_setField (h : Heap) (i : InstanceRef) (name : String) (v : Value) :
    (h.setField i name v).Made = h.Made := by
  funext c
  cases c with
  | «instance» j => rw [Made, Made, size_setField]
  | _ => rfl

theorem made_newInstance {h : Heap} (cls : ClassRef) {c : Cell} (made : h.Made c) :
    (h.newInstance cls).2.Made c := by
  cases c with
  | «instance» i => exact Nat.lt_of_lt_of_eq (Nat.lt_succ_of_lt made) (Array.size_push _).symm
  | _ => trivial

/-- A new instance has no fields. -/
theorem field?_newInstance (h : Heap) (cls : ClassRef) (i : InstanceRef) (name : String) :
    (h.newInstance cls).2.field? i name = h.field? i name := by
  rw [field?, instance?_newInstance]
  split
  · rename_i new
    have unmade : h.instance? i = none := Array.getElem?_eq_none (Nat.le_of_eq new.symm)
    rw [field?, unmade]
    rfl
  · rfl

namespace Recalls

variable {log : List Write} {h : Heap} {f : FrameRef} {name : String} {v : Value}

theorem define (recalls : h.Recalls log) (made : v.Within h.Made) :
    (h.define f name v).Recalls log where
  bound hb := by
    rw [get?_define] at hb
    split at hb
    · obtain ⟨-, -, rfl⟩ := Option.map_eq_some_iff.1 hb
      exact made
    · exact recalls.bound hb
  field := recalls.field
  last := recalls.last

theorem newFrame (recalls : h.Recalls log) (parent : Option FrameRef) {bindings : Bindings Value}
    (made : ∀ name v, bindings.get? name = some v → v.Within h.Made) :
    (h.newFrame parent bindings).2.Recalls log where
  bound hb := by
    rw [get?, frame?_newFrame] at hb
    split at hb
    · exact made _ _ hb
    · exact recalls.bound hb
  field := recalls.field
  last := recalls.last

theorem newFunction (recalls : h.Recalls log) (c : Closure) : (h.newFunction c).2.Recalls log :=
  ⟨recalls.bound, recalls.field, recalls.last⟩

theorem newClass (recalls : h.Recalls log) (name : String) : (h.newClass name).2.Recalls log :=
  ⟨recalls.bound, recalls.field, recalls.last⟩

theorem newInstance (recalls : h.Recalls log) (cls : ClassRef) :
    (h.newInstance cls).2.Recalls log where
  bound hb c cell := made_newInstance cls (recalls.bound hb c cell)
  field hv c cell := by
    rw [field?_newInstance] at hv
    exact made_newInstance cls (recalls.field hv c cell)
  last i name := by
    rw [field?_newInstance]
    exact recalls.last i name

/-- An assignment to an instance that has been made is one more to recall. -/
theorem setField (recalls : h.Recalls log) {i : InstanceRef} (target : h.Made (.instance i))
    (made : v.Within h.Made) : (h.setField i name v).Recalls (⟨i, name, v⟩ :: log) where
  bound hb := by
    rw [made_setField]
    exact recalls.bound hb
  field hv := by
    rw [made_setField]
    rw [field?_setField] at hv
    split at hv
    · obtain ⟨-, -, rfl⟩ := Option.map_eq_some_iff.1 hv
      exact made
    · exact recalls.field hv
  last j m := by
    have there : h.instance? i = some _ := Array.getElem?_eq_getElem target
    rw [field?_setField, there, lastAssigned?_cons, recalls.last]
    rfl

end Recalls

end Heap

namespace Eval

theorem Cont.Within.mono {R R' : Cell → Prop} (sub : ∀ c, R c → R' c) {a : Answer} {k : Cont a}
    (within : k.Within R) : k.Within R' := by
  induction k with
  | value | flow => trivial
  | rightOperand op left k ih => exact ⟨fun c cell => sub c (within.1 c cell), ih within.2⟩
  | argument f paren done rest k ih =>
    exact ⟨fun c cell => sub c (within.1 c cell),
      fun v mem c cell => sub c (within.2.1 v mem c cell), ih within.2.2⟩
  | setValue target name k ih => exact ⟨sub _ within.1, ih within.2⟩
  | blockEnd frame k ih | callEnd frame k ih => exact ⟨sub _ within.1, ih within.2⟩
  | _ => rename_i ih; exact ih within

/-! ## Steps -/

/-- The property assignment that is made next. -/
def Control.write? : Control → Option Write
  | .give v (.setValue i name _) => some ⟨i, name.lexeme, v⟩
  | _ => none

/-- The heap recalls the assignments, and all instances that the evaluation holds on to have been
made. -/
structure State.Recalls (log : List Write) (e : State) : Prop where
  control : e.control.Within e.it.heap.Made
  heap : e.it.heap.Recalls log

variable {log : List Write} {it : Interpreter}

theorem Turn.write?_eq_none {c c' : Control} (turn : Turn it c c') : c.write? = none := by
  cases turn <;> rfl

theorem Fail.write?_eq_none {c : Control} {e : RuntimeError} {k : Cont .value} (fail : Fail it c e k) :
    c.write? = none := by
  cases fail <;> rfl

/-- What is read was bound or assigned before, so it has been made. -/
theorem Turn.within_made {c c' : Control} (turn : Turn it c c') (heap : it.heap.Recalls log)
    (within : c.Within it.heap.Made) : c'.Within it.heap.Made := by
  refine turn.within (fun found => ?_) (fun _ found => heap.field found) within
  obtain ⟨f, -, bound⟩ := Option.bind_eq_some_iff.1 found
  exact heap.bound bound

/-- The name is bound to nothing before the class is made. -/
theorem recalls_withClass (heap : it.heap.Recalls log) (name : String) :
    (withClass it name).heap.Recalls log :=
  (heap.define (v := .nil) within_none).newClass name

/-- Behind a step there is one assignment more to recall if the step made one. -/
theorem Rule.recalls {e e' : State} (rule : Rule e e') (recalls : e.Recalls log)
    (detached : ∀ n ∈ e.it.natives, n.Detached) : e'.Recalls (e.control.write?.toList ++ log) := by
  obtain ⟨within, heap⟩ := recalls
  cases rule with
  | turn turn =>
    rw [turn.write?_eq_none]
    exact ⟨turn.within_made heap within, heap⟩
  | fail fail =>
    rw [fail.write?_eq_none]
    exact ⟨fail.within within, heap⟩
  | varNil => exact ⟨⟨within_none, within⟩, heap.define (v := .nil) within_none⟩
  | var => exact ⟨⟨within_none, within.2⟩, heap.define within.1⟩
  | function it decl k =>
    exact ⟨⟨within_none, within⟩, (heap.newFunction _).define fun | _, rfl => trivial⟩
  | «class» it name methods f k =>
    exact ⟨⟨within_none, within⟩,
      (recalls_withClass heap name.lexeme).define (Heap.within_newClass _ _)⟩
  | lostClass it name => exact ⟨within, recalls_withClass heap name.lexeme⟩
  | write => exact ⟨within, heap.define within.1⟩
  | setField it i name v k =>
    refine ⟨?_, heap.setField within.2.1 within.1⟩
    show (Control.give v k).Within (it.heap.setField i name.lexeme v).Made
    rw [Heap.made_setField]
    exact ⟨within.1, within.2.2⟩
  | block => exact ⟨⟨trivial, within⟩, heap.newFrame _ within_empty⟩
  | call it f c paren args k =>
    exact ⟨⟨trivial, within.2.2⟩, heap.newFrame _ (within_parameterBindings within.2.1)⟩
  | blockEnd => exact ⟨⟨within.1, within.2.2⟩, heap⟩
  | blockFault | callFault => exact ⟨within.2, heap⟩
  | callEnd => exact ⟨⟨within_none, within.2.2⟩, heap⟩
  | callReturn => exact ⟨⟨within.1, within.2.2⟩, heap⟩
  | native it n native paren args v k found arity answer =>
    have made := (detached native (Array.mem_of_getElem? found)).within within.2.1 answer
    exact ⟨⟨made, within.2.2⟩, heap⟩
  | nativeFault => exact ⟨within.2.2, heap⟩
  | instantiate it c paren k =>
    refine ⟨⟨?_, within.2.2.mono fun _ => Heap.made_newInstance c⟩, heap.newInstance c⟩
    rintro _ ⟨⟩
    exact Nat.lt_of_lt_of_eq (Nat.lt_succ_self _) (Array.size_push _).symm
  | printed => exact ⟨⟨within_none, within.2⟩, heap⟩
  | unprinted => exact ⟨within.2, heap⟩

theorem step_recalls {e : State} (recalls : e.Recalls log)
    (detached : ∀ n ∈ e.it.natives, n.Detached) :
    e.step.Recalls (e.control.write?.toList ++ log) := (step_rule e).recalls recalls detached

/-! ## Runs -/

/-- The property assignments that are made in a number of steps, newest first. -/
def State.writes (e : State) : Nat → List Write
  | 0 => []
  | n + 1 => (e.run n).control.write?.toList ++ e.writes n

/-- Along a run all properties are what they were last assigned. -/
theorem run_recalls {e : State} (recalls : e.Recalls log)
    (detached : ∀ n ∈ e.it.natives, n.Detached) (n : Nat) :
    (e.run n).Recalls (e.writes n ++ log) := by
  induction n with
  | zero => exact recalls
  | succ n ih =>
    rw [← step_run, State.writes, List.append_assoc]
    refine step_recalls ih ?_
    rwa [(run_keeps e n).natives]

/-- A property is read if and only if it was assigned to, and it is read as what was last assigned. -/
theorem State.Recalls.step_getObject {e : State} (recalls : e.Recalls log) {i : InstanceRef}
    {name : Token} {k : Cont .value} (next : e.control = .give (.instance i) (.getObject name k)) :
    (∀ v, e.step.control = .give v k ↔ lastAssigned? log i name.lexeme = some v) ∧
      (e.step.control = .raise (.failure name .undefinedProperty) k ↔
        ¬Assigned log i name.lexeme) := by
  obtain ⟨control, it⟩ := e
  cases next
  have field : it.heap.field? i name.lexeme = lastAssigned? log i name.lexeme := recalls.heap.last ..
  rw [← lastAssigned?_eq_none]
  cases last : lastAssigned? log i name.lexeme with
  | none =>
    rw [(Fail.noProperty i name k (field.trans last)).step_eq]
    simp
  | some w =>
    rw [(Turn.property i name w k (field.trans last)).step_eq]
    simp

end Eval

end Lox
