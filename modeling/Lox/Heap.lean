/-
The heap: frames of variables, functions, classes and instances. Nothing is ever removed. A frame is
linked to an older one, its parent, so a walk along the links ends; names are searched along it.
-/
import Lox.Bindings
import Lox.Number.Text
import Lox.Syntax
import Lox.Value

namespace Lox

/-- One frame of variables. -/
structure Frame where
  parent : Option FrameRef
  bindings : Bindings Value

/-- A function declaration with the frame it was declared in. -/
structure Closure where
  decl : Function
  frame : FrameRef

/-- An instance of a class with the fields set so far. -/
structure Instance where
  cls : ClassRef
  fields : Bindings Value

/-- Classes have a name and nothing else. -/
structure Heap where
  frames : Array Frame
  functions : Array Closure
  classes : Array String
  instances : Array Instance

namespace Heap

def empty : Heap := ⟨#[], #[], #[], #[]⟩

/-! ## Frames -/

def frame? (h : Heap) (f : FrameRef) : Option Frame := h.frames[f.index]?

/-- The frame that a frame is linked to. Links go to older frames only; any other leads nowhere. -/
def parent? (h : Heap) (f : FrameRef) : Option FrameRef :=
  match (h.frame? f).bind (·.parent) with
  | some p => if p.index < f.index then some p else none
  | none => none

theorem parent?_lt {h : Heap} {f p : FrameRef} (hp : h.parent? f = some p) : p.index < f.index := by
  unfold parent? at hp
  split at hp
  · split at hp
    · cases hp
      assumption
    · cases hp
  · cases hp

/-- What a frame itself binds a name to. -/
def get? (h : Heap) (f : FrameRef) (name : String) : Option Value :=
  (h.frame? f).bind (·.bindings.get? name)

/-- Makes a frame linked to the given one. -/
def newFrame (h : Heap) (parent : Option FrameRef) (bindings : Bindings Value) : FrameRef × Heap :=
  (⟨h.frames.size⟩, { h with frames := h.frames.push ⟨parent, bindings⟩ })

/-- Binds a name in the frame itself. -/
def define (h : Heap) (f : FrameRef) (name : String) (v : Value) : Heap :=
  { h with
    frames := h.frames.modify f.index fun frame =>
      { frame with bindings := frame.bindings.put name v } }

/-- The nearest frame along the links that binds a name. -/
def owner? (h : Heap) (f : FrameRef) (name : String) : Option FrameRef :=
  if (h.get? f name).isSome then some f
  else
    match _hp : h.parent? f with
    | some p => h.owner? p name
    | none => none
termination_by f.index
decreasing_by exact parent?_lt _hp

/-- What the nearest frame that binds a name binds it to. -/
def lookup? (h : Heap) (f : FrameRef) (name : String) : Option Value :=
  (h.owner? f name).bind (h.get? · name)

/-- Binds a name anew in the nearest frame that binds it. -/
def assign? (h : Heap) (f : FrameRef) (name : String) (v : Value) : Option Heap :=
  match h.owner? f name with
  | some owner => some (h.define owner name v)
  | none => none

/-- The frame a number of links away. -/
def ancestor? (h : Heap) (f : FrameRef) : Nat → Option FrameRef
  | 0 => some f
  | d + 1 =>
    match h.parent? f with
    | some p => h.ancestor? p d
    | none => none

/-- The frame a number of links away, provided that it binds the name. -/
def ownerAt? (h : Heap) (f : FrameRef) (distance : Nat) (name : String) : Option FrameRef :=
  match h.ancestor? f distance with
  | some owner => if (h.get? owner name).isSome then some owner else none
  | none => none

/-! ## Functions, classes and instances -/

def newFunction (h : Heap) (c : Closure) : Value × Heap :=
  (.function ⟨h.functions.size⟩, { h with functions := h.functions.push c })

def newClass (h : Heap) (name : String) : Value × Heap :=
  (.class ⟨h.classes.size⟩, { h with classes := h.classes.push name })

def newInstance (h : Heap) (cls : ClassRef) : Value × Heap :=
  (.instance ⟨h.instances.size⟩, { h with instances := h.instances.push ⟨cls, .empty⟩ })

def function? (h : Heap) (f : FunctionRef) : Option Closure := h.functions[f.index]?

def instance? (h : Heap) (i : InstanceRef) : Option Instance := h.instances[i.index]?

/-- The value of a field, if it was ever set. -/
def field? (h : Heap) (i : InstanceRef) (name : String) : Option Value :=
  (h.instance? i).bind (·.fields.get? name)

def setField (h : Heap) (i : InstanceRef) (name : String) (v : Value) : Heap :=
  { h with
    instances := h.instances.modify i.index fun inst =>
      { inst with fields := inst.fields.put name v } }

/-- The name of a class. -/
def className (h : Heap) (c : ClassRef) : String := h.classes[c.index]?.getD ""

/-- The name of an instance's class. -/
def instanceClassName (h : Heap) (i : InstanceRef) : String :=
  ((h.instance? i).map fun inst => h.className inst.cls).getD ""

/-- The name of a function. -/
def functionName (h : Heap) (f : FunctionRef) : String :=
  ((h.function? f).map (·.decl.name.lexeme)).getD ""

end Heap

/-! ## Printed values -/

/-- Numbers in program output: whole ones below 10^15 without a fraction, all others by their
shortest digits. -/
def valueNumber : Number.Layout := { Number.plain with exact := Number.fifteenDigits }

/-- The text that a program prints for a value. -/
def Heap.text (h : Heap) : Value → String
  | .nil => "nil"
  | .bool true => "true"
  | .bool false => "false"
  | .number x => Number.text valueNumber x
  | .string s => s
  | .native _ => "<native fn>"
  | .function f => "<fn " ++ h.functionName f ++ ">"
  | .class c => h.className c
  | .instance i => h.instanceClassName i ++ " instance"

end Lox
