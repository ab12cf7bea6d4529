/-
The state of a running program: its heap, the frame it is in, the distances of its references, the
sink it prints to and the clock it reads. Natives are functions of the host.
-/
import Lox.Heap
import Lox.Scope
import Lox.Sink

namespace Lox

/-- What a native sees of the world: the heap its arguments live in, a clock reading in seconds, and
the arguments. It can change nothing. -/
structure NativeCall where
  heap : Heap
  reading : Float
  args : List Value

/-- A function of the host. -/
structure Native where
  name : String
  arity : Nat
  act : NativeCall → Except String Value

/-- The native that answers the time of the call. -/
def Native.clock : Native := ⟨"clock", 0, fun call => .ok (.number call.reading)⟩

/-- A clock that answers its readings one after another. -/
structure Clock where
  readings : Nat → Float
  taken : Nat

namespace Clock

/-- A clock that stands still. -/
def stopped (reading : Float) : Clock := ⟨fun _ => reading, 0⟩

def reading (c : Clock) : Float := c.readings c.taken

def advance (c : Clock) : Clock := { c with taken := c.taken + 1 }

end Clock

/-- The greatest number of calls that may be open at once, unless another is asked for. -/
def defaultMaxDepth : Nat := 4096

structure Interpreter where
  heap : Heap
  natives : Array Native
  /-- The frame of the top level. -/
  globals : FrameRef
  /-- The frame that declarations go to. -/
  frame : FrameRef
  distances : Distances
  /-- The number of open calls. -/
  depth : Nat
  maxDepth : Nat
  sink : Sink
  clock : Clock

namespace Interpreter

def native? (it : Interpreter) (n : NativeRef) : Option Native := it.natives[n.index]?

/-- Adds a native; each time it is a new object. -/
def addNative (it : Interpreter) (n : Native) : Value × Interpreter :=
  (.native ⟨it.natives.size⟩, { it with natives := it.natives.push n })

/-- Binds a name in a frame. -/
def define (it : Interpreter) (f : FrameRef) (name : String) (v : Value) : Interpreter :=
  { it with heap := it.heap.define f name v }

/-- Enters a frame. -/
def enter (it : Interpreter) (f : FrameRef) : Interpreter := { it with frame := f }

/-- Makes a frame linked to the given one, and enters it. -/
def enterNew (it : Interpreter) (parent : FrameRef) (bindings : Bindings Value) : Interpreter :=
  let (f, heap) := it.heap.newFrame (some parent) bindings
  { it with heap, frame := f }

/-- The frame that a reference means: at the recorded distance, or for a reference without one the
top level. -/
def referred? (it : Interpreter) (id : Nat) (name : String) : Option FrameRef :=
  match it.distances[id]? with
  | some distance => it.heap.ownerAt? it.frame distance name
  | none => it.heap.owner? it.globals name

/-- Adds distances to those already known. -/
def addDistances (it : Interpreter) (ds : Distances) : Interpreter :=
  { it with distances := it.distances.insertMany ds.toList }

/-- Forgets the distances of references that no code is left to evaluate. -/
def forget (it : Interpreter) (ids : List Nat) : Interpreter :=
  { it with distances := ids.foldl (fun ds id => ds.erase id) it.distances }

/-- A program that has not begun, with `clock` as its only global. -/
def start (maxDepth : Nat) (sink : Sink) (clock : Clock) : Interpreter where
  heap := (Heap.empty.newFrame none (Bindings.empty.put Native.clock.name (.native ⟨0⟩))).2
  natives := #[.clock]
  globals := ⟨0⟩
  frame := ⟨0⟩
  distances := ∅
  depth := 0
  maxDepth
  sink
  clock

end Interpreter

end Lox
