/-
Values. Functions, classes, instances and natives are references: two are equal only if they were
made by one and the same evaluation.
-/

namespace Lox

/-- A frame of variables, by the order in which frames were made. -/
structure FrameRef where
  index : Nat
  deriving DecidableEq

structure FunctionRef where
  index : Nat
  deriving DecidableEq

structure ClassRef where
  index : Nat
  deriving DecidableEq

structure InstanceRef where
  index : Nat
  deriving DecidableEq

structure NativeRef where
  index : Nat
  deriving DecidableEq

inductive Value
  | nil
  | bool (b : Bool)
  | number (x : Float)
  | string (s : String)
  | native (ref : NativeRef)
  | function (ref : FunctionRef)
  | «class» (ref : ClassRef)
  | «instance» (ref : InstanceRef)
  deriving DecidableEq, Inhabited

namespace Value

/-- Everything but `nil` and `false` counts as true. -/
def truthy : Value → Bool
  | nil => false
  | bool b => b
  | _ => true

/-- Equality as programs see it. Zeros of both signs are equal, and so are all NaNs. -/
def same : Value → Value → Bool
  | nil, nil => true
  | bool a, bool b => a == b
  | number a, number b => a == b || (a.isNaN && b.isNaN)
  | string a, string b => a == b
  | native a, native b => a == b
  | function a, function b => a == b
  | .class a, .class b => a == b
  | .instance a, .instance b => a == b
  | _, _ => false

end Value

end Lox
