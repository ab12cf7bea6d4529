/-
Names bound to values, in the order they were first bound. Binding a name again keeps its place.
-/

namespace Lox

structure Bindings (α : Type) where
  entries : List (String × α)

namespace Bindings

variable {α : Type}

def empty : Bindings α := ⟨[]⟩

/-- What the first entry of a name binds it to. -/
def getEntry (name : String) : List (String × α) → Option α
  | [] => none
  | (n, x) :: es => if name = n then some x else getEntry name es

/-- What a name is bound to. -/
def get? (b : Bindings α) (name : String) : Option α := getEntry name b.entries

def binds (b : Bindings α) (name : String) : Bool := (b.get? name).isSome

/-- The entries with a name bound anew. -/
def putEntry (name : String) (x : α) : List (String × α) → List (String × α)
  | [] => [(name, x)]
  | (n, y) :: es => if name = n then (n, x) :: es else (n, y) :: putEntry name x es

def put (b : Bindings α) (name : String) (x : α) : Bindings α := ⟨putEntry name x b.entries⟩

@[simp] theorem get?_empty (name : String) : (empty : Bindings α).get? name = none := rfl

theorem getEntry_putEntry (name m : String) (x : α) (es : List (String × α)) :
    getEntry m (putEntry name x es) = if m = name then some x else getEntry m es := by
  induction es with
  | nil => rfl
  | cons e es ih =>
    obtain ⟨n, y⟩ := e
    by_cases hn : name = n
    · subst hn
      by_cases h : m = name <;> simp [putEntry, getEntry, h]
    · by_cases h : m = n
      · subst h
        simp [putEntry, getEntry, hn, Ne.symm hn]
      · simp [putEntry, getEntry, hn, h, ih]

/-- A name is bound to what it was last bound to. -/
@[simp] theorem get?_put (b : Bindings α) (name m : String) (x : α) :
    (b.put name x).get? m = if m = name then some x else b.get? m :=
  getEntry_putEntry name m x b.entries

theorem isSome_get?_put (b : Bindings α) (name m : String) (x : α) :
    ((b.put name x).get? m).isSome ↔ m = name ∨ (b.get? m).isSome := by
  rw [get?_put]
  split
  · rename_i same
    simp [same]
  · rename_i other
    simp [other]

end Bindings

end Lox
