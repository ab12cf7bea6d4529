/-
Bytes as UTF-8 text. Where the bytes are not UTF-8, the fault says where the first bad sequence
starts, and how many bytes it has, unless the bytes end inside it.
-/

namespace Lox.Utf8

/-- The first bad sequence: where it starts, and its length unless the bytes end inside it. -/
structure Fault where
  index : Nat
  length? : Option Nat

/-- The bytes that may follow the first byte of a sequence of several bytes: how many, and the least
and greatest value of the first of them. The others lie between 0x80 and 0xbf. -/
def following? (b : UInt8) : Option (Nat × UInt8 × UInt8) :=
  if b < 0xc2 then none
  else if b < 0xe0 then some (1, 0x80, 0xbf)
  else if b = 0xe0 then some (2, 0xa0, 0xbf)
  else if b = 0xed then some (2, 0x80, 0x9f)
  else if b < 0xf0 then some (2, 0x80, 0xbf)
  else if b = 0xf0 then some (3, 0x90, 0xbf)
  else if b < 0xf4 then some (3, 0x80, 0xbf)
  else if b = 0xf4 then some (3, 0x80, 0x8f)
  else none

/-- Checks the bytes that have to follow; `seen` bytes of the sequence are good so far. The error is
the length of the bad sequence, or none where the bytes end inside it. -/
def checkFollowing (seen : Nat) : Nat → UInt8 → UInt8 → List UInt8 → Except (Option Nat) Unit
  | 0, _, _, _ => .ok ()
  | _ + 1, _, _, [] => .error none
  | n + 1, low, high, b :: bs =>
    if low ≤ b && b ≤ high then checkFollowing (seen + 1) n 0x80 0xbf bs else .error (some seen)

/-- Checks the sequence that starts with the byte `b`, and counts the bytes that follow it. -/
def checkSequence (b : UInt8) (bs : List UInt8) : Except (Option Nat) Nat :=
  if b < 0x80 then .ok 0
  else
    match following? b with
    | none => .error (some 1)
    | some (n, low, high) => (checkFollowing 1 n low high bs).map fun _ => n

/-- The first bad sequence at or after the given index. -/
def fault? (index : Nat) (bytes : List UInt8) : Option Fault :=
  match bytes with
  | [] => none
  | b :: bs =>
    match checkSequence b bs with
    | .ok n => fault? (index + 1 + n) (bs.drop n)
    | .error length? => some ⟨index, length?⟩
termination_by bytes.length
decreasing_by
  simp only [List.length_drop, List.length_cons]
  omega

/-- The text that the bytes stand for, or the first bad sequence. -/
def decode (bytes : ByteArray) : Except Fault String :=
  match String.fromUTF8? bytes with
  | some text => .ok text
  | none => .error ((fault? 0 bytes.data.toList).getD ⟨0, none⟩)

def Fault.message (f : Fault) : String :=
  match f.length? with
  | some n =>
    "invalid utf-8 sequence of " ++ toString n ++ " bytes from index " ++ toString f.index
  | none => "incomplete utf-8 byte sequence from index " ++ toString f.index

end Lox.Utf8
