/-
Doubles and their parts. The bits of a double are a sign, an exponent field and a fraction
(`exists_components`); a finite double is `± significand · 2 ^ exponent`, and it is put together again
from these (`Spelt`, `spelt_of_isFinite`). Minus turns the sign and nothing else (`neg_ofBits`).

The lemmas on packed doubles (`pack_unpack` and its like) come with the whole of Mathlib only, and with
no module of it.
-/
import Lox.Proofs.Number.Rounding
import Mathlib

namespace Lox.Number

open Float.Model (Format)
open Float.Model.UnpackedFloat

/-! ## Components -/

/-- The bits of a sign, an exponent field and a fraction. -/
def components (s : Sign) (field : BitVec 11) (fraction : BitVec 52) : UInt64 :=
  .ofBitVec (packComponents .binary64 s field fraction)

variable {s : Sign} {field : BitVec 11} {fraction : BitVec 52}

theorem exists_components (bits : UInt64) : ∃ s field fraction, bits = components s field fraction :=
  ⟨_, _, _, UInt64.toBitVec_inj.1
    (@packComponents_unpackSign_unpackExponent_unpackMantissa .binary64 bits.toBitVec).symm⟩

/-- The weight of a sign among the bits. -/
def signBit : Sign → Nat
  | .positive => 0
  | .negative => 2 ^ 63

theorem toNat_components :
    (components s field fraction).toNat = signBit s + (field.toNat * 2 ^ 52 + fraction.toNat) := by
  have low := fraction.isLt
  have middle := field.isLt
  have joined : (s.toBitVec ++ field ++ fraction).toNat =
      (s.toBitVec.toNat * 2 ^ 11 + field.toNat) * 2 ^ 52 + fraction.toNat := by
    rw [BitVec.toNat_append, BitVec.toNat_append, ← Nat.shiftLeft_add_eq_or_of_lt middle,
      ← Nat.shiftLeft_add_eq_or_of_lt low, Nat.shiftLeft_eq, Nat.shiftLeft_eq]
  have sign : s.toBitVec.toNat * 2 ^ 63 = signBit s := by cases s <;> rfl
  show (s.toBitVec ++ field ++ fraction).toNat = _
  rw [joined, ← sign]
  ring

/-- Minus turns the sign of a double, also of a zero. -/
theorem neg_ofBits : -Float.ofBits (components s field fraction) =
    Float.ofBits (components (-s) field fraction) := by
  have turned : (unpack .binary64 (packComponents .binary64 s field fraction)).neg =
      unpack .binary64 (packComponents .binary64 (-s) field fraction) := by
    unfold unpack
    simp only [unpackSign_packComponents, unpackExponent_packComponents,
      unpackMantissa_packComponents, Sign.ofBitVec_toBitVec]
    split
    · split <;> rfl
    · split
      · split <;> rfl
      · rfl
  -- a NaN is packed in one way only, and unpacked as the same NaN
  have again (bits : BitVec 64) :
      unpack .binary64 (pack .binary64 (unpack .binary64 bits)) = unpack .binary64 bits := by
    rw [pack_unpack]
    split
    · rename_i none
      have none : @unpackExponent .binary64 bits = -1#_ ∧
        @unpackMantissa .binary64 bits ≠ 0#_ := by simpa [isNaNBits] using none
      rw [unpack_packedNaN]
      unfold unpack
      dsimp only
      rw [if_pos none.1, if_neg none.2]
    · rfl
  show Float.ofModel (.pack (neg (unpack .binary64 (pack .binary64 (unpack .binary64
    (packComponents .binary64 s field fraction)))))) = _
  rw [again, turned]
  rfl

/-! ## Finite doubles -/

/-- The double with the sign. -/
def signed (negative : Bool) (x : Float) : Float := if negative then -x else x

/-- The double `m · 2 ^ e`. -/
def magnitude (m : Nat) (e : Int) : Float := Float.ofBits (UInt64.ofNat (packBits m e))

/-- The double is `± m · 2 ^ e`, zero with the least exponent and all others in their one way. -/
structure Spelt (x : Float) (negative : Bool) (m : Nat) (e : Int) : Prop where
  parts : parts x = .finite negative m e
  canonical : m = 0 ∧ e = -1074 ∨ Canonical m e
  value : x = signed negative (magnitude m e)

theorem isFinite_ofBits (finite : (Float.ofBits (components s field fraction)).isFinite) :
    field ≠ -1#11 := by
  rintro rfl
  have packed : (unpack .binary64 (pack .binary64
      (unpack .binary64 (packComponents .binary64 s (-1#11) fraction)))).isFinite := finite
  rw [pack_unpack] at packed
  have inner (bits : BitVec 64) (full : @unpackExponent .binary64 bits = -1#11) :
      (unpack .binary64 bits).isFinite = false := by
    unfold unpack
    dsimp only
    rw [if_pos full]
    split <;> rfl
  split at packed
  · rw [unpack_packedNaN] at packed
    cases packed
  · rw [inner _ unpackExponent_packComponents] at packed
    cases packed

/-- A field that is not full counts less than 2047. -/
theorem toNat_lt_of_ne (inner : field ≠ -1#11) : field.toNat < 2047 := by
  have full : field.toNat ≠ 2047 := fun full => inner (BitVec.eq_of_toNat_eq full)
  have middle := field.isLt
  omega

/-- Is the sign negative? -/
def isNegative : Sign → Bool
  | .positive => false
  | .negative => true

theorem ofBits_components (inner : field ≠ -1#11) :
    Binary.ofBits (components s field fraction).toNat =
      if field.toNat = 0 then .finite (isNegative s) fraction.toNat (-1074)
      else .finite (isNegative s) (fraction.toNat + hiddenBit) (field.toNat - 1075) := by
  have low := fraction.isLt
  have short := toNat_lt_of_ne inner
  have middle := field.isLt
  rw [toNat_components]
  have exponent : (signBit s + (field.toNat * 2 ^ 52 + fraction.toNat)) / 2 ^ 52 % 2048 =
      field.toNat := by
    cases s <;> simp only [signBit] <;> omega
  have rest : (signBit s + (field.toNat * 2 ^ 52 + fraction.toNat)) % 2 ^ 52 = fraction.toNat := by
    cases s <;> simp only [signBit] <;> omega
  have sign : (signBit s + (field.toNat * 2 ^ 52 + fraction.toNat)).testBit 63 = isNegative s := by
    rw [Nat.testBit_eq_decide_div_mod_eq]
    cases s with
    | negative => exact decide_eq_true (by simp only [signBit]; omega)
    | positive => exact decide_eq_false (by simp only [signBit]; omega)
  unfold Binary.ofBits
  simp only [hiddenBit_eq, exponent, rest, sign, short.ne, ↓reduceIte]

theorem packBits_components (inner : field ≠ -1#11) :
    (if field.toNat = 0 then packBits fraction.toNat (-1074)
      else packBits (fraction.toNat + hiddenBit) (field.toNat - 1075)) =
      field.toNat * 2 ^ 52 + fraction.toNat := by
  have low := fraction.isLt
  have short := toNat_lt_of_ne inner
  unfold packBits infinityBits
  rw [hiddenBit_eq]
  split <;> omega

theorem canonical_components (inner : field ≠ -1#11) :
    if field.toNat = 0 then fraction.toNat = 0 ∨ Canonical fraction.toNat (-1074)
    else Canonical (fraction.toNat + hiddenBit) (field.toNat - 1075) := by
  have low := fraction.isLt
  have short := toNat_lt_of_ne inner
  rw [hiddenBit_eq]
  split
  · rcases Nat.eq_zero_or_pos fraction.toNat with zero | some
    · exact .inl zero
    · exact .inr ⟨some, by omega, by omega, by omega, .inl rfl⟩
  · exact ⟨by omega, by omega, by omega, by omega, .inr (by omega)⟩

theorem toBits_ofBits (inner : field ≠ -1#11) :
    (Float.ofBits (components s field fraction)).toBits = components s field fraction := by
  have number : isNaNBits (packComponents .binary64 s field fraction) = false := by
    unfold isNaNBits
    rw [unpackExponent_packComponents]
    exact decide_eq_false fun none => inner none.1
  have packed := pack_unpack (packComponents .binary64 s field fraction)
  rw [number, if_neg Bool.false_ne_true] at packed
  exact UInt64.toBitVec_inj.1 packed

/-- A double is put together again from its parts, unless its exponent field is full. -/
theorem spelt_components (inner : field ≠ -1#11) :
    ∃ m e, Spelt (Float.ofBits (components s field fraction)) (isNegative s) m e := by
  have read : parts (Float.ofBits (components s field fraction)) =
      Binary.ofBits (components s field fraction).toNat := by
    unfold parts
    rw [toBits_ofBits inner]
  rw [ofBits_components inner] at read
  have packed := @packBits_components field fraction inner
  have canonical := @canonical_components field fraction inner
  have value (m : Nat) (e : Int) (same : packBits m e = field.toNat * 2 ^ 52 + fraction.toNat) :
      Float.ofBits (components s field fraction) = signed (isNegative s) (magnitude m e) := by
    have positive : UInt64.ofNat (packBits m e) = components .positive field fraction := by
      rw [same, ← Nat.zero_add (_ + _), show 0 = signBit .positive from rfl, ← toNat_components,
        UInt64.ofNat_toNat]
    unfold signed magnitude
    rw [positive]
    cases s with
    | negative =>
      have turned := @neg_ofBits .positive field fraction
      rw [show -Sign.positive = .negative from rfl] at turned
      rw [isNegative, if_pos rfl, turned]
    | positive => rw [isNegative, if_neg Bool.false_ne_true]
  split at read
  · rename_i least
    rw [if_pos least] at packed canonical
    refine ⟨_, _, read, ?_, value _ _ packed⟩
    rcases canonical with zero | canonical
    · exact .inl ⟨zero, rfl⟩
    · exact .inr canonical
  · rename_i normal
    rw [if_neg normal] at packed canonical
    exact ⟨_, _, read, .inr canonical, value _ _ packed⟩

/-- A finite double is put together again from its parts. -/
theorem spelt_of_isFinite {x : Float} (finite : x.isFinite) : ∃ negative m e, Spelt x negative m e := by
  obtain ⟨s, field, fraction, bits⟩ := exists_components x.toBits
  have whole : x = Float.ofBits (components s field fraction) := by rw [← bits, Float.ofBits_toBits]
  rw [whole] at finite ⊢
  exact ⟨_, spelt_components (isFinite_ofBits finite)⟩

/-- Bits below those of infinity are a double without a sign. -/
theorem spelt_of_lt {bits : Nat} (finite : bits < infinityBits) :
    ∃ m e, Spelt (Float.ofBits (UInt64.ofNat bits)) false m e := by
  obtain ⟨s, field, fraction, split⟩ := exists_components (UInt64.ofNat bits)
  have low := fraction.isLt
  unfold infinityBits at finite
  rw [hiddenBit_eq] at finite
  have sum : bits = signBit s + (field.toNat * 2 ^ 52 + fraction.toNat) := by
    rw [← toNat_components, ← split, UInt64.toNat_ofNat_of_lt' (by simp only [UInt64.size]; omega)]
  have inner : field ≠ -1#11 := by
    rintro rfl
    simp only [show (-1#11 : BitVec 11).toNat = 2047 from rfl] at sum
    omega
  rw [split]
  cases s with
  | positive => exact spelt_components inner
  | negative =>
    simp only [signBit] at sum
    omega

end Lox.Number
