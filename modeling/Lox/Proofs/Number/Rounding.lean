/-
Rounding to a double. The reals that round to `m · 2 ^ e` are an interval around it: half a unit of
the last place to either side, or a quarter downwards where the next smaller double is in the binade
below, and the ends only where `m` is even. Every ratio in the interval reads as the bits of
`m · 2 ^ e` (`nearestBits_eq`).

A ratio just below the least significand of a binade is rounded in the binade below, where it
carries over (`packBits_carry`).
-/
import Lox.Number.Nearest
import Mathlib.Algebra.Order.Field.Power
import Mathlib.Data.Rat.Cast.Order
import Mathlib.Tactic.FieldSimp
import Mathlib.Tactic.Linarith
import Mathlib.Tactic.Positivity
import Mathlib.Tactic.Ring

namespace Lox.Number

/-! ## Powers -/

theorem pow2_pos (e : Int) : 0 < pow2 e := Nat.pow_pos (by decide)

theorem pow10_pos (e : Int) : 0 < pow10 e := Nat.pow_pos (by decide)

/-- Of the powers of an exponent and its opposite one is one, and their ratio is the power. -/
theorem pow_div_pow (b : Nat) (e : Int) :
    ((Nat.pow b e.toNat : Nat) : ℚ) / (Nat.pow b (-e).toNat : Nat) = (b : ℚ) ^ e := by
  obtain ⟨n, rfl | rfl⟩ := e.eq_nat_or_neg
  · simp
  · simp

theorem pow2_div (e : Int) : (pow2 e : ℚ) / pow2 (-e) = 2 ^ e := pow_div_pow 2 e

theorem pow10_div (e : Int) : (pow10 e : ℚ) / pow10 (-e) = 10 ^ e := pow_div_pow 10 e

theorem two_zpow_pos (e : Int) : (0 : ℚ) < 2 ^ e := zpow_pos (by norm_num) e

theorem two_zpow_add (e : Int) (n : Nat) : (2 : ℚ) ^ (e + n) = 2 ^ n * 2 ^ e := by
  rw [zpow_add₀ (by norm_num), zpow_natCast, mul_comm]

/-! ## A half to the even neighbour -/

/-- The natural number `k` is nearest to `q`, or as near as another one and even. -/
structure NearestEven (k : Nat) (q : ℚ) : Prop where
  low : (k : ℚ) - 1 / 2 ≤ q
  high : q ≤ k + 1 / 2
  even : q = k - 1 / 2 ∨ q = k + 1 / 2 → k % 2 = 0

theorem roundHalfEven_eq {n d k : Nat} (pos : 0 < d) (near : NearestEven k (n / d)) :
    roundHalfEven n d = k := by
  have posQ : (0 : ℚ) < d := by exact_mod_cast pos
  obtain ⟨low, high, even⟩ := near
  rw [le_div_iff₀ posQ] at low
  rw [div_le_iff₀ posQ] at high
  rw [div_eq_iff posQ.ne', div_eq_iff posQ.ne'] at even
  have split : (n : ℚ) = d * (n / d : Nat) + (n % d : Nat) := by
    exact_mod_cast (Nat.div_add_mod n d).symm
  rw [split] at low high even
  have small : ((n % d : Nat) : ℚ) < d := by exact_mod_cast Nat.mod_lt n pos
  have nonneg : (0 : ℚ) ≤ (n % d : Nat) := Nat.cast_nonneg _
  have atLeast : n / d ≤ k := by
    by_contra above
    have : (k : ℚ) + 1 ≤ (n / d : Nat) := by exact_mod_cast Nat.lt_of_not_le above
    nlinarith
  have atMost : k ≤ n / d + 1 := by
    by_contra above
    have : ((n / d : Nat) : ℚ) + 2 ≤ k := by exact_mod_cast Nat.lt_of_not_le above
    nlinarith
  unfold roundHalfEven
  rcases Nat.eq_or_lt_of_le atLeast with rfl | next
  · have half : 2 * (n % d) ≤ d := by
      have : ((2 * (n % d) : Nat) : ℚ) ≤ d := by push_cast; linarith
      exact_mod_cast this
    have tie : 2 * (n % d) = d → n / d % 2 = 0 := by
      intro tie
      have : 2 * ((n % d : Nat) : ℚ) = d := by exact_mod_cast tie
      exact even (.inr (by linarith))
    rcases Nat.lt_or_eq_of_le half with less | tied
    · exact if_pos less
    · simp only [tied, Nat.lt_irrefl, ↓reduceIte, tie tied]
  · obtain rfl : k = n / d + 1 := by omega
    have half : d ≤ 2 * (n % d) := by
      have : (d : ℚ) ≤ ((2 * (n % d) : Nat) : ℚ) := by push_cast at low ⊢; linarith
      exact_mod_cast this
    have tie : 2 * (n % d) = d → (n / d + 1) % 2 = 0 := by
      intro tie
      have : 2 * ((n % d : Nat) : ℚ) = d := by exact_mod_cast tie
      exact even (.inl (by push_cast; linarith))
    rcases Nat.lt_or_eq_of_le half with less | tied
    · simp only [less, Nat.lt_asymm less, ↓reduceIte]
    · have odd : n / d % 2 ≠ 0 := by have := tie tied.symm; omega
      simp only [← tied, Nat.lt_irrefl, ↓reduceIte, odd]

/-! ## Binades -/

theorem binade_bracket {n d : Nat} (some : 0 < n) (pos : 0 < d) :
    (2 : ℚ) ^ binade n d ≤ n / d ∧ (n : ℚ) / d < 2 ^ (binade n d + 1) := by
  have posQ : (0 : ℚ) < d := by exact_mod_cast pos
  have two : (0 : ℚ) < 2 := by norm_num
  have n1 : (2 : ℚ) ^ n.log2 ≤ n := by exact_mod_cast Nat.log2_self_le some.ne'
  have n2 : (n : ℚ) < 2 ^ (n.log2 + 1) := by exact_mod_cast Nat.lt_log2_self
  have d1 : (2 : ℚ) ^ d.log2 ≤ d := by exact_mod_cast Nat.log2_self_le pos.ne'
  have d2 : (d : ℚ) < 2 ^ (d.log2 + 1) := by exact_mod_cast Nat.lt_log2_self
  generalize different : (n.log2 : Int) - d.log2 = b
  have top : (n : ℚ) / d < 2 ^ (b + 1) := by
    have : (2 : ℚ) ^ (b + 1) * 2 ^ d.log2 = 2 ^ (n.log2 + 1) := by
      rw [← zpow_natCast, ← zpow_natCast, ← zpow_add₀ two.ne']
      congr 1
      omega
    rw [div_lt_iff₀ posQ]
    calc (n : ℚ) < 2 ^ (b + 1) * 2 ^ d.log2 := by rw [this]; exact n2
      _ ≤ 2 ^ (b + 1) * d := mul_le_mul_of_nonneg_left d1 (two_zpow_pos _).le
  have bottom : (2 : ℚ) ^ (b - 1) ≤ n / d := by
    have : (2 : ℚ) ^ (b - 1) * 2 ^ (d.log2 + 1) = 2 ^ n.log2 := by
      rw [← zpow_natCast, ← zpow_natCast, ← zpow_add₀ two.ne']
      congr 1
      omega
    rw [le_div_iff₀ posQ]
    calc (2 : ℚ) ^ (b - 1) * d ≤ 2 ^ (b - 1) * 2 ^ (d.log2 + 1) :=
          mul_le_mul_of_nonneg_left d2.le (two_zpow_pos _).le
      _ ≤ n := by rw [this]; exact n1
  have compared : d * pow2 b ≤ n * pow2 (-b) ↔ (2 : ℚ) ^ b ≤ n / d := by
    have unit : (0 : ℚ) < pow2 (-b) := by exact_mod_cast pow2_pos _
    rw [← pow2_div, div_le_div_iff₀ unit posQ, mul_comm (pow2 b : ℚ)]
    exact_mod_cast Iff.rfl
  unfold binade
  simp only [different]
  split
  · rename_i reached
    exact ⟨compared.1 reached, top⟩
  · rename_i short
    rw [compared, not_le] at short
    exact ⟨bottom, by rwa [sub_add_cancel]⟩

/-- The exponent that a ratio is read with: the one whose significands reach up to it. -/
theorem exponent_eq {q : ℚ} {b e : Int} (low : 2 ^ b ≤ q) (high : q < 2 ^ (b + 1))
    (least : -1074 ≤ e) (bounded : q < 2 ^ (e + 53)) (leading : e = -1074 ∨ 2 ^ (e + 52) ≤ q) :
    max (b - 52) (-1074) = e := by
  have one : (1 : ℚ) < 2 := by norm_num
  have under : b < e + 53 := (zpow_lt_zpow_iff_right₀ one).1 (low.trans_lt bounded)
  rcases leading with rfl | leading
  · omega
  · have above : e + 52 < b + 1 := (zpow_lt_zpow_iff_right₀ one).1 (leading.trans_lt high)
    omega

theorem nearestBits_of_nearestEven {n d k : Nat} {e : Int} (some : 0 < n) (pos : 0 < d)
    (least : -1074 ≤ e) (bounded : (n : ℚ) / d < 2 ^ (e + 53))
    (leading : e = -1074 ∨ (2 : ℚ) ^ (e + 52) ≤ n / d) (near : NearestEven k (n / d / 2 ^ e)) :
    nearestBits n d = packBits k e := by
  obtain ⟨low, high⟩ := binade_bracket some pos
  have scaled : ((n * pow2 (-e) : Nat) : ℚ) / (d * pow2 e : Nat) = n / d / 2 ^ e := by
    have : (pow2 (-e) : ℚ) ≠ 0 := by exact_mod_cast (pow2_pos _).ne'
    rw [← pow2_div]
    push_cast
    field_simp
  unfold nearestBits
  rw [if_neg some.ne', exponent_eq low high least bounded leading]
  rw [← scaled] at near
  exact congrArg (packBits · e) (roundHalfEven_eq (Nat.mul_pos pos (pow2_pos e)) near)

/-! ## The reals that round to a double -/

theorem hiddenBit_eq : hiddenBit = 2 ^ 52 := by decide

/-- A positive significand and an exponent as finite doubles have them. -/
structure Canonical (m : Nat) (e : Int) : Prop where
  positive : 0 < m
  bounded : m < 2 ^ 53
  least : -1074 ≤ e
  greatest : e ≤ 971
  leading : e = -1074 ∨ 2 ^ 52 ≤ m

/-- How far down the reals reach that round to `m · 2 ^ e`, in units of the last place. -/
def below (m : Nat) (e : Int) : ℚ := if m = hiddenBit ∧ e ≠ -1074 then 1 / 4 else 1 / 2

theorem quarter_le_below (m : Nat) (e : Int) : 1 / 4 ≤ below m e := by
  unfold below
  split <;> norm_num

theorem below_le_half (m : Nat) (e : Int) : below m e ≤ 1 / 2 := by
  unfold below
  split <;> norm_num

/-- The real `q` rounds to `m · 2 ^ e`. -/
structure RoundsTo (m : Nat) (e : Int) (q : ℚ) : Prop where
  low : (m - below m e) * 2 ^ e ≤ q
  high : q ≤ (m + 1 / 2) * 2 ^ e
  even : q = (m - below m e) * 2 ^ e ∨ q = (m + 1 / 2) * 2 ^ e → m % 2 = 0

variable {m : Nat} {e : Int} {q : ℚ}

/-- Inside of the interval it does not matter whether the significand is even. -/
theorem RoundsTo.of_lt (low : (m - below m e) * 2 ^ e < q) (high : q < (m + 1 / 2) * 2 ^ e) :
    RoundsTo m e q := by
  refine ⟨low.le, high.le, ?_⟩
  rintro (bottom | top)
  · exact absurd bottom low.ne'
  · exact absurd top high.ne

/-- A double rounds to itself. -/
theorem roundsTo_self (m : Nat) (e : Int) : RoundsTo m e (m * 2 ^ e) := by
  have unit := two_zpow_pos e
  have := quarter_le_below m e
  exact .of_lt (by nlinarith) (by nlinarith)

theorem RoundsTo.nearestEven (r : RoundsTo m e q) : NearestEven m (q / 2 ^ e) := by
  have unit := two_zpow_pos e
  have half := below_le_half m e
  obtain ⟨low, high, even⟩ := r
  have low' : (m : ℚ) - below m e ≤ q / 2 ^ e := (le_div_iff₀ unit).2 low
  refine ⟨by linarith, (div_le_iff₀ unit).2 high, ?_⟩
  rintro (bottom | top)
  · have : (m : ℚ) - below m e = m - 1 / 2 := by linarith
    exact even (.inl (by rw [this, ← bottom, div_mul_cancel₀ _ unit.ne']))
  · exact even (.inr (by rw [← top, div_mul_cancel₀ _ unit.ne']))

theorem RoundsTo.lt_top (r : RoundsTo m e q) (bounded : m < 2 ^ 53) : q < 2 ^ (e + 53) := by
  have unit := two_zpow_pos e
  have : (m : ℚ) + 1 ≤ 2 ^ 53 := by exact_mod_cast bounded
  have top : (2 : ℚ) ^ (e + 53) = 2 ^ 53 * 2 ^ e := two_zpow_add e 53
  rw [top]
  nlinarith [r.high]

/-- A carry to `2 ^ 53` is the least significand of the next exponent. -/
theorem packBits_carry (inner : -1074 < e) : packBits (2 ^ 53) (e - 1) = packBits (2 ^ 52) e := by
  have next : (e + 1074).toNat = (e - 1 + 1074).toNat + 1 := by omega
  have carried : (e - 1 + 1074).toNat * 2 ^ 52 + 2 ^ 53 =
      ((e - 1 + 1074).toNat + 1) * 2 ^ 52 + 2 ^ 52 := by ring
  unfold packBits
  rw [hiddenBit_eq, next, carried]

/-- What lies below the least significand of a binade carries when it is rounded in the binade
below. -/
theorem RoundsTo.nearestEven_carry (r : RoundsTo (2 ^ 52) e q) (inner : e ≠ -1074)
    (short : q < 2 ^ (e + 52)) : NearestEven (2 ^ 53) (q / 2 ^ (e - 1)) := by
  have unit := two_zpow_pos (e - 1)
  have double : (2 : ℚ) ^ e = 2 * 2 ^ (e - 1) := by
    simpa using two_zpow_add (e - 1) 1
  have near : below (2 ^ 52) e = 1 / 4 := if_pos ⟨hiddenBit_eq.symm, inner⟩
  have low := r.low
  have top : (2 : ℚ) ^ (e + 52) = 2 ^ 52 * 2 ^ e := two_zpow_add e 52
  rw [near, double] at low
  rw [top, double] at short
  refine ⟨?_, ?_, fun _ => by decide⟩
  · rw [le_div_iff₀ unit]
    push_cast at low ⊢
    linarith
  · rw [div_le_iff₀ unit]
    push_cast
    linarith

/-- A ratio that rounds to a double reads as its bits. -/
theorem nearestBits_eq {n d : Nat} (pos : 0 < d) (c : Canonical m e) (r : RoundsTo m e (n / d)) :
    nearestBits n d = packBits m e := by
  have unit := two_zpow_pos e
  have posQ : (0 : ℚ) < d := by exact_mod_cast pos
  have positive : (1 : ℚ) ≤ m := by exact_mod_cast c.positive
  have some : 0 < n := by
    have := below_le_half m e
    have ratio : (0 : ℚ) < n / d := by nlinarith [r.low]
    have : (0 : ℚ) < n := (div_pos_iff_of_pos_right posQ).1 ratio
    exact_mod_cast this
  by_cases leading : e = -1074 ∨ (2 : ℚ) ^ (e + 52) ≤ n / d
  · exact nearestBits_of_nearestEven some pos c.least (r.lt_top c.bounded) leading r.nearestEven
  · obtain ⟨inner, short⟩ := not_or.1 leading
    rw [not_le] at short
    have top : (2 : ℚ) ^ (e + 52) = 2 ^ 52 * 2 ^ e := two_zpow_add e 52
    obtain rfl : m = 2 ^ 52 := by
      have := below_le_half m e
      have under : (m : ℚ) < 2 ^ 52 + 1 := by
        rw [top] at short
        nlinarith [r.low]
      have under : m < 2 ^ 52 + 1 := by exact_mod_cast under
      have := c.leading.resolve_left inner
      omega
    have least := c.least
    rw [← packBits_carry (by omega)]
    refine nearestBits_of_nearestEven some pos (by omega) ?_ (.inr ?_)
      (r.nearestEven_carry inner short)
    · rwa [show e - 1 + 53 = e + 52 by ring]
    · have half : (2 : ℚ) ^ (e + 52) = 2 * 2 ^ (e - 1 + 52) := by
        have := two_zpow_add (e - 1 + 52) 1
        rwa [pow_one, Nat.cast_one, show e - 1 + 52 + 1 = e + 52 by ring] at this
      have := below_le_half (2 ^ 52) e
      have low := r.low
      push_cast at low
      nlinarith

end Lox.Number
