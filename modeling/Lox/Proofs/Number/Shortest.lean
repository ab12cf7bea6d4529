/-
The shortest decimal of a double reads back as it. A `Spread` is the interval of the reals that round
to the double, in units of a decimal grid (`Spread.holds_iff`), so whatever is picked rounds to it.
Something is picked at the latest where the grid is no coarser than a quarter of a unit of the last
place, and twenty-four grids from `coarsestGrid` downwards reach that far (`finest_grid`).
-/
import Lox.Number.Shortest
import Lox.Proofs.Number.Rounding

namespace Lox.Number

variable {m : Nat} {e grid : Int}

/-! ## Spreads -/

namespace Spread

/-- What a unit of one counts in the numbers of a spread. -/
def common (e grid : Int) : ℚ := 4 * pow2 (-e) * pow10 (-grid)

theorem common_pos (e grid : Int) : 0 < common e grid := by
  have two : (0 : ℚ) < pow2 (-e) := by exact_mod_cast pow2_pos _
  have ten : (0 : ℚ) < pow10 (-grid) := by exact_mod_cast pow10_pos _
  exact mul_pos (mul_pos (by norm_num) two) ten

theorem unit_pos (m : Nat) (e grid : Int) : 0 < (of m e grid).unit :=
  Nat.mul_pos (Nat.mul_pos (by decide) (pow2_pos _)) (pow10_pos _)

theorem mul_scale (quarters : Nat) (e grid : Int) :
    ((quarters * (pow2 e * pow10 (-grid)) : Nat) : ℚ) = quarters / 4 * 2 ^ e * common e grid := by
  have : (pow2 (-e) : ℚ) ≠ 0 := by exact_mod_cast (pow2_pos _).ne'
  unfold common
  rw [← pow2_div]
  push_cast
  field_simp

theorem mul_unit (c m : Nat) (e grid : Int) :
    ((c * (of m e grid).unit : Nat) : ℚ) = c * 10 ^ grid * common e grid := by
  have : (pow10 (-grid) : ℚ) ≠ 0 := by exact_mod_cast (pow10_pos _).ne'
  unfold common of
  rw [← pow10_div]
  push_cast
  field_simp

theorem low_eq (some : 0 < m) :
    ((of m e grid).low : ℚ) = (m - below m e) * 2 ^ e * common e grid := by
  unfold of
  rw [mul_scale]
  unfold below
  split
  · rw [Nat.cast_sub (by omega)]
    push_cast
    ring
  · rw [Nat.cast_sub (by omega)]
    push_cast
    ring

theorem value_eq : ((of m e grid).value : ℚ) = m * 2 ^ e * common e grid := by
  unfold of
  rw [mul_scale]
  push_cast
  ring

theorem high_eq : ((of m e grid).high : ℚ) = (m + 1 / 2) * 2 ^ e * common e grid := by
  unfold of
  rw [mul_scale]
  push_cast
  ring

/-- A multiple of the grid is held exactly when it rounds to the double. -/
theorem holds_iff (some : 0 < m) {c : Nat} :
    (of m e grid).holds c ↔ RoundsTo m e (c * 10 ^ grid) := by
  have unit := common_pos e grid
  have le_low : (of m e grid).low ≤ c * (of m e grid).unit ↔
      (m - below m e) * 2 ^ e ≤ (c : ℚ) * 10 ^ grid := by
    rw [← Nat.cast_le (α := ℚ), low_eq some, mul_unit, mul_le_mul_iff_of_pos_right unit]
  have lt_low : (of m e grid).low < c * (of m e grid).unit ↔
      (m - below m e) * 2 ^ e < (c : ℚ) * 10 ^ grid := by
    rw [← Nat.cast_lt (α := ℚ), low_eq some, mul_unit, mul_lt_mul_iff_of_pos_right unit]
  have le_high : c * (of m e grid).unit ≤ (of m e grid).high ↔
      (c : ℚ) * 10 ^ grid ≤ (m + 1 / 2) * 2 ^ e := by
    rw [← Nat.cast_le (α := ℚ), high_eq, mul_unit, mul_le_mul_iff_of_pos_right unit]
  have lt_high : c * (of m e grid).unit < (of m e grid).high ↔
      (c : ℚ) * 10 ^ grid < (m + 1 / 2) * 2 ^ e := by
    rw [← Nat.cast_lt (α := ℚ), high_eq, mul_unit, mul_lt_mul_iff_of_pos_right unit]
  have closed : (of m e grid).closed ↔ m % 2 = 0 := beq_iff_eq
  unfold holds
  by_cases even : m % 2 = 0
  · rw [if_pos (closed.2 even), Bool.and_eq_true, decide_eq_true_iff, decide_eq_true_iff, le_low,
      le_high]
    exact ⟨fun ⟨low, high⟩ => ⟨low, high, fun _ => even⟩, fun r => ⟨r.low, r.high⟩⟩
  · rw [if_neg (mt closed.1 even), Bool.and_eq_true, decide_eq_true_iff, decide_eq_true_iff, lt_low,
      lt_high]
    constructor
    · rintro ⟨low, high⟩
      exact .of_lt low high
    · intro r
      exact ⟨lt_of_le_of_ne r.low fun bottom => even (r.even (.inl bottom.symm)),
        lt_of_le_of_ne r.high fun top => even (r.even (.inr top))⟩

theorem holds_of_pick? {s : Spread} {tie : Tie} {c : Nat} (picked : s.pick? tie = some c) :
    s.holds c := by
  unfold pick? at picked
  dsimp only at picked
  cases down : s.holds (s.value / s.unit) <;> cases up : s.holds (s.value / s.unit + 1) <;>
    rw [down, up] at picked <;> cases picked
  · exact up
  · exact down
  · have either : ∀ upper : Bool, s.holds (if upper then s.value / s.unit + 1 else s.value / s.unit) := by
      rintro (_ | _)
      · exact down
      · exact up
    exact either _

/-- On a grid no coarser than a quarter of a unit of the last place, the multiple below the double
rounds to it. -/
theorem holds_floor (some : 0 < m) (fine : (10 : ℚ) ^ grid ≤ 1 / 4 * 2 ^ e) :
    (of m e grid).holds ((of m e grid).value / (of m e grid).unit) := by
  have unit := common_pos e grid
  generalize floor : (of m e grid).value / (of m e grid).unit = c
  have under : (c : ℚ) * 10 ^ grid ≤ m * 2 ^ e := by
    have : c * (of m e grid).unit ≤ (of m e grid).value := by
      rw [← floor]
      exact Nat.div_mul_le_self ..
    rw [← Nat.cast_le (α := ℚ), mul_unit, value_eq] at this
    exact (mul_le_mul_iff_of_pos_right unit).1 this
  have above : (m : ℚ) * 2 ^ e < (c + 1) * 10 ^ grid := by
    have : (of m e grid).value < (c + 1) * (of m e grid).unit := by
      rw [← floor]
      exact (Nat.div_lt_iff_lt_mul (unit_pos ..)).1 (Nat.lt_succ_self _)
    rw [← Nat.cast_lt (α := ℚ), mul_unit, value_eq] at this
    exact_mod_cast (mul_lt_mul_iff_of_pos_right unit).1 this
  have low : (m - below m e) * 2 ^ e < (c : ℚ) * 10 ^ grid := by
    have := quarter_le_below m e
    nlinarith [two_zpow_pos e]
  have high : (c : ℚ) * 10 ^ grid < (m + 1 / 2) * 2 ^ e := by
    linarith [two_zpow_pos e]
  exact (holds_iff some).2 (.of_lt low high)

theorem pick?_ne_none (some : 0 < m) (tie : Tie) (fine : (10 : ℚ) ^ grid ≤ 1 / 4 * 2 ^ e) :
    (of m e grid).pick? tie ≠ none := by
  unfold pick?
  dsimp only
  rw [holds_floor some fine]
  cases (of m e grid).holds ((of m e grid).value / (of m e grid).unit + 1) <;> nofun

end Spread

/-! ## The search -/

/-- The search finds a decimal that rounds to the double if its last grid is fine enough. -/
theorem roundsTo_shortestFrom (some : 0 < m) (tie : Tie) {tries : Nat}
    (fine : (10 : ℚ) ^ (grid - tries) ≤ 1 / 4 * 2 ^ e) :
    RoundsTo m e ((shortestFrom m e tie (tries + 1) grid).1 *
      10 ^ (shortestFrom m e tie (tries + 1) grid).2) := by
  induction tries generalizing grid with
  | zero =>
    rw [Nat.cast_zero, sub_zero] at fine
    unfold shortestFrom
    split
    · rename_i c picked
      exact (Spread.holds_iff some).1 (Spread.holds_of_pick? picked)
    · rename_i missed
      exact absurd missed (Spread.pick?_ne_none some tie fine)
  | succ tries ih =>
    unfold shortestFrom
    split
    · rename_i c picked
      exact (Spread.holds_iff some).1 (Spread.holds_of_pick? picked)
    · refine ih ?_
      rwa [show grid - 1 - (tries : Int) = grid - ((tries + 1 : Nat) : Int) by push_cast; ring]

/-- Three tenths and ten thirty-thirds stand on either side of the decimal logarithm of two. -/
theorem ten_zpow_le {a b : Int} (up : 10 * a ≤ 3 * b) (down : 33 * a ≤ 10 * b) :
    (10 : ℚ) ^ a ≤ 2 ^ b := by
  have ten : (1 : ℚ) ≤ 10 := by norm_num
  rcases le_or_gt 0 b with natural | negative
  · refine (pow_le_pow_iff_left₀ (by positivity) (by positivity) (show 10 ≠ 0 by decide)).1 ?_
    calc ((10 : ℚ) ^ a) ^ 10 = 10 ^ (10 * a) := by
          rw [← zpow_natCast, ← zpow_mul, mul_comm]
          rfl
      _ ≤ 10 ^ (3 * b) := zpow_le_zpow_right₀ ten up
      _ = ((10 : ℚ) ^ (3 : Int)) ^ b := zpow_mul ..
      _ ≤ ((2 : ℚ) ^ (10 : Int)) ^ b := zpow_le_zpow_left₀ natural (by norm_num) (by norm_num)
      _ = ((2 : ℚ) ^ b) ^ 10 := by
          rw [← zpow_mul, mul_comm, zpow_mul]
          rfl
  · refine (pow_le_pow_iff_left₀ (by positivity) (by positivity) (show 33 ≠ 0 by decide)).1 ?_
    have flipped : ((10 : ℚ) ^ (10 : Int)) ^ b ≤ ((2 : ℚ) ^ (33 : Int)) ^ b := by
      obtain ⟨n, rfl⟩ : ∃ n : Nat, b = -n := ⟨b.natAbs, by omega⟩
      rw [zpow_neg, zpow_neg, zpow_natCast, zpow_natCast]
      refine inv_anti₀ (by positivity) (pow_le_pow_left₀ (by norm_num) (by norm_num) n)
    calc ((10 : ℚ) ^ a) ^ 33 = 10 ^ (33 * a) := by
          rw [← zpow_natCast, ← zpow_mul, mul_comm]
          rfl
      _ ≤ 10 ^ (10 * b) := zpow_le_zpow_right₀ ten down
      _ = ((10 : ℚ) ^ (10 : Int)) ^ b := zpow_mul ..
      _ ≤ ((2 : ℚ) ^ (33 : Int)) ^ b := flipped
      _ = ((2 : ℚ) ^ b) ^ 33 := by
          rw [← zpow_mul, mul_comm, zpow_mul]
          rfl

/-- The last grid that is tried is fine enough for every finite double. -/
theorem finest_grid (c : Canonical m e) :
    (10 : ℚ) ^ (coarsestGrid m e - (23 : Nat)) ≤ 1 / 4 * 2 ^ e := by
  have quarter : (1 / 4 : ℚ) * 2 ^ e = 2 ^ (e - 2) := by
    rw [zpow_sub₀ (by norm_num)]
    norm_num
    ring
  have log : m.log2 < 53 := (Nat.log2_lt c.positive.ne').2 c.bounded
  have least := c.least
  have greatest := c.greatest
  rw [quarter]
  unfold coarsestGrid
  exact ten_zpow_le (by omega) (by omega)

/-- The shortest decimal of a double rounds to it. -/
theorem roundsTo_shortest (c : Canonical m e) (tie : Tie) :
    RoundsTo m e ((shortest m e tie).1 * 10 ^ (shortest m e tie).2) := by
  unfold shortest
  rw [if_neg c.positive.ne']
  exact roundsTo_shortestFrom c.positive tie (finest_grid c)

end Lox.Number
