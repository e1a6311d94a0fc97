import VideoPage.Decimal.Shortest
import VideoPage.Proofs.CorrectRounding

/-! Decimals as exact numbers. Reading a decimal rounds it correctly whatever its exponent is, and
the shortest decimal of a magnitude reads back as that magnitude. -/

namespace VideoPage.Proofs.ExactDecimals
open Magnitude (one)
open NearestRank CorrectRounding

/-- The number that a decimal stands for. -/
def number (d : Decimal) : ℚ := d.coefficient * 10 ^ d.exponent

section Reading

variable (d : Decimal)

theorem number_nonneg : 0 ≤ number d := by
  rw [number]
  positivity

theorem rounds_nearest : Rounds (number d) d.nearest := by
  have positive : 0 < Nat.pow 10 (-d.exponent).toNat := Nat.pow_pos (by decide)
  have rounded := CorrectRounding.rounds_nearest (d.coefficient * Nat.pow 10 d.exponent.toNat * one) positive
  have same : ((d.coefficient * Nat.pow 10 d.exponent.toNat * one : ℕ) : ℚ) / ((Nat.pow 10 (-d.exponent).toNat : ℕ) * one) = number d := by
    have power : (10 : ℚ) ^ d.exponent.toNat / 10 ^ (-d.exponent).toNat = 10 ^ d.exponent := by
      rw [← zpow_natCast, ← zpow_natCast, ← zpow_sub₀ (by norm_num)]
      congr 1
      omega
    rw [number, ← power, Nat.cast_mul, mul_div_mul_right _ _ one_positive.ne']
    simp only [Nat.pow_eq, Nat.cast_mul, Nat.cast_pow, Nat.cast_ofNat, mul_div_assoc]
  rwa [same] at rounded

/-- A decimal lies below ten to its order, and not below a tenth of that. -/
theorem number_lt_order : number d < 10 ^ d.order := by
  have digits : d.coefficient < 10 ^ (Nat.toDigits 10 d.coefficient).length :=
    (Nat.length_toDigits_le_iff (by decide) Nat.length_toDigits_pos).mp le_rfl
  have cast : (d.coefficient : ℚ) < 10 ^ (Nat.toDigits 10 d.coefficient).length := by exact_mod_cast digits
  rw [number, Decimal.order, zpow_add₀ (by norm_num), zpow_natCast]
  apply mul_lt_mul_of_pos_right cast
  positivity

theorem order_le_number (some : d.coefficient ≠ 0) : (10 : ℚ) ^ (d.order - 1) ≤ number d := by
  have digits : 10 ^ ((Nat.toDigits 10 d.coefficient).length - 1) ≤ d.coefficient := by
    by_cases single : (Nat.toDigits 10 d.coefficient).length = 1
    · rw [single]
      exact Nat.one_le_iff_ne_zero.mpr some
    · have long : 0 < (Nat.toDigits 10 d.coefficient).length := Nat.length_toDigits_pos
      apply not_lt.mp
      rw [← Nat.length_toDigits_le_iff (by decide) (by omega)]
      omega
  have cast : ((10 : ℚ) ^ ((Nat.toDigits 10 d.coefficient).length - 1)) ≤ d.coefficient := by exact_mod_cast digits
  have exponent : d.order - 1 = ((Nat.toDigits 10 d.coefficient).length - 1 : ℕ) + d.exponent := by
    have long : 0 < (Nat.toDigits 10 d.coefficient).length := Nat.length_toDigits_pos
    rw [Decimal.order]
    omega
  rw [exponent, zpow_add₀ (by norm_num), zpow_natCast, number]
  apply mul_le_mul_of_nonneg_right cast
  positivity

variable {d} {places bits : Nat}

private theorem lt_half_unit (small : d.order ≤ -places) (sizes : 2 * one < Nat.pow 10 places) : 2 * (number d * one) < 1 := by
  have below : number d < ((10 : ℚ) ^ places)⁻¹ := by
    have power : (10 : ℚ) ^ d.order ≤ 10 ^ (-places : ℤ) := zpow_le_zpow_right₀ (by norm_num) small
    rw [zpow_neg, zpow_natCast] at power
    exact (number_lt_order d).trans_le power
  have cast : 2 * (one : ℚ) < 10 ^ places := by
    rw [Nat.pow_eq] at sizes
    exact_mod_cast sizes
  have positive := one_positive
  calc 2 * (number d * one) = number d * (2 * one) := by ring
    _ < ((10 : ℚ) ^ places)⁻¹ * (2 * one) := mul_lt_mul_of_pos_right below (by linarith)
    _ < ((10 : ℚ) ^ places)⁻¹ * 10 ^ places := mul_lt_mul_of_pos_left cast (by positivity)
    _ = 1 := inv_mul_cancel₀ (by positivity)

private theorem power_le (some : d.coefficient ≠ 0) (large : places < d.order) (sizes : Nat.pow 2 bits ≤ Nat.pow 10 places) :
    (2 : ℚ) ^ bits ≤ number d := by
  have cast : (2 : ℚ) ^ bits ≤ 10 ^ places := by
    simp only [Nat.pow_eq] at sizes
    exact_mod_cast sizes
  have power : (10 : ℚ) ^ (places : ℤ) ≤ 10 ^ (d.order - 1) := zpow_le_zpow_right₀ (by norm_num) (by omega)
  rw [zpow_natCast] at power
  exact cast.trans (power.trans (order_le_number d some))

variable (d)

/-- The orders at which reading stops to look at the digits lie beyond all rounding. -/
theorem rounds_toMagnitude : Rounds (number d) d.toMagnitude := by
  rw [Decimal.toMagnitude]
  split
  next small =>
    apply rounds_zero (number_nonneg d)
    rcases Bool.or_eq_true_iff.mp small with none | least
    · have zero : number d = 0 := by simp [number, of_decide_eq_true none]
      rw [zero, zero_mul, mul_zero]
      exact zero_lt_one
    · have order : d.order ≤ -(331 : ℕ) := by
        have below := of_decide_eq_true least
        omega
      exact lt_half_unit order (by decide +kernel)
  next notSmall =>
    have some : d.coefficient ≠ 0 := fun none => notSmall (by simp [none])
    split
    next large =>
      have beyond : (2 : ℚ) ^ 1024 ≤ number d := @power_le d 310 1024 some large (by decide +kernel)
      exact rounds_infinity ((sub_le_self _ (by positivity)).trans beyond)
    next => exact rounds_nearest d

end Reading

section Shortest

variable {tie : TieRule} {a : Magnitude}

theorem gridPoint?_nearest {exponent : Int} {d : Decimal} (point : a.gridPoint? tie exponent = some d) : d.nearest = a := by
  simp only [Magnitude.gridPoint?] at point
  split at point
  next below =>
    split at point
    next above =>
      obtain rfl := Option.some.inj point
      exact (Bool.and_eq_true_iff.mp above).1 |> of_decide_eq_true
    next =>
      obtain rfl := Option.some.inj point
      exact below
  next =>
    split at point
    next above =>
      obtain rfl := Option.some.inj point
      exact above
    next => cases point

/-- On a grid that divides one, a magnitude is a point itself. -/
private theorem number_point {places : Nat} {exponent : Int} (grid : exponent = -places)
    (divides : one * Nat.pow 5 places = Nat.pow 10 places) (a : Magnitude) :
    number ⟨a.units * Nat.pow 5 places, exponent⟩ = value a := by
  have power : (one : ℚ) * 5 ^ places = 10 ^ places := by
    simp only [Nat.pow_eq] at divides
    exact_mod_cast divides
  rw [number, grid, zpow_neg, zpow_natCast, ← power, value, ← div_eq_mul_inv, Nat.cast_mul, Nat.pow_eq, Nat.cast_pow,
    Nat.cast_ofNat, mul_div_mul_right _ _ (by positivity)]

theorem number_finest (a : Magnitude) : number ⟨a.units * Nat.pow 5 1074, -1074⟩ = value a := by
  apply number_point
  · rfl
  · decide +kernel

theorem rounds_coarsestFrom (tie : TieRule) (a : Magnitude) (steps : Nat) : Rounds (number (a.coarsestFrom tie steps)) a := by
  induction steps with
  | zero =>
    rw [Magnitude.coarsestFrom, number_finest]
    exact rounds_value a
  | succ steps ih =>
    rw [Magnitude.coarsestFrom]
    cases point : a.gridPoint? tie (steps + 1 - 1074) with
    | none => exact ih
    | some d =>
      have rounded := rounds_nearest d
      rwa [gridPoint?_nearest point] at rounded

theorem rounds_shortest (tie : TieRule) (a : Magnitude) : Rounds (number (a.shortest tie)) a := by
  rw [Magnitude.shortest]
  split
  next zero =>
    obtain rfl : a = .zero := Magnitude.ext_rank zero
    have nothing : number ⟨0, 0⟩ = 0 := by simp [number]
    rw [nothing]
    apply rounds_zero le_rfl
    rw [zero_mul, mul_zero]
    exact zero_lt_one
  next => exact rounds_coarsestFrom tie a _

end Shortest

end VideoPage.Proofs.ExactDecimals
