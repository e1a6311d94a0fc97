import Mathlib
import VideoPage.Binary64.Rounding

/-! Rounding keeps the order. Sizes grow with their ranks, so the rank nearest to a quotient
grows with the quotient, and a quotient that is a size already keeps its rank. -/

namespace VideoPage.Proofs.NearestRank
open Magnitude

/-- Where the spacing is `2 ^ doublings`, a rank's size is a multiple of it. The last multiple
belongs to the next spacing too. -/
theorem sizeOfRank_eq {doublings multiple : Nat} (bounded : multiple ≤ 2 ^ 53)
    (normal : doublings = 0 ∨ 2 ^ 52 ≤ multiple) :
    sizeOfRank (doublings * 2 ^ 52 + multiple) = multiple * 2 ^ doublings := by
  simp only [sizeOfRank, Nat.pow_eq]
  rcases Nat.lt_or_eq_of_le bounded with inside | rfl
  · have same : (doublings * 2 ^ 52 + multiple) / 2 ^ 52 - 1 = doublings := by omega
    rw [same, Nat.add_sub_cancel_left]
  · have next : (doublings * 2 ^ 52 + 2 ^ 53) / 2 ^ 52 - 1 = doublings + 1 := by omega
    have rest : doublings * 2 ^ 52 + 2 ^ 53 - (doublings + 1) * 2 ^ 52 = 2 ^ 52 := by omega
    rw [next, rest]
    omega

theorem exists_multiple (rank : Nat) : ∃ doublings multiple, rank = doublings * 2 ^ 52 + multiple ∧
    multiple < 2 ^ 53 ∧ (doublings = 0 ∨ 2 ^ 52 ≤ multiple) :=
  ⟨rank / 2 ^ 52 - 1, rank - (rank / 2 ^ 52 - 1) * 2 ^ 52, by omega, by omega, by omega⟩

theorem sizeOfRank_strictMono : StrictMono sizeOfRank := by
  apply strictMono_nat_of_lt_succ
  intro rank
  obtain ⟨doublings, multiple, rfl, bounded, normal⟩ := exists_multiple rank
  rw [Nat.add_assoc, sizeOfRank_eq (Nat.le_of_lt bounded) normal, sizeOfRank_eq bounded (by omega)]
  exact Nat.mul_lt_mul_of_pos_right (Nat.lt_succ_self multiple) (Nat.two_pow_pos doublings)

/-- How a size is cut down to a multiple of the spacing that it lies in. -/
theorem rankBelow_shape (size : Nat) : ∃ doublings, rankBelow size = doublings * 2 ^ 52 + size / 2 ^ doublings ∧
    size / 2 ^ doublings < 2 ^ 53 ∧ (doublings = 0 ∨ 2 ^ 52 ≤ size / 2 ^ doublings) := by
  refine ⟨size.log2 - 52, by simp only [rankBelow, Nat.pow_eq], ?_, ?_⟩
  · rw [Nat.div_lt_iff_lt_mul (Nat.two_pow_pos _), ← Nat.pow_add]
    exact Nat.lt_of_lt_of_le Nat.lt_log2_self (Nat.pow_le_pow_right (by decide) (by omega))
  · by_cases small : size.log2 ≤ 52
    · exact .inl (by omega)
    · refine .inr ?_
      have positive : size ≠ 0 := by
        rintro rfl
        exact small (by decide)
      rw [Nat.le_div_iff_mul_le (Nat.two_pow_pos _), ← Nat.pow_add]
      exact Nat.le_trans (Nat.pow_le_pow_right (by decide) (by omega)) (Nat.log2_self_le positive)

theorem sizeOfRank_rankBelow_le (size : Nat) : sizeOfRank (rankBelow size) ≤ size := by
  obtain ⟨doublings, shape, bounded, normal⟩ := rankBelow_shape size
  rw [shape, sizeOfRank_eq (Nat.le_of_lt bounded) normal]
  exact Nat.div_mul_le_self size _

theorem lt_sizeOfRank_rankBelow_succ (size : Nat) : size < sizeOfRank (rankBelow size + 1) := by
  obtain ⟨doublings, shape, bounded, normal⟩ := rankBelow_shape size
  rw [shape, Nat.add_assoc, sizeOfRank_eq bounded (by omega), Nat.mul_comm]
  exact Nat.lt_mul_div_succ size (Nat.two_pow_pos doublings)

theorem rankBelow_mono {small large : Nat} (le : small ≤ large) : rankBelow small ≤ rankBelow large := by
  have below := sizeOfRank_rankBelow_le small
  have above := lt_sizeOfRank_rankBelow_succ large
  exact Nat.lt_add_one_iff.mp (sizeOfRank_strictMono.lt_iff_lt.mp (by omega))

theorem rankBelow_sizeOfRank (rank : Nat) : rankBelow (sizeOfRank rank) = rank := by
  have below := sizeOfRank_strictMono.le_iff_le.mp (sizeOfRank_rankBelow_le (sizeOfRank rank))
  have above := sizeOfRank_strictMono.lt_iff_lt.mp (lt_sizeOfRank_rankBelow_succ (sizeOfRank rank))
  omega

variable {numerator larger denominator : Nat}

theorem nearestRank_bounds (numerator denominator : Nat) :
    rankBelow (numerator / denominator) ≤ nearestRank numerator denominator ∧
      nearestRank numerator denominator ≤ rankBelow (numerator / denominator) + 1 := by
  simp only [nearestRank]
  split_ifs <;> omega

theorem nearestRank_mono (le : numerator ≤ larger) : nearestRank numerator denominator ≤ nearestRank larger denominator := by
  have low := rankBelow_mono (Nat.div_le_div_right le : numerator / denominator ≤ larger / denominator)
  rcases Nat.lt_or_eq_of_le low with lower | same
  · have first := (nearestRank_bounds numerator denominator).2
    have second := (nearestRank_bounds larger denominator).1
    omega
  · -- Both quotients lie in one gap, and the same middle decides for both.
    simp only [nearestRank, same]
    split_ifs <;> omega

theorem nearestRank_sizeOfRank (rank : Nat) (positive : 0 < denominator) :
    nearestRank (sizeOfRank rank * denominator) denominator = rank := by
  have closer : 2 * (sizeOfRank rank * denominator) < denominator * (sizeOfRank rank + sizeOfRank (rank + 1)) := by
    have grows := Nat.mul_lt_mul_of_pos_left (sizeOfRank_strictMono (Nat.lt_add_one rank)) positive
    rw [Nat.mul_add, Nat.mul_comm (sizeOfRank rank)]
    omega
  rw [nearestRank, Nat.mul_div_cancel _ positive, rankBelow_sizeOfRank, if_pos closer]

/-- A quotient that is at most a size rounds to at most that size. -/
theorem nearest_rank_le {bound : Magnitude} (positive : 0 < denominator) (le : numerator ≤ bound.units * denominator) :
    (nearest numerator denominator).rank ≤ bound.rank := by
  have rounded : nearestRank numerator denominator ≤ nearestRank (bound.units * denominator) denominator := nearestRank_mono le
  rw [units, nearestRank_sizeOfRank bound.rank positive] at rounded
  exact Nat.le_trans (Nat.min_le_left _ _) rounded

/-- A quotient that is at least a size rounds to at least that size. -/
theorem le_nearest_rank {bound : Magnitude} (positive : 0 < denominator) (le : bound.units * denominator ≤ numerator) :
    bound.rank ≤ (nearest numerator denominator).rank := by
  have rounded : nearestRank (bound.units * denominator) denominator ≤ nearestRank numerator denominator := nearestRank_mono le
  rw [units, nearestRank_sizeOfRank bound.rank positive] at rounded
  exact le_min rounded bound.rank_le

/-- A quotient that is a size is not rounded. -/
theorem nearest_units (magnitude : Magnitude) (positive : 0 < denominator) :
    nearest (magnitude.units * denominator) denominator = magnitude :=
  ext_rank (le_antisymm (nearest_rank_le positive le_rfl) (le_nearest_rank positive le_rfl))

theorem nearest_mono (le : numerator ≤ larger) : (nearest numerator denominator).rank ≤ (nearest larger denominator).rank :=
  min_le_min_right _ (nearestRank_mono le)

theorem units_le {small large : Magnitude} (le : small.rank ≤ large.rank) : small.units ≤ large.units :=
  sizeOfRank_strictMono.monotone le

theorem units_pos {magnitude : Magnitude} (positive : 0 < magnitude.rank) : 0 < magnitude.units :=
  sizeOfRank_strictMono positive

end VideoPage.Proofs.NearestRank
