import VideoPage.Decimal.Basic
import VideoPage.Proofs.NearestRank

/-! What the correctly rounded magnitude of an exact number is, and that rounding finds it. No
decimal is so small or so large that reading it would round in another way. -/

namespace VideoPage.Proofs.CorrectRounding
open Magnitude (one nearest nearestRank rankBelow sizeOfRank topRank)
open NearestRank

/-- The exact number that a magnitude stands for. -/
def value (a : Magnitude) : ℚ := a.units / one

/-- The middle of the gap above the largest finite magnitude. -/
def overflow : ℚ := 2 ^ 1024 - 2 ^ 970

/-- Rounding to nearest. A number below `overflow` goes to the closest finite magnitude, and from
the middle between two to the one whose last bit is zero. Any other number goes to infinity. -/
structure Rounds (x : ℚ) (a : Magnitude) : Prop where
  finite : a.isFinite = true ↔ x < overflow
  closest : a.isFinite = true → ∀ b, b.isFinite = true → |x - value a| ≤ |x - value b|
  even : a.isFinite = true → ∀ b, b.isFinite = true → |x - value b| = |x - value a| → b = a ∨ a.rank % 2 = 0

section Ranks

theorem one_positive : (0 : ℚ) < one := by
  have positive : 0 < one := by decide +kernel
  exact_mod_cast positive

theorem isFinite_iff {a : Magnitude} : a.isFinite = true ↔ a.rank < topRank := decide_eq_true_iff

theorem infinite_rank {a : Magnitude} (infinite : ¬ a.isFinite = true) : a.rank = topRank := by
  have below := a.rank_le
  rw [isFinite_iff] at infinite
  omega

theorem size_lt {i j : Nat} (less : i < j) : (sizeOfRank i : ℚ) < sizeOfRank j := by
  exact_mod_cast sizeOfRank_strictMono less

theorem size_le {i j : Nat} (le : i ≤ j) : (sizeOfRank i : ℚ) ≤ sizeOfRank j := by
  exact_mod_cast sizeOfRank_strictMono.monotone le

/-- A rank whose size is closest to a number of units, the even one of two. -/
structure Closest (u : ℚ) (rank : Nat) : Prop where
  le : ∀ other, |u - sizeOfRank rank| ≤ |u - sizeOfRank other|
  even : ∀ other, |u - sizeOfRank other| = |u - sizeOfRank rank| → other = rank ∨ rank % 2 = 0

variable {u : ℚ} {low : Nat}

private theorem closest_low (above : (sizeOfRank low : ℚ) ≤ u) (below : u < sizeOfRank (low + 1))
    (half : 2 * u < sizeOfRank low + sizeOfRank (low + 1) ∨
      2 * u = sizeOfRank low + sizeOfRank (low + 1) ∧ low % 2 = 0) : Closest u low := by
  have own : |u - sizeOfRank low| = u - sizeOfRank low := abs_of_nonneg (by linarith)
  constructor
  · intro other
    rw [own, le_abs]
    rcases Nat.lt_or_ge low other with later | earlier
    · have grown := size_le (Nat.succ_le_of_lt later)
      rcases half with less | ⟨middle, -⟩
      · exact Or.inr (by linarith)
      · exact Or.inr (by linarith)
    · have grown := size_le earlier
      exact Or.inl (by linarith)
  · intro other same
    rw [own] at same
    rcases Nat.lt_trichotomy other low with earlier | rfl | later
    · have grown := size_lt earlier
      rw [abs_of_nonneg (by linarith)] at same
      linarith
    · exact Or.inl rfl
    · have grown := size_le (Nat.succ_le_of_lt later)
      rw [abs_of_nonpos (by linarith)] at same
      rcases half with less | ⟨-, even⟩
      · linarith
      · exact Or.inr even

private theorem closest_high (above : (sizeOfRank low : ℚ) ≤ u) (below : u < sizeOfRank (low + 1))
    (half : sizeOfRank low + sizeOfRank (low + 1) < 2 * u ∨
      2 * u = sizeOfRank low + sizeOfRank (low + 1) ∧ (low + 1) % 2 = 0) : Closest u (low + 1) := by
  have own : |u - sizeOfRank (low + 1)| = sizeOfRank (low + 1) - u := by
    rw [abs_of_nonpos (by linarith)]
    ring
  constructor
  · intro other
    rw [own, le_abs]
    rcases Nat.lt_or_ge low other with later | earlier
    · have grown := size_le (Nat.succ_le_of_lt later)
      exact Or.inr (by linarith)
    · have grown := size_le earlier
      rcases half with less | ⟨middle, -⟩
      · exact Or.inl (by linarith)
      · exact Or.inl (by linarith)
  · intro other same
    rw [own] at same
    rcases Nat.lt_trichotomy other (low + 1) with earlier | rfl | later
    · have grown := size_le (Nat.lt_succ_iff.mp earlier)
      rw [abs_of_nonneg (by linarith)] at same
      rcases half with less | ⟨-, even⟩
      · linarith
      · exact Or.inr even
    · exact Or.inl rfl
    · have grown := size_lt later
      rw [abs_of_nonpos (by linarith)] at same
      linarith

section Halves

variable (numerator : Nat) {denominator : Nat} (positive : 0 < denominator) (middle : Nat)

include positive

private theorem twice_lt_iff : 2 * ((numerator : ℚ) / denominator) < middle ↔ 2 * numerator < denominator * middle := by
  have scale : (0 : ℚ) < denominator := by exact_mod_cast positive
  rw [← mul_div_assoc, div_lt_iff₀ scale, mul_comm (middle : ℚ)]
  norm_cast

private theorem lt_twice_iff : middle < 2 * ((numerator : ℚ) / denominator) ↔ denominator * middle < 2 * numerator := by
  have scale : (0 : ℚ) < denominator := by exact_mod_cast positive
  rw [← mul_div_assoc, lt_div_iff₀ scale, mul_comm (middle : ℚ)]
  norm_cast

end Halves

theorem closest_nearestRank (numerator : Nat) {denominator : Nat} (positive : 0 < denominator) :
    Closest (numerator / denominator) (nearestRank numerator denominator) := by
  have above : (sizeOfRank (rankBelow (numerator / denominator)) : ℚ) ≤ numerator / denominator := by
    have whole := sizeOfRank_rankBelow_le (numerator / denominator)
    exact (Nat.cast_le.mpr whole).trans Nat.cast_div_le
  have below : (numerator : ℚ) / denominator < sizeOfRank (rankBelow (numerator / denominator) + 1) := by
    have whole := lt_sizeOfRank_rankBelow_succ (numerator / denominator)
    have scale : (0 : ℚ) < denominator := by exact_mod_cast positive
    rw [div_lt_iff₀ scale]
    exact_mod_cast (Nat.div_lt_iff_lt_mul positive).mp whole
  simp only [nearestRank]
  generalize rankBelow (numerator / denominator) = low at above below ⊢
  have less_iff := twice_lt_iff numerator positive (sizeOfRank low + sizeOfRank (low + 1))
  have more_iff := lt_twice_iff numerator positive (sizeOfRank low + sizeOfRank (low + 1))
  rw [Nat.cast_add] at less_iff more_iff
  split
  next less => exact closest_low above below (Or.inl (less_iff.mpr less))
  next notLess =>
    split
    next more => exact closest_high above below (Or.inl (more_iff.mpr more))
    next notMore =>
      have middle : 2 * ((numerator : ℚ) / denominator) = sizeOfRank low + sizeOfRank (low + 1) :=
        le_antisymm (not_lt.mp (notMore ∘ more_iff.mp)) (not_lt.mp (notLess ∘ less_iff.mp))
      rcases Nat.mod_two_eq_zero_or_one low with even | odd
      · rw [even, Nat.add_zero]
        exact closest_low above below (Or.inr ⟨middle, even⟩)
      · rw [odd]
        exact closest_high above below (Or.inr ⟨middle, by omega⟩)

end Ranks

section Top

private theorem cast_size {rank exponent : Nat} (exact : sizeOfRank rank = Nat.pow 2 exponent * one) :
    (sizeOfRank rank : ℚ) = 2 ^ exponent * one := by
  rw [exact, Nat.cast_mul, Nat.pow_eq, Nat.cast_pow, Nat.cast_ofNat]

private theorem size_top : (sizeOfRank topRank : ℚ) = 2 ^ 1024 * one := by
  apply cast_size
  decide +kernel

private theorem cast_gap {rank exponent : Nat} (exact : sizeOfRank (topRank - 1) + 2 * (Nat.pow 2 exponent * one) = sizeOfRank rank) :
    (sizeOfRank (topRank - 1) : ℚ) + 2 * (2 ^ exponent * one) = sizeOfRank rank := by
  rw [← exact, Nat.cast_add, Nat.cast_mul, Nat.cast_mul, Nat.pow_eq, Nat.cast_pow, Nat.cast_ofNat]

private theorem size_last : (sizeOfRank (topRank - 1) : ℚ) + 2 * (2 ^ 970 * one) = sizeOfRank topRank := by
  apply cast_gap
  decide +kernel

theorem overflow_middle : 2 * (overflow * one) = (sizeOfRank (topRank - 1) : ℚ) + sizeOfRank topRank := by
  have last := size_last
  rw [size_top] at last ⊢
  rw [overflow]
  generalize (2 : ℚ) ^ 1024 = top at last ⊢
  generalize (2 : ℚ) ^ 970 = half at last ⊢
  linarith

variable {u : ℚ} {rank : Nat}

theorem Closest.lt_top_iff (closest : Closest u rank) : rank < topRank ↔ u < overflow * one := by
  have middle := overflow_middle
  have gap : (sizeOfRank (topRank - 1) : ℚ) < sizeOfRank topRank := size_lt (by decide)
  constructor
  · intro finite
    by_contra notBelow
    have own := size_le (Nat.le_sub_one_of_lt finite)
    have near := closest.le topRank
    rw [abs_of_nonneg (by linarith)] at near
    rcases le_or_gt (sizeOfRank topRank : ℚ) u with beyond | inside
    · rw [abs_of_nonneg (by linarith)] at near
      linarith
    · -- The number is the middle itself, which goes to infinity because the last finite rank is odd.
      rw [abs_of_neg (by linarith)] at near
      have same : sizeOfRank rank = sizeOfRank (topRank - 1) := by
        have cast : (sizeOfRank rank : ℚ) = sizeOfRank (topRank - 1) := by linarith
        exact_mod_cast cast
      obtain rfl := sizeOfRank_strictMono.injective same
      have tie : |u - sizeOfRank topRank| = |u - sizeOfRank (topRank - 1)| := by
        rw [abs_of_neg (by linarith), abs_of_nonneg (by linarith)]
        linarith
      exact absurd (closest.even topRank tie) (by decide)
  · intro below
    by_contra notFinite
    have own := size_le (not_lt.mp notFinite)
    have near := closest.le (topRank - 1)
    rw [abs_of_neg (by linarith)] at near
    rcases le_or_gt (sizeOfRank (topRank - 1) : ℚ) u with inside | before
    · rw [abs_of_nonneg (by linarith)] at near
      linarith
    · rw [abs_of_neg (by linarith)] at near
      linarith

end Top

section Magnitudes

variable {x : ℚ} {a b : Magnitude}

theorem value_mul_one (a : Magnitude) : value a * one = sizeOfRank a.rank :=
  div_mul_cancel₀ _ one_positive.ne'

private theorem distance (x : ℚ) (a : Magnitude) : |x * one - sizeOfRank a.rank| = |x - value a| * one := by
  rw [← value_mul_one, ← sub_mul, abs_mul, abs_of_pos one_positive]

theorem Closest.rounds (closest : Closest (x * one) a.rank) : Rounds x a where
  finite := by rw [isFinite_iff, closest.lt_top_iff, mul_lt_mul_iff_left₀ one_positive]
  closest := by
    intro _ b _
    have near := closest.le b.rank
    rw [distance, distance] at near
    exact le_of_mul_le_mul_right near one_positive
  even := by
    intro _ b _ same
    have tie : |x * one - sizeOfRank b.rank| = |x * one - sizeOfRank a.rank| := by rw [distance, distance, same]
    exact (closest.even b.rank tie).imp_left Magnitude.ext_rank

/-- From the overflow on, no magnitude is finite. -/
theorem rounds_infinity (large : overflow ≤ x) : Rounds x .infinity := by
  have infinite : Magnitude.infinity.isFinite = false := by decide
  refine ⟨?_, ?_, ?_⟩
  · simp [infinite, not_lt.mpr large]
  · simp [infinite]
  · simp [infinite]

/-- Far enough below the least positive magnitude, numbers go to zero. -/
theorem rounds_zero (nonneg : 0 ≤ x) (small : 2 * (x * one) < 1) : Rounds x .zero := by
  have first : (sizeOfRank Magnitude.zero.rank : ℚ) = 0 := Nat.cast_eq_zero.mpr (by decide)
  have second : (sizeOfRank (Magnitude.zero.rank + 1) : ℚ) = 1 := Nat.cast_eq_one.mpr (by decide)
  have scaled := mul_nonneg nonneg one_positive.le
  apply Closest.rounds
  apply closest_low
  · rwa [first]
  · linarith
  · left
    linarith

theorem rounds_nearest (numerator : Nat) {denominator : Nat} (positive : 0 < denominator) :
    Rounds (numerator / (denominator * one)) (nearest numerator denominator) := by
  have closest := closest_nearestRank numerator positive
  have units : (numerator : ℚ) / (denominator * one) * one = numerator / denominator := by
    rw [div_mul_eq_div_div, div_mul_cancel₀ _ one_positive.ne']
  rw [← units] at closest
  rcases Nat.lt_or_ge (nearestRank numerator denominator) topRank with finite | infinite
  · have rank : (nearest numerator denominator).rank = nearestRank numerator denominator := Nat.min_eq_left (Nat.le_of_lt finite)
    exact Closest.rounds (rank ▸ closest)
  · have top : nearest numerator denominator = .infinity := Magnitude.ext_rank (Nat.min_eq_right infinite)
    have large : ¬ _ < overflow * (one : ℚ) := fun below => absurd (closest.lt_top_iff.mpr below) (not_lt.mpr infinite)
    rw [mul_lt_mul_iff_left₀ one_positive, not_lt] at large
    rw [top]
    exact rounds_infinity large

theorem rounds_value (a : Magnitude) : Rounds (value a) a := by
  apply Closest.rounds
  rw [value_mul_one]
  constructor
  · intro other
    rw [sub_self, abs_zero]
    exact abs_nonneg _
  · intro other same
    rw [sub_self, abs_zero, abs_eq_zero, sub_eq_zero] at same
    exact Or.inl (sizeOfRank_strictMono.injective (by exact_mod_cast same.symm))

theorem value_lt (less : a.rank < b.rank) : value a < value b := by
  apply lt_of_mul_lt_mul_right _ one_positive.le
  rw [value_mul_one, value_mul_one]
  exact size_lt less

/-- Two even ranks as close as each other have an odd one between them, which is closer. -/
private theorem Rounds.not_lt (first : Rounds x a) (second : Rounds x b) (finite : b.isFinite = true) : ¬ a.rank < b.rank := by
  intro less
  have also : a.isFinite = true := first.finite.mpr (second.finite.mp finite)
  have tie := le_antisymm (first.closest also b finite) (second.closest finite a also)
  have evenA : a.rank % 2 = 0 := by
    rcases first.even also b finite tie.symm with rfl | even
    · exact absurd less (lt_irrefl _)
    · exact even
  have evenB : b.rank % 2 = 0 := by
    rcases second.even finite a also tie with rfl | even
    · exact absurd less (lt_irrefl _)
    · exact even
  have bounded := b.rank_le
  let between : Magnitude := ⟨a.rank + 1, by omega⟩
  have last : between.rank < b.rank := by
    change a.rank + 1 < b.rank
    omega
  have inside : between.isFinite = true := isFinite_iff.mpr (Nat.lt_of_lt_of_le last bounded)
  have nearer := first.closest also between inside
  have lower : value a < value between := value_lt (Nat.lt_succ_self _)
  have upper : value between < value b := value_lt last
  rcases abs_eq_abs.mp tie with same | middle
  · linarith
  · rw [abs_of_nonneg (by linarith)] at nearer
    have closer : |x - value between| < x - value a := abs_lt.mpr ⟨by linarith, by linarith⟩
    linarith

theorem Rounds.unique (first : Rounds x a) (second : Rounds x b) : a = b := by
  apply Magnitude.ext_rank
  by_cases finite : b.isFinite = true
  · have also : a.isFinite = true := first.finite.mpr (second.finite.mp finite)
    have notBelow := first.not_lt second finite
    have notAbove := second.not_lt first also
    omega
  · have also : ¬ a.isFinite = true := fun here => finite (second.finite.mpr (first.finite.mp here))
    rw [infinite_rank finite, infinite_rank also]

end Magnitudes

end VideoPage.Proofs.CorrectRounding
