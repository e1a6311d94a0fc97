import VideoPage.Playback.Percent
import VideoPage.Proofs.NearestRank

/-! Percentages and the times that they stand for stay in range. The bounds are those of the
rounded results, so a time computed from a duration never lies behind the duration. -/

namespace VideoPage.Proofs.PercentRange
open Magnitude (nearest one)
open NearestRank

/-- A number from zero to a limit. Negative zero is one. -/
inductive Within (limit : Magnitude) : Binary64 → Prop where
  | signed (negative : Bool) (magnitude : Magnitude) (bounded : magnitude.rank ≤ limit.rank)
      (zero : negative = true → magnitude.rank = 0) : Within limit (.signed negative magnitude)

section Order

variable {limit : Magnitude} {x : Binary64}

theorem lt_iff {n m : Bool} {a b : Magnitude} :
    Binary64.signed n a < .signed m b ↔ Binary64.position n a < Binary64.position m b :=
  decide_eq_true_iff

theorem le_iff {n m : Bool} {a b : Magnitude} :
    Binary64.signed n a ≤ .signed m b ↔ Binary64.position n a ≤ Binary64.position m b :=
  decide_eq_true_iff

theorem zero_eq : (0 : Binary64) = .signed false .zero := by decide +kernel

theorem Within.zero : Within limit 0 := by
  rw [zero_eq]
  exact .signed false .zero (Nat.zero_le _) nofun

theorem Within.top : Within limit (.signed false limit) := .signed false limit (Nat.le_refl _) nofun

theorem Within.mono {larger : Magnitude} (le : limit.rank ≤ larger.rank) (within : Within limit x) : Within larger x := by
  obtain ⟨negative, magnitude, bounded, zero⟩ := within
  exact .signed negative magnitude (Nat.le_trans bounded le) zero

/-- Where a number in range stands in the order: nowhere below zero. -/
theorem Within.position_eq {negative : Bool} {magnitude : Magnitude} (zero : negative = true → magnitude.rank = 0) :
    Binary64.position negative magnitude = magnitude.rank := by
  cases negative with
  | false => rfl
  | true => simp [Binary64.position, zero rfl]

/-- Bringing a number into a range that it is in changes nothing, not even a zero's sign. -/
theorem Within.clamp_eq (within : Within limit x) : x.clamp 0 (.signed false limit) = x := by
  obtain ⟨negative, magnitude, bounded, zero⟩ := within
  have above : ¬ Binary64.signed negative magnitude < 0 := by
    rw [zero_eq, lt_iff, position_eq zero]
    exact not_lt.mpr (Int.natCast_nonneg _)
  have below : ¬ Binary64.signed false limit < .signed negative magnitude := by
    rw [lt_iff, position_eq zero]
    exact not_lt.mpr (Int.ofNat_le.mpr bounded)
  rw [Binary64.clamp, if_neg above]
  exact if_neg below

theorem clamp_within (number : x.isNaN = false) : Within limit (x.clamp 0 (.signed false limit)) := by
  have raised : ∃ negative magnitude, (if x < 0 then 0 else x) = Binary64.signed negative magnitude ∧
      (negative = true → magnitude.rank = 0) := by
    cases x with
    | nan => cases number
    | signed negative magnitude =>
      split
      · exact ⟨false, .zero, zero_eq, nofun⟩
      · next above =>
        refine ⟨negative, magnitude, rfl, ?_⟩
        rintro rfl
        simpa [zero_eq, lt_iff, Binary64.position, Magnitude.zero] using above
  obtain ⟨negative, magnitude, same, zero⟩ := raised
  simp only [Binary64.clamp, same]
  split
  · exact .top
  · next below =>
    rw [lt_iff, Within.position_eq zero, not_lt] at below
    exact .signed negative magnitude (Int.ofNat_le.mp below) zero

end Order

section Shares

/-- The magnitudes of a hundred and of one. -/
def hundred : Magnitude := ⟨0x4059000000000000, by decide⟩

def unit : Magnitude := ⟨1023 * 2 ^ 52, by decide⟩

theorem full_eq : Percent.full = .signed false hundred := by decide +kernel

theorem fallback_eq : Percent.segmentFallback = .signed false unit := by decide +kernel

theorem unit_units : unit.units = one := by decide +kernel

theorem one_pos : 0 < one := by decide +kernel

theorem nearest_zero {denominator : Nat} (positive : 0 < denominator) : (nearest 0 denominator).rank = 0 := by
  have bounded : (nearest 0 denominator).rank ≤ Magnitude.zero.rank := nearest_rank_le positive (Nat.zero_le _)
  exact Nat.le_zero.mp bounded

variable {limit : Magnitude} {x : Binary64}

theorem div_eq {negative : Bool} {a b : Magnitude} (finite : a.isFinite = true)
    (bounded : b.isFinite = true) (positive : 0 < b.rank) :
    Binary64.signed negative a / .signed false b = .signed negative (nearest (a.units * one) b.units) := by
  change Binary64.div _ _ = _
  simp only [Binary64.div, finite, bounded, Nat.ne_of_gt positive, if_true, if_false, Bool.bne_false]

theorem mul_eq {negative : Bool} {a b : Magnitude} (finite : a.isFinite = true) (bounded : b.isFinite = true) :
    Binary64.signed negative a * .signed false b = .signed negative (nearest (a.units * b.units) one) := by
  change Binary64.mul _ _ = _
  simp only [Binary64.mul, finite, bounded, Bool.and_self, if_true, Bool.bne_false]

theorem clamp_percent (percent : Binary64) : Within hundred (Percent.clamp percent) := by
  rw [Percent.clamp, full_eq]
  split
  · exact .zero
  · next number => exact clamp_within (by simpa using number)

theorem Within.isNaN_eq (within : Within limit x) : x.isNaN = false := by
  obtain ⟨negative, magnitude, -, -⟩ := within
  rfl

/-- What has been brought into range stays as it is. -/
theorem clamp_clamp (percent : Binary64) : Percent.clamp (Percent.clamp percent) = Percent.clamp percent := by
  have within := clamp_percent percent
  have number : ¬ (Percent.clamp percent).isNaN = true := by simp [within.isNaN_eq]
  calc Percent.clamp (Percent.clamp percent)
    _ = (Percent.clamp percent).clamp 0 Percent.full := if_neg number
    _ = Percent.clamp percent := by rw [full_eq, within.clamp_eq]

/-- The part of a whole that a percentage stands for. -/
theorem div_within (within : Within hundred x) : Within unit (x / Percent.full) := by
  obtain ⟨negative, magnitude, bounded, zero⟩ := within
  have finite : magnitude.isFinite = true := decide_eq_true (Nat.lt_of_le_of_lt bounded (by decide))
  have positive : 0 < hundred.units := units_pos (by decide)
  rw [full_eq, div_eq finite (by decide) (by decide)]
  refine .signed negative _ (nearest_rank_le positive ?_) ?_
  · rw [unit_units, Nat.mul_comm]
    exact Nat.mul_le_mul_left _ (units_le bounded)
  · intro sign
    have none : magnitude.units = 0 := by rw [Magnitude.units, zero sign]; rfl
    rw [none, Nat.zero_mul]
    exact nearest_zero positive

/-- A part of a finite number. -/
theorem mul_within (within : Within unit x) (finite : limit.isFinite = true) : Within limit (x * .signed false limit) := by
  obtain ⟨negative, magnitude, bounded, zero⟩ := within
  have part : magnitude.isFinite = true := decide_eq_true (Nat.lt_of_le_of_lt bounded (by decide))
  rw [mul_eq part finite]
  refine .signed negative _ (nearest_rank_le one_pos ?_) ?_
  · rw [Nat.mul_comm, ← unit_units]
    exact Nat.mul_le_mul_left _ (units_le bounded)
  · intro sign
    have none : magnitude.units = 0 := by rw [Magnitude.units, zero sign]; rfl
    rw [none, Nat.zero_mul]
    exact nearest_zero one_pos

theorem share_within (percent : Binary64) (finite : limit.isFinite = true) :
    Within limit (Percent.share percent (.signed false limit)) :=
  mul_within (div_within (clamp_percent percent)) finite

theorem known_shape {duration : Binary64} (known : Percent.isKnownDuration duration = true) :
    ∃ limit, duration = .signed false limit ∧ limit.isFinite = true ∧ 0 < limit.rank := by
  simp only [Percent.isKnownDuration, Bool.and_eq_true, decide_eq_true_eq] at known
  obtain ⟨finite, positive⟩ := known
  cases duration with
  | nan => cases finite
  | signed negative limit =>
    rw [zero_eq, lt_iff] at positive
    cases negative with
    | false => exact ⟨limit, rfl, finite, Int.ofNat_lt.mp positive⟩
    | true =>
      have above : (0 : Int) < -limit.rank := positive
      omega

/-- What a duration that is not known may be where it still is a range. -/
theorem unknown_shape {duration : Binary64} (range : 0 ≤ duration) (unknown : Percent.isKnownDuration duration = false) :
    duration = .signed false .infinity ∨ ∃ negative, duration = .signed negative .zero := by
  rw [zero_eq] at range
  cases duration with
  | nan => cases range
  | signed negative limit =>
    have nonneg : 0 ≤ Binary64.position negative limit := le_iff.mp range
    by_cases empty : limit.rank = 0
    · exact .inr ⟨negative, by rw [Magnitude.ext_rank (a := limit) (b := .zero) empty]⟩
    · cases negative with
      | true =>
        have below : (0 : Int) ≤ -limit.rank := nonneg
        omega
      | false =>
        have positive : (0 : Binary64) < .signed false limit := by
          rw [zero_eq, lt_iff]
          exact Int.ofNat_lt.mpr (Nat.pos_of_ne_zero empty)
        have infinite : limit.isFinite = false := by
          simpa [Percent.isKnownDuration, Binary64.isFinite, positive] using unknown
        have top : limit.rank = Magnitude.infinity.rank :=
          Nat.le_antisymm limit.rank_le (not_lt.mp (of_decide_eq_false infinite))
        exact .inl (by rw [Magnitude.ext_rank top])

theorem not_le_zero (positive : 0 < limit.rank) : ¬ Binary64.signed false limit ≤ 0 := by
  rw [zero_eq, le_iff]
  exact not_le.mpr (Int.ofNat_lt.mpr positive)

/-- Bringing a number into a range of no length leaves only zeros as they are. -/
theorem clamp_empty (negative : Bool) (within : Within limit x) :
    x.clamp 0 (.signed negative .zero) = if 0 < x then .signed negative .zero else x := by
  obtain ⟨sign, magnitude, bounded, zero⟩ := within
  have above : ¬ Binary64.signed sign magnitude < 0 := by
    rw [zero_eq, lt_iff, Within.position_eq zero]
    exact not_lt.mpr (Int.natCast_nonneg _)
  have same : Binary64.signed negative .zero < .signed sign magnitude ↔ 0 < Binary64.signed sign magnitude := by
    rw [zero_eq, lt_iff, lt_iff]
    cases negative <;> rfl
  rw [Binary64.clamp, if_neg above]
  simp only [same]

theorem toTime_accepted (percent : Binary64) {duration : Binary64} (range : 0 ≤ duration) :
    (Percent.toTime percent duration).clamp 0 duration = Percent.toTime percent duration := by
  cases known : Percent.isKnownDuration duration with
  | true =>
    obtain ⟨limit, rfl, finite, -⟩ := known_shape known
    rw [Percent.toTime, if_pos known]
    exact (share_within percent finite).clamp_eq
  | false =>
    simp only [Percent.toTime, known, Bool.false_eq_true, if_false]
    rcases unknown_shape range known with rfl | ⟨negative, rfl⟩
    · exact Within.zero.clamp_eq
    · rw [clamp_empty negative (Within.zero : Within .zero 0), if_neg (by decide +kernel)]

/-- A segment lies within the duration unless there is none: then segments are laid out over
another duration. -/
theorem toSegmentTime_accepted_iff (percent : Binary64) {duration : Binary64} (range : 0 ≤ duration) :
    (Percent.toSegmentTime percent duration).clamp 0 duration = Percent.toSegmentTime percent duration ↔
      ¬ (duration ≤ 0 ∧ 0 < Percent.toSegmentTime percent duration) := by
  cases known : Percent.isKnownDuration duration with
  | true =>
    obtain ⟨limit, rfl, finite, positive⟩ := known_shape known
    have accepted := (share_within percent finite).clamp_eq
    simp only [Percent.toSegmentTime, known, if_true, accepted, not_le_zero positive, false_and, not_false_eq_true]
  | false =>
    have within : Within unit (Percent.toSegmentTime percent duration) := by
      simp only [Percent.toSegmentTime, known, Bool.false_eq_true, if_false, fallback_eq]
      exact share_within percent (by decide)
    rcases unknown_shape range known with rfl | ⟨negative, rfl⟩
    · have endless : Within .infinity (Percent.toSegmentTime percent (.signed false .infinity)) := within.mono unit.rank_le
      have positive : ¬ Binary64.signed false .infinity ≤ 0 := not_le_zero (by decide)
      simp only [endless.clamp_eq, positive, false_and, not_false_eq_true]
    · have empty : Binary64.signed negative .zero ≤ 0 := by
        rw [zero_eq, le_iff]
        cases negative <;> decide
      rw [clamp_empty negative within]
      split
      · next positive =>
        simp only [empty, positive, and_self, not_true_eq_false, iff_false]
        intro same
        rw [← same] at positive
        cases negative <;> exact absurd positive (by decide +kernel)
      · next positive => simp only [positive, and_false, not_false_eq_true]

end Shares

end VideoPage.Proofs.PercentRange
