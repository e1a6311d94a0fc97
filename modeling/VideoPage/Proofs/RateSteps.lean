import VideoPage.Playback.Rate
import VideoPage.Proofs.PercentConversions

/-! Steps of the playback rate. A step multiplies or divides by a number below one, so even after
rounding it does not go the wrong way. Each step is cut off at one end of the limits only; the other
end holds because of the direction. -/

namespace VideoPage.Proofs.RateSteps
open NumberOrder PercentRange

variable {limits : RateLimits} {rate : Binary64}

section Factors

/-- A rate at which a video can be played. -/
@[mk_iff]
structure Playable (rate : Binary64) : Prop where
  finite : rate.isFinite = true
  positive : 0 < rate

instance (rate : Binary64) : Decidable (Playable rate) :=
  decidable_of_iff' _ (playable_iff rate)

theorem Playable.shape (playable : Playable rate) : ∃ a, rate = .signed false a ∧ a.isFinite = true ∧ 0 < a.rank :=
  known_shape (PercentConversions.known_iff.mpr ⟨playable.finite, playable.positive⟩)

theorem Playable.number (playable : Playable rate) : rate.isNaN = false := (numbers_of_lt playable.positive).2

/-- The factor of a step: positive and less than one. -/
structure Part (step : Binary64) : Prop where
  positive : 0 < step
  less : step < 1

theorem Part.shape {step : Binary64} (part : Part step) :
    ∃ a, step = .signed false a ∧ a.isFinite = true ∧ 0 < a.rank ∧ a.rank ≤ unit.rank := by
  have most : step ≤ .signed false unit := PercentConversions.one_eq ▸ NumberOrder.le_of_lt part.less
  have between : Between 0 (.signed false unit) step := ⟨NumberOrder.le_of_lt part.positive, most⟩
  obtain ⟨a, rfl, finite, positive⟩ := Playable.shape ⟨between.isFinite (by decide), part.positive⟩
  exact ⟨a, rfl, finite, positive, Int.ofNat_le.mp (le_iff.mp most)⟩

variable {step : Binary64}

theorem mul_part (playable : Playable rate) (part : Part step) : 0 ≤ rate * step ∧ rate * step ≤ rate := by
  obtain ⟨a, rfl, finite, -⟩ := playable.shape
  obtain ⟨b, rfl, also, positive, most⟩ := part.shape
  refine ⟨?_, mul_le_self also positive most⟩
  rw [mul_eq finite also]
  exact (within_iff.mp (Within.signed false _ le_rfl nofun)).above

theorem div_part (playable : Playable rate) (part : Part step) : rate ≤ rate / step := by
  obtain ⟨a, rfl, -⟩ := playable.shape
  obtain ⟨b, rfl, also, positive, most⟩ := part.shape
  exact le_div_self also positive most

end Factors

section Single

/-- What stepping goes out from is the rate itself or the reset rate. -/
theorem usable_playable (reset : Playable limits.reset) (rate : Binary64) : Playable (limits.usable rate) := by
  rw [RateLimits.usable]
  split
  · next usable =>
    simp only [Bool.and_eq_true, decide_eq_true_eq] at usable
    exact ⟨usable.1, usable.2⟩
  · exact reset

theorem usable_eq (playable : Playable rate) : limits.usable rate = rate := by
  simp [RateLimits.usable, playable.finite, playable.positive]

/-- Limits that stepping can be done with, be they in order or not. -/
structure Usable (limits : RateLimits) : Prop where
  min : Playable limits.min
  max : Playable limits.max
  reset : Playable limits.reset
  step : Part limits.step

theorem slower_bounds (min : limits.min.isNaN = false) (reset : Playable limits.reset) (step : Part limits.step)
    (rate : Binary64) : limits.min ≤ limits.slower rate ∧
      (limits.slower rate = limits.min ∨ 0 ≤ limits.slower rate ∧ limits.slower rate ≤ limits.usable rate) := by
  obtain ⟨above, below⟩ := mul_part (usable_playable reset rate) step
  refine ⟨(le_maximum (numbers_of_le below).1 min).2, ?_⟩
  rw [RateLimits.slower]
  rcases maximum_cases (limits.usable rate * limits.step) limits.min with same | same
  · rw [same]
    exact .inr ⟨above, below⟩
  · exact .inl same

theorem faster_bounds (max : limits.max.isNaN = false) (reset : Playable limits.reset) (step : Part limits.step)
    (rate : Binary64) : limits.faster rate ≤ limits.max ∧
      (limits.faster rate = limits.max ∨ limits.usable rate ≤ limits.faster rate) := by
  have above := div_part (usable_playable reset rate) step
  refine ⟨(minimum_le (numbers_of_le above).2 max).2, ?_⟩
  rw [RateLimits.faster]
  rcases minimum_cases (limits.usable rate / limits.step) limits.max with same | same
  · rw [same]
    exact .inr above
  · exact .inl same

theorem slower_playable (usable : Usable limits) (rate : Binary64) : Playable (limits.slower rate) := by
  obtain ⟨above, same | ⟨positive, below⟩⟩ := slower_bounds usable.min.number usable.reset usable.step rate
  · rw [same]
    exact usable.min
  · have between : Between 0 (limits.usable rate) (limits.slower rate) := ⟨positive, below⟩
    exact ⟨between.isFinite (usable_playable usable.reset rate).finite, NumberOrder.lt_of_lt_of_le usable.min.positive above⟩

theorem faster_playable (usable : Usable limits) (rate : Binary64) : Playable (limits.faster rate) := by
  obtain ⟨below, same | above⟩ := faster_bounds usable.max.number usable.reset usable.step rate
  · rw [same]
    exact usable.max
  · have positive := NumberOrder.lt_of_lt_of_le (usable_playable usable.reset rate).positive above
    have between : Between 0 limits.max (limits.faster rate) := ⟨NumberOrder.le_of_lt positive, below⟩
    exact ⟨between.isFinite usable.max.finite, positive⟩

end Single

section Walks

/-- Limits in order around the reset rate. -/
structure Ordered (limits : RateLimits) : Prop where
  min : 0 < limits.min
  low : limits.min ≤ limits.reset
  high : limits.reset ≤ limits.max
  max : limits.max.isFinite = true
  step : 0 < limits.step ∧ limits.step < 1

/-- A rate within the limits, or one that no video can be played at. -/
def Starts (limits : RateLimits) (rate : Binary64) : Prop :=
  Between limits.min limits.max rate ∨ rate.isFinite = false ∨ rate ≤ 0

/-- The right direction of a step. -/
def Moves (before after : Binary64) : RateStep → Prop
  | .slower => after ≤ before
  | .faster => before ≤ after

theorem Ordered.part (ordered : Ordered limits) : Part limits.step := ⟨ordered.step.1, ordered.step.2⟩

theorem Ordered.playable (ordered : Ordered limits) (between : Between limits.min limits.max rate) : Playable rate := by
  have positive := NumberOrder.lt_of_lt_of_le ordered.min between.above
  have inside : Between 0 limits.max rate := ⟨NumberOrder.le_of_lt positive, between.below⟩
  exact ⟨inside.isFinite ordered.max, positive⟩

theorem Ordered.reset (ordered : Ordered limits) : Between limits.min limits.max limits.reset := ⟨ordered.low, ordered.high⟩

theorem Ordered.usable (ordered : Ordered limits) (starts : Starts limits rate) :
    Between limits.min limits.max (limits.usable rate) := by
  rcases starts with between | infinite | notPositive
  · rw [usable_eq (ordered.playable between)]
    exact between
  · simpa [RateLimits.usable, infinite] using ordered.reset
  · have never : ¬ 0 < rate := by
      obtain ⟨left, right⟩ := numbers_of_le notPositive
      exact (not_lt_iff right left).mpr notPositive
    simpa [RateLimits.usable, never] using ordered.reset

theorem after_between (ordered : Ordered limits) (starts : Starts limits rate) (step : RateStep) :
    Between limits.min limits.max (limits.after rate step) := by
  have usable := ordered.usable starts
  have reset := ordered.playable ordered.reset
  have whole := NumberOrder.le_trans ordered.low ordered.high
  cases step with
  | slower =>
    obtain ⟨above, same | ⟨-, below⟩⟩ := slower_bounds (numbers_of_le whole).1 reset ordered.part rate
    · exact ⟨above, (congrArg (· ≤ limits.max) same).mpr whole⟩
    · exact ⟨above, NumberOrder.le_trans below usable.below⟩
  | faster =>
    obtain ⟨below, same | above⟩ := faster_bounds (numbers_of_le whole).2 reset ordered.part rate
    · exact ⟨(congrArg (limits.min ≤ ·) same).mpr whole, below⟩
    · exact ⟨NumberOrder.le_trans usable.above above, below⟩

theorem after_moves (ordered : Ordered limits) (between : Between limits.min limits.max rate) (step : RateStep) :
    Moves rate (limits.after rate step) step := by
  have same : limits.usable rate = rate := usable_eq (ordered.playable between)
  have reset := ordered.playable ordered.reset
  have whole := NumberOrder.le_trans ordered.low ordered.high
  cases step with
  | slower =>
    obtain ⟨-, least | ⟨-, below⟩⟩ := slower_bounds (numbers_of_le whole).1 reset ordered.part rate
    · exact (congrArg (· ≤ rate) least).mpr between.above
    · rwa [same] at below
  | faster =>
    obtain ⟨-, most | above⟩ := faster_bounds (numbers_of_le whole).2 reset ordered.part rate
    · exact (congrArg (rate ≤ ·) most).mpr between.below
    · rwa [same] at above

theorem walk_between (ordered : Ordered limits) (starts : Starts limits rate) (steps : List RateStep) :
    ∀ next ∈ limits.walk rate steps, Between limits.min limits.max next := by
  induction steps generalizing rate with
  | nil => exact nofun
  | cons step rest ih =>
    have first := after_between ordered starts step
    intro next member
    rcases List.mem_cons.mp member with rfl | later
    · exact first
    · exact ih (.inl first) next later

theorem walk_length (limits : RateLimits) (rate : Binary64) (steps : List RateStep) :
    (limits.walk rate steps).length = steps.length := by
  induction steps generalizing rate with
  | nil => rfl
  | cons step rest ih => exact congrArg Nat.succ (ih _)

/-- One rate for each step, all of them within the limits, and no step from a rate within the limits
that goes the wrong way. -/
theorem walk_stays (ordered : Ordered limits) (starts : Starts limits rate) (steps : List RateStep) :
    (limits.walk rate steps).length = steps.length ∧
      (∀ next ∈ limits.walk rate steps, next.isFinite = true ∧ Between limits.min limits.max next) ∧
      ∀ before step, Between limits.min limits.max before → Moves before (limits.after before step) step := by
  refine ⟨walk_length limits rate steps, ?_, fun before step between => after_moves ordered between step⟩
  intro next member
  have between := walk_between ordered starts steps next member
  exact ⟨(ordered.playable between).finite, between⟩

/-- From the least to the last rate. One step down from the reset rate is the least rate, and one step
up overflows. -/
def wideLimits : RateLimits := { min := .ofBits 1, max := .ofBits 0x7fefffffffffffff, step := .ofBits 1 }

theorem walk_stays_wide :
    let steps : List RateStep := [.faster, .faster, .slower, .slower, .faster]
    Ordered wideLimits ∧ Starts wideLimits .nan ∧
      wideLimits.walk .nan steps =
        [wideLimits.max, wideLimits.max, .ofBits 0x3ccfffffffffffff, wideLimits.min, wideLimits.reset] ∧
      (∀ next ∈ wideLimits.walk .nan steps, next.isFinite = true ∧ Between wideLimits.min wideLimits.max next) ∧
      Moves wideLimits.reset (wideLimits.slower wideLimits.reset) .slower := by
  intro steps
  have ordered : Ordered wideLimits := by
    constructor <;> decide +kernel
  have starts : Starts wideLimits .nan := .inr (.inl rfl)
  obtain ⟨-, bounded, direct⟩ := walk_stays ordered starts steps
  exact ⟨ordered, starts, by decide +kernel, bounded, direct wideLimits.reset .slower (by decide +kernel)⟩

end Walks

end VideoPage.Proofs.RateSteps
