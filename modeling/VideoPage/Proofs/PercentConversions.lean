import VideoPage.Proofs.NumberOrder

/-! What the conversions between times and percentages promise over every duration, known or not.
They are made of a clamp, a quotient and a product, each of which keeps the order after rounding,
and at the ends of the range neither operation has anything to round. -/

namespace VideoPage.Proofs.PercentConversions
open NumberOrder PercentRange
open Percent (full share ofTime toTime toSegmentTime isKnownDuration)

section Parts

variable {x y duration : Binary64} {limit : Magnitude}

theorem known_iff : isKnownDuration duration = true ↔ duration.isFinite = true ∧ 0 < duration := by
  simp [isKnownDuration]

theorem one_eq : (1 : Binary64) = .signed false unit := fallback_eq

theorem full_range : (0 : Binary64) ≤ full := by
  rw [full_eq]
  exact (within_iff.mp Within.zero).below

theorem clamped_mono (le : x ≤ y) : Percent.clamp x ≤ Percent.clamp y := by
  obtain ⟨left, right⟩ := numbers_of_le le
  rw [Percent.clamp, Percent.clamp, if_neg (by simp [left]), if_neg (by simp [right])]
  exact clamp_mono full_range le

theorem share_mono (finite : limit.isFinite = true) (positive : 0 < limit.rank) (le : x ≤ y) :
    share x (.signed false limit) ≤ share y (.signed false limit) := by
  have parts : Percent.clamp x / full ≤ Percent.clamp y / full := by
    rw [full_eq]
    exact div_mono (by decide) (by decide) (clamped_mono le)
  exact mul_mono finite positive parts

theorem clamped_full : Percent.clamp full = full := by
  rw [Percent.clamp, full_eq]
  exact (if_neg Bool.false_ne_true).trans Within.top.clamp_eq

/-- All of a percentage is all of the number. -/
theorem share_full (finite : limit.isFinite = true) : share full (.signed false limit) = .signed false limit := by
  rw [share, clamped_full, full_eq, div_same (by decide) (by decide), unit_mul finite]

/-- The duration that segments are laid out over is always a finite number above zero. -/
theorem segment_shape (duration : Binary64) : ∃ limit, limit.isFinite = true ∧ 0 < limit.rank ∧
    ∀ percent, toSegmentTime percent duration = share percent (.signed false limit) := by
  cases known : isKnownDuration duration with
  | true =>
    obtain ⟨limit, rfl, finite, positive⟩ := known_shape known
    exact ⟨limit, finite, positive, fun percent => by rw [toSegmentTime, if_pos known]⟩
  | false =>
    refine ⟨unit, by decide, by decide, fun percent => ?_⟩
    simp only [toSegmentTime, known, Bool.false_eq_true, if_false, fallback_eq]

end Parts

section Ranges

variable {duration : Binary64}

theorem ofTime_between (current duration : Binary64) : Between 0 full (ofTime current duration) := by
  rw [full_eq, ← within_iff, ofTime]
  split
  · exact clamp_percent _
  · exact Within.zero

theorem toTime_between (known : isKnownDuration duration = true) (percent : Binary64) :
    Between 0 duration (toTime percent duration) := by
  rw [toTime, if_pos known]
  obtain ⟨limit, rfl, finite, -⟩ := known_shape known
  exact within_iff.mp (share_within percent finite)

theorem toTime_number (percent duration : Binary64) : (toTime percent duration).isNaN = false := by
  cases known : isKnownDuration duration with
  | true => exact (toTime_between known percent).number
  | false =>
    simp only [toTime, known, Bool.false_eq_true, if_false]
    exact zero_number

theorem toSegmentTime_number (percent duration : Binary64) : (toSegmentTime percent duration).isNaN = false := by
  obtain ⟨limit, finite, -, same⟩ := segment_shape duration
  rw [same]
  exact (share_within percent finite).isNaN_eq

end Ranges

section Order

variable {duration : Binary64}

theorem ofTime_mono {earlier later : Binary64} (start : earlier.isFinite = true) (finish : later.isFinite = true)
    (le : earlier ≤ later) : ofTime earlier duration ≤ ofTime later duration := by
  cases known : isKnownDuration duration with
  | true =>
    obtain ⟨limit, rfl, finite, positive⟩ := known_shape known
    have quotients := div_mono finite positive le
    have products : earlier / .signed false limit * full ≤ later / .signed false limit * full := by
      rw [full_eq]
      exact mul_mono (by decide) (by decide) quotients
    simp only [ofTime, known, start, finish, Bool.and_self, if_true]
    exact clamped_mono products
  | false =>
    simp only [ofTime, known, Bool.false_and, Bool.false_eq_true, if_false]
    exact (ofTime_between 0 .nan).above

theorem toTime_mono {less more : Binary64} (le : less ≤ more) : toTime less duration ≤ toTime more duration := by
  cases known : isKnownDuration duration with
  | true =>
    rw [toTime, toTime, if_pos known, if_pos known]
    obtain ⟨limit, rfl, finite, positive⟩ := known_shape known
    exact share_mono finite positive le
  | false =>
    simp only [toTime, known, Bool.false_eq_true, if_false]
    exact le_self (toTime_number 0 .nan)

theorem toSegmentTime_mono {less more : Binary64} (le : less ≤ more) :
    toSegmentTime less duration ≤ toSegmentTime more duration := by
  obtain ⟨limit, finite, positive, same⟩ := segment_shape duration
  rw [same, same]
  exact share_mono finite positive le

end Order

section Ends

variable {duration : Binary64}

theorem ofTime_whole (known : isKnownDuration duration = true) : ofTime duration duration = full := by
  obtain ⟨limit, rfl, finite, positive⟩ := known_shape known
  have number : (Binary64.signed false limit).isFinite = true := finite
  rw [ofTime, known, number, Bool.and_self, if_pos rfl, div_same finite positive, full_eq, unit_mul (by decide), ← full_eq,
    clamped_full]

theorem toTime_whole (known : isKnownDuration duration = true) : toTime full duration = duration := by
  rw [toTime, if_pos known]
  obtain ⟨limit, rfl, finite, -⟩ := known_shape known
  exact share_full finite

end Ends

/-- The promises over one duration, which can be used as it is when it is finite and positive. -/
structure Converts (duration : Binary64) : Prop where
  progress : ∀ current, Between 0 100 (ofTime current duration)
  target : duration.isFinite = true → 0 < duration → ∀ percent, Between 0 duration (toTime percent duration)
  noTarget : ¬ (duration.isFinite = true ∧ 0 < duration) → ∀ percent, toTime percent duration = 0
  segment : duration.isFinite = true → 0 < duration → ∀ percent, toSegmentTime percent duration = toTime percent duration
  fallback : ¬ (duration.isFinite = true ∧ 0 < duration) → ∀ percent, Between 0 1 (toSegmentTime percent duration)
  numbers : ∀ number, (ofTime number duration).isNaN = false ∧ (toTime number duration).isNaN = false ∧
    (toSegmentTime number duration).isNaN = false
  progressGrows : ∀ earlier later, earlier.isFinite = true → later.isFinite = true → earlier ≤ later →
    ofTime earlier duration ≤ ofTime later duration
  /-- Percentages that are in order are not NaN. -/
  targetGrows : ∀ less more, less ≤ more → toTime less duration ≤ toTime more duration
  segmentGrows : ∀ less more, less ≤ more → toSegmentTime less duration ≤ toSegmentTime more duration
  whole : duration.isFinite = true → 0 < duration → ofTime duration duration = 100 ∧ toTime 100 duration = duration

theorem durations_convert (duration : Binary64) : Converts duration where
  progress current := ofTime_between current duration
  target finite positive percent := toTime_between (known_iff.mpr ⟨finite, positive⟩) percent
  noTarget unknown percent := by rw [toTime, if_neg (mt known_iff.mp unknown)]
  segment finite positive percent := by
    have known := known_iff.mpr ⟨finite, positive⟩
    rw [toSegmentTime, toTime, if_pos known, if_pos known]
  fallback unknown percent := by
    rw [toSegmentTime, if_neg (mt known_iff.mp unknown), fallback_eq, one_eq]
    exact within_iff.mp (share_within percent (by decide))
  numbers number :=
    ⟨(ofTime_between number duration).number, toTime_number number duration, toSegmentTime_number number duration⟩
  progressGrows _ _ start finish le := ofTime_mono start finish le
  targetGrows _ _ le := toTime_mono le
  segmentGrows _ _ le := toSegmentTime_mono le
  whole finite positive := by
    have known := known_iff.mpr ⟨finite, positive⟩
    exact ⟨ofTime_whole known, toTime_whole known⟩

/-- The least duration above zero and the last finite time. Their quotient overflows, and half of the
duration is no double. -/
def least : Binary64 := .ofBits 1

def last : Binary64 := .ofBits 0x7fefffffffffffff

theorem durations_convert_least :
    least.isFinite = true ∧ 0 < least ∧ last / least = .signed false .infinity ∧ Between 0 100 (ofTime last least) ∧
      Between 0 least (toTime 50 least) ∧ toTime 50 least ≤ toTime 100 least ∧
      ofTime least least = 100 ∧ toTime 100 least = least := by
  have finite : least.isFinite = true := by decide
  have positive : 0 < least := by decide +kernel
  have converts := durations_convert least
  obtain ⟨allTime, allPercent⟩ := converts.whole finite positive
  exact ⟨finite, positive, by decide +kernel, converts.progress last, converts.target finite positive 50,
    converts.targetGrows 50 100 (by decide +kernel), allTime, allPercent⟩

end VideoPage.Proofs.PercentConversions
