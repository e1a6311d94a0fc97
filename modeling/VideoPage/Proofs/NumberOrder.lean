import VideoPage.Proofs.CorrectRounding
import VideoPage.Proofs.PercentRange

/-! What arithmetic does to the order of doubles. Rounding keeps the order of exact results and
leaves alone what is a double already. So a product or a quotient grows with its first operand,
and it can be held against that operand although it has been rounded. -/

namespace VideoPage.Proofs.NumberOrder
open Magnitude (nearest one)
open CorrectRounding (infinite_rank isFinite_iff)
open NearestRank PercentRange

variable {x y z low high : Binary64} {limit : Magnitude}

section Standings

/-- The place of a number in the order. NaN has none and is put at zero. -/
def standing : Binary64 → Int
  | .nan => 0
  | .signed negative magnitude => Binary64.position negative magnitude

theorem zero_number : (0 : Binary64).isNaN = false := by
  rw [zero_eq]
  rfl

theorem numbers_of_le (le : x ≤ y) : x.isNaN = false ∧ y.isNaN = false := by
  cases x with
  | nan => cases le
  | signed =>
    cases y with
    | nan => cases le
    | signed => exact ⟨rfl, rfl⟩

theorem numbers_of_lt (lt : x < y) : x.isNaN = false ∧ y.isNaN = false := by
  cases x with
  | nan => cases lt
  | signed =>
    cases y with
    | nan => cases lt
    | signed => exact ⟨rfl, rfl⟩

theorem le_iff_standing (left : x.isNaN = false) (right : y.isNaN = false) : x ≤ y ↔ standing x ≤ standing y := by
  cases x with
  | nan => cases left
  | signed =>
    cases y with
    | nan => cases right
    | signed => exact le_iff

theorem lt_iff_standing (left : x.isNaN = false) (right : y.isNaN = false) : x < y ↔ standing x < standing y := by
  cases x with
  | nan => cases left
  | signed =>
    cases y with
    | nan => cases right
    | signed => exact lt_iff

theorem standing_le (le : x ≤ y) : standing x ≤ standing y :=
  (le_iff_standing (numbers_of_le le).1 (numbers_of_le le).2).mp le

theorem le_self (number : x.isNaN = false) : x ≤ x := (le_iff_standing number number).mpr le_rfl

protected theorem le_trans (first : x ≤ y) (second : y ≤ z) : x ≤ z :=
  (le_iff_standing (numbers_of_le first).1 (numbers_of_le second).2).mpr ((standing_le first).trans (standing_le second))

protected theorem lt_of_lt_of_le (first : x < y) (second : y ≤ z) : x < z := by
  obtain ⟨left, middle⟩ := numbers_of_lt first
  obtain ⟨-, right⟩ := numbers_of_le second
  rw [lt_iff_standing left right]
  exact ((lt_iff_standing left middle).mp first).trans_le (standing_le second)

protected theorem le_of_lt (lt : x < y) : x ≤ y := by
  obtain ⟨left, right⟩ := numbers_of_lt lt
  exact (le_iff_standing left right).mpr ((lt_iff_standing left right).mp lt).le

/-- Equal as numbers: the two zeros are. -/
def Same (x y : Binary64) : Prop := x ≤ y ∧ y ≤ x

theorem not_lt_iff (left : x.isNaN = false) (right : y.isNaN = false) : ¬ x < y ↔ y ≤ x := by
  rw [lt_iff_standing left right, le_iff_standing right left, not_lt]

end Standings

section Choices

theorem maximum_cases (x y : Binary64) : x.maximum y = x ∨ x.maximum y = y := by
  rw [Binary64.maximum]
  split_ifs
  · exact .inr rfl
  · exact .inr rfl
  · exact .inl rfl

theorem minimum_cases (x y : Binary64) : x.minimum y = x ∨ x.minimum y = y := by
  rw [Binary64.minimum]
  split_ifs
  · exact .inr rfl
  · exact .inr rfl
  · exact .inl rfl

/-- The larger of two numbers is at least both. -/
theorem le_maximum (left : x.isNaN = false) (right : y.isNaN = false) : x ≤ x.maximum y ∧ y ≤ x.maximum y := by
  rw [Binary64.maximum, if_neg (by simp [left])]
  split
  · next less => exact ⟨NumberOrder.le_of_lt less, le_self right⟩
  · next notLess => exact ⟨le_self left, (not_lt_iff left right).mp notLess⟩

theorem minimum_le (left : x.isNaN = false) (right : y.isNaN = false) : x.minimum y ≤ x ∧ x.minimum y ≤ y := by
  rw [Binary64.minimum, if_neg (by simp [left])]
  split
  · next less => exact ⟨NumberOrder.le_of_lt less, le_self right⟩
  · next notLess => exact ⟨le_self left, (not_lt_iff right left).mp notLess⟩

/-- Where a number stands once it has been brought into a range. -/
theorem standing_clamp (range : low ≤ high) (number : x.isNaN = false) : (x.clamp low high).isNaN = false ∧
    standing (x.clamp low high) = min (max (standing x) (standing low)) (standing high) := by
  obtain ⟨bottom, top⟩ := numbers_of_le range
  have ordered := standing_le range
  rw [Binary64.clamp]
  split
  · next below =>
    rw [lt_iff_standing number bottom] at below
    rw [if_neg ((not_lt_iff top bottom).mpr range)]
    exact ⟨bottom, by omega⟩
  · next notBelow =>
    rw [not_lt_iff number bottom, le_iff_standing bottom number] at notBelow
    split
    · next above =>
      rw [lt_iff_standing top number] at above
      exact ⟨top, by omega⟩
    · next notAbove =>
      rw [not_lt_iff top number, le_iff_standing number top] at notAbove
      exact ⟨number, by omega⟩

/-- Bringing numbers into a range keeps their order. -/
theorem clamp_mono (range : low ≤ high) (le : x ≤ y) : x.clamp low high ≤ y.clamp low high := by
  obtain ⟨left, right⟩ := numbers_of_le le
  obtain ⟨leftNumber, leftStands⟩ := standing_clamp range left
  obtain ⟨rightNumber, rightStands⟩ := standing_clamp range right
  have grows := standing_le le
  rw [le_iff_standing leftNumber rightNumber, leftStands, rightStands]
  omega

end Choices

section Ranges

/-- A number from one end of a range to the other. NaN lies in no range. -/
@[mk_iff]
structure Between (low high x : Binary64) : Prop where
  above : low ≤ x
  below : x ≤ high

instance (low high x : Binary64) : Decidable (Between low high x) :=
  decidable_of_iff' _ (between_iff low high x)

theorem Between.number (between : Between low high x) : x.isNaN = false := (numbers_of_le between.above).2

theorem clamp_between (range : low ≤ high) (number : x.isNaN = false) : Between low high (x.clamp low high) := by
  obtain ⟨bottom, top⟩ := numbers_of_le range
  obtain ⟨clamped, stands⟩ := standing_clamp range number
  have ordered := standing_le range
  constructor
  · rw [le_iff_standing bottom clamped, stands]
    omega
  · rw [le_iff_standing clamped top, stands]
    omega

theorem within_iff : Within limit x ↔ Between 0 (.signed false limit) x := by
  constructor
  · rintro ⟨negative, magnitude, bounded, zero⟩
    have stands := Within.position_eq zero
    constructor
    · rw [zero_eq, le_iff, stands]
      exact Int.natCast_nonneg _
    · rw [le_iff, stands]
      exact Int.ofNat_le.mpr bounded
  · rintro ⟨above, below⟩
    cases x with
    | nan => cases above
    | signed negative magnitude =>
      rw [zero_eq, le_iff] at above
      rw [le_iff] at below
      have zero : negative = true → magnitude.rank = 0 := by
        rintro rfl
        have nonneg : (0 : Int) ≤ -magnitude.rank := above
        omega
      rw [Within.position_eq zero] at below
      exact .signed negative magnitude (Int.ofNat_le.mp below) zero

/-- No number that is not negative lies beyond infinity. -/
theorem within_infinity_iff : Within .infinity x ↔ 0 ≤ x := by
  refine ⟨fun within => (within_iff.mp within).above, fun above => within_iff.mpr ⟨above, ?_⟩⟩
  cases x with
  | nan => cases above
  | signed negative magnitude =>
    have bounded : (magnitude.rank : Int) ≤ Magnitude.infinity.rank := Int.ofNat_le.mpr magnitude.rank_le
    rw [le_iff]
    cases negative with
    | false => exact bounded
    | true => exact (neg_nonpos.mpr (Int.natCast_nonneg _)).trans (Int.natCast_nonneg _)

/-- What is not below zero and not above a finite number is finite. -/
theorem Between.isFinite (between : Between 0 high x) (finite : high.isFinite = true) : x.isFinite = true := by
  cases high with
  | nan => cases finite
  | signed negative magnitude =>
    cases negative with
    | false =>
      obtain ⟨sign, inner, bounded, -⟩ := within_iff.mpr between
      exact isFinite_iff.mpr (bounded.trans_lt (isFinite_iff.mp finite))
    | true =>
      have most : x ≤ .signed false .zero := by
        refine NumberOrder.le_trans between.below (le_iff.mpr ?_)
        exact neg_nonpos.mpr (Int.natCast_nonneg _)
      have none : Within .zero x := within_iff.mpr ⟨between.above, most⟩
      obtain ⟨sign, inner, bounded, -⟩ := none
      exact isFinite_iff.mpr (bounded.trans_lt (by decide))

end Ranges

section Scaling

/-- A magnitude times a ratio, rounded. Infinity stays infinity. -/
def scaled (factor divisor : Nat) (a : Magnitude) : Magnitude :=
  if a.isFinite then nearest (a.units * factor) divisor else .infinity

/-- A map of magnitudes for numbers of either sign. -/
def lifted (f : Magnitude → Magnitude) : Binary64 → Binary64
  | .nan => .nan
  | .signed negative magnitude => .signed negative (f magnitude)

variable {factor divisor : Nat} {a b : Magnitude}

theorem scaled_mono (le : a.rank ≤ b.rank) : (scaled factor divisor a).rank ≤ (scaled factor divisor b).rank := by
  rw [scaled, scaled]
  by_cases finite : b.isFinite = true
  · have also : a.isFinite = true := isFinite_iff.mpr (le.trans_lt (isFinite_iff.mp finite))
    rw [if_pos finite, if_pos also]
    exact nearest_mono (Nat.mul_le_mul_right factor (units_le le))
  · rw [if_neg finite]
    exact Magnitude.rank_le _

theorem scaled_zero (positive : 0 < divisor) : scaled factor divisor .zero = .zero := by
  have none : Magnitude.zero.units * factor = 0 := by rw [show Magnitude.zero.units = 0 from rfl, Nat.zero_mul]
  rw [scaled, if_pos (by decide), none]
  exact Magnitude.ext_rank (nearest_zero positive)

/-- Less than a whole of a magnitude is at most the magnitude. -/
theorem scaled_le (positive : 0 < divisor) (le : factor ≤ divisor) : (scaled factor divisor a).rank ≤ a.rank := by
  rw [scaled]
  split
  · exact nearest_rank_le positive (Nat.mul_le_mul_left _ le)
  · next infinite => exact (infinite_rank infinite).ge

theorem le_scaled (positive : 0 < divisor) (le : divisor ≤ factor) : a.rank ≤ (scaled factor divisor a).rank := by
  rw [scaled]
  split
  · exact le_nearest_rank positive (Nat.mul_le_mul_left _ le)
  · exact a.rank_le

theorem lifted_mono {f : Magnitude → Magnitude} (grows : ∀ a b, a.rank ≤ b.rank → (f a).rank ≤ (f b).rank)
    (zero : f .zero = .zero) (le : x ≤ y) : lifted f x ≤ lifted f y := by
  cases x with
  | nan => cases le
  | signed n a =>
    cases y with
    | nan => cases le
    | signed m b =>
      rw [le_iff] at le
      simp only [lifted, le_iff]
      have vanishes (c : Magnitude) (none : c.rank = 0) : (f c).rank = 0 := by
        rw [Magnitude.ext_rank (a := c) (b := .zero) none, zero]
        rfl
      cases n <;> cases m <;> simp only [Binary64.position, Bool.false_eq_true, if_true, if_false] at le ⊢
      · exact Int.ofNat_le.mpr (grows a b (Int.ofNat_le.mp le))
      · have left := vanishes a (by omega)
        have right := vanishes b (by omega)
        omega
      · omega
      · have reversed := grows b a (by omega)
        omega

theorem mul_lifted (finite : b.isFinite = true) (positive : 0 < b.rank) (x : Binary64) :
    x * .signed false b = lifted (scaled b.units one) x := by
  cases x with
  | nan => rfl
  | signed negative a =>
    rw [lifted, scaled]
    split
    · next also => exact mul_eq also finite
    · next infinite =>
      have top := infinite_rank infinite
      have some : ¬ (a.rank = 0 ∨ b.rank = 0) := by
        rw [top]
        exact not_or.mpr ⟨by decide, positive.ne'⟩
      change Binary64.mul _ _ = _
      simp [Binary64.mul, infinite, not_or.mp some]

theorem div_lifted (finite : b.isFinite = true) (positive : 0 < b.rank) (x : Binary64) :
    x / .signed false b = lifted (scaled one b.units) x := by
  cases x with
  | nan => rfl
  | signed negative a =>
    rw [lifted, scaled]
    split
    · next also => exact div_eq also finite positive
    · next infinite =>
      change Binary64.div _ _ = _
      simp [Binary64.div, infinite, finite]

theorem mul_mono (finite : b.isFinite = true) (positive : 0 < b.rank) (le : x ≤ y) :
    x * .signed false b ≤ y * .signed false b := by
  rw [mul_lifted finite positive, mul_lifted finite positive]
  exact lifted_mono (fun _ _ => scaled_mono) (scaled_zero PercentRange.one_pos) le

theorem div_mono (finite : b.isFinite = true) (positive : 0 < b.rank) (le : x ≤ y) :
    x / .signed false b ≤ y / .signed false b := by
  rw [div_lifted finite positive, div_lifted finite positive]
  exact lifted_mono (fun _ _ => scaled_mono) (scaled_zero (units_pos positive)) le

/-- Less than a whole of a number is not above the number. -/
theorem mul_le_self (finite : b.isFinite = true) (positive : 0 < b.rank) (part : b.rank ≤ unit.rank) :
    Binary64.signed false a * .signed false b ≤ .signed false a := by
  rw [mul_lifted finite positive, lifted, le_iff]
  exact Int.ofNat_le.mpr (scaled_le PercentRange.one_pos (unit_units ▸ units_le part))

theorem le_div_self (finite : b.isFinite = true) (positive : 0 < b.rank) (part : b.rank ≤ unit.rank) :
    Binary64.signed false a ≤ .signed false a / .signed false b := by
  rw [div_lifted finite positive, lifted, le_iff]
  exact Int.ofNat_le.mpr (le_scaled (units_pos positive) (unit_units ▸ units_le part))

protected theorem mul_nonneg (finite : b.isFinite = true) (positive : 0 < b.rank) (le : 0 ≤ x) : 0 ≤ x * .signed false b := by
  have zero : (0 : Binary64) * .signed false b = 0 := by
    rw [zero_eq, mul_lifted finite positive, lifted, scaled_zero PercentRange.one_pos]
  have grows := mul_mono finite positive le
  rwa [zero] at grows

theorem div_same (finite : b.isFinite = true) (positive : 0 < b.rank) :
    Binary64.signed false b / .signed false b = .signed false unit := by
  rw [div_eq finite finite positive, Nat.mul_comm, ← unit_units, nearest_units unit (units_pos positive)]

/-- One is neutral, and nothing is rounded. -/
theorem unit_mul (finite : b.isFinite = true) : Binary64.signed false unit * .signed false b = .signed false b := by
  rw [mul_eq (by decide) finite, unit_units, Nat.mul_comm, nearest_units b PercentRange.one_pos]

end Scaling

section Sums

variable {n m : Bool} {a b : Magnitude}

theorem signedUnits_eq (zero : n = true → a.rank = 0) : Binary64.signedUnits n a = a.units := by
  cases n with
  | false => rfl
  | true => simp [Binary64.signedUnits, Magnitude.units, zero rfl, Magnitude.sizeOfRank]

theorem add_finite (finite : a.isFinite = true) (also : b.isFinite = true) (left : n = true → a.rank = 0)
    (right : m = true → b.rank = 0) : Binary64.signed n a + .signed m b =
      if a.units + b.units = 0 then .signed (n && m) .zero else .signed false (nearest (a.units + b.units) 1) := by
  have total : Binary64.signedUnits n a + Binary64.signedUnits m b = ((a.units + b.units : Nat) : Int) := by
    rw [signedUnits_eq left, signedUnits_eq right, Nat.cast_add]
  change Binary64.add _ _ = _
  rw [Binary64.add, if_pos finite, if_pos also]
  dsimp only
  rw [total]
  -- Only what the sum is matters, not the sizes that it was made from.
  generalize a.units + b.units = sum
  by_cases none : sum = 0
  · rw [if_pos none, if_pos (Int.natCast_eq_zero.mpr none)]
  · rw [if_neg none, if_neg (mt Int.natCast_eq_zero.mp none), Int.natAbs_natCast,
      decide_eq_false (not_lt.mpr (Int.natCast_nonneg sum))]

theorem not_negative (zero : n = true → a.rank = 0) (infinite : ¬ a.isFinite = true) : n = false := by
  rw [Bool.eq_false_iff]
  intro negative
  have none := zero negative
  rw [infinite_rank infinite] at none
  exact absurd none (by decide)

/-- A sum of numbers that are not negative is at least the first of them. -/
theorem le_add (first : 0 ≤ x) (second : 0 ≤ y) : x ≤ x + y := by
  obtain ⟨n, a, -, left⟩ := within_infinity_iff.mpr first
  obtain ⟨m, b, -, right⟩ := within_infinity_iff.mpr second
  by_cases finite : a.isFinite = true
  · by_cases also : b.isFinite = true
    · rw [add_finite finite also left right]
      split
      · next none =>
        have zero : a.rank = 0 := by
          by_contra some
          have positive := units_pos (Nat.pos_of_ne_zero some)
          omega
        rw [le_iff, Within.position_eq left, zero]
        cases n && m <;> exact le_rfl
      · rw [le_iff, Within.position_eq left]
        refine Int.ofNat_le.mpr (le_nearest_rank Nat.one_pos ?_)
        omega
    · have endless : Binary64.signed n a + .signed m b = .signed m b := by
        change Binary64.add _ _ = _
        simp only [Binary64.add, finite, also, if_true, Bool.false_eq_true, if_false]
      rw [endless, le_iff, Within.position_eq left, Within.position_eq right, infinite_rank also]
      exact Int.ofNat_le.mpr a.rank_le
  · have endless : Binary64.signed n a + .signed m b = .signed n a := by
      have sign := not_negative left finite
      change Binary64.add _ _ = _
      by_cases also : b.isFinite = true
      · simp [Binary64.add, finite, also]
      · simp [Binary64.add, finite, also, sign, not_negative right also]
    rw [endless]
    exact le_self rfl

end Sums

end VideoPage.Proofs.NumberOrder
