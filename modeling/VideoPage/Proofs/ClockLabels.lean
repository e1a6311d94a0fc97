import Mathlib.Data.Rat.Floor
import VideoPage.Playback.Clock
import VideoPage.Proofs.NumberOrder
import VideoPage.Proofs.WrittenNumbers

/-! What clock labels tell. A label gives the whole seconds of a time as minutes and seconds, and
it can be read in one way only. So times share a label only if they show the same whole second. -/

namespace VideoPage.Proofs.ClockLabels
open CorrectRounding Magnitude NearestRank NumberTexts Numeral PercentRange WrittenNumbers

section Words

/-- The exact number that a word of 64 bits encodes. An exponent of all ones encodes none. -/
def encoded? (word : Nat) : Option ℚ :=
  let exponent : Nat := word / 2 ^ 52 % 2 ^ 11
  let significand : Nat := (if exponent = 0 then 0 else 2 ^ 52) + word % 2 ^ 52
  let size : ℚ := significand * 2 ^ (max (exponent : ℤ) 1 - 1075)
  if exponent = 2047 then none else some (if 2 ^ 63 ≤ word then -size else size)

/-- The whole seconds that a clock shows: those of a positive time, as far as 64 bits can count them. -/
def shown (time : Binary64) : Nat :=
  match encoded? time.toBits with
  | some seconds => if 0 < seconds then min ⌊seconds⌋₊ (2 ^ 64 - 1) else 0
  | none => 0

variable {a : Magnitude} {negative : Bool}

theorem value_scaled {doublings multiple : Nat} (shape : a.rank = doublings * 2 ^ 52 + multiple) (bounded : multiple ≤ 2 ^ 53)
    (normal : doublings = 0 ∨ 2 ^ 52 ≤ multiple) : value a = multiple * 2 ^ ((doublings : ℤ) - 1074) := by
  have unit (places : Nat) (exact : one = 2 ^ places) : (one : ℚ) = 2 ^ (places : ℤ) := by
    rw [exact, Nat.cast_pow, Nat.cast_ofNat, zpow_natCast]
  have scale : (2 : ℚ) ^ ((doublings : ℤ) - 1074) = 2 ^ doublings / one := by
    rw [unit 1074 (by decide +kernel), zpow_sub₀ two_ne_zero, zpow_natCast]
    rfl
  rw [value, units, shape, sizeOfRank_eq bounded normal, scale, Nat.cast_mul, Nat.cast_pow, Nat.cast_ofNat, mul_div_assoc]

/-- A word encodes the number that its sign and its rank stand for. -/
theorem encoded?_signed : encoded? (Binary64.signed negative a).toBits =
    if a.isFinite = true then some (if negative then -value a else value a) else none := by
  have bounded := a.rank_le
  simp only [topRank, Nat.pow_eq] at bounded
  -- The sign is the highest bit, and the bits below it are the rank.
  have fields : (Binary64.signed negative a).toBits / 2 ^ 52 % 2 ^ 11 = a.rank / 2 ^ 52 ∧
      (Binary64.signed negative a).toBits % 2 ^ 52 = a.rank % 2 ^ 52 ∧
      (2 ^ 63 ≤ (Binary64.signed negative a).toBits ↔ negative = true) := by
    cases negative with
    | true =>
      have word : (Binary64.signed true a).toBits = a.rank + 2 ^ 63 := rfl
      exact ⟨by omega, by omega, iff_of_true (by omega) rfl⟩
    | false =>
      have word : (Binary64.signed false a).toBits = a.rank := rfl
      exact ⟨by omega, by omega, iff_of_false (by omega) nofun⟩
  have finite : a.isFinite = true ↔ ¬ a.rank / 2 ^ 52 = 2047 := by
    rw [isFinite_iff, topRank, Nat.pow_eq]
    omega
  have size : value a = ((if a.rank / 2 ^ 52 = 0 then 0 else 2 ^ 52) + a.rank % 2 ^ 52 : ℕ) *
      2 ^ (max ((a.rank / 2 ^ 52 : ℕ) : ℤ) 1 - 1075) := by
    have scale : max ((a.rank / 2 ^ 52 : ℕ) : ℤ) 1 - 1075 = (a.rank / 2 ^ 52 - 1 : ℕ) - 1074 := by omega
    rw [scale]
    apply value_scaled
    all_goals split <;> omega
  obtain ⟨exponent, fraction, sign⟩ := fields
  simp only [encoded?, exponent, fraction, sign, ← size, finite, ite_not]

theorem value_pos_iff : 0 < value a ↔ 0 < a.rank := by
  constructor
  · intro positive
    by_contra none
    have zero : a = .zero := Magnitude.ext_rank (Nat.eq_zero_of_not_pos none)
    have empty : value Magnitude.zero = 0 := by
      rw [value, show Magnitude.zero.units = 0 by decide, Nat.cast_zero, zero_div]
    rw [zero, empty] at positive
    exact lt_irrefl _ positive
  · exact fun some => div_pos (Nat.cast_pos.mpr (units_pos some)) one_positive

theorem value_nonneg : 0 ≤ value a := div_nonneg (Nat.cast_nonneg _) one_positive.le

theorem zero_lt_iff : (0 : Binary64) < .signed negative a ↔ 0 < if negative then -value a else value a := by
  rw [zero_eq, lt_iff]
  cases negative with
  | true =>
    have other : ¬ (0 : ℚ) < -value a := not_lt.mpr (neg_nonpos.mpr value_nonneg)
    refine iff_of_false (not_lt.mpr ?_) other
    exact neg_nonpos.mpr (Int.natCast_nonneg _)
  | false => exact Int.ofNat_lt.trans value_pos_iff.symm

/-- A clock rounds times down to whole seconds. -/
theorem wholeSeconds_eq (time : Binary64) : Clock.wholeSeconds time = shown time := by
  cases time with
  | nan =>
    have none : encoded? Binary64.nan.toBits = none := by
      rw [encoded?]
      exact if_pos (by decide)
    rw [Clock.wholeSeconds, shown, none]
    rfl
  | signed negative a =>
    have counts : ⌊value a⌋₊ = (Binary64.signed negative a).wholePart := Nat.floor_div_eq_div _ _
    rw [Clock.wholeSeconds, shown, encoded?_signed, Binary64.isFinite]
    by_cases finite : a.isFinite = true
    · simp only [finite, Bool.true_and, decide_eq_true_eq, zero_lt_iff, if_true, ← counts]
      cases negative with
      | true =>
        have other : ¬ (0 : ℚ) < -value a := not_lt.mpr (neg_nonpos.mpr value_nonneg)
        simp only [if_true, if_neg other]
      | false => rfl
    · simp [finite]

end Words

/-- A text that tells minutes and seconds. Both have two digits, and the minutes have more where
they need more. -/
inductive Tells : List Char → Nat → Nat → Prop
  | intro {front back : List Char} (digits : AllDigits front) (pair : 2 ≤ front.length)
      (needed : 2 < front.length → front.head? ≠ some '0') (behind : AllDigits back) (two : back.length = 2)
      (below : ofDigits back < 60) : Tells (front ++ ':' :: back) (ofDigits front) (ofDigits back)

section Texts

variable {text : List Char} {minutes seconds : Nat}

theorem head_toDigits (n : Nat) : (Nat.toDigits 10 n).head? = some '0' → n = 0 := by
  induction n using Nat.strongRecOn with
  | ind n ih =>
    intro leads
    rw [Nat.toDigits_eq_if (by decide)] at leads
    split at leads
    · next small =>
      have digits : Nat.toDigits 10 n = ['0'] := by
        rw [Nat.toDigits_of_lt_base small, Option.some.inj leads]
      rw [← ofDigits_toDigits n, digits]
      rfl
    · next large =>
      rw [List.head?_append_of_ne_nil _ Nat.toDigits_ne_nil] at leads
      have none := ih (n / 10) (by omega) leads
      omega

theorem padded_pair {n : Nat} (small : n < 100) : (Decimal.padded 2 n).length = 2 := by
  have short : (Nat.toDigits 10 n).length ≤ 2 := (Nat.length_toDigits_le_iff (by decide) (by decide)).mpr small
  rw [Decimal.padded, List.length_append, List.length_replicate]
  omega

theorem padded_needed (n : Nat) (long : 2 < (Decimal.padded 2 n).length) : (Decimal.padded 2 n).head? ≠ some '0' := by
  rw [Decimal.padded, List.length_append, List.length_replicate] at long
  have whole : 2 - (Nat.toDigits 10 n).length = 0 := by omega
  rw [Decimal.padded, whole, List.replicate_zero, List.nil_append]
  intro leads
  obtain rfl := head_toDigits n leads
  exact absurd long (by decide)

theorem tells_label (count : Nat) : Tells (Clock.labelText count) (count / 60) (count % 60) := by
  obtain ⟨digits, minutes, pair⟩ := padded_digits 2 (count / 60)
  obtain ⟨behind, seconds, -⟩ := padded_digits 2 (count % 60)
  have below : count % 60 < 60 := Nat.mod_lt _ (by decide)
  have tells := Tells.intro digits pair (padded_needed _) behind (padded_pair (by omega)) (by rw [seconds]; exact below)
  rwa [minutes, seconds] at tells

theorem Tells.shape (tells : Tells text minutes seconds) : ∃ front back, text = front ++ ':' :: back ∧ AllDigits front ∧
    AllDigits back ∧ ofDigits front = minutes ∧ ofDigits back = seconds := by
  obtain ⟨digits, -, -, behind, -, -⟩ := tells
  exact ⟨_, _, rfl, digits, behind, rfl, rfl⟩

/-- The minutes end at the only colon. -/
theorem Tells.unique {early late : Nat} (tells : Tells text minutes seconds) (also : Tells text early late) :
    early = minutes ∧ late = seconds := by
  have colon : ¬ ':'.isDigit = true := by decide
  obtain ⟨front, back, rfl, -, -, rfl, rfl⟩ := tells.shape
  obtain ⟨front', back', same, digits, behind, rfl, rfl⟩ := also.shape
  obtain ⟨rfl, -, rfl⟩ := (List.append_cons_inj_of_notMem (fun inside => colon (digits _ inside))
    (fun inside => colon (behind _ inside))).mp same.symm
  exact ⟨rfl, rfl⟩

theorem labelText_inj {count other : Nat} : Clock.labelText count = Clock.labelText other ↔ count = other := by
  constructor
  · intro same
    obtain ⟨minutes, seconds⟩ := (tells_label count).unique (same ▸ tells_label other)
    rw [← Nat.div_add_mod count 60, ← Nat.div_add_mod other 60, minutes, seconds]
  · exact congrArg _

end Texts

section Labels

variable {time other : Binary64}

theorem tells_shown (time : Binary64) : Tells (Clock.label time).toList (shown time / 60) (shown time % 60) := by
  rw [Clock.label, String.toList_ofList, wholeSeconds_eq]
  exact tells_label _

theorem label_inj : Clock.label time = Clock.label other ↔ shown time = shown other := by
  rw [Clock.label, Clock.label, String.ofList_inj, labelText_inj, wholeSeconds_eq, wholeSeconds_eq]

theorem slash_not_mem_label (time : Binary64) : '/' ∉ (Clock.label time).toList := by
  obtain ⟨front, back, shape, digits, behind, -⟩ := (tells_shown time).shape
  rw [shape]
  intro inside
  rcases List.mem_append.mp inside with inside | inside
  · cases digits _ inside
  · rcases List.mem_cons.mp inside with same | inside
    · cases same
    · cases behind _ inside

/-- A pair of labels is cut at its only slash. -/
theorem pairLabel_inj {duration whole : Binary64} : Clock.pairLabel time duration = Clock.pairLabel other whole ↔
    shown time = shown other ∧ shown duration = shown whole := by
  rw [← label_inj, ← label_inj]
  constructor
  · intro same
    have shape (first second : Binary64) : (Clock.pairLabel first second).toList =
        ((Clock.label first).toList ++ [' ']) ++ '/' :: ' ' :: (Clock.label second).toList := by
      simp [Clock.pairLabel]
    have texts := congrArg String.toList same
    rw [shape, shape] at texts
    have apart : '/' ∉ (Clock.label time).toList ++ [' '] ∧ '/' ∉ ' ' :: (Clock.label duration).toList := by
      simp [slash_not_mem_label]
    obtain ⟨first, -, second⟩ := (List.append_cons_inj_of_notMem apart.1 apart.2).mp texts
    exact ⟨String.toList_inj.mp (List.append_cancel_right first), String.toList_inj.mp (List.cons.inj second).2⟩
  · rintro ⟨first, second⟩
    rw [Clock.pairLabel, Clock.pairLabel, first, second]

end Labels

/-- A label tells the exact whole seconds of a time as minutes and seconds, and can be read in no
other way. Times have one label, or pairs of times one pair of labels, only for the same seconds. -/
theorem label_exact (time : Binary64) :
    (∃ minutes seconds, Tells (Clock.label time).toList minutes seconds ∧ 60 * minutes + seconds = shown time ∧
      ∀ early late, Tells (Clock.label time).toList early late → early = minutes ∧ late = seconds) ∧
    (∀ other, Clock.label time = Clock.label other ↔ shown time = shown other) ∧
    ∀ duration other whole, Clock.pairLabel time duration = Clock.pairLabel other whole ↔
      shown time = shown other ∧ shown duration = shown whole := by
  refine ⟨⟨shown time / 60, shown time % 60, tells_shown time, Nat.div_add_mod _ _, ?_⟩, ?_, ?_⟩
  · exact fun early late also => (tells_shown time).unique also
  · exact fun other => label_inj
  · exact fun duration other whole => pairLabel_inj

end VideoPage.Proofs.ClockLabels
