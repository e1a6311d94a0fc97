import VideoPage.Decimal.Layout
import VideoPage.Proofs.NumberTexts

/-! Doubles as texts. Both layouts write a number that rounds to the double they were made for, so the
double can be read back from them with its sign. -/

namespace VideoPage.Proofs.WrittenNumbers
open Numeral NumberTexts CorrectRounding ExactDecimals

section Digits

variable {whole fraction : List Char}

theorem allDigits_toDigits (n : Nat) : AllDigits (Nat.toDigits 10 n) :=
  fun _ member => Nat.isDigit_of_mem_toDigits (by decide) (by decide) member

theorem allDigits_zeros (count : Nat) : AllDigits (List.replicate count '0') := by
  intro c member
  obtain rfl := List.eq_of_mem_replicate member
  decide

theorem allDigits_append (first : AllDigits whole) (second : AllDigits fraction) : AllDigits (whole ++ fraction) := by
  intro c member
  exact (List.mem_append.mp member).elim (first c) (second c)

theorem ofDigits_toDigits (n : Nat) : ofDigits (Nat.toDigits 10 n) = n := Nat.ofDigitChars_ten_toDigits

theorem ofDigits_zeros (count : Nat) : ofDigits (List.replicate count '0') = 0 := by
  rw [ofDigits, Nat.ofDigitChars_replicate_zero, Nat.mul_zero]

theorem padded_digits (width n : Nat) :
    AllDigits (Decimal.padded width n) ∧ ofDigits (Decimal.padded width n) = n ∧ width ≤ (Decimal.padded width n).length := by
  rw [Decimal.padded]
  refine ⟨allDigits_append (allDigits_zeros _) (allDigits_toDigits n), ?_, ?_⟩
  · rw [ofDigits_append, ofDigits_zeros, ofDigits_toDigits, Nat.zero_mul, Nat.zero_add]
  · rw [List.length_append, List.length_replicate]
    omega

end Digits

section Layouts

variable {text : List Char} {x : ℚ} {d : Decimal}

/-- The text writes the number with digits alone, without a sign or an exponent. -/
def Spells (text : List Char) (x : ℚ) : Prop :=
  ∃ whole fraction, Mantissa text whole fraction ∧ (ofDigits whole : ℚ) + (ofDigits fraction : ℚ) / 10 ^ fraction.length = x

theorem sign_text (negative : Bool) : Sign (Binary64.signText negative) negative := by
  cases negative
  · exact .absent
  · exact .minus

theorem Spells.writes (spells : Spells text x) (negative : Bool) : Writes (Binary64.signText negative ++ text) negative x := by
  obtain ⟨whole, fraction, digits, rfl⟩ := spells
  have writes := Writes.intro (sign_text negative) digits .absent
  rwa [List.append_nil, zpow_zero, mul_one] at writes

theorem whole_digits (exponent : 0 ≤ d.exponent) :
    AllDigits d.positional ∧ d.positional ≠ [] ∧ (ofDigits d.positional : ℚ) = number d := by
  rw [Decimal.positional, if_pos exponent]
  refine ⟨allDigits_append (allDigits_toDigits _) (allDigits_zeros _), ?_, ?_⟩
  · exact List.append_ne_nil_of_left_ne_nil Nat.toDigits_ne_nil _
  · have power : (10 : ℚ) ^ d.exponent.toNat = 10 ^ d.exponent := by rw [← zpow_natCast, Int.toNat_of_nonneg exponent]
    rw [ofDigits_append, ofDigits_zeros, ofDigits_toDigits, List.length_replicate, Nat.add_zero, Nat.cast_mul, Nat.cast_pow,
      Nat.cast_ofNat, power, number]

theorem spells_pointed {places : Nat} (some : places ≠ 0) (n : Nat) : Spells (Decimal.pointed places n) (n / 10 ^ places) := by
  obtain ⟨all, value, long⟩ := padded_digits (places + 1) n
  rw [Decimal.pointed, if_neg some]
  -- Padding leaves a digit in front of the point.
  generalize Decimal.padded (places + 1) n = digits at all value long
  have cut := List.take_append_drop (digits.length - places) digits
  have behind : (digits.drop (digits.length - places)).length = places := by
    rw [List.length_drop]
    omega
  have front : digits.take (digits.length - places) ≠ [] := by
    rw [← List.length_pos_iff, List.length_take]
    omega
  refine ⟨_, _, .pointed front (fun c member => all c (List.mem_of_mem_take member))
    (fun c member => all c (List.mem_of_mem_drop member)), ?_⟩
  rw [pointed_value, cut, behind, value]

theorem spells_positional (d : Decimal) : Spells d.positional (number d) := by
  by_cases exponent : 0 ≤ d.exponent
  · obtain ⟨all, some, value⟩ := whole_digits exponent
    refine ⟨_, _, .whole some all, ?_⟩
    rw [pointed_value, List.append_nil, List.length_nil, pow_zero, div_one, value]
  · have power : (10 : ℚ) ^ d.exponent = 1 / 10 ^ (-d.exponent).toNat := by
      rw [← zpow_natCast, one_div, ← zpow_neg, Int.toNat_of_nonneg (by omega), neg_neg]
    rw [Decimal.positional, if_neg exponent, number, power, mul_one_div]
    apply spells_pointed
    omega

/-- A whole number may carry a point and a zero. -/
theorem spells_suffixed (exponent : 0 ≤ d.exponent) : Spells (d.positional ++ ['.', '0']) (number d) := by
  obtain ⟨all, some, value⟩ := whole_digits exponent
  refine ⟨_, _, .pointed some all (allDigits_zeros 1), ?_⟩
  rw [show ofDigits ['0'] = 0 from ofDigits_zeros 1, Nat.cast_zero, zero_div, add_zero, value]

theorem exponent_text (power : Int) :
    Exponent ('e' :: (if power < 0 then '-' else '+') :: Nat.toDigits 10 power.natAbs) power := by
  have value := ofDigits_toDigits power.natAbs
  by_cases negative : power < 0
  · have written := Exponent.power (Or.inl rfl) Sign.minus Nat.toDigits_ne_nil (allDigits_toDigits power.natAbs)
    rw [if_pos rfl, value, Int.ofNat_natAbs_of_nonpos (by omega), neg_neg] at written
    rw [if_pos negative]
    exact written
  · have written := Exponent.power (Or.inl rfl) Sign.plus Nat.toDigits_ne_nil (allDigits_toDigits power.natAbs)
    rw [if_neg (by decide), value, Int.natAbs_of_nonneg (by omega)] at written
    rw [if_neg negative]
    exact written

theorem leading_digit (digits : List Char) : digits ≠ [] → AllDigits digits →
    Mantissa (match digits with | first :: second :: rest => first :: '.' :: second :: rest | short => short) (digits.take 1)
      (digits.drop 1) := by
  intro some all
  match digits with
  | [] => exact absurd rfl some
  | [_] => exact .whole some all
  | first :: second :: rest =>
    have front : AllDigits [first] := fun c member => all c (List.mem_append_left (second :: rest) member)
    have behind : AllDigits (second :: rest) := fun c member => all c (List.mem_cons_of_mem first member)
    exact .pointed (List.cons_ne_nil first []) front behind

theorem writes_scientific (d : Decimal) (negative : Bool) : Writes (Binary64.signText negative ++ d.scientific) negative (number d) := by
  have some : Nat.toDigits 10 d.coefficient ≠ [] := Nat.toDigits_ne_nil
  have writes := Writes.intro (sign_text negative) (leading_digit _ some (allDigits_toDigits _)) (exponent_text (d.order - 1))
  have value : (d.coefficient : ℚ) / 10 ^ ((Nat.toDigits 10 d.coefficient).drop 1).length * 10 ^ (d.order - 1) = number d := by
    have power : d.order - 1 = d.exponent + ((Nat.toDigits 10 d.coefficient).drop 1).length := by
      have long := List.length_pos_iff.mpr some
      rw [Decimal.order, List.length_drop]
      omega
    have scale : (10 : ℚ) ^ ((Nat.toDigits 10 d.coefficient).drop 1).length ≠ 0 := by positivity
    rw [power, zpow_add₀ (by norm_num), zpow_natCast, number]
    field_simp
  rw [pointed_value, List.take_append_drop, ofDigits_toDigits, value, List.append_assoc] at writes
  exact writes

end Layouts

section Doubles

variable (negative : Bool) {a : Magnitude}

theorem plainText_writes (finite : a.isFinite = true) :
    Writes (Binary64.plainText (.signed negative a)) negative (number (a.shortest .up)) := by
  rw [Binary64.plainText, if_pos finite]
  exact (spells_positional _).writes negative

/-- A finite double is exported as a number that rounds to it. -/
theorem exportText?_writes (finite : a.isFinite = true) :
    ∃ text, Binary64.exportText? (.signed negative a) = some text ∧ Writes text negative (number (a.shortest .toEven)) := by
  simp only [Binary64.exportText?, if_pos finite]
  refine ⟨_, rfl, ?_⟩
  by_cases zero : a.rank = 0
  · rw [if_pos zero, Magnitude.shortest, if_pos zero]
    exact (@spells_suffixed ⟨0, 0⟩ le_rfl).writes negative
  · rw [if_neg zero]
    generalize a.shortest .toEven = d
    by_cases plain : Binary64.isPlainOrder d.order = true
    · rw [if_pos plain]
      by_cases exponent : 0 ≤ d.exponent
      · rw [if_pos exponent]
        exact (spells_suffixed exponent).writes negative
      · rw [if_neg exponent]
        exact (spells_positional d).writes negative
    · rw [if_neg plain]
      exact writes_scientific d negative

end Doubles

end VideoPage.Proofs.WrittenNumbers
