import VideoPage.Proofs.NumberBytes
import VideoPage.Proofs.PercentRange
import VideoPage.Proofs.WrittenNumbers

/-! Percentages read from attributes. The longest number behind the blanks decides, and it is refused
only where it rounds to infinity. A percentage written for a style is read back as it was. -/

namespace VideoPage.Proofs.ReadPercentages
open Numeral NumberTexts NumberBytes CorrectRounding ExactDecimals

/-- The double is the correctly rounded value of the number that the text writes. -/
def Reads (text : List Char) (v : Binary64) : Prop :=
  ∃ negative x a, Writes text negative x ∧ Rounds x a ∧ v = .signed negative a

variable {text : List Char} {v w : Binary64}

theorem Reads.unique (first : Reads text v) (second : Reads text w) : v = w := by
  obtain ⟨negative, x, a, writes, rounds, rfl⟩ := first
  obtain ⟨other, y, b, again, also, rfl⟩ := second
  obtain ⟨rfl, rfl⟩ := writes.unique again
  rw [rounds.unique also]

theorem reads_taken {n : Numeral} (read : read? text = some n) : Reads (taken text) n.toBinary64 :=
  ⟨n.negative, number n.toDecimal, n.toDecimal.toMagnitude, writes_taken read, rounds_toMagnitude _, rfl⟩

/-- The double at the start of a text. -/
theorem longest_reads_iff : (∃ start, Longest text start ∧ Reads start v) ↔ ∃ n, read? text = some n ∧ n.toBinary64 = v := by
  constructor
  · rintro ⟨start, longest, reads⟩
    obtain ⟨n, read, rfl⟩ := longest_iff.mp longest
    exact ⟨n, read, (reads_taken read).unique reads⟩
  · rintro ⟨n, read, rfl⟩
    exact ⟨taken text, longest_taken read, reads_taken read⟩

/-- What is not finite here is an infinity. -/
theorem infinite_of {n : Numeral} (infinite : ¬ n.toBinary64.isFinite = true) : n.toBinary64 = .signed n.negative .infinity := by
  have top : n.toDecimal.toMagnitude = .infinity := Magnitude.ext_rank (infinite_rank infinite)
  rw [toBinary64, Decimal.toBinary64, top]

/-- The slice of the bytes that holds a start of the text. -/
theorem take_bytes {start : List Char} (starts : start <+: text) : (bytesOf text).take (bytesOf start).length = bytesOf start := by
  obtain ⟨rest, rfl⟩ := starts
  rw [bytesOf_append, List.take_left]

theorem numberEnd?_iff {place : Nat} : numberEnd? (bytesOf text) = some place ↔
    ∃ start, Longest text start ∧ (bytesOf text).take place = bytesOf start ∧ place = (bytesOf start).length := by
  rw [numberEnd?_eq, Option.map_eq_some_iff]
  constructor
  · rintro ⟨n, read, rfl⟩
    exact ⟨taken text, longest_taken read, take_bytes (taken_starts text), rfl⟩
  · rintro ⟨start, longest, -, rfl⟩
    obtain ⟨n, read, rfl⟩ := longest_iff.mp longest
    exact ⟨n, read, rfl⟩

theorem percent_iff {raw : String} : Percent.read? raw = some v ↔
    v.isFinite = true ∧ ∃ n, read? (Text.trimStart raw.toList) = some n ∧ n.toBinary64 = v := by
  rw [Percent.read?]
  cases read? (Text.trimStart raw.toList) with
  | none => simp
  | some n =>
    by_cases finite : n.toBinary64.isFinite = true
    · simp only [finite, if_true, Option.some.injEq, exists_eq_left']
      exact ⟨fun same => ⟨same ▸ finite, same⟩, And.right⟩
    · simp only [finite, if_false, Option.some.injEq, exists_eq_left', reduceCtorEq, false_iff]
      rintro ⟨other, rfl⟩
      exact finite other

/-- A percentage is the correctly rounded double of the longest number behind the blanks, where that is
finite. It is missing only where there is no number or the number rounds to infinity. The bytes
of the number are found without a look at whole characters, and end where a character ends. -/
theorem read?_longest (raw : String) :
    let text := Text.trimStart raw.toList
    (∀ v, Percent.read? raw = some v ↔ ∃ start, Longest text start ∧ Reads start v ∧ v.isFinite = true) ∧
      (Percent.read? raw = none ↔ (∀ start, start <+: text → ¬ IsNumber start) ∨
        ∃ start negative, Longest text start ∧ Reads start (.signed negative .infinity)) ∧
      ∀ place, numberEnd? (bytesOf text) = some place ↔
        ∃ start, Longest text start ∧ (bytesOf text).take place = bytesOf start ∧ place = (bytesOf start).length := by
  intro text
  refine ⟨fun v => ?_, ?_, fun place => numberEnd?_iff⟩
  · rw [percent_iff, ← longest_reads_iff]
    constructor
    · rintro ⟨finite, start, longest, reads⟩
      exact ⟨start, longest, reads, finite⟩
    · rintro ⟨start, longest, reads, finite⟩
      exact ⟨finite, start, longest, reads⟩
  · rw [← read?_eq_none_iff]
    constructor
    · intro missing
      cases read : read? text with
      | none => exact Or.inl rfl
      | some n =>
        have infinite : ¬ n.toBinary64.isFinite = true := by
          intro finite
          rw [percent_iff.mpr ⟨finite, n, read, rfl⟩] at missing
          cases missing
        obtain ⟨start, longest, reads⟩ := longest_reads_iff.mpr ⟨n, read, infinite_of infinite⟩
        exact Or.inr ⟨start, n.negative, longest, reads⟩
    · intro reason
      by_contra something
      obtain ⟨v, found⟩ := Option.ne_none_iff_exists'.mp something
      obtain ⟨finite, n, read, rfl⟩ := percent_iff.mp found
      rcases reason with unread | ⟨start, negative, longest, reads⟩
      · rw [unread] at read
        cases read
      · obtain ⟨m, again, infinite⟩ := longest_reads_iff.mp ⟨start, longest, reads⟩
        obtain rfl : n = m := Option.some.inj (read.symm.trans again)
        rw [infinite] at finite
        have never : ¬ Magnitude.infinity.isFinite = true := by decide
        exact never finite

section Styles

theorem visible_digit (c : Char) (digit : c.isDigit = true) : Text.isBlank c = false := by
  have first : 48 ≤ c.toNat := (Char.isDigit_iff_toNat.mp digit).1
  have last : c.toNat ≤ 57 := (Char.isDigit_iff_toNat.mp digit).2
  simp only [Text.isBlank, Text.blankRanges, List.any_cons, List.any_nil, Bool.or_false, Bool.or_eq_false_iff, Bool.and_eq_false_iff,
    decide_eq_false_iff_not]
  omega

theorem trimStart_writes {negative : Bool} {x : ℚ} (writes : Writes text negative x) (rest : List Char) :
    Text.trimStart (text ++ rest) = text ++ rest := by
  have stops : Stops Text.isBlank (text ++ rest) := stops_writes visible_digit (by decide) (by decide) (by decide) writes rest
  rw [Text.trimStart]
  cases whole : text ++ rest with
  | nil => rfl
  | cons c behind =>
    rw [whole] at stops
    exact List.dropWhile_cons_of_neg (by simp [stops c rfl])

/-- A written double is read back bit for bit, whatever follows that does not go on with the number. -/
theorem read?_plainText {negative : Bool} {a : Magnitude} (finite : a.isFinite = true) {rest : List Char}
    (ends : Stops Char.isDigit rest) (noPoint : Stops (· = '.') rest) (unmarked : Stops isMark rest) :
    ∃ n, read? (Binary64.plainText (.signed negative a) ++ rest) = some n ∧ n.toBinary64 = .signed negative a := by
  obtain ⟨n, read, rfl, same⟩ := read?_writes (WrittenNumbers.plainText_writes negative finite) ends noPoint unmarked
  refine ⟨n, read, ?_⟩
  have rounds := rounds_toMagnitude n.toDecimal
  rw [same] at rounds
  rw [toBinary64, Decimal.toBinary64, rounds.unique (rounds_shortest .up a)]

/-- A percentage in a style is read back as the percentage in range, with the sign of its zero. -/
theorem read?_css (percent : Binary64) : Percent.read? (Percent.css percent) = some (Percent.clamp percent) := by
  have within := PercentRange.clamp_percent percent
  rw [percent_iff, Percent.css, String.toList_ofList]
  generalize Percent.clamp percent = clamped at within
  obtain ⟨negative, a, bounded, -⟩ := within
  have finite : a.isFinite = true := isFinite_iff.mpr (bounded.trans_lt (by decide))
  rw [trimStart_writes (WrittenNumbers.plainText_writes negative finite)]
  exact ⟨finite, read?_plainText finite (stops_cons (by decide) _) (stops_cons (by decide) _) (stops_cons (by decide) _)⟩

end Styles

end VideoPage.Proofs.ReadPercentages
