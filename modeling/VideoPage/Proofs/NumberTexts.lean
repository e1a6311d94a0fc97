import VideoPage.Decimal.Numeral
import VideoPage.Proofs.ExactDecimals

/-! Texts that write numbers. Reading at the start of a text takes the longest number there, and
what it takes stands for the number that is written. -/

namespace VideoPage.Proofs.NumberTexts
open Numeral ExactDecimals

section Grammar

def AllDigits (text : List Char) : Prop := ∀ c ∈ text, c.isDigit = true

inductive Sign : List Char → Bool → Prop
  | absent : Sign [] false
  | plus : Sign ['+'] false
  | minus : Sign ['-'] true

/-- Digits with or without a point: the text, the digits in front of the point and those behind it. -/
inductive Mantissa : List Char → List Char → List Char → Prop
  | whole {digits : List Char} (some : digits ≠ []) (all : AllDigits digits) : Mantissa digits digits []
  | pointed {digits fraction : List Char} (some : digits ≠ []) (all : AllDigits digits) (behind : AllDigits fraction) :
      Mantissa (digits ++ '.' :: fraction) digits fraction
  | fraction {fraction : List Char} (some : fraction ≠ []) (behind : AllDigits fraction) : Mantissa ('.' :: fraction) [] fraction

inductive Exponent : List Char → Int → Prop
  | absent : Exponent [] 0
  | power {mark : Char} {sign digits : List Char} {negative : Bool} (marks : mark = 'e' ∨ mark = 'E') (signed : Sign sign negative)
      (some : digits ≠ []) (all : AllDigits digits) :
      Exponent (mark :: (sign ++ digits)) (if negative then -ofDigits digits else ofDigits digits)

/-- The text writes the number with this sign and this absolute value. -/
inductive Writes : List Char → Bool → ℚ → Prop
  | intro {sign mantissa whole fraction exponent : List Char} {negative : Bool} {power : Int} (signed : Sign sign negative)
      (digits : Mantissa mantissa whole fraction) (scaled : Exponent exponent power) :
      Writes (sign ++ mantissa ++ exponent) negative
        (((ofDigits whole : ℚ) + (ofDigits fraction : ℚ) / 10 ^ fraction.length) * 10 ^ power)

def IsNumber (text : List Char) : Prop := ∃ negative x, Writes text negative x

/-- The longest number at the start of a text. -/
structure Longest (text start : List Char) : Prop where
  starts : start <+: text
  number : IsNumber start
  longest : ∀ other, other <+: text → IsNumber other → other.length ≤ start.length

end Grammar

section Pieces

variable {body rest digits whole fraction mantissa exponent sign : List Char} {negative : Bool} {power : Int}

/-- The text does not start with a character of a kind. -/
def Stops (kind : Char → Bool) (text : List Char) : Prop := ∀ c, text.head? = some c → kind c = false

theorem stops_cons {kind : Char → Bool} {c : Char} (other : kind c = false) (text : List Char) : Stops kind (c :: text) := by
  intro first same
  obtain rfl : c = first := Option.some.inj same
  exact other

theorem exists_of_not_stops {kind : Char → Bool} {text : List Char} (more : ¬ Stops kind text) :
    ∃ c rest, text = c :: rest ∧ kind c = true := by
  cases text with
  | nil => exact absurd (fun c none => nomatch none) more
  | cons c rest =>
    refine ⟨c, rest, rfl, ?_⟩
    by_contra other
    exact more (stops_cons (by simpa using other) rest)

theorem takeWhile_digits (all : AllDigits digits) (stops : Stops Char.isDigit rest) :
    (digits ++ rest).takeWhile Char.isDigit = digits := by
  rw [List.takeWhile_append_of_pos all]
  cases rest with
  | nil => simp
  | cons c rest => simp [stops c rfl]

theorem dropWhile_digits (all : AllDigits digits) (stops : Stops Char.isDigit rest) :
    (digits ++ rest).dropWhile Char.isDigit = rest := by
  rw [List.dropWhile_append_of_pos all]
  cases rest with
  | nil => rfl
  | cons c rest => simp [stops c rfl]

theorem allDigits_takeWhile (text : List Char) : AllDigits (text.takeWhile Char.isDigit) :=
  fun _ member => List.mem_takeWhile_imp member

def isSign (c : Char) : Bool := c = '+' || c = '-'

theorem isSign_iff {c : Char} : isSign c = true ↔ c = '+' ∨ c = '-' := by simp [isSign]

theorem not_sign_of_digit (c : Char) (digit : c.isDigit = true) : isSign c = false := by
  rw [← Bool.not_eq_true, isSign_iff]
  rintro (rfl | rfl)
  all_goals cases digit

section Starts

variable {kind : Char → Bool} (other : ∀ c, c.isDigit = true → kind c = false)

include other

theorem stops_digits (some : digits ≠ []) (all : AllDigits digits) (rest : List Char) : Stops kind (digits ++ rest) := by
  cases digits with
  | nil => exact absurd rfl some
  | cons c digits => exact stops_cons (other c (all c List.mem_cons_self)) _

theorem stops_mantissa (point : kind '.' = false) (read : Mantissa mantissa whole fraction) (rest : List Char) :
    Stops kind (mantissa ++ rest) := by
  cases read with
  | whole some all => exact stops_digits other some all rest
  | pointed some all _ =>
    rw [List.append_assoc]
    exact stops_digits other some all _
  | fraction => exact stops_cons point _

/-- A written number starts with a sign, a digit or a point. -/
theorem stops_writes (point : kind '.' = false) (plus : kind '+' = false) (minus : kind '-' = false) {text : List Char} {x : ℚ}
    (writes : Writes text negative x) (rest : List Char) : Stops kind (text ++ rest) := by
  obtain ⟨signed, digits, scaled⟩ := writes
  rw [List.append_assoc, List.append_assoc]
  cases signed with
  | absent => exact stops_mantissa other point digits _
  | plus => exact stops_cons plus _
  | minus => exact stops_cons minus _

end Starts

theorem unsigned_digits (some : digits ≠ []) (all : AllDigits digits) (rest : List Char) : Stops isSign (digits ++ rest) :=
  stops_digits not_sign_of_digit some all rest

theorem unsigned_mantissa (read : Mantissa mantissa whole fraction) (rest : List Char) : Stops isSign (mantissa ++ rest) :=
  stops_mantissa not_sign_of_digit (by decide) read rest

/-- The sign at the start of a text. -/
def leadSign : List Char → List Char
  | '-' :: _ => ['-']
  | '+' :: _ => ['+']
  | _ => []

theorem sign_unsigned (stops : Stops isSign body) : leadSign body = [] ∧ takeSign body = (false, body) := by
  cases body with
  | nil => exact ⟨rfl, rfl⟩
  | cons c body =>
    have other : ¬ (c = '+' ∨ c = '-') := by rw [← isSign_iff, stops c rfl]; exact Bool.false_ne_true
    constructor
    · rw [leadSign]
      · exact fun rest same => other (Or.inr (List.cons.inj same).1)
      · exact fun rest same => other (Or.inl (List.cons.inj same).1)
    · rw [takeSign]
      · exact fun rest same => other (Or.inr (List.cons.inj same).1)
      · exact fun rest same => other (Or.inl (List.cons.inj same).1)

theorem sign_read (signed : Sign sign negative) (stops : Stops isSign body) :
    leadSign (sign ++ body) = sign ∧ takeSign (sign ++ body) = (negative, body) := by
  cases signed with
  | absent => exact sign_unsigned stops
  | plus | minus => exact ⟨rfl, rfl⟩

theorem sign_taken (text : List Char) :
    Sign (leadSign text) (takeSign text).1 ∧ text = leadSign text ++ (takeSign text).2 := by
  by_cases stops : Stops isSign text
  · obtain ⟨none, same⟩ := sign_unsigned stops
    rw [none, same]
    exact ⟨.absent, rfl⟩
  · obtain ⟨c, rest, rfl, sign⟩ := exists_of_not_stops stops
    rcases isSign_iff.mp sign with rfl | rfl
    · exact ⟨.plus, rfl⟩
    · exact ⟨.minus, rfl⟩

/-- The point at the start of a text, with the digits behind it. -/
def pointText : List Char → List Char
  | '.' :: rest => '.' :: rest.takeWhile Char.isDigit
  | _ => []

/-- The whole digits and the point with its digits, as reading takes them. -/
def mantissaText (body : List Char) : List Char :=
  body.takeWhile Char.isDigit ++ pointText (body.dropWhile Char.isDigit)

theorem point_absent (stops : Stops (· = '.') rest) : pointText rest = [] ∧ takeFraction rest = ([], rest) := by
  cases rest with
  | nil => exact ⟨rfl, rfl⟩
  | cons c rest =>
    have other : c ≠ '.' := by simpa using stops c rfl
    constructor
    · rw [pointText]
      exact fun rest same => other (List.cons.inj same).1
    · rw [takeFraction]
      exact fun rest same => other (List.cons.inj same).1

theorem stops_point (rest : List Char) : Stops Char.isDigit ('.' :: rest) := stops_cons (by decide) rest

/-- A mantissa is read as it was written when nothing follows that would make it longer. -/
theorem mantissa_read (read : Mantissa mantissa whole fraction) (ends : Stops Char.isDigit rest) (noPoint : Stops (· = '.') rest) :
    mantissaText (mantissa ++ rest) = mantissa ∧ (mantissa ++ rest).takeWhile Char.isDigit = whole ∧
      takeFraction ((mantissa ++ rest).dropWhile Char.isDigit) = (fraction, rest) := by
  cases read with
  | whole some all =>
    obtain ⟨none, same⟩ := point_absent noPoint
    rw [mantissaText, takeWhile_digits all ends, dropWhile_digits all ends, none, same]
    exact ⟨List.append_nil _, rfl, rfl⟩
  | pointed some all behind =>
    have stops := stops_point (fraction ++ rest)
    rw [mantissaText, List.append_assoc, List.cons_append, takeWhile_digits all stops, dropWhile_digits all stops, pointText,
      takeFraction, takeWhile_digits behind ends, dropWhile_digits behind ends]
    exact ⟨rfl, rfl, rfl⟩
  | fraction some behind =>
    have nothing : ('.' :: (fraction ++ rest)).takeWhile Char.isDigit = [] := rfl
    have remains : ('.' :: (fraction ++ rest)).dropWhile Char.isDigit = '.' :: (fraction ++ rest) := rfl
    rw [mantissaText, List.cons_append, nothing, remains, pointText, takeFraction, takeWhile_digits behind ends,
      dropWhile_digits behind ends]
    exact ⟨rfl, rfl, rfl⟩

/-- Whatever follows a mantissa, at least as much is read. -/
theorem mantissa_within (read : Mantissa mantissa whole fraction) (rest : List Char) :
    mantissa <+: mantissaText (mantissa ++ rest) ∧ whole <+: (mantissa ++ rest).takeWhile Char.isDigit ∧
      fraction <+: (takeFraction ((mantissa ++ rest).dropWhile Char.isDigit)).1 := by
  cases read with
  | whole some all =>
    rw [mantissaText, List.takeWhile_append_of_pos all, List.append_assoc]
    exact ⟨List.prefix_append _ _, List.prefix_append _ _, List.nil_prefix⟩
  | pointed some all behind =>
    have stops := stops_point (fraction ++ rest)
    rw [mantissaText, List.append_assoc, List.cons_append, takeWhile_digits all stops, dropWhile_digits all stops, pointText,
      takeFraction, List.takeWhile_append_of_pos behind, ← List.cons_append, ← List.append_assoc]
    exact ⟨List.prefix_append _ _, List.prefix_refl _, List.prefix_append _ _⟩
  | fraction some behind =>
    have nothing : ('.' :: (fraction ++ rest)).takeWhile Char.isDigit = [] := rfl
    have remains : ('.' :: (fraction ++ rest)).dropWhile Char.isDigit = '.' :: (fraction ++ rest) := rfl
    rw [mantissaText, List.cons_append, nothing, remains, pointText, takeFraction, List.takeWhile_append_of_pos behind]
    exact ⟨List.prefix_append ('.' :: fraction) _, List.prefix_refl _, List.prefix_append _ _⟩

/-- The exponent at the start of a text, where there is one. -/
def exponentText : List Char → List Char
  | [] => []
  | mark :: rest =>
    let digits := (takeSign rest).2.takeWhile Char.isDigit
    if (mark = 'e' ∨ mark = 'E') ∧ digits ≠ [] then mark :: (leadSign rest ++ digits) else []

def isMark (c : Char) : Bool := c = 'e' || c = 'E'

theorem isMark_iff {c : Char} : isMark c = true ↔ c = 'e' ∨ c = 'E' := by simp [isMark]

theorem exponent_absent (stops : Stops isMark rest) : exponentText rest = [] ∧ takeExponent rest = 0 := by
  cases rest with
  | nil => exact ⟨rfl, rfl⟩
  | cons c rest =>
    have other : ¬ (c = 'e' ∨ c = 'E') := by rw [← isMark_iff, stops c rfl]; exact Bool.false_ne_true
    simp [exponentText, takeExponent, other]

theorem takeExponent_marked {mark : Char} (marks : mark = 'e' ∨ mark = 'E') (rest : List Char) :
    takeExponent (mark :: rest) =
      let size : Int := ofDigits ((takeSign rest).2.takeWhile Char.isDigit)
      if (takeSign rest).1 then -size else size := by
  simp [takeExponent, marks]

theorem takeExponent_read (scaled : Exponent exponent power) (ends : Stops Char.isDigit rest) (unmarked : Stops isMark rest) :
    takeExponent (exponent ++ rest) = power := by
  cases scaled with
  | absent => exact (exponent_absent unmarked).2
  | power marks signed some all =>
    obtain ⟨-, same⟩ := sign_read signed (unsigned_digits some all rest)
    rw [List.cons_append, List.append_assoc, takeExponent_marked marks, same, takeWhile_digits all ends]

theorem exponent_within (scaled : Exponent exponent power) (rest : List Char) : exponent <+: exponentText (exponent ++ rest) := by
  cases scaled with
  | absent => exact List.nil_prefix
  | @power mark sign digits negative marks signed some all =>
    obtain ⟨lead, same⟩ := sign_read signed (unsigned_digits some all rest)
    have more : (digits ++ rest).takeWhile Char.isDigit = digits ++ rest.takeWhile Char.isDigit := List.takeWhile_append_of_pos all
    have taken : exponentText (mark :: (sign ++ (digits ++ rest))) = mark :: (sign ++ (digits ++ rest.takeWhile Char.isDigit)) := by
      simp only [exponentText, lead, same, more]
      exact if_pos ⟨marks, by simp [some]⟩
    rw [List.cons_append, List.append_assoc, taken, ← List.append_assoc, ← List.cons_append]
    exact List.prefix_append _ _

theorem exponent_taken (text : List Char) : Exponent (exponentText text) (takeExponent text) ∧ exponentText text <+: text := by
  by_cases stops : Stops isMark text
  · obtain ⟨none, zero⟩ := exponent_absent stops
    rw [none, zero]
    exact ⟨.absent, List.nil_prefix⟩
  · obtain ⟨mark, rest, rfl, marked⟩ := exists_of_not_stops stops
    have marks := isMark_iff.mp marked
    obtain ⟨signed, cut⟩ := sign_taken rest
    rw [takeExponent_marked marks, exponentText]
    by_cases some : (takeSign rest).2.takeWhile Char.isDigit = []
    · have zero : ofDigits [] = 0 := Nat.ofDigitChars_nil
      simp only [some, zero, ne_eq, not_true_eq_false, and_false, if_false, Int.natCast_zero, Int.neg_zero, ite_self]
      exact ⟨.absent, List.nil_prefix⟩
    · rw [if_pos ⟨marks, some⟩]
      refine ⟨.power marks signed some (allDigits_takeWhile _), ?_⟩
      rw [List.cons_prefix_cons]
      refine ⟨rfl, ?_⟩
      conv => rhs; rw [cut]
      rw [List.prefix_append_right_inj]
      exact List.takeWhile_prefix _

theorem point_cases (rest : List Char) :
    (pointText rest = [] ∧ takeFraction rest = ([], rest)) ∨ ∃ behind, rest = '.' :: behind := by
  cases rest with
  | nil => exact Or.inl ⟨rfl, rfl⟩
  | cons c rest =>
    by_cases point : c = '.'
    · exact Or.inr ⟨rest, by rw [point]⟩
    · exact Or.inl (point_absent (stops_cons (decide_eq_false point) rest))

theorem fraction_cut (rest : List Char) : rest = pointText rest ++ (takeFraction rest).2 := by
  rcases point_cases rest with ⟨none, same⟩ | ⟨behind, rfl⟩
  · rw [none, same]
    rfl
  · rw [pointText, takeFraction, List.cons_append, List.takeWhile_append_dropWhile]

theorem mantissa_taken (body : List Char)
    (some : ¬ (body.takeWhile Char.isDigit = [] ∧ (takeFraction (body.dropWhile Char.isDigit)).1 = [])) :
    Mantissa (mantissaText body) (body.takeWhile Char.isDigit) (takeFraction (body.dropWhile Char.isDigit)).1 := by
  have all := allDigits_takeWhile body
  rw [mantissaText]
  rcases point_cases (body.dropWhile Char.isDigit) with ⟨none, same⟩ | ⟨behind, point⟩
  · rw [same] at some ⊢
    rw [none, List.append_nil]
    exact .whole (fun nothing => some ⟨nothing, rfl⟩) all
  · rw [point] at some ⊢
    by_cases nothing : body.takeWhile Char.isDigit = []
    · rw [nothing]
      exact .fraction (fun empty => some ⟨nothing, empty⟩) (allDigits_takeWhile behind)
    · exact .pointed nothing all (allDigits_takeWhile behind)

/-- An exponent shuts off whatever is written in front of it. -/
theorem exponent_stops {kind : Char → Bool} (scaled : Exponent exponent power) (stops : exponent = [] → Stops kind rest)
    (lower : kind 'e' = false) (upper : kind 'E' = false) : Stops kind (exponent ++ rest) := by
  cases scaled with
  | absent => exact stops rfl
  | power marks =>
    apply stops_cons
    rcases marks with rfl | rfl
    · exact lower
    · exact upper

theorem mantissa_some (read : Mantissa mantissa whole fraction) : whole ≠ [] ∨ fraction ≠ [] := by
  cases read with
  | whole some | pointed some => exact Or.inl some
  | fraction some => exact Or.inr some

theorem pieces_within (digits : Mantissa mantissa whole fraction) (scaled : Exponent exponent power) (rest : List Char) :
    let body := mantissa ++ (exponent ++ rest)
    (mantissa ++ exponent).length ≤
      (mantissaText body ++ exponentText (takeFraction (body.dropWhile Char.isDigit)).2).length := by
  intro body
  -- An exponent ends the mantissa. Where there is none, reading may go on with what follows.
  by_cases absent : exponent = []
  · subst absent
    have within := (mantissa_within digits ([] ++ rest)).1.length_le
    rw [List.append_nil, List.length_append]
    exact Nat.le_add_right_of_le within
  · have endsDigits : Stops Char.isDigit (exponent ++ rest) :=
      exponent_stops scaled (fun none => absurd none absent) (by decide) (by decide)
    have endsPoint : Stops (· = '.') (exponent ++ rest) :=
      exponent_stops scaled (fun none => absurd none absent) (by decide) (by decide)
    obtain ⟨same, -, atFraction⟩ := mantissa_read digits endsDigits endsPoint
    have within := (exponent_within scaled rest).length_le
    rw [same, atFraction, List.length_append, List.length_append]
    exact Nat.add_le_add_left within _

end Pieces

section Reading

variable {text start rest : List Char} {negative : Bool} {x : ℚ} {n : Numeral}

/-- The start of a text that reading takes. -/
def taken (text : List Char) : List Char :=
  let body := (takeSign text).2
  leadSign text ++ mantissaText body ++ exponentText (takeFraction (body.dropWhile Char.isDigit)).2

theorem read?_eq_some (read : read? text = some n) :
    let body := (takeSign text).2
    let pieces := takeFraction (body.dropWhile Char.isDigit)
    ¬ (body.takeWhile Char.isDigit = [] ∧ pieces.1 = []) ∧
      n = ⟨(takeSign text).1, body.takeWhile Char.isDigit, pieces.1, takeExponent pieces.2⟩ := by
  simp only [read?] at read
  split at read
  next => cases read
  next some =>
    refine ⟨?_, (Option.some.inj read).symm⟩
    simpa using some

/-- The digits on both sides of the point, taken as one whole number. -/
theorem ofDigits_append (whole fraction : List Char) :
    ofDigits (whole ++ fraction) = ofDigits whole * 10 ^ fraction.length + ofDigits fraction := by
  rw [ofDigits, Nat.ofDigitChars_append, Nat.ofDigitChars_eq_ofDigitChars_zero, Nat.mul_comm]
  rfl

/-- A point divides by ten for each digit behind it. -/
theorem pointed_value (whole fraction : List Char) :
    (ofDigits whole : ℚ) + (ofDigits fraction : ℚ) / 10 ^ fraction.length = ofDigits (whole ++ fraction) / 10 ^ fraction.length := by
  have scale : (10 : ℚ) ^ fraction.length ≠ 0 := by positivity
  rw [ofDigits_append, Nat.cast_add, Nat.cast_mul, Nat.cast_pow, Nat.cast_ofNat, add_div, mul_div_cancel_right₀ _ scale]

theorem number_toDecimal (n : Numeral) :
    number n.toDecimal = ((ofDigits n.whole : ℚ) + (ofDigits n.fraction : ℚ) / 10 ^ n.fraction.length) * 10 ^ n.exponent := by
  rw [pointed_value, number, toDecimal, zpow_sub₀ (by norm_num), zpow_natCast, mul_div_assoc', div_mul_eq_mul_div]

theorem writes_taken (read : read? text = some n) : Writes (taken text) n.negative (number n.toDecimal) := by
  obtain ⟨some, rfl⟩ := read?_eq_some read
  rw [number_toDecimal]
  exact .intro (sign_taken text).1 (mantissa_taken _ some) (exponent_taken _).1

theorem taken_starts (text : List Char) : taken text <+: text := by
  obtain ⟨-, cut⟩ := sign_taken text
  have fraction := fraction_cut ((takeSign text).2.dropWhile Char.isDigit)
  have body : (takeSign text).2 = mantissaText (takeSign text).2 ++ (takeFraction ((takeSign text).2.dropWhile Char.isDigit)).2 := by
    rw [mantissaText, List.append_assoc, ← fraction, List.takeWhile_append_dropWhile]
  conv => rhs; rw [cut, body, ← List.append_assoc]
  rw [taken, List.prefix_append_right_inj]
  exact (exponent_taken _).2

theorem read?_pieces {body fraction after : List Char} (atSign : takeSign text = (negative, body))
    (atFraction : takeFraction (body.dropWhile Char.isDigit) = (fraction, after))
    (some : body.takeWhile Char.isDigit ≠ [] ∨ fraction ≠ []) :
    read? text = Option.some ⟨negative, body.takeWhile Char.isDigit, fraction, takeExponent after⟩ := by
  simp only [read?, atSign, atFraction]
  apply if_neg
  simpa [or_iff_not_imp_left] using some

/-- A written number is read as it is when nothing behind it goes on with it. -/
theorem read?_writes (writes : Writes start negative x) (ends : Stops Char.isDigit rest) (noPoint : Stops (· = '.') rest)
    (unmarked : Stops isMark rest) :
    ∃ n, read? (start ++ rest) = some n ∧ n.negative = negative ∧ number n.toDecimal = x := by
  obtain @⟨sign, mantissa, whole, fraction, exponent, negative, power, signed, digits, scaled⟩ := writes
  have endsDigits := exponent_stops scaled (fun _ => ends) (by decide) (by decide)
  have endsPoint := exponent_stops scaled (fun _ => noPoint) (by decide) (by decide)
  obtain ⟨-, atSign⟩ := sign_read signed (unsigned_mantissa digits (exponent ++ rest))
  obtain ⟨-, atWhole, atFraction⟩ := mantissa_read digits endsDigits endsPoint
  have read := read?_pieces atSign atFraction (atWhole ▸ mantissa_some digits)
  rw [atWhole, takeExponent_read scaled ends unmarked] at read
  refine ⟨⟨negative, whole, fraction, power⟩, ?_, rfl, number_toDecimal _⟩
  simpa only [List.append_assoc] using read

/-- Whatever follows a written number, something is read, and at least as much of the text. -/
theorem writes_within (writes : Writes start negative x) (rest : List Char) :
    start.length ≤ (taken (start ++ rest)).length ∧ ∃ n, read? (start ++ rest) = some n := by
  obtain @⟨sign, mantissa, whole, fraction, exponent, negative, power, signed, digits, scaled⟩ := writes
  have shape : sign ++ mantissa ++ exponent ++ rest = sign ++ (mantissa ++ (exponent ++ rest)) := by simp only [List.append_assoc]
  obtain ⟨lead, atSign⟩ := sign_read signed (unsigned_mantissa digits (exponent ++ rest))
  obtain ⟨-, moreWhole, moreFraction⟩ := mantissa_within digits (exponent ++ rest)
  rw [shape]
  constructor
  · have within := pieces_within digits scaled rest
    rw [taken, lead, atSign]
    simp only [List.length_append] at within ⊢
    omega
  · refine ⟨_, read?_pieces atSign rfl ?_⟩
    exact (mantissa_some digits).imp (fun some none => some (List.prefix_nil.mp (none ▸ moreWhole)))
      (fun some none => some (List.prefix_nil.mp (none ▸ moreFraction)))

/-- A text writes at most one number. -/
theorem Writes.unique {other : Bool} {y : ℚ} (first : Writes text negative x) (second : Writes text other y) :
    negative = other ∧ x = y := by
  have nothing (kind : Char → Bool) : Stops kind [] := fun c none => nomatch none
  obtain ⟨n, read, sign, same⟩ := read?_writes first (nothing _) (nothing _) (nothing _)
  obtain ⟨m, again, otherSign, otherSame⟩ := read?_writes second (nothing _) (nothing _) (nothing _)
  obtain rfl : n = m := Option.some.inj (read.symm.trans again)
  exact ⟨sign.symm.trans otherSign, same.symm.trans otherSame⟩

theorem longest_taken (read : read? text = some n) : Longest text (taken text) where
  starts := taken_starts text
  number := ⟨_, _, writes_taken read⟩
  longest := by
    rintro other ⟨rest, rfl⟩ ⟨negative, x, writes⟩
    exact (writes_within writes rest).1

theorem Longest.unique {other : List Char} (first : Longest text start) (second : Longest text other) : start = other := by
  have same : start.length = other.length :=
    Nat.le_antisymm (second.longest start first.starts first.number) (first.longest other second.starts second.number)
  exact (List.prefix_of_prefix_length_le first.starts second.starts same.le).eq_of_length same

/-- What is read is the longest number at the start of the text; there is none where nothing is read. -/
theorem longest_iff : Longest text start ↔ ∃ n, read? text = some n ∧ start = taken text := by
  constructor
  · intro longest
    obtain ⟨rest, rfl⟩ := longest.starts
    obtain ⟨negative, x, writes⟩ := longest.number
    obtain ⟨-, n, read⟩ := writes_within writes rest
    exact ⟨n, read, longest.unique (longest_taken read)⟩
  · rintro ⟨n, read, rfl⟩
    exact longest_taken read

theorem read?_eq_none_iff : read? text = none ↔ ∀ start, start <+: text → ¬ IsNumber start := by
  constructor
  · rintro nothing start ⟨rest, rfl⟩ ⟨negative, x, writes⟩
    obtain ⟨-, n, read⟩ := writes_within writes rest
    rw [nothing] at read
    cases read
  · intro noNumber
    by_contra something
    obtain ⟨n, read⟩ := Option.ne_none_iff_exists'.mp something
    exact noNumber _ (taken_starts text) ⟨_, _, writes_taken read⟩

-- A mark is read with its digits or not at all.
example : read? "12.e5x".toList = some ⟨false, ['1', '2'], [], 5⟩ := by decide

example : read? "1e+".toList = some ⟨false, ['1'], [], 0⟩ := by decide

end Reading

end VideoPage.Proofs.NumberTexts
