import VideoPage.Proofs.NumberTexts

/-! Numbers in the bytes of a text. A scan that walks over the bytes by their places, and never looks
at a whole character, stops where the longest number of the text ends. -/

namespace VideoPage.Proofs.NumberBytes
open Numeral NumberTexts

section Scan

/-- The UTF-8 encoding of a text. -/
def bytesOf (text : List Char) : List UInt8 := text.flatMap String.utf8EncodeChar

/-- Whether a place of the bytes holds a character of a kind, written as one byte. -/
def holds (kind : Char → Bool) (bytes : List UInt8) (place : Nat) : Bool := bytes[place]?.any (kind ∘ Char.ofUInt8)

/-- The first place from one on that holds no digit. -/
def digitsEnd (bytes : List UInt8) (place : Nat) : Nat :=
  if place < bytes.length ∧ holds Char.isDigit bytes place then digitsEnd bytes (place + 1) else place
termination_by bytes.length - place

/-- The place behind the digits and the point from a place on, where there is a digit on either side. -/
def mantissaEnd? (bytes : List UInt8) (place : Nat) : Option Nat :=
  let whole := digitsEnd bytes place
  let point := holds (· = '.') bytes whole
  let fraction := digitsEnd bytes (whole + 1)
  if place < whole || (point && whole + 1 < fraction) then some (if point then fraction else whole) else none

/-- The place behind an exponent; a mark without digits is no exponent. -/
def exponentEnd (bytes : List UInt8) (place : Nat) : Nat :=
  let power := place + 1 + (holds isSign bytes (place + 1)).toNat
  let last := digitsEnd bytes power
  if holds isMark bytes place && power < last then last else place

/-- The place behind the number at the start of the bytes. -/
def numberEnd? (bytes : List UInt8) : Option Nat :=
  (mantissaEnd? bytes (holds isSign bytes 0).toNat).map (exponentEnd bytes)

end Scan

section Encoding

variable {kind : Char → Bool}

/-- The kind has no character that takes more than one byte. -/
def OneByte (kind : Char → Bool) : Prop := ∀ c, kind c = true → c.toNat < 128

theorem oneByte_digit : OneByte Char.isDigit := by
  intro c digit
  have last : c.toNat ≤ 57 := (Char.isDigit_iff_toNat.mp digit).2
  omega

theorem oneByte_sign : OneByte isSign := by
  intro c sign
  rcases isSign_iff.mp sign with rfl | rfl
  all_goals decide

theorem oneByte_point : OneByte (· = '.') := by
  intro c point
  obtain rfl := of_decide_eq_true point
  decide

theorem oneByte_mark : OneByte isMark := by
  intro c mark
  rcases isMark_iff.mp mark with rfl | rfl
  all_goals decide

theorem bytesOf_append (first second : List Char) : bytesOf (first ++ second) = bytesOf first ++ bytesOf second :=
  List.flatMap_append

theorem bytesOf_cons (c : Char) (text : List Char) : bytesOf (c :: text) = String.utf8EncodeChar c ++ bytesOf text :=
  List.flatMap_cons

theorem encode_ascii {c : Char} (ascii : c.toNat < 128) : String.utf8EncodeChar c = [UInt8.ofNat c.toNat] :=
  if_pos (Nat.le_of_lt_succ ascii)

theorem ofUInt8_ascii {c : Char} (ascii : c.toNat < 128) : Char.ofUInt8 (UInt8.ofNat c.toNat) = c := by
  apply Char.toNat_inj.mp
  change (UInt8.ofNat c.toNat).toNat = c.toNat
  rw [UInt8.toNat_ofNat']
  omega

/-- The first byte of a longer character is no character by itself. -/
theorem encode_beyond {c : Char} (beyond : ¬ c.toNat < 128) :
    ∃ byte rest, String.utf8EncodeChar c = byte :: rest ∧ 128 ≤ byte.toNat := by
  have more : ¬ c.val.toNat ≤ 127 := fun le => beyond (Nat.lt_succ_of_le le)
  rw [String.utf8EncodeChar, if_neg more]
  split
  next =>
    refine ⟨_, _, rfl, ?_⟩
    rw [UInt8.toNat_ofNat']
    omega
  next =>
    split
    all_goals
      refine ⟨_, _, rfl, ?_⟩
      rw [UInt8.toNat_ofNat']
      omega

theorem length_pos_iff {text : List Char} : 0 < (bytesOf text).length ↔ text ≠ [] := by
  cases text with
  | nil => simp [bytesOf]
  | cons c text =>
    rw [List.length_pos_iff, bytesOf_cons]
    exact iff_of_true (List.append_ne_nil_of_left_ne_nil String.utf8EncodeChar_ne_nil _) (List.cons_ne_nil c text)

end Encoding

section Places

variable {kind : Char → Bool} {bytes : List UInt8} {place next : Nat} {front read rest : List Char}

/-- A place of the bytes, between what has been read and the rest of the text. -/
structure At (bytes : List UInt8) (place : Nat) (front rest : List Char) : Prop where
  bytes_eq : bytes = bytesOf (front ++ rest)
  place_eq : place = (bytesOf front).length

theorem at_start (text : List Char) : At (bytesOf text) 0 [] text := ⟨rfl, rfl⟩

theorem At.step {c : Char} (here : At bytes place front (c :: rest)) (ascii : c.toNat < 128) :
    At bytes (place + 1) (front ++ [c]) rest where
  bytes_eq := by rw [here.bytes_eq, List.append_assoc, List.singleton_append]
  place_eq := by
    rw [here.place_eq, bytesOf_append, List.length_append, bytesOf_cons, encode_ascii ascii]
    rfl

theorem At.lt_iff (here : At bytes place front (read ++ rest)) (there : At bytes next (front ++ read) rest) :
    place < next ↔ read ≠ [] := by
  rw [here.place_eq, there.place_eq, bytesOf_append, List.length_append, Nat.lt_add_right_iff_pos, length_pos_iff]

/-- The byte at a place tells whether the character there is of a kind. -/
theorem At.holds_eq (here : At bytes place front rest) (only : OneByte kind) : holds kind bytes place = rest.head?.any kind := by
  rw [holds, here.bytes_eq, here.place_eq, bytesOf_append, List.getElem?_append_right le_rfl, Nat.sub_self]
  cases rest with
  | nil => rfl
  | cons c rest =>
    rw [bytesOf_cons]
    by_cases ascii : c.toNat < 128
    · rw [encode_ascii ascii]
      simp [ofUInt8_ascii ascii]
    · obtain ⟨byte, tail, encoded, large⟩ := encode_beyond ascii
      have notByte : kind (Char.ofUInt8 byte) = false := by
        by_contra kept
        have small : byte.toNat < 128 := only (Char.ofUInt8 byte) (by simpa using kept)
        omega
      have notChar : kind c = false := by
        by_contra kept
        exact ascii (only c (by simpa using kept))
      rw [encoded]
      simp [notByte, notChar]

theorem At.stops (here : At bytes place front rest) (only : OneByte kind) (stops : Stops kind rest) :
    holds kind bytes place = false := by
  rw [here.holds_eq only]
  cases rest with
  | nil => rfl
  | cons c rest => exact stops c rfl

theorem At.digits (here : At bytes place front rest) :
    At bytes (digitsEnd bytes place) (front ++ rest.takeWhile Char.isDigit) (rest.dropWhile Char.isDigit) := by
  induction rest generalizing place front with
  | nil =>
    have nothing := here.stops oneByte_digit (fun c none => nomatch none)
    rw [digitsEnd, nothing, if_neg (fun more => nomatch more.2), List.takeWhile_nil, List.append_nil]
    exact here
  | cons c rest ih =>
    by_cases digit : c.isDigit = true
    · have after := here.step (oneByte_digit c digit)
      have inside : place < bytes.length := by
        have more := length_pos_iff.mpr (List.cons_ne_nil c rest)
        rw [here.place_eq, here.bytes_eq, bytesOf_append, List.length_append]
        omega
      have held : holds Char.isDigit bytes place = true := by rw [here.holds_eq oneByte_digit]; exact digit
      rw [digitsEnd, if_pos ⟨inside, held⟩, List.takeWhile_cons_of_pos digit, List.dropWhile_cons_of_pos digit]
      simpa only [List.append_assoc, List.singleton_append] using ih after
    · have nothing := here.stops oneByte_digit (stops_cons (by simpa using digit) rest)
      rw [digitsEnd, nothing, if_neg (fun more => nomatch more.2), List.takeWhile_cons_of_neg digit, List.dropWhile_cons_of_neg digit,
        List.append_nil]
      exact here

theorem At.lt_digits_iff (here : At bytes place front rest) : place < digitsEnd bytes place ↔ rest.takeWhile Char.isDigit ≠ [] := by
  have cut : rest = rest.takeWhile Char.isDigit ++ rest.dropWhile Char.isDigit := List.takeWhile_append_dropWhile.symm
  have again := here
  rw [cut] at again
  exact again.lt_iff here.digits

theorem At.sign (here : At bytes place front rest) :
    At bytes (place + (holds isSign bytes place).toNat) (front ++ leadSign rest) (takeSign rest).2 := by
  by_cases stops : Stops isSign rest
  · obtain ⟨none, same⟩ := sign_unsigned stops
    rw [here.stops oneByte_sign stops, none, same, List.append_nil]
    exact here
  · obtain ⟨c, rest, rfl, sign⟩ := exists_of_not_stops stops
    rw [here.holds_eq oneByte_sign, List.head?_cons, Option.any_some, sign]
    rcases isSign_iff.mp sign with rfl | rfl
    · exact here.step (by decide)
    · exact here.step (by decide)

theorem At.exponent (here : At bytes place front rest) : exponentEnd bytes place = (bytesOf (front ++ exponentText rest)).length := by
  rw [exponentEnd]
  by_cases stops : Stops isMark rest
  · rw [here.stops oneByte_mark stops, (exponent_absent stops).1, List.append_nil]
    exact here.place_eq
  · obtain ⟨mark, rest, rfl, marked⟩ := exists_of_not_stops stops
    have held : holds isMark bytes place = true := by rw [here.holds_eq oneByte_mark]; exact marked
    have atPower := (here.step (oneByte_mark mark marked)).sign
    rw [held, Bool.true_and, exponentText]
    by_cases some : (takeSign rest).2.takeWhile Char.isDigit = []
    · rw [if_neg (by simp [atPower.lt_digits_iff, some]), if_neg (fun both => both.2 some), List.append_nil]
      exact here.place_eq
    · rw [if_pos (decide_eq_true (atPower.lt_digits_iff.mpr some)), if_pos ⟨isMark_iff.mp marked, some⟩, atPower.digits.place_eq]
      rw [List.append_assoc, List.append_assoc, List.singleton_append]

/-- The scan misses a mantissa only where there is no digit to read. -/
theorem At.mantissa (here : At bytes place front rest) :
    let pieces := takeFraction (rest.dropWhile Char.isDigit)
    (mantissaEnd? bytes place = none ∧ rest.takeWhile Char.isDigit = [] ∧ pieces.1 = []) ∨
      ∃ last, mantissaEnd? bytes place = some last ∧ ¬ (rest.takeWhile Char.isDigit = [] ∧ pieces.1 = []) ∧
        At bytes last (front ++ mantissaText rest) pieces.2 := by
  intro pieces
  have atWhole := here.digits
  have more := here.lt_digits_iff
  rw [mantissaEnd?]
  by_cases stops : Stops (· = '.') (rest.dropWhile Char.isDigit)
  · obtain ⟨none, same⟩ := point_absent stops
    simp only [atWhole.stops oneByte_point stops, more, pieces, same, mantissaText, none, List.append_nil, Bool.false_and, Bool.or_false]
    by_cases some : rest.takeWhile Char.isDigit = []
    · exact Or.inl (by simp [some])
    · exact Or.inr ⟨_, by simp [some], fun both => some both.1, atWhole⟩
  · obtain ⟨c, behind, after, isPoint⟩ := exists_of_not_stops stops
    obtain rfl := of_decide_eq_true isPoint
    rw [after] at atWhole
    have hasPoint : holds (· = '.') bytes (digitsEnd bytes place) = true := atWhole.holds_eq oneByte_point
    have atFraction := atWhole.step (by decide)
    simp only [hasPoint, more, atFraction.lt_digits_iff, pieces, after, takeFraction, mantissaText, pointText, Bool.true_and, if_true]
    by_cases some : rest.takeWhile Char.isDigit = [] ∧ behind.takeWhile Char.isDigit = []
    · exact Or.inl ⟨by simp [some], some⟩
    · have atEnd := atFraction.digits
      simp only [List.append_assoc, List.singleton_append] at atEnd
      exact Or.inr ⟨_, if_pos (by simpa only [Bool.or_eq_true, decide_eq_true_eq] using not_and_or.mp some), some, atEnd⟩

/-- The scan over the bytes ends where reading the text ends. -/
theorem numberEnd?_eq (text : List Char) : numberEnd? (bytesOf text) = (read? text).map fun _ => (bytesOf (taken text)).length := by
  have atStart : At (bytesOf text) (holds isSign (bytesOf text) 0).toNat (leadSign text) (takeSign text).2 := by
    simpa only [Nat.zero_add, List.nil_append] using (at_start text).sign
  rw [numberEnd?]
  rcases atStart.mantissa with ⟨none, nothing⟩ | ⟨last, ends, some, atLast⟩
  · have unread : read? text = Option.none := by
      by_contra something
      obtain ⟨n, read⟩ := Option.ne_none_iff_exists'.mp something
      exact (read?_eq_some read).1 nothing
    rw [none, unread]
    rfl
  · rw [ends, read?_pieces rfl rfl (not_and_or.mp some), Option.map_some, Option.map_some, atLast.exponent, taken]

end Places

end VideoPage.Proofs.NumberBytes
