import VideoPage.Decimal.Basic

/-! Reading a number at the start of a text: an optional sign, digits with an optional
point, and an optional exponent. The longest start of that form is taken and the rest of
the text is left alone. -/

namespace VideoPage

/-- The parts of a written number. -/
structure Numeral where
  negative : Bool
  whole : List Char
  fraction : List Char
  exponent : Int
deriving DecidableEq

namespace Numeral

/-- Takes a leading sign; no sign means positive. -/
def takeSign : List Char → Bool × List Char
  | '-' :: rest => (true, rest)
  | '+' :: rest => (false, rest)
  | rest => (false, rest)

/-- The number that digits write. -/
def ofDigits (digits : List Char) : Nat := Nat.ofDigitChars 10 digits 0

/-- The digits after a point, and what follows them. -/
def takeFraction : List Char → List Char × List Char
  | '.' :: rest => (rest.takeWhile Char.isDigit, rest.dropWhile Char.isDigit)
  | rest => ([], rest)

/-- The exponent at the start of a text; a mark without digits is no exponent. -/
def takeExponent : List Char → Int
  | mark :: rest =>
    if mark = 'e' || mark = 'E' then
      let (negative, digits) := takeSign rest
      let size := ofDigits (digits.takeWhile Char.isDigit)
      if negative then -size else size
    else 0
  | [] => 0

/-- Reads the longest number at the start of a text. It needs a digit on at least one side
of the point. -/
def read? (text : List Char) : Option Numeral :=
  let (negative, body) := takeSign text
  let whole := body.takeWhile Char.isDigit
  let (fraction, rest) := takeFraction (body.dropWhile Char.isDigit)
  if whole.isEmpty && fraction.isEmpty then none
  else some ⟨negative, whole, fraction, takeExponent rest⟩

/-- The decimal that a written number stands for, without its sign. -/
def toDecimal (n : Numeral) : Decimal :=
  ⟨ofDigits (n.whole ++ n.fraction), n.exponent - n.fraction.length⟩

def toBinary64 (n : Numeral) : Binary64 := n.toDecimal.toBinary64 n.negative

end Numeral
end VideoPage
