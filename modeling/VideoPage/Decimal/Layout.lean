import VideoPage.Decimal.Shortest

/-! How a double is written: with its shortest digits, in one of two layouts, or with a
fixed number of places. -/

namespace VideoPage

namespace Decimal

/-- Digits, padded on the left with zeros up to a width. -/
def padded (width n : Nat) : List Char :=
  let digits := Nat.toDigits 10 n
  List.replicate (width - digits.length) '0' ++ digits

/-- A whole number of `10 ^ (-places)`, with the point before the last `places` digits
and at least one digit in front of it. -/
def pointed (places n : Nat) : List Char :=
  let digits := padded (places + 1) n
  let whole := digits.length - places
  if places = 0 then digits else digits.take whole ++ '.' :: digits.drop whole

/-- All digits in their places, without an exponent. -/
def positional (d : Decimal) : List Char :=
  if 0 ≤ d.exponent then Nat.toDigits 10 d.coefficient ++ List.replicate d.exponent.toNat '0'
  else pointed (-d.exponent).toNat d.coefficient

/-- One digit before the point, and the exponent with its sign. -/
def scientific (d : Decimal) : List Char :=
  let digits := Nat.toDigits 10 d.coefficient
  let exponent := d.order - 1
  let mantissa := match digits with
    | first :: second :: rest => first :: '.' :: second :: rest
    | short => short
  mantissa ++ 'e' :: (if exponent < 0 then '-' else '+') :: Nat.toDigits 10 exponent.natAbs

end Decimal

namespace Binary64

def signText (negative : Bool) : List Char := if negative then ['-'] else []

/-- What stands for a number that has no digits. -/
def nonFiniteText : Binary64 → List Char
  | nan => "NaN".toList
  | signed negative _ => signText negative ++ "inf".toList

/-- The shortest digits in their places, with no point on a whole number. -/
def plainText (x : Binary64) : List Char :=
  match x with
  | signed negative magnitude =>
    if magnitude.isFinite then signText negative ++ (magnitude.shortest .up).positional
    else nonFiniteText x
  | nan => nonFiniteText x

/-- A fixed number of places. The exact value is rounded, a half going to the even last
digit, and the sign stays on a number that rounds to zero. -/
def fixedText (places : Nat) (x : Binary64) : List Char :=
  match x with
  | signed negative magnitude =>
    if magnitude.isFinite then
      let scaled := magnitude.units * Nat.pow 10 places
      let low := scaled / Magnitude.one
      let rest := 2 * (scaled % Magnitude.one)
      let up := Magnitude.one < rest || (rest == Magnitude.one && low % 2 == 1)
      signText negative ++ Decimal.pointed places (if up then low + 1 else low)
    else nonFiniteText x
  | nan => nonFiniteText x

/-- Orders of magnitude that an exported number writes without an exponent: from a
hundred-thousandth up to ten million billions. -/
def isPlainOrder (order : Int) : Bool := -4 ≤ order && order ≤ 16

/-- An exported number: the shortest digits, a whole number keeping `.0`, and an exponent
outside the plain orders. A number that is not finite has no export. -/
def exportText? : Binary64 → Option (List Char)
  | nan => none
  | signed negative magnitude =>
    if magnitude.isFinite then
      let d := magnitude.shortest .toEven
      let digits :=
        if magnitude.rank = 0 then "0.0".toList
        else if isPlainOrder d.order then
          if 0 ≤ d.exponent then d.positional ++ ['.', '0'] else d.positional
        else d.scientific
      some (signText negative ++ digits)
    else none

end Binary64
end VideoPage
