import VideoPage.Binary64.Arithmetic

/-! Decimal numbers and the doubles nearest to them. -/

namespace VideoPage

/-- The number `coefficient * 10 ^ exponent`. -/
structure Decimal where
  coefficient : Nat
  exponent : Int
deriving DecidableEq

namespace Decimal

/-- The magnitude nearest to a decimal. -/
def nearest (d : Decimal) : Magnitude :=
  .nearest (d.coefficient * Nat.pow 10 d.exponent.toNat * Magnitude.one) (Nat.pow 10 (-d.exponent).toNat)

/-- The place of the leading digit: the decimal is below ten to this power, and not below
a tenth of that unless it is zero. -/
def order (d : Decimal) : Int :=
  (Nat.toDigits 10 d.coefficient).length + d.exponent

/-- The magnitude nearest to a decimal, found without writing out a power of ten that
cannot matter: beyond these orders every decimal is nearest to zero or to infinity. -/
def toMagnitude (d : Decimal) : Magnitude :=
  if d.coefficient = 0 || d.order < -330 then .zero
  else if 310 < d.order then .infinity
  else d.nearest

def toBinary64 (negative : Bool) (d : Decimal) : Binary64 :=
  .signed negative d.toMagnitude

end Decimal

instance : OfScientific Binary64 where
  ofScientific coefficient negativeExponent exponent :=
    Decimal.toBinary64 false ⟨coefficient, if negativeExponent then -exponent else exponent⟩

instance : Neg Binary64 where
  neg
    | .nan => .nan
    | .signed negative magnitude => .signed (!negative) magnitude

end VideoPage
