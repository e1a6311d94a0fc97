import VideoPage.Binary64.Rounding

/-! Sum, product and quotient of doubles. Each is the exact value rounded once; only the
rules for zeros and infinities are written out by hand. -/

namespace VideoPage.Binary64

open Magnitude (one nearest)

/-- The exact value of a finite number in units of `2 ^ (-1074)`. -/
def signedUnits (negative : Bool) (magnitude : Magnitude) : Int :=
  if negative then -magnitude.units else magnitude.units

/-- Infinities of opposite sign have no sum. A sum that is exactly zero is positive
unless both operands are negative. -/
def add : Binary64 → Binary64 → Binary64
  | signed n a, signed m b =>
    if a.isFinite then
      if b.isFinite then
        let total := signedUnits n a + signedUnits m b
        if total = 0 then signed (n && m) .zero
        else signed (total < 0) (nearest total.natAbs 1)
      else signed m b
    else if b.isFinite || n == m then signed n a
    else nan
  | _, _ => nan

/-- Zero times infinity is NaN. -/
def mul : Binary64 → Binary64 → Binary64
  | signed n a, signed m b =>
    if a.isFinite && b.isFinite then signed (n != m) (nearest (a.units * b.units) one)
    else if a.rank = 0 || b.rank = 0 then nan
    else signed (n != m) .infinity
  | _, _ => nan

/-- Zero over zero and infinity over infinity are NaN; any other quotient by zero is
infinite. -/
def div : Binary64 → Binary64 → Binary64
  | signed n a, signed m b =>
    if a.isFinite then
      if b.isFinite then
        if b.rank = 0 then
          if a.rank = 0 then nan else signed (n != m) .infinity
        else signed (n != m) (nearest (a.units * one) b.units)
      else signed (n != m) .zero
    else if b.isFinite then signed (n != m) .infinity
    else nan
  | _, _ => nan

instance : Add Binary64 := ⟨add⟩

instance : Mul Binary64 := ⟨mul⟩

instance : Div Binary64 := ⟨div⟩

/-- The double nearest to a quotient of natural numbers. -/
def ofRatio (numerator denominator : Nat) : Binary64 :=
  signed false (nearest (numerator * one) denominator)

instance (n : Nat) : OfNat Binary64 n := ⟨ofRatio n 1⟩

/-- The whole part of a magnitude. -/
def wholePart : Binary64 → Nat
  | nan => 0
  | signed _ magnitude => magnitude.units / one

end VideoPage.Binary64
