import VideoPage.Decimal.Basic

/-! The shortest decimal that reads back as a given magnitude. The multiples of a power of
ten form a grid; the search goes from coarse grids to fine ones and stops at the first
that has a point which reads back. The finest grid holds every double exactly, so the
search always ends with a decimal that reads back. -/

namespace VideoPage

/-- Which of two grid points a magnitude in the middle between them goes to. -/
inductive TieRule where
  | up
  | toEven
deriving DecidableEq

namespace Magnitude

/-- The last point of the grid of `10 ^ exponent` that does not exceed a magnitude. -/
def gridBelow (a : Magnitude) (exponent : Int) : Nat :=
  a.units * Nat.pow 10 (-exponent).toNat / (one * Nat.pow 10 exponent.toNat)

/-- Whether a magnitude is nearer to its grid point above than to the one below. -/
def prefersAbove (tie : TieRule) (a : Magnitude) (exponent : Int) : Bool :=
  let low := a.gridBelow exponent
  let twice := 2 * (a.units * Nat.pow 10 (-exponent).toNat)
  let middle := (2 * low + 1) * (one * Nat.pow 10 exponent.toNat)
  middle < twice || (middle == twice && (tie == .up || low % 2 == 1))

/-- The nearer of a magnitude's two neighbours on a grid among those that read back. -/
def gridPoint? (tie : TieRule) (a : Magnitude) (exponent : Int) : Option Decimal :=
  let below : Decimal := ⟨a.gridBelow exponent, exponent⟩
  let above : Decimal := ⟨a.gridBelow exponent + 1, exponent⟩
  if below.nearest = a then
    if above.nearest = a && a.prefersAbove tie exponent then some above else some below
  else if above.nearest = a then some above
  else none

/-- The first grid point that reads back on the grids from `10 ^ (steps - 1074)` down. -/
def coarsestFrom (tie : TieRule) (a : Magnitude) : Nat → Decimal
  | 0 => ⟨a.units * Nat.pow 5 1074, -1074⟩
  | steps + 1 => (a.gridPoint? tie (steps + 1 - 1074)).getD (coarsestFrom tie a steps)

/-- The shortest decimal that reads back as a finite magnitude, and among the decimals of
that length the nearest. No grid coarser than the first one searched has a point between
zero and twice the magnitude. -/
def shortest (tie : TieRule) (a : Magnitude) : Decimal :=
  if a.rank = 0 then ⟨0, 0⟩
  else a.coarsestFrom tie ((Nat.toDigits 10 (a.units / one)).length + 1074)

end Magnitude
end VideoPage
