import VideoPage.Binary64.Basic

/-! Rounding to the nearest double, with a tie going to the even rank. The whole of
rounding is a statement about one sequence of sizes, `sizeOfRank`: find the last size
that does not exceed the quotient, then compare the quotient with the middle of the
gap above it. -/

namespace VideoPage.Magnitude

/-- The last rank whose size is at most `size`. -/
def rankBelow (size : Nat) : Nat :=
  let doublings := size.log2 - 52
  doublings * Nat.pow 2 52 + size / Nat.pow 2 doublings

/-- The rank nearest to the quotient of two counts of units. A rank's lowest bit is the
lowest bit of its significand, so a tie goes to the even significand. -/
def nearestRank (numerator denominator : Nat) : Nat :=
  let low := rankBelow (numerator / denominator)
  let middle := denominator * (sizeOfRank low + sizeOfRank (low + 1))
  if 2 * numerator < middle then low
  else if middle < 2 * numerator then low + 1
  else low + low % 2

/-- The magnitude nearest to a quotient of units. Everything from the middle of the last
gap on is infinity. -/
def nearest (numerator denominator : Nat) : Magnitude :=
  ⟨min (nearestRank numerator denominator) topRank, Nat.min_le_right _ _⟩

end VideoPage.Magnitude
