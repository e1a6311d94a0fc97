import VideoPage.Decimal.Layout

/-! Clock labels: minutes and seconds, two digits each, with as many digits for the minutes
as they need. -/

namespace VideoPage.Clock

/-- The largest number of seconds that a clock shows. -/
def limit : Nat := Nat.pow 2 64 - 1

/-- The whole seconds of a time. A time that is not finite and positive shows as zero. -/
def wholeSeconds (seconds : Binary64) : Nat :=
  if seconds.isFinite && 0 < seconds then min seconds.wholePart limit else 0

/-- Minutes and seconds as digits. -/
def labelText (seconds : Nat) : List Char :=
  Decimal.padded 2 (seconds / 60) ++ ':' :: Decimal.padded 2 (seconds % 60)

def label (seconds : Binary64) : String := String.ofList (labelText (wholeSeconds seconds))

/-- The current time beside the whole duration. -/
def pairLabel (current total : Binary64) : String := label current ++ " / " ++ label total

end VideoPage.Clock
