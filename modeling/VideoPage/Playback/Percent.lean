import VideoPage.Decimal.Layout
import VideoPage.Decimal.Numeral
import VideoPage.Text.Blank

/-! Positions in a video as percentages. A percentage that leaves this module lies between
zero and a hundred, whatever came in. -/

namespace VideoPage.Percent

def full : Binary64 := 100

/-- A duration is known when it is finite and positive; before its metadata has loaded a
video reports NaN. -/
def isKnownDuration (duration : Binary64) : Bool := duration.isFinite && 0 < duration

/-- Brings a percentage into range. NaN counts as zero. -/
def clamp (percent : Binary64) : Binary64 :=
  if percent.isNaN then 0 else percent.clamp 0 full

/-- How much of a video has been played. It is zero while the duration is unknown. -/
def ofTime (current duration : Binary64) : Binary64 :=
  if isKnownDuration duration && current.isFinite then clamp (current / duration * full) else 0

/-- The time at a percentage of a duration that is known. -/
def share (percent duration : Binary64) : Binary64 := clamp percent / full * duration

/-- The time that a seek bar asks for. It is zero while the duration is unknown. -/
def toTime (percent duration : Binary64) : Binary64 :=
  if isKnownDuration duration then share percent duration else 0

/-- The duration that segments are laid out over while the real one is unknown. -/
def segmentFallback : Binary64 := 1

/-- The time at which a segment of the timeline starts. -/
def toSegmentTime (percent duration : Binary64) : Binary64 :=
  share percent (if isKnownDuration duration then duration else segmentFallback)

/-- A percentage as a style property writes it. -/
def css (percent : Binary64) : String := String.ofList ((clamp percent).plainText ++ ['%'])

/-- Reads the number at the start of an attribute, after blanks. What follows the number
is ignored; a number too large for a double is refused. -/
def read? (raw : String) : Option Binary64 :=
  match Numeral.read? (Text.trimStart raw.toList) with
  | none => none
  | some numeral => if numeral.toBinary64.isFinite then some numeral.toBinary64 else none

end VideoPage.Percent
