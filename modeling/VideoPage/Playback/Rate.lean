import VideoPage.Decimal.Layout

/-! Playback rates and the steps that the slower and faster buttons take. -/

namespace VideoPage

/-- Where a control bar's rate may go, how far a step takes it, and where it starts over. -/
structure RateLimits where
  min : Binary64 := 0.25
  max : Binary64 := 4
  step : Binary64 := 0.8
  reset : Binary64 := 1
deriving DecidableEq

namespace RateLimits

/-- A usable rate is finite and positive. A detached video may report something else, and
then stepping starts over from the reset rate. -/
def usable (limits : RateLimits) (rate : Binary64) : Binary64 :=
  if rate.isFinite && 0 < rate then rate else limits.reset

def slower (limits : RateLimits) (rate : Binary64) : Binary64 :=
  (limits.usable rate * limits.step).maximum limits.min

def faster (limits : RateLimits) (rate : Binary64) : Binary64 :=
  (limits.usable rate / limits.step).minimum limits.max

end RateLimits

/-- A press of one of the two buttons. -/
inductive RateStep where
  | slower
  | faster
deriving DecidableEq

namespace RateLimits

/-- The rate after a press. -/
def after (limits : RateLimits) (rate : Binary64) : RateStep → Binary64
  | .slower => limits.slower rate
  | .faster => limits.faster rate

/-- The rate after each of a row of presses. -/
def walk (limits : RateLimits) (rate : Binary64) : List RateStep → List Binary64
  | [] => []
  | step :: rest =>
    let next := limits.after rate step
    next :: limits.walk next rest

end RateLimits

/-- A rate as the speed label shows it. -/
def rateLabel (rate : Binary64) : String := String.ofList (rate.fixedText 2 ++ ['x'])

end VideoPage
