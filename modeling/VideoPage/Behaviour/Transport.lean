import VideoPage.Behaviour.Frame
import VideoPage.Media.Deck
import VideoPage.Playback.Clock
import VideoPage.Playback.PlayIcon
import VideoPage.Playback.Rate

/-! A control bar for one video. Every change of rate also starts the video, so after it
the button always offers to pause. -/

namespace VideoPage

structure Transport (ι : Type) where
  id : ComponentId
  video : ι
  limits : RateLimits
deriving DecidableEq

/-- What is shown after the rate has changed. -/
structure RateChange where
  rate : Binary64
  label : String
  icon : PlayIcon
deriving DecidableEq

namespace Transport

variable {ι : Type}

def speedLabel (t : Transport ι) (deck : Deck ι) : String := rateLabel (deck t.video).clip.rate

def toggle (t : Transport ι) (deck : Deck ι) : Plan ι PlayIcon :=
  if (deck t.video).clip.paused then
    ⟨[.play t.video, .report t.id .play t.video], .forPaused false⟩
  else ⟨[.pause t.video, .report t.id .pause t.video], .forPaused true⟩

/-- Sets the rate, starts the video and reports why. -/
def changeRate (t : Transport ι) (action : ActionKind) (rate : Binary64) : Plan ι RateChange where
  commands := [.setRate t.video rate, .play t.video, .report t.id action t.video]
  answer := ⟨rate, rateLabel rate, .pause⟩

def slow (t : Transport ι) (deck : Deck ι) : Plan ι RateChange :=
  t.changeRate .slow (t.limits.slower (deck t.video).clip.rate)

def fast (t : Transport ι) (deck : Deck ι) : Plan ι RateChange :=
  t.changeRate .fast (t.limits.faster (deck t.video).clip.rate)

/-- Rewinds the video and starts it over at the reset rate. -/
def restart (t : Transport ι) : Plan ι RateChange :=
  let change := t.changeRate .restart t.limits.reset
  { change with commands := .seek t.video 0 :: change.commands }

/-- The position, with only the time that has passed beside it. -/
def frame (t : Transport ι) (deck : Deck ι) : Frame :=
  let clip := (deck t.video).clip
  ⟨Percent.ofTime clip.time clip.duration, Clock.label clip.time⟩

/-- Moves the video to a percentage of its duration and answers with the percentage that
was used. -/
def seek (t : Transport ι) (percent : Binary64) (deck : Deck ι) : Plan ι Binary64 :=
  let percent := Percent.clamp percent
  let target := Percent.toTime percent (deck t.video).clip.duration
  { commands := [.seek t.video target, .announce (.seek t.id percent target)]
    answer := percent }

end Transport
end VideoPage
