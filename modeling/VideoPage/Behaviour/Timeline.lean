import VideoPage.Media.Deck
import VideoPage.Playback.Percent
import VideoPage.Playback.PlayIcon

/-! A timeline of phases over one video: segments to jump to and an indicator of the
position. -/

namespace VideoPage

structure Timeline (ι : Type) where
  id : ComponentId
  video : ι
deriving DecidableEq

namespace Timeline

variable {ι : Type}

/-- Jumps to a segment and plays from there. The report holds the time that was asked
for. -/
def jump (t : Timeline ι) (start : Binary64) (deck : Deck ι) : Plan ι PlayIcon :=
  let clip := (deck t.video).clip
  let target := Percent.toSegmentTime start clip.duration
  { commands := [.seek t.video target, .play t.video,
      .announce (.action t.id .segmentJump target clip.rate)]
    answer := .pause }

/-- Where the indicator stands. It waits until the duration is known. -/
def indicator? (t : Timeline ι) (deck : Deck ι) : Option Binary64 :=
  let clip := (deck t.video).clip
  if Percent.isKnownDuration clip.duration then some (Percent.ofTime clip.time clip.duration)
  else none

end Timeline
end VideoPage
