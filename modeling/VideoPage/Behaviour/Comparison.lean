import VideoPage.Behaviour.Frame
import VideoPage.Media.Deck
import VideoPage.Playback.Clock
import VideoPage.Playback.PlayIcon

/-! Two videos under one play button and one seek bar. The primary decides what is shown,
and whatever is done to it is done to the follower too. -/

namespace VideoPage

structure Comparison (ι : Type) where
  id : ComponentId
  primary : ι
  follower : ι
  /-- The rate at which both videos start. -/
  rate : Binary64
deriving DecidableEq

/-- What is shown once the primary has ended. -/
structure Rewound where
  icon : PlayIcon
  frame : Frame
deriving DecidableEq

namespace Comparison

variable {ι : Type}

def start (c : Comparison ι) : List (Command ι) :=
  [.setRate c.primary c.rate, .setRate c.follower c.rate]

/-- Whether the pair is playing is what the primary says about itself. -/
def isPlaying (c : Comparison ι) (deck : Deck ι) : Bool := !(deck c.primary).clip.paused

def play (c : Comparison ι) : Plan ι PlayIcon where
  commands := [.play c.primary, .play c.follower, .report c.id .play c.primary]
  answer := .pause

def pause (c : Comparison ι) : Plan ι PlayIcon where
  commands := [.pause c.primary, .pause c.follower, .report c.id .pause c.primary]
  answer := .play

def toggle (c : Comparison ι) (deck : Deck ι) : Plan ι PlayIcon :=
  if c.isPlaying deck then c.pause else c.play

/-- The primary's position, with its duration beside it. -/
def frame (c : Comparison ι) (deck : Deck ι) : Frame :=
  let clip := (deck c.primary).clip
  ⟨Percent.ofTime clip.time clip.duration, Clock.pairLabel clip.time clip.duration⟩

/-- Moves both videos to a percentage of the primary's duration and answers with the
percentage that was used. -/
def seek (c : Comparison ι) (percent : Binary64) (deck : Deck ι) : Plan ι Binary64 :=
  let percent := Percent.clamp percent
  let target := Percent.toTime percent (deck c.primary).clip.duration
  { commands := [.seek c.primary target, .seek c.follower target,
      .announce (.seek c.id percent target)]
    answer := percent }

/-- Pauses and rewinds both videos after the primary has ended. -/
def ended (c : Comparison ι) (deck : Deck ι) : Plan ι Rewound where
  commands := c.pause.commands ++
    [.seek c.primary 0, .seek c.follower 0, .report c.id .ended c.primary]
  answer := ⟨c.pause.answer, ⟨0, Clock.pairLabel 0 (deck c.primary).clip.duration⟩⟩

end Comparison
end VideoPage
