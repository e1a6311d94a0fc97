import VideoPage.Binary64.Basic

/-! What behaviours report as they are bound and used. -/

namespace VideoPage

/-- The behaviours that a page can have. -/
inductive ComponentKind where
  /-- Two videos played in lockstep. -/
  | comparison
  /-- A control bar for one video. -/
  | controls
  /-- A timeline of segments to jump to. -/
  | phase
  | tooltip
deriving DecidableEq

def ComponentKind.name : ComponentKind → String
  | comparison => "comparison"
  | controls => "controls"
  | phase => "phase"
  | tooltip => "tooltip"

/-- One behaviour of a page. Its index counts the elements of its kind in document order,
whether or not they could be bound. -/
structure ComponentId where
  kind : ComponentKind
  index : Nat
deriving DecidableEq

/-- Why a behaviour, or one segment of a timeline, is left alone. -/
inductive SkipReason where
  | missingVideo
  /-- A comparison has only one of its videos. -/
  | missingFollower
  /-- A bar has neither a card nor a parent around it. -/
  | missingContainer
  /-- A segment does not say where it starts. -/
  | invalidSegmentStart
deriving DecidableEq

def SkipReason.name : SkipReason → String
  | missingVideo => "missing-video"
  | missingFollower => "missing-follower"
  | missingContainer => "missing-container"
  | invalidSegmentStart => "invalid-segment-start"

/-- What a visitor did. -/
inductive ActionKind where
  | play
  | pause
  | slow
  | fast
  | restart
  | ended
  | segmentJump
  | showTooltip
  | hideTooltip
deriving DecidableEq

def ActionKind.name : ActionKind → String
  | play => "play"
  | pause => "pause"
  | slow => "slow"
  | fast => "fast"
  | restart => "restart"
  | ended => "ended"
  | segmentJump => "segment-jump"
  | showTooltip => "show-tooltip"
  | hideTooltip => "hide-tooltip"

inductive Event where
  | bound (component : ComponentId)
  | skipped (component : ComponentId) (reason : SkipReason)
  /-- An action, with the position and the rate that it left the video at. -/
  | action (component : ComponentId) (action : ActionKind) (time rate : Binary64)
  /-- A seek, with the percentage that was asked for and the time that it stands for. -/
  | seek (component : ComponentId) (percent target : Binary64)
deriving DecidableEq

end VideoPage
