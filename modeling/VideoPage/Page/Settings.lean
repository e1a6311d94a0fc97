import VideoPage.Playback.Rate

/-! What the page's markup and its behaviours agree on: selectors, attribute and class
names, and the starting rates. -/

namespace VideoPage

/-- Where each behaviour and each of its parts is found. -/
structure Selectors where
  comparison : String := ".video-comparison"
  comparisonPrimary : String := ".comp-video-a video"
  comparisonFollower : String := ".comp-video-b video"
  comparisonSeek : String := ".comp-seek"
  comparisonPlay : String := ".comp-play"
  comparisonTime : String := ".comp-time"
  controls : String := ".video-player-controls"
  videoCard : String := ".timeline-video-card"
  video : String := "video"
  controlsPlay : String := ".vpc-play"
  controlsSlow : String := ".vpc-slow"
  controlsFast : String := ".vpc-fast"
  controlsRestart : String := ".vpc-restart"
  controlsSpeed : String := ".vpc-speed"
  controlsScrub : String := ".vpc-scrub"
  controlsElapsed : String := ".vpc-elapsed"
  phaseBar : String := ".phase-bar"
  phaseSegment : String := ".phase-segment"
  phaseIndicator : String := ".phase-indicator"
  tooltipTrigger : String := "[data-tooltip]"
deriving DecidableEq

structure Settings where
  selectors : Selectors := {}
  limits : RateLimits := {}
  /-- The rate at which both videos of a comparison start. -/
  comparisonRate : Binary64 := 0.5
deriving DecidableEq

namespace Settings

/-- The style property that holds how far a bar is filled. -/
def progressProperty : String := "--progress"

/-- The attribute that holds where a segment starts. -/
def segmentStartAttribute : String := "data-start"

/-- The attribute that holds a tooltip's text. -/
def tooltipAttribute : String := "data-tooltip"

/-- The class of a tooltip's own element. -/
def tooltipClass : String := "metric-tooltip"

/-- The class of a tooltip that is shown. -/
def tooltipVisibleClass : String := "visible"

end Settings
end VideoPage
