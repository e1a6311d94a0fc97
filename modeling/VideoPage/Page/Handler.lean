import VideoPage.Behaviour.Comparison
import VideoPage.Behaviour.Timeline
import VideoPage.Behaviour.Transport
import VideoPage.Page.Element

/-! What listeners do. A handler names the elements that it reads and writes; what is not
on the page is left out. -/

namespace VideoPage

/-- A comparison with the parts of the page that show it. -/
structure ComparisonParts where
  comparison : Comparison NodeId
  seek : Option NodeId
  play : Option NodeId
  time : Option NodeId
deriving DecidableEq

/-- A control bar's video with the parts of the bar. -/
structure ControlsParts where
  transport : Transport NodeId
  play : Option NodeId
  speed : Option NodeId
  scrub : Option NodeId
  elapsed : Option NodeId
deriving DecidableEq

/-- The buttons that change the rate. -/
inductive RateButton where
  | slow
  | fast
  | restart
deriving DecidableEq

def RateButton.plan (button : RateButton) (transport : Transport NodeId) (deck : Deck NodeId) :
    Plan NodeId RateChange :=
  match button with
  | slow => transport.slow deck
  | fast => transport.fast deck
  | restart => transport.restart

inductive Handler where
  | comparisonToggle (parts : ComparisonParts)
  | comparisonProgress (parts : ComparisonParts)
  | comparisonSeek (parts : ComparisonParts)
  | comparisonEnd (parts : ComparisonParts)
  | controlsToggle (parts : ControlsParts)
  | controlsRate (parts : ControlsParts) (button : RateButton)
  | controlsProgress (parts : ControlsParts)
  | controlsSeek (parts : ControlsParts)
  /-- A jump to a segment. The play button is looked up in the card at each click, because
  the card's control bar has its own life. -/
  | segmentJump (timeline : Timeline NodeId) (start : Binary64) (card : NodeId)
      (playSelector : String)
  | indicatorProgress (timeline : Timeline NodeId) (indicator : NodeId)
  /-- The pointer's coming or going, for the tooltip that an element shows. -/
  | hover (tip : NodeId) (inside : Bool)
deriving DecidableEq

structure Listener where
  event : String
  handler : Handler
deriving DecidableEq

end VideoPage
