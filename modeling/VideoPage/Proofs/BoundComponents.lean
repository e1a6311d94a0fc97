import VideoPage.Proofs.BindingRecord
import VideoPage.Proofs.HungTooltips
import VideoPage.Proofs.WillingPlayers

/-! The components that a binding brings to life, as a session would have them, and the calls that
the elements of the page stand for: which event on which element asks which component for what. -/

namespace VideoPage.Proofs.BoundComponents
open BindingParts BindingTurns ComponentPlans FoundParts

/-- What is asked of a component. -/
inductive Request where
  | ask (verb : Verb)
  /-- To go to where a slider stands. -/
  | slide (slider : NodeId)
  /-- Only to show where it is. -/
  | look

def Request.verb? (page : Page) : Request → Option Verb
  | ask verb => some verb
  | slide slider => some (.seek (page.element slider).value)
  | look => none

structure Call where
  target : NodeId
  event : String
  id : ComponentId
  request : Request

section Tables

variable (settings : Settings) (turn : Turn)

/-- The component that a turn brings to life, unless the element is skipped. -/
def instance? : Option (Component NodeId) :=
  match turn.id.kind with
  | .comparison => (pair? settings turn).map fun (primary, follower) =>
      .comparison { id := turn.id, primary, follower, rate := settings.comparisonRate }
  | .controls => (cardVideo turn.page settings.selectors turn.element).map fun video =>
      .controls { id := turn.id, video, limits := settings.limits }
  | .phase => (cardVideo turn.page settings.selectors turn.element).map fun video => .phase { id := turn.id, video }
  | .tooltip =>
    some (.tooltip { id := turn.id, text := ((turn.page.element turn.element).attribute? Settings.tooltipAttribute).getD "" })

end Tables

section Listings

variable (id : ComponentId)

def calling (event : String) (request : Request) (target : Option NodeId) : List Call :=
  target.toList.map (⟨·, event, id, request⟩)

/-- A slider asks for the position to which it has been moved. -/
def sliding (slider : Option NodeId) : List Call := slider.toList.map fun node => ⟨node, "input", id, .slide node⟩

/-- A video is watched where a slider or a label shows its time. -/
def watching (slider label : Option NodeId) (video : NodeId) : List Call :=
  if slider = none ∧ label = none then [] else [⟨video, "timeupdate", id, .look⟩]

end Listings

section Tables

variable (settings : Settings) (turn : Turn)

/-- The part of a turn's element that a selector finds. -/
def found? (kind : Element → Bool) (selector : String) : Option NodeId := part turn.page kind turn.element selector

def comparisonCalls (primary : NodeId) : List Call :=
  let selectors := settings.selectors
  let slider := found? turn Element.isInput selectors.comparisonSeek
  calling turn.id "click" (.ask .toggle) (found? turn Element.isHtml selectors.comparisonPlay)
    ++ watching turn.id slider (found? turn Element.isHtml selectors.comparisonTime) primary
    ++ sliding turn.id slider
    ++ [⟨primary, "ended", turn.id, .ask .ended⟩]

def controlsCalls (video : NodeId) : List Call :=
  let selectors := settings.selectors
  let slider := found? turn Element.isInput selectors.controlsScrub
  calling turn.id "click" (.ask .toggle) (found? turn Element.isHtml selectors.controlsPlay)
    ++ calling turn.id "click" (.ask .slow) (found? turn Element.isHtml selectors.controlsSlow)
    ++ calling turn.id "click" (.ask .fast) (found? turn Element.isHtml selectors.controlsFast)
    ++ calling turn.id "click" (.ask .restart) (found? turn Element.isHtml selectors.controlsRestart)
    ++ watching turn.id slider (found? turn Element.isHtml selectors.controlsElapsed) video
    ++ sliding turn.id slider

def phaseCalls (video : NodeId) : List Call :=
  (matching turn.page turn.element settings.selectors.phaseSegment).flatMap (fun segment =>
      (turn.page.segmentStart? segment).toList.map fun start => ⟨segment, "click", turn.id, .ask (.jump start)⟩)
    ++ (found? turn Element.isHtml settings.selectors.phaseIndicator).toList.map
      fun _ => ⟨video, "timeupdate", turn.id, .look⟩

/-- What the parts of a turn's element stand for, in the order in which they are wired. -/
def calls : List Call :=
  match turn.id.kind with
  | .comparison =>
    match pair? settings turn with
    | some (primary, _) => comparisonCalls settings turn primary
    | none => []
  | .controls =>
    match cardVideo turn.page settings.selectors turn.element with
    | some video => controlsCalls settings turn video
    | none => []
  | .phase =>
    match cardVideo turn.page settings.selectors turn.element with
    | some video => phaseCalls settings turn video
    | none => []
  | .tooltip =>
    [⟨turn.element, "mouseenter", turn.id, .ask .enter⟩, ⟨turn.element, "mouseleave", turn.id, .ask .leave⟩]

end Tables

section Handlers

/-- What a handler asks for. -/
def request : Handler → Request
  | .comparisonToggle _ | .controlsToggle _ => .ask .toggle
  | .comparisonEnd _ => .ask .ended
  | .controlsRate _ .slow => .ask .slow
  | .controlsRate _ .fast => .ask .fast
  | .controlsRate _ .restart => .ask .restart
  | .comparisonSeek parts => (parts.seek.map .slide).getD .look
  | .controlsSeek parts => (parts.scrub.map .slide).getD .look
  | .segmentJump _ start _ _ => .ask (.jump start)
  | .hover _ true => .ask .enter
  | .hover _ false => .ask .leave
  | .comparisonProgress _ | .controlsProgress _ | .indicatorProgress .. => .look

/-- The component that a handler asks. A tooltip is kept by the element that shows it. -/
def component? (page : Page) : Handler → Option (Component NodeId)
  | .comparisonToggle parts | .comparisonProgress parts | .comparisonSeek parts | .comparisonEnd parts =>
    some (.comparison parts.comparison)
  | .controlsToggle parts | .controlsRate parts _ | .controlsProgress parts | .controlsSeek parts =>
    some (.controls parts.transport)
  | .segmentJump timeline .. | .indicatorProgress timeline _ => some (.phase timeline)
  | .hover tip _ => (page.tooltip tip).map .tooltip

section Listings

variable (id : ComponentId)

end Listings

variable {settings : Settings} {turn : Turn}

end Handlers

section Serving

variable {target slider label : Option NodeId} {event : String} {handler : Handler} {video : NodeId}
  {holds : NodeId × Listener → Prop}

variable {tip : NodeId}

end Serving

/-- The components that a binding brings to life, in the order of their turns. -/
def components (page : Page) (root : NodeId) (settings : Settings) : List (Component NodeId) :=
  (turns page root settings).filterMap (instance? settings)

/-- Where the component of a name stands among them. -/
def placeOf (page : Page) (root : NodeId) (settings : Settings) (id : ComponentId) : Nat :=
  ((components page root settings).map idOf).idxOf id

section Names

variable {page : Page} {root : NodeId} {settings : Settings} {turn : Turn} {component : Component NodeId}

end Names

section Reports

variable {page : Page} {root : NodeId} {settings : Settings} {turn : Turn}

end Reports

section Players

variable {settings : Settings} {turn : Turn} {page : Page} {node : NodeId}

end Players

section Binding

open BindingSteps HungTooltips PageTree

variable {markup : Markup} {root : NodeId} {settings : Settings} {turn : Turn} {component : Component NodeId}
  (finished : (markup.page.bind root settings).error = none)
include finished

end Binding

section Starting

open BindingSteps PageTree WillingPlayers

variable {settings : Settings} {node : NodeId}

variable {markup : Markup} {root : NodeId} (finished : (markup.page.bind root settings).error = none)
include finished

end Starting

end VideoPage.Proofs.BoundComponents
