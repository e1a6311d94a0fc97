import VideoPage.Page.Firing

/-! Binding behaviours to a page. What an element needs is looked up first and gives a list
of steps; the steps are then carried out one by one, and the first that fails ends the
binding. What was done before it stays. -/

namespace VideoPage

/-- One thing that binding does to a page. -/
inductive BindingStep where
  | listen (target : NodeId) (event : String) (handler : Handler)
  | drive (commands : List (Command NodeId))
  | report (event : Event)
  | label (target : NodeId) (text : String)
  | style (target : NodeId) (property value : String)
  /-- Adds a tooltip's own element to its trigger. -/
  | attach (trigger : NodeId) (tooltip : Tooltip)
  | stop (error : PageError)
deriving DecidableEq

/-- What was found out about an element that may be bound. -/
inductive Wiring where
  | skipped (reason : SkipReason)
  | bound (steps : List BindingStep)
deriving DecidableEq

/-- How many behaviours of a kind were bound and how many were left alone. -/
structure Tally where
  bound : Nat := 0
  skipped : Nat := 0
deriving DecidableEq

structure BindReport where
  comparisons : Tally := {}
  controls : Tally := {}
  phaseBars : Tally := {}
  tooltips : Tally := {}
deriving DecidableEq

namespace BindReport

def totalBound (report : BindReport) : Nat :=
  report.comparisons.bound + report.controls.bound + report.phaseBars.bound + report.tooltips.bound

def totalSkipped (report : BindReport) : Nat :=
  report.comparisons.skipped + report.controls.skipped + report.phaseBars.skipped
    + report.tooltips.skipped

/-- Changes the tally of a kind. -/
def update (report : BindReport) (kind : ComponentKind) (change : Tally → Tally) : BindReport :=
  match kind with
  | .comparison => { report with comparisons := change report.comparisons }
  | .controls => { report with controls := change report.controls }
  | .phase => { report with phaseBars := change report.phaseBars }
  | .tooltip => { report with tooltips := change report.tooltips }

end BindReport

namespace Page

/-- A listener on an element, if the element is there. -/
def listenAt (target : Option NodeId) (event : String) (handler : Handler) : List BindingStep :=
  target.toList.map (.listen · event handler)

/-- A listener that is only needed when one of two elements shows what it finds. -/
def listenFor (shown : Option NodeId) (orShown : Option NodeId) (target : NodeId)
    (handler : Handler) : List BindingStep :=
  if shown.isSome || orShown.isSome then [.listen target "timeupdate" handler] else []

def comparisonSteps (parts : ComparisonParts) : List BindingStep :=
  [.drive parts.comparison.start]
    ++ listenAt parts.play "click" (.comparisonToggle parts)
    ++ listenFor parts.seek parts.time parts.comparison.primary (.comparisonProgress parts)
    ++ listenAt parts.seek "input" (.comparisonSeek parts)
    ++ [.listen parts.comparison.primary "ended" (.comparisonEnd parts)]

def comparisonWiring (page : Page) (settings : Settings) (id : ComponentId) (element : NodeId) :
    Except PageError Wiring := do
  let selectors := settings.selectors
  let some primary ← page.query Element.isVideo element selectors.comparisonPrimary
    | return .skipped .missingVideo
  let some follower ← page.query Element.isVideo element selectors.comparisonFollower
    | return .skipped .missingFollower
  let seek ← page.query Element.isInput element selectors.comparisonSeek
  let play ← page.query Element.isHtml element selectors.comparisonPlay
  let time ← page.query Element.isHtml element selectors.comparisonTime
  let comparison := { id, primary, follower, rate := settings.comparisonRate }
  return .bound (comparisonSteps { comparison, seek, play, time })

/-- The listener of a button that changes the rate, or the reason why the button cannot
even be looked for. -/
def rateSteps (page : Page) (bar : NodeId) (parts : ControlsParts) (selector : String)
    (button : RateButton) : List BindingStep :=
  match page.query Element.isHtml bar selector with
  | .ok found => listenAt found "click" (.controlsRate parts button)
  | .error error => [.stop error]

def controlsSteps (page : Page) (selectors : Selectors) (bar : NodeId) (parts : ControlsParts) :
    List BindingStep :=
  listenAt parts.play "click" (.controlsToggle parts)
    ++ page.rateSteps bar parts selectors.controlsSlow .slow
    ++ page.rateSteps bar parts selectors.controlsFast .fast
    ++ page.rateSteps bar parts selectors.controlsRestart .restart
    ++ listenFor parts.scrub parts.elapsed parts.transport.video (.controlsProgress parts)
    ++ listenAt parts.scrub "input" (.controlsSeek parts)
    ++ parts.speed.toList.map (.label · (parts.transport.speedLabel page.deck))

def controlsWiring (page : Page) (settings : Settings) (id : ComponentId) (bar : NodeId) :
    Except PageError Wiring := do
  let selectors := settings.selectors
  let some card ← page.card bar selectors.videoCard | return .skipped .missingContainer
  let some video ← page.query Element.isVideo card selectors.video
    | return .skipped .missingVideo
  let play ← page.query Element.isHtml bar selectors.controlsPlay
  let speed ← page.query Element.isHtml bar selectors.controlsSpeed
  let scrub ← page.query Element.isInput bar selectors.controlsScrub
  let elapsed ← page.query Element.isHtml bar selectors.controlsElapsed
  let transport := { id, video, limits := settings.limits }
  return .bound (page.controlsSteps selectors bar { transport, play, speed, scrub, elapsed })

/-- Where a segment of a timeline starts, if it says so. -/
def segmentStart? (page : Page) (segment : NodeId) : Option Binary64 :=
  ((page.element segment).attribute? Settings.segmentStartAttribute).bind Percent.read?

def segmentStep (page : Page) (selectors : Selectors) (timeline : Timeline NodeId)
    (card segment : NodeId) : BindingStep :=
  match page.segmentStart? segment with
  | some start =>
    .listen segment "click" (.segmentJump timeline start card selectors.controlsPlay)
  | none => .report (.skipped timeline.id .invalidSegmentStart)

def indicatorSteps (page : Page) (selectors : Selectors) (timeline : Timeline NodeId)
    (bar : NodeId) : List BindingStep :=
  match page.query Element.isHtml bar selectors.phaseIndicator with
  | .ok (some indicator) =>
    [.listen timeline.video "timeupdate" (.indicatorProgress timeline indicator)]
  | .ok none => []
  | .error error => [.stop error]

def phaseWiring (page : Page) (settings : Settings) (id : ComponentId) (bar : NodeId) :
    Except PageError Wiring := do
  let selectors := settings.selectors
  let some card ← page.card bar selectors.videoCard | return .skipped .missingContainer
  let some video ← page.query Element.isVideo card selectors.video
    | return .skipped .missingVideo
  let segments ← page.queryAll bar selectors.phaseSegment
  let timeline := { id, video }
  return .bound (segments.map (page.segmentStep selectors timeline card)
    ++ page.indicatorSteps selectors timeline bar)

/-- The element that shows a tooltip. -/
def tipElement (tooltip : Tooltip) : Element where
  tag := "div"
  attributes := [("class", Settings.tooltipClass)]
  content := some (.text tooltip.text)

def tooltipWiring (page : Page) (id : ComponentId) (trigger : NodeId) :
    Except PageError Wiring := do
  if page.refuses trigger "document" then throw .noOwnerDocument
  let text := ((page.element trigger).attribute? Settings.tooltipAttribute).getD ""
  let tip := page.count
  let positioned : List BindingStep :=
    if (page.element trigger).isHtml then [.style trigger "position" "relative"] else []
  return .bound (positioned ++ [
    .attach trigger { id, text },
    .listen trigger "mouseenter" (.hover tip true),
    .listen trigger "mouseleave" (.hover tip false)])

def wiring (page : Page) (settings : Settings) (id : ComponentId) (element : NodeId) :
    Except PageError Wiring :=
  match id.kind with
  | .comparison => page.comparisonWiring settings id element
  | .controls => page.controlsWiring settings id element
  | .phase => page.phaseWiring settings id element
  | .tooltip => page.tooltipWiring id element

/-- The page after a step of binding. -/
def after? (page : Page) : BindingStep → Except PageError Page
  | .listen target event handler => page.addListener? target ⟨event, handler⟩
  | .drive commands => .ok { page with deck := (page.deck.perform commands).deck }
  | .report _ => .ok page
  | .label target text => .ok (page.write target (.text text))
  | .style target property value => page.setStyle? target property value
  | .attach trigger tooltip =>
    if page.refuses trigger "append" then .error .appendFailed
    else .ok { page.insert (some trigger) (tipElement tooltip) ⟨.embedded false, {}⟩ with
      tooltip := page.tooltip.set page.count (some tooltip) }
  | .stop error => .error error

end Page

def BindingStep.events : BindingStep → List Event
  | report event => [event]
  | _ => []

/-- How far binding has come. -/
structure Binding where
  page : Page
  events : List Event := []
  report : BindReport := {}
  /-- Why it could not go on. -/
  error : Option PageError := none

namespace Binding

/-- Takes one step, unless an earlier one has failed. -/
def take (binding : Binding) (step : BindingStep) : Binding :=
  if binding.error.isSome then binding
  else match binding.page.after? step with
    | .ok page => { binding with page, events := binding.events ++ step.events }
    | .error error => { binding with error }

/-- Puts a finished element on record. -/
def record (binding : Binding) (id : ComponentId) (reason : Option SkipReason) : Binding :=
  if binding.error.isSome then binding
  else match reason with
    | none => { binding with
        events := binding.events ++ [.bound id]
        report := binding.report.update id.kind fun t => { t with bound := t.bound + 1 } }
    | some reason => { binding with
        events := binding.events ++ [.skipped id reason]
        report := binding.report.update id.kind fun t => { t with skipped := t.skipped + 1 } }

/-- Binds one element. -/
def bindElement (settings : Settings) (kind : ComponentKind) (binding : Binding)
    (place : NodeId × Nat) : Binding :=
  if binding.error.isSome then binding
  else
    let id : ComponentId := ⟨kind, place.2⟩
    match binding.page.wiring settings id place.1 with
    | .error error => { binding with error }
    | .ok (.skipped reason) => binding.record id (some reason)
    | .ok (.bound steps) => (steps.foldl take binding).record id none

end Binding

/-- The selector that finds the elements of a kind. -/
def Selectors.ofKind (selectors : Selectors) : ComponentKind → String
  | .comparison => selectors.comparison
  | .controls => selectors.controls
  | .phase => selectors.phaseBar
  | .tooltip => selectors.tooltipTrigger

/-- Binds the elements of one kind, in document order. -/
def Binding.bindKind (settings : Settings) (root : NodeId) (binding : Binding)
    (kind : ComponentKind) : Binding :=
  if binding.error.isSome then binding
  else match binding.page.queryAll root (settings.selectors.ofKind kind) with
    | .error error => { binding with error }
    | .ok elements => elements.zipIdx.foldl (Binding.bindElement settings kind) binding

namespace Page

/-- The kinds in the order in which they are bound. -/
def bindingOrder : List ComponentKind := [.comparison, .controls, .phase, .tooltip]

/-- Binds every behaviour below an element. -/
def bind (page : Page) (root : NodeId) (settings : Settings) : Binding :=
  bindingOrder.foldl (Binding.bindKind settings root) { page }

end Page
end VideoPage
