import VideoPage.Page.Basic
import VideoPage.Page.Query
import VideoPage.Page.Settings

/-! What an event on a page does. Its handlers run one after the other, each on the page
that the one before it has left. -/

namespace VideoPage

/-- What a handler leaves behind. -/
structure Firing where
  page : Page
  events : List Event := []

namespace Page

def showIcon (page : Page) (button : Option NodeId) (icon : PlayIcon) : Page :=
  match button with
  | some node => page.write node (.markup icon.markup)
  | none => page

def showText (page : Page) (label : Option NodeId) (text : String) : Page :=
  match label with
  | some node => page.write node (.text text)
  | none => page

def showFill (page : Page) (bar : NodeId) (percent : Binary64) : Page :=
  page.setStyle bar Settings.progressProperty (Percent.css percent)

/-- Moves a seek bar's slider and fills the bar up to it. -/
def showPosition (page : Page) (bar : Option NodeId) (percent : Binary64) : Page :=
  match bar with
  | some node => (page.setValue node percent).showFill node percent
  | none => page

/-- Performs a plan on the page's players, and then shows its answer. -/
def act {α : Type} (page : Page) (plan : Plan NodeId α) (display : Page → α → Page) : Firing :=
  let done := page.deck.perform plan.commands
  ⟨display { page with deck := done.deck } plan.answer, done.events⟩

/-- Asks for the position that a seek bar's slider stands at. -/
def actOnSlider (page : Page) (bar : Option NodeId)
    (plan : Binary64 → Plan NodeId Binary64) : Firing :=
  match bar with
  | some node => page.act (plan (page.element node).value) (·.showFill node ·)
  | none => { page }

/-- Shows an icon on the play button that is found in a card, if there is one. -/
def showIconIn (page : Page) (card : NodeId) (selector : String) (icon : PlayIcon) : Page :=
  match page.query Element.isHtml card selector with
  | .ok button => page.showIcon button icon
  | .error _ => page

def showIndicator (page : Page) (indicator : NodeId) (percent? : Option Binary64) : Page :=
  match percent? with
  | some percent => page.setStyle indicator "left" (Percent.css percent)
  | none => page

/-- Tells a tooltip that the pointer has come or gone. -/
def hover (page : Page) (tip : NodeId) (inside : Bool) : Firing :=
  match page.tooltip tip with
  | none => { page }
  | some tooltip =>
    let next := tooltip.hover inside
    let element := (page.element tip).toggleClass Settings.tooltipVisibleClass next.visible
    { page := { page.setElement tip element with
        tooltip := page.tooltip.set tip (some next) }
      events := tooltip.hoverEvents inside }

/-- What a handler does. -/
def handle (page : Page) : Handler → Firing
  | .comparisonToggle parts =>
    page.act (parts.comparison.toggle page.deck) fun page icon => page.showIcon parts.play icon
  | .comparisonProgress parts =>
    let frame := parts.comparison.frame page.deck
    { page := (page.showPosition parts.seek frame.percent).showText parts.time frame.label }
  | .comparisonSeek parts => page.actOnSlider parts.seek (parts.comparison.seek · page.deck)
  | .comparisonEnd parts =>
    page.act (parts.comparison.ended page.deck) fun page rewound =>
      ((page.showIcon parts.play rewound.icon).showPosition parts.seek
        rewound.frame.percent).showText parts.time rewound.frame.label
  | .controlsToggle parts =>
    page.act (parts.transport.toggle page.deck) fun page icon => page.showIcon parts.play icon
  | .controlsRate parts button =>
    page.act (button.plan parts.transport page.deck) fun page change =>
      (page.showIcon parts.play change.icon).showText parts.speed change.label
  | .controlsProgress parts =>
    let frame := parts.transport.frame page.deck
    { page := (page.showPosition parts.scrub frame.percent).showText parts.elapsed frame.label }
  | .controlsSeek parts => page.actOnSlider parts.scrub (parts.transport.seek · page.deck)
  | .segmentJump timeline start card playSelector =>
    page.act (timeline.jump start page.deck) fun page icon =>
      page.showIconIn card playSelector icon
  | .indicatorProgress timeline indicator =>
    { page := page.showIndicator indicator (timeline.indicator? page.deck) }
  | .hover tip inside => page.hover tip inside

def handleAll (page : Page) : List Handler → Firing
  | [] => { page }
  | handler :: rest =>
    let first := page.handle handler
    let remaining := first.page.handleAll rest
    { remaining with events := first.events ++ remaining.events }

/-- The handlers that an event on an element calls, in the order of registration. -/
def handlers (page : Page) (target : NodeId) (event : String) : List Handler :=
  ((page.listeners target).filter (·.event = event)).map (·.handler)

def fire (page : Page) (target : NodeId) (event : String) : Firing :=
  page.handleAll (page.handlers target event)

end Page
end VideoPage
