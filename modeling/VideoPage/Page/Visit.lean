import VideoPage.Page.Binding
import VideoPage.Page.Snapshot
import VideoPage.Trace.Line

/-! A visit to a page: the ways to bind it, what a visitor does to it, and who gets to see
the events. -/

namespace VideoPage

/-- Who sees the events of a page. -/
inductive Watcher where
  | nobody
  | recorder
  /-- A browser's console, with the name that its lines start with. -/
  | console (name : String)
deriving DecidableEq

/-- What a watcher has seen. -/
structure Sighting where
  events : List Event := []
  console : List ConsoleLine := []
deriving DecidableEq

def Watcher.see (watcher : Watcher) (events : List Event) : Sighting :=
  match watcher with
  | nobody => {}
  | recorder => { events }
  | console name => { console := events.map (Event.consoleLine name) }

/-- The name that console lines start with when none is given. -/
def Watcher.defaultName : String := "[cuebar]"

namespace Page

/-- Binds a page below the root of its document, if there is a document. -/
def bindDocument (page : Page) (root : Option NodeId) : Binding :=
  match root with
  | some root => page.bind root {}
  | none => { page, error := some .nothingToBind }

/-- The name that the page's own script logs under. -/
def scriptName : String := "[web_page]"

/-- What the page's own script does when the page has loaded: it binds everything and
logs how much there was. -/
def load (page : Page) (root : Option NodeId) : Binding × Sighting :=
  match root with
  | none => ({ page, error := some .noDocument }, {})
  | some root =>
    let binding := page.bind root {}
    let seen := (Watcher.console scriptName).see binding.events
    let bound := toString binding.report.totalBound
    let skipped := toString binding.report.totalSkipped
    let summary := scriptName ++ " bound " ++ bound ++ " component(s), skipped " ++ skipped
    let closing : List ConsoleLine := if binding.error.isSome then [] else [⟨.log, summary⟩]
    (binding, { seen with console := seen.console ++ closing })

end Page

/-- New values for some of what an element holds. -/
structure ElementChange where
  value : Option Binary64 := none
  clip : ClipChange := {}
  blocked : Option Bool := none
deriving DecidableEq

namespace Page

/-- Overwrites what an element holds. -/
def overwrite (page : Page) (node : NodeId) (change : ElementChange) : Page :=
  let element := page.element node
  let player := (page.deck node).overwrite change.clip
  { page.setElement node { element with value := change.value.getD element.value } with
    deck := page.deck.set node ((change.blocked.map player.setBlocked).getD player) }

end Page

inductive VisitStep where
  /-- Fires an event. When the watcher is busy, the events that it causes are lost. -/
  | fire (path : List Nat) (event : String) (busy : Bool)
  | overwrite (path : List Nat) (change : ElementChange)
deriving DecidableEq

/-- What a step of a visit leaves behind. -/
structure Visited where
  page : Page
  /-- How many handlers have run. -/
  handled : Option Nat := none
  seen : Sighting := {}

namespace Page

/-- Takes one step. A path that leads nowhere changes nothing. -/
def visit (page : Page) (watcher : Watcher) : VisitStep → Visited
  | .fire path event busy =>
    match page.at? path with
    | none => { page }
    | some target =>
      let firing := page.fire target event
      { page := firing.page
        handled := some (page.handlers target event).length
        seen := watcher.see (if busy then [] else firing.events) }
  | .overwrite path change =>
    match page.at? path with
    | none => { page }
    | some target => { page := page.overwrite target change }

/-- What each step of a visit leaves behind. -/
def visitAll (page : Page) (watcher : Watcher) : List VisitStep → List Visited
  | [] => []
  | step :: rest =>
    let visited := page.visit watcher step
    visited :: visited.page.visitAll watcher rest

end Page
end VideoPage
