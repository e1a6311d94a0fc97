import VideoPage.Proofs.BoundComponents
import VideoPage.Proofs.PagePlayers

/-! A bound page as a session. On a page that refuses to start none of its videos, every event does
to the videos, and reports, what a session over fake videos does and reports when each call that the
event makes is put to the component of its name. -/

namespace VideoPage.Proofs.PageSessions
open BindingParts BindingSteps BindingTurns BoundComponents ComponentPlans PagePlayers PageTree PageUpdates WillingPlayers

section Handlers

variable {page : Page} {handler other : Handler} {component : Component NodeId} {verb : Verb}

/-- The commands of a component that gets a request on a page. -/
def answered (page : Page) (component : Component NodeId) (request : Request) : List (Command NodeId) :=
  (request.verb? page).toList.flatMap fun verb => (component.plan verb page.deck).commands

theorem perform_announce (deck : Deck NodeId) (events : List Event) :
    deck.perform (events.map .announce) = ⟨deck, events, true⟩ := by
  induction events with
  | nil => rfl
  | cons event rest ih =>
    rw [List.map_cons, Deck.perform]
    simp only [Deck.after?, ih]
    rfl

/-- A handler does what its component does. -/
theorem handle_answered (asks : component? page handler = some component) :
    (page.handle handler).page.deck = (page.deck.perform (answered page component (request handler))).deck ∧
      (page.handle handler).events = (page.deck.perform (answered page component (request handler))).events := by
  have seek (bar : Option NodeId) (plan : Binary64 → Plan NodeId Binary64) :
      (page.actOnSlider bar plan).events =
        (page.deck.perform (bar.toList.flatMap fun bar => (plan (page.element bar).value).commands)).events := by
    cases bar with
    | none => rfl
    | some bar => simp [Page.actOnSlider, Page.act]
  cases handler with
  | comparisonSeek parts =>
    cases asks
    have slides : (parts.seek.toList.flatMap fun bar => (parts.comparison.seek (page.element bar).value page.deck).commands) =
        answered page (.comparison parts.comparison) (request (.comparisonSeek parts)) := by
      rw [answered, request]
      cases parts.seek <;> rfl
    simp only [Page.handle, deck_actOnSlider, seek, slides, and_self]
  | controlsSeek parts =>
    cases asks
    have slides : (parts.scrub.toList.flatMap fun bar => (parts.transport.seek (page.element bar).value page.deck).commands) =
        answered page (.controls parts.transport) (request (.controlsSeek parts)) := by
      rw [answered, request]
      cases parts.scrub <;> rfl
    simp only [Page.handle, deck_actOnSlider, seek, slides, and_self]
  | hover tip inside =>
    obtain ⟨tooltip, shows, rfl⟩ := Option.map_eq_some_iff.mp asks
    have hovers : answered page (.tooltip tooltip) (request (.hover tip inside)) = (tooltip.hoverEvents inside).map .announce := by
      cases inside <;> simp [answered, request, Request.verb?, Component.plan, Component.tooltipPlan, Component.hoverPlan]
    rw [hovers, perform_announce]
    simp only [Page.handle, Page.hover, shows, Page.setElement, and_self]
  | controlsRate parts button =>
    cases asks
    cases button <;>
      simp [Page.handle, Page.act, answered, request, Request.verb?, Component.plan, Component.controlsPlan,
        Component.answering, RateButton.plan]
  | _ =>
    cases asks
    simp [Page.handle, Page.act, answered, request, Request.verb?, Component.plan, Component.comparisonPlan,
      Component.controlsPlan, Component.phasePlan, Component.answering, Deck.perform]

theorem hover_of_updates {tip : NodeId} {inside : Bool} (hovers : .hover tip inside ∈ updates page handler) :
    handler = .hover tip inside := by
  cases handler with
  | segmentJump timeline start card selector =>
    simp only [updates] at hovers
    split at hovers <;> simp [performed, icon] at hovers
  | hover other pointed => simpa [updates, eq_comm] using hovers
  | _ => simp [updates, performed, icon, text, position, fill, slider] at hovers

/-- A tooltip changes at the pointer's coming or going only. -/
theorem tooltip_handle {tip : NodeId} (away : ∀ inside, handler ≠ .hover tip inside) :
    (page.handle handler).page.tooltip tip = page.tooltip tip := by
  have each : ∀ update ∈ updates page handler, ∀ inside, update ≠ .hover tip inside := by
    rintro update member inside rfl
    exact away inside (hover_of_updates member)
  rw [handle_eq]
  generalize updates page handler = row at each
  induction row generalizing page with
  | nil => rfl
  | cons update rest ih =>
    rw [List.foldl_cons, ih fun other member => each other (List.mem_cons_of_mem _ member)]
    have own := each update List.mem_cons_self
    cases update with
    | style node property value =>
      rcases setStyle_eq page node property value with same | changed
      · rw [updated, same]
      · rw [updated, changed]
        rfl
    | hover here inside =>
      have other : tip ≠ here := fun same => own inside (same ▸ rfl)
      rw [updated, Page.hover]
      split
      · rfl
      · simp [other]
    | _ => rfl

end Handlers

section Mirrors

/-- The steps of a session that a request amounts to. -/
def steps (placeOf : ComponentId → Nat) (page : Page) (id : ComponentId) (request : Request) : List (SessionStep NodeId) :=
  (request.verb? page).toList.map (.ask (placeOf id))

/-- The events that steps send. -/
def sent (session : Session NodeId) (steps : List (SessionStep NodeId)) : List Event :=
  (session.reports steps).flatMap (·.1.events)

variable {among : NodeId → Prop} {placeOf : ComponentId → Nat} {entries : List (ComponentId × Handler)} {page : Page}
  {session : Session NodeId} {id : ComponentId} {handler : Handler}

end Mirrors

section Wires

/-- The listeners that a binding adds, with their elements and components. -/
def wires (page : Page) (root : NodeId) (settings : Settings) : List (ComponentId × NodeId × Listener) :=
  (turns page root settings).flatMap fun turn => (expected settings turn).map (turn.id, ·)

def handlersOf (wires : List (ComponentId × NodeId × Listener)) : List (ComponentId × Handler) :=
  wires.map fun wire => (wire.1, wire.2.2.handler)

/-- Those that an event on an element calls. -/
def called (wires : List (ComponentId × NodeId × Listener)) (target : NodeId) (event : String) :
    List (ComponentId × NodeId × Listener) :=
  wires.filter fun wire => wire.2.1 = target ∧ wire.2.2.event = event

variable {page : Page} {root : NodeId} {settings : Settings} {target : NodeId} {event : String}

end Wires

section Visits

/-- The calls that an event on an element makes, in the order in which they were wired. -/
def callsFrom (calls : List Call) (target : NodeId) (event : String) : List Call :=
  calls.filter fun call => call.target = target ∧ call.event = event

/-- What a session is asked when an event is fired on a page. -/
def asked (placeOf : ComponentId → Nat) (calls : List Call) (page : Page) (path : List Nat) (event : String) :
    List (SessionStep NodeId) :=
  match page.at? path with
  | none => []
  | some target => (callsFrom calls target event).flatMap fun call => steps placeOf page call.id call.request

/-- What a session shows and sends at each of some fired events. -/
def answers (placeOf : ComponentId → Nat) (calls : List Call) (page : Page) (session : Session NodeId) :
    List (List Nat × String) → List (Table NodeId Clip × List Event)
  | [] => []
  | (path, event) :: rest =>
    let asked := asked placeOf calls page path event
    let reached := session.run asked
    let next := (page.visit .recorder (.fire path event false)).page
    (clips reached.deck, sent session asked) :: answers placeOf calls next reached rest

variable {markup : Markup} {root : NodeId} {settings : Settings} {page : Page} {session : Session NodeId} {target : NodeId}
  {event : String}

section Bound

variable (finished : (markup.page.bind root settings).error = none)
include finished

end Bound

end Visits

end VideoPage.Proofs.PageSessions
