import Mathlib.Data.List.Induction
import VideoPage.Proofs.HoverHandlers

/-! Tooltips and the pointer. A tooltip's element is shown from the pointer's last coming until it
goes, whatever else happens to the page and whoever watches, and each change of a tooltip is put on
record once. -/

namespace VideoPage.Proofs.PointedTooltips
open BindingParts BindingSteps BindingTurns BoundComponents ComponentPlans FoundParts HoverHandlers HungTooltips PageSessions
  PageUpdates WillingPlayers

section Reports

variable {page : Page} {handler : Handler} {id : ComponentId}

theorem sender_of_perform {deck : Deck NodeId} {commands : List (Command NodeId)}
    (signed : ∀ command ∈ commands, Signed id command) : ∀ event ∈ (deck.perform commands).events, sender event = id := by
  induction commands generalizing deck with
  | nil => simp [Deck.perform]
  | cons command rest ih =>
    obtain ⟨own, others⟩ := List.forall_mem_cons.mp signed
    intro event member
    rw [Deck.perform] at member
    split at member
    · cases member
    · rcases List.mem_append.mp member with now | later
      · rw [reported_eq] at now
        exact sender_of_signed (List.forall_mem_singleton.mpr own) event (List.mem_append_left _ now)
      · exact ih others event later

/-- A handler reports under the name of the component that it asks. -/
theorem sender_of_handle (asks : (component? page handler).map idOf = some id) :
    ∀ event ∈ (page.handle handler).events, sender event = id := by
  obtain ⟨component, asked, rfl⟩ := Option.map_eq_some_iff.mp asks
  rw [(handle_answered asked).2]
  apply sender_of_perform
  intro command member
  obtain ⟨verb, -, own⟩ := List.mem_flatMap.mp member
  exact (plan_gives component verb).signed command own

theorem id_handle (other : Handler) :
    (component? (page.handle handler).page other).map idOf = (component? page other).map idOf := by
  cases other with
  | hover tip inside =>
    by_cases own : ∃ before, handler = .hover tip before
    · obtain ⟨before, rfl⟩ := own
      simp only [component?, Page.handle, Page.hover]
      cases shows : page.tooltip tip with
      | none => simp [shows]
      | some tooltip => simp [Tooltip.hover, idOf]
    · simp only [component?, tooltip_handle fun before same => own ⟨before, same⟩]
  | _ => rfl

/-- Every handler finds the component of its name. -/
def Named (entries : List (ComponentId × Handler)) (page : Page) : Prop :=
  ∀ entry ∈ entries, (component? page entry.2).map idOf = some entry.1

variable {entries called : List (ComponentId × Handler)}

theorem Named.handle (named : Named entries page) (handler : Handler) : Named entries (page.handle handler).page := by
  intro entry member
  rw [id_handle]
  exact named entry member

theorem Named.handleAll (named : Named entries page) (handlers : List Handler) : Named entries (page.handleAll handlers).page := by
  induction handlers generalizing page with
  | nil => exact named
  | cons handler rest ih => exact ih (named.handle handler)

theorem Named.senders (named : Named called page) :
    ∀ event ∈ (page.handleAll (called.map Prod.snd)).events, ∃ entry ∈ called, sender event = entry.1 := by
  induction called generalizing page with
  | nil => simp [Page.handleAll]
  | cons first rest ih =>
    obtain ⟨own, others⟩ := List.forall_mem_cons.mp named
    intro event member
    rcases List.mem_append.mp member with now | later
    · exact ⟨first, List.mem_cons_self, sender_of_handle own event now⟩
    · obtain ⟨entry, inside, same⟩ := ih (Named.handle others first.2) event later
      exact ⟨entry, List.mem_cons_of_mem _ inside, same⟩

end Reports

/-- How the element of a tooltip looks. -/
def looks (visible : Bool) : List (String × String) :=
  [("class", Text.unwords (Settings.tooltipClass :: if visible then [Settings.tooltipVisibleClass] else []))]

/-- An element that shows a tooltip, or hides it. -/
structure Follows (page : Page) (tip : NodeId) (id : ComponentId) (visible : Bool) : Prop where
  keeps : ∃ text, page.tooltip tip = some ⟨id, text, visible⟩
  looks : (page.element tip).attributes = looks visible

section Handlers

variable {page : Page} {tip : NodeId} {id : ComponentId} {visible : Bool} {handler : Handler}

theorem attributes_toggled {element : Element} (before : element.attributes = looks visible) (inside : Bool) :
    (element.toggleClass Settings.tooltipVisibleClass inside).attributes = looks inside := by
  obtain ⟨tag, attributes, style, content, value⟩ := element
  dsimp only at before
  subst before
  cases visible <;> cases inside <;> simp only [Element.toggleClass, Element.classes, Element.attribute?] <;> decide

theorem Follows.hover (follows : Follows page tip id visible) (inside : Bool) :
    Follows (page.handle (.hover tip inside)).page tip id inside ∧
      (page.handle (.hover tip inside)).events =
        if visible = inside then [] else [.action id (Tooltip.action inside) 0 0] := by
  obtain ⟨⟨text, keeps⟩, before⟩ := follows
  simp only [Page.handle, Page.hover, keeps, Page.setElement, Tooltip.hoverEvents, and_true]
  refine ⟨⟨text, by simp [Tooltip.hover]⟩, ?_⟩
  simp only [Table.set_same]
  exact attributes_toggled before inside

theorem attributes_elsewhere {row : List Update} (away : ∀ inside, .hover tip inside ∉ row) :
    ((row.foldl updated page).element tip).attributes = (page.element tip).attributes := by
  induction row generalizing page with
  | nil => rfl
  | cons update rest ih =>
    rw [List.foldl_cons, ih fun inside member => away inside (List.mem_cons_of_mem _ member)]
    apply attributes_updated
    rintro ⟨inside, rfl⟩
    exact away inside List.mem_cons_self

theorem Follows.elsewhere (follows : Follows page tip id visible) (away : ∀ inside, handler ≠ .hover tip inside) :
    Follows (page.handle handler).page tip id visible where
  keeps := by
    rw [tooltip_handle away]
    exact follows.keeps
  looks := by
    rw [handle_eq, attributes_elsewhere fun inside member => away inside (hover_of_updates member)]
    exact follows.looks

theorem Follows.overwrite (follows : Follows page tip id visible) (node : NodeId) (change : ElementChange) :
    Follows (page.overwrite node change) tip id visible where
  keeps := follows.keeps
  looks := by
    rw [← follows.looks, Page.overwrite]
    by_cases here : tip = node
    · subst here
      simp [Page.setElement]
    · simp [Page.setElement, here]

end Handlers

section Runs

/-- The events that something causes as it happens. -/
def eventsOf (page : Page) : Happening → List Event
  | .fire target event => (page.fire target event).events
  | .overwrite .. => []

/-- Something that happens, while the recorder is busy or not. -/
abbrev Moment := Happening × Bool

def reached (page : Page) (moments : List Moment) : Page := passed page (moments.map Prod.fst)

/-- What is put on record meanwhile. -/
def recorded (page : Page) : List Moment → List Event
  | [] => []
  | (happening, busy) :: rest => (if busy then [] else eventsOf page happening) ++ recorded (happen page happening) rest

variable {page : Page} {trigger : NodeId} {inside : Bool} {happening : Happening}

end Runs

section Visits

end Visits

section Bound

variable {markup : Markup} {root : NodeId} {settings : Settings} {page : Page} {index : Nat} {trigger : NodeId}
  {visible : Bool} {moments : List Moment}

/-- A page as it may be at some time after its binding. -/
structure Going (markup : Markup) (root : NodeId) (settings : Settings) (page : Page) : Prop where
  listeners : page.listeners = (markup.page.bind root settings).page.listeners
  named : Named (handlersOf (wires markup.page root settings)) page

theorem Going.happen (going : Going markup root settings page) (happening : Happening) :
    Going markup root settings (happen page happening) where
  listeners := by
    rw [happen_eq, listeners_foldl]
    exact going.listeners
  named := by
    cases happening with
    | fire target event => exact going.named.handleAll _
    | overwrite node change =>
      intro entry member
      have own := going.named entry member
      obtain ⟨id, handler⟩ := entry
      cases handler <;> exact own

variable (finished : (markup.page.bind root settings).error = none)
include finished

variable (place : (found markup.page root settings .tooltip)[index]? = some trigger)
include place

end Bound

end VideoPage.Proofs.PointedTooltips
