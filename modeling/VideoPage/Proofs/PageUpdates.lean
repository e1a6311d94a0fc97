import VideoPage.Page.Visit
import VideoPage.Proofs.WrittenContents

/-! What happens on a page once it is bound, as a row of plain changes. All that handlers do
comes down to five kinds of change, so each aspect of a page needs to be followed through these
alone. -/

namespace VideoPage.Proofs.PageUpdates
open WrittenContents

/-- A plain change. -/
inductive Update where
  | write (node : NodeId) (content : Content)
  | style (node : NodeId) (property value : String)
  | slide (node : NodeId) (value : Binary64)
  | drive (deck : Deck NodeId)
  | hover (tip : NodeId) (inside : Bool)

/-- The page after a change. -/
def updated (page : Page) : Update → Page
  | .write node content => page.write node content
  | .style node property value => page.setStyle node property value
  | .slide node value => page.setValue node value
  | .drive deck => { page with deck }
  | .hover tip inside => (page.hover tip inside).page

section Handlers

def icon (button : Option NodeId) (icon : PlayIcon) : List Update := button.toList.map (.write · (.markup icon.markup))

def text (label : Option NodeId) (text : String) : List Update := label.toList.map (.write · (.text text))

def fill (bar : NodeId) (percent : Binary64) : Update := .style bar Settings.progressProperty (Percent.css percent)

def position (bar : Option NodeId) (percent : Binary64) : List Update :=
  bar.toList.flatMap fun node => [.slide node percent, fill node percent]

/-- The page's players once a plan has been performed. -/
def performed {α : Type} (page : Page) (plan : Plan NodeId α) : Update := .drive (page.deck.perform plan.commands).deck

def slider (page : Page) (bar : Option NodeId) (plan : Binary64 → Plan NodeId Binary64) : List Update :=
  bar.toList.flatMap fun node =>
    let asked := plan (page.element node).value
    [performed page asked, fill node asked.answer]

/-- What a handler changes, in order. -/
def updates (page : Page) : Handler → List Update
  | .comparisonToggle parts =>
    let plan := parts.comparison.toggle page.deck
    performed page plan :: icon parts.play plan.answer
  | .comparisonProgress parts =>
    let frame := parts.comparison.frame page.deck
    position parts.seek frame.percent ++ text parts.time frame.label
  | .comparisonSeek parts => slider page parts.seek (parts.comparison.seek · page.deck)
  | .comparisonEnd parts =>
    let plan := parts.comparison.ended page.deck
    performed page plan :: (icon parts.play plan.answer.icon ++ position parts.seek plan.answer.frame.percent
      ++ text parts.time plan.answer.frame.label)
  | .controlsToggle parts =>
    let plan := parts.transport.toggle page.deck
    performed page plan :: icon parts.play plan.answer
  | .controlsRate parts button =>
    let plan := button.plan parts.transport page.deck
    performed page plan :: (icon parts.play plan.answer.icon ++ text parts.speed plan.answer.label)
  | .controlsProgress parts =>
    let frame := parts.transport.frame page.deck
    position parts.scrub frame.percent ++ text parts.elapsed frame.label
  | .controlsSeek parts => slider page parts.scrub (parts.transport.seek · page.deck)
  | .segmentJump timeline start card selector =>
    let plan := timeline.jump start page.deck
    match page.query Element.isHtml card selector with
    | .ok button => performed page plan :: icon button plan.answer
    | .error _ => [performed page plan]
  | .indicatorProgress timeline indicator =>
    (timeline.indicator? page.deck).toList.map fun percent => .style indicator "left" (Percent.css percent)
  | .hover tip inside => [.hover tip inside]

section Displays

variable (page : Page)

theorem showIcon_eq (button : Option NodeId) (shown : PlayIcon) :
    page.showIcon button shown = (icon button shown).foldl updated page := by
  cases button <;> rfl

theorem showText_eq (label : Option NodeId) (shown : String) :
    page.showText label shown = (text label shown).foldl updated page := by
  cases label <;> rfl

theorem showPosition_eq (bar : Option NodeId) (percent : Binary64) :
    page.showPosition bar percent = (position bar percent).foldl updated page := by
  cases bar <;> rfl

theorem actOnSlider_eq (bar : Option NodeId) (plan : Binary64 → Plan NodeId Binary64) :
    (page.actOnSlider bar plan).page = (slider page bar plan).foldl updated page := by
  cases bar <;> rfl

theorem act_eq {α : Type} (plan : Plan NodeId α) (display : Page → α → Page) :
    (page.act plan display).page = display (updated page (performed page plan)) plan.answer := rfl

end Displays

section Queries

variable (page : Page) (deck : Deck NodeId)

theorem ancestorsWithin_deck (depth : Nat) (node : NodeId) :
    ({ page with deck } : Page).ancestorsWithin depth node = page.ancestorsWithin depth node := by
  induction depth generalizing node with
  | zero => rfl
  | succ depth ih =>
    simp only [Page.ancestorsWithin]
    cases page.parent node with
    | none => rfl
    | some above => exact congrArg (above :: ·) (ih above)

theorem belowWithin_deck (depth : Nat) (node : NodeId) :
    ({ page with deck } : Page).belowWithin depth node = page.belowWithin depth node := by
  induction depth generalizing node with
  | zero => rfl
  | succ depth ih => simp only [Page.belowWithin, ih]

theorem matchesAncestors_deck (selector : List Compound) (above : List NodeId) :
    ({ page with deck } : Page).matchesAncestors selector above = page.matchesAncestors selector above := by
  induction above generalizing selector with
  | nil => cases selector <;> rfl
  | cons node rest ih =>
    cases selector with
    | nil => rfl
    | cons compound outer => simp only [Page.matchesAncestors, ih]

/-- Elements are found by what stands on the page, whatever its players do. -/
theorem query_deck (kind : Element → Bool) (scope : NodeId) (selector : String) :
    ({ page with deck } : Page).query kind scope selector = page.query kind scope selector := by
  have same (compounds : List Compound) :
      ({ page with deck } : Page).matchesSelector compounds = page.matchesSelector compounds := by
    funext node
    simp only [Page.matchesSelector, Page.ancestors, ancestorsWithin_deck, matchesAncestors_deck]
  simp only [Page.query, Page.queryAll, Page.below, belowWithin_deck, same]
  rfl

end Queries

/-- Every handler is a row of plain changes. -/
theorem handle_eq (page : Page) (handler : Handler) : (page.handle handler).page = (updates page handler).foldl updated page := by
  cases handler with
  | segmentJump timeline start card selector =>
    -- The button is looked up once the players have been told what to do.
    simp only [Page.handle, act_eq, Page.showIconIn, updates, performed, updated, query_deck]
    cases page.query Element.isHtml card selector with
    | error error => rfl
    | ok button => exact showIcon_eq _ button _
  | indicatorProgress timeline indicator =>
    simp only [updates, Page.handle]
    cases timeline.indicator? page.deck <;> rfl
  | hover tip inside => rfl
  | _ =>
    simp only [Page.handle, updates, act_eq, actOnSlider_eq, showIcon_eq, showText_eq, showPosition_eq, List.foldl_cons,
      List.foldl_append]

end Handlers

/-- What may happen to a page: an event on an element, or new values for what an element holds. -/
inductive Happening where
  | fire (target : NodeId) (event : String)
  | overwrite (node : NodeId) (change : ElementChange)

def happen (page : Page) : Happening → Page
  | .fire target event => (page.fire target event).page
  | .overwrite node change => page.overwrite node change

/-- What handlers change, each on the page that the one before it has left. -/
def updatesAll (page : Page) : List Handler → List Update
  | [] => []
  | handler :: rest => updates page handler ++ updatesAll (page.handle handler).page rest

def changesOf (page : Page) : Happening → List Update
  | .fire target event => updatesAll page (page.handlers target event)
  | .overwrite node change =>
    let player := (page.deck node).overwrite change.clip
    [.slide node (change.value.getD (page.element node).value),
      .drive (page.deck.set node ((change.blocked.map player.setBlocked).getD player))]

/-- The page after one thing has happened after the other. -/
def passed (page : Page) (happenings : List Happening) : Page := happenings.foldl happen page

/-- All that changes meanwhile. -/
def changes (page : Page) : List Happening → List Update
  | [] => []
  | happening :: rest => changesOf page happening ++ changes (happen page happening) rest

section Runs

variable (page : Page)

theorem handleAll_eq (handlers : List Handler) :
    (page.handleAll handlers).page = (updatesAll page handlers).foldl updated page := by
  induction handlers generalizing page with
  | nil => rfl
  | cons handler rest ih =>
    rw [updatesAll, List.foldl_append, ← handle_eq, ← ih]
    rfl

theorem happen_eq (happening : Happening) : happen page happening = (changesOf page happening).foldl updated page := by
  cases happening with
  | fire target event => exact handleAll_eq page _
  | overwrite node change => rfl

theorem passed_eq (happenings : List Happening) : passed page happenings = (changes page happenings).foldl updated page := by
  induction happenings generalizing page with
  | nil => rfl
  | cons happening rest ih => rw [passed, List.foldl_cons, changes, List.foldl_append, ← happen_eq, ← ih, passed]

end Runs

section Aspects

/-- The contents that a change writes. -/
def written : Update → Writes
  | .write node content => [(node, content)]
  | _ => []

/-- The elements that something is written into meanwhile. -/
def rewritten (page : Page) (happenings : List Happening) : List NodeId :=
  ((changes page happenings).flatMap written).map Prod.fst

variable (page : Page) (update : Update) (node : NodeId)

theorem setStyle_eq (property value : String) : page.setStyle node property value = page ∨
    page.setStyle node property value = page.setElement node ((page.element node).setStyle property value) := by
  rw [Page.setStyle, Page.setStyle?]
  cases page.refuses node "style" with
  | true => exact .inl rfl
  | false => exact .inr rfl

theorem listeners_updated : (updated page update).listeners = page.listeners := by
  cases update with
  | style target property value =>
    rcases setStyle_eq page target property value with same | changed
    · rw [updated, same]
    · rw [updated, changed]
      rfl
  | hover tip inside =>
    rw [updated, Page.hover]
    split <;> rfl
  | _ => rfl

/-- Writing is what takes children away. -/
theorem children_updated : (updated page update).children node =
    if node ∈ (written update).map Prod.fst then [] else page.children node := by
  cases update with
  | write target content =>
    by_cases here : node = target
    · subst here
      simp [updated, Page.write, written]
    · simp [updated, Page.write, written, here]
  | style target property value =>
    rcases setStyle_eq page target property value with same | changed
    · rw [updated, same]
      rfl
    · rw [updated, changed]
      rfl
  | hover tip inside =>
    rw [updated, Page.hover]
    split <;> rfl
  | _ => rfl

theorem content_updated : ((updated page update).element node).content =
    contentAfter node (written update) (page.element node).content := by
  cases update with
  | write target content => exact content_write page node target content
  | style target property value => exact content_setStyle page node target property value
  | slide target value => exact content_setElement page node target rfl
  | drive deck => rfl
  | hover tip inside => exact content_hover page node tip inside

/-- Attributes change at the pointer's coming or going only. -/
theorem attributes_updated (away : ¬ ∃ inside, update = .hover node inside) :
    ((updated page update).element node).attributes = (page.element node).attributes := by
  have kept (target : NodeId) {element : Element} (same : element.attributes = (page.element target).attributes) :
      ((page.setElement target element).element node).attributes = (page.element node).attributes := by
    by_cases here : node = target
    · subst here
      simpa [Page.setElement] using same
    · simp [Page.setElement, here]
  cases update with
  | write target content => exact kept target rfl
  | style target property value =>
    rcases setStyle_eq page target property value with same | changed
    · rw [updated, same]
    · rw [updated, changed]
      exact kept target rfl
  | slide target value => exact kept target rfl
  | drive deck => rfl
  | hover tip inside =>
    have other : node ≠ tip := fun here => away ⟨inside, here ▸ rfl⟩
    rw [updated, Page.hover]
    split
    · rfl
    · simp [Page.setElement, other]

theorem tooltip_updated : ((updated page update).tooltip node).isSome = (page.tooltip node).isSome := by
  cases update with
  | style target property value =>
    rcases setStyle_eq page target property value with same | changed
    · rw [updated, same]
    · rw [updated, changed]
      rfl
  | hover tip inside =>
    rw [updated, Page.hover]
    split
    · rfl
    · next tooltip shows =>
      by_cases here : node = tip
      · subst here
        simp [shows]
      · simp [here]
  | _ => rfl

/-- An element that shows no tooltip. -/
def Plain (page : Page) (node : NodeId) (attributes : List (String × String)) : Prop :=
  page.tooltip node = none ∧ (page.element node).attributes = attributes

theorem plain_updated {attributes : List (String × String)} (plain : Plain page node attributes) :
    Plain (updated page update) node attributes := by
  have still : ((updated page update).tooltip node).isSome = false := by rw [tooltip_updated, plain.1]; rfl
  refine ⟨Option.isNone_iff_eq_none.mp (by simpa using still), ?_⟩
  by_cases pointed : ∃ inside, update = .hover node inside
  · obtain ⟨inside, rfl⟩ := pointed
    simp only [updated, Page.hover, plain.1]
    exact plain.2
  · rw [attributes_updated page update node pointed, plain.2]

/-- The attributes of a tooltip's own element, hidden or shown. -/
def tipAttributes : List (List (String × String)) :=
  [[("class", Settings.tooltipClass)], [("class", Text.unwords [Settings.tooltipClass, Settings.tooltipVisibleClass])]]

def Tipped (page : Page) (node : NodeId) : Prop :=
  (page.tooltip node).isSome ∧ (page.element node).attributes ∈ tipAttributes

theorem tipAttributes_toggled {element : Element} (tip : element.attributes ∈ tipAttributes) (shown : Bool) :
    (element.toggleClass Settings.tooltipVisibleClass shown).attributes ∈ tipAttributes := by
  obtain ⟨tag, attributes, style, content, value⟩ := element
  simp only [tipAttributes, List.mem_cons, List.not_mem_nil, or_false] at tip
  rcases tip with rfl | rfl <;> cases shown <;> simp only [Element.toggleClass, Element.classes, Element.attribute?] <;> decide

theorem tipped_updated (tipped : Tipped page node) : Tipped (updated page update) node := by
  refine ⟨(tooltip_updated page update node).trans tipped.1, ?_⟩
  by_cases pointed : ∃ inside, update = .hover node inside
  · obtain ⟨inside, rfl⟩ := pointed
    obtain ⟨tooltip, shows⟩ := Option.isSome_iff_exists.mp tipped.1
    simp only [updated, Page.hover, shows, Page.setElement, Table.set_same]
    exact tipAttributes_toggled tipped.2 _
  · rw [attributes_updated page update node pointed]
    exact tipped.2

end Aspects

section Changes

variable {page : Page} (updates : List Update) {node : NodeId}

theorem children_foldl : (updates.foldl updated page).children node =
    if node ∈ (updates.flatMap written).map Prod.fst then [] else page.children node := by
  induction updates generalizing page with
  | nil => rfl
  | cons update rest ih =>
    simp only [List.foldl_cons, ih, children_updated, List.flatMap_cons, List.map_append, List.mem_append]
    by_cases early : node ∈ (written update).map Prod.fst
    · simp only [early, true_or, if_true, ite_self]
    · simp only [early, false_or, if_false]

theorem mem_written {content : Content} : (node, content) ∈ updates.flatMap written ↔ .write node content ∈ updates := by
  rw [List.mem_flatMap]
  constructor
  · rintro ⟨update, member, own⟩
    cases update with
    | write target other =>
      cases List.mem_singleton.mp own
      exact member
    | _ => cases own
  · exact fun member => ⟨_, member, List.mem_cons_self⟩

theorem content_foldl : ((updates.foldl updated page).element node).content =
    contentAfter node (updates.flatMap written) (page.element node).content := by
  induction updates generalizing page with
  | nil => rfl
  | cons update rest ih => rw [List.foldl_cons, ih, content_updated, List.flatMap_cons, contentAfter_append]

theorem plain_foldl {attributes : List (String × String)} (plain : Plain page node attributes) :
    Plain (updates.foldl updated page) node attributes := by
  induction updates generalizing page with
  | nil => exact plain
  | cons update rest ih => exact ih (plain_updated page update node plain)

theorem tipped_foldl (tipped : Tipped page node) : Tipped (updates.foldl updated page) node := by
  induction updates generalizing page with
  | nil => exact tipped
  | cons update rest ih => exact ih (tipped_updated page update node tipped)

theorem listeners_foldl : (updates.foldl updated page).listeners = page.listeners := by
  induction updates generalizing page with
  | nil => rfl
  | cons update rest ih => rw [List.foldl_cons, ih, listeners_updated]

end Changes

section Writing

/-- The contents that a handler writes, in order. -/
def writes (page : Page) (handler : Handler) : Writes := (updates page handler).flatMap written

theorem content_handle (page : Page) (handler : Handler) (node : NodeId) :
    ((page.handle handler).page.element node).content = contentAfter node (writes page handler) (page.element node).content := by
  rw [handle_eq, content_foldl, writes]

variable (page : Page)

@[simp] theorem written_performed {α : Type} (plan : Plan NodeId α) : written (performed page plan) = [] := rfl

@[simp] theorem written_icon (button : Option NodeId) (shown : PlayIcon) :
    (icon button shown).flatMap written = button.toList.map (·, .markup shown.markup) := by
  cases button <;> rfl

@[simp] theorem written_text (label : Option NodeId) (shown : String) :
    (text label shown).flatMap written = textOn label shown := by
  cases label <;> rfl

@[simp] theorem written_position (bar : Option NodeId) (percent : Binary64) : (position bar percent).flatMap written = [] := by
  cases bar <;> rfl

end Writing

section Texts

/-- The element that a handler writes a text into. -/
def label : Handler → Option NodeId
  | .comparisonProgress parts | .comparisonEnd parts => parts.time
  | .controlsRate parts _ => parts.speed
  | .controlsProgress parts => parts.elapsed
  | _ => none

variable {page : Page} {node : NodeId} {shown : String}

theorem text_mem {label : Option NodeId} {other : String} (writes : .write node (.text shown) ∈ text label other) :
    label = some node := by
  obtain ⟨target, here, same⟩ := List.mem_map.mp writes
  cases same
  exact Option.mem_toList.mp here

theorem text_not_mem_icon (button : Option NodeId) (other : PlayIcon) : .write node (.text shown) ∉ icon button other := by
  simp [icon]

theorem text_not_mem_position (bar : Option NodeId) (percent : Binary64) :
    .write node (.text shown) ∉ position bar percent := by
  simp [position, fill]

theorem text_not_mem_slider (bar : Option NodeId) (plan : Binary64 → Plan NodeId Binary64) :
    .write node (.text shown) ∉ slider page bar plan := by
  simp [slider, fill, performed]

/-- Everything else that handlers write is an icon. -/
theorem label_of_updates {handler : Handler} (writes : .write node (.text shown) ∈ updates page handler) :
    label handler = some node := by
  cases handler with
  | comparisonToggle parts => simp [updates, performed, text_not_mem_icon] at writes
  | comparisonProgress parts =>
    exact text_mem ((List.mem_append.mp writes).resolve_left (text_not_mem_position _ _))
  | comparisonSeek parts => simp [updates, text_not_mem_slider] at writes
  | comparisonEnd parts =>
    simp only [updates, performed, List.mem_cons, List.mem_append, text_not_mem_icon, text_not_mem_position, false_or,
      reduceCtorEq] at writes
    exact text_mem writes
  | controlsToggle parts => simp [updates, performed, text_not_mem_icon] at writes
  | controlsRate parts button =>
    simp only [updates, performed, List.mem_cons, List.mem_append, text_not_mem_icon, false_or, reduceCtorEq] at writes
    exact text_mem writes
  | controlsProgress parts =>
    exact text_mem ((List.mem_append.mp writes).resolve_left (text_not_mem_position _ _))
  | controlsSeek parts => simp [updates, text_not_mem_slider] at writes
  | segmentJump timeline start card selector =>
    simp only [updates] at writes
    split at writes <;> simp [performed, text_not_mem_icon] at writes
  | indicatorProgress timeline indicator => simp [updates] at writes
  | hover tip inside => simp [updates] at writes

theorem label_of_updatesAll {handlers : List Handler} (writes : .write node (.text shown) ∈ updatesAll page handlers) :
    ∃ handler ∈ handlers, label handler = some node := by
  induction handlers generalizing page with
  | nil => cases writes
  | cons handler rest ih =>
    rcases List.mem_append.mp writes with first | later
    · exact ⟨handler, List.mem_cons_self, label_of_updates first⟩
    · obtain ⟨other, member, own⟩ := ih later
      exact ⟨other, List.mem_cons_of_mem _ member, own⟩

/-- A text is written by a handler that listens somewhere, into its own label. -/
theorem label_of_changes {happenings : List Happening} (writes : .write node (.text shown) ∈ changes page happenings) :
    ∃ target, ∃ listener ∈ page.listeners target, label listener.handler = some node := by
  induction happenings generalizing page with
  | nil => cases writes
  | cons happening rest ih =>
    rcases List.mem_append.mp writes with first | later
    · cases happening with
      | fire target event =>
        obtain ⟨handler, called, own⟩ := label_of_updatesAll first
        obtain ⟨listener, listens, rfl⟩ := List.mem_map.mp called
        exact ⟨target, listener, (List.mem_filter.mp listens).1, own⟩
      | overwrite target change => simp [changesOf] at first
    · have same : (happen page happening).listeners = page.listeners := by rw [happen_eq, listeners_foldl]
      obtain ⟨target, listener, listens, own⟩ := ih later
      exact ⟨target, listener, same ▸ listens, own⟩

end Texts

end VideoPage.Proofs.PageUpdates
