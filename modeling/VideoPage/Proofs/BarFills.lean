import VideoPage.Page.Markup
import VideoPage.Proofs.PageUpdates
import VideoPage.Proofs.PercentRange

/-! How far a seek bar is filled. The fill is written into the bar's style and the slider has a
value of its own, which anyone may set to anything. Each handler that writes the fill leaves the bar
filled up to its slider, and the others leave both alone. -/

namespace VideoPage.Proofs.BarFills
open PageUpdates PercentRange

/-- A slider's value and the fill beside it. -/
structure Bar where
  value : Binary64
  fill : Option String

def barAt (page : Page) (node : NodeId) : Bar where
  value := (page.element node).value
  fill := (page.element node).style.lookup Settings.progressProperty

def Bar.filled (value : Binary64) : Bar := ⟨value, some (Percent.css value)⟩

/-- A bar that is filled up to its slider. -/
def Bar.Level (bar : Bar) : Prop := bar.fill = some (Percent.css bar.value)

section Changes

/-- What a change makes of a bar that lets itself be styled. -/
def Bar.after (node : NodeId) (bar : Bar) : Update → Bar
  | .slide target value => if target = node then { bar with value } else bar
  | .style target property text =>
    if target = node ∧ property = Settings.progressProperty then { bar with fill := some text } else bar
  | _ => bar

theorem lookup_assign (name value other : String) (entries : List (String × String)) :
    (assign name value entries).lookup other = if other = name then some value else entries.lookup other := by
  induction entries with
  | nil =>
    by_cases same : other = name
    · simp [assign, same]
    · simp [assign, same, beq_false_of_ne same]
  | cons entry rest ih =>
    obtain ⟨first, old⟩ := entry
    by_cases here : first = name
    · subst here
      by_cases same : other = first
      · simp [assign, same]
      · simp [assign, List.lookup_cons, beq_false_of_ne same, same]
    · by_cases same : other = first
      · simp [assign, here, same]
      · simp [assign, here, List.lookup_cons, beq_false_of_ne same, ih]

variable {page : Page} {node : NodeId} (update : Update)

theorem bar_setElement (target : NodeId) {element : Element} (value : element.value = (page.element target).value)
    (style : element.style = (page.element target).style) : barAt (page.setElement target element) node = barAt page node := by
  by_cases here : node = target
  · subst here
    simp [barAt, Page.setElement, value, style]
  · simp [barAt, Page.setElement, here]

/-- An element that lets itself be styled goes on doing so. -/
theorem refuses_updated : (updated page update).refuses node "style" = page.refuses node "style" := by
  by_cases pointed : ∃ inside, update = .hover node inside
  · obtain ⟨inside, rfl⟩ := pointed
    rw [updated, Page.hover]
    split
    · rfl
    · simp only [Page.refuses, Page.setElement, Table.set_same, Element.hasAttribute, Element.attribute?, Element.toggleClass]
      rw [lookup_assign, if_neg (by decide)]
  · simp only [Page.refuses, Element.hasAttribute, Element.attribute?, attributes_updated page update node pointed]

theorem bar_updated (accepts : page.refuses node "style" = false) :
    barAt (updated page update) node = (barAt page node).after node update := by
  cases update with
  | write target content => exact bar_setElement target rfl rfl
  | style target property text =>
    by_cases here : target = node
    · subst here
      simp only [updated, Page.setStyle, Page.setStyle?, accepts, Bar.after, true_and, barAt, Page.setElement,
        Table.set_same, Element.setStyle, Bool.false_eq_true, if_false, lookup_assign]
      by_cases progress : property = Settings.progressProperty
      · rw [if_pos progress.symm, if_pos progress]
      · rw [if_neg (Ne.symm progress), if_neg progress]
    · rw [Bar.after, if_neg fun both => here both.1]
      rcases setStyle_eq page target property text with same | changed
      · rw [updated, same]
      · rw [updated, changed]
        simp [barAt, Page.setElement, Ne.symm here]
  | slide target value =>
    by_cases here : target = node
    · subst here
      simp [barAt, updated, Page.setValue, Page.setElement, Bar.after]
    · simp [barAt, updated, Page.setValue, Page.setElement, Bar.after, here, Ne.symm here]
  | drive deck => rfl
  | hover tip inside =>
    rw [updated, Page.hover]
    split
    · rfl
    · exact bar_setElement tip rfl rfl

theorem refuses_foldl (updates : List Update) :
    (updates.foldl updated page).refuses node "style" = page.refuses node "style" := by
  induction updates generalizing page with
  | nil => rfl
  | cons update rest ih => rw [List.foldl_cons, ih, refuses_updated]

theorem bar_foldl (accepts : page.refuses node "style" = false) (updates : List Update) :
    barAt (updates.foldl updated page) node = updates.foldl (Bar.after node) (barAt page node) := by
  induction updates generalizing page with
  | nil => rfl
  | cons update rest ih =>
    rw [List.foldl_cons, List.foldl_cons, ← bar_updated update accepts]
    exact ih ((refuses_updated update).trans accepts)

end Changes

section Handlers

/-- The seek bar that a handler fills. -/
def seekBar : Handler → Option NodeId
  | .comparisonProgress parts | .comparisonSeek parts | .comparisonEnd parts => parts.seek
  | .controlsProgress parts | .controlsSeek parts => parts.scrub
  | _ => none

/-- The bar whose fill a change writes. -/
def fill? : Update → Option NodeId
  | .style node property _ => if property = Settings.progressProperty then some node else none
  | _ => none

variable (page : Page) (node : NodeId) (bar : Bar)

theorem after_performed {α : Type} (plan : Plan NodeId α) : bar.after node (performed page plan) = bar := rfl

theorem after_icon (button : Option NodeId) (shown : PlayIcon) : (icon button shown).foldl (Bar.after node) bar = bar := by
  cases button <;> rfl

theorem after_text (label : Option NodeId) (shown : String) : (text label shown).foldl (Bar.after node) bar = bar := by
  cases label <;> rfl

theorem after_position (target : Option NodeId) (percent : Binary64) :
    (position target percent).foldl (Bar.after node) bar = if target = some node then .filled percent else bar := by
  cases target with
  | none => rfl
  | some other =>
    by_cases here : other = node
    · simp [position, fill, Bar.after, Bar.filled, here]
    · simp [position, fill, Bar.after, here]

/-- A slider's handler leaves the value as it stands and fills the bar up to what that is in range. -/
theorem after_slider (target : Option NodeId) {plan : Binary64 → Plan NodeId Binary64}
    (clamps : ∀ value, (plan value).answer = Percent.clamp value) :
    (slider page target plan).foldl (Bar.after node) (barAt page node) =
      if target = some node then .filled (page.element node).value else barAt page node := by
  have shown (percent : Binary64) : Percent.css (Percent.clamp percent) = Percent.css percent := by
    rw [Percent.css, clamp_clamp]
    rfl
  cases target with
  | none => rfl
  | some other =>
    by_cases here : other = node
    · subst here
      simp [slider, performed, fill, Bar.after, Bar.filled, clamps, shown, barAt]
    · simp [slider, performed, fill, Bar.after, here]

/-- A handler that fills a bar leaves it filled up to its slider, and any other leaves it alone. -/
theorem bar_updates (handler : Handler) :
    ∃ value, (updates page handler).foldl (Bar.after node) (barAt page node) =
      if seekBar handler = some node then .filled value else barAt page node := by
  cases handler with
  | comparisonProgress parts =>
    simp only [updates, List.foldl_append, after_position, after_text]
    exact ⟨_, rfl⟩
  | comparisonSeek parts =>
    have clamps (value : Binary64) : (parts.comparison.seek value page.deck).answer = Percent.clamp value := rfl
    exact ⟨_, after_slider page node parts.seek clamps⟩
  | comparisonEnd parts =>
    simp only [updates, List.foldl_cons, List.foldl_append, after_performed, after_icon, after_position, after_text]
    exact ⟨_, rfl⟩
  | controlsProgress parts =>
    simp only [updates, List.foldl_append, after_position, after_text]
    exact ⟨_, rfl⟩
  | controlsSeek parts =>
    have clamps (value : Binary64) : (parts.transport.seek value page.deck).answer = Percent.clamp value := rfl
    exact ⟨_, after_slider page node parts.scrub clamps⟩
  | comparisonToggle parts | controlsToggle parts =>
    simp only [updates, List.foldl_cons, after_performed, after_icon]
    exact ⟨0, rfl⟩
  | controlsRate parts button =>
    simp only [updates, List.foldl_cons, List.foldl_append, after_performed, after_icon, after_text]
    exact ⟨0, rfl⟩
  | segmentJump timeline start card selector =>
    refine ⟨0, ?_⟩
    simp only [updates]
    split <;> simp only [List.foldl_cons, List.foldl_nil, after_performed, after_icon] <;> rfl
  | indicatorProgress timeline indicator =>
    refine ⟨0, ?_⟩
    simp only [updates]
    cases timeline.indicator? page.deck with
    | none => rfl
    | some percent =>
      have other : ¬ (indicator = node ∧ "left" = Settings.progressProperty) := fun both => absurd both.2 (by decide)
      exact if_neg other
  | hover tip inside => exact ⟨0, rfl⟩

theorem fills_icon (button : Option NodeId) (shown : PlayIcon) : (icon button shown).filterMap fill? = [] := by
  cases button <;> rfl

theorem fills_text (label : Option NodeId) (shown : String) : (text label shown).filterMap fill? = [] := by
  cases label <;> rfl

theorem fills_position (target : Option NodeId) (percent : Binary64) :
    (position target percent).filterMap fill? = target.toList := by
  cases target <;> rfl

theorem fills_slider (target : Option NodeId) (plan : Binary64 → Plan NodeId Binary64) :
    (slider page target plan).filterMap fill? = target.toList := by
  cases target <;> rfl

/-- Each handler writes the fill of its own bar, and no other. -/
theorem fills_updates (handler : Handler) : (updates page handler).filterMap fill? = (seekBar handler).toList := by
  have driven {α : Type} (plan : Plan NodeId α) : fill? (performed page plan) = none := rfl
  cases handler with
  | segmentJump timeline start card selector =>
    simp only [updates]
    split <;> simp only [List.filterMap_cons, driven, fills_icon] <;> rfl
  | indicatorProgress timeline indicator =>
    simp only [updates]
    cases timeline.indicator? page.deck <;> rfl
  | hover tip inside => rfl
  | _ =>
    simp only [updates, List.filterMap_cons, List.filterMap_append, driven, fills_icon, fills_text, fills_position,
      fills_slider, List.append_nil, List.nil_append]
    rfl

end Handlers

section Events

variable {page : Page} {node : NodeId}

theorem handle_level {handler : Handler} (accepts : page.refuses node "style" = false)
    (before : node ∈ (updates page handler).filterMap fill? ∨ (barAt page node).Level) :
    (barAt (page.handle handler).page node).Level := by
  obtain ⟨value, after⟩ := bar_updates page node handler
  rw [handle_eq, bar_foldl accepts, after]
  by_cases own : seekBar handler = some node
  · rw [if_pos own]
    rfl
  · rw [if_neg own]
    apply before.resolve_left
    rw [fills_updates, Option.mem_toList]
    exact own

theorem refuses_handle (handler : Handler) : (page.handle handler).page.refuses node "style" = page.refuses node "style" := by
  rw [handle_eq, refuses_foldl]

/-- It takes one handler to fill a bar. Those that come after it leave the bar level. -/
theorem handleAll_level {handlers : List Handler} (accepts : page.refuses node "style" = false)
    (before : node ∈ (updatesAll page handlers).filterMap fill? ∨ (barAt page node).Level) :
    (barAt (page.handleAll handlers).page node).Level := by
  induction handlers generalizing page with
  | nil => exact before.resolve_left nofun
  | cons handler rest ih =>
    -- Either the bar is level behind this handler already, or a later one fills it.
    refine ih ((refuses_handle handler).trans accepts) ?_
    rcases before with fills | level
    · rw [updatesAll, List.filterMap_append, List.mem_append] at fills
      rcases fills with first | later
      · exact .inr (handle_level accepts (.inl first))
      · exact .inl later
    · exact .inr (handle_level accepts (.inr level))

theorem happen_level {happening : Happening} (accepts : page.refuses node "style" = false)
    (unmoved : ∀ change, happening = .overwrite node change → change.value = none)
    (before : node ∈ (changesOf page happening).filterMap fill? ∨ (barAt page node).Level) :
    (barAt (happen page happening) node).Level := by
  cases happening with
  | fire target event => exact handleAll_level accepts before
  | overwrite target change =>
    have level : (barAt page node).Level := before.resolve_left nofun
    have same : barAt (happen page (.overwrite target change)) node = barAt page node := by
      by_cases here : node = target
      · subst here
        refine bar_setElement node ?_ rfl
        rw [unmoved change rfl]
        rfl
      · simp [barAt, happen, Page.overwrite, Page.setElement, here]
    rwa [same]

theorem refuses_happen (happening : Happening) : (happen page happening).refuses node "style" = page.refuses node "style" := by
  rw [happen_eq, refuses_foldl]

/-- A level bar stays level for as long as nobody moves its slider but the page itself. -/
theorem passed_level {happenings : List Happening} (accepts : page.refuses node "style" = false)
    (unmoved : ∀ change, .overwrite node change ∈ happenings → change.value = none)
    (level : (barAt page node).Level) : (barAt (passed page happenings) node).Level := by
  induction happenings generalizing page with
  | nil => exact level
  | cons happening rest ih =>
    apply ih
    · rwa [refuses_happen]
    · exact fun change member => unmoved change (List.mem_cons_of_mem _ member)
    · refine happen_level accepts ?_ (.inr level)
      rintro change rfl
      exact unmoved change List.mem_cons_self

/-- An event fills a bar: one of its handlers writes the fill, and the bar lets itself be styled. -/
def Fills (page : Page) (target : NodeId) (event : String) (node : NodeId) : Prop :=
  page.refuses node "style" = false ∧ node ∈ (changesOf page (.fire target event)).filterMap fill?

instance (target : NodeId) (event : String) : Decidable (Fills page target event node) :=
  inferInstanceAs (Decidable (_ ∧ _))

theorem Fills.level {target : NodeId} {event : String} (fills : Fills page target event node) :
    (barAt (happen page (.fire target event)) node).Level := by
  apply happen_level fills.1
  · intro change impossible
    cases impossible
  · exact .inl fills.2

/-- Whatever has happened to a page, and however many handlers share a bar: once an event has filled
it, the fill is that of the slider's value, and stays so until somebody else moves the slider. -/
theorem filled_up_to_slider (page : Page) (root : NodeId) (settings : Settings) (earlier later : List Happening)
    (target : NodeId) (event : String) :
    let before := passed (page.bind root settings).page earlier
    let after := happen before (.fire target event)
    Fills before target event node → (∀ change, .overwrite node change ∈ later → change.value = none) →
      (barAt after node).Level ∧ (barAt (passed after later) node).Level := by
  intro before after fills unmoved
  have accepts : after.refuses node "style" = false := by rw [refuses_happen, fills.1]
  exact ⟨fills.level, passed_level accepts unmoved fills.level⟩

end Events

/-- One seek bar for a comparison and for the control bar of its primary. -/
def sharedBar : Markup :=
  let video : Markup := .element { tag := "video" } ⟨.embedded false, { duration := 60 }⟩ []
  .element { tag := "main" } ⟨.embedded false, {}⟩
    [.element { tag := "div", attributes := [("class", "video-comparison timeline-video-card")] } ⟨.embedded false, {}⟩
      [.element { tag := "div", attributes := [("class", "comp-video-a")] } ⟨.embedded false, {}⟩ [video],
        .element { tag := "div", attributes := [("class", "comp-video-b")] } ⟨.embedded false, {}⟩ [video],
        .element { tag := "div", attributes := [("class", "video-player-controls")] } ⟨.embedded false, {}⟩
          [.element { tag := "input", attributes := [("class", "comp-seek vpc-scrub")] } ⟨.embedded false, {}⟩ []]]]

/-- The slider is moved too far, which the fill does not follow, and the primary plays on. -/
theorem filled_up_to_slider_shared :
    let moved : List Happening := [.overwrite 7 { value := some 250 }]
    let before := passed (sharedBar.page.bind 0 {}).page moved
    let after := happen before (.fire 7 "input")
    let later : List Happening := [.overwrite 3 { clip := { time := some 15 } }, .fire 3 "timeupdate"]
    (Fills before 7 "input" 7 ∧ (before.handlers 7 "input").length = 2 ∧ (barAt before 7).fill = none ∧
        (barAt after 7).fill = some "100%" ∧ (barAt (passed after later) 7).fill = some "25%") ∧
      (barAt after 7).Level ∧ (barAt (passed after later) 7).Level := by
  intro moved before after later
  have known : Fills before 7 "input" 7 ∧ (before.handlers 7 "input").length = 2 ∧ (barAt before 7).fill = none ∧
      (barAt after 7).fill = some "100%" ∧ (barAt (passed after later) 7).fill = some "25%" := by decide +kernel
  have others : ∀ change, .overwrite 7 change ∈ later → change.value = none := by simp [later]
  exact ⟨known, filled_up_to_slider sharedBar.page 0 {} moved later 7 "input" known.1 others⟩

end VideoPage.Proofs.BarFills
