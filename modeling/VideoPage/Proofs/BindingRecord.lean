import Mathlib.Data.List.Basic
import VideoPage.Page.Markup
import VideoPage.Proofs.BindingRefusals
import VideoPage.Proofs.ComponentPlans

/-! What a binding puts on record. Every element that has its turn has one event of its own in
the trace, in the order of the turns, and the report counts these events. The segments that a
bar could not use come before the bar's own event and are counted nowhere. -/

namespace VideoPage.Proofs.BindingRecord
open BindingSteps FoundParts BindingTurns BindingRefusals
open ComponentPlans (sender)

section Events

/-- A segment's event speaks of a part of its bar, and not of the bar. -/
def Counted : Event → Bool
  | .skipped _ .invalidSegmentStart => false
  | _ => true

def isBound : Event → Bool
  | .bound _ => true
  | _ => false

def isSkipped : Event → Bool
  | .skipped _ reason => reason ≠ .invalidSegmentStart
  | _ => false

/-- What the events of one kind amount to. -/
def tallied (events : List Event) (kind : ComponentKind) : Tally where
  bound := events.countP fun event => isBound event && (sender event).kind = kind
  skipped := events.countP fun event => isSkipped event && (sender event).kind = kind

/-- A report's tally of a kind. -/
def tally (report : BindReport) : ComponentKind → Tally
  | .comparison => report.comparisons
  | .controls => report.controls
  | .phase => report.phaseBars
  | .tooltip => report.tooltips

end Events

section Turns

variable (settings : Settings) (turn : Turn)

/-- What is said of an element at the end of its turn. -/
def verdict : Event :=
  match turn.skipped? settings with
  | some reason => .skipped turn.id reason
  | none => .bound turn.id

/-- The segments of a bound bar that do not say where they start. -/
def strays : List NodeId :=
  if turn.id.kind = .phase ∧ turn.skipped? settings = none then
    (matching turn.page turn.element settings.selectors.phaseSegment).filter fun segment =>
      (turn.page.segmentStart? segment).isNone
  else []

def entries : List Event := (strays settings turn).map (fun _ => .skipped turn.id .invalidSegmentStart) ++ [verdict settings turn]

variable {settings turn}

theorem segments_events {page : Page} {selectors : Selectors} {timeline : Timeline NodeId} {card : NodeId}
    (segments : List NodeId) :
    (segments.map (page.segmentStep selectors timeline card)).flatMap BindingStep.events =
      (segments.filter fun segment => (page.segmentStart? segment).isNone).map
        fun _ => .skipped timeline.id .invalidSegmentStart := by
  induction segments with
  | nil => rfl
  | cons segment rest ih =>
    rw [List.map_cons, List.flatMap_cons, ih, Page.segmentStep]
    cases read : page.segmentStart? segment <;> simp [read, BindingStep.events]

theorem indicator_events {page : Page} {selectors : Selectors} {timeline : Timeline NodeId} {bar : NodeId} :
    (page.indicatorSteps selectors timeline bar).flatMap BindingStep.events = [] := by
  rw [Page.indicatorSteps]
  split <;> rfl

theorem listenAt_events (target : Option NodeId) (event : String) (handler : Handler) :
    (Page.listenAt target event handler).flatMap BindingStep.events = [] := by
  cases target <;> rfl

theorem listenFor_events (shown orShown : Option NodeId) (target : NodeId) (handler : Handler) :
    (Page.listenFor shown orShown target handler).flatMap BindingStep.events = [] := by
  rw [Page.listenFor]
  split <;> rfl

theorem comparison_events (parts : ComparisonParts) : (Page.comparisonSteps parts).flatMap BindingStep.events = [] := by
  simp [Page.comparisonSteps, listenAt_events, listenFor_events, BindingStep.events]

theorem rate_events {page : Page} {bar : NodeId} {parts : ControlsParts} {selector : String} {button : RateButton} :
    (page.rateSteps bar parts selector button).flatMap BindingStep.events = [] := by
  rw [Page.rateSteps]
  split
  · exact listenAt_events _ _ _
  · rfl

theorem controls_events {page : Page} {selectors : Selectors} {bar : NodeId} {parts : ControlsParts} :
    (page.controlsSteps selectors bar parts).flatMap BindingStep.events = [] := by
  simp [Page.controlsSteps, listenAt_events, listenFor_events, rate_events, BindingStep.events]

theorem skip_reason {page : Page} {id : ComponentId} {element : NodeId} {reason : SkipReason}
    (skipped : page.wiring settings id element = .ok (.skipped reason)) : reason ≠ .invalidSegmentStart := by
  obtain ⟨kind, index⟩ := id
  cases kind with
  | comparison =>
    have shape := comparisonWiring_eq skipped
    split at shape <;> cases shape <;> nofun
  | controls =>
    have shape := controlsWiring_eq skipped
    split at shape
    · cases shape
      nofun
    · split at shape <;> cases shape
      nofun
  | phase =>
    have shape := phaseWiring_eq skipped
    split at shape
    · cases shape
      nofun
    · split at shape <;> cases shape
      nofun
  | tooltip => cases tooltipWiring_eq skipped

/-- Only a bar's segments are reported while an element is bound. -/
theorem bound_events {page : Page} {id : ComponentId} {element : NodeId} {steps : List BindingStep}
    (bound : page.wiring settings id element = .ok (.bound steps)) :
    steps.flatMap BindingStep.events =
      if id.kind = .phase then
        ((matching page element settings.selectors.phaseSegment).filter fun segment => (page.segmentStart? segment).isNone).map
          fun _ => .skipped id .invalidSegmentStart
      else [] := by
  obtain ⟨kind, index⟩ := id
  cases kind with
  | comparison =>
    have shape := comparisonWiring_eq bound
    split at shape <;> cases shape
    simp [comparison_events]
  | controls =>
    have shape := controlsWiring_eq bound
    split at shape
    · cases shape
    · split at shape <;> cases shape
      simp [controls_events]
  | phase =>
    have shape := phaseWiring_eq bound
    split at shape
    · cases shape
    · split at shape <;> cases shape
      simp [segments_events, indicator_events]
  | tooltip =>
    cases tooltipWiring_eq bound
    split <;> simp [BindingStep.events]

/-- A turn reports the segments that its bar cannot use, and then how it went. -/
theorem events_eq {wiring : Wiring} (wired : turn.wiring settings = .ok wiring) : turn.events settings = entries settings turn := by
  cases wiring with
  | skipped reason => simp [Turn.events, Turn.skipped?, entries, strays, verdict, wired]
  | bound steps =>
    have reported := bound_events wired
    by_cases bar : turn.id.kind = .phase
    · simpa [Turn.events, Turn.skipped?, Turn.steps, entries, strays, verdict, wired, bar] using reported
    · simpa [Turn.events, Turn.skipped?, Turn.steps, entries, strays, verdict, wired, bar] using reported

theorem sender_verdict : sender (verdict settings turn) = turn.id := by
  rw [verdict]
  split <;> rfl

theorem verdict_told : isBound (verdict settings turn) = true ∨ isSkipped (verdict settings turn) = true := by
  rw [verdict]
  cases wired : turn.wiring settings with
  | error error => simp [Turn.skipped?, wired, isBound]
  | ok wiring =>
    cases wiring with
    | bound steps => simp [Turn.skipped?, wired, isBound]
    | skipped reason => simp [Turn.skipped?, wired, isSkipped, skip_reason wired]

theorem counted_iff {event : Event} (told : isBound event = true ∨ isSkipped event = true) : Counted event = true := by
  cases event with
  | skipped id reason => cases reason <;> simp_all [Counted, isBound, isSkipped]
  | _ => rfl

theorem entries_counted : (entries settings turn).filter Counted = [verdict settings turn] := by
  have own : Counted (verdict settings turn) = true := counted_iff verdict_told
  have segments : ((strays settings turn).map fun _ => Event.skipped turn.id .invalidSegmentStart).filter Counted = [] := by
    simp [Counted]
  rw [entries, List.filter_append, segments, List.filter_cons_of_pos own]
  rfl

end Turns

section Tallies

variable {settings : Settings} {report : BindReport} {turn : Turn} {kind : ComponentKind}

theorem tally_update (of : ComponentKind) (change : Tally → Tally) :
    tally (report.update of change) kind = if of = kind then change (tally report kind) else tally report kind := by
  cases of <;> cases kind <;> rfl

theorem tallied_append (first second : List Event) : tallied (first ++ second) kind =
    ⟨(tallied first kind).bound + (tallied second kind).bound,
      (tallied first kind).skipped + (tallied second kind).skipped⟩ := by
  simp [tallied]

theorem tallied_entries : tallied (entries settings turn) kind = tallied [verdict settings turn] kind := by
  simp [tallied, entries, isBound, isSkipped]

theorem tally_count (wired : ∃ wiring, turn.wiring settings = .ok wiring) : tally (turn.count settings report) kind =
    ⟨(tally report kind).bound + (tallied (entries settings turn) kind).bound,
      (tally report kind).skipped + (tallied (entries settings turn) kind).skipped⟩ := by
  rw [tallied_entries, Turn.count, tally_update]
  obtain ⟨wiring, wired⟩ := wired
  by_cases own : turn.id.kind = kind
  · cases wiring with
    | bound steps => simp [own, tallied, verdict, Turn.skipped?, wired, isBound, isSkipped, sender]
    | skipped reason =>
      simp [own, tallied, verdict, Turn.skipped?, wired, isBound, isSkipped, sender, skip_reason wired]
  · simp [own, tallied, sender_verdict]

theorem tally_foldl (turns : List Turn) (wired : ∀ turn ∈ turns, ∃ wiring, turn.wiring settings = .ok wiring) :
    tally (turns.foldl (Turn.count settings) report) kind =
      ⟨(tally report kind).bound + (tallied (turns.flatMap (entries settings)) kind).bound,
        (tally report kind).skipped + (tallied (turns.flatMap (entries settings)) kind).skipped⟩ := by
  induction turns generalizing report with
  | nil => simp [tallied]
  | cons turn rest ih =>
    have later := @ih (turn.count settings report) fun other member => wired other (List.mem_cons_of_mem _ member)
    rw [List.foldl_cons, later, tally_count (wired turn List.mem_cons_self), List.flatMap_cons, tallied_append]
    simp only [Nat.add_assoc]

/-- Every event is of one kind. -/
theorem countP_eq (counts : Event → Bool) (events : List Event) : events.countP counts =
    events.countP (fun event => counts event && (sender event).kind = .comparison)
      + events.countP (fun event => counts event && (sender event).kind = .controls)
      + events.countP (fun event => counts event && (sender event).kind = .phase)
      + events.countP (fun event => counts event && (sender event).kind = .tooltip) := by
  induction events with
  | nil => rfl
  | cons event rest ih =>
    simp only [List.countP_cons, ih]
    cases counts event <;> cases (sender event).kind <;> simp <;> omega

theorem tallied_verdict : (tallied [verdict settings turn] kind).bound + (tallied [verdict settings turn] kind).skipped =
    if turn.id.kind = kind then 1 else 0 := by
  have either : (isBound (verdict settings turn) && isSkipped (verdict settings turn)) = false := by
    cases verdict settings turn <;> rfl
  rcases @verdict_told settings turn with told | told <;>
    simp_all [tallied, sender_verdict]

/-- Each turn is counted once, among those of its kind. -/
theorem tallied_turns (turns : List Turn) :
    (tallied (turns.flatMap (entries settings)) kind).bound + (tallied (turns.flatMap (entries settings)) kind).skipped =
      (turns.map (·.id)).countP (·.kind = kind) := by
  induction turns with
  | nil => rfl
  | cons turn rest ih =>
    have own := @tallied_verdict settings turn kind
    rw [List.flatMap_cons, tallied_append, tallied_entries, List.map_cons, List.countP_cons, ← ih]
    simp only [decide_eq_true_eq]
    omega

end Tallies

section Places

variable {page : Page} {root : NodeId} {settings : Settings}

theorem places_turns : (turns page root settings).map (fun turn => (turn.id, turn.element)) =
    Page.bindingOrder.flatMap fun kind =>
      (found page root settings kind).zipIdx.map fun place => (⟨kind, place.2⟩, place.1) := by
  simp only [turns, List.map_flatMap, turnsOf, places_turnsFrom]

theorem ids_turns : (turns page root settings).map (·.id) = Page.bindingOrder.flatMap fun kind =>
    (List.range (found page root settings kind).length).map fun index => (⟨kind, index⟩ : ComponentId) := by
  have places := congrArg (List.map Prod.fst) (@places_turns page root settings)
  simp only [List.map_map, List.map_flatMap, Function.comp_def] at places
  refine places.trans (List.flatMap_congr fun kind _ => ?_)
  rw [List.range_eq_range', ← List.zipIdx_map_snd, List.map_map]
  rfl

theorem countP_ids (kind : ComponentKind) : ((turns page root settings).map (·.id)).countP (·.kind = kind) =
    (found page root settings kind).length := by
  rw [ids_turns]
  cases kind <;> simp [Page.bindingOrder, List.countP_map, Function.comp_def]

end Places

/-- What a finished binding of a page has on record. -/
structure Recorded (page : Page) (root : NodeId) (settings : Settings) (binding : Binding) : Prop where
  /-- The elements of a kind are those that are there to be found when the kind begins. -/
  searched : ∀ kind,
    (pageBefore page root settings kind).queryAll root (settings.selectors.ofKind kind) = .ok (found page root settings kind)
  /-- They have their turns one kind after the other, and in document order within a kind. -/
  places : (turns page root settings).map (fun turn => (turn.id, turn.element)) =
    [.comparison, .controls, .phase, .tooltip].flatMap fun kind =>
      (found page root settings kind).zipIdx.map fun place => (⟨kind, place.2⟩, place.1)
  pages : Consecutive settings page (turns page root settings)
  /-- A bar's unusable segments come right before the bar. -/
  trace : binding.events = (turns page root settings).flatMap (entries settings)
  verdicts : binding.events.filter Counted = (turns page root settings).map (verdict settings)
  told : ∀ event ∈ binding.events, Counted event = true → isBound event = true ∨ isSkipped event = true
  components : (binding.events.filter Counted).map sender =
    [.comparison, .controls, .phase, .tooltip].flatMap fun kind =>
      (List.range (found page root settings kind).length).map fun index => ⟨kind, index⟩
  tallies : ∀ kind, tally binding.report kind = tallied binding.events kind
  elements : ∀ kind,
    (tally binding.report kind).bound + (tally binding.report kind).skipped = (found page root settings kind).length
  bound : binding.report.totalBound = binding.events.countP isBound
  skipped : binding.report.totalSkipped = binding.events.countP isSkipped

theorem finished_recorded {page : Page} {root : NodeId} {settings : Settings} (finished : (page.bind root settings).error = none) :
    Recorded page root settings (page.bind root settings) := by
  obtain ⟨searched, -, advances⟩ := bind_advances finished
  have trace : (page.bind root settings).events = (turns page root settings).flatMap (entries settings) := by
    rw [advances.events, List.nil_append]
    refine List.flatMap_congr fun turn member => ?_
    obtain ⟨wiring, wired⟩ := advances.wired turn member
    exact events_eq wired
  have verdicts : (page.bind root settings).events.filter Counted = (turns page root settings).map (verdict settings) := by
    rw [trace, List.filter_flatMap]
    simp only [entries_counted]
    exact (List.map_eq_flatMap ..).symm
  have tallies (kind : ComponentKind) :
      tally (page.bind root settings).report kind = tallied (page.bind root settings).events kind := by
    have start : tally {} kind = {} := by cases kind <;> rfl
    rw [advances.report, trace, tally_foldl _ advances.wired, start]
    simp
  exact {
    searched
    places := places_turns
    pages := advances.consecutive
    trace
    verdicts
    told := by
      intro event member counted
      have own : event ∈ (turns page root settings).map (verdict settings) :=
        verdicts ▸ List.mem_filter.mpr ⟨member, counted⟩
      obtain ⟨turn, -, rfl⟩ := List.mem_map.mp own
      exact verdict_told
    components := by
      rw [verdicts, List.map_map]
      exact (List.map_congr_left fun turn _ => sender_verdict).trans ids_turns
    tallies
    elements := by
      intro kind
      rw [tallies, trace, tallied_turns, countP_ids]
    bound := by
      rw [countP_eq, BindReport.totalBound]
      have each (kind : ComponentKind) := congrArg Tally.bound (tallies kind)
      exact congrArg₂ _ (congrArg₂ _ (congrArg₂ _ (each .comparison) (each .controls)) (each .phase)) (each .tooltip)
    skipped := by
      rw [countP_eq, BindReport.totalSkipped]
      have each (kind : ComponentKind) := congrArg Tally.skipped (tallies kind)
      exact congrArg₂ _ (congrArg₂ _ (congrArg₂ _ (each .comparison) (each .controls)) (each .phase)) (each .tooltip) }

/-- A binding whose selectors can be read is stopped by nothing but a refusal, and is on record
when it is not stopped. -/
theorem bind_recorded (page : Page) (root : NodeId) {settings : Settings} (readable : Readable settings.selectors) :
    (∀ error, (page.bind root settings).error = some error → Refused page error) ∧
      ((page.bind root settings).error = none → Recorded page root settings (page.bind root settings)) :=
  ⟨fun _ stopped => bind_refused readable root stopped, finished_recorded⟩

/-- A timeline of two segments, one of which does not say where it starts. -/
def strayCard : Markup :=
  .element { tag := "section", attributes := [("class", "timeline-video-card")] } ⟨.embedded false, {}⟩
    [.element { tag := "video" } ⟨.embedded false, {}⟩ [],
      .element { tag := "div", attributes := [("class", "phase-bar")] } ⟨.embedded false, {}⟩
        [.element { tag := "i", attributes := [("class", "phase-segment"), ("data-start", "25")] } ⟨.embedded false, {}⟩ [],
          .element { tag := "i", attributes := [("class", "phase-segment")] } ⟨.embedded false, {}⟩ []]]

theorem bind_recorded_stray : Readable ({} : Settings).selectors ∧
    (strayCard.page.bind 0 {}).events = [.skipped ⟨.phase, 0⟩ .invalidSegmentStart, .bound ⟨.phase, 0⟩] ∧
    Recorded strayCard.page 0 {} (strayCard.page.bind 0 {}) := by
  have finished : (strayCard.page.bind 0 {}).error = none := by decide +kernel
  exact ⟨readable_default, by decide +kernel, (bind_recorded strayCard.page 0 readable_default).2 finished⟩

/-- A tooltip's trigger on which nothing can listen. -/
def deafTrigger : Markup :=
  .element { tag := "html" } ⟨.embedded false, {}⟩
    [.element { tag := "p", attributes := [("data-tooltip", "Frames"), ("fail-listen", "")] } ⟨.embedded false, {}⟩ []]

/-- Binding need not come to its end: the trigger is neither bound nor skipped. -/
theorem deaf_trigger_refused : Readable ({} : Settings).selectors ∧
    (deafTrigger.page.bind 0 {}).error = some .listenFailed ∧ (deafTrigger.page.bind 0 {}).events = [] :=
  ⟨readable_default, by decide +kernel, by decide +kernel⟩

end VideoPage.Proofs.BindingRecord
