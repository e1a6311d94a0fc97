import Mathlib.Data.List.Basic
import VideoPage.Page.Markup
import VideoPage.Proofs.BindingTurns

/-! Binding and the parts of a page. An element that is bound gets listeners on those of its
parts that are there, a comparison sets the rate of its two videos, a control bar's speed label
is written, and a tooltip's trigger is positioned and gets an element of the tooltip's own.
Nothing else on the page is touched. -/

namespace VideoPage.Proofs.BindingParts
open BindingSteps FoundParts BindingTurns WrittenContents

section Expected

/-- A listener on a part, if the part is there. -/
def on (target : Option NodeId) (event : String) (handler : Handler) : List (NodeId × Listener) :=
  target.toList.map (·, ⟨event, handler⟩)

/-- A video's listener that follows its time where a slider or a label shows it. -/
def following (slider label : Option NodeId) (video : NodeId) (handler : Handler) : List (NodeId × Listener) :=
  if slider = none ∧ label = none then [] else [(video, ⟨"timeupdate", handler⟩)]

def comparisonListeners (parts : ComparisonParts) : List (NodeId × Listener) :=
  on parts.play "click" (.comparisonToggle parts)
    ++ following parts.seek parts.time parts.comparison.primary (.comparisonProgress parts)
    ++ on parts.seek "input" (.comparisonSeek parts)
    ++ [(parts.comparison.primary, ⟨"ended", .comparisonEnd parts⟩)]

def controlsListeners (page : Page) (selectors : Selectors) (bar : NodeId) (parts : ControlsParts) : List (NodeId × Listener) :=
  on parts.play "click" (.controlsToggle parts)
    ++ on (part page Element.isHtml bar selectors.controlsSlow) "click" (.controlsRate parts .slow)
    ++ on (part page Element.isHtml bar selectors.controlsFast) "click" (.controlsRate parts .fast)
    ++ on (part page Element.isHtml bar selectors.controlsRestart) "click" (.controlsRate parts .restart)
    ++ following parts.scrub parts.elapsed parts.transport.video (.controlsProgress parts)
    ++ on parts.scrub "input" (.controlsSeek parts)

def phaseListeners (page : Page) (selectors : Selectors) (timeline : Timeline NodeId) (card bar : NodeId) :
    List (NodeId × Listener) :=
  (matching page bar selectors.phaseSegment).flatMap (fun segment =>
      match page.segmentStart? segment with
      | some start => [(segment, ⟨"click", .segmentJump timeline start card selectors.controlsPlay⟩)]
      | none => [])
    ++ (part page Element.isHtml bar selectors.phaseIndicator).toList.map fun indicator =>
      (timeline.video, ⟨"timeupdate", .indicatorProgress timeline indicator⟩)

variable (settings : Settings) (turn : Turn)

/-- The videos of a comparison, if it has both. -/
def pair? : Option (NodeId × NodeId) :=
  match part turn.page Element.isVideo turn.element settings.selectors.comparisonPrimary,
    part turn.page Element.isVideo turn.element settings.selectors.comparisonFollower with
  | some primary, some follower => some (primary, follower)
  | _, _ => none

/-- The listeners that a turn adds, in order. -/
def expected : List (NodeId × Listener) :=
  match turn.id.kind with
  | .comparison =>
    match pair? settings turn with
    | some (primary, follower) =>
      comparisonListeners (comparisonParts turn.page settings turn.id turn.element primary follower)
    | none => []
  | .controls =>
    match cardVideo turn.page settings.selectors turn.element with
    | some video =>
      controlsListeners turn.page settings.selectors turn.element (controlsParts turn.page settings turn.id turn.element video)
    | none => []
  | .phase =>
    match cardOf turn.page turn.element settings.selectors.videoCard, cardVideo turn.page settings.selectors turn.element with
    | some card, some video => phaseListeners turn.page settings.selectors ⟨turn.id, video⟩ card turn.element
    | _, _ => []
  | .tooltip => [(turn.element, ⟨"mouseenter", .hover turn.page.count true⟩),
      (turn.element, ⟨"mouseleave", .hover turn.page.count false⟩)]

/-- The videos whose rate a turn sets. -/
def paired : List NodeId :=
  match turn.id.kind, pair? settings turn with
  | .comparison, some (primary, follower) => [primary, follower]
  | _, _ => []

/-- The label that a turn writes. -/
def labels : List NodeId :=
  match turn.id.kind, cardVideo turn.page settings.selectors turn.element with
  | .controls, some _ => (part turn.page Element.isHtml turn.element settings.selectors.controlsSpeed).toList
  | _, _ => []

/-- What a turn writes there: the rate of the video in its card. -/
def speedTexts : Writes :=
  match turn.id.kind, cardVideo turn.page settings.selectors turn.element with
  | .controls, some video =>
    textOn (part turn.page Element.isHtml turn.element settings.selectors.controlsSpeed)
      (rateLabel (turn.page.deck video).clip.rate)
  | _, _ => []

theorem speedTexts_fst : (speedTexts settings turn).map Prod.fst = labels settings turn := by
  rw [speedTexts, labels]
  split <;> simp [textOn, Function.comp_def]

/-- The trigger that a turn positions, for its tooltip to stand next to it. -/
def positioned : List NodeId :=
  match turn.id.kind with
  | .tooltip => if (turn.page.element turn.element).isHtml then [turn.element] else []
  | _ => []

/-- The tooltip that a turn adds to its element. -/
def hung : List (NodeId × Tooltip) :=
  match turn.id.kind with
  | .tooltip =>
    [(turn.element, { id := turn.id, text := ((turn.page.element turn.element).attribute? Settings.tooltipAttribute).getD "" })]
  | _ => []

/-- The elements whose looks a turn may change. -/
def shown : List NodeId := labels settings turn ++ (hung turn).map Prod.fst

end Expected

/-- What the steps of a turn do, told by the parts. -/
structure Told (settings : Settings) (turn : Turn) (steps : List BindingStep) : Prop where
  listens : steps.flatMap listened = expected settings turn
  rates : ∀ step ∈ steps, driven step = (rated step).map (.setRate · settings.comparisonRate)
  pairs : steps.flatMap rated = paired settings turn
  writes : steps.flatMap labelled = speedTexts settings turn
  styles : steps.flatMap styled = (positioned turn).map (·, "position", "relative")
  hangs : steps.flatMap attached = hung turn
  looks : steps.flatMap touched ⊆ shown settings turn

section Listening

variable {page : Page} {selectors : Selectors} {bar : NodeId}

theorem listened_listenAt (target : Option NodeId) (event : String) (handler : Handler) :
    (Page.listenAt target event handler).flatMap listened = on target event handler := by
  cases target <;> rfl

theorem listened_listenFor (slider label : Option NodeId) (video : NodeId) (handler : Handler) :
    (Page.listenFor slider label video handler).flatMap listened = following slider label video handler := by
  cases slider <;> cases label <;> rfl

theorem listened_rateSteps (parts : ControlsParts) (selector : String) (button : RateButton) :
    (page.rateSteps bar parts selector button).flatMap listened =
      on (part page Element.isHtml bar selector) "click" (.controlsRate parts button) := by
  rw [Page.rateSteps, part]
  cases page.query Element.isHtml bar selector with
  | ok found => exact listened_listenAt _ _ _
  | error error => rfl

theorem listened_segments (timeline : Timeline NodeId) (card : NodeId) (segments : List NodeId) :
    (segments.map (page.segmentStep selectors timeline card)).flatMap listened = segments.flatMap fun segment =>
      match page.segmentStart? segment with
      | some start => [(segment, ⟨"click", .segmentJump timeline start card selectors.controlsPlay⟩)]
      | none => [] := by
  rw [List.flatMap_map]
  refine List.flatMap_congr fun segment _ => ?_
  rw [Page.segmentStep]
  cases page.segmentStart? segment <;> rfl

theorem listened_indicatorSteps (timeline : Timeline NodeId) :
    (page.indicatorSteps selectors timeline bar).flatMap listened =
      (part page Element.isHtml bar selectors.phaseIndicator).toList.map fun indicator =>
        (timeline.video, ⟨"timeupdate", .indicatorProgress timeline indicator⟩) := by
  rw [Page.indicatorSteps, part]
  cases page.query Element.isHtml bar selectors.phaseIndicator with
  | ok found => cases found <;> rfl
  | error error => rfl

end Listening

/-- Steps that drive no player and change no element's looks. -/
def Quiet (steps : List BindingStep) : Prop := ∀ step ∈ steps, driven step = [] ∧ touched step = []

namespace Quiet

variable {first second steps : List BindingStep} {page : Page} {selectors : Selectors} {bar : NodeId}

theorem append (one : Quiet first) (two : Quiet second) : Quiet (first ++ second) :=
  fun step member => (List.mem_append.mp member).elim (one step) (two step)

theorem listenAt (target : Option NodeId) (event : String) (handler : Handler) : Quiet (Page.listenAt target event handler) := by
  simp [Quiet, Page.listenAt, driven, touched]

theorem listenFor (slider label : Option NodeId) (video : NodeId) (handler : Handler) :
    Quiet (Page.listenFor slider label video handler) := by
  rw [Page.listenFor]
  split <;> simp [Quiet, driven, touched]

theorem rateSteps (parts : ControlsParts) (selector : String) (button : RateButton) :
    Quiet (page.rateSteps bar parts selector button) := by
  rw [Page.rateSteps]
  split
  · exact listenAt _ _ _
  · simp [Quiet, driven, touched]

theorem segments (timeline : Timeline NodeId) (card : NodeId) (segments : List NodeId) :
    Quiet (segments.map (page.segmentStep selectors timeline card)) := by
  intro step member
  obtain ⟨segment, -, rfl⟩ := List.mem_map.mp member
  rw [Page.segmentStep]
  split <;> exact ⟨rfl, rfl⟩

theorem indicatorSteps (timeline : Timeline NodeId) : Quiet (page.indicatorSteps selectors timeline bar) := by
  rw [Page.indicatorSteps]
  split <;> simp [Quiet, driven, touched]

theorem touches (quiet : Quiet steps) : steps.flatMap touched = [] :=
  List.flatMap_eq_nil_iff.mpr fun step member => (quiet step member).2

/-- What comes of changes only, quiet steps lack. -/
theorem silent {α : Type} {ofStep : BindingStep → List α} (quiet : Quiet steps)
    (own : ∀ step, touched step = [] → ofStep step = []) : steps.flatMap ofStep = [] :=
  List.flatMap_eq_nil_iff.mpr fun step member => own step (quiet step member).2

theorem labels (quiet : Quiet steps) : steps.flatMap labelled = [] :=
  quiet.silent fun step untouched => by cases step <;> simp_all [touched, labelled]

theorem styles (quiet : Quiet steps) : steps.flatMap styled = [] :=
  quiet.silent fun step untouched => by cases step <;> simp_all [touched, styled]

theorem hangs (quiet : Quiet steps) : steps.flatMap attached = [] :=
  quiet.silent fun step untouched => by cases step <;> simp_all [touched, attached]

end Quiet

section Kinds

variable {settings : Settings} {page : Page} {index : Nat} {element : NodeId} {turn : Turn} {steps : List BindingStep}
  {wiring : Wiring}

theorem Told.of_undriven (listens : steps.flatMap listened = expected settings turn)
    (undriven : ∀ step ∈ steps, driven step = []) (unpaired : paired settings turn = [])
    (writes : steps.flatMap labelled = speedTexts settings turn)
    (styles : steps.flatMap styled = (positioned turn).map (·, "position", "relative"))
    (hangs : steps.flatMap attached = hung turn) (looks : steps.flatMap touched ⊆ shown settings turn) :
    Told settings turn steps where
  listens := listens
  rates := by
    intro step member
    simp [rated, undriven step member]
  pairs := by
    rw [unpaired, List.flatMap_eq_nil_iff]
    intro step member
    simp [rated, undriven step member]
  writes := writes
  styles := styles
  hangs := hangs
  looks := looks

theorem Told.of_quiet (listens : steps.flatMap listened = expected settings turn) (quiet : Quiet steps)
    (unpaired : paired settings turn = []) (unwritten : speedTexts settings turn = []) (unplaced : positioned turn = [])
    (unhung : hung turn = []) : Told settings turn steps :=
  .of_undriven listens (fun step member => (quiet step member).1) unpaired (quiet.labels.trans unwritten.symm)
    (by rw [quiet.styles, unplaced]; rfl) (quiet.hangs.trans unhung.symm) (by simp [quiet.touches])

theorem Told.of_skipped {reason : SkipReason} (skipped : turn.wiring settings = .ok (.skipped reason))
    (silent : expected settings turn = []) (unpaired : paired settings turn = []) (unwritten : speedTexts settings turn = [])
    (unplaced : positioned turn = []) (unhung : hung turn = []) : Told settings turn (turn.steps settings) := by
  have stepless : turn.steps settings = [] := by simp [Turn.steps, skipped]
  rw [stepless]
  exact .of_quiet (by simp [silent]) (by simp [Quiet]) unpaired unwritten unplaced unhung

theorem comparison_told (wired : page.wiring settings ⟨.comparison, index⟩ element = .ok wiring) :
    Told settings ⟨page, ⟨.comparison, index⟩, element⟩ (Turn.steps settings ⟨page, ⟨.comparison, index⟩, element⟩) := by
  have shape := comparisonWiring_eq wired
  split at shape
  · next primary follower foundPrimary foundFollower =>
    subst shape
    simp only [Turn.steps, Turn.wiring, wired]
    generalize made : comparisonParts page settings ⟨.comparison, index⟩ element primary follower = parts
    obtain ⟨start, rest, steps_eq, starts, quiet⟩ : ∃ start rest, Page.comparisonSteps parts = start :: rest ∧
        start = .drive parts.comparison.start ∧ Quiet rest := by
      refine ⟨_, _, rfl, rfl, (((Quiet.listenAt _ _ _).append (.listenFor _ _ _ _)).append (.listenAt _ _ _)).append ?_⟩
      simp [Quiet, driven, touched]
    have driver : rated start = [primary, follower] := by
      rw [starts, ← made]
      rfl
    exact {
      listens := by
        simp [expected, pair?, foundPrimary, foundFollower, made, Page.comparisonSteps, comparisonListeners,
          listened_listenAt, listened_listenFor, listened]
      rates := by
        intro step member
        rw [steps_eq, List.mem_cons] at member
        rcases member with rfl | later
        · rw [driver, starts, ← made]
          rfl
        · simp [rated, (quiet step later).1]
      pairs := by
        have silent : rest.flatMap rated = [] :=
          List.flatMap_eq_nil_iff.mpr fun step later => by simp [rated, (quiet step later).1]
        simp [steps_eq, driver, silent, paired, pair?, foundPrimary, foundFollower]
      writes := by simp [steps_eq, quiet.labels, starts, labelled, speedTexts]
      styles := by simp [steps_eq, quiet.styles, starts, styled, positioned]
      hangs := by simp [steps_eq, quiet.hangs, starts, attached, hung]
      looks := by simp [steps_eq, quiet.touches, starts, touched] }
  · next found missing =>
    subst shape
    exact .of_skipped wired (by simp [expected, pair?, found, missing]) (by simp [paired, pair?, found, missing]) rfl rfl rfl
  · next missing =>
    subst shape
    exact .of_skipped wired (by simp [expected, pair?, missing]) (by simp [paired, pair?, missing]) rfl rfl rfl

/-- A control bar's steps only listen until they write the speed label. -/
theorem controlsSteps_quiet (page : Page) (selectors : Selectors) (bar : NodeId) (parts : ControlsParts) : ∃ steps,
    page.controlsSteps selectors bar parts =
        steps ++ parts.speed.toList.map (.label · (rateLabel (page.deck parts.transport.video).clip.rate)) ∧ Quiet steps :=
  ⟨_, rfl, (((((Quiet.listenAt _ _ _).append (.rateSteps _ _ _)).append (.rateSteps _ _ _)).append (.rateSteps _ _ _)).append
    (.listenFor _ _ _ _)).append (.listenAt _ _ _)⟩

theorem labelled_speed (label : Option NodeId) (text : String) :
    (label.toList.map (BindingStep.label · text)).flatMap labelled = textOn label text := by
  cases label <;> rfl

theorem controls_told (wired : page.wiring settings ⟨.controls, index⟩ element = .ok wiring) :
    Told settings ⟨page, ⟨.controls, index⟩, element⟩ (Turn.steps settings ⟨page, ⟨.controls, index⟩, element⟩) := by
  have unpaired : paired settings ⟨page, ⟨.controls, index⟩, element⟩ = [] := rfl
  have shape := controlsWiring_eq wired
  split at shape
  · next missing =>
    subst shape
    exact .of_skipped wired (by simp [expected, cardVideo, missing]) unpaired (by simp [speedTexts, cardVideo, missing])
      rfl rfl
  · split at shape
    · next missing =>
      subst shape
      exact .of_skipped wired (by simp [expected, missing]) unpaired (by simp [speedTexts, missing]) rfl rfl
    · next video found =>
      subst shape
      simp only [Turn.steps, Turn.wiring, wired]
      obtain ⟨steps, steps_eq, quiet⟩ := controlsSteps_quiet page settings.selectors element
        (controlsParts page settings ⟨.controls, index⟩ element video)
      refine .of_undriven ?_ ?_ unpaired ?_ ?_ ?_ ?_
      · simp [expected, found, Page.controlsSteps, controlsListeners, listened_listenAt, listened_listenFor,
          listened_rateSteps, listened, List.flatMap_map]
      · intro step member
        rw [steps_eq, List.mem_append, List.mem_map] at member
        rcases member with member | ⟨label, -, rfl⟩
        · exact (quiet step member).1
        · rfl
      · rw [steps_eq, List.flatMap_append, quiet.labels, labelled_speed, List.nil_append]
        simp only [speedTexts, found, controlsParts]
      · rw [steps_eq]
        simp [quiet.styles, positioned, List.flatMap_map, styled]
      · rw [steps_eq]
        simp [quiet.hangs, hung, List.flatMap_map, attached]
      · rw [steps_eq]
        simp [quiet.touches, shown, labels, hung, found, List.flatMap_map, touched, controlsParts]

theorem phase_told (wired : page.wiring settings ⟨.phase, index⟩ element = .ok wiring) :
    Told settings ⟨page, ⟨.phase, index⟩, element⟩ (Turn.steps settings ⟨page, ⟨.phase, index⟩, element⟩) := by
  have unpaired : paired settings ⟨page, ⟨.phase, index⟩, element⟩ = [] := rfl
  have shape := phaseWiring_eq wired
  split at shape
  · next missing =>
    subst shape
    exact .of_skipped wired (by simp [expected, missing]) unpaired rfl rfl rfl
  · next card foundCard =>
    split at shape
    · next missing =>
      subst shape
      exact .of_skipped wired (by simp [expected, missing, foundCard]) unpaired rfl rfl rfl
    · next video found =>
      subst shape
      simp only [Turn.steps, Turn.wiring, wired]
      refine .of_quiet ?_ ((Quiet.segments _ _ _).append (.indicatorSteps _)) unpaired rfl rfl rfl
      simp [expected, found, foundCard, phaseListeners, listened_segments, listened_indicatorSteps]

theorem tooltip_told (wired : page.wiring settings ⟨.tooltip, index⟩ element = .ok wiring) :
    Told settings ⟨page, ⟨.tooltip, index⟩, element⟩ (Turn.steps settings ⟨page, ⟨.tooltip, index⟩, element⟩) := by
  have shape := tooltipWiring_eq wired
  subst shape
  simp only [Turn.steps, Turn.wiring, wired]
  refine .of_undriven ?_ ?_ rfl ?_ ?_ ?_ ?_
  · split <;> simp [expected, listened]
  · split <;> simp [driven]
  · split <;> simp [labelled, speedTexts]
  · split <;> simp_all [styled, positioned]
  · split <;> simp [attached, hung]
  · split <;> simp [touched, shown, hung]

theorem steps_told (wired : turn.wiring settings = .ok wiring) : Told settings turn (turn.steps settings) := by
  obtain ⟨page, ⟨kind, index⟩, element⟩ := turn
  cases kind with
  | comparison => exact comparison_told wired
  | controls => exact controls_told wired
  | phase => exact phase_told wired
  | tooltip => exact tooltip_told wired

end Kinds

/-- What all steps of some turns do, told turn by turn. -/
theorem flatMap_steps {α : Type} {settings : Settings} {turns : List Turn} {ofStep : BindingStep → List α}
    {ofTurn : Turn → List α} (each : ∀ turn ∈ turns, (turn.steps settings).flatMap ofStep = ofTurn turn) :
    (turns.flatMap (·.steps settings)).flatMap ofStep = turns.flatMap ofTurn := by
  rw [List.flatMap_assoc]
  exact List.flatMap_congr each

section Turns

variable {settings : Settings} {turns : List Turn} (told : ∀ turn ∈ turns, Told settings turn (turn.steps settings))

theorem triggers_hung (turn : Turn) : (hung turn).map Prod.fst = if turn.id.kind = .tooltip then [turn.element] else [] := by
  rw [hung]
  split
  · next kind => rw [if_pos kind]; rfl
  · next other => rw [if_neg other]; rfl

theorem hung_others (others : ∀ turn ∈ turns, turn.id.kind ≠ .tooltip) : turns.flatMap hung = [] := by
  rw [List.flatMap_eq_nil_iff]
  intro turn member
  simpa [others turn member] using triggers_hung turn

theorem labels_tooltips (tooltips : ∀ turn ∈ turns, turn.id.kind = .tooltip) : turns.flatMap (labels settings) = [] := by
  rw [List.flatMap_eq_nil_iff]
  intro turn member
  simp [labels, tooltips turn member]

theorem earlier_kind {page : Page} {root : NodeId} {turn : Turn} (member : turn ∈ earlier page root settings) :
    turn.id.kind ≠ .tooltip := by
  simp only [earlier, List.mem_append, turnsOf] at member
  rcases member with (comparison | controls) | phase
  · simp [kind_of_turnsFrom comparison]
  · simp [kind_of_turnsFrom controls]
  · simp [kind_of_turnsFrom phase]

include told

theorem labelled_turns : ((turns.flatMap (·.steps settings)).flatMap labelled).map Prod.fst = turns.flatMap (labels settings) := by
  rw [flatMap_steps fun turn member => (told turn member).writes, List.map_flatMap]
  exact List.flatMap_congr fun turn _ => speedTexts_fst settings turn

theorem attached_others (others : ∀ turn ∈ turns, turn.id.kind ≠ .tooltip) :
    (turns.flatMap (·.steps settings)).flatMap attached = [] := by
  rw [flatMap_steps fun turn member => (told turn member).hangs, hung_others others]

theorem labelled_tooltips (tooltips : ∀ turn ∈ turns, turn.id.kind = .tooltip) :
    (turns.flatMap (·.steps settings)).flatMap labelled = [] :=
  List.map_eq_nil_iff.mp ((labelled_turns told).trans (labels_tooltips tooltips))

theorem touched_turns {node : NodeId} (other : node ∉ turns.flatMap (shown settings)) :
    node ∉ (turns.flatMap (·.steps settings)).flatMap touched := by
  intro touches
  rw [List.flatMap_assoc] at touches
  obtain ⟨turn, member, own⟩ := List.mem_flatMap.mp touches
  exact other (List.mem_flatMap.mpr ⟨turn, member, (told turn member).looks own⟩)

end Turns

section Positions

end Positions

/-- A binding in two halves: the first adds no element to the page, and the second, that of the
tooltips, writes nothing. -/
structure Halves (page : Page) (root : NodeId) (settings : Settings) (first second : List BindingStep) : Prop where
  whole : (page.bind root settings).page = carriedOut (carriedOut page first) second
  unattached : first.flatMap attached = []
  unlabelled : second.flatMap labelled = []
  labelling : (first.flatMap labelled).map Prod.fst = (turns page root settings).flatMap (labels settings)
  hanging : second.flatMap attached = (turns page root settings).flatMap hung
  touching : ∀ node ∉ (turns page root settings).flatMap (shown settings), node ∉ second.flatMap touched

namespace Halves

variable {page : Page} {root : NodeId} {settings : Settings} {first second : List BindingStep}
  (halves : Halves page root settings first second)
include halves

theorem count : (carriedOut page first).count = page.count := by simp [count_carriedOut, halves.unattached]

theorem children (node : NodeId) : (page.bind root settings).page.children node =
    (if node ∈ (turns page root settings).flatMap (labels settings) then [] else page.children node) ++
      tipsAt node page.count ((turns page root settings).flatMap hung) := by
  have untold : node ∉ (first.flatMap attached).map Prod.fst := by simp [halves.unattached]
  rw [halves.whole, children_attached _ _ halves.unlabelled, children_carriedOut _ _ untold, halves.labelling, halves.hanging,
    halves.count]

theorem tip {index : Nat} {trigger : NodeId} {tooltip : Tooltip}
    (added : ((turns page root settings).flatMap hung)[index]? = some (trigger, tooltip))
    (other : page.count + index ∉ (turns page root settings).flatMap (shown settings)) :
    (page.bind root settings).page.element (page.count + index) = Page.tipElement tooltip ∧
      (page.bind root settings).page.parent (page.count + index) = some trigger ∧
      (page.bind root settings).page.tooltip (page.count + index) = some tooltip := by
  rw [← halves.hanging] at added
  rw [← halves.count] at other ⊢
  rw [halves.whole]
  exact tip_carriedOut _ second halves.unlabelled added (halves.touching _ other)

end Halves

section Finished

variable {page : Page} {root : NodeId} {settings : Settings} (finished : (page.bind root settings).error = none)
include finished

theorem told_turns : ∀ turn ∈ turns page root settings, Told settings turn (turn.steps settings) := by
  obtain ⟨-, -, advances⟩ := bind_advances finished
  intro turn member
  obtain ⟨wiring, wired⟩ := advances.wired turn member
  exact steps_told wired

theorem told_earlier : ∀ turn ∈ earlier page root settings, Told settings turn (turn.steps settings) := by
  intro turn member
  exact told_turns finished turn (turns_eq .. ▸ List.mem_append_left _ member)

theorem told_tooltips : ∀ turn ∈ turnsOf page root settings .tooltip, Told settings turn (turn.steps settings) := by
  intro turn member
  exact told_turns finished turn (turns_eq .. ▸ List.mem_append_right _ member)

theorem halves : Halves page root settings ((earlier page root settings).flatMap (·.steps settings))
    ((turnsOf page root settings .tooltip).flatMap (·.steps settings)) := by
  have silent : (turnsOf page root settings .tooltip).flatMap (labels settings) = [] :=
    labels_tooltips fun _ => kind_of_turnsFrom
  have unhung : (earlier page root settings).flatMap hung = [] := hung_others fun _ => earlier_kind
  exact {
    whole := by rw [bind_page finished, turns_eq, List.flatMap_append, carriedOut_append]
    unattached := attached_others (told_earlier finished) fun _ => earlier_kind
    unlabelled := labelled_tooltips (told_tooltips finished) fun _ => kind_of_turnsFrom
    labelling := by rw [labelled_turns (told_earlier finished), turns_eq, List.flatMap_append, silent, List.append_nil]
    hanging := by
      rw [flatMap_steps fun turn member => (told_tooltips finished turn member).hangs, turns_eq, List.flatMap_append, unhung,
        List.nil_append]
    touching := by
      intro node other
      refine touched_turns (told_tooltips finished) fun member => other ?_
      rw [turns_eq, List.flatMap_append]
      exact List.mem_append_right _ member }

end Finished

end VideoPage.Proofs.BindingParts
