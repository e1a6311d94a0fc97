import VideoPage.Proofs.BindingTurns
import VideoPage.Proofs.PageRuns

/-! Why a binding does not come to its end. With selectors that can be read, only an element
that refuses an operation stops it, and that element has refused from the start: binding gives
no element anything to refuse. -/

namespace VideoPage.Proofs.BindingRefusals
open BindingSteps FoundParts PageRuns

/-- All selectors of some settings. -/
def texts (selectors : Selectors) : List String :=
  [selectors.comparison, selectors.comparisonPrimary, selectors.comparisonFollower, selectors.comparisonSeek,
    selectors.comparisonPlay, selectors.comparisonTime, selectors.controls, selectors.videoCard, selectors.video,
    selectors.controlsPlay, selectors.controlsSlow, selectors.controlsFast, selectors.controlsRestart,
    selectors.controlsSpeed, selectors.controlsScrub, selectors.controlsElapsed, selectors.phaseBar,
    selectors.phaseSegment, selectors.phaseIndicator, selectors.tooltipTrigger]

def Readable (selectors : Selectors) : Prop := ∀ text ∈ texts selectors, (readSelector? text).isSome

instance (selectors : Selectors) : Decidable (Readable selectors) :=
  inferInstanceAs (Decidable (∀ text ∈ texts selectors, (readSelector? text).isSome))

theorem readable_default : Readable ({} : Settings).selectors := by decide +kernel

/-- Some element of a page refuses what an error says was refused. -/
inductive Refused (page : Page) : PageError → Prop where
  | query {node : NodeId} (refuses : page.refuses node "query" = true) : Refused page .queryFailed
  | listen {node : NodeId} (refuses : page.refuses node "listen" = true) : Refused page .listenFailed
  | style {node : NodeId} (refuses : page.refuses node "style" = true) : Refused page .styleFailed
  | append {node : NodeId} (refuses : page.refuses node "append" = true) : Refused page .appendFailed
  | document {node : NodeId} (refuses : page.refuses node "document" = true) : Refused page .noOwnerDocument

/-- One page refuses no more than another. -/
def Easier (page other : Page) : Prop :=
  ∀ node operation, page.refuses node operation = true → other.refuses node operation = true

section Looking

variable {page : Page} {settings : Settings} {error : PageError}

theorem Refused.easier {other : Page} (easier : Easier page other) (refused : Refused page error) : Refused other error := by
  cases refused with
  | query refuses => exact .query (easier _ _ refuses)
  | listen refuses => exact .listen (easier _ _ refuses)
  | style refuses => exact .style (easier _ _ refuses)
  | append refuses => exact .append (easier _ _ refuses)
  | document refuses => exact .document (easier _ _ refuses)

variable {selector : String} (readable : (readSelector? selector).isSome)
include readable

theorem queryAll_refused {scope : NodeId} (failed : page.queryAll scope selector = .error error) : Refused page error := by
  rw [Page.queryAll] at failed
  split at failed
  · next refuses =>
    cases failed
    exact .query refuses
  · obtain ⟨compounds, read⟩ := Option.isSome_iff_exists.mp readable
    simp [read] at failed

theorem query_refused {kind : Element → Bool} {scope : NodeId} (failed : page.query kind scope selector = .error error) :
    Refused page error := by
  rw [Page.query] at failed
  cases looked : page.queryAll scope selector with
  | ok found =>
    rw [looked] at failed
    cases failed
  | error other =>
    rw [looked] at failed
    cases failed
    exact queryAll_refused readable looked

theorem card_found {bar : NodeId} (failed : page.card bar selector = .error error) : False := by
  obtain ⟨compounds, read⟩ := Option.isSome_iff_exists.mp readable
  simp [Page.card, Page.closest, read, Except.map] at failed

end Looking

section Wirings

variable {page : Page} {settings : Settings} {id : ComponentId} {element : NodeId} {error : PageError}
  (readable : Readable settings.selectors)
include readable

theorem comparisonWiring_refused (failed : page.comparisonWiring settings id element = .error error) : Refused page error := by
  rw [Page.comparisonWiring, bind_eq_error] at failed
  rcases failed with looking | ⟨primary, -, failed⟩
  · exact query_refused (readable _ (by simp [texts])) looking
  · cases primary with
    | none => cases failed
    | some primary =>
      rcases bind_eq_error.mp failed with looking | ⟨follower, -, failed⟩
      · exact query_refused (readable _ (by simp [texts])) looking
      · cases follower with
        | none => cases failed
        | some follower =>
          rcases bind_eq_error.mp failed with looking | ⟨seek, -, failed⟩
          · exact query_refused (readable _ (by simp [texts])) looking
          · rcases bind_eq_error.mp failed with looking | ⟨play, -, failed⟩
            · exact query_refused (readable _ (by simp [texts])) looking
            · rcases bind_eq_error.mp failed with looking | ⟨time, -, failed⟩
              · exact query_refused (readable _ (by simp [texts])) looking
              · cases failed

theorem controlsWiring_refused (failed : page.controlsWiring settings id element = .error error) : Refused page error := by
  rw [Page.controlsWiring, bind_eq_error] at failed
  rcases failed with looking | ⟨card, -, failed⟩
  · exact (card_found (readable _ (by simp [texts])) looking).elim
  · cases card with
    | none => cases failed
    | some card =>
      rcases bind_eq_error.mp failed with looking | ⟨video, -, failed⟩
      · exact query_refused (readable _ (by simp [texts])) looking
      · cases video with
        | none => cases failed
        | some video =>
          rcases bind_eq_error.mp failed with looking | ⟨play, -, failed⟩
          · exact query_refused (readable _ (by simp [texts])) looking
          · rcases bind_eq_error.mp failed with looking | ⟨speed, -, failed⟩
            · exact query_refused (readable _ (by simp [texts])) looking
            · rcases bind_eq_error.mp failed with looking | ⟨scrub, -, failed⟩
              · exact query_refused (readable _ (by simp [texts])) looking
              · rcases bind_eq_error.mp failed with looking | ⟨elapsed, -, failed⟩
                · exact query_refused (readable _ (by simp [texts])) looking
                · cases failed

theorem phaseWiring_refused (failed : page.phaseWiring settings id element = .error error) : Refused page error := by
  rw [Page.phaseWiring, bind_eq_error] at failed
  rcases failed with looking | ⟨card, -, failed⟩
  · exact (card_found (readable _ (by simp [texts])) looking).elim
  · cases card with
    | none => cases failed
    | some card =>
      rcases bind_eq_error.mp failed with looking | ⟨video, -, failed⟩
      · exact query_refused (readable _ (by simp [texts])) looking
      · cases video with
        | none => cases failed
        | some video =>
          rcases bind_eq_error.mp failed with looking | ⟨segments, -, failed⟩
          · exact queryAll_refused (readable _ (by simp [texts])) looking
          · cases failed

omit readable in
theorem tooltipWiring_refused (failed : page.tooltipWiring id element = .error error) : Refused page error := by
  rw [Page.tooltipWiring] at failed
  split at failed
  · next refuses =>
    cases failed
    exact .document refuses
  · cases failed

theorem wiring_refused (failed : page.wiring settings id element = .error error) : Refused page error := by
  obtain ⟨kind, index⟩ := id
  cases kind with
  | comparison => exact comparisonWiring_refused readable failed
  | controls => exact controlsWiring_refused readable failed
  | phase => exact phaseWiring_refused readable failed
  | tooltip => exact tooltipWiring_refused failed

omit readable in
theorem rateSteps_refused {bar : NodeId} {parts : ControlsParts} {selector : String} {button : RateButton}
    (readable : (readSelector? selector).isSome) (stops : .stop error ∈ page.rateSteps bar parts selector button) :
    Refused page error := by
  rw [Page.rateSteps] at stops
  cases looked : page.query Element.isHtml bar selector with
  | ok found => simp [looked, Page.listenAt] at stops
  | error other =>
    simp only [looked, List.mem_singleton, BindingStep.stop.injEq] at stops
    exact stops ▸ query_refused readable looked

omit readable in
theorem indicatorSteps_refused {selectors : Selectors} {timeline : Timeline NodeId} {bar : NodeId}
    (readable : (readSelector? selectors.phaseIndicator).isSome)
    (stops : .stop error ∈ page.indicatorSteps selectors timeline bar) : Refused page error := by
  rw [Page.indicatorSteps] at stops
  cases looked : page.query Element.isHtml bar selectors.phaseIndicator with
  | ok found => cases found <;> simp [looked] at stops
  | error other =>
    simp only [looked, List.mem_singleton, BindingStep.stop.injEq] at stops
    exact stops ▸ query_refused readable looked

theorem controlsSteps_refused {bar : NodeId} {parts : ControlsParts}
    (stops : .stop error ∈ page.controlsSteps settings.selectors bar parts) : Refused page error := by
  simp only [Page.controlsSteps, Page.listenAt, Page.listenFor, List.mem_append, or_assoc] at stops
  rcases stops with play | slow | fast | restart | progress | seek | label
  · simp at play
  · exact rateSteps_refused (readable _ (by simp [texts])) slow
  · exact rateSteps_refused (readable _ (by simp [texts])) fast
  · exact rateSteps_refused (readable _ (by simp [texts])) restart
  · simp at progress
  · simp at seek
  · simp at label

/-- A part that is looked for only while an element is bound cannot be found for the same
reason. -/
theorem stop_refused {steps : List BindingStep} (bound : page.wiring settings id element = .ok (.bound steps))
    (stops : .stop error ∈ steps) : Refused page error := by
  obtain ⟨kind, index⟩ := id
  cases kind with
  | comparison =>
    have shape := comparisonWiring_eq bound
    split at shape
    · cases shape
      simp [Page.comparisonSteps, Page.listenAt, Page.listenFor] at stops
    · cases shape
    · cases shape
  | controls =>
    have shape := controlsWiring_eq bound
    split at shape
    · cases shape
    · split at shape
      · cases shape
      · cases shape
        exact controlsSteps_refused readable stops
  | phase =>
    have shape := phaseWiring_eq bound
    split at shape
    · cases shape
    · split at shape
      · cases shape
      · cases shape
        rcases List.mem_append.mp stops with segment | indicator
        · obtain ⟨segment, -, reads⟩ := List.mem_map.mp segment
          rw [Page.segmentStep] at reads
          split at reads <;> cases reads
        · exact indicatorSteps_refused (readable _ (by simp [texts])) indicator
  | tooltip =>
    have shape := tooltipWiring_eq bound
    cases shape
    simp at stops

end Wirings

section Steps

variable {page : Page}

/-- The element of a tooltip refuses nothing. -/
theorem tip_refuses (tooltip : Tooltip) (operation : String) :
    (Page.tipElement tooltip).hasAttribute ("fail-" ++ operation) = false := by
  have other : "fail-" ++ operation ≠ "class" := by
    intro same
    simpa using congrArg String.toList same
  simp [Page.tipElement, Element.hasAttribute, Element.attribute?, beq_eq_false_iff_ne.mpr other]

theorem refuses_of_attributes {other : Page} {node : NodeId} {operation : String}
    (same : (other.element node).attributes = (page.element node).attributes) :
    other.refuses node operation = page.refuses node operation := by
  simp only [Page.refuses, Element.hasAttribute, Element.attribute?, same]

/-- No step of binding gives an element anything to refuse. -/
theorem easier_stepped (step : BindingStep) : Easier (stepped page step) page := by
  intro node operation refuses
  have kept (same : ((stepped page step).element node).attributes = (page.element node).attributes) :
      page.refuses node operation = true := (refuses_of_attributes same).symm.trans refuses
  cases step with
  | label target text =>
    apply kept
    by_cases here : node = target
    · subst here
      simp [stepped, Page.write]
    · simp [stepped, Page.write, here]
  | style target property value =>
    apply kept
    by_cases here : node = target
    · subst here
      simp [stepped, Page.setElement, Element.setStyle]
    · simp [stepped, Page.setElement, here]
  | attach trigger tooltip =>
    by_cases new : node = page.count
    · subst new
      have fresh : (stepped page (.attach trigger tooltip)).element page.count = Page.tipElement tooltip := by
        simp [stepped, Page.insert, Page.adopt]
      rw [Page.refuses, fresh, tip_refuses] at refuses
      cases refuses
    · apply kept
      simp [stepped, Page.insert, Page.adopt, new]
  | _ => exact kept rfl

theorem after?_easier : KeptByBinding (Easier · page) := by
  intro reached step next taken before node operation refuses
  rw [after?_eq taken] at refuses
  exact before node operation (easier_stepped step node operation refuses)

/-- A step is refused by its element, or it does nothing but stop the binding. -/
theorem after?_refused {step : BindingStep} {error : PageError} (failed : page.after? step = .error error) :
    Refused page error ∨ step = .stop error := by
  cases step with
  | listen target event handler =>
    simp only [Page.after?, Page.addListener?] at failed
    split at failed
    · next refuses =>
      cases failed
      exact .inl (.listen refuses)
    · cases failed
  | style target property value =>
    simp only [Page.after?, Page.setStyle?] at failed
    split at failed
    · next refuses =>
      cases failed
      exact .inl (.style refuses)
    · cases failed
  | attach trigger tooltip =>
    simp only [Page.after?] at failed
    split at failed
    · next refuses =>
      cases failed
      exact .inl (.append refuses)
    · cases failed
  | stop other =>
    cases failed
    exact .inr rfl
  | _ => cases failed

end Steps

section Binding

variable {page : Page} {binding : Binding} {settings : Settings}

/-- A binding that has come to a page no harder than the first, and that has only been stopped
by a refusal there. -/
structure Explained (page : Page) (binding : Binding) : Prop where
  easier : Easier binding.page page
  refused : ∀ error, binding.error = some error → Refused page error

theorem take_explained {step : BindingStep} (explained : Explained page binding)
    (stops : ∀ error, step = .stop error → Refused page error) : Explained page (binding.take step) where
  easier := take_keeps after?_easier step explained.easier
  refused := by
    intro error stopped
    rw [Binding.take] at stopped
    split at stopped
    · exact explained.refused error stopped
    · cases taken : binding.page.after? step with
      | ok next =>
        rw [taken] at stopped
        exact explained.refused error stopped
      | error other =>
        obtain rfl : other = error := by simpa [taken] using stopped
        -- What an element refuses now it refused from the start; a step that stops was made on
        -- the first page.
        rcases after?_refused taken with refused | stop
        · exact refused.easier explained.easier
        · exact stops other stop

theorem foldl_take_explained {steps : List BindingStep} (explained : Explained page binding)
    (stops : ∀ error, .stop error ∈ steps → Refused page error) : Explained page (steps.foldl Binding.take binding) := by
  induction steps generalizing binding with
  | nil => exact explained
  | cons step rest ih =>
    refine ih (take_explained explained ?_) fun error later => stops error (List.mem_cons_of_mem _ later)
    rintro error rfl
    exact stops error List.mem_cons_self

theorem record_error (id : ComponentId) (reason : Option SkipReason) : (binding.record id reason).error = binding.error := by
  cases reason <;> rw [Binding.record] <;> split <;> rfl

theorem Explained.record (explained : Explained page binding) (id : ComponentId) (reason : Option SkipReason) :
    Explained page (binding.record id reason) where
  easier := by
    rw [record_page]
    exact explained.easier
  refused := by
    rw [record_error]
    exact explained.refused

/-- A search that is refused ends the binding. -/
theorem Explained.stopped (explained : Explained page binding) {error : PageError} (refused : Refused binding.page error) :
    Explained page { binding with error := some error } where
  easier := explained.easier
  refused := by
    rintro other ⟨⟩
    exact refused.easier explained.easier

variable (readable : Readable settings.selectors)
include readable

theorem bindElement_explained (kind : ComponentKind) (place : NodeId × Nat) (explained : Explained page binding) :
    Explained page (binding.bindElement settings kind place) := by
  rw [Binding.bindElement]
  split
  · exact explained
  · dsimp only
    cases wired : binding.page.wiring settings ⟨kind, place.2⟩ place.1 with
    | error error => exact explained.stopped (wiring_refused readable wired)
    | ok wiring =>
      cases wiring with
      | skipped reason => exact explained.record _ _
      | bound steps =>
        refine (foldl_take_explained explained ?_).record _ _
        intro error stops
        exact (stop_refused readable wired stops).easier explained.easier

theorem foldl_bindElement_explained (kind : ComponentKind) (places : List (NodeId × Nat)) (explained : Explained page binding) :
    Explained page (places.foldl (Binding.bindElement settings kind) binding) := by
  induction places generalizing binding with
  | nil => exact explained
  | cons place rest ih => exact ih (bindElement_explained readable kind place explained)

theorem bindKind_explained (root : NodeId) (kind : ComponentKind) (explained : Explained page binding) :
    Explained page (binding.bindKind settings root kind) := by
  rw [Binding.bindKind]
  split
  · exact explained
  · cases looked : binding.page.queryAll root (settings.selectors.ofKind kind) with
    | error error =>
      refine explained.stopped (queryAll_refused (readable _ ?_) looked)
      cases kind <;> simp [texts, Selectors.ofKind]
    | ok elements => exact foldl_bindElement_explained readable kind _ explained

/-- Only a refusal stops a binding whose selectors can be read. -/
theorem bind_refused (root : NodeId) {error : PageError} (stopped : (page.bind root settings).error = some error) :
    Refused page error := by
  have start : Explained page { page } := ⟨fun _ _ refuses => refuses, nofun⟩
  have comparisons := bindKind_explained readable root .comparison start
  have controls := bindKind_explained readable root .controls comparisons
  have phases := bindKind_explained readable root .phase controls
  exact (bindKind_explained readable root .tooltip phases).refused error stopped

end Binding

end VideoPage.Proofs.BindingRefusals
