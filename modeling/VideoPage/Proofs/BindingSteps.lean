import VideoPage.Page.Binding
import VideoPage.Proofs.WrittenContents

/-! What the steps of binding do to a page. A step that is not refused leaves a page that can
be told without asking whether it is refused, and each aspect of that page depends on a few
kinds of steps only. -/

namespace VideoPage.Proofs.BindingSteps
open WrittenContents

/-- The page after a step that nothing refuses. -/
def stepped (page : Page) : BindingStep → Page
  | .listen target event handler =>
    { page with listeners := page.listeners.set target (page.listeners target ++ [⟨event, handler⟩]) }
  | .drive commands => { page with deck := (page.deck.perform commands).deck }
  | .report _ | .stop _ => page
  | .label target text => page.write target (.text text)
  | .style target property value => page.setElement target ((page.element target).setStyle property value)
  | .attach trigger tooltip =>
    { page.insert (some trigger) (Page.tipElement tooltip) ⟨.embedded false, {}⟩ with
      tooltip := page.tooltip.set page.count (some tooltip) }

def carriedOut (page : Page) (steps : List BindingStep) : Page := steps.foldl stepped page

section Taking

variable {page next : Page} {step : BindingStep} {binding : Binding}

theorem after?_eq (taken : page.after? step = .ok next) : next = stepped page step := by
  cases step with
  | listen target event handler =>
    simp only [Page.after?, Page.addListener?] at taken
    split at taken
    · cases taken
    · cases taken
      rfl
  | style target property value =>
    simp only [Page.after?, Page.setStyle?] at taken
    split at taken
    · cases taken
    · cases taken
      rfl
  | attach trigger tooltip =>
    simp only [Page.after?] at taken
    split at taken
    · cases taken
    · cases taken
      rfl
  | stop error => cases taken
  | _ =>
    cases taken
    rfl

theorem take_eq (going : (binding.take step).error = none) : binding.error = none ∧
    binding.take step = { binding with page := stepped binding.page step, events := binding.events ++ step.events } := by
  rw [Binding.take] at going ⊢
  split at going
  · next failed => simp [going] at failed
  · next fine =>
    rw [if_neg fine]
    refine ⟨by simpa using fine, ?_⟩
    cases taken : binding.page.after? step with
    | ok next => simp only [after?_eq taken]
    | error error => simp [taken] at going

/-- Steps that come to their end, one after the other. -/
theorem foldl_take_eq {steps : List BindingStep} (going : (steps.foldl Binding.take binding).error = none) :
    binding.error = none ∧ steps.foldl Binding.take binding =
      { binding with page := carriedOut binding.page steps, events := binding.events ++ steps.flatMap BindingStep.events } := by
  induction steps generalizing binding with
  | nil => exact ⟨going, by simp [carriedOut]⟩
  | cons step rest ih =>
    obtain ⟨started, remaining⟩ := ih going
    obtain ⟨fine, taken⟩ := take_eq started
    refine ⟨fine, remaining.trans ?_⟩
    simp [taken, carriedOut, List.append_assoc]

end Taking

section Aspects

/-- The listeners that a step adds, with their elements. -/
def listened : BindingStep → List (NodeId × Listener)
  | .listen target event handler => [(target, ⟨event, handler⟩)]
  | _ => []

/-- The contents that a step writes. -/
def labelled : BindingStep → Writes
  | .label target text => [(target, .text text)]
  | _ => []

/-- The commands that a step gives. -/
def driven : BindingStep → List (Command NodeId)
  | .drive commands => commands
  | _ => []

/-- The tooltips that a step adds, with their triggers. -/
def attached : BindingStep → List (NodeId × Tooltip)
  | .attach trigger tooltip => [(trigger, tooltip)]
  | _ => []

/-- The style properties that a step sets, with their elements and values. -/
def styled : BindingStep → List (NodeId × String × String)
  | .style target property value => [(target, property, value)]
  | _ => []

/-- The element that a step changes, apart from its listeners and its player. -/
def touched : BindingStep → List NodeId
  | .label target _ | .style target _ _ | .attach target _ => [target]
  | _ => []

/-- The listeners at one element. -/
def listenersAt (node : NodeId) (added : List (NodeId × Listener)) : List Listener :=
  (added.filter (·.1 = node)).map (·.2)

/-- The style of an element after some of the properties have been set. -/
def styleAfter (node : NodeId) (set : List (NodeId × String × String)) (style : List (String × String)) :
    List (String × String) :=
  (set.filter (·.1 = node)).foldl (fun style (_, property, value) => assign property value style) style

/-- The elements that tooltips add to an element, where the first of them all has this number. -/
def tipsAt (node first : NodeId) (added : List (NodeId × Tooltip)) : List NodeId :=
  ((added.zipIdx first).filter (·.1.1 = node)).map (·.2)

variable (page : Page) (step : BindingStep) {node : NodeId}

theorem listeners_stepped : (stepped page step).listeners node = page.listeners node ++ listenersAt node (listened step) := by
  cases step with
  | listen target event handler =>
    by_cases here : node = target
    · subst here
      simp [stepped, listened, listenersAt]
    · simp [stepped, listened, listenersAt, here, Ne.symm here]
  | _ => simp [stepped, listened, listenersAt, Page.write, Page.setElement, Page.insert, Page.adopt]

theorem count_stepped : (stepped page step).count = page.count + (attached step).length := by
  cases step <;> simp [stepped, attached, Page.write, Page.setElement, Page.insert, Page.adopt]

theorem count_le_stepped : page.count ≤ (stepped page step).count := by
  rw [count_stepped]
  exact Nat.le_add_right _ _

theorem children_stepped (untold : node ∉ (attached step).map Prod.fst) : (stepped page step).children node =
    if node ∈ (labelled step).map Prod.fst then [] else page.children node := by
  cases step with
  | label target text =>
    by_cases here : node = target
    · subst here
      simp [stepped, labelled, Page.write]
    · simp [stepped, labelled, Page.write, here]
  | attach trigger tooltip =>
    have other : node ≠ trigger := by simpa [attached] using untold
    simp [stepped, labelled, Page.insert, Page.adopt, other]
  | _ => rfl

variable (inside : node < page.count)
include inside

/-- A step changes an element in its content and its style only. The element that a step may add
comes after those that are there. -/
theorem element_stepped : (stepped page step).element node = { page.element node with
    content := contentAfter node (labelled step) (page.element node).content
    style := styleAfter node (styled step) (page.element node).style } := by
  have old : node ≠ page.count := Nat.ne_of_lt inside
  cases step with
  | label target text =>
    by_cases here : node = target
    · subst here
      simp [stepped, labelled, styled, contentAfter, styleAfter, Page.write]
    · simp [stepped, labelled, styled, contentAfter, styleAfter, Page.write, here, Ne.symm here]
  | style target property value =>
    by_cases here : node = target
    · subst here
      simp [stepped, labelled, styled, contentAfter, styleAfter, Page.setElement, Element.setStyle]
    · simp [stepped, labelled, styled, contentAfter, styleAfter, Page.setElement, here, Ne.symm here]
  | attach trigger tooltip => simp [stepped, labelled, styled, contentAfter, styleAfter, Page.insert, Page.adopt, old]
  | _ => rfl

theorem tooltip_stepped : (stepped page step).tooltip node = page.tooltip node := by
  have old : node ≠ page.count := Nat.ne_of_lt inside
  cases step with
  | attach trigger tooltip => simp [stepped, Page.insert, Page.adopt, old]
  | _ => rfl

omit inside in
theorem filter_all (parent : Option NodeId) : parent.filter (fun _ => true) = parent := by
  cases parent <;> rfl

/-- An element loses its parent when something is written into that parent. -/
theorem parent_stepped : (stepped page step).parent node = (page.parent node).filter (· ∉ (labelled step).map Prod.fst) := by
  have old : node ≠ page.count := Nat.ne_of_lt inside
  cases step with
  | label target text => simp [stepped, labelled, Page.write]
  | attach trigger tooltip => simp [stepped, labelled, Page.insert, Page.adopt, old, filter_all]
  | _ => simp [stepped, labelled, Page.setElement, filter_all]

theorem untouched_stepped (untouched : node ∉ touched step) :
    (stepped page step).element node = page.element node ∧ (stepped page step).children node = page.children node := by
  have old : node ≠ page.count := Nat.ne_of_lt inside
  cases step with
  | label target text =>
    have other : node ≠ target := by simpa [touched] using untouched
    simp [stepped, Page.write, other]
  | style target property value =>
    have other : node ≠ target := by simpa [touched] using untouched
    simp [stepped, Page.setElement, other]
  | attach trigger tooltip =>
    have other : node ≠ trigger := by simpa [touched] using untouched
    simp [stepped, Page.insert, Page.adopt, old, other]
  | _ => exact ⟨rfl, rfl⟩

end Aspects

section Runs

variable (page : Page) (steps : List BindingStep) {node : NodeId}

theorem carriedOut_append (first second : List BindingStep) :
    carriedOut page (first ++ second) = carriedOut (carriedOut page first) second := List.foldl_append

theorem count_carriedOut : (carriedOut page steps).count = page.count + (steps.flatMap attached).length := by
  induction steps generalizing page with
  | nil => rfl
  | cons step rest ih =>
    rw [carriedOut, List.foldl_cons]
    refine (ih (stepped page step)).trans ?_
    rw [count_stepped, List.flatMap_cons, List.length_append, Nat.add_assoc]

/-- Writing takes an element's children away. -/
theorem children_carriedOut (untold : node ∉ (steps.flatMap attached).map Prod.fst) : (carriedOut page steps).children node =
    if node ∈ (steps.flatMap labelled).map Prod.fst then [] else page.children node := by
  induction steps generalizing page with
  | nil => rfl
  | cons step rest ih =>
    simp only [List.flatMap_cons, List.map_append, List.mem_append, not_or] at untold ⊢
    rw [carriedOut, List.foldl_cons]
    refine (ih (stepped page step) untold.2).trans ?_
    rw [children_stepped page step untold.1]
    by_cases early : node ∈ (labelled step).map Prod.fst
    · simp only [early, true_or, if_true, ite_self]
    · simp only [early, false_or, if_false]

/-- What every step keeps of an element that is there from the start. -/
theorem carriedOut_keeps {α : Type} (aspect : Page → α)
    (kept : ∀ page : Page, ∀ step ∈ steps, node < page.count → aspect (stepped page step) = aspect page)
    (inside : node < page.count) : aspect (carriedOut page steps) = aspect page := by
  induction steps generalizing page with
  | nil => rfl
  | cons step rest ih =>
    rw [carriedOut, List.foldl_cons]
    refine (ih (stepped page step) (fun page other member => kept page other (List.mem_cons_of_mem _ member))
      (Nat.lt_of_lt_of_le inside (count_le_stepped page step))).trans ?_
    exact kept page step List.mem_cons_self inside

theorem listeners_carriedOut :
    (carriedOut page steps).listeners node = page.listeners node ++ listenersAt node (steps.flatMap listened) := by
  induction steps generalizing page with
  | nil => simp [carriedOut, listenersAt]
  | cons step rest ih =>
    rw [carriedOut, List.foldl_cons]
    refine (ih (stepped page step)).trans ?_
    simp [listeners_stepped, listenersAt, List.append_assoc]

theorem styleAfter_append (node : NodeId) (first second : List (NodeId × String × String)) (style : List (String × String)) :
    styleAfter node (first ++ second) style = styleAfter node second (styleAfter node first style) := by
  rw [styleAfter, List.filter_append, List.foldl_append]
  rfl

/-- Of an element only the content and the style have changed. -/
theorem element_carriedOut (inside : node < page.count) :
    (carriedOut page steps).element node = { page.element node with
      content := contentAfter node (steps.flatMap labelled) (page.element node).content
      style := styleAfter node (steps.flatMap styled) (page.element node).style } := by
  induction steps generalizing page with
  | nil => rfl
  | cons step rest ih =>
    rw [carriedOut, List.foldl_cons]
    refine (ih (stepped page step) (Nat.lt_of_lt_of_le inside (count_le_stepped page step))).trans ?_
    rw [element_stepped page step inside, List.flatMap_cons, List.flatMap_cons, contentAfter_append, styleAfter_append]

theorem content_carriedOut (inside : node < page.count) :
    ((carriedOut page steps).element node).content =
      contentAfter node (steps.flatMap labelled) (page.element node).content := by
  rw [element_carriedOut page steps inside]

theorem attributes_carriedOut (inside : node < page.count) :
    ((carriedOut page steps).element node).attributes = (page.element node).attributes := by
  rw [element_carriedOut page steps inside]

theorem tooltip_carriedOut (inside : node < page.count) : (carriedOut page steps).tooltip node = page.tooltip node :=
  carriedOut_keeps page steps (·.tooltip node) (fun page step _ inside => tooltip_stepped page step inside) inside

theorem parent_carriedOut (inside : node < page.count) : (carriedOut page steps).parent node =
    (page.parent node).filter (· ∉ (steps.flatMap labelled).map Prod.fst) := by
  induction steps generalizing page with
  | nil => simp [carriedOut, filter_all]
  | cons step rest ih =>
    rw [carriedOut, List.foldl_cons]
    refine (ih (stepped page step) (Nat.lt_of_lt_of_le inside (count_le_stepped page step))).trans ?_
    rw [parent_stepped page step inside, Option.filter_filter]
    simp only [List.flatMap_cons, List.map_append, List.mem_append, not_or, Bool.decide_and, Bool.and_comm]

theorem untouched_carriedOut (inside : node < page.count) (untouched : node ∉ steps.flatMap touched) :
    (carriedOut page steps).element node = page.element node ∧ (carriedOut page steps).children node = page.children node := by
  have each : ∀ page : Page, ∀ step ∈ steps, node < page.count →
      (stepped page step).element node = page.element node ∧ (stepped page step).children node = page.children node := by
    intro page step member inside
    exact untouched_stepped page step inside fun touches => untouched (List.mem_flatMap.mpr ⟨step, member, touches⟩)
  exact ⟨carriedOut_keeps page steps (·.element node) (fun page step member inside => (each page step member inside).1) inside,
    carriedOut_keeps page steps (·.children node) (fun page step member inside => (each page step member inside).2) inside⟩

/-- Steps that write nothing into elements: each keeps its children, and its tips come after them. -/
theorem children_attached (unlabelled : steps.flatMap labelled = []) :
    (carriedOut page steps).children node = page.children node ++ tipsAt node page.count (steps.flatMap attached) := by
  induction steps generalizing page with
  | nil => simp [carriedOut, tipsAt]
  | cons step rest ih =>
    rw [List.flatMap_cons, List.append_eq_nil_iff] at unlabelled
    rw [carriedOut, List.foldl_cons]
    refine (ih (stepped page step) unlabelled.2).trans ?_
    rw [count_stepped]
    cases step with
    | label => cases unlabelled.1
    | attach trigger tooltip =>
      by_cases here : node = trigger
      · subst here
        simp [stepped, attached, tipsAt, Page.insert, Page.adopt]
      · simp [stepped, attached, tipsAt, Page.insert, Page.adopt, here, Ne.symm here]
    | _ => simp [stepped, attached, Page.setElement]

/-- An added element shows its tooltip under its trigger, unless later steps change it. -/
theorem tip_carriedOut (unlabelled : steps.flatMap labelled = []) {index : Nat} {trigger : NodeId} {tooltip : Tooltip}
    (added : (steps.flatMap attached)[index]? = some (trigger, tooltip)) (untouched : page.count + index ∉ steps.flatMap touched) :
    (carriedOut page steps).element (page.count + index) = Page.tipElement tooltip ∧
      (carriedOut page steps).parent (page.count + index) = some trigger ∧
      (carriedOut page steps).tooltip (page.count + index) = some tooltip := by
  induction steps generalizing page index with
  | nil => simp at added
  | cons step rest ih =>
    rw [List.flatMap_cons, List.append_eq_nil_iff] at unlabelled
    rw [List.flatMap_cons, List.mem_append, not_or] at untouched
    rw [carriedOut, List.foldl_cons]
    cases step with
    | attach above shown =>
      cases index with
      | zero =>
        obtain ⟨rfl, rfl⟩ : above = trigger ∧ shown = tooltip := by simpa [attached] using added
        have inside : page.count < (stepped page (.attach above shown)).count := by simp [count_stepped, attached]
        obtain ⟨element, -⟩ := untouched_carriedOut (stepped page (.attach above shown)) rest inside untouched.2
        have parent := parent_carriedOut (stepped page (.attach above shown)) rest inside
        have kept := tooltip_carriedOut (stepped page (.attach above shown)) rest inside
        refine ⟨element.trans ?_, parent.trans ?_, kept.trans ?_⟩
        · simp [stepped, Page.insert, Page.adopt]
        · simp [stepped, Page.insert, Page.adopt, unlabelled.2]
        · simp [stepped]
      | succ index =>
        have later : (stepped page (.attach above shown)).count + index = page.count + (index + 1) := by
          rw [count_stepped]
          simp only [attached, List.length_singleton]
          omega
        rw [← later] at untouched ⊢
        exact ih _ unlabelled.2 (by simpa [attached] using added) untouched.2
    | label => cases unlabelled.1
    | _ => exact ih _ unlabelled.2 added untouched.2

end Runs

section Rates

variable {rate : Binary64} {node : NodeId}

/-- The players that a step sets the rate of. -/
def rated (step : BindingStep) : List NodeId :=
  (driven step).filterMap fun
    | .setRate place _ => some place
    | _ => none

end Rates

end VideoPage.Proofs.BindingSteps
