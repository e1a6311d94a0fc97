import VideoPage.Proofs.BindingSteps
import VideoPage.Proofs.FoundParts

/-! A binding as a row of turns. Kind by kind, each element that the page holds as the kind
begins has its turn, in document order and on the page that the turns before it have left. A
binding that comes to its end is told by its turns: its page, its events and its report. -/

namespace VideoPage.Proofs.BindingTurns
open BindingSteps

/-- An element's turn to be bound, with the page as it is then. -/
structure Turn where
  page : Page
  id : ComponentId
  element : NodeId

namespace Turn

variable (settings : Settings) (turn : Turn)

def wiring : Except PageError Wiring := turn.page.wiring settings turn.id turn.element

/-- Why the element is left alone, if it is. -/
def skipped? : Option SkipReason :=
  match turn.wiring settings with
  | .ok (.skipped reason) => some reason
  | _ => none

def steps : List BindingStep :=
  match turn.wiring settings with
  | .ok (.bound steps) => steps
  | _ => []

/-- The page after the turn. -/
def next : Page := carriedOut turn.page (turn.steps settings)

def events : List Event :=
  match turn.skipped? settings with
  | some reason => [.skipped turn.id reason]
  | none => (turn.steps settings).flatMap BindingStep.events ++ [.bound turn.id]

def count (report : BindReport) (turn : Turn) : BindReport :=
  report.update turn.id.kind fun tally =>
    match turn.skipped? settings with
    | some _ => { tally with skipped := tally.skipped + 1 }
    | none => { tally with bound := tally.bound + 1 }

end Turn

variable {settings : Settings} {root : NodeId} {page : Page}

/-- The turns of elements of one kind. -/
def turnsFrom (settings : Settings) (kind : ComponentKind) : Page → List (NodeId × Nat) → List Turn
  | _, [] => []
  | page, (element, index) :: rest =>
    let turn : Turn := ⟨page, ⟨kind, index⟩, element⟩
    turn :: turnsFrom settings kind (turn.next settings) rest

/-- The page as the turns of a kind begin. -/
def pageBefore (page : Page) (root : NodeId) (settings : Settings) (kind : ComponentKind) : Page :=
  ((Page.bindingOrder.takeWhile (· ≠ kind)).foldl (Binding.bindKind settings root) { page }).page

/-- The elements of a kind that the page holds then, in document order. -/
def found (page : Page) (root : NodeId) (settings : Settings) (kind : ComponentKind) : List NodeId :=
  FoundParts.matching (pageBefore page root settings kind) root (settings.selectors.ofKind kind)

def turnsOf (page : Page) (root : NodeId) (settings : Settings) (kind : ComponentKind) : List Turn :=
  turnsFrom settings kind (pageBefore page root settings kind) (found page root settings kind).zipIdx

/-- All turns of a binding. -/
def turns (page : Page) (root : NodeId) (settings : Settings) : List Turn :=
  Page.bindingOrder.flatMap (turnsOf page root settings)

/-- The turns before those of the tooltips, which alone add elements to a page. -/
def earlier (page : Page) (root : NodeId) (settings : Settings) : List Turn :=
  turnsOf page root settings .comparison ++ turnsOf page root settings .controls ++ turnsOf page root settings .phase

theorem turns_eq (page : Page) (root : NodeId) (settings : Settings) :
    turns page root settings = earlier page root settings ++ turnsOf page root settings .tooltip := by
  simp [turns, earlier, Page.bindingOrder]

theorem turnsFrom_append (kind : ComponentKind) (page : Page) (first second : List (NodeId × Nat)) :
    turnsFrom settings kind page (first ++ second) = turnsFrom settings kind page first ++
      turnsFrom settings kind (carriedOut page ((turnsFrom settings kind page first).flatMap (·.steps settings))) second := by
  induction first generalizing page with
  | nil => rfl
  | cons place rest ih =>
    simp only [List.cons_append, turnsFrom, ih, List.flatMap_cons, carriedOut_append]
    rfl

section Places

variable {kind : ComponentKind} {places : List (NodeId × Nat)}

theorem places_turnsFrom (kind : ComponentKind) (page : Page) (places : List (NodeId × Nat)) :
    (turnsFrom settings kind page places).map (fun turn => (turn.id, turn.element)) =
      places.map fun place => (⟨kind, place.2⟩, place.1) := by
  induction places generalizing page with
  | nil => rfl
  | cons place rest ih => simp [turnsFrom, ih]

theorem elements_turnsFrom : (turnsFrom settings kind page places).map (·.element) = places.map Prod.fst := by
  have placed := congrArg (List.map Prod.snd) (@places_turnsFrom settings kind page places)
  simpa [Function.comp_def] using placed

theorem kind_of_turnsFrom {turn : Turn} (member : turn ∈ turnsFrom settings kind page places) : turn.id.kind = kind := by
  have placed : (turn.id, turn.element) ∈ places.map fun place => ((⟨kind, place.2⟩ : ComponentId), place.1) := by
    rw [← places_turnsFrom kind page places]
    exact List.mem_map_of_mem member
  obtain ⟨place, -, same⟩ := List.mem_map.mp placed
  exact (congrArg (·.1.kind) same).symm

end Places

/-- Each turn comes on the page that the turns before it have left. -/
def Consecutive (settings : Settings) : Page → List Turn → Prop
  | _, [] => True
  | page, turn :: rest => turn.page = page ∧ Consecutive settings (turn.next settings) rest

/-- The turns that lie between two states of a binding that goes on. -/
structure Advances (settings : Settings) (before : Binding) (turns : List Turn) (after : Binding) : Prop where
  going : before.error = none
  wired : ∀ turn ∈ turns, ∃ wiring, turn.wiring settings = .ok wiring
  consecutive : Consecutive settings before.page turns
  page : after.page = carriedOut before.page (turns.flatMap (·.steps settings))
  events : after.events = before.events ++ turns.flatMap (·.events settings)
  report : after.report = turns.foldl (Turn.count settings) before.report

theorem consecutive_append {first second : List Turn} :
    Consecutive settings page (first ++ second) ↔ Consecutive settings page first ∧
      Consecutive settings (carriedOut page (first.flatMap (·.steps settings))) second := by
  induction first generalizing page with
  | nil => simp [Consecutive, carriedOut]
  | cons turn rest ih =>
    simp only [List.cons_append, Consecutive, List.flatMap_cons, carriedOut_append, ih, and_assoc]
    refine and_congr_right ?_
    rintro rfl
    rfl

/-- The page of a turn, told by the turns before it. -/
theorem Consecutive.page_eq {first rest : List Turn} {turn : Turn}
    (consecutive : Consecutive settings page (first ++ turn :: rest)) :
    turn.page = carriedOut page (first.flatMap (·.steps settings)) :=
  (consecutive_append.mp consecutive).2.1

namespace Advances

variable {before between after : Binding} {first second : List Turn}

theorem refl (going : before.error = none) : Advances settings before [] before where
  going := going
  wired := nofun
  consecutive := trivial
  page := rfl
  events := by simp
  report := rfl

theorem trans (one : Advances settings before first between) (two : Advances settings between second after) :
    Advances settings before (first ++ second) after where
  going := one.going
  wired := by
    intro turn member
    exact (List.mem_append.mp member).elim (one.wired turn) (two.wired turn)
  consecutive := consecutive_append.mpr ⟨one.consecutive, one.page ▸ two.consecutive⟩
  page := by rw [two.page, one.page, List.flatMap_append, carriedOut_append]
  events := by rw [two.events, one.events, List.flatMap_append, List.append_assoc]
  report := by rw [two.report, one.report, List.foldl_append]

end Advances

variable {binding : Binding} {kind : ComponentKind}

theorem bindElement_advances {place : NodeId × Nat} (going : (binding.bindElement settings kind place).error = none) :
    Advances settings binding [⟨binding.page, ⟨kind, place.2⟩, place.1⟩] (binding.bindElement settings kind place) := by
  rw [Binding.bindElement] at going ⊢
  split at going
  · next failed => simp [going] at failed
  · next fine =>
    rw [if_neg fine]
    have fine : binding.error = none := by simpa using fine
    dsimp only at going ⊢
    cases wired : binding.page.wiring settings ⟨kind, place.2⟩ place.1 with
    | error error => simp [wired] at going
    | ok wiring =>
      cases wiring with
      | skipped reason =>
        constructor
        · exact fine
        all_goals
          simp [Turn.wiring, Turn.steps, Turn.events, Turn.skipped?, Turn.count, Consecutive, carriedOut, Binding.record,
            wired, fine]
      | bound steps =>
        simp only [wired] at going
        have taken : (steps.foldl Binding.take binding).error = none := by
          rw [Binding.record] at going
          split at going
          · exact going
          · exact going
        obtain ⟨-, taken⟩ := foldl_take_eq taken
        constructor
        · exact fine
        all_goals
          simp [Turn.wiring, Turn.steps, Turn.events, Turn.skipped?, Turn.count, Consecutive, Binding.record,
            wired, fine, taken]

theorem foldl_bindElement_advances {places : List (NodeId × Nat)}
    (going : (places.foldl (Binding.bindElement settings kind) binding).error = none) :
    Advances settings binding (turnsFrom settings kind binding.page places)
      (places.foldl (Binding.bindElement settings kind) binding) := by
  induction places generalizing binding with
  | nil => exact .refl going
  | cons place rest ih =>
    have later := ih going
    have first := bindElement_advances later.going
    have left : (binding.bindElement settings kind place).page =
        Turn.next settings ⟨binding.page, ⟨kind, place.2⟩, place.1⟩ := by simpa [Turn.next] using first.page
    rw [left] at later
    exact first.trans later

theorem bindKind_advances (going : (binding.bindKind settings root kind).error = none) :
    binding.page.queryAll root (settings.selectors.ofKind kind) =
        .ok (FoundParts.matching binding.page root (settings.selectors.ofKind kind)) ∧
      Advances settings binding
        (turnsFrom settings kind binding.page (FoundParts.matching binding.page root (settings.selectors.ofKind kind)).zipIdx)
        (binding.bindKind settings root kind) := by
  rw [Binding.bindKind] at going ⊢
  split at going
  · next failed => simp [going] at failed
  · next fine =>
    rw [if_neg fine]
    cases looked : binding.page.queryAll root (settings.selectors.ofKind kind) with
    | error error => simp [looked] at going
    | ok elements =>
      simp only [looked] at going
      simp only [FoundParts.matching, looked, true_and]
      exact foldl_bindElement_advances going

/-- A binding that comes to its end goes through its turns, and could look for every kind. -/
theorem bind_advances (going : (page.bind root settings).error = none) :
    (∀ kind, (pageBefore page root settings kind).queryAll root (settings.selectors.ofKind kind) =
        .ok (found page root settings kind)) ∧
      pageBefore page root settings .tooltip = carriedOut page ((earlier page root settings).flatMap (·.steps settings)) ∧
      Advances settings { page } (turns page root settings) (page.bind root settings) := by
  have tooltips := bindKind_advances going
  have phases := bindKind_advances tooltips.2.going
  have controls := bindKind_advances phases.2.going
  have comparisons := bindKind_advances controls.2.going
  have before := (comparisons.2.trans controls.2).trans phases.2
  refine ⟨?_, before.page, ?_⟩
  · intro kind
    cases kind with
    | comparison => exact comparisons.1
    | controls => exact controls.1
    | phase => exact phases.1
    | tooltip => exact tooltips.1
  · rw [turns_eq]
    exact before.trans tooltips.2

theorem bind_page (going : (page.bind root settings).error = none) :
    (page.bind root settings).page = carriedOut page ((turns page root settings).flatMap (·.steps settings)) :=
  (bind_advances going).2.2.page

end VideoPage.Proofs.BindingTurns
