import VideoPage.Proofs.HungTooltips

/-! The elements that show tooltips. Binding gives each trigger one such element as its last
child, and what happens to the page later leaves it there, unless something is written into the
trigger: what is written replaces the children. -/

namespace VideoPage.Proofs.TooltipNodes
open BindingParts BindingSteps BindingTurns WrittenContents HungTooltips PageTree PageUpdates

def isTip (page : Page) (node : NodeId) : Bool := (page.element node).classes.contains Settings.tooltipClass

/-- The children that show tooltips. -/
def tips (page : Page) (node : NodeId) : List NodeId := (page.children node).filter (isTip page)

/-- A trigger has one child more that shows a tooltip, and this child tells the trigger's text. -/
def OneMore (before after : Page) (trigger : NodeId) : Prop :=
  (tips after trigger).length = (tips before trigger).length + 1 ∧
    ∃ tip ∈ tips after trigger, tip ∉ tips before trigger ∧
      (after.element tip).content = some (.text (textOf before trigger))

section Visits

variable {node : NodeId}

theorem isTip_congr {page other : Page} (same : (other.element node).attributes = (page.element node).attributes) :
    isTip other node = isTip page node := by
  simp only [isTip, Element.classes, Element.attribute?, same]

theorem isTip_of_tipped {page : Page} (tipped : Tipped page node) : isTip page node = true := by
  obtain ⟨-, looks⟩ := tipped
  simp only [tipAttributes, List.mem_cons, List.not_mem_nil, or_false] at looks
  rcases looks with looks | looks <;> simp only [isTip, Element.classes, Element.attribute?, looks] <;> decide

variable {markup : Markup} {root : NodeId} {settings : Settings} (finished : (markup.page.bind root settings).error = none)
  {index : Nat} {trigger : NodeId} (place : (found markup.page root settings .tooltip)[index]? = some trigger)
  (happenings : List Happening)
include finished

/-- An element of the page as it was written shows no tooltip and keeps its attributes. -/
theorem plain_old (inside : node < markup.page.count) :
    Plain (markup.page.bind root settings).page node (markup.page.element node).attributes := by
  rw [bind_page finished]
  refine ⟨?_, attributes_carriedOut _ _ inside⟩
  rw [tooltip_carriedOut _ _ inside, (page_untouched markup).2]
  rfl

include place

/-- The tooltips below a trigger, after whatever has happened. -/
theorem tips_passed :
    let bound := (markup.page.bind root settings).page
    tips (passed bound happenings) trigger =
      if trigger ∈ rewritten bound happenings then []
      else (if trigger ∈ (turns markup.page root settings).flatMap (labels settings) then [] else tips markup.page trigger)
        ++ [markup.page.count + index] := by
  intro bound
  have hung := hung_up finished place
  have old : ∀ child ∈ markup.page.children trigger, isTip (passed bound happenings) child = isTip markup.page child := by
    intro child member
    rw [passed_eq]
    exact isTip_congr (plain_foldl _ (plain_old finished ((planted_page markup).inside member))).2
  have new : isTip (passed bound happenings) (markup.page.count + index) = true := by
    rw [passed_eq]
    exact isTip_of_tipped (tipped_foldl _ hung.shows.tipped)
  rw [tips, passed_eq, children_foldl, ← passed_eq, ← rewritten]
  split
  · rfl
  · rw [hung.children, List.filter_append, List.filter_cons_of_pos new, List.filter_nil]
    congr 1
    split
    · rfl
    · exact List.filter_congr old

/-- Only icons are ever written into the element of a tooltip. -/
theorem content_passed :
    let bound := (markup.page.bind root settings).page
    ((passed bound happenings).element (markup.page.count + index)).content = some (.text (textOf markup.page trigger)) ↔
      markup.page.count + index ∉ rewritten bound happenings := by
  intro bound
  have hung := hung_up finished place
  rw [passed_eq, content_foldl, hung.shows.content]
  constructor
  · -- What was written last is no text: every label is older than the tooltip's own element.
    intro holds touched
    obtain ⟨content, member, written⟩ := contentAfter_of_mem touched
    rw [holds] at written
    cases written
    obtain ⟨target, listener, listens, own⟩ := label_of_changes ((mem_written _).mp member)
    exact hung.labels target listener listens own
  · exact contentAfter_of_not_mem

/-- Each trigger has one tooltip more than before for as long as nothing is written into the
trigger or into the tooltip's own element, and if binding has not taken others away. -/
theorem one_more_iff :
    let bound := (markup.page.bind root settings).page
    OneMore markup.page (passed bound happenings) trigger ↔
      trigger ∉ rewritten bound happenings ∧ markup.page.count + index ∉ rewritten bound happenings ∧
        (trigger ∈ (turns markup.page root settings).flatMap (labels settings) → tips markup.page trigger = []) := by
  intro bound
  have tips_eq := tips_passed finished place happenings
  have content := content_passed finished place happenings
  have new : markup.page.count + index ∉ tips markup.page trigger := by
    intro member
    have inside := (planted_page markup).inside (List.mem_filter.mp member).1
    exact absurd inside (Nat.not_lt_of_le (Nat.le_add_right _ _))
  constructor
  · rintro ⟨number, tip, member, fresh, told⟩
    rw [tips_eq] at number member
    by_cases touched : trigger ∈ rewritten bound happenings
    · rw [if_pos touched] at member
      cases member
    · rw [if_neg touched] at number member
      have shape : tip = markup.page.count + index := by
        refine List.mem_singleton.mp ((List.mem_append.mp member).resolve_left fun before => fresh ?_)
        split at before
        · cases before
        · exact before
      refine ⟨touched, content.mp (shape ▸ told), fun labelled => ?_⟩
      rw [if_pos labelled] at number
      exact List.length_eq_zero_iff.mp (Nat.succ.inj number).symm
  · rintro ⟨untouched, kept, unlabelled⟩
    have shape : tips (passed bound happenings) trigger = tips markup.page trigger ++ [markup.page.count + index] := by
      rw [tips_eq, if_neg untouched]
      split
      · next labelled => rw [unlabelled labelled]
      · rfl
    exact ⟨by simp [shape], _, by simp [shape], new, content.mpr kept⟩

end Visits

/-- A control bar whose play button has a tooltip. -/
def playTrigger : Markup :=
  .element { tag := "html" } ⟨.embedded false, {}⟩
    [.element { tag := "section", attributes := [("class", "timeline-video-card")] } ⟨.embedded false, {}⟩
      [.element { tag := "video" } ⟨.embedded false, {}⟩ [],
        .element { tag := "div", attributes := [("class", "video-player-controls")] } ⟨.embedded false, {}⟩
          [.element { tag := "button", attributes := [("class", "vpc-play"), ("data-tooltip", "Play")] } ⟨.embedded false, {}⟩ []]]]

/-- The button has its tooltip when it is bound, and a click takes it away. -/
theorem one_more_iff_play_button :
    let bound := (playTrigger.page.bind 0 {}).page
    let clicked := passed bound [.fire 4 "click"]
    (playTrigger.page.bind 0 {}).error = none ∧ (found playTrigger.page 0 {} .tooltip)[0]? = some 4 ∧
      OneMore playTrigger.page bound 4 ∧ ¬ OneMore playTrigger.page clicked 4 ∧ 4 ∈ clicked.below 0 ∧ clicked.children 4 = [] := by
  intro bound clicked
  obtain ⟨finished, place, touched⟩ : (playTrigger.page.bind 0 {}).error = none ∧
      (found playTrigger.page 0 {} .tooltip)[0]? = some 4 ∧ 4 ∈ rewritten bound [.fire 4 "click"] := by decide +kernel
  have hangs := (one_more_iff finished place []).mpr ⟨nofun, nofun, fun _ => rfl⟩
  have taken : ¬ OneMore playTrigger.page clicked 4 := by
    intro one
    exact ((one_more_iff finished place [.fire 4 "click"]).mp one).1 touched
  exact ⟨finished, place, hangs, taken, by decide +kernel⟩

end VideoPage.Proofs.TooltipNodes
