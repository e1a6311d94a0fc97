import Mathlib.Data.List.Nodup
import Mathlib.Logic.Relation
import VideoPage.Page.Markup
import VideoPage.Proofs.BindingSteps
import VideoPage.Proofs.FoundParts

/-! The tree of a page. Every element comes into being after its parent and is the child of that
parent alone, so what lies below an element can be listed without meeting anything twice. -/

namespace VideoPage.Proofs.PageTree
open BindingSteps FoundParts

/-- A page whose elements form a tree, each later than its parent. -/
structure Planted (page : Page) : Prop where
  inside : ∀ {above child}, child ∈ page.children above → child < page.count
  owned : ∀ {above child}, child ∈ page.children above → page.parent child = some above
  later : ∀ {above child}, page.parent child = some above → above < child
  distinct : ∀ above, (page.children above).Nodup

namespace Planted

variable {page : Page}

theorem empty : Planted .empty where
  inside := nofun
  owned := nofun
  later := nofun
  distinct _ := List.nodup_nil

theorem write (planted : Planted page) (node : NodeId) (content : Content) : Planted (page.write node content) := by
  have kept {above child : NodeId} (member : child ∈ (page.write node content).children above) :
      above ≠ node ∧ child ∈ page.children above := by
    by_cases here : above = node
    · subst here
      simp [Page.write] at member
    · exact ⟨here, by simpa [Page.write, here] using member⟩
  constructor
  · intro above child member
    exact planted.inside (kept member).2
  · intro above child member
    obtain ⟨other, member⟩ := kept member
    simp [Page.write, planted.owned member, other]
  · intro above child owner
    have owner : (page.parent child).filter (· ≠ node) = some above := owner
    exact planted.later (Option.filter_eq_some_iff.mp owner).1
  · intro above
    by_cases here : above = node
    · subst here
      simp [Page.write]
    · simpa [Page.write, here] using planted.distinct above

theorem insert (planted : Planted page) {parent : Option NodeId} (above : ∀ node ∈ parent, node < page.count)
    (element : Element) (player : Player) : Planted (page.insert parent element player) := by
  have children_eq (node : NodeId) : (page.insert parent element player).children node =
      page.children node ++ if parent = some node then [page.count] else [] := by
    cases parent with
    | none => simp [Page.insert]
    | some top =>
      by_cases here : node = top
      · subst here
        simp [Page.insert, Page.adopt]
      · simp [Page.insert, Page.adopt, here, Ne.symm here]
  have parent_eq (node : NodeId) : (page.insert parent element player).parent node =
      if node = page.count then parent else page.parent node := by
    cases parent <;> rfl
  have count_eq : (page.insert parent element player).count = page.count + 1 := by cases parent <;> rfl
  have cases_of {node child : NodeId} (member : child ∈ (page.insert parent element player).children node) :
      child ∈ page.children node ∨ child = page.count ∧ parent = some node := by
    rw [children_eq, List.mem_append] at member
    refine member.imp_right fun new => ?_
    split at new
    · next under => exact ⟨List.mem_singleton.mp new, under⟩
    · cases new
  constructor
  · intro node child member
    rw [count_eq]
    rcases cases_of member with old | ⟨rfl, -⟩
    · exact Nat.lt_succ_of_lt (planted.inside old)
    · exact Nat.lt_succ_self _
  · intro node child member
    rw [parent_eq]
    rcases cases_of member with old | ⟨rfl, under⟩
    · rw [if_neg (Nat.ne_of_lt (planted.inside old)), planted.owned old]
    · rw [if_pos rfl, under]
  · intro node child owner
    rw [parent_eq] at owner
    split at owner
    · next new => exact new ▸ above node owner
    · exact planted.later owner
  · intro node
    rw [children_eq]
    split
    · refine List.nodup_append.mpr ⟨planted.distinct node, List.nodup_singleton _, ?_⟩
      rintro child member other new rfl
      exact Nat.lt_irrefl _ (List.mem_singleton.mp new ▸ planted.inside member)
    · simpa using planted.distinct node

end Planted

section Markup

/-- A property of pages that survives the insertion of an element. -/
def KeptByInsertion (holds : Page → Prop) : Prop :=
  ∀ (page : Page) (parent : Option NodeId) (element : Element) (player : Player),
    holds page → (∀ node ∈ parent, node < page.count) → holds (page.insert parent element player)

mutual

theorem insert_keeps {holds : Page → Prop} (kept : KeptByInsertion holds) {page : Page} (before : holds page)
    {parent : Option NodeId} (above : ∀ node ∈ parent, node < page.count) (markup : Markup) :
    holds (markup.insert page parent) ∧ page.count ≤ (markup.insert page parent).count :=
  match markup with
  | .element here player children => by
    have count_eq : (page.insert parent here player).count = page.count + 1 := by cases parent <;> rfl
    have root : page.count < (page.insert parent here player).count := by omega
    obtain ⟨below, grows⟩ := insertAll_keeps kept (kept page parent here player before above) root children
    rw [Markup.insert]
    exact ⟨below, by omega⟩

theorem insertAll_keeps {holds : Page → Prop} (kept : KeptByInsertion holds) {page : Page} (before : holds page)
    {parent : NodeId} (above : parent < page.count) (children : List Markup) :
    holds (Markup.insertAll page parent children) ∧ page.count ≤ (Markup.insertAll page parent children).count :=
  match children with
  | [] => by
    rw [Markup.insertAll]
    exact ⟨before, Nat.le_refl _⟩
  | child :: rest => by
    have inside : ∀ node ∈ some parent, node < page.count := by
      rintro node ⟨⟩
      exact above
    obtain ⟨first, grows⟩ := insert_keeps kept before inside child
    obtain ⟨all, more⟩ := insertAll_keeps kept first (Nat.lt_of_lt_of_le above grows) rest
    rw [Markup.insertAll]
    exact ⟨all, Nat.le_trans grows more⟩

end

/-- What survives insertion holds of every page as it is written. -/
theorem page_keeps {holds : Page → Prop} (kept : KeptByInsertion holds) (start : holds .empty) (markup : Markup) :
    holds markup.page :=
  (insert_keeps kept start (by simp) markup).1

theorem planted_page (markup : Markup) : Planted markup.page :=
  page_keeps (fun _ _ element player planted above => planted.insert above element player) .empty markup

/-- Nothing listens on a page as it is written, and no element shows a tooltip of its own. -/
theorem page_untouched (markup : Markup) :
    markup.page.listeners = Page.empty.listeners ∧ markup.page.tooltip = Page.empty.tooltip := by
  refine @page_keeps (fun page => page.listeners = Page.empty.listeners ∧ page.tooltip = Page.empty.tooltip)
    ?_ ⟨rfl, rfl⟩ markup
  intro page parent element player same _
  cases parent <;> exact same

end Markup

namespace Planted

variable {page : Page} (planted : Planted page)
include planted

/-- Going up from child to parent. -/
def Up (page : Page) (child above : NodeId) : Prop := page.parent child = some above

theorem le_of_up {child above : NodeId} (up : Relation.ReflTransGen (Up page) child above) : above ≤ child := by
  induction up with
  | refl => exact Nat.le_refl _
  | tail _ step ih => exact Nat.le_trans (Nat.le_of_lt (planted.later step)) ih

theorem up_of_mem {depth : Nat} {node other : NodeId} (member : other ∈ node :: page.belowWithin depth node) :
    Relation.ReflTransGen (Up page) other node := by
  induction depth generalizing node with
  | zero =>
    obtain rfl := List.mem_singleton.mp member
    exact .refl
  | succ depth ih =>
    rcases List.mem_cons.mp member with rfl | member
    · exact .refl
    · obtain ⟨child, under, member⟩ := List.mem_flatMap.mp member
      exact (ih member).tail (planted.owned under)

theorem lt_of_mem {depth : Nat} {node other : NodeId} (member : other ∈ page.belowWithin depth node) : node < other := by
  cases depth with
  | zero => cases member
  | succ depth =>
    obtain ⟨child, under, member⟩ := List.mem_flatMap.mp member
    exact Nat.lt_of_lt_of_le (planted.later (planted.owned under)) (planted.le_of_up (planted.up_of_mem member))

theorem lt_count_of_mem {depth : Nat} {node other : NodeId} (member : other ∈ page.belowWithin depth node) :
    other < page.count := by
  induction depth generalizing node with
  | zero => cases member
  | succ depth ih =>
    rw [Page.belowWithin, List.mem_flatMap] at member
    obtain ⟨child, under, member⟩ := member
    rcases List.mem_cons.mp member with rfl | member
    · exact planted.inside under
    · exact ih member

/-- Two children of one element have nothing below them in common, as one of them would be above
the other. -/
theorem nodup_belowWithin (depth : Nat) (node : NodeId) : (page.belowWithin depth node).Nodup := by
  induction depth generalizing node with
  | zero => exact List.nodup_nil
  | succ depth ih =>
    rw [Page.belowWithin, List.nodup_flatMap]
    refine ⟨fun child _ => List.nodup_cons.mpr ⟨fun member => Nat.lt_irrefl _ (planted.lt_of_mem member), ih child⟩, ?_⟩
    -- The way up from a child of `node` goes through `node`, which is above no child of its own.
    have apart (first second : NodeId) (under : first ∈ page.children node) (also : second ∈ page.children node)
        (up : Relation.ReflTransGen (Up page) first second) : first = second := by
      rcases Relation.ReflTransGen.cases_head up with same | ⟨above, step, rest⟩
      · exact same
      · obtain rfl : above = node := Option.some.inj ((Eq.symm step).trans (planted.owned under))
        exact absurd (planted.le_of_up rest) (Nat.not_le_of_lt (planted.later (planted.owned also)))
    refine (planted.distinct node).pairwise_of_forall_ne ?_
    intro first under second also different
    change List.Disjoint (first :: page.belowWithin depth first) (second :: page.belowWithin depth second)
    rw [List.disjoint_left]
    intro other one two
    have unique : Relator.RightUnique (Up page) := fun child a b one two => Option.some.inj (one.symm.trans two)
    rcases Relation.ReflTransGen.total_of_right_unique unique (planted.up_of_mem one) (planted.up_of_mem two) with up | up
    · exact different (apart first second under also up)
    · exact different (apart second first also under up).symm

theorem nodup_matching (scope : NodeId) (selector : String) : (matching page scope selector).Nodup := by
  rw [matching, Page.queryAll]
  cases page.refuses scope "query" with
  | true => exact List.nodup_nil
  | false =>
    cases readSelector? selector with
    | none => exact List.nodup_nil
    | some compounds => exact (planted.nodup_belowWithin _ _).filter _

theorem lt_count_of_matching {scope : NodeId} {selector : String} {node : NodeId} (member : node ∈ matching page scope selector) :
    node < page.count := by
  rw [matching, Page.queryAll] at member
  cases refuses : page.refuses scope "query" with
  | true => simp [refuses] at member
  | false =>
    cases read : readSelector? selector with
    | none => simp [refuses, read] at member
    | some compounds =>
      simp only [refuses, read] at member
      exact planted.lt_count_of_mem (List.mem_filter.mp member).1

theorem lt_count_of_part {kind : Element → Bool} {scope : NodeId} {selector : String} {node : NodeId}
    (found : part page kind scope selector = some node) : node < page.count := by
  have member : node ∈ matching page scope selector := by
    rw [part, Page.query] at found
    rw [matching]
    cases looked : page.queryAll scope selector with
    | error error => simp [looked, Except.map] at found
    | ok all =>
      simp only [looked, Except.map] at found
      exact List.mem_of_head? (Option.filter_eq_some_iff.mp found).1
  exact planted.lt_count_of_matching member

end Planted

section Steps

variable {page : Page}

/-- Only the tree itself matters. -/
theorem Planted.of_same {other : Page} (planted : Planted page) (count : other.count = page.count)
    (parent : other.parent = page.parent) (children : other.children = page.children) : Planted other where
  inside := by
    rw [count, children]
    exact planted.inside
  owned := by
    rw [parent, children]
    exact planted.owned
  later := by
    rw [parent]
    exact planted.later
  distinct := by
    rw [children]
    exact planted.distinct

theorem planted_stepped (planted : Planted page) {step : BindingStep}
    (inside : ∀ trigger ∈ (attached step).map Prod.fst, trigger < page.count) : Planted (stepped page step) := by
  cases step with
  | label target text => exact planted.write target (.text text)
  | attach trigger tooltip =>
    have above : ∀ node ∈ some trigger, node < page.count := by
      rintro node ⟨⟩
      exact inside trigger (by simp [attached])
    exact (planted.insert above (Page.tipElement tooltip) ⟨.embedded false, {}⟩).of_same rfl rfl rfl
  | _ => exact planted.of_same rfl rfl rfl

theorem planted_carriedOut (planted : Planted page) {steps : List BindingStep}
    (inside : ∀ trigger ∈ (steps.flatMap attached).map Prod.fst, trigger < page.count) : Planted (carriedOut page steps) := by
  induction steps generalizing page with
  | nil => exact planted
  | cons step rest ih =>
    simp only [List.flatMap_cons, List.map_append, List.mem_append] at inside
    refine ih (planted_stepped planted fun trigger own => inside trigger (.inl own)) ?_
    intro trigger later
    exact Nat.lt_of_lt_of_le (inside trigger (.inr later)) (count_le_stepped page step)

end Steps

end VideoPage.Proofs.PageTree
