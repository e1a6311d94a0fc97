import VideoPage.Page.Firing

/-! Contents that are written into the elements of a page. The content of every element is what
was last written there, and the content of an element that nothing was written into is what it
was. -/

namespace VideoPage.Proofs.WrittenContents

/-- Contents in the order in which they are written, each with its element. -/
abbrev Writes := List (NodeId × Content)

def textOn (label : Option NodeId) (text : String) : Writes := label.toList.map (·, .text text)

/-- What an element holds after writes, when it held some content or none before. -/
def contentAfter (node : NodeId) (writes : Writes) (before : Option Content) : Option Content :=
  writes.foldl (fun content write => if write.1 = node then some write.2 else content) before

variable {node : NodeId} {before : Option Content}

@[simp] theorem contentAfter_nil : contentAfter node [] before = before := rfl

@[simp] theorem contentAfter_append (first second : Writes) :
    contentAfter node (first ++ second) before = contentAfter node second (contentAfter node first before) :=
  List.foldl_append

theorem contentAfter_of_not_mem {writes : Writes} (untouched : node ∉ writes.map Prod.fst) :
    contentAfter node writes before = before := by
  induction writes generalizing before with
  | nil => rfl
  | cons write rest ih =>
    rw [List.map_cons, List.mem_cons, not_or] at untouched
    rw [contentAfter, List.foldl_cons, if_neg (Ne.symm untouched.1)]
    exact ih untouched.2

/-- An element that is written into holds one of the contents that are written there. -/
theorem contentAfter_of_mem {writes : Writes} (touched : node ∈ writes.map Prod.fst) :
    ∃ content, (node, content) ∈ writes ∧ contentAfter node writes before = some content := by
  induction writes generalizing before with
  | nil => cases touched
  | cons write rest ih =>
    by_cases again : node ∈ rest.map Prod.fst
    · obtain ⟨content, member, holds⟩ := @ih (if write.1 = node then some write.2 else before) again
      exact ⟨content, List.mem_cons_of_mem _ member, holds⟩
    · obtain rfl : node = write.1 := by simpa [again] using touched
      refine ⟨write.2, List.mem_cons_self, ?_⟩
      rw [contentAfter, List.foldl_cons, if_pos rfl]
      exact contentAfter_of_not_mem again

section Elements

variable (page : Page) (node : NodeId)

theorem content_write (target : NodeId) (content : Content) :
    ((page.write target content).element node).content =
      if target = node then some content else (page.element node).content := by
  by_cases same : target = node
  · subst same
    simp [Page.write]
  · simp [Page.write, same, Table.set_other _ _ (Ne.symm same)]

theorem content_setElement (target : NodeId) {element : Element} (same : element.content = (page.element target).content) :
    ((page.setElement target element).element node).content = (page.element node).content := by
  by_cases here : node = target
  · subst here
    simpa [Page.setElement] using same
  · simp [Page.setElement, here]

theorem content_setStyle (target : NodeId) (property value : String) :
    ((page.setStyle target property value).element node).content = (page.element node).content := by
  rw [Page.setStyle, Page.setStyle?]
  cases page.refuses target "style" with
  | true => rfl
  | false => exact content_setElement page node target rfl

theorem content_hover (tip : NodeId) (inside : Bool) :
    ((page.hover tip inside).page.element node).content = (page.element node).content := by
  rw [Page.hover]
  split
  · rfl
  · exact content_setElement page node tip rfl

end Elements

end VideoPage.Proofs.WrittenContents
