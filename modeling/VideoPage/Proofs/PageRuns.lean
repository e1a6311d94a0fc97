import VideoPage.Page.Visit

/-! What holds of a page all along: through its binding, through the handlers of an event,
and through a visit. A property only has to survive one step of each. -/

namespace VideoPage.Proofs.PageRuns

variable {holds : Page → Prop} {page : Page}

def KeptByBinding (holds : Page → Prop) : Prop :=
  ∀ page step next, page.after? step = .ok next → holds page → holds next

def KeptByHandlers (holds : Page → Prop) : Prop :=
  ∀ page handler, holds page → holds (Page.handle page handler).page

def KeptByOverwriting (holds : Page → Prop) : Prop :=
  ∀ page node change, holds page → holds (Page.overwrite page node change)

section Binding

variable {binding : Binding} {settings : Settings}

theorem take_keeps (kept : KeptByBinding holds) (step : BindingStep) (before : holds binding.page) :
    holds (binding.take step).page := by
  rw [Binding.take]
  split
  · exact before
  · split
    · next taken => exact kept _ _ _ taken before
    · exact before

theorem foldl_take_keeps (kept : KeptByBinding holds) (steps : List BindingStep) (before : holds binding.page) :
    holds (steps.foldl Binding.take binding).page := by
  induction steps generalizing binding with
  | nil => exact before
  | cons step rest ih => exact ih (take_keeps kept step before)

@[simp] theorem record_page (id : ComponentId) (reason : Option SkipReason) :
    (binding.record id reason).page = binding.page := by
  cases reason <;> rw [Binding.record] <;> split <;> rfl

theorem bindElement_keeps (kept : KeptByBinding holds) (kind : ComponentKind) (place : NodeId × Nat)
    (before : holds binding.page) : holds (binding.bindElement settings kind place).page := by
  rw [Binding.bindElement]
  split
  · exact before
  · dsimp only
    split
    · exact before
    · rwa [record_page]
    · rw [record_page]
      exact foldl_take_keeps kept _ before

theorem foldl_bindElement_keeps (kept : KeptByBinding holds) (kind : ComponentKind) (places : List (NodeId × Nat))
    (before : holds binding.page) : holds (places.foldl (Binding.bindElement settings kind) binding).page := by
  induction places generalizing binding with
  | nil => exact before
  | cons place rest ih => exact ih (bindElement_keeps kept kind place before)

theorem bindKind_keeps (kept : KeptByBinding holds) (root : NodeId) (kind : ComponentKind)
    (before : holds binding.page) : holds (binding.bindKind settings root kind).page := by
  rw [Binding.bindKind]
  split
  · exact before
  · split
    · exact before
    · exact foldl_bindElement_keeps kept kind _ before

/-- Through a whole binding, whether or not it comes to its end. -/
theorem bind_keeps (kept : KeptByBinding holds) (root : NodeId) (settings : Settings) (before : holds page) :
    holds (page.bind root settings).page := by
  rw [Page.bind]
  generalize start : ({ page } : Binding) = binding
  have before : holds binding.page := by rwa [← start]
  clear start
  induction Page.bindingOrder generalizing binding with
  | nil => exact before
  | cons kind rest ih => exact ih _ (bindKind_keeps kept root kind before)

end Binding

theorem handleAll_append (page : Page) (first second : List Handler) :
    (page.handleAll (first ++ second)).page = ((page.handleAll first).page.handleAll second).page := by
  induction first generalizing page with
  | nil => rfl
  | cons handler rest ih => exact ih (page.handle handler).page

theorem handleAll_keeps (kept : KeptByHandlers holds) (handlers : List Handler) (before : holds page) :
    holds (page.handleAll handlers).page := by
  induction handlers generalizing page with
  | nil => exact before
  | cons handler rest ih => exact ih (kept page handler before)

theorem visit_keeps (handlers : KeptByHandlers holds) (overwriting : KeptByOverwriting holds) (watcher : Watcher)
    (step : VisitStep) (before : holds page) : holds (page.visit watcher step).page := by
  cases step with
  | fire path event busy =>
    rw [Page.visit]
    split
    · exact before
    · exact handleAll_keeps handlers _ before
  | overwrite path change =>
    rw [Page.visit]
    split
    · exact before
    · exact overwriting _ _ _ before

/-- The page that a visit starts on and those that its steps leave behind. -/
def pagesOf (page : Page) (watcher : Watcher) (steps : List VisitStep) : List Page :=
  page :: (page.visitAll watcher steps).map (·.page)

theorem pagesOf_cons (watcher : Watcher) (step : VisitStep) (steps : List VisitStep) :
    pagesOf page watcher (step :: steps) = page :: pagesOf (page.visit watcher step).page watcher steps := rfl

theorem pagesOf_keeps (handlers : KeptByHandlers holds) (overwriting : KeptByOverwriting holds) (watcher : Watcher)
    (steps : List VisitStep) (before : holds page) : ∀ reached ∈ pagesOf page watcher steps, holds reached := by
  induction steps generalizing page with
  | nil =>
    intro reached member
    obtain rfl := List.mem_singleton.mp member
    exact before
  | cons step rest ih =>
    intro reached member
    rw [pagesOf_cons, List.mem_cons] at member
    rcases member with rfl | member
    · exact before
    · exact ih (visit_keeps handlers overwriting watcher step before) reached member

end VideoPage.Proofs.PageRuns
