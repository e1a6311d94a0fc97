import VideoPage.Proofs.VideoTracks

/-! Steps of a session that have nothing to do with each other. A step reads and changes the videos
that it involves and the component that it asks. Two steps that share neither can be taken in
either order, even when one of them breaks off half-way. -/

namespace VideoPage.Proofs.IndependentSteps
open ComponentPlans Session VideoTracks

variable {ι : Type} [DecidableEq ι]

/-- The videos that a step involves: those of the component that it asks, or the one that it is
about. -/
def involved (components : List (Component ι)) : SessionStep ι → List ι
  | .ask position _ => components[position]?.toList.flatMap videos
  | .overwrite place _ | .advance place _ | .run place _ => [place]
  | .report _ | .clear => []

/-- The position of the component that a step asks. -/
def asked : SessionStep ι → Option Nat
  | .ask position _ => some position
  | _ => none

structure Independent (components : List (Component ι)) (first second : SessionStep ι) : Prop where
  videos : ∀ video ∈ involved components first, video ∉ involved components second
  components : ∀ position ∈ asked first, position ∉ asked second

omit [DecidableEq ι] in
theorem Independent.symm {components : List (Component ι)} {first second : SessionStep ι}
    (independent : Independent components first second) : Independent components second first where
  videos := fun video later sooner => independent.videos video sooner later
  components := fun position later sooner => independent.components position sooner later

variable {deck other : Deck ι} {components others : List (Component ι)} {step : SessionStep ι}

section Elsewhere

theorem deck_elsewhere {video : ι} (away : video ∉ involved components step) :
    (effect deck components step).deck video = deck video := by
  cases step with
  | ask position verb =>
    cases there : components[position]? with
    | none => simp only [effect, ask, there]
    | some component =>
      have outside : video ∉ videos component := by simpa [involved, there] using away
      simp only [effect, ask, there]
      apply perform_elsewhere
      intro command member here
      exact outside ((plan_gives component verb).places command member video here)
  | overwrite place change | advance place seconds | run place ticks =>
    apply Table.set_other
    exact fun same => away (List.mem_singleton.mpr same)
  | report | clear => rfl

theorem component_elsewhere {position : Nat} (away : position ∉ asked step) :
    (effect deck components step).components[position]? = components[position]? := by
  cases step with
  | ask target verb =>
    have different : target ≠ position := fun same => away (congrArg some same)
    simp only [effect, ask]
    split
    · rfl
    · exact List.getElem?_set_ne different
  | _ => rfl

end Elsewhere

section Own

omit [DecidableEq ι] in
theorem involved_congr (same : ∀ position ∈ asked step, components[position]? = others[position]?) :
    involved components step = involved others step := by
  cases step with
  | ask position verb => rw [involved, involved, same position rfl]
  | _ => rfl

/-- What a step makes of its own is told by its own. -/
theorem effect_congr (agree : Agree (involved components step) deck other)
    (same : ∀ position ∈ asked step, components[position]? = others[position]?) :
    let one := effect deck components step
    let two := effect other others step
    Agree (involved components step) one.deck two.deck ∧
      (∀ position ∈ asked step, one.components[position]? = two.components[position]?) ∧
      one.answer = two.answer ∧ one.events = two.events := by
  cases step with
  | ask position verb =>
    have here : components[position]? = others[position]? := same position rfl
    cases there : others[position]? with
    | none =>
      rw [there] at here
      simp only [effect, ask, here, there]
      exact ⟨agree, same, trivial, trivial⟩
    | some component =>
      rw [there] at here
      have own : involved components (.ask position verb) = videos component := by simp [involved, here]
      rw [own] at agree ⊢
      have plans : component.plan verb deck = component.plan verb other := by
        apply plan_congr_on
        intro video member
        rw [agree video member]
      obtain ⟨decks, events, completed⟩ := agree.perform (gives_concerned (@plan_gives _ other component verb))
      simp only [effect, ask, here, there, plans, completed, events]
      refine ⟨decks, ?_, trivial, trivial⟩
      rintro target ⟨⟩
      rw [List.getElem?_set_self', List.getElem?_set_self', here, there]
  | overwrite place change | advance place seconds | run place ticks =>
    have here : deck place = other place := agree place List.mem_cons_self
    simp only [effect, here]
    exact ⟨agree.set place _, same, trivial, trivial⟩
  | report | clear => exact ⟨agree, same, rfl, rfl⟩

end Own

section Orders

variable {first second : SessionStep ι}

/-- A step that has nothing to do with the one before it does as if that had not been taken. -/
theorem effect_after (deck : Deck ι) (independent : Independent components first second) :
    let one := effect deck components first
    let two := effect one.deck one.components second
    let alone := effect deck components second
    involved one.components second = involved components second ∧
      Agree (involved components second) two.deck alone.deck ∧
      (∀ position ∈ asked second, two.components[position]? = alone.components[position]?) ∧
      two.answer = alone.answer ∧ two.events = alone.events := by
  intro one two alone
  have same : ∀ position ∈ asked second, one.components[position]? = components[position]? :=
    fun position member => component_elsewhere (independent.symm.components position member)
  have still : involved one.components second = involved components second := involved_congr same
  have agree : Agree (involved one.components second) one.deck deck := by
    intro video member
    apply deck_elsewhere
    exact independent.symm.videos video (still ▸ member)
  have own := effect_congr agree same
  rw [still] at own
  exact ⟨still, own⟩

theorem effects_commute (deck : Deck ι) (independent : Independent components first second) :
    let one := effect deck components first
    let two := effect one.deck one.components second
    let other := effect deck components second
    let last := effect other.deck other.components first
    two.deck = last.deck ∧ two.components = last.components := by
  intro one two other last
  obtain ⟨lateInvolved, lateDecks, lateComponents, -⟩ := effect_after deck independent
  obtain ⟨soonInvolved, soonDecks, soonComponents, -⟩ := effect_after deck independent.symm
  constructor
  · -- A video belongs to the second step, to the first, or to neither.
    funext video
    by_cases late : video ∈ involved components second
    · have away : video ∉ involved other.components first := soonInvolved ▸ independent.symm.videos video late
      exact (lateDecks video late).trans (deck_elsewhere away).symm
    · have away : video ∉ involved one.components second := lateInvolved ▸ late
      have kept : two.deck video = one.deck video := deck_elsewhere away
      by_cases soon : video ∈ involved components first
      · exact kept.trans (soonDecks video soon).symm
      · have out : video ∉ involved other.components first := soonInvolved ▸ soon
        calc two.deck video = one.deck video := kept
          _ = deck video := deck_elsewhere soon
          _ = other.deck video := (deck_elsewhere late).symm
          _ = last.deck video := (deck_elsewhere out).symm
  · apply List.ext_getElem?
    intro position
    by_cases late : position ∈ asked second
    · have away : position ∉ asked first := independent.symm.components position late
      exact (lateComponents position late).trans (component_elsewhere away).symm
    · have kept : two.components[position]? = one.components[position]? := component_elsewhere late
      by_cases soon : position ∈ asked first
      · exact kept.trans (soonComponents position soon).symm
      · calc two.components[position]? = one.components[position]? := kept
          _ = components[position]? := component_elsewhere soon
          _ = other.components[position]? := (component_elsewhere late).symm
          _ = last.components[position]? := (component_elsewhere soon).symm

/-- Whatever a session has come to, two steps that ask different components and have no video in
common leave the same behind in either order, and each answers and reports the same. -/
theorem steps_commute (session : Session ι) (first second : SessionStep ι)
    (independent : Independent session.components first second) :
    let (one, firstAlone) := session.step first
    let (two, secondLate) := one.step second
    let (other, secondAlone) := session.step second
    let (last, firstLate) := other.step first
    two.deck = last.deck ∧ two.components = last.components ∧ firstLate = firstAlone ∧ secondLate = secondAlone := by
  obtain ⟨decks, components⟩ := effects_commute session.deck independent
  obtain ⟨-, -, -, secondAnswer, secondEvents⟩ := effect_after session.deck independent
  obtain ⟨-, -, -, firstAnswer, firstEvents⟩ := effect_after session.deck independent.symm
  simp only [Session.step, firstAnswer, firstEvents, secondAnswer, secondEvents]
  exact ⟨decks, components, trivial, trivial⟩

end Orders

/-- A comparison whose follower is no range, and a control bar over a third video. -/
def brokenPair : Session (Fin 3) where
  deck := fun
    | 0 => .simulated { time := 3, duration := 12, paused := false }
    | 1 => .simulated { duration := .nan, paused := false }
    | 2 => .stub { time := 7, duration := 60 }
  components := [.comparison ⟨⟨.comparison, 0⟩, 0, 1, 0.5⟩, .controls ⟨⟨.controls, 0⟩, 2, {}⟩]

/-- The comparison breaks off once its primary has been rewound, before or after the bar is used. -/
theorem steps_commute_broken :
    let (one, broken) := brokenPair.step (.ask 0 .ended)
    let (two, fast) := one.step (.ask 1 .fast)
    let (other, fastAlone) := brokenPair.step (.ask 1 .fast)
    let (last, brokenLate) := other.step (.ask 0 .ended)
    Independent brokenPair.components (.ask 0 .ended) (.ask 1 .fast) ∧ broken.answer = .fault ∧
      (two.deck 0).clip = { duration := 12 } ∧ (two.deck 2).clip.rate = 1.25 ∧
      two.deck = last.deck ∧ two.components = last.components ∧ brokenLate = broken ∧ fast = fastAlone := by
  have independent : Independent brokenPair.components (.ask 0 .ended) (.ask 1 .fast) := by
    refine ⟨by decide, ?_⟩
    rintro position ⟨⟩ ⟨⟩
  exact ⟨independent, by decide +kernel, by decide +kernel, by decide +kernel, steps_commute brokenPair _ _ independent⟩

end VideoPage.Proofs.IndependentSteps
