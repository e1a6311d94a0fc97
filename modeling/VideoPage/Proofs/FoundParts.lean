import VideoPage.Page.Binding

/-! What binding finds on a page. An element's wiring, where it can be looked up at all, is told
by the parts that are found around the element and below it. -/

namespace VideoPage.Proofs.FoundParts

/-- The part that a selector finds, or none when it cannot be looked for. -/
def part (page : Page) (kind : Element → Bool) (scope : NodeId) (selector : String) : Option NodeId :=
  match page.query kind scope selector with
  | .ok found => found
  | .error _ => none

/-- The first element that is described on the way up from another, over so many parents. -/
def nearest (page : Page) (described : NodeId → Bool) : Nat → NodeId → Option NodeId
  | 0, node => if described node then some node else none
  | height + 1, node => if described node then some node else (page.parent node).bind (nearest page described height)

/-- The card around a bar: the nearest element from the bar upwards that the selector describes,
or else the bar's parent. No element is below more others than the page has. -/
def cardOf (page : Page) (bar : NodeId) (selector : String) : Option NodeId :=
  match readSelector? selector with
  | some compounds => (nearest page (page.matchesSelector compounds) page.count bar).or (page.parent bar)
  | none => none

/-- All that a selector finds. -/
def matching (page : Page) (scope : NodeId) (selector : String) : List NodeId :=
  match page.queryAll scope selector with
  | .ok found => found
  | .error _ => []

/-- The video in the card around a bar. -/
def cardVideo (page : Page) (selectors : Selectors) (bar : NodeId) : Option NodeId :=
  (cardOf page bar selectors.videoCard).bind fun card => part page Element.isVideo card selectors.video

def comparisonParts (page : Page) (settings : Settings) (id : ComponentId) (element primary follower : NodeId) :
    ComparisonParts where
  comparison := { id, primary, follower, rate := settings.comparisonRate }
  seek := part page Element.isInput element settings.selectors.comparisonSeek
  play := part page Element.isHtml element settings.selectors.comparisonPlay
  time := part page Element.isHtml element settings.selectors.comparisonTime

def controlsParts (page : Page) (settings : Settings) (id : ComponentId) (bar video : NodeId) : ControlsParts where
  transport := { id, video, limits := settings.limits }
  play := part page Element.isHtml bar settings.selectors.controlsPlay
  speed := part page Element.isHtml bar settings.selectors.controlsSpeed
  scrub := part page Element.isInput bar settings.selectors.controlsScrub
  elapsed := part page Element.isHtml bar settings.selectors.controlsElapsed

section Wirings

variable {page : Page} {settings : Settings} {id : ComponentId} {element : NodeId} {wiring : Wiring}

theorem bind_eq_ok {ε α β : Type} {first : Except ε α} {next : α → Except ε β} {result : β} :
    first >>= next = .ok result ↔ ∃ value, first = .ok value ∧ next value = .ok result := by
  cases first <;> simp [bind, Except.bind]

theorem bind_eq_error {ε α β : Type} {first : Except ε α} {next : α → Except ε β} {error : ε} :
    first >>= next = .error error ↔ first = .error error ∨ ∃ value, first = .ok value ∧ next value = .error error := by
  cases first <;> simp [bind, Except.bind]

theorem find?_ancestorsWithin (described : NodeId → Bool) (height : Nat) (node : NodeId) :
    (node :: page.ancestorsWithin height node).find? described = nearest page described height node := by
  induction height generalizing node with
  | zero => cases here : described node <;> simp [Page.ancestorsWithin, nearest, here]
  | succ height ih =>
    cases here : described node with
    | true => simp [nearest, here]
    | false =>
      rw [List.find?_cons_of_neg (by simp [here]), Page.ancestorsWithin, nearest, here]
      cases page.parent node with
      | none => rfl
      | some above => exact ih above

theorem cardOf_eq {bar : NodeId} {selector : String} {found : Option NodeId} (card : page.card bar selector = .ok found) :
    cardOf page bar selector = found := by
  cases read : readSelector? selector with
  | none => simp [Page.card, Page.closest, read, Except.map] at card
  | some compounds =>
    simp only [Page.card, Page.closest, read, Except.map, Except.ok.injEq] at card
    simp only [cardOf, read]
    rw [← card, Page.ancestors, find?_ancestorsWithin]

theorem part_eq {kind : Element → Bool} {scope : NodeId} {selector : String} {found : Option NodeId}
    (query : page.query kind scope selector = .ok found) : part page kind scope selector = found := by
  rw [part, query]

theorem comparisonWiring_eq (wired : page.comparisonWiring settings id element = .ok wiring) :
    wiring =
      match part page Element.isVideo element settings.selectors.comparisonPrimary,
        part page Element.isVideo element settings.selectors.comparisonFollower with
      | some primary, some follower =>
        .bound (Page.comparisonSteps (comparisonParts page settings id element primary follower))
      | some _, none => .skipped .missingFollower
      | none, _ => .skipped .missingVideo := by
  rw [Page.comparisonWiring, bind_eq_ok] at wired
  obtain ⟨primary, foundPrimary, wired⟩ := wired
  rw [part_eq foundPrimary]
  cases primary with
  | none =>
    cases wired
    rfl
  | some primary =>
    obtain ⟨follower, foundFollower, wired⟩ := bind_eq_ok.mp wired
    rw [part_eq foundFollower]
    cases follower with
    | none =>
      cases wired
      rfl
    | some follower =>
      obtain ⟨seek, foundSeek, wired⟩ := bind_eq_ok.mp wired
      obtain ⟨play, foundPlay, wired⟩ := bind_eq_ok.mp wired
      obtain ⟨time, foundTime, wired⟩ := bind_eq_ok.mp wired
      cases wired
      simp only [comparisonParts, part_eq foundSeek, part_eq foundPlay, part_eq foundTime]

theorem controlsWiring_eq (wired : page.controlsWiring settings id element = .ok wiring) :
    wiring =
      match cardOf page element settings.selectors.videoCard with
      | none => .skipped .missingContainer
      | some _ =>
        match cardVideo page settings.selectors element with
        | none => .skipped .missingVideo
        | some video =>
          .bound (page.controlsSteps settings.selectors element (controlsParts page settings id element video)) := by
  rw [Page.controlsWiring, bind_eq_ok] at wired
  obtain ⟨card, foundCard, wired⟩ := wired
  rw [cardVideo, cardOf_eq foundCard]
  cases card with
  | none =>
    cases wired
    rfl
  | some card =>
    obtain ⟨video, foundVideo, wired⟩ := bind_eq_ok.mp wired
    rw [Option.bind_some, part_eq foundVideo]
    cases video with
    | none =>
      cases wired
      rfl
    | some video =>
      obtain ⟨play, foundPlay, wired⟩ := bind_eq_ok.mp wired
      obtain ⟨speed, foundSpeed, wired⟩ := bind_eq_ok.mp wired
      obtain ⟨scrub, foundScrub, wired⟩ := bind_eq_ok.mp wired
      obtain ⟨elapsed, foundElapsed, wired⟩ := bind_eq_ok.mp wired
      cases wired
      simp only [controlsParts, part_eq foundPlay, part_eq foundSpeed, part_eq foundScrub, part_eq foundElapsed]

theorem phaseWiring_eq (wired : page.phaseWiring settings id element = .ok wiring) :
    wiring =
      match cardOf page element settings.selectors.videoCard with
      | none => .skipped .missingContainer
      | some card =>
        match cardVideo page settings.selectors element with
        | none => .skipped .missingVideo
        | some video =>
          .bound ((matching page element settings.selectors.phaseSegment).map
              (page.segmentStep settings.selectors ⟨id, video⟩ card)
            ++ page.indicatorSteps settings.selectors ⟨id, video⟩ element) := by
  rw [Page.phaseWiring, bind_eq_ok] at wired
  obtain ⟨card, foundCard, wired⟩ := wired
  rw [cardVideo, cardOf_eq foundCard]
  cases card with
  | none =>
    cases wired
    rfl
  | some card =>
    obtain ⟨video, foundVideo, wired⟩ := bind_eq_ok.mp wired
    rw [Option.bind_some, part_eq foundVideo]
    cases video with
    | none =>
      cases wired
      rfl
    | some video =>
      obtain ⟨segments, foundSegments, wired⟩ := bind_eq_ok.mp wired
      cases wired
      simp only [matching, foundSegments]

/-- A trigger lacks nothing: its tooltip brings its own element. -/
theorem tooltipWiring_eq (wired : page.tooltipWiring id element = .ok wiring) :
    wiring = .bound ((if (page.element element).isHtml then [.style element "position" "relative"] else []) ++ [
      .attach element { id, text := ((page.element element).attribute? Settings.tooltipAttribute).getD "" },
      .listen element "mouseenter" (.hover page.count true),
      .listen element "mouseleave" (.hover page.count false)]) := by
  rw [Page.tooltipWiring] at wired
  split at wired
  · cases wired
  · cases wired
    rfl

end Wirings

end VideoPage.Proofs.FoundParts
