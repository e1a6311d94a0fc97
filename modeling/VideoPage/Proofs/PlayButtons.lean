import VideoPage.Proofs.PagePlayers
import VideoPage.Proofs.PageUpdates

/-! What the play buttons of a page say about its videos. A handler writes the icon for what it
has asked of a video, not for what became of it: only a page that refuses to start a video
makes the two differ. -/

namespace VideoPage.Proofs.PlayButtons
open PagePlayers PageRuns WrittenContents
open ComponentPlans (pausedAfter)
open PageUpdates (content_handle label updates writes)

/-- A handler writes an icon on a button, for a video. -/
inductive WritesIcon (page : Page) : Handler → NodeId → PlayIcon → NodeId → Prop where
  | comparisonToggle {parts : ComparisonParts} {button : NodeId} (play : parts.play = some button) :
      WritesIcon page (.comparisonToggle parts) button (parts.comparison.toggle page.deck).answer parts.comparison.primary
  | comparisonEnd {parts : ComparisonParts} {button : NodeId} (play : parts.play = some button) :
      WritesIcon page (.comparisonEnd parts) button (parts.comparison.ended page.deck).answer.icon parts.comparison.primary
  | controlsToggle {parts : ControlsParts} {button : NodeId} (play : parts.play = some button) :
      WritesIcon page (.controlsToggle parts) button (parts.transport.toggle page.deck).answer parts.transport.video
  | controlsRate {parts : ControlsParts} {button : NodeId} (change : RateButton) (play : parts.play = some button) :
      WritesIcon page (.controlsRate parts change) button (change.plan parts.transport page.deck).answer.icon parts.transport.video
  | segmentJump {timeline : Timeline NodeId} {start : Binary64} {card : NodeId} {selector : String} {button : NodeId}
      (found : page.query Element.isHtml card selector = .ok (some button)) :
      WritesIcon page (.segmentJump timeline start card selector) button (timeline.jump start page.deck).answer timeline.video

/-- A handler asks for a paused video that the page refuses to start. The end of a comparison
asks for none. -/
def Refused (page : Page) (video : NodeId) : Handler → Prop
  | .comparisonEnd _ => False
  | _ => (page.deck video).kind = .embedded true ∧ (page.deck video).clip.paused = true

/-- A button shows the icon of what a video is. -/
def Shows (page : Page) (button video : NodeId) : Prop :=
  (page.element button).content = some (.markup (PlayIcon.forPaused (page.deck video).clip.paused).markup)

/-- Handlers that neither write the button nor start or stop the video, each on the page that the
one before it has left. -/
def Untouched (button video : NodeId) (page : Page) : List Handler → Prop
  | [] => True
  | handler :: rest =>
    (button ∉ (writes page handler).map Prod.fst ∧ .play video ∉ commands page handler ∧
      .pause video ∉ commands page handler) ∧ Untouched button video (page.handle handler).page rest

variable {page : Page} {handler : Handler} {button video : NodeId} {icon : PlayIcon}

theorem markup_inj {first second : PlayIcon} : first.markup = second.markup ↔ first = second := by
  cases first <;> cases second <;> decide

/-- A text is written after the icon, if at all. -/
theorem WritesIcon.written (icons : WritesIcon page handler button icon video) :
    ∃ text, writes page handler = (button, .markup icon.markup) :: textOn (label handler) text := by
  cases icons with
  | comparisonToggle play | controlsToggle play => exact ⟨"", by simp [writes, updates, label, play, textOn]⟩
  | comparisonEnd play | controlsRate change play => exact ⟨_, by simp [writes, updates, label, play]; rfl⟩
  | segmentJump found => exact ⟨"", by simp [writes, updates, label, found, textOn]⟩

theorem WritesIcon.content (icons : WritesIcon page handler button icon video) :
    ((page.handle handler).page.element button).content = some (.markup icon.markup) ∧ label handler ≠ some button ∨
      (∃ text, ((page.handle handler).page.element button).content = some (.text text)) ∧ label handler = some button := by
  obtain ⟨text, written⟩ := icons.written
  have icon_first (before : Option Content) :
      contentAfter button [(button, .markup icon.markup)] before = some (.markup icon.markup) := if_pos rfl
  rw [content_handle, written, ← List.singleton_append, contentAfter_append, icon_first]
  by_cases same : label handler = some button
  · refine .inr ⟨⟨text, ?_⟩, same⟩
    rw [same]
    exact if_pos rfl
  · refine .inl ⟨contentAfter_of_not_mem ?_, same⟩
    simpa [textOn] using same

/-- The icon is right unless the page has refused. -/
theorem WritesIcon.icon_eq (embedded : Embedded page.deck) (icons : WritesIcon page handler button icon video) :
    icon = PlayIcon.forPaused ((page.handle handler).page.deck video).clip.paused ↔ ¬ Refused page video handler := by
  obtain ⟨blocked, kind⟩ := embedded video
  rw [deck_handle, ((perform_embedded embedded _).2 video blocked kind).2]
  -- Toggles ask for what the flag does not say, and the others ask for the same whatever it says.
  cases icons with
  | comparisonToggle play =>
    cases paused : (page.deck _).clip.paused <;> cases blocked <;>
      simp [commands, Comparison.toggle, Comparison.isPlaying, Comparison.play, Comparison.pause, pausedAfter,
        PlayIcon.forPaused, Refused, kind, paused]
  | comparisonEnd play =>
    simp [commands, Comparison.ended, Comparison.pause, pausedAfter, PlayIcon.forPaused, Refused]
  | controlsToggle play =>
    cases paused : (page.deck _).clip.paused <;> cases blocked <;>
      simp [commands, Transport.toggle, pausedAfter, PlayIcon.forPaused, Refused, kind, paused]
  | controlsRate change play =>
    cases change <;>
      simp [commands, RateButton.plan, Transport.slow, Transport.fast, Transport.restart, Transport.changeRate,
        pausedAfter, PlayIcon.forPaused, Refused, kind]
  | segmentJump found =>
    simp [commands, Timeline.jump, pausedAfter, PlayIcon.forPaused, Refused, kind]

theorem shows_handle (embedded : Embedded page.deck) (icons : WritesIcon page handler button icon video) :
    Shows (page.handle handler).page button video ↔ ¬ Refused page video handler ∧ label handler ≠ some button := by
  rw [Shows, ← icons.icon_eq embedded]
  rcases icons.content with ⟨content, other⟩ | ⟨⟨text, content⟩, same⟩
  · simp [content, other, markup_inj]
  · simp [content, same]

theorem foldl_pausedAfter {blocked paused : Bool} {commands : List (Command NodeId)} (play : .play video ∉ commands)
    (pause : .pause video ∉ commands) : commands.foldl (pausedAfter video blocked) paused = paused := by
  induction commands with
  | nil => rfl
  | cons command rest ih =>
    rw [List.mem_cons, not_or] at play pause
    have same : pausedAfter video blocked paused command = paused := by
      cases command with
      | play place => exact if_neg fun here => play.1 (by rw [here])
      | pause place => exact if_neg fun here => pause.1 (by rw [here])
      | _ => rfl
    rw [List.foldl_cons, same]
    exact ih play.2 pause.2

/-- Handlers that leave a button and a video alone do not change what the one says about the other. -/
theorem shows_handleAll {handlers : List Handler} (embedded : Embedded page.deck)
    (untouched : Untouched button video page handlers) :
    Shows (page.handleAll handlers).page button video ↔ Shows page button video := by
  induction handlers generalizing page with
  | nil => rfl
  | cons handler rest ih =>
    obtain ⟨⟨written, play, pause⟩, remaining⟩ := untouched
    have content := (content_handle page handler button).trans (contentAfter_of_not_mem written)
    have paused : ((page.handle handler).page.deck video).clip.paused = (page.deck video).clip.paused := by
      obtain ⟨blocked, kind⟩ := embedded video
      rw [deck_handle, ((perform_embedded embedded _).2 video blocked kind).2, foldl_pausedAfter play pause]
    refine (ih (embedded_handle page handler embedded) remaining).trans ?_
    rw [Shows, Shows, content, paused]

/-- Every icon that an event writes: right after its handler, and once the event is over. -/
theorem fire_shows {markup : Markup} (embeds : Embeds markup) (root : NodeId) (settings : Settings) (watcher : Watcher)
    (steps : List VisitStep) {page : Page} (visited : page ∈ pagesOf (markup.page.bind root settings).page watcher steps)
    {target : NodeId} {event : String} {earlier later : List Handler} {handler : Handler}
    (called : page.handlers target event = earlier ++ handler :: later) {button video : NodeId} {icon : PlayIcon}
    (icons : WritesIcon (page.handleAll earlier).page handler button icon video) :
    let before := (page.handleAll earlier).page
    let after := (before.handle handler).page
    let honest := ¬ Refused before video handler ∧ label handler ≠ some button
    (Shows after button video ↔ honest) ∧
      (Untouched button video after later → (Shows (page.fire target event).page button video ↔ honest)) := by
  intro before after honest
  have embedded : Embedded before.deck :=
    handleAll_keeps embedded_handle earlier (embedded_visit embeds root settings watcher steps visited)
  have shows_after : Shows after button video ↔ honest := shows_handle embedded icons
  refine ⟨shows_after, ?_⟩
  intro untouched
  rw [Page.fire, called, handleAll_append]
  exact (shows_handleAll (embedded_handle before handler embedded) untouched).trans shows_after

/-- A control bar for a video that the page refuses to start. -/
def blockedCard : Markup :=
  .element { tag := "section", attributes := [("class", "timeline-video-card")] } ⟨.embedded false, {}⟩
    [.element { tag := "video" } ⟨.embedded true, {}⟩ [],
      .element { tag := "div", attributes := [("class", "video-player-controls")] } ⟨.embedded false, {}⟩
        [.element { tag := "button", attributes := [("class", "vpc-play")] } ⟨.embedded false, {}⟩ []]]

def blockedBar : ControlsParts where
  transport := { id := ⟨.controls, 0⟩, video := 1, limits := {} }
  play := some 3
  speed := none
  scrub := none
  elapsed := none

/-- A click on the play button of a video that stays paused: the button then offers to pause it. -/
theorem fire_shows_blocked :
    let page := (blockedCard.page.bind 0 {}).page
    let fired := (page.fire 3 "click").page
    page.handlers 3 "click" = [.controlsToggle blockedBar] ∧ Refused page 1 (.controlsToggle blockedBar) ∧
      (fired.deck 1).clip.paused = true ∧ (fired.element 3).content = some (.markup PlayIcon.pause.markup) ∧
      ¬ Shows fired 3 1 := by
  intro page fired
  obtain ⟨called, kind, paused, still, content⟩ : page.handlers 3 "click" = [] ++ .controlsToggle blockedBar :: [] ∧
      (page.deck 1).kind = .embedded true ∧ (page.deck 1).clip.paused = true ∧ (fired.deck 1).clip.paused = true ∧
      (fired.element 3).content = some (.markup PlayIcon.pause.markup) := by decide +kernel
  have embeds : Embeds blockedCard := by
    refine .element _ false {} ?_
    simp only [List.mem_cons, List.not_mem_nil, or_false]
    rintro child (rfl | rfl)
    · exact .element _ true {} (by simp)
    · refine .element _ false {} ?_
      simp only [List.mem_cons, List.not_mem_nil, or_false]
      rintro child rfl
      exact .element _ false {} (by simp)
  have visited : page ∈ pagesOf (blockedCard.page.bind 0 {}).page .nobody [] := List.mem_cons_self
  clear_value page
  have shown := (fire_shows embeds 0 {} .nobody [] visited called (.controlsToggle rfl)).2 trivial
  have refused : Refused page 1 (.controlsToggle blockedBar) := ⟨kind, paused⟩
  exact ⟨called, refused, still, content, fun shows => (shown.mp shows).1 refused⟩

end VideoPage.Proofs.PlayButtons
