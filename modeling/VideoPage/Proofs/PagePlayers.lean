import VideoPage.Page.Markup
import VideoPage.Proofs.ComponentPlans
import VideoPage.Proofs.PageRuns

/-! The players of a page. All of them are embedded, whatever happens to the page, and no
command fails on an embedded player: a plan always runs to its end. Then whether a video is
paused depends on the commands alone, and on whether the page refuses to start it. -/

namespace VideoPage.Proofs.PagePlayers
open PageRuns
open ComponentPlans (pausedAfter)

def Embedded (deck : Deck NodeId) : Prop := ∀ node, ∃ blocked, (deck node).kind = .embedded blocked

section Performing

variable {deck : Deck NodeId}

/-- A command at one place leaves the videos at the others as they are. -/
theorem set_player {place video : NodeId} {player : Player} {blocked paused : Bool}
    (kind : (deck video).kind = .embedded blocked)
    (here : place = video → player.kind = .embedded blocked ∧ player.clip.paused = paused)
    (elsewhere : place ≠ video → (deck video).clip.paused = paused) :
    ((Table.set deck place player) video).kind = .embedded blocked ∧
      ((Table.set deck place player) video).clip.paused = paused := by
  by_cases same : place = video
  · subst same
    rw [Table.set_same]
    exact here rfl
  · rw [Table.set_other _ _ (Ne.symm same)]
    exact ⟨kind, elsewhere same⟩

theorem after_embedded (embedded : Embedded deck) (command : Command NodeId) :
    ∃ next, deck.after? command = some next ∧ ∀ video blocked, (deck video).kind = .embedded blocked →
      (next video).kind = .embedded blocked ∧
      (next video).clip.paused = pausedAfter video blocked (deck video).clip.paused command := by
  cases command with
  | seek place time =>
    obtain ⟨blocked, kind⟩ := embedded place
    refine ⟨deck.set place { deck place with clip.time := time }, by simp [Deck.after?, Player.seek?, kind], ?_⟩
    intro video blocked kind
    exact set_player kind (by rintro rfl; exact ⟨kind, rfl⟩) fun _ => rfl
  | setRate place rate =>
    refine ⟨_, rfl, ?_⟩
    intro video blocked kind
    exact set_player kind (by rintro rfl; exact ⟨kind, rfl⟩) fun _ => rfl
  | play place =>
    refine ⟨_, rfl, ?_⟩
    intro video blocked kind
    refine set_player kind ?_ fun other => by rw [pausedAfter, if_neg other]
    rintro rfl
    cases blocked <;> simp [Player.play, pausedAfter, kind]
  | pause place =>
    refine ⟨_, rfl, ?_⟩
    intro video blocked kind
    refine set_player kind ?_ fun other => by rw [pausedAfter, if_neg other]
    rintro rfl
    exact ⟨kind, by simp [Player.pause, pausedAfter]⟩
  | report id action place => exact ⟨deck, rfl, fun video blocked kind => ⟨kind, rfl⟩⟩
  | announce event => exact ⟨deck, rfl, fun video blocked kind => ⟨kind, rfl⟩⟩

theorem embedded_of_kinds {next : Deck NodeId} (embedded : Embedded deck)
    (kinds : ∀ video blocked, (deck video).kind = .embedded blocked → (next video).kind = .embedded blocked) :
    Embedded next := by
  intro video
  obtain ⟨blocked, kind⟩ := embedded video
  exact ⟨blocked, kinds video blocked kind⟩

theorem perform_embedded (embedded : Embedded deck) (commands : List (Command NodeId)) :
    (deck.perform commands).completed = true ∧ ∀ video blocked, (deck video).kind = .embedded blocked →
      ((deck.perform commands).deck video).kind = .embedded blocked ∧
      ((deck.perform commands).deck video).clip.paused =
        commands.foldl (pausedAfter video blocked) (deck video).clip.paused := by
  induction commands generalizing deck with
  | nil => exact ⟨rfl, fun video blocked kind => ⟨kind, rfl⟩⟩
  | cons command rest ih =>
    obtain ⟨next, taken, step⟩ := after_embedded embedded command
    obtain ⟨completed, remaining⟩ := ih (embedded_of_kinds embedded fun video blocked kind => (step video blocked kind).1)
    simp only [Deck.perform, taken]
    refine ⟨completed, ?_⟩
    intro video blocked kind
    obtain ⟨kind, paused⟩ := step video blocked kind
    rw [List.foldl_cons, ← paused]
    exact remaining video blocked kind

theorem embedded_perform (embedded : Embedded deck) (commands : List (Command NodeId)) :
    Embedded (deck.perform commands).deck :=
  embedded_of_kinds embedded fun video blocked kind => ((perform_embedded embedded commands).2 video blocked kind).1

theorem embedded_set (embedded : Embedded deck) {player : Player} (node : NodeId)
    (kind : ∃ blocked, player.kind = .embedded blocked) : Embedded (Table.set deck node player) := by
  intro other
  by_cases same : other = node
  · subst same
    rwa [Table.set_same]
  · rw [Table.set_other _ _ same]
    exact embedded other

end Performing

section Displays

variable (page : Page)

@[simp] theorem deck_setStyle (node : NodeId) (property value : String) : (page.setStyle node property value).deck = page.deck := by
  rw [Page.setStyle, Page.setStyle?]
  cases page.refuses node "style" <;> rfl

@[simp] theorem deck_showIcon (button : Option NodeId) (icon : PlayIcon) : (page.showIcon button icon).deck = page.deck := by
  cases button <;> rfl

@[simp] theorem deck_showText (label : Option NodeId) (text : String) : (page.showText label text).deck = page.deck := by
  cases label <;> rfl

@[simp] theorem deck_showFill (bar : NodeId) (percent : Binary64) : (page.showFill bar percent).deck = page.deck :=
  deck_setStyle page bar _ _

@[simp] theorem deck_showPosition (bar : Option NodeId) (percent : Binary64) : (page.showPosition bar percent).deck = page.deck := by
  cases bar with
  | none => rfl
  | some node => exact deck_showFill _ node percent

@[simp] theorem deck_showIconIn (card : NodeId) (selector : String) (icon : PlayIcon) :
    (page.showIconIn card selector icon).deck = page.deck := by
  rw [Page.showIconIn]
  split
  · exact deck_showIcon page _ icon
  · rfl

@[simp] theorem deck_showIndicator (indicator : NodeId) (percent? : Option Binary64) :
    (page.showIndicator indicator percent?).deck = page.deck := by
  cases percent? with
  | none => rfl
  | some percent => exact deck_setStyle page indicator _ _

@[simp] theorem deck_hover (tip : NodeId) (inside : Bool) : (page.hover tip inside).page.deck = page.deck := by
  rw [Page.hover]
  split <;> rfl

/-- The commands that a handler gives to the players of a page. -/
def commands : Handler → List (Command NodeId)
  | .comparisonToggle parts => (parts.comparison.toggle page.deck).commands
  | .comparisonSeek parts =>
    parts.seek.toList.flatMap fun bar => (parts.comparison.seek (page.element bar).value page.deck).commands
  | .comparisonEnd parts => (parts.comparison.ended page.deck).commands
  | .controlsToggle parts => (parts.transport.toggle page.deck).commands
  | .controlsRate parts button => (button.plan parts.transport page.deck).commands
  | .controlsSeek parts =>
    parts.scrub.toList.flatMap fun bar => (parts.transport.seek (page.element bar).value page.deck).commands
  | .segmentJump timeline start _ _ => (timeline.jump start page.deck).commands
  | .comparisonProgress _ | .controlsProgress _ | .indicatorProgress .. | .hover .. => []

theorem deck_actOnSlider (bar : Option NodeId) (plan : Binary64 → Plan NodeId Binary64) :
    (page.actOnSlider bar plan).page.deck =
      (page.deck.perform (bar.toList.flatMap fun bar => (plan (page.element bar).value).commands)).deck := by
  cases bar with
  | none => rfl
  | some node => simp [Page.actOnSlider, Page.act]

/-- What a handler shows never touches the players. -/
theorem deck_handle (handler : Handler) : (page.handle handler).page.deck = (page.deck.perform (commands page handler)).deck := by
  cases handler with
  | comparisonSeek parts => simp only [Page.handle, commands, deck_actOnSlider]
  | controlsSeek parts => simp only [Page.handle, commands, deck_actOnSlider]
  | _ => simp [Page.handle, Page.act, commands, Deck.perform]

end Displays

section Runs

variable {page : Page}

theorem embedded_handle : KeptByHandlers fun page => Embedded page.deck := by
  intro page handler embedded
  rw [deck_handle]
  exact embedded_perform embedded _

theorem embedded_insert (embedded : Embedded page.deck) (parent : Option NodeId) (element : Element) {player : Player}
    (kind : ∃ blocked, player.kind = .embedded blocked) : Embedded (page.insert parent element player).deck := by
  cases parent <;> exact embedded_set embedded page.count kind

theorem embedded_after : KeptByBinding fun page => Embedded page.deck := by
  intro page step next taken embedded
  cases step with
  | listen target event handler =>
    simp only [Page.after?, Page.addListener?] at taken
    split at taken
    · cases taken
    · cases taken
      exact embedded
  | drive commands =>
    cases taken
    exact embedded_perform embedded commands
  | report event =>
    cases taken
    exact embedded
  | label target text =>
    cases taken
    exact embedded
  | style target property value =>
    simp only [Page.after?, Page.setStyle?] at taken
    split at taken
    · cases taken
    · cases taken
      exact embedded
  | attach trigger tooltip =>
    simp only [Page.after?] at taken
    split at taken
    · cases taken
    · cases taken
      exact embedded_insert embedded (some trigger) (Page.tipElement tooltip) ⟨false, rfl⟩
  | stop error => cases taken

theorem embedded_overwrite : KeptByOverwriting fun page => Embedded page.deck := by
  intro page node change embedded
  obtain ⟨blocked, kind⟩ := embedded node
  refine embedded_set embedded node ?_
  cases change.blocked with
  | none => exact ⟨blocked, kind⟩
  | some blocked =>
    have kind : ((page.deck node).overwrite change.clip).kind = _ := kind
    exact ⟨blocked, by simp [Player.setBlocked, kind]⟩

/-- A tree whose players are all a page's own. -/
inductive Embeds : Markup → Prop where
  | element (here : Element) (blocked : Bool) (clip : Clip) {children : List Markup}
      (below : ∀ child ∈ children, Embeds child) : Embeds (.element here ⟨.embedded blocked, clip⟩ children)

theorem embedded_insertAll {children : List Markup} (embedded : Embedded page.deck) (parent : NodeId)
    (each : ∀ child ∈ children, ∀ page parent, Embedded page.deck → Embedded (child.insert page parent).deck) :
    Embedded (Markup.insertAll page parent children).deck := by
  induction children generalizing page with
  | nil => exact embedded
  | cons child rest ih =>
    rw [Markup.insertAll]
    exact ih (each child (by simp) page (some parent) embedded) fun other member => each other (by simp [member])

theorem embedded_markup {markup : Markup} (embeds : Embeds markup) (embedded : Embedded page.deck) (parent : Option NodeId) :
    Embedded (markup.insert page parent).deck := by
  induction embeds generalizing page parent with
  | element here blocked clip _ ih =>
    rw [Markup.insert]
    exact embedded_insertAll (embedded_insert embedded parent here ⟨blocked, rfl⟩) _
      fun child member page parent embedded => ih child member embedded parent

/-- However far the binding before the visit has come. -/
theorem embedded_visit {markup : Markup} (embeds : Embeds markup) (root : NodeId) (settings : Settings) (watcher : Watcher)
    (steps : List VisitStep) {reached : Page} (visited : reached ∈ pagesOf (markup.page.bind root settings).page watcher steps) :
    Embedded reached.deck := by
  have empty : Embedded Page.empty.deck := fun node => ⟨false, rfl⟩
  have bound := bind_keeps embedded_after root settings (embedded_markup embeds empty none)
  exact pagesOf_keeps embedded_handle embedded_overwrite watcher steps bound reached visited

end Runs

end VideoPage.Proofs.PagePlayers
