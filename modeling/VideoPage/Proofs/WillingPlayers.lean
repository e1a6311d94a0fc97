import VideoPage.Proofs.ComponentPlans
import VideoPage.Session.Basic

/-! Players that do as they are told. With such players every plan runs to its end, and what it
does and reports can be told from what the players show. -/

namespace VideoPage.Proofs.WillingPlayers
open ComponentPlans

variable {ι : Type} [DecidableEq ι]

/-- A player that goes wherever it is sent and starts whenever it is asked to. -/
def Willing (player : Player) : Prop := player.kind ≠ .simulated ∧ player.kind ≠ .embedded true

instance (player : Player) : Decidable (Willing player) := inferInstanceAs (Decidable (_ ∧ _))

/-- What a command makes of what is shown. -/
def obeyed (shown : Table ι Clip) : Command ι → Table ι Clip
  | .seek place time => shown.set place { shown place with time }
  | .setRate place rate => shown.set place { shown place with rate }
  | .play place => shown.set place { shown place with paused := false }
  | .pause place => shown.set place { shown place with paused := true }
  | .report .. | .announce _ => shown

/-- What a command reports of what is shown. -/
def told (shown : Table ι Clip) : Command ι → List Event
  | .report id action place => [.action id action (shown place).time (shown place).rate]
  | .announce event => [event]
  | _ => []

def toldAll (shown : Table ι Clip) : List (Command ι) → List Event
  | [] => []
  | command :: rest => told shown command ++ toldAll (obeyed shown command) rest

section Performing

variable {deck : Deck ι}

theorem clips_set (place : ι) (player : Player) :
    clips (Table.set deck place player) = Table.set (clips deck) place player.clip := by
  funext other
  by_cases same : other = place
  · subst same
    simp [clips]
  · simp [clips, same]

theorem willing_set {among : ι → Prop} (willing : ∀ place, among place → Willing (deck place)) {place : ι} {player : Player}
    (also : Willing player) : ∀ other, among other → Willing (Table.set deck place player other) := by
  intro other inside
  by_cases same : other = place
  · subst same
    simpa using also
  · simpa [same] using willing other inside

theorem seek?_willing {player : Player} (willing : Willing player) (time : Binary64) :
    player.seek? time = some { player with clip.time := time } := by
  rw [Player.seek?]
  split
  · next simulated => exact absurd simulated willing.1
  · rfl

theorem play_willing {player : Player} (willing : Willing player) :
    Willing player.play ∧ player.play.clip = { player.clip with paused := false } := by
  obtain ⟨kind, clip⟩ := player
  cases kind with
  | stub starts => exact ⟨⟨nofun, nofun⟩, rfl⟩
  | simulated => exact absurd rfl willing.1
  | embedded blocked =>
    cases blocked with
    | false => exact ⟨willing, rfl⟩
    | true => exact absurd rfl willing.2

/-- A command finds a willing player at its place. -/
theorem after_willing {among : ι → Prop} (willing : ∀ place, among place → Willing (deck place)) {command : Command ι}
    (inside : ∀ video ∈ place command, among video) :
    ∃ next, deck.after? command = some next ∧ (∀ place, among place → Willing (next place)) ∧
      clips next = obeyed (clips deck) command := by
  cases command with
  | seek place time =>
    have here := willing place (inside place rfl)
    refine ⟨_, by rw [Deck.after?, seek?_willing here]; rfl, ?_, clips_set _ _⟩
    exact willing_set willing here
  | setRate place rate => exact ⟨_, rfl, willing_set willing (willing place (inside place rfl)), clips_set _ _⟩
  | play place =>
    obtain ⟨still, starts⟩ := play_willing (willing place (inside place rfl))
    refine ⟨_, rfl, willing_set willing still, ?_⟩
    rw [clips_set, starts]
    rfl
  | pause place => exact ⟨_, rfl, willing_set willing (willing place (inside place rfl)), clips_set _ _⟩
  | report id action place => exact ⟨deck, rfl, willing, rfl⟩
  | announce event => exact ⟨deck, rfl, willing, rfl⟩

omit [DecidableEq ι] in
theorem reported_eq (command : Command ι) : deck.reported command = told (clips deck) command := by
  cases command <;> rfl

theorem perform_among {among : ι → Prop} (willing : ∀ place, among place → Willing (deck place)) {commands : List (Command ι)}
    (inside : ∀ command ∈ commands, ∀ video ∈ place command, among video) :
    (deck.perform commands).completed = true ∧ (∀ place, among place → Willing ((deck.perform commands).deck place)) ∧
      clips (deck.perform commands).deck = commands.foldl obeyed (clips deck) ∧
      (deck.perform commands).events = toldAll (clips deck) commands := by
  induction commands generalizing deck with
  | nil => exact ⟨rfl, willing, rfl, rfl⟩
  | cons command rest ih =>
    obtain ⟨next, taken, still, shown⟩ := after_willing willing (inside command List.mem_cons_self)
    obtain ⟨completed, left, clips_eq, events_eq⟩ := ih still fun other member => inside other (List.mem_cons_of_mem _ member)
    simp only [Deck.perform, taken, List.foldl_cons, toldAll, ← shown]
    refine ⟨completed, left, clips_eq, ?_⟩
    rw [events_eq, reported_eq]

theorem perform_willing (willing : ∀ place, Willing (deck place)) (commands : List (Command ι)) :
    (deck.perform commands).completed = true ∧ (∀ place, Willing ((deck.perform commands).deck place)) ∧
      clips (deck.perform commands).deck = commands.foldl obeyed (clips deck) ∧
      (deck.perform commands).events = toldAll (clips deck) commands := by
  obtain ⟨completed, still, shown, sent⟩ := @perform_among _ _ _ (fun _ => True) (fun place _ => willing place) commands
    fun _ _ _ _ => trivial
  exact ⟨completed, fun place => still place trivial, shown, sent⟩

end Performing

/-- Commands that report under one name send only events of that name. -/
theorem sender_of_signed {id : ComponentId} {shown : Table ι Clip} {commands : List (Command ι)}
    (signed : ∀ command ∈ commands, Signed id command) : ∀ event ∈ toldAll shown commands, sender event = id := by
  induction commands generalizing shown with
  | nil => simp [toldAll]
  | cons command rest ih =>
    intro event member
    rcases List.mem_append.mp member with now | later
    · have own := signed command List.mem_cons_self
      cases command with
      | report other action place =>
        obtain rfl := List.mem_singleton.mp now
        exact own
      | announce other =>
        obtain rfl := List.mem_singleton.mp now
        exact own
      | _ => cases now
    · exact ih (fun other inside => signed other (List.mem_cons_of_mem _ inside)) event later

theorem reports_append (session : Session ι) (first second : List (SessionStep ι)) :
    session.reports (first ++ second) = session.reports first ++ (session.run first).reports second := by
  induction first generalizing session with
  | nil => rfl
  | cons step rest ih => exact congrArg (_ :: ·) (ih (session.step step).1)

/-- A component of a session over willing players always answers. -/
theorem ask_willing {deck : Deck ι} (willing : ∀ place, Willing (deck place)) {components : List (Component ι)}
    {position : Nat} {component : Component ι} (there : components[position]? = some component) (verb : Verb) :
    let asked := Session.ask deck components position verb
    let plan := component.plan verb deck
    asked.answer = plan.answer ∧ asked.components = components.set position (component.next verb) ∧
      (∀ place, Willing (asked.deck place)) ∧ clips asked.deck = plan.commands.foldl obeyed (clips deck) ∧
      asked.events = toldAll (clips deck) plan.commands := by
  obtain ⟨completed, still, shown, sent⟩ := perform_willing willing (component.plan verb deck).commands
  simp only [Session.ask, there, completed, if_true, true_and]
  exact ⟨still, shown, sent⟩

end VideoPage.Proofs.WillingPlayers
