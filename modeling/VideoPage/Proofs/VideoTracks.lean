import VideoPage.Proofs.ComponentPlans
import VideoPage.Session.Basic

/-! One video through a performance. A command changes nothing but the video at its place, and
whether it can be carried out depends on that video alone. So the videos of a component can be
followed without the others, whatever these are. -/

namespace VideoPage.Proofs.VideoTracks
open ComponentPlans

variable {ι : Type} [DecidableEq ι] {deck : Deck ι}

section One

/-- What a command makes of the player at its place. -/
def told? (player : Player) : Command ι → Option Player
  | .seek _ time => player.seek? time
  | .setRate _ rate => some (player.setRate rate)
  | .play _ => some player.play
  | .pause _ => some player.pause
  | .report .. | .announce _ => some player

/-- What commands make of the player of one video. -/
def track? (video : ι) (player : Player) : List (Command ι) → Option Player
  | [] => some player
  | command :: rest =>
    if place command = some video then (told? player command).bind (track? video · rest)
    else track? video player rest

/-- The other videos stay as they are. -/
theorem after_elsewhere {command : Command ι} {next : Deck ι} (taken : deck.after? command = some next) {video : ι}
    (away : place command ≠ some video) : next video = deck video := by
  have other {target : ι} (here : place command = some target) (player : Player) :
      Table.set deck target player video = deck video := by
    apply Table.set_other
    intro same
    exact away (same ▸ here)
  cases command with
  | seek target time =>
    obtain ⟨player, -, rfl⟩ := Option.map_eq_some_iff.mp taken
    exact other rfl player
  | setRate target rate =>
    cases taken
    exact other rfl _
  | play target | pause target =>
    cases taken
    exact other rfl _
  | report | announce =>
    cases taken
    rfl

theorem after_at {command : Command ι} {next : Deck ι} (taken : deck.after? command = some next) {video : ι}
    (here : place command = some video) : told? (deck video) command = some (next video) := by
  cases command with
  | seek target time =>
    cases here
    obtain ⟨player, moved, rfl⟩ := Option.map_eq_some_iff.mp taken
    rw [told?, moved, Table.set_same]
  | setRate target rate =>
    cases here
    cases taken
    rw [told?, Table.set_same]
  | play target | pause target =>
    cases here
    cases taken
    rw [told?, Table.set_same]
  | report | announce => cases here

/-- Commands that come to their end leave each video as they make it, one command after the other. -/
theorem track_perform {commands : List (Command ι)} (completed : (deck.perform commands).completed = true) (video : ι) :
    track? video (deck video) commands = some ((deck.perform commands).deck video) := by
  induction commands generalizing deck with
  | nil => rfl
  | cons command rest ih =>
    cases taken : deck.after? command with
    | none => simp [Deck.perform, taken] at completed
    | some next =>
      simp only [Deck.perform, taken] at completed ⊢
      have later := ih completed
      by_cases here : place command = some video
      · rw [track?, if_pos here, after_at taken here, Option.bind_some, later]
      · rw [track?, if_neg here, ← after_elsewhere taken here, later]

theorem perform_elsewhere {commands : List (Command ι)} {video : ι}
    (away : ∀ command ∈ commands, place command ≠ some video) : (deck.perform commands).deck video = deck video := by
  induction commands generalizing deck with
  | nil => rfl
  | cons command rest ih =>
    cases taken : deck.after? command with
    | none => simp only [Deck.perform, taken]
    | some next =>
      have first := after_elsewhere taken (away command List.mem_cons_self)
      have later := @ih next fun other member => away other (List.mem_cons_of_mem _ member)
      simp only [Deck.perform, taken]
      exact later.trans first

end One

section Several

/-- The video that a command has to do with, be it only to read it. -/
def concerned : Command ι → Option ι
  | .seek place _ | .setRate place _ | .play place | .pause place | .report _ _ place => some place
  | .announce _ => none

omit [DecidableEq ι] in
/-- A component has to do with no videos but its own. -/
theorem gives_concerned {shown : Table ι Clip} {component : Component ι} {commands : List (Command ι)}
    (gives : Gives shown component commands) :
    ∀ command ∈ commands, ∀ video ∈ concerned command, video ∈ videos component := by
  cases gives with
  | hover tooltip inside => simp [concerned]
  | _ => simp [concerned, videos]

variable {other : Deck ι} {places : List ι}

/-- The same players at some places. -/
def Agree (places : List ι) (deck other : Deck ι) : Prop := ∀ video ∈ places, deck video = other video

theorem Agree.set (agree : Agree places deck other) (place : ι) (player : Player) :
    Agree places (Table.set deck place player) (Table.set other place player) := by
  intro video member
  by_cases same : video = place
  · rw [same, Table.set_same, Table.set_same]
  · rw [Table.set_other _ _ same, Table.set_other _ _ same]
    exact agree video member

/-- A command fails on both decks or on neither, and does the same to both. -/
theorem Agree.after (agree : Agree places deck other) {command : Command ι}
    (inside : ∀ video ∈ concerned command, video ∈ places) :
    (deck.after? command = none ∧ other.after? command = none) ∨
      ∃ next following, deck.after? command = some next ∧ other.after? command = some following ∧
        Agree places next following := by
  cases command with
  | seek place time =>
    have same : deck place = other place := agree place (inside place rfl)
    cases moved : (other place).seek? time with
    | none => exact .inl ⟨by simp [Deck.after?, same, moved], by simp [Deck.after?, moved]⟩
    | some player =>
      refine .inr ⟨_, _, by rw [Deck.after?, same, moved]; rfl, by rw [Deck.after?, moved]; rfl, ?_⟩
      exact agree.set place player
  | setRate place rate =>
    refine .inr ⟨_, _, rfl, rfl, ?_⟩
    rw [agree place (inside place rfl)]
    exact agree.set place _
  | play place | pause place =>
    refine .inr ⟨_, _, rfl, rfl, ?_⟩
    rw [agree place (inside place rfl)]
    exact agree.set place _
  | report | announce => exact .inr ⟨deck, other, rfl, rfl, agree⟩

omit [DecidableEq ι] in
theorem Agree.reported (agree : Agree places deck other) {command : Command ι}
    (inside : ∀ video ∈ concerned command, video ∈ places) : deck.reported command = other.reported command := by
  cases command with
  | report id action place => simp only [Deck.reported, agree place (inside place rfl)]
  | _ => rfl

/-- Commands that have to do with some videos only do the same wherever these are the same. -/
theorem Agree.perform (agree : Agree places deck other) {commands : List (Command ι)}
    (inside : ∀ command ∈ commands, ∀ video ∈ concerned command, video ∈ places) :
    Agree places (deck.perform commands).deck (other.perform commands).deck ∧
      (deck.perform commands).events = (other.perform commands).events ∧
      (deck.perform commands).completed = (other.perform commands).completed := by
  induction commands generalizing deck other with
  | nil => exact ⟨agree, rfl, rfl⟩
  | cons command rest ih =>
    have own := inside command List.mem_cons_self
    rcases agree.after own with ⟨failed, fails⟩ | ⟨next, following, taken, takes, still⟩
    · simp only [Deck.perform, failed, fails]
      exact ⟨agree, trivial, trivial⟩
    · obtain ⟨decks, events, completed⟩ := ih still fun later member => inside later (List.mem_cons_of_mem _ member)
      simp only [Deck.perform, taken, takes, events, completed, agree.reported own]
      exact ⟨decks, trivial, trivial⟩

end Several

end VideoPage.Proofs.VideoTracks
