import VideoPage.Proofs.PercentRange
import VideoPage.Session.Basic

/-! What events say about the videos that they come from. An event is held against the video
at the moment at which it is emitted, in the middle of what a verb does. Most events read the
video back. The others say what the video has just been told, and only a simulated video does
something else than it is told. -/

namespace VideoPage.Proofs.ReportedState
open PercentRange

variable {ι : Type} [DecidableEq ι]

/-- The events that commands emit, each with the players as they are at that moment. -/
def moments (deck : Deck ι) : List (Command ι) → List (Deck ι × Event)
  | [] => []
  | command :: rest =>
    match deck.after? command with
    | none => []
    | some next => (deck.reported command).map (deck, ·) ++ moments next rest

/-- An event agrees with what a video shows. Only actions and seeks say anything about it. -/
def Tells (clip : Clip) : Event → Prop
  | .action _ _ time rate => time = clip.time ∧ rate = clip.rate
  | .seek _ _ target => target = clip.time
  | .bound _ | .skipped .. => True

/-- The video that a component's events are about. -/
def driven : Component ι → Option ι
  | .comparison comparison => some comparison.primary
  | .controls transport => some transport.video
  | .phase timeline => some timeline.video
  | .tooltip _ => none

/-- A timeline is asked for a time behind the end of a simulated video that has no length. -/
def JumpsBehindEnd (deck : Deck ι) : Component ι → Verb → Prop
  | .phase timeline, .jump start =>
    let player := deck timeline.video
    player.kind = .simulated ∧ 0 ≤ player.clip.duration ∧ player.clip.duration ≤ 0 ∧
      0 < Percent.toSegmentTime start player.clip.duration
  | _, _ => False

/-- The moments are those of the events that a performance reports. -/
theorem moments_events (deck : Deck ι) (commands : List (Command ι)) :
    (moments deck commands).map Prod.snd = (deck.perform commands).events := by
  induction commands generalizing deck with
  | nil => rfl
  | cons command rest ih =>
    simp only [moments, Deck.perform]
    cases deck.after? command with
    | none => rfl
    | some next => simp [ih, Function.comp_def]

section Reading

variable {deck : Deck ι} {video : ι} {commands : List (Command ι)}

/-- A command that reports nothing, or reads a video back. -/
def ReadsBack (video : ι) : Command ι → Prop
  | .report _ _ place => place = video
  | .announce _ => False
  | _ => True

theorem tells_of_readsBack (reads : ∀ command ∈ commands, ReadsBack video command) :
    ∀ moment ∈ moments deck commands, Tells (moment.1 video).clip moment.2 := by
  induction commands generalizing deck with
  | nil => exact nofun
  | cons command rest ih =>
    intro moment member
    rw [moments] at member
    cases taken : deck.after? command with
    | none => simp [taken] at member
    | some next =>
      simp only [taken, List.mem_append, List.mem_map] at member
      rcases member with ⟨event, reported, rfl⟩ | later
      · have reads := reads command List.mem_cons_self
        cases command with
        | report id action place =>
          obtain rfl : place = video := reads
          obtain rfl := List.mem_singleton.mp reported
          exact ⟨rfl, rfl⟩
        | announce event => exact reads.elim
        | _ => cases reported
      · exact ih (fun other member => reads other (List.mem_cons_of_mem _ member)) moment later

end Reading

section Seeking

variable {player next : Player} {time : Binary64}

theorem seek?_eq (moved : player.seek? time = some next) :
    next = { player with clip.time := if player.kind = .simulated then time.clamp 0 player.clip.duration else time } ∧
      (player.kind = .simulated → 0 ≤ player.clip.duration) := by
  rw [Player.seek?] at moved
  split at moved
  · next simulated =>
    split at moved
    · next range =>
      cases moved
      exact ⟨by rw [if_pos simulated], fun _ => range⟩
    · cases moved
  · next other =>
    cases moved
    exact ⟨by rw [if_neg other], fun simulated => absurd simulated other⟩

/-- A player goes to a time when it is told to, if it can go anywhere. -/
def Accepts (player : Player) (time : Binary64) : Prop :=
  player.kind = .simulated → 0 ≤ player.clip.duration → time.clamp 0 player.clip.duration = time

theorem accepts_toTime (percent : Binary64) : Accepts player (Percent.toTime percent player.clip.duration) :=
  fun _ range => toTime_accepted percent range

theorem Accepts.seek?_eq (accepts : Accepts player time) (moved : player.seek? time = some next) :
    next = { player with clip.time := time } := by
  obtain ⟨same, range⟩ := ReportedState.seek?_eq moved
  rw [same]
  split
  · next simulated => rw [accepts simulated (range simulated)]
  · rfl

/-- A video that accepts a time is there once it has been sent there, whatever else is sent
there too. -/
theorem tells_of_seeks {deck : Deck ι} {video : ι} (places : List ι) (id : ComponentId) (percent : Binary64)
    (accepts : Accepts (deck video) time) (sent : video ∈ places ∨ (deck video).clip.time = time) :
    ∀ moment ∈ moments deck (places.map (.seek · time) ++ [.announce (.seek id percent time)]),
      Tells (moment.1 video).clip moment.2 := by
  induction places generalizing deck with
  | nil =>
    rcases sent with member | there
    · cases member
    · simpa [moments, Deck.after?, Deck.reported, Tells] using there.symm
  | cons place rest ih =>
    simp only [List.map_cons, List.cons_append, moments, Deck.after?, Deck.reported, List.map_nil, List.nil_append]
    cases moved : (deck place).seek? time with
    | none => exact nofun
    | some player =>
      simp only [Option.map_some]
      by_cases here : place = video
      · subst here
        obtain rfl := accepts.seek?_eq moved
        exact ih (by simpa [Accepts] using accepts) (.inr (by simp))
      · have other : Table.set deck place player video = deck video := Table.set_other _ _ (Ne.symm here)
        refine ih (by rwa [other]) ?_
        rw [other]
        exact sent.imp_left fun member => (List.mem_cons.mp member).resolve_left (Ne.symm here)

end Seeking

section Verbs

variable {deck : Deck ι} {video : ι}

theorem tells_comparison (comparison : Comparison ι) (verb : Verb) :
    ∀ moment ∈ moments deck (Component.comparisonPlan comparison deck verb).commands,
      Tells (moment.1 comparison.primary).clip moment.2 := by
  cases verb with
  | seek percent =>
    exact tells_of_seeks [comparison.primary, comparison.follower] comparison.id (Percent.clamp percent)
      (accepts_toTime _) (.inl List.mem_cons_self)
  | toggle =>
    refine tells_of_readsBack ?_
    simp only [Component.comparisonPlan, Component.answering, Comparison.toggle]
    split <;> simp [Comparison.play, Comparison.pause, ReadsBack]
  | _ =>
    refine tells_of_readsBack ?_
    simp [Component.comparisonPlan, Component.answering, Component.reading, Comparison.play, Comparison.pause,
      Comparison.ended, ReadsBack]

theorem tells_controls (transport : Transport ι) (verb : Verb) :
    ∀ moment ∈ moments deck (Component.controlsPlan transport deck verb).commands,
      Tells (moment.1 transport.video).clip moment.2 := by
  cases verb with
  | seek percent =>
    exact tells_of_seeks [transport.video] transport.id (Percent.clamp percent)
      (accepts_toTime _) (.inl List.mem_cons_self)
  | toggle =>
    refine tells_of_readsBack ?_
    simp only [Component.controlsPlan, Component.answering, Transport.toggle]
    split <;> simp [ReadsBack]
  | _ =>
    refine tells_of_readsBack ?_
    simp [Component.controlsPlan, Component.answering, Component.reading, Transport.slow, Transport.fast,
      Transport.restart, Transport.changeRate, ReadsBack]

/-- Starting a player changes neither where it is nor how fast it plays. -/
theorem play_clip (player : Player) : player.play.clip.time = player.clip.time ∧ player.play.clip.rate = player.clip.rate := by
  rw [Player.play]
  split
  · exact ⟨rfl, rfl⟩
  · exact ⟨rfl, rfl⟩
  · split <;> exact ⟨rfl, rfl⟩

/-- The one event that is not read back: the jump says where it was to go. -/
theorem tells_jump_iff (timeline : Timeline ι) (start : Binary64) :
    (∀ moment ∈ moments deck (timeline.jump start deck).commands, Tells (moment.1 timeline.video).clip moment.2) ↔
      ¬ JumpsBehindEnd deck (.phase timeline) (.jump start) := by
  simp only [Timeline.jump, JumpsBehindEnd]
  generalize stands : deck timeline.video = player
  generalize asked : Percent.toSegmentTime start player.clip.duration = target
  cases moved : player.seek? target with
  | none =>
    have stuck : player.kind = .simulated ∧ ¬ 0 ≤ player.clip.duration := by
      rw [Player.seek?] at moved
      split at moved
      · next simulated => exact ⟨simulated, by simpa using moved⟩
      · cases moved
    simp [moments, Deck.after?, stands, moved, stuck]
  | some next =>
    obtain ⟨same, range⟩ := seek?_eq moved
    have tells : (∀ moment ∈ moments deck [.seek timeline.video target, .play timeline.video,
          .announce (.action timeline.id .segmentJump target player.clip.rate)],
        Tells (moment.1 timeline.video).clip moment.2) ↔ next.clip.time = target := by
      have rate : next.clip.rate = player.clip.rate := by rw [same]
      simp [moments, Deck.after?, Deck.reported, stands, moved, Tells, play_clip, rate, eq_comm]
    rw [tells, same]
    by_cases simulated : player.kind = .simulated
    · simp only [simulated, if_true, true_and, range simulated]
      rw [← asked]
      exact toSegmentTime_accepted_iff start (range simulated)
    · simp [simulated]

theorem tells_phase_iff (timeline : Timeline ι) (verb : Verb) :
    (∀ moment ∈ moments deck (Component.phasePlan timeline deck verb).commands, Tells (moment.1 timeline.video).clip moment.2) ↔
      ¬ JumpsBehindEnd deck (.phase timeline) verb := by
  cases verb with
  | jump start => exact tells_jump_iff timeline start
  | _ => simp [Component.phasePlan, Component.reading, moments, JumpsBehindEnd]

theorem plan_tells_iff {component : Component ι} (drives : driven component = some video) (verb : Verb) :
    (∀ moment ∈ moments deck (component.plan verb deck).commands, Tells (moment.1 video).clip moment.2) ↔
      ¬ JumpsBehindEnd deck component verb := by
  cases component with
  | comparison comparison =>
    cases drives
    exact iff_of_true (tells_comparison comparison verb) (by simp [JumpsBehindEnd])
  | controls transport =>
    cases drives
    exact iff_of_true (tells_controls transport verb) (by simp [JumpsBehindEnd])
  | phase timeline =>
    cases drives
    exact tells_phase_iff timeline verb
  | tooltip tooltip => cases drives

/-- Whatever a session has come to: all events that a verb emits agree with the video that its
component drives unless the verb is a jump behind the end of a video without length. -/
theorem ask_tells_iff (session : Session ι) (steps : List (SessionStep ι)) {position : Nat} {component : Component ι}
    (there : (session.run steps).components[position]? = some component) (drives : driven component = some video)
    (verb : Verb) :
    let reached := session.run steps
    let emitted := moments reached.deck (component.plan verb reached.deck).commands
    (Session.effect reached.deck reached.components (.ask position verb)).events = emitted.map Prod.snd ∧
      ((∀ moment ∈ emitted, Tells (moment.1 video).clip moment.2) ↔ ¬ JumpsBehindEnd reached.deck component verb) := by
  intro reached emitted
  refine ⟨?_, plan_tells_iff drives verb⟩
  rw [Session.effect, Session.ask, there, moments_events]

/-- A timeline over a simulated video without length. -/
def emptyVideo : Session Unit :=
  .opening (fun _ => .simulated { duration := 0 }) [.phase ⟨⟨.phase, 0⟩, ()⟩] .tee

/-- A jump to the middle of it reports half a second, and the video stays at its start. -/
theorem ask_tells_iff_empty_video :
    emptyVideo.components[0]? = some (.phase ⟨⟨.phase, 0⟩, ()⟩) ∧
      (emptyVideo.step (.ask 0 (.jump 50))).2.events = [.action ⟨.phase, 0⟩ .segmentJump 0.5 1] ∧
      ((emptyVideo.step (.ask 0 (.jump 50))).1.deck ()).clip.time = 0 ∧
      ¬ ∀ moment ∈ moments emptyVideo.deck (Component.plan (.phase ⟨⟨.phase, 0⟩, ()⟩) (.jump 50) emptyVideo.deck).commands,
        Tells (moment.1 ()).clip moment.2 := by
  have there : (emptyVideo.run []).components[0]? = some (.phase ⟨⟨.phase, 0⟩, ()⟩) := rfl
  have behind : JumpsBehindEnd emptyVideo.deck (.phase ⟨⟨.phase, 0⟩, ()⟩) (.jump 50) := by
    refine ⟨rfl, ?_⟩
    decide +kernel
  refine ⟨there, by decide +kernel, by decide +kernel, ?_⟩
  exact fun tells => (ask_tells_iff emptyVideo [] there rfl (.jump 50)).2.mp tells behind

end Verbs

end VideoPage.Proofs.ReportedState
