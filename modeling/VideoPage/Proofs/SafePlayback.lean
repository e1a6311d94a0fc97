import VideoPage.Proofs.ComponentPlans
import VideoPage.Proofs.RateSteps
import VideoPage.Proofs.RunningClock

/-! Simulated videos in a session. Each stays within its duration and keeps a rate at which it can be
played, so no component ever asks it for anything that it cannot do. The components see to that by
themselves: the times that they ask for are never NaN and the rates always playable, whatever the
videos show. -/

namespace VideoPage.Proofs.SafePlayback
open ComponentPlans (answer_ne_fault)
open NumberOrder PercentConversions RateSteps RunningClock

section Clips

/-- A video within its duration that can be played. -/
@[mk_iff]
structure InPlay (clip : Clip) : Prop where
  time : Between 0 clip.duration clip.time
  rate : Playable clip.rate

instance (clip : Clip) : Decidable (InPlay clip) :=
  decidable_of_iff' _ (inPlay_iff clip)

variable {clip : Clip}

theorem InPlay.range (inPlay : InPlay clip) : 0 ≤ clip.duration := NumberOrder.le_trans inPlay.time.above inPlay.time.below

/-- Where a video under way is after some seconds. -/
theorem time_moves (inPlay : InPlay clip) {seconds : Binary64} (nonneg : 0 ≤ seconds) :
    let time := (clip.time + seconds * clip.rate).minimum clip.duration
    clip.time ≤ time ∧ time ≤ clip.duration := by
  intro time
  obtain ⟨a, same, finite, positive⟩ := inPlay.rate.shape
  have ahead : 0 ≤ seconds * clip.rate := by
    rw [same]
    exact NumberOrder.mul_nonneg finite positive nonneg
  have moved : clip.time ≤ clip.time + seconds * clip.rate := le_add inPlay.time.above ahead
  refine ⟨?_, (minimum_le (numbers_of_le moved).2 (numbers_of_le inPlay.range).2).2⟩
  rcases minimum_cases (clip.time + seconds * clip.rate) clip.duration with first | second
  · exact (congrArg (clip.time ≤ ·) first).mpr moved
  · exact (congrArg (clip.time ≤ ·) second).mpr inPlay.time.below

/-- What becomes of a video in some seconds, and when it says that it has ended. -/
structure Advances (clip next : Clip) (ended : Bool) : Prop where
  inPlay : InPlay next
  duration : next.duration = clip.duration
  forward : clip.time ≤ next.time
  ended_iff : ended = true ↔ clip.paused = false ∧ Same next.time next.duration
  paused : ended = true → next.paused = true

theorem advance_advances {player : Player} (inPlay : InPlay player.clip) {seconds : Binary64} (nonneg : 0 ≤ seconds) :
    Advances player.clip (player.advance seconds).1.clip (player.advance seconds).2 := by
  cases paused : player.clip.paused with
  | true =>
    rw [advance_paused paused]
    exact ⟨inPlay, rfl, le_self inPlay.time.number, by simp [paused], Bool.noConfusion⟩
  | false =>
    obtain ⟨forward, inside⟩ := time_moves inPlay nonneg
    simp only [Player.advance, paused, Bool.false_eq_true, if_false]
    refine ⟨⟨⟨NumberOrder.le_trans inPlay.time.above forward, inside⟩, inPlay.rate⟩, rfl, forward, ?_, id⟩
    exact ⟨fun ended => ⟨paused, inside, ended⟩, fun same => same.2.2⟩

end Clips

section Players

/-- A player is still what it was at the start: a simulated video of some length in play, or another
player, about which nothing is said. -/
structure Kept (start player : Player) : Prop where
  kind : player.kind = .simulated ↔ start.kind = .simulated
  clip : start.kind = .simulated → InPlay player.clip ∧ player.clip.duration = start.clip.duration

variable {start player : Player}

theorem Kept.change {next : Player} (kept : Kept start player) (kind : next.kind = .simulated ↔ player.kind = .simulated)
    (clip : player.kind = .simulated → InPlay player.clip → InPlay next.clip ∧ next.clip.duration = player.clip.duration) :
    Kept start next where
  kind := kind.trans kept.kind
  clip simulated := by
    obtain ⟨inPlay, same⟩ := kept.clip simulated
    obtain ⟨still, duration⟩ := clip (kept.kind.mpr simulated) inPlay
    exact ⟨still, duration.trans same⟩

theorem Kept.seek (kept : Kept start player) {time : Binary64} (number : time.isNaN = false) :
    ∃ next, player.seek? time = some next ∧ Kept start next := by
  rw [Player.seek?]
  split
  · next simulated =>
    have range : 0 ≤ player.clip.duration := (kept.clip (kept.kind.mp simulated)).1.range
    rw [if_pos range]
    exact ⟨_, rfl, kept.change Iff.rfl fun _ inPlay => ⟨⟨clamp_between range number, inPlay.rate⟩, rfl⟩⟩
  · next other =>
    exact ⟨_, rfl, kept.change Iff.rfl fun simulated => absurd simulated other⟩

theorem Kept.setRate (kept : Kept start player) {rate : Binary64} (playable : Playable rate) : Kept start (player.setRate rate) :=
  kept.change Iff.rfl fun _ inPlay => ⟨⟨inPlay.time, playable⟩, rfl⟩

theorem Kept.play (kept : Kept start player) : Kept start player.play := by
  apply kept.change
  · rw [Player.play]
    split
    · next same => simp [same]
    · exact Iff.rfl
    · split <;> exact Iff.rfl
  · intro simulated inPlay
    simp only [Player.play, simulated]
    exact ⟨⟨inPlay.time, inPlay.rate⟩, trivial⟩

theorem Kept.pause (kept : Kept start player) : Kept start player.pause :=
  kept.change Iff.rfl fun _ inPlay => ⟨⟨inPlay.time, inPlay.rate⟩, rfl⟩

theorem Kept.later (kept : Kept start player) {seconds : Binary64} (nonneg : 0 ≤ seconds) :
    Kept start (later seconds player) := by
  apply kept.change
  · rw [RunningClock.later, Player.advance]
    split <;> exact Iff.rfl
  · intro _ inPlay
    have advances := advance_advances inPlay nonneg
    exact ⟨advances.inPlay, advances.duration⟩

theorem Kept.run (kept : Kept start player) (ticks : Nat) : Kept start (player.run ticks) := by
  induction ticks generalizing player with
  | zero => exact kept
  | succ ticks ih =>
    rw [run_succ]
    exact ih (kept.later (by decide +kernel))

end Players

variable {ι : Type}

section Commands

/-- A command that every simulated video in play can carry out and stays in play with. -/
def Safe : Command ι → Prop
  | .seek _ time => time.isNaN = false
  | .setRate _ rate => Playable rate
  | .play _ | .pause _ | .report .. | .announce _ => True

variable [DecidableEq ι] {start deck : Deck ι}

/-- All players are still what they were at the start. -/
def AllKept (start deck : Deck ι) : Prop := ∀ place, Kept (start place) (deck place)

theorem AllKept.set (kept : AllKept start deck) {place : ι} {player : Player} (also : Kept (start place) player) :
    AllKept start (Table.set deck place player) := by
  intro other
  by_cases same : other = place
  · subst same
    rwa [Table.set_same]
  · rw [Table.set_other _ _ same]
    exact kept other

theorem after_kept (kept : AllKept start deck) {command : Command ι} (safe : Safe command) :
    ∃ next, deck.after? command = some next ∧ AllKept start next := by
  cases command with
  | seek place time =>
    obtain ⟨player, moved, still⟩ := (kept place).seek safe
    exact ⟨_, by rw [Deck.after?, moved, Option.map_some], kept.set still⟩
  | setRate place rate => exact ⟨_, rfl, kept.set ((kept place).setRate safe)⟩
  | play place => exact ⟨_, rfl, kept.set (kept place).play⟩
  | pause place => exact ⟨_, rfl, kept.set (kept place).pause⟩
  | report | announce => exact ⟨deck, rfl, kept⟩

theorem perform_kept (kept : AllKept start deck) {commands : List (Command ι)} (safe : ∀ command ∈ commands, Safe command) :
    (deck.perform commands).completed = true ∧ AllKept start (deck.perform commands).deck := by
  induction commands generalizing deck with
  | nil => exact ⟨rfl, kept⟩
  | cons command rest ih =>
    obtain ⟨next, taken, still⟩ := after_kept kept (safe command List.mem_cons_self)
    have performed := ih still fun other member => safe other (List.mem_cons_of_mem _ member)
    simpa only [Deck.perform, taken] using performed

end Commands

section Components

variable {component : Component ι}

/-- A component whose settings a video can be played with. -/
def Sound : Component ι → Prop
  | .comparison c => Playable c.rate
  | .controls t => Usable t.limits
  | .phase _ | .tooltip _ => True

theorem Sound.next (sound : Sound component) (verb : Verb) : Sound (component.next verb) := by
  cases component with
  | tooltip tooltip => cases verb <;> trivial
  | comparison | controls | phase => exact sound

theorem start_safe (sound : Sound component) : ∀ command ∈ component.start, Safe command := by
  cases component with
  | comparison c =>
    have playable : Playable c.rate := sound
    simpa [Component.start, Comparison.start, Safe] using playable
  | controls | phase | tooltip => exact List.forall_mem_nil _

/-- What the videos show does not matter. -/
theorem plan_safe (sound : Sound component) (verb : Verb) (deck : Deck ι) :
    ∀ command ∈ (component.plan verb deck).commands, Safe command := by
  cases component with
  | comparison c =>
    cases verb with
    | toggle =>
      simp only [Component.plan, Component.comparisonPlan, Component.answering, Comparison.toggle]
      split <;> simp [Comparison.play, Comparison.pause, Safe]
    | seek percent =>
      simp [Component.plan, Component.comparisonPlan, Component.answering, Comparison.seek, Safe, toTime_number]
    | _ =>
      simp [Component.plan, Component.comparisonPlan, Component.answering, Component.reading, Comparison.play,
        Comparison.pause, Comparison.ended, Safe, zero_number]
  | controls t =>
    have usable : Usable t.limits := sound
    cases verb with
    | toggle =>
      simp only [Component.plan, Component.controlsPlan, Component.answering, Transport.toggle]
      split <;> simp [Safe]
    | seek percent =>
      simp [Component.plan, Component.controlsPlan, Component.answering, Transport.seek, Safe, toTime_number]
    | _ =>
      simp [Component.plan, Component.controlsPlan, Component.answering, Component.reading, Transport.slow, Transport.fast,
        Transport.restart, Transport.changeRate, Safe, zero_number, slower_playable usable, faster_playable usable, usable.reset]
  | phase t =>
    cases verb with
    | jump percent =>
      simp [Component.plan, Component.phasePlan, Component.answering, Timeline.jump, Safe, toSegmentTime_number]
    | _ => simp [Component.plan, Component.phasePlan, Component.reading]
  | tooltip t =>
    cases verb with
    | enter | leave => simp [Component.plan, Component.tooltipPlan, Component.hoverPlan, Safe]
    | _ => simp [Component.plan, Component.tooltipPlan, Component.reading]

end Components

section Sessions

/-- Anything but to overwrite a player or to turn time back. -/
def Allowed : SessionStep ι → Prop
  | .advance _ seconds => 0 ≤ seconds
  | .overwrite .. => False
  | .ask .. | .run .. | .report _ | .clear => True

variable [DecidableEq ι] {start : Deck ι} {session : Session ι}

/-- A session whose players are still what they were, with components for them. -/
structure Going (start : Deck ι) (session : Session ι) : Prop where
  videos : AllKept start session.deck
  components : ∀ component ∈ session.components, Sound component

theorem step_going (going : Going start session) {step : SessionStep ι} (allowed : Allowed step) :
    Going start (session.step step).1 ∧ (session.step step).2.answer ≠ .fault := by
  cases step with
  | ask position verb =>
    simp only [Session.step, Session.effect, Session.ask]
    split
    · exact ⟨⟨going.videos, going.components⟩, Answer.noConfusion⟩
    · next component there =>
      have sound := going.components component (List.mem_of_getElem? there)
      obtain ⟨completed, still⟩ := perform_kept going.videos (plan_safe sound verb session.deck)
      refine ⟨⟨still, ?_⟩, ?_⟩
      · intro other member
        rcases List.mem_or_eq_of_mem_set member with old | rfl
        · exact going.components other old
        · exact sound.next verb
      · rw [if_pos completed]
        exact answer_ne_fault component verb
  | report | clear => exact ⟨⟨going.videos, going.components⟩, Answer.noConfusion⟩
  | overwrite => exact allowed.elim
  | advance place seconds =>
    exact ⟨⟨going.videos.set ((going.videos place).later allowed), going.components⟩, Answer.noConfusion⟩
  | run place ticks => exact ⟨⟨going.videos.set ((going.videos place).run ticks), going.components⟩, Answer.noConfusion⟩

theorem run_going (going : Going start session) {steps : List (SessionStep ι)} (allowed : ∀ step ∈ steps, Allowed step) :
    Going start (session.run steps) ∧ ∀ report ∈ session.reports steps, report.1.answer ≠ .fault := by
  induction steps generalizing session with
  | nil => exact ⟨going, List.forall_mem_nil _⟩
  | cons step rest ih =>
    obtain ⟨first, answers⟩ := step_going going (allowed step List.mem_cons_self)
    obtain ⟨last, later⟩ := ih first fun other member => allowed other (List.mem_cons_of_mem _ member)
    exact ⟨last, List.forall_mem_cons.mpr ⟨answers, later⟩⟩

theorem opening_going {components : List (Component ι)}
    (videos : ∀ place, (start place).kind = .simulated → InPlay (start place).clip)
    (sound : ∀ component ∈ components, Sound component) (sink : Sink) : Going start (.opening start components sink) where
  components := sound
  videos := by
    have kept : AllKept start start := fun place => ⟨Iff.rfl, fun simulated => ⟨videos place simulated, rfl⟩⟩
    refine (perform_kept kept ?_).2
    intro command member
    obtain ⟨component, inside, given⟩ := List.mem_flatMap.mp member
    exact start_safe (sound component inside) command given

/-- Whatever the components are asked and however time passes, nothing fails, and every simulated video
stays in play. Wherever the session has got to, time passes forwards, and a video says that it has
ended when it was playing and is at its end, where it is paused. -/
theorem playback_safe (deck : Deck ι) (components : List (Component ι)) (sink : Sink)
    (videos : ∀ place, (deck place).kind = .simulated → InPlay (deck place).clip)
    (sound : ∀ component ∈ components, Sound component) (steps : List (SessionStep ι))
    (allowed : ∀ step ∈ steps, Allowed step) :
    let opened := Session.opening deck components sink
    let reached := opened.run steps
    (∀ report ∈ opened.reports steps, report.1.answer ≠ .fault) ∧
      ∀ place, (deck place).kind = .simulated →
        (reached.deck place).kind = .simulated ∧ (reached.deck place).clip.duration = (deck place).clip.duration ∧
          InPlay (reached.deck place).clip ∧
          ∀ seconds, 0 ≤ seconds →
            let after := reached.step (.advance place seconds)
            ∃ ended, after.2.answer = .truth ended ∧ Advances (reached.deck place).clip (after.1.deck place).clip ended := by
  intro opened reached
  obtain ⟨going, answers⟩ := run_going (opening_going videos sound sink) allowed
  refine ⟨answers, fun place simulated => ?_⟩
  have kept : Kept (deck place) (reached.deck place) := going.videos place
  obtain ⟨inPlay, duration⟩ := kept.clip simulated
  refine ⟨kept.kind.mpr simulated, duration, inPlay, fun seconds nonneg => ?_⟩
  refine ⟨((reached.deck place).advance seconds).2, rfl, ?_⟩
  rw [step_advance, deck_replaced]
  exact advance_advances inPlay nonneg

/-- A video of some length, one without end that is under way, and other players that show no
duration. -/
def mixedDeck : Deck Nat
  | 0 => .simulated { time := 3, duration := 12 }
  | 1 => .simulated { duration := .signed false .infinity, paused := false }
  | _ => .stub { rate := 0 }

/-- The comparison follows the player without a duration, and the steps of the rate overflow. -/
def mixedComponents : List (Component Nat) :=
  [.comparison ⟨⟨.comparison, 0⟩, 2, 0, 0.5⟩, .controls ⟨⟨.controls, 0⟩, 1, wideLimits⟩, .phase ⟨⟨.phase, 0⟩, 0⟩]

def mixedSteps : List (SessionStep Nat) :=
  [.ask 0 (.seek .nan), .ask 1 .fast, .advance 1 4, .ask 1 .toggle, .ask 2 (.jump 50), .ask 0 .toggle, .run 0 64,
    .ask 1 .restart]

def mixedSession : Session Nat := .opening mixedDeck mixedComponents .tee

theorem playback_safe_mixed :
    (∀ place, (mixedDeck place).kind = .simulated → InPlay (mixedDeck place).clip) ∧
      (∀ component ∈ mixedComponents, Sound component) ∧ (∀ step ∈ mixedSteps, Allowed step) ∧
      (∀ report ∈ mixedSession.reports mixedSteps, report.1.answer ≠ .fault) ∧
      InPlay ((mixedSession.run mixedSteps).deck 1).clip ∧
      ((mixedSession.run mixedSteps).deck 0).clip = { time := 12, duration := 12, rate := 0.5 } := by
  have videos : ∀ place, (mixedDeck place).kind = .simulated → InPlay (mixedDeck place).clip := by
    intro place simulated
    cases place with
    | zero => decide +kernel
    | succ other =>
      cases other with
      | zero => decide +kernel
      | succ => cases simulated
  have sound : ∀ component ∈ mixedComponents, Sound component := by
    have half : Playable 0.5 := by decide +kernel
    have wide : Usable wideLimits :=
      ⟨by decide +kernel, by decide +kernel, by decide +kernel, ⟨by decide +kernel, by decide +kernel⟩⟩
    simp only [mixedComponents, List.forall_mem_cons, Sound]
    exact ⟨half, wide, trivial, List.forall_mem_nil _⟩
  have allowed : ∀ step ∈ mixedSteps, Allowed step := by
    have four : (0 : Binary64) ≤ 4 := by decide +kernel
    simp only [mixedSteps, List.forall_mem_cons, Allowed, true_and]
    exact ⟨four, List.forall_mem_nil _⟩
  obtain ⟨answers, kept⟩ := playback_safe mixedDeck mixedComponents .tee videos sound mixedSteps allowed
  obtain ⟨-, -, endless, -⟩ := kept 1 rfl
  unfold mixedSession
  exact ⟨videos, sound, allowed, answers, endless, by decide +kernel⟩

end Sessions

end VideoPage.Proofs.SafePlayback
