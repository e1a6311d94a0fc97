import VideoPage.Proofs.ComponentPlans
import VideoPage.Proofs.ReportedState
import VideoPage.Proofs.WillingPlayers

/-! Primary and follower in lockstep. Two simulated videos that show the same do so for as long as
only their comparison and one clock for both move them. When something else has moved one of them,
the next thing that the comparison does brings back in step what it sets. -/

namespace VideoPage.Proofs.Lockstep
open ComponentPlans PercentRange ReportedState WillingPlayers

variable {ι : Type} [DecidableEq ι]

section Together

/-- What a comparison does to each of its videos. -/
inductive Motion where
  | seek (time : Binary64)
  | play
  | pause

def Motion.command (place : ι) : Motion → Command ι
  | seek time => .seek place time
  | play => .play place
  | pause => .pause place

def Motion.on? (player : Player) : Motion → Option Player
  | seek time => player.seek? time
  | play => some player.play
  | pause => some player.pause

/-- Both videos of a comparison are simulated and show the same, over a duration that is a range. -/
structure Together (c : Comparison ι) (clip : Clip) (deck : Deck ι) : Prop where
  primary : deck c.primary = .simulated clip
  follower : deck c.follower = .simulated clip
  range : 0 ≤ clip.duration

variable {c : Comparison ι} {clip : Clip} {deck : Deck ι}

theorem after_command (motion : Motion) (place : ι) :
    deck.after? (motion.command place) = (motion.on? (deck place)).map (deck.set place) := by
  cases motion <;> rfl

/-- A motion always succeeds, and the second time it changes nothing. -/
theorem apply_simulated (motion : Motion) (range : 0 ≤ clip.duration) :
    ∃ next, motion.on? (.simulated clip) = some (.simulated next) ∧
      motion.on? (.simulated next) = some (.simulated next) ∧ next.duration = clip.duration := by
  cases motion with
  | seek time =>
    exact ⟨{ clip with time := time.clamp 0 clip.duration }, if_pos range, if_pos range, rfl⟩
  | play => exact ⟨{ clip with paused := false }, rfl, rfl, rfl⟩
  | pause => exact ⟨{ clip with paused := true }, rfl, rfl, rfl⟩

/-- Commands that leave the videos together. -/
def Steady (c : Comparison ι) (commands : List (Command ι)) : Prop :=
  ∀ deck clip, Together c clip deck →
    (deck.perform commands).completed = true ∧ ∃ next, Together c next (deck.perform commands).deck

theorem Steady.nil : Steady c [] := fun _ clip together => ⟨rfl, clip, together⟩

theorem Steady.report {rest : List (Command ι)} (steady : Steady c rest) (id : ComponentId) (action : ActionKind) (place : ι) :
    Steady c (.report id action place :: rest) := steady

theorem Steady.announce {rest : List (Command ι)} (steady : Steady c rest) (event : Event) :
    Steady c (.announce event :: rest) := steady

theorem Steady.both {rest : List (Command ι)} (steady : Steady c rest) (motion : Motion) :
    Steady c (motion.command c.primary :: motion.command c.follower :: rest) := by
  intro deck clip together
  obtain ⟨next, first, again, duration⟩ := apply_simulated motion together.range
  have second : motion.on? (Table.set deck c.primary (.simulated next) c.follower) = some (.simulated next) := by
    by_cases same : c.follower = c.primary
    · rw [same, Table.set_same, again]
    · rw [Table.set_other _ _ same, together.follower, first]
  have still : Together c next ((Table.set deck c.primary (.simulated next)).set c.follower (.simulated next)) := by
    refine ⟨?_, Table.set_same _ _ _, duration ▸ together.range⟩
    by_cases same : c.primary = c.follower
    · rw [same, Table.set_same]
    · rw [Table.set_other _ _ same, Table.set_same]
  simp only [Deck.perform, after_command, together.primary, first, Option.map_some, second]
  exact steady _ _ still

theorem gives_steady {shown : Table ι Clip} {commands : List (Command ι)} (gives : Gives shown (.comparison c) commands) :
    Steady c commands := by
  cases gives with
  | nothing => exact .nil
  | playBoth => exact (Steady.nil.report _ _ _).both .play
  | pauseBoth => exact (Steady.nil.report _ _ _).both .pause
  | seekBoth percent asked => exact (Steady.nil.announce _).both (.seek _)
  | rewindBoth => exact (((Steady.nil.report _ _ _).both (.seek 0)).report _ _ _).both .pause

/-- Time passes alike for videos that show the same. -/
theorem advance_simulated (clip : Clip) (seconds : Binary64) :
    ∃ next ended, (Player.simulated clip).advance seconds = (.simulated next, ended) ∧ next.duration = clip.duration := by
  rw [Player.advance]
  split
  · exact ⟨clip, false, rfl, rfl⟩
  · exact ⟨_, _, rfl, rfl⟩

end Together

section Uses

/-- What happens to a comparison: it is asked something, or time passes for both of its videos, in
one order or the other. -/
inductive Use where
  | ask (verb : Verb)
  | tick (seconds : Binary64) (followerFirst : Bool)

/-- The steps of a session that consists of one comparison. -/
def Use.steps (c : Comparison ι) : Use → List (SessionStep ι)
  | ask verb => [.ask 0 verb]
  | tick seconds false => [.advance c.primary seconds, .advance c.follower seconds]
  | tick seconds true => [.advance c.follower seconds, .advance c.primary seconds]

/-- A session that consists of one comparison, whose videos are together. -/
structure InStep (c : Comparison ι) (session : Session ι) : Prop where
  alone : session.components = [.comparison c]
  together : ∃ clip, Together c clip session.deck

variable {c : Comparison ι} {clip : Clip} {deck : Deck ι} {session : Session ι}

theorem ask_inStep (inStep : InStep c session) (verb : Verb) :
    InStep c (session.step (.ask 0 verb)).1 ∧ (session.step (.ask 0 verb)).2.answer ≠ .fault := by
  obtain ⟨clip, together⟩ := inStep.together
  have gives := @plan_gives _ session.deck (.comparison c) verb
  obtain ⟨completed, still⟩ := gives_steady gives session.deck clip together
  have there : session.components[0]? = some (.comparison c) := by rw [inStep.alone]; rfl
  constructor
  · refine ⟨?_, ?_⟩
    · simp [Session.step, Session.effect, Session.ask, inStep.alone, Component.next]
    · simpa only [Session.step, Session.effect, Session.ask, there] using still
  · simpa only [Session.step, Session.effect, Session.ask, there, completed, if_true] using answer_ne_fault (.comparison c) verb

/-- The same seconds for two videos that show the same, even if they are one video. -/
theorem advance_both {one other : ι} (here : deck one = .simulated clip) (there : deck other = .simulated clip)
    (seconds : Binary64) :
    let first := Table.set deck one ((deck one).advance seconds).1
    let second := Table.set first other ((first other).advance seconds).1
    ∃ next, second one = .simulated next ∧ second other = .simulated next ∧ next.duration = clip.duration := by
  intro first second
  obtain ⟨next, ended, moved, duration⟩ := advance_simulated clip seconds
  have once : first = Table.set deck one (.simulated next) := by simp only [first, here, moved]
  by_cases same : other = one
  · subst same
    obtain ⟨later, again, twice, still⟩ := advance_simulated next seconds
    have both : second other = .simulated later := by simp [second, once, twice]
    exact ⟨later, both, both, still.trans duration⟩
  · refine ⟨next, ?_, ?_, duration⟩
    · simp [second, Table.set_other _ _ (Ne.symm same), once]
    · simp [second, once, same, there, moved]

theorem use_inStep (inStep : InStep c session) (use : Use) :
    InStep c (session.run (use.steps c)) ∧ ∀ report ∈ session.reports (use.steps c), report.1.answer ≠ .fault := by
  cases use with
  | ask verb =>
    obtain ⟨still, answers⟩ := ask_inStep inStep verb
    exact ⟨still, by simpa [Use.steps, Session.reports] using answers⟩
  | tick seconds followerFirst =>
    obtain ⟨clip, together⟩ := inStep.together
    cases followerFirst with
    | false =>
      obtain ⟨next, primary, follower, duration⟩ := advance_both together.primary together.follower seconds
      refine ⟨⟨inStep.alone, next, primary, follower, duration ▸ together.range⟩, ?_⟩
      simp [Use.steps, Session.reports, Session.step, Session.effect]
    | true =>
      obtain ⟨next, follower, primary, duration⟩ := advance_both together.follower together.primary seconds
      refine ⟨⟨inStep.alone, next, primary, follower, duration ▸ together.range⟩, ?_⟩
      simp [Use.steps, Session.reports, Session.step, Session.effect]

theorem uses_inStep (inStep : InStep c session) (uses : List Use) :
    InStep c (session.run (uses.flatMap (Use.steps c))) ∧
      ∀ report ∈ session.reports (uses.flatMap (Use.steps c)), report.1.answer ≠ .fault := by
  induction uses generalizing session with
  | nil => exact ⟨inStep, by simp [Session.reports]⟩
  | cons use rest ih =>
    obtain ⟨first, answers⟩ := use_inStep inStep use
    obtain ⟨last, later⟩ := ih first
    rw [List.flatMap_cons, reports_append, List.forall_mem_append]
    refine ⟨?_, answers, later⟩
    rw [Session.run, List.foldl_append]
    exact last

theorem opening_inStep (primary : deck c.primary = .simulated clip) (follower : deck c.follower = .simulated clip)
    (range : 0 ≤ clip.duration) (sink : Sink) : InStep c (Session.opening deck [.comparison c] sink) := by
  refine ⟨rfl, { clip with rate := c.rate }, ?_, ?_, range⟩
  all_goals
    simp only [Session.opening, List.flatMap_cons, List.flatMap_nil, List.append_nil, Component.start, Comparison.start,
      Deck.perform, Deck.after?]
    by_cases same : c.primary = c.follower
    · simp [same, follower, Player.setRate, Player.simulated]
    · simp [same, Ne.symm same, primary, follower, Player.setRate, Player.simulated]

end Uses

section Rejoining

variable {c : Comparison ι} {deck : Deck ι}

/-- A command that neither starts nor stops a player. -/
def Resting : Command ι → Prop
  | .play _ | .pause _ => False
  | _ => True

theorem paused_resting {commands : List (Command ι)} (resting : ∀ command ∈ commands, Resting command) (video : ι) :
    ((deck.perform commands).deck video).clip.paused = (deck video).clip.paused := by
  induction commands generalizing deck with
  | nil => rfl
  | cons command rest ih =>
    have later := fun next => @ih next fun other member => resting other (List.mem_cons_of_mem _ member)
    have rests := resting command List.mem_cons_self
    have set_paused {place : ι} {player : Player} (same : player.clip.paused = (deck place).clip.paused) :
        (Table.set deck place player video).clip.paused = (deck video).clip.paused := by
      by_cases here : video = place
      · rw [here, Table.set_same, same]
      · rw [Table.set_other _ _ here]
    cases command with
    | seek place time =>
      cases moved : (deck place).seek? time with
      | none => simp [Deck.perform, Deck.after?, moved]
      | some player =>
        obtain ⟨rfl, -⟩ := seek?_eq moved
        simp only [Deck.perform, Deck.after?, moved, Option.map_some, later]
        exact set_paused rfl
    | setRate place rate => exact (later _).trans (set_paused rfl)
    | report | announce => exact later deck
    | play | pause => exact rests.elim

theorem play_starts {player : Player} (free : player.kind ≠ .embedded true) : player.play.clip.paused = false := by
  obtain ⟨kind, clip⟩ := player
  cases kind with
  | stub | simulated => rfl
  | embedded blocked =>
    cases blocked with
    | false => rfl
    | true => exact absurd rfl free

/-- Commands that start both videos or stop both, and do no such thing afterwards. -/
inductive SetsBoth (c : Comparison ι) : List (Command ι) → Prop where
  | play {rest : List (Command ι)} (resting : ∀ command ∈ rest, Resting command) :
      SetsBoth c (.play c.primary :: .play c.follower :: rest)
  | pause {rest : List (Command ι)} (resting : ∀ command ∈ rest, Resting command) :
      SetsBoth c (.pause c.primary :: .pause c.follower :: rest)

/-- Both flags are the same afterwards, whatever they were. -/
theorem paused_both (primary : (deck c.primary).kind ≠ .embedded true) (follower : (deck c.follower).kind ≠ .embedded true)
    {commands : List (Command ι)} (sets : SetsBoth c commands) :
    let after := (deck.perform commands).deck
    (after c.primary).clip.paused = (after c.follower).clip.paused := by
  intro after
  by_cases same : c.primary = c.follower
  · rw [same]
  · cases sets with
    | play resting =>
      simp [after, Deck.perform, Deck.after?, paused_resting resting, same, Ne.symm same, play_starts primary,
        play_starts follower]
    | pause resting =>
      simp [after, Deck.perform, Deck.after?, paused_resting resting, same, Ne.symm same, Player.pause]

omit [DecidableEq ι] in
theorem plan_both {verb : Verb} (sets : verb ∈ [.play, .pause, .toggle, .ended]) :
    SetsBoth c ((Component.comparison c).plan verb deck).commands := by
  simp only [List.mem_cons, List.not_mem_nil, or_false] at sets
  have play : SetsBoth c c.play.commands := .play (by simp [Resting])
  have pause : SetsBoth c c.pause.commands := .pause (by simp [Resting])
  rcases sets with rfl | rfl | rfl | rfl
  · exact play
  · exact pause
  · simp only [Component.plan, Component.comparisonPlan, Component.answering, Comparison.toggle]
    split
    · exact pause
    · exact play
  · exact .pause (by simp [Resting])

theorem seek?_room {player : Player} {time : Binary64} (room : time.clamp 0 player.clip.duration = time)
    (range : 0 ≤ player.clip.duration) : player.seek? time = some { player with clip.time := time } := by
  rw [Player.seek?]
  split
  · rw [if_pos range, room]
  · rfl

/-- Both videos go to a time that a duration like theirs has room for. -/
theorem time_both {time : Binary64} (room : time.clamp 0 (deck c.primary).clip.duration = time)
    (range : 0 ≤ (deck c.primary).clip.duration)
    (durations : (deck c.primary).clip.duration = (deck c.follower).clip.duration) {rest : List (Command ι)}
    (reports : ∀ next : Deck ι, (next.perform rest).deck = next) :
    let after := (deck.perform (.seek c.primary time :: .seek c.follower time :: rest)).deck
    (after c.primary).clip.time = (after c.follower).clip.time := by
  intro after
  by_cases same : c.primary = c.follower
  · rw [same]
  · have first := seek?_room room range
    have second := seek?_room (durations ▸ room) (durations ▸ range)
    simp [after, Deck.perform, Deck.after?, first, second, reports, same, Ne.symm same]

theorem zero_room {duration : Binary64} (range : 0 ≤ duration) : (0 : Binary64).clamp 0 duration = 0 := by
  cases known : Percent.isKnownDuration duration with
  | true =>
    obtain ⟨limit, rfl, -⟩ := known_shape known
    exact Within.zero.clamp_eq
  | false =>
    have room := toTime_accepted 0 range
    rwa [Percent.toTime, known, if_neg Bool.false_ne_true] at room

theorem duration_pause (place video : ι) :
    (Table.set deck place (deck place).pause video).clip.duration = (deck video).clip.duration := by
  by_cases here : video = place
  · rw [here, Table.set_same]
    rfl
  · rw [Table.set_other _ _ here]

theorem times_both (range : 0 ≤ (deck c.primary).clip.duration)
    (durations : (deck c.primary).clip.duration = (deck c.follower).clip.duration) {verb : Verb}
    (moves : verb = .ended ∨ ∃ percent, verb = .seek percent) :
    let after := (deck.perform ((Component.comparison c).plan verb deck).commands).deck
    (after c.primary).clip.time = (after c.follower).clip.time := by
  rcases moves with rfl | ⟨percent, rfl⟩
  · -- Both are paused before they are rewound.
    let once := Table.set deck c.primary (deck c.primary).pause
    let twice := Table.set once c.follower (once c.follower).pause
    have kept (video : ι) : (twice video).clip.duration = (deck video).clip.duration :=
      (duration_pause c.follower video).trans (duration_pause c.primary video)
    have room := zero_room range
    rw [← kept] at range room
    exact time_both room range (by rw [kept, kept, durations]) fun next => rfl
  · exact time_both (toTime_accepted _ range) range durations fun next => rfl

end Rejoining

/-- Two simulated videos that start alike stay alike, whatever their comparison is asked and however
much time passes for both. And two videos of any state, as long as no page refuses to start them,
have the same flag again once they are played, paused or toggled or have ended, and are at the same
time again once they are moved or have ended, if they are equally long. -/
theorem comparison_lockstep (c : Comparison ι) :
    (∀ (deck : Deck ι) (clip : Clip) (sink : Sink) (uses : List Use), deck c.primary = .simulated clip →
      deck c.follower = .simulated clip → 0 ≤ clip.duration →
        let opened := Session.opening deck [.comparison c] sink
        let reached := opened.run (uses.flatMap (Use.steps c))
        (reached.deck c.primary).clip = (reached.deck c.follower).clip ∧
          ∀ report ∈ opened.reports (uses.flatMap (Use.steps c)), report.1.answer ≠ .fault) ∧
    ∀ (session : Session ι) (position : Nat), session.components[position]? = some (.comparison c) →
      (session.deck c.primary).kind ≠ .embedded true → (session.deck c.follower).kind ≠ .embedded true →
        let after (verb : Verb) := (session.step (.ask position verb)).1.deck
        (∀ verb ∈ [.play, .pause, .toggle, .ended],
          (after verb c.primary).clip.paused = (after verb c.follower).clip.paused) ∧
        ((session.deck c.primary).clip.duration = (session.deck c.follower).clip.duration →
          0 ≤ (session.deck c.primary).clip.duration →
            ∀ verb, verb = .ended ∨ (∃ percent, verb = .seek percent) →
              (after verb c.primary).clip.time = (after verb c.follower).clip.time) := by
  constructor
  · intro deck clip sink uses primary follower range opened reached
    obtain ⟨⟨-, last, together⟩, answers⟩ := uses_inStep (opening_inStep primary follower range sink) uses
    refine ⟨?_, answers⟩
    rw [together.primary, together.follower]
  · intro session position there primary follower after
    have performed (verb : Verb) :
        after verb = (session.deck.perform ((Component.comparison c).plan verb session.deck).commands).deck := by
      simp only [after, Session.step, Session.effect, Session.ask, there]
    constructor
    · intro verb sets
      rw [performed]
      exact paused_both primary follower (plan_both sets)
    · intro durations range verb moves
      rw [performed]
      exact times_both range durations moves

/-- A comparison of two videos. -/
def twins : Comparison Bool := ⟨⟨.comparison, 0⟩, true, false, 0.5⟩

/-- Both play to their end in one tick, are rewound, moved and started again. -/
def twinUses : List Use :=
  [.ask .toggle, .tick 25 true, .ask .ended, .ask (.seek 75), .ask .timeUpdate, .ask .toggle, .tick 0.25 false]

/-- A simulated primary under way and a fake follower that rests elsewhere. -/
def apart : Session Bool where
  deck := fun
    | true => .simulated { time := 3, duration := 12, paused := false }
    | false => .stub { time := 7, duration := 12, rate := 2 }
  components := [.comparison twins]

theorem comparison_lockstep_twins :
    let simulated : Deck Bool := fun _ => .simulated { duration := 12 }
    let opened := Session.opening simulated [.comparison twins] .tee
    let reached := opened.run (twinUses.flatMap (Use.steps twins))
    let moved (verb : Verb) := (apart.step (.ask 0 verb)).1.deck
    (reached.deck twins.primary).clip = { time := 9.125, duration := 12, rate := 0.5, paused := false } ∧
      (reached.deck twins.primary).clip = (reached.deck twins.follower).clip ∧
      (moved .toggle twins.primary).clip.paused = (moved .toggle twins.follower).clip.paused ∧
      (moved (.seek 50) twins.primary).clip.time = (moved (.seek 50) twins.follower).clip.time := by
  obtain ⟨together, rejoining⟩ := comparison_lockstep twins
  obtain ⟨same, -⟩ :=
    together (fun _ => .simulated { duration := 12 }) { duration := 12 } .tee twinUses rfl rfl (by decide +kernel)
  obtain ⟨flags, times⟩ := rejoining apart 0 rfl (by decide) (by decide)
  have sought := times rfl (by decide +kernel) (.seek 50) (.inr ⟨50, rfl⟩)
  exact ⟨by decide +kernel, same, flags .toggle (by simp), sought⟩

end VideoPage.Proofs.Lockstep
