import VideoPage.Proofs.Lockstep
import VideoPage.Proofs.VideoTracks

/-! What a component answers is what its video then shows. Parts of an answer are written down
beforehand: the icon of each button, and the start of the bar and of the clock once a video has
ended. They are right because of what has been done to the video by then. -/

namespace VideoPage.Proofs.ShownAnswers
open ComponentPlans Lockstep NearestRank PercentRange ReportedState VideoTracks

variable {ι : Type} [DecidableEq ι]

section Zero

theorem div_zero_eq {limit : Magnitude} (finite : limit.isFinite = true) (positive : 0 < limit.rank) :
    (0 : Binary64) / .signed false limit = 0 := by
  have exact : (Magnitude.nearest (Magnitude.zero.units * Magnitude.one) limit.units) = .zero := by
    apply Magnitude.ext_rank
    rw [show Magnitude.zero.units = 0 from rfl, Nat.zero_mul]
    exact nearest_zero (units_pos positive)
  rw [zero_eq, div_eq rfl finite positive, exact]

/-- At the start of a video the bar is empty, whether or not the duration is known. -/
theorem ofTime_zero (duration : Binary64) : Percent.ofTime 0 duration = 0 := by
  rw [Percent.ofTime]
  split
  · next known =>
    obtain ⟨limit, rfl, finite, positive⟩ := known_shape (Bool.and_eq_true_iff.mp known).1
    rw [div_zero_eq finite positive]
    decide +kernel
  · rfl

theorem seek?_zero {player next : Player} (moved : player.seek? 0 = some next) : next = { player with clip.time := 0 } := by
  have accepts : Accepts player 0 := fun _ range => zero_room range
  exact accepts.seek?_eq moved

end Zero

section Flags

variable {video : ι} {player next : Player}

/-- How fast a video plays after a command. -/
def rateBy (video : ι) (rate : Binary64) : Command ι → Binary64
  | .setRate place new => if place = video then new else rate
  | _ => rate

/-- What a command at its place makes of a player that starts when it is asked to. -/
theorem told_shows {command : Command ι} (here : place command = some video) (told : told? player command = some next)
    (obliging : player.kind ≠ .embedded true) :
    next.kind ≠ .embedded true ∧ next.clip.paused = pausedAfter video false player.clip.paused command ∧
      next.clip.rate = rateBy video player.clip.rate command := by
  cases command with
  | seek target time =>
    obtain ⟨rfl, -⟩ := seek?_eq told
    exact ⟨obliging, rfl, rfl⟩
  | setRate target rate =>
    cases here
    cases told
    exact ⟨obliging, rfl, (if_pos rfl).symm⟩
  | play target =>
    cases here
    cases told
    refine ⟨?_, (play_starts obliging).trans (if_pos rfl).symm, (play_clip player).2⟩
    rw [Player.play]
    split
    · simp
    · exact obliging
    · next kind =>
      split <;> exact obliging
  | pause target =>
    cases here
    cases told
    exact ⟨obliging, (if_pos rfl).symm, rfl⟩
  | report | announce => cases here

theorem elsewhere_shows {command : Command ι} (away : place command ≠ some video) (paused : Bool) (rate : Binary64) :
    pausedAfter video false paused command = paused ∧ rateBy video rate command = rate := by
  cases command with
  | setRate target new => exact ⟨rfl, if_neg fun same => away (congrArg some same)⟩
  | play target | pause target => exact ⟨if_neg fun same => away (congrArg some same), rfl⟩
  | _ => exact ⟨rfl, rfl⟩

/-- The flag and the rate are what the last command that sets them makes of them. -/
theorem track_shows {commands : List (Command ι)} (tracked : track? video player commands = some next)
    (obliging : player.kind ≠ .embedded true) :
    next.clip.paused = commands.foldl (pausedAfter video false) player.clip.paused ∧
      next.clip.rate = commands.foldl (rateBy video) player.clip.rate := by
  induction commands generalizing player with
  | nil =>
    cases tracked
    exact ⟨rfl, rfl⟩
  | cons command rest ih =>
    rw [List.foldl_cons, List.foldl_cons]
    rw [track?] at tracked
    split at tracked
    · next here =>
      obtain ⟨moved, told, later⟩ := Option.bind_eq_some_iff.mp tracked
      obtain ⟨still, paused, rate⟩ := told_shows here told obliging
      rw [← paused, ← rate]
      exact ih later still
    · next away =>
      obtain ⟨paused, rate⟩ := elsewhere_shows away player.clip.paused player.clip.rate
      rw [paused, rate]
      exact ih tracked obliging

end Flags

/-- The icon that an answer puts on a play button. -/
def icon? : Answer → Option PlayIcon
  | .icon icon => some icon
  | .rateChange change => some change.icon
  | .rewound rewound => some rewound.icon
  | _ => none

/-- The verbs that answer with an icon. -/
def GivesIcon : Component ι → Verb → Prop
  | .comparison _, verb => verb ∈ [.play, .pause, .toggle, .ended]
  | .controls _, verb => verb ∈ [.toggle, .slow, .fast, .restart]
  | .phase _, verb => ∃ start, verb = .jump start
  | .tooltip _, _ => False

section Answers

variable {deck : Deck ι} {video : ι}

/-- The icon of an answer is chosen for the flag that the commands leave, whatever it was before. -/
def LeavesIcon (video : ι) (plan : Plan ι Answer) : Prop :=
  ∀ paused, icon? plan.answer = some (.forPaused (plan.commands.foldl (pausedAfter video false) paused))

section Plans

variable (comparison : Comparison ι) (transport : Transport ι)

theorem play_leaves : LeavesIcon comparison.primary (Component.answering .icon comparison.play) := by
  intro paused
  simp [Component.answering, Comparison.play, pausedAfter, icon?, PlayIcon.forPaused]

theorem pause_leaves : LeavesIcon comparison.primary (Component.answering .icon comparison.pause) := by
  intro paused
  simp [Component.answering, Comparison.pause, pausedAfter, icon?, PlayIcon.forPaused]

theorem ended_leaves : LeavesIcon comparison.primary (Component.answering .rewound (comparison.ended deck)) := by
  intro paused
  simp [Component.answering, Comparison.ended, Comparison.pause, pausedAfter, icon?, PlayIcon.forPaused]

theorem toggle_leaves : LeavesIcon transport.video (Component.answering .icon (transport.toggle deck)) := by
  intro paused
  rw [Transport.toggle]
  split <;> simp [Component.answering, pausedAfter, icon?]

/-- Every change of rate starts the video, and its icon says so. -/
theorem change_leaves (action : ActionKind) (rate : Binary64) :
    LeavesIcon transport.video (Component.answering .rateChange (transport.changeRate action rate)) := by
  intro paused
  simp [Component.answering, Transport.changeRate, pausedAfter, icon?, PlayIcon.forPaused]

theorem jump_leaves (timeline : Timeline ι) (start : Binary64) :
    LeavesIcon timeline.video (Component.answering .icon (timeline.jump start deck)) := by
  intro paused
  simp [Component.answering, Timeline.jump, pausedAfter, icon?, PlayIcon.forPaused]

end Plans

theorem plan_icon {component : Component ι} (drives : driven component = some video) {verb : Verb}
    (gives : GivesIcon component verb) : LeavesIcon video (component.plan verb deck) := by
  cases component with
  | comparison comparison =>
    cases drives
    simp only [GivesIcon, List.mem_cons, List.not_mem_nil, or_false] at gives
    rcases gives with rfl | rfl | rfl | rfl
    · exact play_leaves comparison
    · exact pause_leaves comparison
    · simp only [Component.plan, Component.comparisonPlan, Comparison.toggle]
      split
      · exact pause_leaves comparison
      · exact play_leaves comparison
    · exact ended_leaves comparison
  | controls transport =>
    cases drives
    simp only [GivesIcon, List.mem_cons, List.not_mem_nil, or_false] at gives
    rcases gives with rfl | rfl | rfl | rfl
    · exact toggle_leaves transport
    · exact change_leaves transport .slow _
    · exact change_leaves transport .fast _
    · -- Going back to the start comes first and leaves the flag alone.
      exact change_leaves transport .restart _
  | phase timeline =>
    cases drives
    obtain ⟨start, rfl⟩ := gives
    exact jump_leaves timeline start
  | tooltip tooltip => exact gives.elim

/-- The rate that a control bar answers with is the one that the commands leave, and its label says
that rate. -/
theorem controls_rate (deck : Deck ι) (transport : Transport ι) {verb : Verb} (changes : verb ∈ [.slow, .fast, .restart]) :
    ∃ change : RateChange, (Component.plan (.controls transport) verb deck).answer = .rateChange change ∧
      change.label = rateLabel change.rate ∧
      change.rate = ((Component.plan (.controls transport) verb deck).commands.foldl (rateBy transport.video)
        (deck transport.video).clip.rate) := by
  simp only [List.mem_cons, List.not_mem_nil, or_false] at changes
  rcases changes with rfl | rfl | rfl
  all_goals
    simp [Component.plan, Component.controlsPlan, Component.answering, Transport.slow, Transport.fast,
      Transport.restart, Transport.changeRate, rateBy]

/-- A comparison rewinds its primary, once or, when it is its own follower, twice. -/
theorem ended_shows (deck : Deck ι) {comparison : Comparison ι} {player next : Player}
    (tracked : track? comparison.primary player (comparison.ended deck).commands = some next) :
    next.clip = { player.clip with time := 0, paused := true } := by
  by_cases same : comparison.follower = comparison.primary
  · simp only [Comparison.ended, Comparison.pause, List.cons_append, List.nil_append, track?, place, same, if_true, told?,
      Option.bind_some, reduceCtorEq, if_false] at tracked
    obtain ⟨once, first, later⟩ := Option.bind_eq_some_iff.mp tracked
    obtain ⟨twice, second, last⟩ := Option.bind_eq_some_iff.mp later
    cases last
    rw [seek?_zero second, seek?_zero first]
    rfl
  · have away : ¬ some comparison.follower = some comparison.primary := fun eq => same (Option.some_inj.mp eq)
    simp only [Comparison.ended, Comparison.pause, List.cons_append, List.nil_append, track?, place, away, if_true, told?,
      Option.bind_some, reduceCtorEq, if_false] at tracked
    obtain ⟨once, first, last⟩ := Option.bind_eq_some_iff.mp tracked
    cases last
    rw [seek?_zero first]
    rfl

end Answers

section Asking

variable {session : Session ι} {position : Nat} {component : Component ι} {verb : Verb}

/-- A verb that is answered has been carried out to its end. -/
theorem ask_answered (there : session.components[position]? = some component)
    (answered : (session.step (.ask position verb)).2.answer ≠ .fault) :
    let plan := component.plan verb session.deck
    (session.deck.perform plan.commands).completed = true ∧
      (session.step (.ask position verb)).2.answer = plan.answer ∧
      (session.step (.ask position verb)).1.deck = (session.deck.perform plan.commands).deck ∧
      (session.step (.ask position verb)).1.components[position]? = some (component.next verb) := by
  intro plan
  have answer : (session.step (.ask position verb)).2.answer =
      if (session.deck.perform plan.commands).completed then plan.answer else .fault := by
    simp only [Session.step, Session.effect, Session.ask, there, plan]
  have completed : (session.deck.perform plan.commands).completed = true := by
    by_contra broken
    exact answered (answer.trans (if_neg broken))
  refine ⟨completed, answer.trans (if_pos completed), ?_, ?_⟩
  · simp only [Session.step, Session.effect, Session.ask, there, plan]
  · simp only [Session.step, Session.effect, Session.ask, there]
    rw [List.getElem?_set_self', there]
    rfl

/-- A verb that only reads is always answered. -/
theorem ask_reads (there : session.components[position]? = some component) {answer : Answer}
    (reads : component.plan verb session.deck = Component.reading answer) :
    (session.step (.ask position verb)).2.answer = answer := by
  simp [Session.step, Session.effect, Session.ask, there, reads, Component.reading, Deck.perform]

theorem answered_track (there : session.components[position]? = some component)
    (answered : (session.step (.ask position verb)).2.answer ≠ .fault) (video : ι) :
    track? video (session.deck video) (component.plan verb session.deck).commands =
      some ((session.step (.ask position verb)).1.deck video) := by
  obtain ⟨completed, -, deck, -⟩ := ask_answered there answered
  rw [deck]
  exact track_perform completed video

theorem icon_shown {video : ι} (there : session.components[position]? = some component)
    (answered : (session.step (.ask position verb)).2.answer ≠ .fault) (drives : driven component = some video)
    (obliging : (session.deck video).kind ≠ .embedded true) (gives : GivesIcon component verb) :
    icon? (session.step (.ask position verb)).2.answer =
      some (.forPaused ((session.step (.ask position verb)).1.deck video).clip.paused) := by
  obtain ⟨paused, -⟩ := track_shows (answered_track there answered video) obliging
  rw [(ask_answered there answered).2.1, plan_icon drives gives (session.deck video).clip.paused, paused]

theorem rate_shown {transport : Transport ι} (there : session.components[position]? = some (.controls transport))
    (answered : (session.step (.ask position verb)).2.answer ≠ .fault)
    (obliging : (session.deck transport.video).kind ≠ .embedded true) (changes : verb ∈ [.slow, .fast, .restart]) :
    let after := (session.step (.ask position verb)).1
    ∃ change, (session.step (.ask position verb)).2.answer = .rateChange change ∧
      change.rate = (after.deck transport.video).clip.rate ∧
      (after.step (.ask position .speedLabel)).2.answer = .text change.label := by
  intro after
  obtain ⟨change, answers, label, rate⟩ := controls_rate session.deck transport changes
  obtain ⟨-, left⟩ := track_shows (answered_track there answered transport.video) obliging
  obtain ⟨-, answer, -, still⟩ := ask_answered there answered
  have shown : change.rate = (after.deck transport.video).clip.rate := rate.trans left.symm
  refine ⟨change, answer.trans answers, shown, ?_⟩
  rw [label, shown]
  exact ask_reads still rfl

theorem frame_shown {comparison : Comparison ι} (there : session.components[position]? = some (.comparison comparison))
    (answered : (session.step (.ask position .ended)).2.answer ≠ .fault) :
    let after := (session.step (.ask position .ended)).1
    ∃ rewound, (session.step (.ask position .ended)).2.answer = .rewound rewound ∧
      (after.step (.ask position .timeUpdate)).2.answer = .frame rewound.frame := by
  intro after
  obtain ⟨-, answer, -, still⟩ := ask_answered there answered
  have clip := ended_shows session.deck (answered_track there answered comparison.primary)
  have frame : comparison.frame after.deck = (comparison.ended session.deck).answer.frame := by
    rw [Comparison.frame, clip]
    simp only [ofTime_zero]
    rfl
  refine ⟨(comparison.ended session.deck).answer, answer, ?_⟩
  rw [← frame]
  exact ask_reads still rfl

/-- What a verb answers, if it is answered at all, is what the video of its component shows by then.
The icon is that of the flag, the rate and the label are those of the video, and the frame of a
rewound comparison is the one that it gives when it is asked. -/
theorem ask_shows (obliging : ∀ video ∈ driven component, (session.deck video).kind ≠ .embedded true)
    (there : session.components[position]? = some component)
    (answered : (session.step (.ask position verb)).2.answer ≠ .fault) :
    let after := (session.step (.ask position verb)).1
    let answer := (session.step (.ask position verb)).2.answer
    let afterwards (verb : Verb) := (after.step (.ask position verb)).2.answer
    (GivesIcon component verb →
      ∃ video ∈ driven component, icon? answer = some (.forPaused (after.deck video).clip.paused)) ∧
    (∀ transport, component = .controls transport → verb ∈ [.slow, .fast, .restart] →
      ∃ change, answer = .rateChange change ∧ change.rate = (after.deck transport.video).clip.rate ∧
        afterwards .speedLabel = .text change.label) ∧
    (∀ comparison, component = .comparison comparison → verb = .ended →
      ∃ rewound, answer = .rewound rewound ∧ afterwards .timeUpdate = .frame rewound.frame) := by
  intro after answer afterwards
  refine ⟨?_, ?_, ?_⟩
  · intro gives
    obtain ⟨video, drives⟩ : ∃ video, driven component = some video := by
      cases component with
      | tooltip tooltip => exact gives.elim
      | _ => exact ⟨_, rfl⟩
    exact ⟨video, drives, icon_shown there answered drives (obliging video drives) gives⟩
  · intro transport is changes
    subst is
    exact rate_shown there answered (obliging transport.video rfl) changes
  · intro comparison is ends
    subst is ends
    exact frame_shown there answered

end Asking

/-- A comparison of a video with itself, and a control bar over it. It has no end. -/
def selfCompared : Session Unit where
  deck := fun _ => .simulated { time := 5, duration := .signed false .infinity, rate := 2, paused := false }
  components := [.comparison ⟨⟨.comparison, 0⟩, (), (), 1⟩, .controls ⟨⟨.controls, 0⟩, (), {}⟩]

theorem ask_shows_selfCompared :
    let rewound : Rewound := ⟨.play, 0, "00:00 / 00:00"⟩
    (selfCompared.step (.ask 0 .ended)).2.answer = .rewound rewound ∧
      ((selfCompared.step (.ask 0 .ended)).1.step (.ask 0 .timeUpdate)).2.answer = .frame rewound.frame ∧
      ∃ change, (selfCompared.step (.ask 1 .slow)).2.answer = .rateChange change ∧
        change.rate = ((selfCompared.step (.ask 1 .slow)).1.deck ()).clip.rate ∧
        ((selfCompared.step (.ask 1 .slow)).1.step (.ask 1 .speedLabel)).2.answer = .text change.label := by
  intro rewound
  have obliging {component : Component Unit} : ∀ video ∈ driven component, (selfCompared.deck video).kind ≠ .embedded true :=
    fun _ _ => nofun
  have answered : (selfCompared.step (.ask 0 .ended)).2.answer = .rewound rewound := by decide +kernel
  obtain ⟨-, -, frames⟩ := @ask_shows _ _ selfCompared 0 _ .ended obliging rfl (by rw [answered]; nofun)
  obtain ⟨other, answers, shown⟩ := frames _ rfl rfl
  cases answered.symm.trans answers
  obtain ⟨-, rates, -⟩ := @ask_shows _ _ selfCompared 1 _ .slow obliging rfl (by decide +kernel)
  exact ⟨answered, shown, rates _ rfl (by decide)⟩

end VideoPage.Proofs.ShownAnswers
