import VideoPage.Proofs.ReportedState
import VideoPage.Proofs.WillingPlayers

/-! The record of a session is a complete log. Over players that store what they are told, what
a video shows in the end can be read off the actions and seeks of the components that drive it:
where it is from the last of them, how fast it plays and whether it plays from the last action. -/

namespace VideoPage.Proofs.CompleteLog
open ComponentPlans ReportedState WillingPlayers

/-- The actions that leave a video playing. -/
def starting : List ActionKind := [.play, .slow, .fast, .restart, .segmentJump]

/-- The actions that leave a video paused. -/
def stopping : List ActionKind := [.pause, .ended]

/-- What a clip is once an event has been replayed on it. -/
def retold (clip : Clip) : Event → Clip
  | .action _ action time rate => { clip with time, rate, paused := action ∈ stopping }
  | .seek _ _ target => { clip with time := target }
  | .bound _ | .skipped .. => clip

/-- An event that says something about a video. -/
def OfVideo : Event → Prop
  | .action _ action _ _ => action ∈ starting ∨ action ∈ stopping
  | .seek .. => True
  | .bound _ | .skipped .. => False

variable {ι : Type} [DecidableEq ι]

section Plans

variable {shown : Table ι Clip} {component : Component ι} {commands : List (Command ι)} {video : ι}

/-- A component's events tell all that it does to the video that it drives. -/
theorem gives_retold (gives : Gives shown component commands) (drives : driven component = some video)
    (free : ∀ comparison, component = .comparison comparison → comparison.follower ≠ video) :
    commands.foldl obeyed shown video = (toldAll shown commands).foldl retold (shown video) ∧
      ∀ event ∈ toldAll shown commands, OfVideo event := by
  cases gives with
  | nothing => simp [toldAll]
  | hover => cases drives
  | playBoth c | pauseBoth c | seekBoth c | rewindBoth c =>
    cases drives
    have other : c.primary ≠ c.follower := Ne.symm (free c rfl)
    simp [toldAll, told, obeyed, retold, OfVideo, starting, stopping, other]
  | _ =>
    cases drives
    simp [toldAll, told, obeyed, retold, OfVideo, starting, stopping]

theorem foldl_obeyed_elsewhere (elsewhere : ∀ command ∈ commands, place command ≠ some video) :
    commands.foldl obeyed shown video = shown video := by
  induction commands generalizing shown with
  | nil => rfl
  | cons command rest ih =>
    have away := elsewhere command List.mem_cons_self
    refine (ih fun other member => elsewhere other (List.mem_cons_of_mem _ member)).trans ?_
    cases command with
    | report | announce => rfl
    | _ => exact Table.set_other _ _ fun here => away (congrArg some here.symm)

/-- And it does nothing to any other video that is nobody's follower. -/
theorem gives_elsewhere (gives : Gives shown component commands) (others : driven component ≠ some video)
    (free : ∀ comparison, component = .comparison comparison → comparison.follower ≠ video) :
    commands.foldl obeyed shown video = shown video := by
  apply foldl_obeyed_elsewhere
  cases gives with
  | nothing => simp
  | hover tooltip inside => simp [place]
  | playBoth c | pauseBoth c | seekBoth c | rewindBoth c =>
    have primary : c.primary ≠ video := fun same => others (congrArg some same)
    simp [place, primary, free c rfl]
  | play t | pause t | slow t | fast t | restart t | seek t | jump t =>
    have other : t.video ≠ video := fun same => others (congrArg some same)
    simp [place, other]

end Plans

section Runs

/-- The steps of a session that ask one component after the other. -/
def asking (asks : List (Nat × Verb)) : List (SessionStep ι) := asks.map fun (position, verb) => .ask position verb

/-- The events that are sent meanwhile, each with the position of the component that sends it. -/
def log (session : Session ι) : List (Nat × Verb) → List (Nat × Event)
  | [] => []
  | (position, verb) :: rest =>
    let (next, report) := session.step (.ask position verb)
    report.events.map (position, ·) ++ log next rest

/-- The events of those components that drive a video. -/
def about (components : List (Component ι)) (video : ι) (entries : List (Nat × Event)) : List Event :=
  (entries.filter fun entry => (components.map driven)[entry.1]? = some (some video)).map Prod.snd

variable {session : Session ι} {video : ι}

omit [DecidableEq ι] in
theorem driven_next (component : Component ι) (verb : Verb) : driven (component.next verb) = driven component := by
  cases component with
  | tooltip tooltip => cases verb <;> rfl
  | _ => rfl

omit [DecidableEq ι] in
/-- Being asked changes neither a component's name nor its video. -/
theorem map_set_next {α : Type} {aspect : Component ι → α}
    (kept : ∀ component verb, aspect (component.next verb) = aspect component)
    {components : List (Component ι)} {position : Nat} {component : Component ι}
    (there : components[position]? = some component) (verb : Verb) :
    (components.set position (component.next verb)).map aspect = components.map aspect := by
  obtain ⟨inside, rfl⟩ := List.getElem?_eq_some_iff.mp there
  have bounded : position < (components.map aspect).length := by simpa using inside
  have same := List.set_getElem_self bounded
  rwa [List.getElem_map, ← kept _ verb, ← List.map_set] at same

/-- A session over willing players, one video of which is nobody's follower. -/
structure Logging (session : Session ι) (video : ι) : Prop where
  kept : session.sink = .tee
  willing : ∀ place, Willing (session.deck place)
  free : ∀ comparison, .comparison comparison ∈ session.components → comparison.follower ≠ video

/-- What a session has become of, told by the events that it has sent. -/
structure Told (session : Session ι) (video : ι) (entries : List (Nat × Event)) (reached : Session ι) : Prop where
  logging : Logging reached video
  driven : reached.components.map driven = session.components.map driven
  named : reached.components.map idOf = session.components.map idOf
  recorded : reached.recorded = session.recorded ++ entries.map Prod.snd
  senders : ∀ entry ∈ entries, (session.components.map idOf)[entry.1]? = some (sender entry.2)
  retold : clips reached.deck video = (about session.components video entries).foldl retold (clips session.deck video)
  ofVideo : ∀ event ∈ about session.components video entries, OfVideo event

theorem Told.refl (logging : Logging session video) : Told session video [] session where
  logging := logging
  driven := rfl
  named := rfl
  recorded := by simp
  senders := by simp
  retold := rfl
  ofVideo := by simp [about]

theorem Told.trans {between reached : Session ι} {first second : List (Nat × Event)}
    (one : Told session video first between) (two : Told between video second reached) :
    Told session video (first ++ second) reached := by
  have split : about session.components video (first ++ second) =
      about session.components video first ++ about between.components video second := by
    simp [about, one.driven]
  exact {
    logging := two.logging
    driven := two.driven.trans one.driven
    named := two.named.trans one.named
    recorded := by simp [two.recorded, one.recorded]
    senders := by
      intro entry member
      rcases List.mem_append.mp member with early | late
      · exact one.senders entry early
      · exact one.named ▸ two.senders entry late
    retold := by rw [split, List.foldl_append, ← one.retold, two.retold]
    ofVideo := by
      rw [split]
      intro event member
      exact (List.mem_append.mp member).elim (one.ofVideo event) (two.ofVideo event) }

theorem step_told (logging : Logging session video) (position : Nat) (verb : Verb) :
    Told session video ((session.step (.ask position verb)).2.events.map (position, ·)) (session.step (.ask position verb)).1 := by
  cases there : session.components[position]? with
  | none =>
    obtain ⟨deck, components, sink, recorded⟩ := session
    obtain rfl : sink = .tee := logging.kept
    simpa [Session.step, Session.effect, Session.ask, there, Sink.kept] using Told.refl logging
  | some component =>
    obtain ⟨-, components_eq, still, shown, sent⟩ := ask_willing logging.willing there verb
    have gives := @plan_gives _ session.deck component verb
    have free : ∀ comparison, component = .comparison comparison → comparison.follower ≠ video := by
      rintro comparison rfl
      exact logging.free comparison (List.mem_of_getElem? there)
    have all (chosen : List Event) (drives : driven component = some video) :
        about session.components video (chosen.map (position, ·)) = chosen := by
      simp [about, List.filter_map, Function.comp_def, there, drives]
    have none (chosen : List Event) (others : driven component ≠ some video) :
        about session.components video (chosen.map (position, ·)) = [] := by
      simp [about, List.filter_map, Function.comp_def, there, others]
    simp only [Session.step, Session.effect, logging.kept, Sink.kept, reduceCtorEq, if_false]
    exact {
      logging := {
        kept := rfl
        willing := still
        free := by
          intro comparison member
          rw [components_eq] at member
          rcases List.mem_or_eq_of_mem_set member with old | new
          · exact logging.free comparison old
          · apply free
            cases component with
            | tooltip tooltip => cases verb <;> cases new
            | _ => exact new.symm }
      driven := by rw [components_eq, map_set_next driven_next there]
      named := by rw [components_eq, map_set_next idOf_next there]
      recorded := by simp
      senders := by
        intro entry member
        obtain ⟨event, own, rfl⟩ := List.mem_map.mp member
        rw [sent] at own
        simp [there, sender_of_signed gives.signed event own]
      retold := by
        rw [shown, sent]
        by_cases drives : driven component = some video
        · rw [all _ drives]
          exact (gives_retold gives drives free).1
        · rw [none _ drives]
          exact gives_elsewhere gives drives free
      ofVideo := by
        rw [sent]
        by_cases drives : driven component = some video
        · rw [all _ drives]
          exact (gives_retold gives drives free).2
        · rw [none _ drives]
          simp }

theorem run_told (logging : Logging session video) (asks : List (Nat × Verb)) :
    Told session video (log session asks) (session.run (asking asks)) := by
  induction asks generalizing session with
  | nil => exact .refl logging
  | cons ask rest ih =>
    have first := step_told logging ask.1 ask.2
    exact first.trans (ih first.logging)

end Runs

section Reading

/-- Where an event says that its video is. -/
def time? : Event → Option Binary64
  | .action _ _ time _ => some time
  | .seek _ _ target => some target
  | .bound _ | .skipped .. => none

def rate? : Event → Option Binary64
  | .action _ _ _ rate => some rate
  | _ => none

def action? : Event → Option ActionKind
  | .action _ action _ _ => some action
  | _ => none

/-- What a clip is once some events have been sent, told by the last of them. -/
structure LastTold (start final : Clip) (events : List Event) : Prop where
  time : final.time = (events.filterMap time?).getLast?.getD start.time
  rate : final.rate = (events.filterMap rate?).getLast?.getD start.rate
  acted : ∀ action, (events.filterMap action?).getLast? = some action →
    (final.paused = false ↔ action ∈ starting) ∧ (final.paused = true ↔ action ∈ stopping)
  idle : (events.filterMap action?).getLast? = none → final.paused = start.paused

theorem starting_not_stopping {action : ActionKind} (starts : action ∈ starting) : action ∉ stopping := by
  cases action <;> simp_all [starting, stopping]

theorem lastTold_replayed (start : Clip) {events : List Event} (ofVideo : ∀ event ∈ events, OfVideo event) :
    LastTold start (events.foldl retold start) events := by
  induction events using List.reverseRecOn with
  | nil => exact ⟨rfl, rfl, by simp, fun _ => rfl⟩
  | append_singleton events event ih =>
    obtain ⟨time, rate, acted, idle⟩ := ih fun other member => ofVideo other (List.mem_append_left _ member)
    have last := ofVideo event (by simp)
    rw [List.foldl_append, List.foldl_cons, List.foldl_nil]
    cases event with
    | bound | skipped => exact last.elim
    | seek id percent target =>
      constructor
      · simp [retold, time?]
      · simpa [retold, rate?] using rate
      · simpa [retold, action?] using acted
      · simpa [retold, action?] using idle
    | action id action time rate =>
      have told : OfVideo (.action id action time rate) := last
      constructor
      · simp [retold, time?]
      · simp [retold, rate?]
      · intro same here
        obtain rfl : action = same := by simpa [action?] using here
        refine ⟨?_, by simp [retold]⟩
        simp only [retold, decide_eq_false_iff_not]
        exact ⟨told.resolve_right, starting_not_stopping⟩
      · simp [action?]

end Reading

variable {ι : Type} [DecidableEq ι]

/-- Among the recorded events those of the driving components can be told by their names, if no
component has the name of one that drives another video. -/
theorem about_eq {components : List (Component ι)} {entries : List (Nat × Event)} (video : ι)
    (senders : ∀ entry ∈ entries, (components.map idOf)[entry.1]? = some (sender entry.2))
    (unambiguous : ∀ one ∈ components, ∀ other ∈ components, idOf one = idOf other → driven one = driven other) :
    about components video entries = (entries.map Prod.snd).filter fun event =>
      ∃ component ∈ components, driven component = some video ∧ idOf component = sender event := by
  rw [about, List.filter_map]
  congr 1
  apply List.filter_congr
  intro entry member
  obtain ⟨component, there, named⟩ : ∃ component, components[entry.1]? = some component ∧ idOf component = sender entry.2 := by
    simpa using senders entry member
  have own := List.mem_of_getElem? there
  simp only [List.getElem?_map, there, Option.map_some, Function.comp_apply, Option.some.injEq, decide_eq_decide]
  constructor
  · intro drives
    exact ⟨component, own, drives, named⟩
  · rintro ⟨other, also, drives, same⟩
    exact (unambiguous component own other also (named.trans same.symm)).trans drives

/-- Whatever the components of a session are asked, and whichever videos they share: a video that
follows none ends as the events of the components that drive it say last. -/
theorem run_logged (shown : Table ι Clip) (components : List (Component ι)) (asks : List (Nat × Verb)) (video : ι)
    (free : ∀ comparison, .comparison comparison ∈ components → comparison.follower ≠ video) :
    let opened := Session.opening (fun place => .stub (shown place)) components .tee
    let reached := opened.run (asking asks)
    let entries := log opened asks
    reached.recorded = entries.map Prod.snd ∧
      LastTold (opened.deck video).clip (reached.deck video).clip (about components video entries) ∧
      ((∀ one ∈ components, ∀ other ∈ components, idOf one = idOf other → driven one = driven other) →
        about components video entries = reached.recorded.filter fun event =>
          ∃ component ∈ components, driven component = some video ∧ idOf component = sender event) := by
  intro opened reached entries
  have stubs : ∀ place, Willing (Player.stub (shown place)) := fun place => ⟨nofun, nofun⟩
  obtain ⟨-, willing, -, -⟩ := perform_willing stubs (components.flatMap Component.start)
  have told : Told opened video entries reached := run_told ⟨rfl, willing, free⟩ asks
  have recorded : reached.recorded = entries.map Prod.snd := told.recorded
  have replayed : (reached.deck video).clip = _ := told.retold
  refine ⟨recorded, ?_, ?_⟩
  · rw [replayed]
    exact lastTold_replayed _ told.ofVideo
  · intro unambiguous
    rw [recorded]
    exact about_eq video told.senders unambiguous

/-- A comparison, a control bar and a timeline over one video. -/
def sharedVideo : List (Component Bool) :=
  [.comparison ⟨⟨.comparison, 0⟩, true, false, 0.5⟩, .controls ⟨⟨.controls, 0⟩, true, {}⟩, .phase ⟨⟨.phase, 0⟩, true⟩]

def sharedAsks : List (Nat × Verb) := [(1, .fast), (2, .jump 50), (0, .ended), (1, .seek 25)]

/-- Time, rate and flag are each told last by another component. -/
theorem run_logged_shared :
    let opened := Session.opening (fun _ => .stub { duration := 60 }) sharedVideo .tee
    let reached := opened.run (asking sharedAsks)
    let events := about sharedVideo true (log opened sharedAsks)
    (∀ comparison, .comparison comparison ∈ sharedVideo → comparison.follower ≠ true) ∧
      (reached.deck true).clip = { time := 15, duration := 60, rate := 0.625 } ∧
      (events.filterMap action?).getLast? = some .ended ∧
      LastTold (opened.deck true).clip (reached.deck true).clip events := by
  intro opened reached events
  have free : ∀ comparison, .comparison comparison ∈ sharedVideo → comparison.follower ≠ true := by simp [sharedVideo]
  obtain ⟨-, told, -⟩ := run_logged (fun _ => { duration := 60 }) sharedVideo sharedAsks true free
  exact ⟨free, by decide +kernel, by decide +kernel, told⟩

end VideoPage.Proofs.CompleteLog
