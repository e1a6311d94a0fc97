import VideoPage.Session.Basic

/-! A session whose reports go to a sink at the moment at which they are made. A sink can be
anything that takes events in. Whether there is one, and what it makes of the events, changes
nothing about the players, the components and the answers. -/

namespace VideoPage.Proofs.SessionSinks

variable {ι σ τ : Type}

section Sinks

/-- What can be done with a sink whose state is of some type. -/
structure EventSink (σ : Type) where
  receive : σ → Event → σ := fun state _ => state
  forget : σ → σ := id

/-- What is handed to whoever reports: the way to a sink, or nothing. -/
abbrev Tracer (σ : Type) := Option (EventSink σ)

def Tracer.emit (tracer : Tracer σ) (state : σ) (event : Event) : σ :=
  match tracer with
  | some sink => sink.receive state event
  | none => state

def Tracer.clear (tracer : Tracer σ) (state : σ) : σ :=
  match tracer with
  | some sink => sink.forget state
  | none => state

/-- What the program's own sinks have printed and recorded. -/
structure Journal where
  printed : String := ""
  recorded : List Event := []

def tee : EventSink Journal where
  receive := fun journal event => ⟨journal.printed ++ printedLog [event], journal.recorded ++ [event]⟩
  forget := fun journal => { journal with recorded := [] }

def tracerOf : Sink → Tracer Journal
  | .tee => some tee
  | .discarding => some {}
  | .absent => none

end Sinks

section Steps

variable [DecidableEq ι]

/-- A session in the hands of a tracer, with the sink as it is by then. -/
structure Traced (ι σ : Type) where
  deck : Deck ι
  components : List (Component ι)
  sink : σ

/-- Performs commands and reports each time before it goes on. A command that cannot be carried out
ends it, and the sink keeps what it has got. -/
def performTo (tracer : Tracer σ) (deck : Deck ι) (sink : σ) : List (Command ι) → Deck ι × σ × Bool
  | [] => (deck, sink, true)
  | command :: rest =>
    match deck.after? command with
    | none => (deck, sink, false)
    | some next => performTo tracer next ((deck.reported command).foldl tracer.emit sink) rest

def askTo (tracer : Tracer σ) (traced : Traced ι σ) (position : Nat) (verb : Verb) : Traced ι σ × Answer :=
  match traced.components[position]? with
  | none => (traced, .nothing)
  | some component =>
    let plan := component.plan verb traced.deck
    let (deck, sink, completed) := performTo tracer traced.deck traced.sink plan.commands
    (⟨deck, traced.components.set position (component.next verb), sink⟩, if completed then plan.answer else .fault)

/-- One step, with a tracer of its own. -/
def stepTo (tracer : Tracer σ) (traced : Traced ι σ) : SessionStep ι → Traced ι σ × Answer
  | .ask position verb => askTo tracer traced position verb
  | .report event => ({ traced with sink := tracer.emit traced.sink event }, .nothing)
  | .clear => ({ traced with sink := tracer.clear traced.sink }, .nothing)
  | .overwrite place change =>
    ({ traced with deck := traced.deck.set place ((traced.deck place).overwrite change) }, .nothing)
  | .advance place seconds =>
    let (player, ended) := (traced.deck place).advance seconds
    ({ traced with deck := traced.deck.set place player }, .truth ended)
  | .run place ticks => ({ traced with deck := traced.deck.set place ((traced.deck place).run ticks) }, .nothing)

/-- What each of some steps answers, with what it leaves behind. -/
def stepsTo (tracer : Tracer σ) (traced : Traced ι σ) : List (SessionStep ι) → List (Answer × Traced ι σ)
  | [] => []
  | step :: rest =>
    let (next, answer) := stepTo tracer traced step
    (answer, next) :: stepsTo tracer next rest

/-- A session whose components have just been made, before there is anything to report. -/
def openTo (deck : Deck ι) (components : List (Component ι)) (sink : σ) : Traced ι σ where
  deck := (deck.perform (components.flatMap Component.start)).deck
  components := components
  sink := sink

/-- What there is to be seen of a step without its sink. -/
def seen (step : Answer × Traced ι σ) : Answer × Deck ι × List (Component ι) := (step.1, step.2.deck, step.2.components)

end Steps

section Equal

variable [DecidableEq ι] (tracer : Tracer σ)

theorem performTo_eq (deck : Deck ι) (sink : σ) (commands : List (Command ι)) :
    performTo tracer deck sink commands =
      ((deck.perform commands).deck, (deck.perform commands).events.foldl tracer.emit sink,
        (deck.perform commands).completed) := by
  induction commands generalizing deck sink with
  | nil => rfl
  | cons command rest ih =>
    simp only [performTo, Deck.perform]
    cases deck.after? command with
    | none => rfl
    | some next => simp only [ih, List.foldl_append]

/-- A step has the effect that it has without a sink, and the sink is told the events of that. -/
theorem stepTo_eq (traced : Traced ι σ) (step : SessionStep ι) :
    let effect := Session.effect traced.deck traced.components step
    let sink := if step = .clear then tracer.clear traced.sink else traced.sink
    stepTo tracer traced step = (⟨effect.deck, effect.components, effect.events.foldl tracer.emit sink⟩, effect.answer) := by
  cases step with
  | ask position verb =>
    cases there : traced.components[position]? with
    | none => simp [stepTo, askTo, Session.effect, Session.ask, there]
    | some component => simp [stepTo, askTo, Session.effect, Session.ask, there, performTo_eq]
  | _ => rfl

theorem stepsTo_alike (tracer : Tracer σ) (other : Tracer τ) {first : Traced ι σ} {second : Traced ι τ}
    (deck : first.deck = second.deck) (components : first.components = second.components) (steps : List (SessionStep ι)) :
    (stepsTo tracer first steps).map seen = (stepsTo other second steps).map seen := by
  induction steps generalizing first second with
  | nil => rfl
  | cons step rest ih =>
    simp only [stepsTo, stepTo_eq, List.map_cons, seen, deck, components]
    exact congrArg _ (ih rfl rfl)

end Equal

section Program

variable [DecidableEq ι]

theorem printedLog_append (first second : List Event) : printedLog (first ++ second) = printedLog first ++ printedLog second := by
  rw [printedLog, List.flatMap_append, String.ofList_append]
  rfl

theorem foldl_tee (journal : Journal) (events : List Event) :
    events.foldl (Tracer.emit (some tee)) journal = ⟨journal.printed ++ printedLog events, journal.recorded ++ events⟩ := by
  induction events generalizing journal with
  | nil => simp [printedLog]
  | cons event rest ih =>
    have log : printedLog (event :: rest) = printedLog [event] ++ printedLog rest := printedLog_append [event] rest
    rw [List.foldl_cons, ih, log]
    simp [Tracer.emit, tee, String.append_assoc]

theorem foldl_ignored (sink : Sink) (ignores : sink ≠ .tee) (journal : Journal) (events : List Event) :
    events.foldl (tracerOf sink).emit journal = journal := by
  induction events with
  | nil => rfl
  | cons event rest ih =>
    cases sink with
    | tee => exact absurd rfl ignores
    | discarding | absent => exact ih

/-- The program's own sinks keep what they are said to keep, and print that. -/
theorem foldl_emit (sink : Sink) (journal : Journal) (events : List Event) :
    events.foldl (tracerOf sink).emit journal =
      ⟨journal.printed ++ printedLog (sink.kept events), journal.recorded ++ sink.kept events⟩ := by
  cases sink with
  | tee => exact foldl_tee journal events
  | discarding | absent =>
    rw [foldl_ignored _ (by decide)]
    simp [Sink.kept, printedLog]

/-- Only a sink that records has anything to forget. -/
def Keeps (session : Session ι) : Prop := session.sink ≠ .tee → session.recorded = []

variable {session : Session ι}

theorem Keeps.step (keeps : Keeps session) (step : SessionStep ι) : Keeps (session.step step).1 := by
  intro ignores
  have nothing (events : List Event) : session.sink.kept events = [] := by
    cases sink : session.sink with
    | tee => exact absurd sink ignores
    | discarding | absent => rfl
  simp only [Session.step, nothing, keeps ignores, List.append_nil, ite_self]

omit [DecidableEq ι] in
theorem Keeps.clear (keeps : Keeps session) (printed : String) :
    (tracerOf session.sink).clear ⟨printed, session.recorded⟩ = ⟨printed, []⟩ := by
  cases sink : session.sink with
  | tee => rfl
  | discarding | absent =>
    rw [keeps (by rw [sink]; nofun)]
    rfl

/-- What the program shows of its steps, with all that has been printed by then. -/
def printedReports (printed : String) : List (StepReport × Session ι) → List (Answer × Traced ι Journal)
  | [] => []
  | (report, after) :: rest =>
    let printed := printed ++ printedLog report.events
    (report.answer, ⟨after.deck, after.components, printed, after.recorded⟩) :: printedReports printed rest

theorem stepTo_session (keeps : Keeps session) (printed : String) (step : SessionStep ι) :
    let after := (session.step step).1
    let report := (session.step step).2
    stepTo (tracerOf session.sink) ⟨session.deck, session.components, printed, session.recorded⟩ step =
      (⟨after.deck, after.components, printed ++ printedLog report.events, after.recorded⟩, report.answer) := by
  by_cases clears : step = .clear
  · simp only [stepTo_eq, clears, if_true, keeps.clear, foldl_emit, Session.step]
  · simp only [stepTo_eq, clears, if_false, foldl_emit, Session.step]

theorem stepsTo_session (keeps : Keeps session) (printed : String) (steps : List (SessionStep ι)) :
    stepsTo (tracerOf session.sink) ⟨session.deck, session.components, printed, session.recorded⟩ steps =
      printedReports printed (session.reports steps) := by
  induction steps generalizing session printed with
  | nil => rfl
  | cons step rest ih =>
    simp only [stepsTo, stepTo_session keeps, Session.reports, printedReports]
    exact congrArg _ (ih (keeps.step step) _)

omit [DecidableEq ι] in
theorem seen_printedReports (printed : String) (reports : List (StepReport × Session ι)) :
    (printedReports printed reports).map seen =
      reports.map fun (report, after) => (report.answer, after.deck, after.components) := by
  induction reports generalizing printed with
  | nil => rfl
  | cons report rest ih => exact congrArg (List.cons _) (ih _)

/-- Whoever takes the events in, and whatever it makes of them, a session starts from the same
videos and each step answers the same and leaves the same behind, even where it breaks off. The
program's own sessions are such runs, with all that they print and record. -/
theorem sessions_alike (deck : Deck ι) (components : List (Component ι)) (steps : List (SessionStep ι)) (sink other : Sink)
    (tracer : Tracer σ) (before : σ) :
    let session (sink : Sink) := Session.opening deck components sink
    let shown (sink : Sink) :=
      ((session sink).reports steps).map fun (report, after) => (report.answer, after.deck, after.components)
    (session sink).deck = (session other).deck ∧ shown sink = shown other ∧
      (openTo deck components before).deck = (session sink).deck ∧
      (stepsTo tracer (openTo deck components before) steps).map seen = shown sink ∧
      stepsTo (tracerOf sink) (openTo deck components {}) steps = printedReports "" ((session sink).reports steps) := by
  intro session shown
  have program (sink : Sink) :
      stepsTo (tracerOf sink) (openTo deck components {}) steps = printedReports "" ((session sink).reports steps) :=
    @stepsTo_session _ _ (session sink) (fun _ => rfl) "" steps
  have traced (sink : Sink) : (stepsTo tracer (openTo deck components before) steps).map seen = shown sink := by
    calc (stepsTo tracer (openTo deck components before) steps).map seen
      _ = (stepsTo (tracerOf sink) (openTo deck components {}) steps).map seen := stepsTo_alike tracer (tracerOf sink) rfl rfl steps
      _ = shown sink := by rw [program, seen_printedReports]
  exact ⟨rfl, (traced sink).symm.trans (traced other), rfl, traced sink, program sink⟩

end Program

end VideoPage.Proofs.SessionSinks
