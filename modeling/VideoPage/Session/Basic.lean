import VideoPage.Session.Component
import VideoPage.Trace.Export
import VideoPage.Trace.Line

/-! A session: players, the components that drive them, and a record of what they report.
Nothing that a step does to players or components depends on where the reports go. -/

namespace VideoPage

/-- Where reports go. -/
inductive Sink where
  /-- They are printed and recorded. -/
  | tee
  /-- They are taken and dropped. -/
  | discarding
  /-- Nothing takes them. -/
  | absent
deriving DecidableEq

/-- The events that a sink keeps. -/
def Sink.kept : Sink → List Event → List Event
  | tee, events => events
  | discarding, _ | absent, _ => []

/-- One step of a session. -/
inductive SessionStep (ι : Type) where
  /-- Asks the component at a position of the list. -/
  | ask (position : Nat) (verb : Verb)
  | report (event : Event)
  /-- Forgets what was recorded. -/
  | clear
  | overwrite (place : ι) (change : ClipChange)
  /-- Lets seconds pass for one player. -/
  | advance (place : ι) (seconds : Binary64)
  /-- Runs one player's clock for a number of ticks. -/
  | run (place : ι) (ticks : Nat)
deriving DecidableEq

structure Session (ι : Type) where
  deck : Deck ι
  components : List (Component ι)
  sink : Sink := .tee
  recorded : List Event := []

/-- What a step shows of itself. -/
structure StepReport where
  answer : Answer
  events : List Event
deriving DecidableEq

namespace Session

variable {ι : Type} [DecidableEq ι]

/-- What a step is, before anyone looks at its reports: the players and components that it
leaves, its answer and the events that it sends. -/
structure Effect (ι : Type) where
  deck : Deck ι
  components : List (Component ι)
  answer : Answer := .nothing
  events : List Event := []

/-- Asks one component. When a command cannot be carried out, there is no answer. -/
def ask (deck : Deck ι) (components : List (Component ι)) (position : Nat) (verb : Verb) :
    Effect ι :=
  match components[position]? with
  | none => { deck, components }
  | some component =>
    let plan := component.plan verb deck
    let done := deck.perform plan.commands
    { deck := done.deck
      components := components.set position (component.next verb)
      answer := if done.completed then plan.answer else .fault
      events := done.events }

def effect (deck : Deck ι) (components : List (Component ι)) : SessionStep ι → Effect ι
  | .ask position verb => ask deck components position verb
  | .report event => { deck, components, events := [event] }
  | .clear => { deck, components }
  | .overwrite place change =>
    { deck := deck.set place ((deck place).overwrite change), components }
  | .advance place seconds =>
    let (player, ended) := (deck place).advance seconds
    { deck := deck.set place player, components, answer := .truth ended }
  | .run place ticks => { deck := deck.set place ((deck place).run ticks), components }

/-- Takes one step and records what it reports. -/
def step (session : Session ι) (step : SessionStep ι) : Session ι × StepReport :=
  let effect := effect session.deck session.components step
  let events := session.sink.kept effect.events
  let recorded := if step = .clear then [] else session.recorded
  ({ session with
      deck := effect.deck
      components := effect.components
      recorded := recorded ++ events },
    ⟨effect.answer, events⟩)

/-- The session after some steps. -/
def run (session : Session ι) (steps : List (SessionStep ι)) : Session ι :=
  steps.foldl (fun session next => (session.step next).1) session

/-- What each of some steps shows, with the session that it leaves. -/
def reports (session : Session ι) : List (SessionStep ι) → List (StepReport × Session ι)
  | [] => []
  | next :: rest =>
    let (after, report) := session.step next
    (report, after) :: after.reports rest

/-- A session over players whose components have just been made. -/
def opening (deck : Deck ι) (components : List (Component ι)) (sink : Sink) : Session ι where
  deck := (deck.perform (components.flatMap Component.start)).deck
  components := components
  sink := sink

end Session
end VideoPage
