import VideoPage.Decimal.Layout
import VideoPage.Trace.Event

/-! Events as lines for a reader: a log prints one line for each event, and a browser's
console shows a shorter message at a level of its own. -/

namespace VideoPage

/-- A behaviour as lines name it. -/
def ComponentId.label (id : ComponentId) : List Char :=
  id.kind.name.toList ++ '#' :: Nat.toDigits 10 id.index

namespace Event

/-- The line that a log prints for an event, without its line break. -/
def line : Event → List Char
  | bound id => "[bound] ".toList ++ id.label
  | skipped id reason => "[skip] ".toList ++ id.label ++ " reason=".toList ++ reason.name.toList
  | action id kind time rate =>
    "[action] ".toList ++ id.label ++ ' ' :: kind.name.toList ++ " t=".toList ++ time.fixedText 3
      ++ "s rate=".toList ++ rate.fixedText 2 ++ ['x']
  | seek id percent target =>
    "[seek] ".toList ++ id.label ++ ' ' :: percent.fixedText 1 ++ "% -> ".toList
      ++ target.fixedText 3 ++ ['s']

/-- The message that a console shows for an event. -/
def message : Event → List Char
  | bound id => "bound ".toList ++ id.label
  | skipped id reason => "skipped ".toList ++ id.label ++ ": ".toList ++ reason.name.toList
  | action id kind time rate =>
    id.label ++ ' ' :: kind.name.toList ++ " t=".toList ++ time.fixedText 3 ++ "s rate=".toList
      ++ rate.fixedText 2
  | seek id percent target =>
    id.label ++ " seek ".toList ++ percent.fixedText 1 ++ "% -> ".toList ++ target.fixedText 3
      ++ ['s']

end Event

/-- What a log prints for events. -/
def printedLog (events : List Event) : String :=
  String.ofList (events.flatMap fun event => event.line ++ ['\n'])

/-- The levels of a console that a page writes to. -/
inductive ConsoleLevel where
  | debug
  | warn
  | log
deriving DecidableEq

structure ConsoleLine where
  level : ConsoleLevel
  text : String
deriving DecidableEq

/-- A skipped behaviour is a warning and anything else is for debugging. -/
def Event.level : Event → ConsoleLevel
  | skipped .. => .warn
  | _ => .debug

/-- An event as a console shows it, after the name of the page. -/
def Event.consoleLine (name : String) (event : Event) : ConsoleLine :=
  ⟨event.level, name ++ String.ofList (' ' :: event.message)⟩

end VideoPage
