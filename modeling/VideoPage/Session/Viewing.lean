import VideoPage.Page.Settings
import VideoPage.Session.Basic

/-! A viewing that follows a script: every behaviour is used over simulated videos, and
everything that is reported or shown is printed. -/

namespace VideoPage

/-- The videos of the script. -/
inductive ViewingVideo where
  | primary
  | follower
  | lecture
deriving DecidableEq

/-- A viewing under way, with what has been printed. -/
structure Viewing where
  session : Session ViewingVideo
  printed : String := ""

namespace Viewing

def deck : Deck ViewingVideo
  | .primary | .follower => .simulated { duration := 12 }
  | .lecture => .simulated { duration := 60 }

def components : List (Component ViewingVideo) :=
  let settings : Settings := {}
  [.comparison ⟨⟨.comparison, 0⟩, .primary, .follower, settings.comparisonRate⟩,
    .controls ⟨⟨.controls, 0⟩, .lecture, settings.limits⟩,
    .phase ⟨⟨.phase, 0⟩, .lecture⟩,
    .tooltip { id := ⟨.tooltip, 0⟩, text := "Frames decoded per second" }]

/-- Where each behaviour stands among the components. -/
def comparison : Nat := 0

def controls : Nat := 1

def phase : Nat := 2

def tooltip : Nat := 3

/-- What is printed about an answer. -/
def answerText : Answer → String
  | .icon icon => " button: " ++ icon.markup
  | .rewound rewound =>
    " reset: " ++ rewound.frame.label ++ " bar=" ++ rewound.frame.css ++ " button: "
      ++ rewound.icon.markup
  | .frame frame => ": " ++ frame.label ++ " bar=" ++ frame.css
  | .text text => ": " ++ text
  | .rateChange change => ": " ++ change.label
  | .number percent => ": left=" ++ String.ofList (percent.fixedText 2) ++ "%"
  | _ => ""

/-- Takes a step and prints what it reports. -/
def quietly (viewing : Viewing) (step : SessionStep ViewingVideo) : Viewing :=
  let (session, report) := viewing.session.step step
  ⟨session, viewing.printed ++ printedLog report.events⟩

/-- Asks a component, and prints what it reports and then, under a name, its answer. -/
def aloud (viewing : Viewing) (position : Nat) (verb : Verb) (name : String) : Viewing :=
  let (session, report) := viewing.session.step (.ask position verb)
  ⟨session, viewing.printed ++ printedLog report.events ++ "  " ++ name
    ++ answerText report.answer ++ "\n"⟩

/-- Asks a component without printing its answer. -/
def ask (viewing : Viewing) (position : Nat) (verb : Verb) : Viewing :=
  viewing.quietly (.ask position verb)

/-- The look at the clock after which the comparison is moved on. -/
def seekTick : Nat := 16

/-- The position of the comparison is printed at each of so many looks at the clock. -/
def frameTicks : Nat := 8

/-- The number of looks at the clock after which a comparison is given up. -/
def lastTick : Nat := 1000

/-- Watches the comparison from a look at the clock on, until its primary ends. -/
def watch (viewing : Viewing) (tick : Nat) : Nat → Viewing
  | 0 => viewing
  | remaining + 1 =>
    let (session, report) := viewing.session.step (.advance .primary Player.tick)
    let viewing := { viewing with session }.quietly (.advance .follower Player.tick)
    if report.answer = .truth true then viewing.aloud comparison .ended "comparison"
    else
      let viewing := if tick = seekTick then viewing.ask comparison (.seek 75) else viewing
      let viewing :=
        if tick % frameTicks = 0 then viewing.aloud comparison .timeUpdate "comparison" else viewing
      viewing.watch (tick + 1) remaining

/-- The start of the script: the components have been bound, and a second timeline has
found no video. -/
def bound : Viewing :=
  let kinds : List ComponentKind := [.comparison, .controls, .phase, .tooltip]
  let reports := kinds.map (Event.bound ⟨·, 0⟩) ++ [.skipped ⟨.phase, 1⟩ .missingVideo]
  reports.foldl (fun viewing event => viewing.quietly (.report event))
    { session := .opening deck components .tee }

/-- The whole script. The second time that the pointer enters the tooltip reports
nothing. -/
def scripted : Viewing :=
  bound
  |>.aloud comparison .toggle "comparison"
  |>.watch 1 lastTick
  |>.aloud controls .speedLabel "speed"
  |>.aloud controls .fast "speed"
  |>.aloud controls .fast "speed"
  |>.quietly (.run .lecture 20)
  |>.aloud controls .timeUpdate "controls"
  |>.aloud controls .slow "speed"
  |>.ask controls (.seek 50)
  |>.ask phase (.jump 25)
  |>.quietly (.run .lecture 4)
  |>.aloud phase .indicator "indicator"
  |>.ask tooltip .enter
  |>.ask tooltip .enter
  |>.ask tooltip .leave
  |>.aloud controls .restart "speed"
  |>.aloud controls .toggle "controls"

end Viewing
end VideoPage
