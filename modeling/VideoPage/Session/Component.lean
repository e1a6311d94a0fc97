import VideoPage.Behaviour.Comparison
import VideoPage.Behaviour.Timeline
import VideoPage.Behaviour.Tooltip
import VideoPage.Behaviour.Transport

/-! The behaviours behind one interface: what each can be asked and what it answers. -/

namespace VideoPage

inductive Component (ι : Type) where
  | comparison (comparison : Comparison ι)
  | controls (transport : Transport ι)
  | phase (timeline : Timeline ι)
  | tooltip (tooltip : Tooltip)
deriving DecidableEq

inductive Verb where
  | id
  /-- The times of the videos that are driven. -/
  | media
  | isPlaying
  | play
  | pause
  | toggle
  | timeUpdate
  | seek (percent : Binary64)
  | ended
  | speedLabel
  | slow
  | fast
  | restart
  | jump (start : Binary64)
  | indicator
  | text
  | isVisible
  | enter
  | leave
deriving DecidableEq

inductive Answer where
  | nothing
  | id (id : ComponentId)
  | numbers (numbers : List Binary64)
  | truth (truth : Bool)
  | icon (icon : PlayIcon)
  | frame (frame : Frame)
  | number (number : Binary64)
  | text (text : String)
  | rewound (rewound : Rewound)
  | rateChange (change : RateChange)
  /-- A simulated player was asked to stay within a duration that is no range. -/
  | fault
deriving DecidableEq

namespace Component

variable {ι : Type}

/-- What making a component does to its videos. -/
def start : Component ι → List (Command ι)
  | comparison c => c.start
  | _ => []

/-- A plan whose answer is of one kind. -/
def answering {α : Type} (kind : α → Answer) (plan : Plan ι α) : Plan ι Answer :=
  ⟨plan.commands, kind plan.answer⟩

/-- An answer that takes no commands. -/
def reading (answer : Answer) : Plan ι Answer := ⟨[], answer⟩

def comparisonPlan (c : Comparison ι) (deck : Deck ι) : Verb → Plan ι Answer
  | .id => reading (.id c.id)
  | .media => reading (.numbers [(deck c.primary).clip.time, (deck c.follower).clip.time])
  | .isPlaying => reading (.truth (c.isPlaying deck))
  | .play => answering .icon c.play
  | .pause => answering .icon c.pause
  | .toggle => answering .icon (c.toggle deck)
  | .timeUpdate => reading (.frame (c.frame deck))
  | .seek percent => answering .number (c.seek percent deck)
  | .ended => answering .rewound (c.ended deck)
  | _ => reading .nothing

def controlsPlan (t : Transport ι) (deck : Deck ι) : Verb → Plan ι Answer
  | .id => reading (.id t.id)
  | .media => reading (.numbers [(deck t.video).clip.time])
  | .speedLabel => reading (.text (t.speedLabel deck))
  | .toggle => answering .icon (t.toggle deck)
  | .slow => answering .rateChange (t.slow deck)
  | .fast => answering .rateChange (t.fast deck)
  | .restart => answering .rateChange t.restart
  | .timeUpdate => reading (.frame (t.frame deck))
  | .seek percent => answering .number (t.seek percent deck)
  | _ => reading .nothing

def phasePlan (t : Timeline ι) (deck : Deck ι) : Verb → Plan ι Answer
  | .id => reading (.id t.id)
  | .media => reading (.numbers [(deck t.video).clip.time])
  | .jump start => answering .icon (t.jump start deck)
  | .indicator => reading (match t.indicator? deck with
    | some percent => .number percent
    | none => .nothing)
  | _ => reading .nothing

/-- The pointer's coming or going, as far as a tooltip is concerned. -/
def hoverPlan (tooltip : Tooltip) (inside : Bool) : Plan ι Answer :=
  ⟨(tooltip.hoverEvents inside).map .announce, .truth (tooltip.hover inside).visible⟩

def tooltipPlan (tooltip : Tooltip) : Verb → Plan ι Answer
  | .id => reading (.id tooltip.id)
  | .text => reading (.text tooltip.text)
  | .isVisible => reading (.truth tooltip.visible)
  | .enter => hoverPlan tooltip true
  | .leave => hoverPlan tooltip false
  | _ => reading .nothing

/-- What a component does when it is asked. A verb that is not one of its own does
nothing. -/
def plan (component : Component ι) (verb : Verb) (deck : Deck ι) : Plan ι Answer :=
  match component with
  | comparison c => comparisonPlan c deck verb
  | controls t => controlsPlan t deck verb
  | phase t => phasePlan t deck verb
  | tooltip t => tooltipPlan t verb

/-- The component after it was asked. Only a tooltip has a state of its own. -/
def next (component : Component ι) (verb : Verb) : Component ι :=
  match component, verb with
  | tooltip t, .enter => .tooltip (t.hover true)
  | tooltip t, .leave => .tooltip (t.hover false)
  | other, _ => other

end Component
end VideoPage
