import VideoPage.Media.Player
import VideoPage.Table
import VideoPage.Trace.Event

/-! Players that are driven together, and the commands that drive them. A behaviour never
changes a player itself: it answers with a plan, and the deck performs the plan. -/

namespace VideoPage

/-- Every player, by its place. -/
abbrev Deck (ι : Type) := Table ι Player

inductive Command (ι : Type) where
  | seek (place : ι) (time : Binary64)
  | setRate (place : ι) (rate : Binary64)
  | play (place : ι)
  | pause (place : ι)
  /-- Reports an action with the time and the rate that a player has by then. -/
  | report (component : ComponentId) (action : ActionKind) (place : ι)
  /-- Reports an event as it stands. -/
  | announce (event : Event)
deriving DecidableEq

/-- What a behaviour does when it is used: its commands, in order, and its answer. -/
structure Plan (ι α : Type) where
  commands : List (Command ι)
  answer : α

namespace Deck

variable {ι : Type} [DecidableEq ι]

/-- The deck after a command. There is none when a simulated player is asked to stay
within a duration that is no range. -/
def after? (deck : Deck ι) : Command ι → Option (Deck ι)
  | .seek place time => ((deck place).seek? time).map (deck.set place)
  | .setRate place rate => some (deck.set place ((deck place).setRate rate))
  | .play place => some (deck.set place (deck place).play)
  | .pause place => some (deck.set place (deck place).pause)
  | .report .. | .announce _ => some deck

/-- The events that a command reports. -/
def reported (deck : Deck ι) : Command ι → List Event
  | .report id action place => [.action id action (deck place).clip.time (deck place).clip.rate]
  | .announce event => [event]
  | _ => []

/-- What performing commands leaves behind. -/
structure Performance (ι : Type) where
  deck : Deck ι
  events : List Event
  /-- False when a command could not be carried out; what came before it stays done. -/
  completed : Bool

/-- Performs commands one after the other. -/
def perform (deck : Deck ι) : List (Command ι) → Performance ι
  | [] => ⟨deck, [], true⟩
  | command :: rest =>
    match deck.after? command with
    | none => ⟨deck, [], false⟩
    | some next =>
      let remaining := next.perform rest
      { remaining with events := deck.reported command ++ remaining.events }

end Deck
end VideoPage
