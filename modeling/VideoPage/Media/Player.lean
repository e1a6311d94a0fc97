import VideoPage.Binary64.Arithmetic
import VideoPage.Decimal.Basic

/-! Video players. Behaviours see every player alike and read only its clip; the kinds
differ in what becomes of a command. -/

namespace VideoPage

/-- What a player shows of its video. -/
structure Clip where
  time : Binary64 := 0
  /-- NaN until the video's metadata has loaded. -/
  duration : Binary64 := .nan
  rate : Binary64 := 1
  paused : Bool := true
deriving DecidableEq

/-- New values for some of what a player shows. -/
structure ClipChange where
  time : Option Binary64 := none
  duration : Option Binary64 := none
  rate : Option Binary64 := none
  paused : Option Bool := none
deriving DecidableEq

inductive PlayerKind where
  /-- Stores whatever it is given and counts how often it was started. -/
  | stub (starts : Nat)
  /-- Moves only when its clock is advanced. -/
  | simulated
  /-- Part of a page, which may refuse to start it. -/
  | embedded (blocked : Bool)
deriving DecidableEq

structure Player where
  kind : PlayerKind
  clip : Clip
deriving DecidableEq

namespace Player

def stub (clip : Clip) : Player := ⟨.stub 0, clip⟩

def simulated (clip : Clip) : Player := ⟨.simulated, clip⟩

/-- Moves to a time. A simulated player stays within its duration, which has to be a
range for that. -/
def seek? (player : Player) (time : Binary64) : Option Player :=
  match player.kind with
  | .simulated =>
    if 0 ≤ player.clip.duration then
      some { player with clip.time := time.clamp 0 player.clip.duration }
    else none
  | _ => some { player with clip.time := time }

def setRate (player : Player) (rate : Binary64) : Player := { player with clip.rate := rate }

/-- Starts a player. One that is blocked stays as it is, and no error is reported. -/
def play (player : Player) : Player :=
  match player.kind with
  | .stub starts => ⟨.stub (starts + 1), { player.clip with paused := false }⟩
  | .simulated => { player with clip.paused := false }
  | .embedded blocked => if blocked then player else { player with clip.paused := false }

def pause (player : Player) : Player := { player with clip.paused := true }

/-- Lets seconds pass and says whether that brought a video to its end. A video pauses
itself there. -/
def advance (player : Player) (seconds : Binary64) : Player × Bool :=
  let clip := player.clip
  if clip.paused then (player, false)
  else
    let time := (clip.time + seconds * clip.rate).minimum clip.duration
    let ended := clip.duration.lessEq time
    ({ player with clip.time := time, clip.paused := ended }, ended)

/-- The seconds that pass between two looks at a clock that is being run. -/
def tick : Binary64 := 0.25

/-- Runs the clock for a number of ticks, or until the video ends. -/
def run (player : Player) : Nat → Player
  | 0 => player
  | ticks + 1 =>
    let (next, ended) := player.advance tick
    if ended then next else next.run ticks

/-- Overwrites what a player shows. The duration of a simulated player is fixed. -/
def overwrite (player : Player) (change : ClipChange) : Player :=
  let clip := player.clip
  { player with clip :=
    { time := change.time.getD clip.time
      duration := if player.kind = .simulated then clip.duration
        else change.duration.getD clip.duration
      rate := change.rate.getD clip.rate
      paused := change.paused.getD clip.paused } }

/-- Lets the page refuse to start a player, or not. -/
def setBlocked (player : Player) (blocked : Bool) : Player :=
  match player.kind with
  | .embedded _ => { player with kind := .embedded blocked }
  | _ => player

end Player
end VideoPage
