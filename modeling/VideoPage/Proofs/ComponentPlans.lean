import VideoPage.Session.Component

/-! What components do when they are asked. Whatever the verb, the commands of a plan have one of
a few shapes, and the plan depends on nothing but what the players show. -/

namespace VideoPage.Proofs.ComponentPlans

variable {ι : Type}

/-- What all players show. -/
def clips (deck : Deck ι) : Table ι Clip := fun place => (deck place).clip

/-- The commands that a component can give. -/
inductive Gives (shown : Table ι Clip) : Component ι → List (Command ι) → Prop where
  | nothing (component : Component ι) : Gives shown component []
  | playBoth (c : Comparison ι) :
      Gives shown (.comparison c) [.play c.primary, .play c.follower, .report c.id .play c.primary]
  | pauseBoth (c : Comparison ι) :
      Gives shown (.comparison c) [.pause c.primary, .pause c.follower, .report c.id .pause c.primary]
  | seekBoth (c : Comparison ι) (percent : Binary64) {target : Binary64}
      (asked : target = Percent.toTime percent (shown c.primary).duration) :
      Gives shown (.comparison c)
        [.seek c.primary target, .seek c.follower target, .announce (.seek c.id percent target)]
  | rewindBoth (c : Comparison ι) :
      Gives shown (.comparison c) [.pause c.primary, .pause c.follower, .report c.id .pause c.primary,
        .seek c.primary 0, .seek c.follower 0, .report c.id .ended c.primary]
  | play (t : Transport ι) : Gives shown (.controls t) [.play t.video, .report t.id .play t.video]
  | pause (t : Transport ι) : Gives shown (.controls t) [.pause t.video, .report t.id .pause t.video]
  | slow (t : Transport ι) (rate : Binary64) :
      Gives shown (.controls t) [.setRate t.video rate, .play t.video, .report t.id .slow t.video]
  | fast (t : Transport ι) (rate : Binary64) :
      Gives shown (.controls t) [.setRate t.video rate, .play t.video, .report t.id .fast t.video]
  | restart (t : Transport ι) (rate : Binary64) :
      Gives shown (.controls t)
        [.seek t.video 0, .setRate t.video rate, .play t.video, .report t.id .restart t.video]
  | seek (t : Transport ι) (percent target : Binary64) :
      Gives shown (.controls t) [.seek t.video target, .announce (.seek t.id percent target)]
  | jump (t : Timeline ι) (target : Binary64) :
      Gives shown (.phase t)
        [.seek t.video target, .play t.video, .announce (.action t.id .segmentJump target (shown t.video).rate)]
  | hover (t : Tooltip) (inside : Bool) : Gives shown (.tooltip t) ((t.hoverEvents inside).map .announce)

variable {deck : Deck ι}

theorem plan_gives (component : Component ι) (verb : Verb) :
    Gives (clips deck) component (component.plan verb deck).commands := by
  cases component with
  | comparison comparison =>
    cases verb with
    | play => exact .playBoth comparison
    | pause => exact .pauseBoth comparison
    | toggle =>
      simp only [Component.plan, Component.comparisonPlan, Comparison.toggle]
      split
      · exact .pauseBoth comparison
      · exact .playBoth comparison
    | seek percent => exact .seekBoth comparison _ rfl
    | ended => exact .rewindBoth comparison
    | _ => exact .nothing _
  | controls transport =>
    cases verb with
    | toggle =>
      simp only [Component.plan, Component.controlsPlan, Transport.toggle]
      split
      · exact .play transport
      · exact .pause transport
    | slow => exact .slow transport _
    | fast => exact .fast transport _
    | restart => exact .restart transport _
    | seek percent => exact .seek transport _ _
    | _ => exact .nothing _
  | phase timeline =>
    cases verb with
    | jump start => exact .jump timeline _
    | _ => exact .nothing _
  | tooltip tooltip =>
    cases verb with
    | enter => exact .hover tooltip true
    | leave => exact .hover tooltip false
    | _ => exact .nothing _

/-- Only a session finds fault, when a command cannot be carried out. -/
theorem answer_ne_fault (component : Component ι) (verb : Verb) : (component.plan verb deck).answer ≠ .fault := by
  cases component with
  | comparison => cases verb <;> simp [Component.plan, Component.comparisonPlan, Component.answering, Component.reading]
  | controls => cases verb <;> simp [Component.plan, Component.controlsPlan, Component.answering, Component.reading]
  | phase =>
    cases verb with
    | indicator =>
      simp only [Component.plan, Component.phasePlan, Component.reading]
      split <;> simp
    | _ => simp [Component.plan, Component.phasePlan, Component.answering, Component.reading]
  | tooltip => cases verb <;> simp [Component.plan, Component.tooltipPlan, Component.hoverPlan, Component.reading]

section Places

/-- The place at which a command changes anything. -/
def place : Command ι → Option ι
  | .seek place _ | .setRate place _ | .play place | .pause place => some place
  | .report .. | .announce _ => none

/-- Whether a video is paused after a command, when it was so before or not. A page that blocks
the video refuses to start it. -/
def pausedAfter [DecidableEq ι] (video : ι) (blocked paused : Bool) : Command ι → Bool
  | .play place => if place = video then blocked && paused else paused
  | .pause place => if place = video then true else paused
  | _ => paused

/-- The videos that a component has to do with. -/
def videos : Component ι → List ι
  | .comparison comparison => [comparison.primary, comparison.follower]
  | .controls transport => [transport.video]
  | .phase timeline => [timeline.video]
  | .tooltip _ => []

theorem Gives.places {shown : Table ι Clip} {component : Component ι} {commands : List (Command ι)}
    (gives : Gives shown component commands) : ∀ command ∈ commands, ∀ video ∈ place command, video ∈ videos component := by
  cases gives with
  | hover tooltip inside => simp [place]
  | _ => simp [place, videos]

/-- A component decides by what its own videos show, whatever kinds of players show it. -/
theorem plan_congr_on {other : Deck ι} (component : Component ι)
    (same : ∀ video ∈ videos component, (deck video).clip = (other video).clip) (verb : Verb) :
    component.plan verb deck = component.plan verb other := by
  cases component with
  | comparison comparison =>
    have primary : (deck comparison.primary).clip = (other comparison.primary).clip := same _ List.mem_cons_self
    have follower : (deck comparison.follower).clip = (other comparison.follower).clip := by
      apply same
      exact List.mem_cons_of_mem _ List.mem_cons_self
    have playing : comparison.isPlaying deck = comparison.isPlaying other := by
      rw [Comparison.isPlaying, Comparison.isPlaying, primary]
    cases verb <;>
      simp only [Component.plan, Component.comparisonPlan, Comparison.toggle, Comparison.frame, Comparison.seek,
        Comparison.ended, playing, primary, follower]
  | controls transport =>
    have shown : (deck transport.video).clip = (other transport.video).clip := same _ List.mem_cons_self
    cases verb <;>
      simp only [Component.plan, Component.controlsPlan, Transport.speedLabel, Transport.toggle, Transport.slow,
        Transport.fast, Transport.frame, Transport.seek, shown]
  | phase timeline =>
    have shown : (deck timeline.video).clip = (other timeline.video).clip := same _ List.mem_cons_self
    cases verb <;> simp only [Component.plan, Component.phasePlan, Timeline.jump, Timeline.indicator?, shown]
  | tooltip tooltip => rfl

end Places

section Names

/-- The name under which a component reports. -/
def idOf : Component ι → ComponentId
  | .comparison comparison => comparison.id
  | .controls transport => transport.id
  | .phase timeline => timeline.id
  | .tooltip tooltip => tooltip.id

/-- The component that an event comes from. -/
def sender : Event → ComponentId
  | .bound id | .skipped id _ | .action id .. | .seek id .. => id

theorem idOf_next (component : Component ι) (verb : Verb) : idOf (component.next verb) = idOf component := by
  cases component with
  | tooltip tooltip => cases verb <;> rfl
  | _ => rfl

/-- A command that reports under one name only. -/
def Signed (id : ComponentId) : Command ι → Prop
  | .report other .. => other = id
  | .announce event => sender event = id
  | _ => True

theorem Gives.signed {shown : Table ι Clip} {component : Component ι} {commands : List (Command ι)}
    (gives : Gives shown component commands) : ∀ command ∈ commands, Signed (idOf component) command := by
  cases gives with
  | hover tooltip inside =>
    simp only [Tooltip.hoverEvents]
    split <;> simp [Signed, sender, idOf]
  | _ => simp [Signed, sender, idOf]

end Names

end VideoPage.Proofs.ComponentPlans
