import Mathlib.Logic.Function.Iterate
import VideoPage.Session.Basic

/-! A clock that is run. Running stops at the end of the video, where the video has paused itself, and
for a paused video no time passes. So nothing is left that shows whether the clock was run at once, in
parts or tick by tick. -/

namespace VideoPage.Proofs.RunningClock

section Players

variable {player : Player} {seconds : Binary64}

/-- A player some seconds later. -/
def later (seconds : Binary64) (player : Player) : Player := (player.advance seconds).1

theorem advance_paused (paused : player.clip.paused = true) (seconds : Binary64) : player.advance seconds = (player, false) := by
  rw [Player.advance]
  exact if_pos paused

/-- A video that has come to its end is paused. -/
theorem paused_of_ended (ended : (player.advance seconds).2 = true) : (later seconds player).clip.paused = true := by
  rw [later]
  rw [Player.advance] at ended ⊢
  split at ended
  · cases ended
  · next playing =>
    simp only [playing, Bool.false_eq_true, if_false]
    exact ended

theorem run_paused (paused : player.clip.paused = true) (ticks : Nat) : player.run ticks = player := by
  induction ticks with
  | zero => rfl
  | succ ticks ih => simp only [Player.run, advance_paused paused, Bool.false_eq_true, if_false, ih]

/-- The exit after a tick that ends the video is the same as going on. -/
theorem run_succ (player : Player) (ticks : Nat) : player.run (ticks + 1) = (later Player.tick player).run ticks := by
  cases ended : (player.advance Player.tick).2 with
  | true =>
    rw [run_paused (paused_of_ended ended)]
    simp only [Player.run, ended, if_true, later]
  | false => simp only [Player.run, ended, Bool.false_eq_true, if_false, later]

theorem run_eq_iterate (player : Player) (ticks : Nat) : player.run ticks = (later Player.tick)^[ticks] player := by
  induction ticks generalizing player with
  | zero => rfl
  | succ ticks ih => rw [run_succ, ih, Function.iterate_succ_apply]

theorem run_add (player : Player) (first second : Nat) : player.run (first + second) = (player.run first).run second := by
  rw [run_eq_iterate, run_eq_iterate, run_eq_iterate, Nat.add_comm, Function.iterate_add_apply]

end Players

section Sessions

variable {ι : Type} [DecidableEq ι]

/-- A session in which one player has been replaced. -/
def replaced (session : Session ι) (place : ι) (player : Player) : Session ι :=
  { session with deck := session.deck.set place player }

theorem kept_nothing (sink : Sink) : sink.kept [] = [] := by
  cases sink <;> rfl

theorem step_advance (session : Session ι) (place : ι) (seconds : Binary64) :
    (session.step (.advance place seconds)).1 = replaced session place (later seconds (session.deck place)) := by
  simp [Session.step, Session.effect, kept_nothing, replaced, later]

theorem step_run (session : Session ι) (place : ι) (ticks : Nat) :
    (session.step (.run place ticks)).1 = replaced session place ((session.deck place).run ticks) := by
  simp [Session.step, Session.effect, kept_nothing, replaced]

@[simp] theorem deck_replaced (session : Session ι) (place : ι) (player : Player) :
    (replaced session place player).deck place = player := Table.set_same _ _ _

theorem replaced_twice (session : Session ι) (place : ι) (first second : Player) :
    replaced (replaced session place first) place second = replaced session place second := by
  have decks : (session.deck.set place first).set place second = session.deck.set place second := by
    funext other
    by_cases same : other = place
    · rw [same, Table.set_same, Table.set_same]
    · rw [Table.set_other _ _ same, Table.set_other _ _ same, Table.set_other _ _ same]
  simp only [replaced, decks]

theorem session_ticks (session : Session ι) (place : ι) (ticks : Nat) :
    session.run (List.replicate ticks (.advance place Player.tick)) =
      replaced session place ((session.deck place).run ticks) := by
  induction ticks generalizing session with
  | zero =>
    have same : session.deck.set place (session.deck place) = session.deck := by
      funext other
      by_cases here : other = place
      · rw [here, Table.set_same]
      · rw [Table.set_other _ _ here]
    simp [Session.run, Player.run, replaced, same]
  | succ ticks ih =>
    have first := step_advance session place Player.tick
    calc session.run (List.replicate (ticks + 1) (.advance place Player.tick))
      _ = (session.step (.advance place Player.tick)).1.run (List.replicate ticks (.advance place Player.tick)) := by
        rw [List.replicate_succ, Session.run, Session.run, List.foldl_cons]
      _ = replaced session place ((later Player.tick (session.deck place)).run ticks) := by
        rw [ih, first, deck_replaced, replaced_twice]
      _ = replaced session place ((session.deck place).run (ticks + 1)) := by rw [run_succ]

theorem session_run (session : Session ι) (place : ι) (ticks : Nat) :
    session.run [.run place ticks] = replaced session place ((session.deck place).run ticks) := by
  rw [Session.run, List.foldl_cons, List.foldl_nil, step_run]

/-- A video is left alike by a run of the clock, by as many single ticks, and by two runs that take as
long together; and so is a session that the video belongs to, with all else in it. -/
theorem run_as_ticks :
    (∀ (player : Player) (first second : Nat), player.run first = (later Player.tick)^[first] player ∧
      player.run (first + second) = (player.run first).run second) ∧
    ∀ (session : Session ι) (place : ι) (first second : Nat),
      session.run [.run place first] = session.run (List.replicate first (.advance place Player.tick)) ∧
      session.run [.run place (first + second)] = session.run [.run place first, .run place second] := by
  refine ⟨fun player first second => ⟨run_eq_iterate player first, run_add player first second⟩, ?_⟩
  intro session place first second
  refine ⟨by rw [session_ticks, session_run], ?_⟩
  calc session.run [.run place (first + second)]
    _ = replaced session place (((session.deck place).run first).run second) := by rw [session_run, run_add]
    _ = (replaced session place ((session.deck place).run first)).run [.run place second] := by
      rw [session_run, deck_replaced, replaced_twice]
    _ = session.run [.run place first, .run place second] := by
      rw [← session_run, Session.run, Session.run, Session.run, ← List.foldl_append]
      rfl

end Sessions

end VideoPage.Proofs.RunningClock
