import VideoPage.Proofs.SessionSinks
import VideoPage.Proofs.UnbrokenLines
import VideoPage.Proofs.WillingPlayers

/-! A session whose events go to a printer and to a recorder side by side. What is printed and what is
recorded tell the same events in the same order, one line for each of them. -/

namespace VideoPage.Proofs.PrintedSessions
open SessionSinks UnbrokenLines

variable {ι σ τ : Type}

section Sinks

/-- A sink with a method for each kind of event. A method that it leaves out takes the event and does
nothing. -/
structure TraceSink (σ : Type) where
  bound : ComponentId → σ → σ := fun _ => id
  skipped : ComponentId → SkipReason → σ → σ := fun _ _ => id
  action : ComponentId → ActionKind → Binary64 → Binary64 → σ → σ := fun _ _ _ _ => id
  seek : ComponentId → Binary64 → Binary64 → σ → σ := fun _ _ _ => id

def TraceSink.receive (sink : TraceSink σ) (state : σ) : Event → σ
  | .bound component => sink.bound component state
  | .skipped component reason => sink.skipped component reason state
  | .action component action time rate => sink.action component action time rate state
  | .seek component percent target => sink.seek component percent target state

/-- Writes a line to what has been printed. -/
def writeLine (line : List Char) (printed : String) : String := printed ++ String.ofList (line ++ ['\n'])

def printer : TraceSink String where
  bound component := writeLine (Event.bound component).line
  skipped component reason := writeLine (Event.skipped component reason).line
  action component action time rate := writeLine (Event.action component action time rate).line
  seek component percent target := writeLine (Event.seek component percent target).line

def recorder : TraceSink (List Event) where
  bound component recorded := recorded ++ [.bound component]
  skipped component reason recorded := recorded ++ [.skipped component reason]
  action component action time rate recorded := recorded ++ [.action component action time rate]
  seek component percent target recorded := recorded ++ [.seek component percent target]

/-- Hands every event on to two sinks, one after the other. -/
def both (first : TraceSink σ) (second : TraceSink τ) : TraceSink (σ × τ) where
  bound component state := (first.bound component state.1, second.bound component state.2)
  skipped component reason state := (first.skipped component reason state.1, second.skipped component reason state.2)
  action component action time rate state :=
    (first.action component action time rate state.1, second.action component action time rate state.2)
  seek component percent target state := (first.seek component percent target state.1, second.seek component percent target state.2)

/-- The printer and the recorder side by side. Only the recorder can forget. -/
def teed : EventSink (String × List Event) where
  receive := (both printer recorder).receive
  forget state := (state.1, [])

theorem both_receive (first : TraceSink σ) (second : TraceSink τ) (state : σ × τ) (event : Event) :
    (both first second).receive state event = (first.receive state.1 event, second.receive state.2 event) := by
  cases event <;> rfl

theorem printer_receive (printed : String) (event : Event) : printer.receive printed event = printed ++ printedLog [event] := by
  rw [printedLog, List.flatMap_singleton]
  cases event <;> rfl

theorem recorder_receive (recorded : List Event) (event : Event) : recorder.receive recorded event = recorded ++ [event] := by
  cases event <;> rfl

theorem foldl_teed (printed : String) (recorded events : List Event) :
    events.foldl (Tracer.emit (some teed)) (printed, recorded) = (printed ++ printedLog events, recorded ++ events) := by
  induction events generalizing printed recorded with
  | nil => simp [printedLog]
  | cons event rest ih =>
    have log : printedLog (event :: rest) = printedLog [event] ++ printedLog rest := printedLog_append [event] rest
    have here : Tracer.emit (some teed) (printed, recorded) event = (printed ++ printedLog [event], recorded ++ [event]) := by
      rw [← printer_receive, ← recorder_receive]
      exact both_receive printer recorder (printed, recorded) event
    rw [List.foldl_cons, here, ih, log, List.append_assoc, String.append_assoc]
    rfl

end Sinks

section Lines

theorem unbroken_label (id : ComponentId) : Unbroken id.label := by
  simp [ComponentId.label]

theorem unbroken_line (event : Event) : Unbroken event.line := by
  cases event
  all_goals
    change Unbroken (_ ++ _)
    simp only [unbroken_append, unbroken_cons, unbroken_label, unbroken_reason, unbroken_action, unbroken_fixedText]
    decide

/-- A log is one line for each event and nothing behind the last. -/
theorem splitOn_printedLog (events : List Event) : (printedLog events).toList.splitOn '\n' = events.map Event.line ++ [[]] := by
  have log : (printedLog events).toList = terminated (events.map Event.line) := by
    rw [printedLog, String.toList_ofList, terminated, List.flatMap_map]
  rw [log]
  apply splitOn_terminated
  intro line member
  obtain ⟨event, -, rfl⟩ := List.mem_map.mp member
  exact unbroken_line event

end Lines

section Names

/-- The words of a line that go by names: which kind of event it is, which component it comes from,
and why that was skipped or what was done to it. -/
def names : Event → List (List Char)
  | .bound id => ["[bound]".toList, id.label]
  | .skipped id reason => ["[skip]".toList, id.label, "reason=".toList ++ reason.name.toList]
  | .action id action .. => ["[action]".toList, id.label, action.name.toList]
  | .seek id .. => ["[seek]".toList, id.label]

/-- Events that differ in their numbers at most. -/
inductive Named : Event → Event → Prop
  | bound (id : ComponentId) : Named (.bound id) (.bound id)
  | skipped (id : ComponentId) (reason : SkipReason) : Named (.skipped id reason) (.skipped id reason)
  | action (id : ComponentId) (action : ActionKind) (time rate otherTime otherRate : Binary64) :
      Named (.action id action time rate) (.action id action otherTime otherRate)
  | seek (id : ComponentId) (percent target otherPercent otherTarget : Binary64) :
      Named (.seek id percent target) (.seek id otherPercent otherTarget)

theorem not_digit_mem {c : Char} (other : c.isDigit = false) (n : Nat) : c ∉ Nat.toDigits 10 n := by
  intro member
  exact Bool.false_ne_true (other.symm.trans (WrittenNumbers.allDigits_toDigits n c member))

@[simp] theorem label_inj {id other : ComponentId} : id.label = other.label ↔ id = other := by
  have parts (id : ComponentId) : id.label.splitOn '#' = [id.kind.name.toList, Nat.toDigits 10 id.index] := by
    have outside : '#' ∉ id.kind.name.toList := by cases id.kind <;> decide
    rw [ComponentId.label, List.splitOn_append_cons_self_of_not_mem outside,
      List.splitOn_eq_singleton (not_digit_mem rfl id.index)]
  constructor
  · intro same
    have split := congrArg (List.splitOn '#') same
    obtain ⟨kind, index⟩ := id
    obtain ⟨otherKind, otherIndex⟩ := other
    simpa [parts, String.toList_inj] using split
  · exact congrArg _

theorem label_solid (id : ComponentId) : ' ' ∉ id.label := by
  have solid : ' ' ∉ id.kind.name.toList := by cases id.kind <;> decide
  simp [ComponentId.label, solid, not_digit_mem]

theorem splitOn_word {first : List Char} (solid : ' ' ∉ first) (rest : List Char) :
    (first ++ ' ' :: rest).splitOn ' ' = first :: rest.splitOn ' ' :=
  List.splitOn_append_cons_self_of_not_mem solid rest

/-- A line starts with the names that it tells, each a word of its own. -/
theorem names_line (event : Event) : names event <+: event.line.splitOn ' ' := by
  cases event with
  | bound id =>
    have line : (Event.bound id).line = "[bound]".toList ++ ' ' :: id.label := rfl
    rw [line, splitOn_word (by decide), List.splitOn_eq_singleton (label_solid id), names]
  | skipped id reason =>
    have tag : "[skip] ".toList = "[skip]".toList ++ [' '] := rfl
    have why : " reason=".toList = ' ' :: "reason=".toList := rfl
    have solid : ' ' ∉ "reason=".toList ++ reason.name.toList := by cases reason <;> decide
    change names _ <+: ("[skip] ".toList ++ id.label ++ " reason=".toList ++ reason.name.toList).splitOn ' '
    simp only [tag, why, List.append_assoc, List.cons_append, List.nil_append]
    rw [splitOn_word (by decide), splitOn_word (label_solid id), List.splitOn_eq_singleton solid, names]
  | action id action time rate =>
    have tag : "[action] ".toList = "[action]".toList ++ [' '] := rfl
    have reached : " t=".toList = ' ' :: "t=".toList := rfl
    have solid : ' ' ∉ action.name.toList := by cases action <;> decide
    change names _ <+: ("[action] ".toList ++ id.label ++ ' ' :: action.name.toList ++ " t=".toList ++ time.fixedText 3
      ++ "s rate=".toList ++ rate.fixedText 2 ++ ['x']).splitOn ' '
    simp only [tag, reached, List.append_assoc, List.cons_append, List.nil_append]
    rw [splitOn_word (by decide), splitOn_word (label_solid id), splitOn_word solid, names]
    exact List.prefix_append [_, _, _] _
  | seek id percent target =>
    have tag : "[seek] ".toList = "[seek]".toList ++ [' '] := rfl
    change names _ <+: ("[seek] ".toList ++ id.label ++ ' ' :: percent.fixedText 1 ++ "% -> ".toList
      ++ target.fixedText 3 ++ ['s']).splitOn ' '
    simp only [tag, List.append_assoc, List.cons_append, List.nil_append]
    rw [splitOn_word (by decide), splitOn_word (label_solid id), names]
    exact List.prefix_append [_, _] _

/-- A line tells everything about its event but the exact numbers. -/
theorem line_named {first second : Event} (same : first.line = second.line) : Named first second := by
  obtain ⟨rest, one⟩ := names_line first
  obtain ⟨more, two⟩ := names_line second
  rw [same, ← two] at one
  -- The first word tells events of different kinds apart.
  cases first <;> cases second <;> simp [names, String.toList_inj] at one
  case bound.bound =>
    rw [one.1]
    exact .bound _
  case skipped.skipped =>
    rw [one.1, one.2.1]
    exact .skipped ..
  case action.action =>
    rw [one.1, one.2.1]
    exact .action ..
  case seek.seek =>
    rw [one.1]
    exact .seek ..

/-- Two logs that read the same tell of the same events, but for the exact numbers. -/
theorem printedLog_named {events others : List Event} (same : printedLog events = printedLog others) :
    List.Forall₂ Named events others := by
  have split := congrArg (fun log : String => log.toList.splitOn '\n') same
  simp only [splitOn_printedLog] at split
  have lines : List.Forall₂ (fun first second => Event.line first = Event.line second) events others := by
    have equal := List.append_cancel_right split
    rwa [← List.forall₂_eq_eq_eq, List.forall₂_map_left_iff, List.forall₂_map_right_iff] at equal
  exact lines.imp fun _ _ => line_named

end Names

section Runs

variable [DecidableEq ι]

/-- What some steps leave behind. -/
def runTo (tracer : Tracer σ) (traced : Traced ι σ) (steps : List (SessionStep ι)) : Traced ι σ :=
  steps.foldl (fun traced step => (stepTo tracer traced step).1) traced

/-- The events of the steps behind the last one that clears. -/
def sinceClear (steps : List (SessionStep ι × StepReport)) : List Event :=
  (steps.rtakeWhile fun step => step.1 ≠ .clear).flatMap fun step => step.2.events

variable {session : Session ι}

/-- The session in the hands of the two sinks. -/
def watched (session : Session ι) (printed : String) : Traced ι (String × List Event) :=
  ⟨session.deck, session.components, printed, session.recorded⟩

/-- The sinks print and record what the session reports of the step. -/
theorem stepTo_watched (teeing : session.sink = .tee) (printed : String) (step : SessionStep ι) :
    (stepTo (some teed) (watched session printed) step).1 =
      watched (session.step step).1 (printed ++ printedLog (session.step step).2.events) := by
  have told : (if step = .clear then Tracer.clear (some teed) (printed, session.recorded) else (printed, session.recorded)) =
      (printed, if step = .clear then [] else session.recorded) := by
    split
    · rfl
    · rfl
  rw [stepTo_eq, watched, told, foldl_teed]
  simp only [Session.step, teeing, Sink.kept, watched]

theorem runTo_watched (teeing : session.sink = .tee) (printed : String) (steps : List (SessionStep ι)) :
    runTo (some teed) (watched session printed) steps =
      watched (session.run steps) (printed ++ printedLog ((session.reports steps).flatMap fun report => report.1.events)) := by
  induction steps generalizing session printed with
  | nil => simp [runTo, Session.run, Session.reports, printedLog]
  | cons step rest ih =>
    have still : (session.step step).1.sink = .tee := teeing
    change runTo (some teed) (stepTo (some teed) (watched session printed) step).1 rest = _
    rw [stepTo_watched teeing, ih still, String.append_assoc, ← printedLog_append]
    rfl

theorem length_reports (session : Session ι) (steps : List (SessionStep ι)) : (session.reports steps).length = steps.length := by
  induction steps generalizing session with
  | nil => rfl
  | cons step rest ih => exact congrArg Nat.succ (ih _)

theorem run_concat (session : Session ι) (front : List (SessionStep ι)) (step : SessionStep ι) :
    session.run (front ++ [step]) = ((session.run front).step step).1 := by
  rw [Session.run, List.foldl_append]
  rfl

theorem reports_concat (session : Session ι) (front : List (SessionStep ι)) (step : SessionStep ι) :
    (session.reports (front ++ [step])).map Prod.fst = (session.reports front).map Prod.fst ++ [((session.run front).step step).2] := by
  rw [WillingPlayers.reports_append, List.map_append]
  rfl

/-- A record that starts empty holds what was reported since it was last cleared. -/
theorem recorded_run (fresh : session.recorded = []) (steps : List (SessionStep ι)) :
    (session.run steps).recorded = sinceClear (steps.zip ((session.reports steps).map Prod.fst)) := by
  -- From the last step on: one that clears cuts off everything in front of it.
  induction steps using List.reverseRecOn with
  | nil => exact fresh
  | append_singleton front step ih =>
    have lengths : front.length = ((session.reports front).map Prod.fst).length := by rw [List.length_map, length_reports]
    rw [run_concat, reports_concat, List.zip_append lengths, List.zip_cons_cons, List.zip_nil_right, sinceClear, List.rtakeWhile_concat]
    by_cases clears : step = .clear
    · have nothing : (session.run front).sink.kept [] = [] := by cases (session.run front).sink <;> rfl
      rw [if_neg (by simp [clears]), clears]
      exact nothing
    · rw [if_pos (by simp [clears]), List.flatMap_append, List.flatMap_singleton, ← sinceClear, ← ih]
      simp only [Session.step, clears, if_false]

/-- What the printer and the recorder of a session are told. Each step prints the lines of the events that it
records, in their order. In the end the record holds the events since it was last cleared, and the text
has one line for each event that there ever was. -/
theorem printed_as_recorded (deck : Deck ι) (components : List (Component ι)) (steps : List (SessionStep ι)) :
    let session := Session.opening deck components .tee
    let told (steps : List (SessionStep ι)) := (runTo (some teed) (openTo deck components ("", [])) steps).sink
    let reports := (session.reports steps).map Prod.fst
    (∀ front step,
      let events := ((session.run front).step step).2.events
      (told (front ++ [step])).1 = (told front).1 ++ printedLog events ∧
        (printedLog events).toList.splitOn '\n' = events.map Event.line ++ [[]] ∧
        (told (front ++ [step])).2 = (if step = .clear then [] else (told front).2) ++ events) ∧
      (told steps).2 = (session.run steps).recorded ∧
      (told steps).2 = sinceClear (steps.zip reports) ∧
      (told steps).1.toList.splitOn '\n' = (reports.flatMap StepReport.events).map Event.line ++ [[]] := by
  intro session told reports
  have run (steps : List (SessionStep ι)) : runTo (some teed) (openTo deck components ("", [])) steps =
      watched (session.run steps) ("" ++ printedLog ((session.reports steps).flatMap fun report => report.1.events)) :=
    @runTo_watched _ _ session rfl "" steps
  have told_eq (steps : List (SessionStep ι)) :
      told steps = (printedLog (((session.reports steps).map Prod.fst).flatMap StepReport.events), (session.run steps).recorded) := by
    rw [List.flatMap_map, ← String.empty_append (s := printedLog _)]
    exact congrArg Traced.sink (run steps)
  refine ⟨fun front step => ⟨?_, splitOn_printedLog _, ?_⟩, ?_, ?_, ?_⟩
  · rw [told_eq, told_eq, reports_concat, List.flatMap_append, printedLog_append, List.flatMap_singleton]
  · rw [told_eq, told_eq, run_concat]
    rfl
  · rw [told_eq]
  · rw [told_eq]
    exact recorded_run rfl steps
  · rw [told_eq, splitOn_printedLog]

end Runs

end VideoPage.Proofs.PrintedSessions
