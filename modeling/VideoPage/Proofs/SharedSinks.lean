import VideoPage.Page.Visit

/-! A page with the sink that its handlers share. Handlers and binding send their events one at a
time to a sink that they are lent, and send them nowhere while somebody else holds the sink. Nothing
that they do to the page depends on the sink, and a sink that is free gets all that there is. -/

namespace VideoPage.Proofs.SharedSinks

section Sinks

/-- Who watches, what has been seen so far, and whether somebody holds the sink. -/
structure SharedSink where
  watcher : Watcher
  seen : Sighting := {}
  held : Bool := false

/-- One event comes in. -/
def SharedSink.send (sink : SharedSink) (event : Event) : SharedSink :=
  match sink.watcher with
  | .nobody => sink
  | .recorder => { sink with seen.events := sink.seen.events ++ [event] }
  | .console name => { sink with seen.console := sink.seen.console ++ [event.consoleLine name] }

/-- The way that events go while something runs: to the sink, or nowhere. -/
inductive Tracer where
  | lent
  | none

def Tracer.trace (tracer : Tracer) (sink : SharedSink) (event : Event) : SharedSink :=
  match tracer with
  | lent => sink.send event
  | none => sink

/-- Runs something with the sink, or without it when somebody holds it. -/
def withTracer {α : Type} (sink : SharedSink) (use : Tracer → SharedSink → α × SharedSink) : α × SharedSink :=
  use (if sink.held then .none else .lent) sink

/-- What some events leave of a sink. -/
def SharedSink.told (sink : SharedSink) (events : List Event) : SharedSink :=
  if sink.held then sink else events.foldl SharedSink.send sink

end Sinks

section Handlers

/-- Performs commands and reports as it goes. -/
def performTo (tracer : Tracer) (deck : Deck NodeId) (sink : SharedSink) : List (Command NodeId) → Deck NodeId × SharedSink
  | [] => (deck, sink)
  | command :: rest =>
    match deck.after? command with
    | none => (deck, sink)
    | some next => performTo tracer next ((deck.reported command).foldl tracer.trace sink) rest

def actTo {α : Type} (page : Page) (sink : SharedSink) (plan : Plan NodeId α) (display : Page → α → Page) : Page × SharedSink :=
  let (deck, sink) := withTracer sink fun tracer sink => performTo tracer page.deck sink plan.commands
  (display { page with deck } plan.answer, sink)

def slideTo (page : Page) (sink : SharedSink) (bar : Option NodeId) (plan : Binary64 → Plan NodeId Binary64) : Page × SharedSink :=
  match bar with
  | some node => actTo page sink (plan (page.element node).value) (·.showFill node ·)
  | none => (page, sink)

def hoverTo (page : Page) (sink : SharedSink) (tip : NodeId) (inside : Bool) : Page × SharedSink :=
  match page.tooltip tip with
  | none => (page, sink)
  | some tooltip =>
    let (next, sink) := withTracer sink fun tracer sink =>
      (tooltip.hover inside, (tooltip.hoverEvents inside).foldl tracer.trace sink)
    let element := (page.element tip).toggleClass Settings.tooltipVisibleClass next.visible
    ({ page.setElement tip element with tooltip := page.tooltip.set tip (some next) }, sink)

/-- A handler with the sink in reach. Handlers that only show something do not ask for it. -/
def handleTo (page : Page) (sink : SharedSink) : Handler → Page × SharedSink
  | .comparisonToggle parts =>
    actTo page sink (parts.comparison.toggle page.deck) fun page icon => page.showIcon parts.play icon
  | .comparisonSeek parts => slideTo page sink parts.seek (parts.comparison.seek · page.deck)
  | .comparisonEnd parts =>
    actTo page sink (parts.comparison.ended page.deck) fun page rewound =>
      ((page.showIcon parts.play rewound.icon).showPosition parts.seek rewound.frame.percent).showText parts.time
        rewound.frame.label
  | .controlsToggle parts =>
    actTo page sink (parts.transport.toggle page.deck) fun page icon => page.showIcon parts.play icon
  | .controlsRate parts button =>
    actTo page sink (button.plan parts.transport page.deck) fun page change =>
      (page.showIcon parts.play change.icon).showText parts.speed change.label
  | .controlsSeek parts => slideTo page sink parts.scrub (parts.transport.seek · page.deck)
  | .segmentJump timeline start card playSelector =>
    actTo page sink (timeline.jump start page.deck) fun page icon => page.showIconIn card playSelector icon
  | .hover tip inside => hoverTo page sink tip inside
  | handler => ((page.handle handler).page, sink)

/-- The handlers of an event ask for the sink one after the other. -/
def handleAllTo (page : Page) (sink : SharedSink) : List Handler → Page × SharedSink
  | [] => (page, sink)
  | handler :: rest =>
    let (page, sink) := handleTo page sink handler
    handleAllTo page sink rest

end Handlers

section Binding

/-- How far a binding has come that sends its events as they arise. -/
structure Tracing where
  page : Page
  sink : SharedSink
  report : BindReport := {}
  error : Option PageError := none

namespace Tracing

def take (tracing : Tracing) (step : BindingStep) : Tracing :=
  if tracing.error.isSome then tracing
  else match tracing.page.after? step with
    | .ok page => { tracing with
        page, sink := (withTracer tracing.sink fun tracer sink => ((), step.events.foldl tracer.trace sink)).2 }
    | .error error => { tracing with error }

/-- Puts a finished element on record: in the report, and with the sink if there is a way. -/
def record (tracing : Tracing) (id : ComponentId) (reason : Option SkipReason) : Tracing :=
  if tracing.error.isSome then tracing
  else
    let (report, sink) := withTracer tracing.sink fun tracer sink =>
      match reason with
      | none => (tracing.report.update id.kind fun t => { t with bound := t.bound + 1 }, tracer.trace sink (.bound id))
      | some reason =>
        (tracing.report.update id.kind fun t => { t with skipped := t.skipped + 1 }, tracer.trace sink (.skipped id reason))
    { tracing with report, sink }

def bindElement (settings : Settings) (kind : ComponentKind) (tracing : Tracing) (place : NodeId × Nat) : Tracing :=
  if tracing.error.isSome then tracing
  else
    let id : ComponentId := ⟨kind, place.2⟩
    match tracing.page.wiring settings id place.1 with
    | .error error => { tracing with error }
    | .ok (.skipped reason) => tracing.record id (some reason)
    | .ok (.bound steps) => (steps.foldl take tracing).record id none

def bindKind (settings : Settings) (root : NodeId) (tracing : Tracing) (kind : ComponentKind) : Tracing :=
  if tracing.error.isSome then tracing
  else match tracing.page.queryAll root (settings.selectors.ofKind kind) with
    | .error error => { tracing with error }
    | .ok elements => elements.zipIdx.foldl (bindElement settings kind) tracing

end Tracing

def bindTo (page : Page) (sink : SharedSink) (root : NodeId) (settings : Settings) : Tracing :=
  Page.bindingOrder.foldl (Tracing.bindKind settings root) { page, sink }

end Binding

section Runs

/-- Fires an event while somebody holds the sink, or while nobody does. -/
def fireTo (page : Page) (sink : SharedSink) (path : List Nat) (event : String) (busy : Bool) : Page × SharedSink :=
  match page.at? path with
  | none => (page, sink)
  | some target =>
    let (next, after) := handleAllTo page { sink with held := busy } (page.handlers target event)
    (next, { after with held := false })

/-- What each of some events leaves behind, when the sink is busy during some of them. -/
def visitTo (page : Page) (sink : SharedSink) (busy : Nat → Bool) : List (List Nat × String) → List (Page × SharedSink)
  | [] => []
  | (path, event) :: rest =>
    let (page, sink) := fireTo page sink path event (busy 0)
    (page, sink) :: visitTo page sink (fun index => busy (index + 1)) rest

/-- A page that is bound and visited. -/
structure Run where
  binding : Tracing
  steps : List (Page × SharedSink)

def run (page : Page) (root : NodeId) (settings : Settings) (watcher : Watcher) (busy : Nat → Bool)
    (fires : List (List Nat × String)) : Run :=
  let binding := bindTo page { watcher } root settings
  ⟨binding, visitTo binding.page binding.sink busy fires⟩

/-- The page after the binding and after each event. -/
def Run.pages (run : Run) : List Page := run.binding.page :: run.steps.map Prod.fst

/-- What comes in at each step. -/
def arrivals (before : SharedSink) : List (Page × SharedSink) → List Sighting
  | [] => []
  | (_, sink) :: rest =>
    { events := sink.seen.events.drop before.seen.events.length
      console := sink.seen.console.drop before.seen.console.length } :: arrivals sink rest

def Run.arrivals (run : Run) : List Sighting := SharedSinks.arrivals run.binding.sink run.steps

/-- The same events as the steps of a visit. -/
def visitSteps (busy : Nat → Bool) : List (List Nat × String) → List VisitStep
  | [] => []
  | (path, event) :: rest => .fire path event (busy 0) :: visitSteps (fun index => busy (index + 1)) rest

end Runs

section Equal

variable {page : Page} {sink : SharedSink}

theorem send_kept (sink : SharedSink) (event : Event) : (sink.send event).held = sink.held ∧ (sink.send event).watcher = sink.watcher := by
  obtain ⟨watcher, seen, held⟩ := sink
  cases watcher <;> exact ⟨rfl, rfl⟩

theorem foldl_send_kept (sink : SharedSink) (events : List Event) :
    (events.foldl SharedSink.send sink).held = sink.held ∧ (events.foldl SharedSink.send sink).watcher = sink.watcher := by
  induction events generalizing sink with
  | nil => exact ⟨rfl, rfl⟩
  | cons event rest ih =>
    obtain ⟨held, watcher⟩ := ih (sink.send event)
    obtain ⟨held', watcher'⟩ := send_kept sink event
    exact ⟨held.trans held', watcher.trans watcher'⟩

theorem told_nil (sink : SharedSink) : sink.told [] = sink := ite_self sink

theorem told_told (sink : SharedSink) (first second : List Event) : (sink.told first).told second = sink.told (first ++ second) := by
  cases held : sink.held with
  | true => simp [SharedSink.told, held]
  | false =>
    have still := (foldl_send_kept sink first).1
    simp [SharedSink.told, held, still, List.foldl_append]

/-- Whatever runs with a tracer leaves what is told of its events. -/
theorem withTracer_eq {α : Type} (result : α) (events : List Event) (sink : SharedSink) :
    withTracer sink (fun tracer sink => (result, events.foldl tracer.trace sink)) = (result, sink.told events) := by
  have silent (sink : SharedSink) : events.foldl Tracer.none.trace sink = sink := by
    induction events with
    | nil => rfl
    | cons event rest ih => exact ih
  rw [withTracer, SharedSink.told]
  cases sink.held with
  | true => exact congrArg (result, ·) (silent sink)
  | false => rfl

theorem performTo_eq (tracer : Tracer) (deck : Deck NodeId) (sink : SharedSink) (commands : List (Command NodeId)) :
    performTo tracer deck sink commands = ((deck.perform commands).deck, (deck.perform commands).events.foldl tracer.trace sink) := by
  induction commands generalizing deck sink with
  | nil => rfl
  | cons command rest ih =>
    simp only [performTo, Deck.perform]
    cases deck.after? command with
    | none => rfl
    | some next => simp [ih, List.foldl_append]

theorem actTo_eq {α : Type} (plan : Plan NodeId α) (display : Page → α → Page) :
    actTo page sink plan display = ((page.act plan display).page, sink.told (page.act plan display).events) := by
  simp only [actTo, performTo_eq, withTracer_eq, Page.act]

theorem slideTo_eq (bar : Option NodeId) (plan : Binary64 → Plan NodeId Binary64) :
    slideTo page sink bar plan = ((page.actOnSlider bar plan).page, sink.told (page.actOnSlider bar plan).events) := by
  cases bar with
  | none => simp [slideTo, Page.actOnSlider, told_nil]
  | some node => simp only [slideTo, actTo_eq, Page.actOnSlider]

theorem hoverTo_eq (tip : NodeId) (inside : Bool) :
    hoverTo page sink tip inside = ((page.hover tip inside).page, sink.told (page.hover tip inside).events) := by
  rw [hoverTo, Page.hover]
  cases page.tooltip tip with
  | none => simp [told_nil]
  | some tooltip => simp only [withTracer_eq]

/-- A handler does to the page what it does without a sink, and tells the sink its events. -/
theorem handleTo_eq (handler : Handler) :
    handleTo page sink handler = ((page.handle handler).page, sink.told (page.handle handler).events) := by
  cases handler with
  | comparisonProgress | controlsProgress | indicatorProgress => simp [handleTo, Page.handle, told_nil]
  | _ => simp only [handleTo, Page.handle, actTo_eq, slideTo_eq, hoverTo_eq]

theorem handleAllTo_eq (handlers : List Handler) :
    handleAllTo page sink handlers = ((page.handleAll handlers).page, sink.told (page.handleAll handlers).events) := by
  induction handlers generalizing page sink with
  | nil => simp [handleAllTo, Page.handleAll, told_nil]
  | cons handler rest ih => simp only [handleAllTo, handleTo_eq, ih, told_told, Page.handleAll]

/-- A binding as it is when its events have been sent to a sink. -/
def tracing (sink : SharedSink) (binding : Binding) : Tracing where
  page := binding.page
  sink := sink.told binding.events
  report := binding.report
  error := binding.error

variable {binding : Binding} {settings : Settings} {root : NodeId}

theorem take_eq (step : BindingStep) : (tracing sink binding).take step = tracing sink (binding.take step) := by
  cases failed : binding.error with
  | some error => simp [Tracing.take, Binding.take, tracing, failed]
  | none =>
    cases taken : binding.page.after? step with
    | error error => simp [Tracing.take, Binding.take, tracing, failed, taken]
    | ok next => simp [Tracing.take, Binding.take, tracing, failed, taken, withTracer_eq, told_told]

theorem foldl_take_eq (steps : List BindingStep) :
    steps.foldl Tracing.take (tracing sink binding) = tracing sink (steps.foldl Binding.take binding) := by
  induction steps generalizing binding with
  | nil => rfl
  | cons step rest ih => rw [List.foldl_cons, take_eq, ih, List.foldl_cons]

theorem record_eq (id : ComponentId) (reason : Option SkipReason) :
    (tracing sink binding).record id reason = tracing sink (binding.record id reason) := by
  have sent (report : BindReport) (event : Event) := withTracer_eq report [event] (sink.told binding.events)
  simp only [List.foldl_cons, List.foldl_nil, told_told] at sent
  cases failed : binding.error with
  | some error => simp [Tracing.record, Binding.record, tracing, failed]
  | none => cases reason <;> simp [Tracing.record, Binding.record, tracing, failed, sent]

theorem bindElement_eq (kind : ComponentKind) (place : NodeId × Nat) :
    (tracing sink binding).bindElement settings kind place = tracing sink (binding.bindElement settings kind place) := by
  cases failed : binding.error with
  | some error => simp [Tracing.bindElement, Binding.bindElement, tracing, failed]
  | none =>
    rw [Tracing.bindElement, Binding.bindElement, if_neg (by simp [tracing, failed]), if_neg (by simp [failed])]
    dsimp only [tracing]
    cases binding.page.wiring settings ⟨kind, place.2⟩ place.1 with
    | error error => rfl
    | ok wiring =>
      cases wiring with
      | skipped reason => exact record_eq _ _
      | bound steps => exact (congrArg (Tracing.record · _ _) (foldl_take_eq steps)).trans (record_eq _ _)

theorem foldl_bindElement_eq (kind : ComponentKind) (places : List (NodeId × Nat)) :
    places.foldl (Tracing.bindElement settings kind) (tracing sink binding) =
      tracing sink (places.foldl (Binding.bindElement settings kind) binding) := by
  induction places generalizing binding with
  | nil => rfl
  | cons place rest ih => rw [List.foldl_cons, bindElement_eq, ih, List.foldl_cons]

theorem bindKind_eq (kind : ComponentKind) :
    (tracing sink binding).bindKind settings root kind = tracing sink (binding.bindKind settings root kind) := by
  cases failed : binding.error with
  | some error => simp [Tracing.bindKind, Binding.bindKind, tracing, failed]
  | none =>
    rw [Tracing.bindKind, Binding.bindKind, if_neg (by simp [tracing, failed]), if_neg (by simp [failed])]
    dsimp only [tracing]
    cases binding.page.queryAll root (settings.selectors.ofKind kind) with
    | error error => rfl
    | ok elements => exact foldl_bindElement_eq kind _

/-- A binding does what it does without a sink, and tells the sink its events. -/
theorem bindTo_eq : bindTo page sink root settings = tracing sink (page.bind root settings) := by
  have start : ({ page, sink } : Tracing) = tracing sink { page } := by simp [tracing, told_nil]
  rw [bindTo, Page.bind, start]
  generalize ({ page } : Binding) = binding
  induction Page.bindingOrder generalizing binding with
  | nil => rfl
  | cons kind rest ih => rw [List.foldl_cons, bindKind_eq, ih, List.foldl_cons]

/-- A sink that is free shows its watcher all that it is told. -/
theorem seen_told (free : sink.held = false) (events : List Event) :
    (sink.told events).seen.events = sink.seen.events ++ (sink.watcher.see events).events ∧
      (sink.told events).seen.console = sink.seen.console ++ (sink.watcher.see events).console := by
  rw [SharedSink.told, if_neg (by simp [free])]
  clear free
  induction events generalizing sink with
  | nil => cases watcher : sink.watcher <;> simp [Watcher.see]
  | cons event rest ih =>
    have one := (send_kept sink event).2
    obtain ⟨events, console⟩ := @ih (sink.send event)
    rw [List.foldl_cons, events, console, one]
    cases watcher : sink.watcher <;> simp [SharedSink.send, Watcher.see, watcher]

theorem told_free (free : sink.held = false) (events : List Event) : (sink.told events).held = false ∧
    (sink.told events).watcher = sink.watcher := by
  rw [SharedSink.told, if_neg (by simp [free])]
  obtain ⟨held, watcher⟩ := foldl_send_kept sink events
  exact ⟨held.trans free, watcher⟩

/-- What a sink is told while somebody holds it is lost. -/
theorem told_held (free : sink.held = false) (busy : Bool) (events : List Event) :
    { ({ sink with held := busy } : SharedSink).told events with held := false } = sink.told (if busy then [] else events) := by
  cases busy with
  | true =>
    rw [if_pos rfl, told_nil, SharedSink.told, if_pos rfl, ← free]
  | false =>
    have same : ({ sink with held := false } : SharedSink) = sink := by rw [← free]
    rw [same, if_neg Bool.false_ne_true, ← (told_free free events).1]

theorem fireTo_eq (free : sink.held = false) (path : List Nat) (event : String) (busy : Bool) :
    let visited := page.visit sink.watcher (.fire path event busy)
    ∃ events, fireTo page sink path event busy = (visited.page, sink.told events) ∧ visited.seen = sink.watcher.see events := by
  rw [Page.visit, fireTo]
  cases page.at? path with
  | none =>
    refine ⟨[], by rw [told_nil], ?_⟩
    cases sink.watcher <;> rfl
  | some target =>
    refine ⟨if busy then [] else (page.fire target event).events, ?_, rfl⟩
    simp only [handleAllTo_eq, told_held free]
    rfl

theorem visitTo_eq (free : sink.held = false) (busy : Nat → Bool) (fires : List (List Nat × String)) :
    (visitTo page sink busy fires).map Prod.fst = (page.visitAll sink.watcher (visitSteps busy fires)).map (·.page) ∧
      arrivals sink (visitTo page sink busy fires) = (page.visitAll sink.watcher (visitSteps busy fires)).map (·.seen) := by
  induction fires generalizing page sink busy with
  | nil => exact ⟨rfl, rfl⟩
  | cons fire rest ih =>
    obtain ⟨path, event⟩ := fire
    obtain ⟨events, fired, seen⟩ := @fireTo_eq page sink free path event (busy 0)
    obtain ⟨still, watcher⟩ := told_free free events
    obtain ⟨shown, console⟩ := seen_told free events
    obtain ⟨pages, later⟩ := @ih (page.visit sink.watcher (.fire path event (busy 0))).page (sink.told events) still
      fun index => busy (index + 1)
    rw [watcher] at pages later
    simp only [visitTo, fired, visitSteps, Page.visitAll, List.map_cons, arrivals, pages, later, shown, console,
      List.drop_left, seen, and_self]

/-- A run with a sink is the program's own binding and visit. -/
theorem run_eq (page : Page) (root : NodeId) (settings : Settings) (watcher : Watcher) (busy : Nat → Bool)
    (fires : List (List Nat × String)) :
    let run := run page root settings watcher busy fires
    let binding := page.bind root settings
    let visits := binding.page.visitAll watcher (visitSteps busy fires)
    run.binding.report = binding.report ∧ run.binding.error = binding.error ∧
      run.binding.sink.seen = watcher.see binding.events ∧ run.pages = binding.page :: visits.map (·.page) ∧
      run.arrivals = visits.map (·.seen) := by
  intro run binding visits
  have bound : run.binding = tracing { watcher } binding := bindTo_eq
  have steps : run.steps = visitTo run.binding.page run.binding.sink busy fires := rfl
  have free : ({ watcher } : SharedSink).held = false := rfl
  obtain ⟨still, same⟩ := told_free free binding.events
  obtain ⟨events, console⟩ := seen_told free binding.events
  obtain ⟨pages, arrived⟩ := @visitTo_eq binding.page (({ watcher } : SharedSink).told binding.events) still busy fires
  rw [same] at pages arrived
  rw [Run.pages, Run.arrivals, steps, bound]
  exact ⟨rfl, rfl, congr (congrArg Sighting.mk events) console, congrArg (binding.page :: ·) pages, arrived⟩

theorem visitAll_alike (watcher other : Watcher) (busy held : Nat → Bool) (fires : List (List Nat × String)) :
    (page.visitAll watcher (visitSteps busy fires)).map (·.page) = (page.visitAll other (visitSteps held fires)).map (·.page) := by
  induction fires generalizing page busy held with
  | nil => rfl
  | cons fire rest ih =>
    have same : (page.visit watcher (.fire fire.1 fire.2 (busy 0))).page = (page.visit other (.fire fire.1 fire.2 (held 0))).page := by
      rw [Page.visit, Page.visit]
      cases page.at? fire.1 <;> rfl
    simp only [visitSteps, Page.visitAll, List.map_cons, same]
    exact congrArg _ (ih _ _)

/-- Of a step during which the recorder is busy nothing is recorded. -/
theorem visitAll_recorded (busy : Nat → Bool) (fires : List (List Nat × String)) :
    (page.visitAll .recorder (visitSteps busy fires)).map (·.seen.events) =
      ((page.visitAll .recorder (visitSteps (fun _ => false) fires)).map (·.seen.events)).mapIdx fun index events =>
        if busy index then [] else events := by
  induction fires generalizing page busy with
  | nil => rfl
  | cons fire rest ih =>
    have here : (page.visit .recorder (.fire fire.1 fire.2 (busy 0))).seen.events =
          (if busy 0 then [] else (page.visit .recorder (.fire fire.1 fire.2 false)).seen.events) ∧
        (page.visit .recorder (.fire fire.1 fire.2 (busy 0))).page = (page.visit .recorder (.fire fire.1 fire.2 false)).page := by
      rw [Page.visit, Page.visit]
      cases page.at? fire.1 <;> simp [Watcher.see]
    simp only [visitSteps, Page.visitAll, List.map_cons, List.mapIdx_cons, here]
    rw [ih]

end Equal

/-- Whoever watches and whenever the sink is busy, a page is bound and visited alike, as it is
without a sink; and a recorder that is busy during some of the events loses what these send, and
nothing else. -/
theorem runs_alike (page : Page) (root : NodeId) (settings : Settings) (fires : List (List Nat × String))
    (watcher other : Watcher) (busy held : Nat → Bool) :
    let first := run page root settings watcher busy fires
    let second := run page root settings other held fires
    let recorded (busy : Nat → Bool) := (run page root settings .recorder busy fires).arrivals.map (·.events)
    (first.binding.report = second.binding.report ∧ first.binding.error = second.binding.error ∧ first.pages = second.pages) ∧
      recorded busy = (recorded fun _ => false).mapIdx (fun index events => if busy index then [] else events) ∧
      let binding := page.bind root settings
      let visits := binding.page.visitAll watcher (visitSteps busy fires)
      first.binding.report = binding.report ∧ first.binding.error = binding.error ∧
        first.binding.sink.seen = watcher.see binding.events ∧ first.pages = binding.page :: visits.map (·.page) ∧
        first.arrivals = visits.map (·.seen) := by
  intro first second recorded
  have one := run_eq page root settings watcher busy fires
  have two := run_eq page root settings other held fires
  have recorded_eq (busy : Nat → Bool) : recorded busy =
      ((page.bind root settings).page.visitAll .recorder (visitSteps busy fires)).map (·.seen.events) := by
    obtain ⟨-, -, -, -, arrived⟩ := run_eq page root settings .recorder busy fires
    simp only [recorded, arrived, List.map_map]
    rfl
  refine ⟨⟨one.1.trans two.1.symm, one.2.1.trans two.2.1.symm, ?_⟩, ?_, one⟩
  · rw [one.2.2.2.1, two.2.2.2.1, visitAll_alike watcher other busy held]
  · rw [recorded_eq, recorded_eq, visitAll_recorded]

end VideoPage.Proofs.SharedSinks
