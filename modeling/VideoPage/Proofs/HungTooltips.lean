import VideoPage.Proofs.BindingParts
import VideoPage.Proofs.PageTree
import VideoPage.Proofs.PageUpdates

/-! How tooltips are hung up. No other behaviour adds an element to a page, so the elements that
binding adds are those of the tooltips, in the order of their triggers, and each becomes the last
child of its own trigger. -/

namespace VideoPage.Proofs.HungTooltips
open BindingParts BindingSteps BindingTurns FoundParts WrittenContents PageTree PageUpdates

section Expected

variable {settings : Settings} {turn : Turn} {target node : NodeId} {listener : Listener}

theorem label_on {found : Option NodeId} {event : String} {handler : Handler}
    (member : (target, listener) ∈ on found event handler) : listener.handler = handler := by
  obtain ⟨place, -, same⟩ := List.mem_map.mp member
  cases same
  rfl

theorem label_following {slider shown : Option NodeId} {video : NodeId} {handler : Handler}
    (member : (target, listener) ∈ following slider shown video handler) : listener.handler = handler := by
  rw [following] at member
  split at member
  · cases member
  · cases List.mem_singleton.mp member
    rfl

theorem label_comparison {parts : ComparisonParts} (member : (target, listener) ∈ comparisonListeners parts)
    (own : label listener.handler = some node) : parts.time = some node := by
  simp only [comparisonListeners, List.mem_append, List.mem_singleton, or_assoc] at member
  rcases member with play | progress | seek | ended
  · rw [label_on play] at own
    cases own
  · rwa [label_following progress] at own
  · rw [label_on seek] at own
    cases own
  · cases ended
    exact own

theorem label_controls {page : Page} {selectors : Selectors} {bar : NodeId} {parts : ControlsParts}
    (member : (target, listener) ∈ controlsListeners page selectors bar parts) (own : label listener.handler = some node) :
    parts.speed = some node ∨ parts.elapsed = some node := by
  simp only [controlsListeners, List.mem_append, or_assoc] at member
  rcases member with play | slow | fast | restart | progress | seek
  · rw [label_on play] at own
    cases own
  · rw [label_on slow] at own
    exact .inl own
  · rw [label_on fast] at own
    exact .inl own
  · rw [label_on restart] at own
    exact .inl own
  · rw [label_following progress] at own
    exact .inr own
  · rw [label_on seek] at own
    cases own

theorem label_phase {page : Page} {selectors : Selectors} {timeline : Timeline NodeId} {card bar : NodeId}
    (member : (target, listener) ∈ phaseListeners page selectors timeline card bar) : label listener.handler = none := by
  rcases List.mem_append.mp member with segment | indicator
  · obtain ⟨segment, -, member⟩ := List.mem_flatMap.mp segment
    split at member
    · cases List.mem_singleton.mp member
      rfl
    · cases member
  · obtain ⟨indicator, -, same⟩ := List.mem_map.mp indicator
    cases same
    rfl

theorem label_tooltip (tooltip : turn.id.kind = .tooltip) (member : (target, listener) ∈ expected settings turn) :
    label listener.handler = none := by
  simp only [expected, tooltip, List.mem_cons, List.not_mem_nil, or_false] at member
  rcases member with member | member <;> cases member <;> rfl

/-- A label that a turn's listeners write is on the page when the turn begins. -/
theorem label_lt_count (planted : Planted turn.page) (member : (target, listener) ∈ expected settings turn)
    (own : label listener.handler = some node) : node < turn.page.count := by
  obtain ⟨page, ⟨kind, index⟩, element⟩ := turn
  cases kind with
  | comparison =>
    simp only [expected] at member
    split at member
    · exact planted.lt_count_of_part (label_comparison member own)
    · cases member
  | controls =>
    simp only [expected] at member
    split at member
    · exact (label_controls member own).elim planted.lt_count_of_part planted.lt_count_of_part
    · cases member
  | phase =>
    simp only [expected] at member
    split at member
    · simp [label_phase member] at own
    · cases member
  | tooltip => simp [label_tooltip rfl member] at own

end Expected

theorem attached_tooltips {settings : Settings} {turns : List Turn}
    (told : ∀ turn ∈ turns, Told settings turn (turn.steps settings)) (tooltips : ∀ turn ∈ turns, turn.id.kind = .tooltip) :
    ((turns.flatMap (·.steps settings)).flatMap attached).map Prod.fst = turns.map (·.element) := by
  rw [flatMap_steps fun turn member => (told turn member).hangs, List.map_flatMap, List.map_eq_flatMap]
  exact List.flatMap_congr fun turn member => by rw [triggers_hung, if_pos (tooltips turn member)]

/-- An element that shows a tooltip with some text. -/
structure Shows (page : Page) (tip : NodeId) (text : String) : Prop where
  tipped : Tipped page tip
  content : (page.element tip).content = some (.text text)

/-- The text that a trigger asks for. -/
def textOf (page : Page) (trigger : NodeId) : String :=
  ((page.element trigger).attribute? Settings.tooltipAttribute).getD ""

section Tooltips

variable {page : Page} {settings : Settings} {places : List (NodeId × Nat)} {node : NodeId}

/-- What the page is like after the turns of some triggers. -/
def hungUp (settings : Settings) (page : Page) (places : List (NodeId × Nat)) : Page :=
  carriedOut page ((turnsFrom settings .tooltip page places).flatMap (·.steps settings))

variable (told : ∀ turn ∈ turnsFrom settings .tooltip page places, Told settings turn (turn.steps settings))
include told

theorem count_hungUp : (hungUp settings page places).count = page.count + places.length := by
  have triggers := attached_tooltips told fun turn member => kind_of_turnsFrom member
  rw [elements_turnsFrom] at triggers
  have number := congrArg List.length triggers
  simp only [List.length_map] at number
  rw [hungUp, count_carriedOut, number]

/-- Other triggers' turns leave an element its children. -/
theorem children_hungUp (other : node ∉ places.map Prod.fst) :
    (hungUp settings page places).children node = page.children node := by
  have tooltips (turn : Turn) (member : turn ∈ turnsFrom settings .tooltip page places) := kind_of_turnsFrom member
  rw [hungUp, children_carriedOut, labelled_tooltips told tooltips]
  · rfl
  · rwa [attached_tooltips told tooltips, elements_turnsFrom]

theorem shows_hungUp {text : String} (shows : Shows page node text) (inside : node < page.count) :
    Shows (hungUp settings page places) node text where
  tipped := by
    rw [Tipped, hungUp, tooltip_carriedOut page _ inside, attributes_carriedOut page _ inside]
    exact shows.tipped
  content := by
    rw [hungUp, content_carriedOut page _ inside, labelled_tooltips told fun turn member => kind_of_turnsFrom member,
      contentAfter_nil]
    exact shows.content

end Tooltips

/-- A trigger's own turn. -/
theorem next_shows {settings : Settings} {turn : Turn} {wiring : Wiring} (wired : turn.wiring settings = .ok wiring)
    (tooltip : turn.id.kind = .tooltip) :
    (turn.next settings).children turn.element = turn.page.children turn.element ++ [turn.page.count] ∧
      Shows (turn.next settings) turn.page.count (textOf turn.page turn.element) ∧
      (turn.next settings).count = turn.page.count + 1 := by
  obtain ⟨page, ⟨kind, index⟩, element⟩ := turn
  dsimp only at tooltip
  subst tooltip
  have shape := tooltipWiring_eq wired
  subst shape
  have looks : [("class", Settings.tooltipClass)] ∈ tipAttributes := List.mem_cons_self
  simp only [Turn.next, Turn.steps, wired]
  refine ⟨?_, ⟨⟨?_, ?_⟩, ?_⟩, ?_⟩
  all_goals
    split <;>
      simp [carriedOut, stepped, Page.insert, Page.adopt, Page.setElement, Page.tipElement, looks, textOf]

/-- What a binding that comes to its end has done for one trigger. -/
structure Hung (page : Page) (root : NodeId) (settings : Settings) (trigger tip : NodeId) (bound : Page) : Prop where
  children : bound.children trigger =
    (if trigger ∈ (turns page root settings).flatMap (labels settings) then [] else page.children trigger) ++ [tip]
  shows : Shows bound tip (textOf page trigger)
  /-- Whatever writes texts into labels does not write into the new element. -/
  labels : ∀ target, ∀ listener ∈ bound.listeners target, label listener.handler ≠ some tip

section Binding

variable {markup : Markup} {root : NodeId} {settings : Settings} (finished : (markup.page.bind root settings).error = none)
include finished

/-- The page is a tree throughout the turns before the tooltips'. -/
theorem planted_earlier {first rest : List Turn} (split : earlier markup.page root settings = first ++ rest) :
    Planted (carriedOut markup.page (first.flatMap (·.steps settings))) := by
  have part {turn : Turn} (member : turn ∈ first) : turn ∈ earlier markup.page root settings :=
    split ▸ List.mem_append_left _ member
  have none : (first.flatMap (·.steps settings)).flatMap attached = [] :=
    attached_others (fun turn member => told_earlier finished turn (part member)) fun turn member => earlier_kind (part member)
  exact planted_carriedOut (planted_page markup) (by simp [none])

/-- Such a turn comes on a tree of as many elements as there were from the start. -/
theorem page_earlier {turn : Turn} (early : turn ∈ earlier markup.page root settings) : ∃ first : List Turn,
    turn.page = carriedOut markup.page (first.flatMap (·.steps settings)) ∧ Planted turn.page ∧
      turn.page.count = markup.page.count := by
  obtain ⟨-, -, advances⟩ := bind_advances finished
  obtain ⟨first, rest, split⟩ := List.append_of_mem early
  have page_eq : turn.page = carriedOut markup.page (first.flatMap (·.steps settings)) := by
    have consecutive := advances.consecutive
    rw [turns_eq, split, List.append_assoc, List.cons_append] at consecutive
    exact consecutive.page_eq
  have part {other : Turn} (member : other ∈ first) : other ∈ earlier markup.page root settings :=
    split ▸ List.mem_append_left _ member
  have none : (first.flatMap (·.steps settings)).flatMap attached = [] :=
    attached_others (fun other member => told_earlier finished other (part member)) fun other member => earlier_kind (part member)
  refine ⟨first, page_eq, page_eq ▸ planted_earlier finished split, ?_⟩
  rw [page_eq, count_carriedOut, none, List.length_nil, Nat.add_zero]

/-- The page as the first tooltip is hung up. -/
theorem before_tooltips : Planted (pageBefore markup.page root settings .tooltip) ∧
    (pageBefore markup.page root settings .tooltip).count = markup.page.count := by
  obtain ⟨-, before, -⟩ := bind_advances finished
  have none := attached_others (told_earlier finished) fun turn member => earlier_kind member
  rw [before]
  exact ⟨planted_earlier finished (List.append_nil _).symm, by simp [count_carriedOut, none]⟩

/-- No label is as late as the elements that binding adds. -/
theorem label_before {target node : NodeId} {listener : Listener}
    (listens : listener ∈ (markup.page.bind root settings).page.listeners target) (own : label listener.handler = some node) :
    node < markup.page.count := by
  rw [bind_page finished, listeners_carriedOut, (page_untouched markup).1,
    flatMap_steps fun turn member => (told_turns finished turn member).listens] at listens
  obtain ⟨⟨place, added⟩, filtered, rfl⟩ := List.mem_map.mp (List.nil_append _ ▸ listens)
  obtain ⟨turn, turned, member⟩ := List.mem_flatMap.mp (List.mem_filter.mp filtered).1
  rcases List.mem_append.mp (turns_eq .. ▸ turned) with early | late
  · obtain ⟨-, -, planted, count⟩ := page_earlier finished early
    exact count ▸ label_lt_count planted member own
  · simp [label_tooltip (kind_of_turnsFrom late) member] at own

/-- The turns of the tooltips, split at one of them. -/
theorem tooltips_split {index : Nat} {trigger : NodeId}
    (place : (found markup.page root settings .tooltip)[index]? = some trigger) :
    ∃ before after, before.length = index ∧ trigger ∉ before.map Prod.fst ∧ trigger ∉ after.map Prod.fst ∧
      trigger < (pageBefore markup.page root settings .tooltip).count ∧
      let turn : Turn := ⟨hungUp settings (pageBefore markup.page root settings .tooltip) before, ⟨.tooltip, index⟩, trigger⟩
      turnsOf markup.page root settings .tooltip =
          turnsFrom settings .tooltip (pageBefore markup.page root settings .tooltip) before ++
            turn :: turnsFrom settings .tooltip (turn.next settings) after ∧
        (markup.page.bind root settings).page = hungUp settings (turn.next settings) after := by
  have planted := (before_tooltips finished).1
  obtain ⟨-, before, -⟩ := bind_advances finished
  obtain ⟨first, rest, split, number⟩ :
      ∃ first rest, found markup.page root settings .tooltip = first ++ trigger :: rest ∧ first.length = index := by
    obtain ⟨inside, here⟩ := List.getElem?_eq_some_iff.mp place
    refine ⟨(found markup.page root settings .tooltip).take index,
      (found markup.page root settings .tooltip).drop (index + 1), ?_, List.length_take_of_le (Nat.le_of_lt inside)⟩
    rw [← here, List.getElem_cons_drop, List.take_append_drop]
  have distinct : (first ++ trigger :: rest).Nodup := split ▸ planted.nodup_matching _ _
  have member : trigger ∈ found markup.page root settings .tooltip := split ▸ List.mem_append_right _ List.mem_cons_self
  have places : (first ++ trigger :: rest).zipIdx = first.zipIdx ++ (trigger, index) :: rest.zipIdx (index + 1) := by
    simp [List.zipIdx_append, number]
  have turned : turnsOf markup.page root settings .tooltip =
      turnsFrom settings .tooltip (pageBefore markup.page root settings .tooltip) first.zipIdx ++
        turnsFrom settings .tooltip (hungUp settings (pageBefore markup.page root settings .tooltip) first.zipIdx)
          ((trigger, index) :: rest.zipIdx (index + 1)) := by
    rw [turnsOf, split, places, turnsFrom_append]
    rfl
  refine ⟨first.zipIdx, rest.zipIdx (index + 1), by simpa using number, ?_, ?_, planted.lt_count_of_matching member, turned, ?_⟩
  · have apart := (List.nodup_append.mp distinct).2.2
    simpa using fun here => apart trigger here trigger List.mem_cons_self rfl
  · simpa using (List.nodup_cons.mp (List.nodup_append.mp distinct).2.1).1
  · rw [bind_page finished, turns_eq, List.flatMap_append, carriedOut_append, ← before, turned, List.flatMap_append,
      carriedOut_append]
    simp only [turnsFrom, List.flatMap_cons, carriedOut_append]
    rfl

/-- Nothing but labels has been written before the first tooltip is hung up. -/
theorem before_trigger {trigger : NodeId} (inside : trigger < markup.page.count) :
    (pageBefore markup.page root settings .tooltip).children trigger =
        (if trigger ∈ (turns markup.page root settings).flatMap (labels settings) then [] else markup.page.children trigger) ∧
      ((pageBefore markup.page root settings .tooltip).element trigger).attributes = (markup.page.element trigger).attributes := by
  obtain ⟨-, before, -⟩ := bind_advances finished
  have none := attached_others (told_earlier finished) fun turn member => earlier_kind member
  have unlabelled : (turnsOf markup.page root settings .tooltip).flatMap (labels settings) = [] :=
    labels_tooltips fun _ => kind_of_turnsFrom
  rw [before, attributes_carriedOut _ _ inside, children_carriedOut _ _ (by simp [none]), labelled_turns (told_earlier finished),
    turns_eq, List.flatMap_append, unlabelled, List.append_nil]
  exact ⟨rfl, rfl⟩

/-- A trigger has its children from before its turn, and the new element as the last one. -/
theorem hung_up {index : Nat} {trigger : NodeId}
    (place : (found markup.page root settings .tooltip)[index]? = some trigger) :
    Hung markup.page root settings trigger (markup.page.count + index) (markup.page.bind root settings).page := by
  obtain ⟨before, after, number, apart, unrepeated, inside, turned, bound⟩ := tooltips_split finished place
  obtain ⟨-, count⟩ := before_tooltips finished
  obtain ⟨children, attributes⟩ : _ ∧ _ := before_trigger finished (count ▸ inside)
  have told := told_tooltips finished
  rw [turned, List.forall_mem_append, List.forall_mem_cons] at told
  obtain ⟨early, -, late⟩ := told
  set turn : Turn := ⟨hungUp settings (pageBefore markup.page root settings .tooltip) before, ⟨.tooltip, index⟩, trigger⟩
  -- One element has been added for each trigger before this one.
  have tip : turn.page.count = markup.page.count + index := by
    rw [count_hungUp early, count, number]
  have text : textOf turn.page trigger = textOf markup.page trigger := by
    simp only [textOf, Element.attribute?]
    rw [← attributes, ← attributes_carriedOut _ _ inside]
    rfl
  obtain ⟨-, -, advances⟩ := bind_advances finished
  obtain ⟨wiring, wired⟩ := advances.wired turn
    (turns_eq .. ▸ List.mem_append_right _ (turned ▸ List.mem_append_right _ List.mem_cons_self))
  obtain ⟨added, shows, grown⟩ := next_shows wired rfl
  rw [tip] at added shows grown
  rw [text] at shows
  exact {
    children := by
      rw [bound, children_hungUp late unrepeated, ← children, ← children_hungUp early apart]
      exact added
    shows := by
      rw [bound]
      exact shows_hungUp late shows (grown ▸ Nat.lt_succ_self _)
    labels := by
      intro target listener listens own
      exact Nat.not_lt_of_le (Nat.le_add_right _ index) (label_before finished listens own) }

end Binding

end VideoPage.Proofs.HungTooltips
