import VideoPage.Trace.Export
import VideoPage.Proofs.UnbrokenLines

/-! What an exported document tells about its events. Everything but the kind of a number that is not
finite can be told from the text, whatever the events are. -/

namespace VideoPage.Proofs.ExportedDocuments
open Export NumberTexts UnbrokenLines CorrectRounding

section Alike

/-- The same double, or two doubles of which neither is finite. -/
def AlikeNumber (x y : Binary64) : Prop := x = y ∨ x.isFinite = false ∧ y.isFinite = false

/-- Events that differ in nothing but the kinds of numbers that are not finite. -/
inductive Alike : Event → Event → Prop
  | bound (id : ComponentId) : Alike (.bound id) (.bound id)
  | skipped (id : ComponentId) (reason : SkipReason) : Alike (.skipped id reason) (.skipped id reason)
  | action (id : ComponentId) (kind : ActionKind) {time otherTime rate otherRate : Binary64} (times : AlikeNumber time otherTime)
      (rates : AlikeNumber rate otherRate) : Alike (.action id kind time rate) (.action id kind otherTime otherRate)
  | seek (id : ComponentId) {percent otherPercent target otherTarget : Binary64} (percents : AlikeNumber percent otherPercent)
      (targets : AlikeNumber target otherTarget) : Alike (.seek id percent target) (.seek id otherPercent otherTarget)

end Alike

section Values

variable {x y : Binary64}

theorem number_writes (negative : Bool) {a : Magnitude} (finite : a.isFinite = true) :
    Writes (Export.number (.signed negative a)) negative (ExactDecimals.number (a.shortest .toEven)) := by
  obtain ⟨text, export?, writes⟩ := WrittenNumbers.exportText?_writes negative finite
  rwa [Export.number, export?]

theorem number_null (infinite : x.isFinite = false) : Export.number x = "null".toList := by
  cases x with
  | nan => rfl
  | signed negative a =>
    have none : a.isFinite = false := infinite
    simp [Export.number, Binary64.exportText?, none]

theorem finite_shape (finite : ¬ x.isFinite = false) : ∃ negative a, x = .signed negative a ∧ a.isFinite = true := by
  cases x with
  | nan => exact absurd rfl finite
  | signed negative a => exact ⟨negative, a, rfl, (Bool.not_eq_false _).mp finite⟩

theorem number_ne_null (finite : ¬ x.isFinite = false) : Export.number x ≠ "null".toList := by
  obtain ⟨negative, a, rfl, whole⟩ := finite_shape finite
  intro same
  have digits : ∀ c : Char, c.isDigit = true → (c = 'n' : Bool) = false := by
    intro c digit
    simp only [decide_eq_false_iff_not]
    rintro rfl
    cases digit
  have stops := stops_writes digits (by decide) (by decide) (by decide) (number_writes negative whole) []
  rw [same] at stops
  exact absurd (stops 'n' rfl) (by decide)

/-- Exported numbers are told apart, but for those that have no digits. -/
@[simp] theorem number_eq_iff : Export.number x = Export.number y ↔ AlikeNumber x y := by
  constructor
  · intro same
    by_cases none : x.isFinite = false
    · by_cases also : y.isFinite = false
      · exact Or.inr ⟨none, also⟩
      · exact absurd (same.symm.trans (number_null none)) (number_ne_null also)
    · by_cases also : y.isFinite = false
      · exact absurd (same.trans (number_null also)) (number_ne_null none)
      · left
        obtain ⟨negative, a, rfl, finite⟩ := finite_shape none
        obtain ⟨other, b, rfl, whole⟩ := finite_shape also
        have writes := number_writes other whole
        rw [← same] at writes
        obtain ⟨rfl, value⟩ := (number_writes negative finite).unique writes
        have rounds := ExactDecimals.rounds_shortest .toEven a
        rw [value] at rounds
        rw [rounds.unique (ExactDecimals.rounds_shortest .toEven b)]
  · rintro (rfl | ⟨none, also⟩)
    · rfl
    · rw [number_null none, number_null also]

@[simp] theorem quoted_inj {first second : String} : quoted first = quoted second ↔ first = second := by
  rw [quoted, quoted, List.append_left_inj, List.cons_inj_right, String.toList_inj]

end Values

section Lines

theorem addComma_concat (lines : List Line) (last : Line) : addComma (lines ++ [last]) = lines ++ [last ++ [',']] := by
  induction lines with
  | nil => rfl
  | cons line lines ih =>
    rw [List.cons_append, List.cons_append, ← ih, addComma]
    simp

/-- The last line of an item, with a comma when more items follow. -/
def ending (items : List (List Line)) : Line := if items.isEmpty then ['}'] else ['}', ',']

theorem separated_event (event : Event) (items : List (List Line)) :
    separated (event.exportLines :: items) =
      ['{'] :: (indented (separated event.exportMembers) ++ ending items :: separated items) := by
  cases items with
  | nil => rfl
  | cons item items =>
    rw [separated, Event.exportLines, bracketed, addComma_concat, ending, List.cons_append, List.cons_append, List.append_assoc]
    · rfl
    · exact List.cons_ne_nil item items

theorem ending_not_indented (items : List (List Line)) (lines : List Line) : ending items ∉ indented lines := by
  intro member
  obtain ⟨line, -, same⟩ := List.mem_map.mp member
  rw [ending] at same
  split at same
  · cases same
  · cases same

theorem front_inj {front other rest more : List Line} {first second : Line} (outside : second ∉ front) (also : first ∉ other) :
    front ++ first :: rest = other ++ second :: more ↔ front = other ∧ first = second ∧ rest = more := by
  constructor
  · intro same
    -- If one front were longer, it would hold the line behind the other one.
    rcases List.append_eq_append_iff.mp same with ⟨between, rfl, cut⟩ | ⟨between, rfl, cut⟩
    · cases between with
      | nil => simpa using cut
      | cons line between =>
        obtain ⟨rfl, -⟩ := List.cons.inj cut
        exact absurd (List.mem_append_right front List.mem_cons_self) also
    · cases between with
      | nil => simpa using cut.symm
      | cons line between =>
        obtain ⟨rfl, -⟩ := List.cons.inj cut
        exact absurd (List.mem_append_right other List.mem_cons_self) outside
  · rintro ⟨rfl, rfl, rfl⟩
    rfl

theorem indented_inj {lines others : List Line} : indented lines = indented others ↔ lines = others :=
  List.map_inj_right fun _ _ same => List.append_cancel_left same

theorem id_eq {id other : ComponentId} (index : id.index = other.index) (kind : id.kind = other.kind) : id = other := by
  cases id
  cases other
  cases index
  cases kind
  rfl

/-- How many lines stand between an event's braces. -/
def lineCount : Event → Nat
  | .bound _ => 5
  | .skipped .. => 6
  | .seek .. => 7
  | .action .. => 8

theorem length_members (event : Event) : (separated event.exportMembers).length = lineCount event := by
  cases event <;> rfl

/-- The lines between an event's braces tell all that the event's document tells. -/
theorem separated_exportMembers {x y : Event} : separated x.exportMembers = separated y.exportMembers ↔ Alike x y := by
  constructor
  · intro same
    have count : lineCount x = lineCount y := by rw [← length_members, same, length_members]
    -- Events of different kinds differ in the number of their lines, so only pairs of one kind remain.
    cases x <;> cases y <;> simp only [lineCount, Nat.reduceEqDiff] at count
    all_goals
      simp only [Event.exportMembers, ComponentId.exportMember, objectMember, bracketed, indented, separated, member, addComma,
        List.cons_append, List.nil_append, List.append_assoc, List.map_cons, List.map_nil, List.cons.injEq, true_and, and_true,
        List.append_cancel_left_eq, List.append_cancel_right_eq, toDigits_inj, quoted_inj, kind_inj, reason_inj, action_inj,
        number_eq_iff] at same
    case bound.bound id other =>
      obtain ⟨index, kind⟩ := same
      obtain rfl := id_eq index kind
      exact .bound id
    case skipped.skipped id reason other _ =>
      obtain ⟨index, kind, rfl⟩ := same
      obtain rfl := id_eq index kind
      exact .skipped id reason
    case action.action id verb _ _ other _ _ _ =>
      obtain ⟨rfl, index, kind, times, rates⟩ := same
      obtain rfl := id_eq index kind
      exact .action id verb times rates
    case seek.seek id _ _ other _ _ =>
      obtain ⟨index, kind, percents, targets⟩ := same
      obtain rfl := id_eq index kind
      exact .seek id percents targets
  · rintro (_ | _ | ⟨id, kind, times, rates⟩ | ⟨id, percents, targets⟩)
    · rfl
    · rfl
    · simp only [Event.exportMembers, number_eq_iff.mpr times, number_eq_iff.mpr rates]
    · simp only [Event.exportMembers, number_eq_iff.mpr percents, number_eq_iff.mpr targets]

theorem isEmpty_alike {xs ys : List Event} (alike : List.Forall₂ Alike xs ys) : xs.isEmpty = ys.isEmpty := by
  cases alike <;> rfl

/-- Where one item ends and the next one starts can be told from the lines. -/
theorem separated_inj {xs ys : List Event} :
    separated (xs.map Event.exportLines) = separated (ys.map Event.exportLines) ↔ List.Forall₂ Alike xs ys := by
  induction xs generalizing ys with
  | nil =>
    cases ys with
    | nil => simp
    | cons y ys => simp [separated, separated_event]
  | cons x xs ih =>
    cases ys with
    | nil => simp [separated, separated_event]
    | cons y ys =>
      rw [List.map_cons, List.map_cons, separated_event, separated_event, List.cons_inj_right,
        front_inj (ending_not_indented _ _) (ending_not_indented _ _), indented_inj, separated_exportMembers, ih, List.forall₂_cons]
      constructor
      · rintro ⟨alike, -, rest⟩
        exact ⟨alike, rest⟩
      · rintro ⟨alike, rest⟩
        refine ⟨alike, ?_, rest⟩
        rw [ending, ending, List.isEmpty_map, List.isEmpty_map, isEmpty_alike rest]

end Lines

section Documents

/-- Lines without a line break in any of them. -/
def Clear (lines : List Line) : Prop := ∀ line ∈ lines, Unbroken line

theorem Clear.append {lines others : List Line} (first : Clear lines) (second : Clear others) : Clear (lines ++ others) := by
  intro line member
  exact (List.mem_append.mp member).elim (first line) (second line)

theorem clear_singleton {line : Line} (unbroken : Unbroken line) : Clear [line] := List.forall_mem_singleton.mpr unbroken

theorem clear_indented {lines : List Line} (clear : Clear lines) : Clear (indented lines) := by
  intro line member
  obtain ⟨inner, inside, rfl⟩ := List.mem_map.mp member
  simp [clear inner inside]

theorem clear_addComma {lines : List Line} (clear : Clear lines) : Clear (addComma lines) := by
  rcases List.eq_nil_or_concat' lines with rfl | ⟨front, last, rfl⟩
  · exact clear
  · rw [addComma_concat]
    refine Clear.append (fun line member => clear line (List.mem_append_left [last] member)) (clear_singleton ?_)
    simp [clear last (List.mem_append_right front (List.mem_singleton_self last))]

theorem clear_separated {items : List (List Line)} (clear : ∀ item ∈ items, Clear item) : Clear (separated items) := by
  induction items with
  | nil => exact fun line member => nomatch member
  | cons item items ih =>
    have first := clear item List.mem_cons_self
    cases items with
    | nil => exact first
    | cons next items =>
      exact (clear_addComma first).append (ih (fun other member => clear other (List.mem_cons_of_mem item member)))

theorem clear_bracketed {opening closing : Line} {items : List (List Line)} (first : Unbroken opening) (last : Unbroken closing)
    (clear : ∀ item ∈ items, Clear item) : Clear (bracketed opening closing items) :=
  (clear_singleton first).append ((clear_indented (clear_separated clear)).append (clear_singleton last))

theorem unbroken_quoted {word : String} (unbroken : Unbroken word.toList) : Unbroken (quoted word) := by
  simp [quoted, unbroken]

theorem unbroken_number (x : Binary64) : Unbroken (Export.number x) := by
  by_cases none : x.isFinite = false
  · rw [number_null none]
    decide
  · obtain ⟨negative, a, rfl, finite⟩ := finite_shape none
    exact unbroken_writes (number_writes negative finite)

theorem clear_member {name : String} {value : Line} (known : Unbroken name.toList) (unbroken : Unbroken value) :
    Clear (member name value) := by
  apply clear_singleton
  simp [unbroken_quoted known, unbroken]

theorem clear_word {name word : String} (known : Unbroken name.toList) (unbroken : Unbroken word.toList) :
    Clear (member name (quoted word)) :=
  clear_member known (unbroken_quoted unbroken)

theorem clear_component (id : ComponentId) : Clear id.exportMember := by
  apply clear_bracketed (by decide) (by decide)
  rw [List.forall_mem_cons, List.forall_mem_singleton]
  exact ⟨clear_member (by decide) (unbroken_toDigits _), clear_word (by decide) (unbroken_kind _)⟩

theorem clear_event (event : Event) : Clear event.exportLines := by
  apply clear_bracketed (by decide) (by decide)
  have named (word : String) (known : Unbroken word.toList) : Clear (member "event" (quoted word)) := clear_word (by decide) known
  cases event with
  | bound id =>
    simp only [Event.exportMembers, List.forall_mem_cons]
    exact ⟨clear_component id, named _ (by decide), nofun⟩
  | skipped id reason =>
    simp only [Event.exportMembers, List.forall_mem_cons]
    exact ⟨clear_component id, named _ (by decide), clear_word (by decide) (unbroken_reason reason), nofun⟩
  | action id kind time rate =>
    simp only [Event.exportMembers, List.forall_mem_cons]
    exact ⟨clear_word (by decide) (unbroken_action kind), clear_component id, named _ (by decide),
      clear_member (by decide) (unbroken_number time), clear_member (by decide) (unbroken_number rate), nofun⟩
  | seek id percent target =>
    simp only [Event.exportMembers, List.forall_mem_cons]
    exact ⟨clear_component id, named _ (by decide), clear_member (by decide) (unbroken_number percent),
      clear_member (by decide) (unbroken_number target), nofun⟩

theorem clear_document (events : List Event) : Clear (documentLines events) := by
  cases events with
  | nil => exact clear_singleton (by decide)
  | cons event events =>
    apply clear_bracketed (by decide) (by decide)
    intro item member
    obtain ⟨other, -, rfl⟩ := List.mem_map.mp member
    exact clear_event other

theorem documentLines_inj {xs ys : List Event} : documentLines xs = documentLines ys ↔ List.Forall₂ Alike xs ys := by
  cases xs with
  | nil =>
    cases ys with
    | nil => simp
    | cons y ys => simp [documentLines, bracketed]
  | cons x xs =>
    cases ys with
    | nil => simp [documentLines, bracketed]
    | cons y ys =>
      rw [documentLines, documentLines, bracketed, bracketed, List.append_left_inj, List.cons_inj_right, indented_inj, separated_inj]
      · exact List.cons_ne_nil y ys
      · exact List.cons_ne_nil x xs

/-- Two lists of events have the same document exactly when they have the same length and agree event by
event in all but the kinds of numbers that are not finite. -/
theorem exportedEvents_eq_iff (xs ys : List Event) : exportedEvents xs = exportedEvents ys ↔ List.Forall₂ Alike xs ys := by
  rw [exportedEvents, exportedEvents, String.ofList_inj]
  exact (terminated_inj (clear_document xs) (clear_document ys)).trans documentLines_inj

end Documents

end VideoPage.Proofs.ExportedDocuments
