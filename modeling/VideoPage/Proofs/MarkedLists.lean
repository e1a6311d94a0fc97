import VideoPage.Proofs.ListReading
import VideoPage.Proofs.MarkedReading

/-! A selector list with its marks, read beside the same list under the scope. Blanks and
commas may be read by one reader alone; a selector is read by both, once it has been
marked for the one and put under the scope for the other. -/

namespace VideoPage.Proofs.MarkedLists
open Stylesheet Selector TextBlanks SheetScan SelectorLists ListReading SheetRules PreludeReading MarkedReading

section Marks

theorem idle_blank {text : List Char} (noBreak : '\n' ∉ text) (blank : Blank text) : ∀ c ∈ text, Idle c :=
  fun c member => Or.inr ⟨blank c member, fun same => noBreak (same ▸ member)⟩

theorem idle_indentation {line : List Char} (noBreak : '\n' ∉ line) : ∀ c ∈ Text.indentation line, Idle c :=
  idle_blank (fun member => noBreak (mem_indentation member)) (indentation_blank line)

theorem idle_ending {line : List Char} (noBreak : '\n' ∉ line) : ∀ c ∈ Text.ending line, Idle c :=
  idle_blank (fun member => noBreak (mem_ending member)) (ending_blank line)

theorem idle_comma : ∀ c ∈ [','], Idle c := List.forall_mem_singleton.mpr (Or.inl rfl)

theorem markPlace_blank {part : List Char} (blank : Blank part) : markPlace part = plain part :=
  if_pos ((isEmpty_trim_iff part).mpr blank)

theorem markPlace_visible {part : List Char} (visible : ¬ Blank part) :
    markPlace part = plain (Text.indentation part) ++ ((none :: plain (Text.trim part)) ++ plain (Text.ending part)) := by
  have cut : Text.trimStart part = Text.trim part ++ Text.ending part := by
    have whole := @trimStart_around _ _ (Text.ending part) (indentation_blank part) (solid_trim visible)
    rwa [around_trim visible] at whole
  have shown : ¬ (Text.trim part).isEmpty = true := fun empty => visible ((isEmpty_trim_iff part).mp empty)
  rw [markPlace, if_neg shown, cut, plain_append]
  rfl

def unmark (text : Marked) : List Char := text.filterMap id

theorem unmark_plain (text : List Char) : unmark (plain text) = text := by
  simp [unmark, plain, List.filterMap_map]

theorem unmark_append (first second : Marked) : unmark (first ++ second) = unmark first ++ unmark second :=
  List.filterMap_append

theorem scan_marked (state : State) (text : Marked) : (readText state text).1 = state.1.after (unmark text) := by
  induction text generalizing state with
  | nil => rfl
  | cons entry text ih => cases entry <;> exact ih _

theorem unmark_markPlace (part : List Char) : unmark (markPlace part) = part := by
  by_cases blank : Blank part
  · rw [markPlace_blank blank, unmark_plain]
  · have mark : unmark (none :: plain (Text.trim part)) = Text.trim part := unmark_plain (Text.trim part)
    rw [markPlace_visible blank, unmark_append, unmark_append, mark, unmark_plain, unmark_plain, ← List.append_assoc,
      around_trim blank]

private theorem map_intercalate {α β : Type} {f : List α → List β}
    (append : ∀ first second, f (first ++ second) = f first ++ f second) (separator : List α) (parts : List (List α)) :
    f (separator.intercalate parts) = (f separator).intercalate (parts.map f) := by
  have nil : f [] = [] := by simpa using append [] []
  induction parts with
  | nil => exact nil
  | cons part parts ih =>
    cases parts with
    | nil => simp
    | cons next parts =>
      rw [List.intercalate_cons_cons, append, append, ih]
      simp only [List.map_cons, List.intercalate_cons_cons]

theorem unmark_markList (text : List Char) : unmark (markList text) = text := by
  have same : (text.splitOn ',').map (unmark ∘ markPlace) = text.splitOn ',' := by
    rw [show unmark ∘ markPlace = id from funext unmark_markPlace, List.map_id]
  rw [markList, map_intercalate unmark_append, List.map_map, same]
  exact List.intercalate_splitOn ','

/-- Where no selector stands there is nothing to mark. -/
theorem markList_idle {text : List Char} (idle : ∀ c ∈ text, Idle c) : markList text = plain text := by
  have blank : ∀ part ∈ text.splitOn ',', markPlace part = plain part := by
    intro part member
    obtain ⟨noComma, inside⟩ := splitOn_parts member
    apply markPlace_blank
    intro c found
    rcases idle c (inside c found) with rfl | ⟨blank, -⟩
    · exact absurd found noComma
    · exact blank
  have whole := map_intercalate plain_append [','] (text.splitOn ',')
  rw [markList, List.map_congr_left blank]
  rw [List.intercalate_splitOn] at whole
  exact whole.symm

theorem markList_comma {text more : List Char} (idle : ∀ c ∈ more, Idle c) :
    markList (text ++ ',' :: more) = markList text ++ plain (',' :: more) := by
  have rest : [some ','].intercalate ((more.splitOn ',').map markPlace) = plain more := markList_idle idle
  rw [markList, List.splitOn_append_cons_self, List.map_append, intercalate_append _ (by simp) (by simp), rest,
    List.append_assoc]
  rfl

end Marks

section Steps
variable {word : List Char}

/-- Both readers stand where a place of the list begins. -/
structure Starts (word : List Char) (first second : State) : Prop where
  same : first.1 = second.1
  readings : first.1 = .comment ∧ Alike word first.2 second.2 ∨
    Rests word first ∧ Rests word second ∧ Agrees word first.2 second.2

/-- Both readers stand behind a selector. -/
structure Stops (word : List Char) (first second : State) : Prop where
  same : calm first.1 = calm second.1
  first_whole : Whole first
  second_whole : Whole second
  agrees : Agrees word (settledReading first) (settledReading second)
  comment : first.1.inComment = true → Alike word first.2 second.2

theorem Stops.inComment {first second : State} (stops : Stops word first second) :
    second.1.inComment = first.1.inComment := by
  rw [← calm_inComment, ← stops.same, calm_inComment]

theorem stops_of_alike {first second : State} (same : first.1 = second.1) (alike : Alike word first.2 second.2)
    (first_whole : Whole first) (second_whole : Whole second) : Stops word first second := by
  obtain ⟨s, reading⟩ := first
  obtain ⟨_, reading'⟩ := second
  obtain rfl : s = _ := same
  refine ⟨rfl, first_whole, second_whole, ?_, fun _ => alike⟩
  cases s with
  | slash => exact (alike.next _).agrees
  | _ => exact alike.agrees

theorem stops_read {s : Scan} {first second : Reading} (alike : Alike word first second)
    (first_whole : Whole (s, first)) (second_whole : Whole (s, second)) (text : List Char) :
    Stops word (readText (s, first) (plain text)) (readText (s, second) (plain text)) := by
  refine stops_of_alike ?_ (alike_read alike text) (first_whole.read text) (second_whole.read text)
  rw [read_scan, read_scan]

/-- One character decides the selectors that both have just started, if it shows any sign. -/
theorem stops_char {s : Scan} {first second : Reading} {sign : Sign} {more : List Sign} {c : Char}
    (agrees : Agrees word first second) (left : Poised word first.current) (right : Poised word second.current)
    (sound : Sound s) (shown : signs s c = sign :: more) (noName : sign.continuesName = false) (rest : List Char) :
    Stops word (readText (s, first) (plain (c :: rest))) (readText (s, second) (plain (c :: rest))) := by
  have first_whole : Whole (s, first) := ⟨sound, fun _ => left.visible⟩
  have second_whole : Whole (s, second) := ⟨sound, fun _ => right.visible⟩
  refine stops_read ?_ (first_whole.next c) (second_whole.next c) rest
  rw [shown]
  exact (agrees.next_poised left right noName).signs more

theorem stops_rest {s : Scan} {first second : Reading} (agrees : Agrees word first second)
    (left : Poised word first.current) (right : Poised word second.current) (sound : Sound s) (rested : calm s = s)
    (outside : s.inComment = false) {rest : List Char} (complete : EndsName rest) :
    Stops word (readText (s, first) (plain rest)) (readText (s, second) (plain rest)) := by
  have first_whole : Whole (s, first) := ⟨sound, fun _ => left.visible⟩
  have second_whole : Whole (s, second) := ⟨sound, fun _ => right.visible⟩
  cases rest with
  | nil =>
    refine ⟨rfl, first_whole, second_whole, ?_, fun inside => absurd (outside.symm.trans inside) Bool.false_ne_true⟩
    cases s <;> first | exact agrees | cases rested
  | cons c rest =>
    have noName : continuesName c = false := complete c rfl
    cases s with
    | comment => cases outside
    | star | slash | escaped => cases rested
    | quoted quote =>
      have shown : signs (.quoted quote) c = [if c = '\n' then .code c else .quoted c] := rfl
      refine stops_char agrees left right sound shown ?_ rest
      split
      · exact noName
      · rfl
    | code =>
      -- A slash shows no sign until the next character says what it starts.
      by_cases slash : c = '/'
      · subst slash
        cases rest with
        | nil =>
          have next := agrees.next_poised left right (show Sign.continuesName (.code '/') = false by decide)
          exact ⟨rfl, first_whole.next '/', second_whole.next '/', next.agrees, fun inside => nomatch inside⟩
        | cons d rest =>
          have waiting : ∃ sign more, signs .slash d = sign :: more ∧ sign.continuesName = false := by
            unfold signs
            dsimp only
            split
            · exact ⟨_, _, rfl, by decide⟩
            · split
              · exact ⟨_, _, rfl, by decide⟩
              · exact ⟨_, _, rfl, by decide⟩
          obtain ⟨sign, more, shown, noName⟩ := waiting
          exact stops_char (s := .slash) agrees left right trivial shown noName rest
      · have shown : signs .code c = [.code c] := by simp [signs, slash]
        exact stops_char agrees left right sound shown noName rest

theorem Stops.idle (class_word : PlainClass word) {first second : State} (stops : Stops word first second)
    {text : List Char} (idle : ∀ c ∈ text, Idle c) : Stops word (readText first (plain text)) second := by
  by_cases empty : text = []
  · subst empty
    exact stops
  have scan : calm (readText first (plain text)).1 = calm second.1 := by
    rw [scan_idles stops.first_whole empty idle, calm_calm, stops.same]
  cases outside : first.1.inComment with
  | true =>
    obtain ⟨same, inside⟩ := read_idles_comment outside idle
    have alike := stops.comment outside
    have inside' : second.1.inComment = true := stops.inComment.trans outside
    refine ⟨scan, stops.first_whole.read text, stops.second_whole, ?_, fun _ => same ▸ alike⟩
    rw [settled_comment inside, settled_comment inside', same]
    exact alike.agrees
  | false =>
    obtain ⟨-, rests, agrees⟩ := read_idles class_word stops.first_whole outside empty idle
    refine ⟨scan, rests.toWhole, stops.second_whole, ?_, fun inside => ?_⟩
    · rw [rests.settled]
      exact agrees.symm.trans stops.agrees
    · exact absurd (rests.outside.symm.trans inside) Bool.false_ne_true

/-- Behind a comma a place begins, for the first reader and, with a blank, for the second. -/
theorem Stops.comma (class_word : PlainClass word) {first second : State} (stops : Stops word first second)
    {text text' : List Char} (nonempty : text ≠ []) (nonempty' : text' ≠ [])
    (idle : ∀ c ∈ text, Idle c) (idle' : ∀ c ∈ text', Idle c) :
    Starts word (readText first (plain text)) (readText second (plain text')) := by
  have scan := scan_idles stops.first_whole nonempty idle
  have scan' := scan_idles stops.second_whole nonempty' idle'
  have same : (readText first (plain text)).1 = (readText second (plain text')).1 := by rw [scan, scan', stops.same]
  refine ⟨same, ?_⟩
  cases outside : first.1.inComment with
  | true =>
    obtain ⟨kept, inside⟩ := read_idles_comment outside idle
    obtain ⟨kept', -⟩ := read_idles_comment (stops.inComment.trans outside) idle'
    refine Or.inl ⟨?_, ?_⟩
    · rw [scan]
      cases shape : first.1 <;> simp [shape, Scan.inComment] at outside <;> rfl
    · rw [kept, kept']
      exact stops.comment outside
  | false =>
    have outside' : second.1.inComment = false := stops.inComment.trans outside
    obtain ⟨-, rests, agrees⟩ := read_idles class_word stops.first_whole outside nonempty idle
    obtain ⟨-, rests', agrees'⟩ := read_idles class_word stops.second_whole outside' nonempty' idle'
    exact Or.inr ⟨rests, rests', agrees.symm.trans (stops.agrees.trans agrees')⟩

theorem Starts.stops {first second : State} (starts : Starts word first second) : Stops word first second := by
  obtain ⟨same, ⟨comment, alike⟩ | ⟨rests, rests', agrees⟩⟩ := starts
  · have whole : ∀ state : State, state.1 = .comment → Whole state := by
      rintro ⟨s, reading⟩ rfl
      exact whole_comment reading
    exact stops_of_alike same alike (whole first comment) (whole second (same ▸ comment))
  · refine ⟨congrArg calm same, rests.toWhole, rests'.toWhole, ?_, fun inside => ?_⟩
    · rw [rests.settled, rests'.settled]
      exact agrees
    · exact absurd (rests.outside.symm.trans inside) Bool.false_ne_true

theorem Starts.symm {first second : State} (starts : Starts word first second) : Starts word second first := by
  obtain ⟨same, ⟨comment, alike⟩ | ⟨rests, rests', agrees⟩⟩ := starts
  · exact ⟨same.symm, Or.inl ⟨same ▸ comment, alike.symm⟩⟩
  · exact ⟨same.symm, Or.inr ⟨rests', rests, agrees.symm⟩⟩

theorem Starts.idle (class_word : PlainClass word) {first second : State} (starts : Starts word first second)
    {text : List Char} (idle : ∀ c ∈ text, Idle c) : Starts word (readText first (plain text)) second := by
  by_cases empty : text = []
  · subst empty
    exact starts
  have scan := scan_idles starts.stops.first_whole empty idle
  obtain ⟨same, ⟨comment, alike⟩ | ⟨rests, rests', agrees⟩⟩ := starts
  · have inside : first.1.inComment = true := by
      rw [comment]
      rfl
    obtain ⟨kept, -⟩ := read_idles_comment inside idle
    rw [comment] at scan
    exact ⟨scan.trans (same ▸ comment).symm, Or.inl ⟨scan, by rw [kept]; exact alike⟩⟩
  · obtain ⟨-, next, agrees'⟩ := read_idles class_word rests.toWhole rests.outside empty idle
    rw [rests.settled] at agrees'
    exact ⟨by rw [scan, rests.rested, same], Or.inr ⟨next, rests', agrees'.symm.trans agrees⟩⟩

/-- In a comment neither the scope nor what stands in for it is read. -/
theorem stops_under_comment (class_word : PlainClass word) {first second : Reading} (alike : Alike word first second)
    (selector : List Char) :
    Stops word (readText (.comment, first) (none :: plain selector))
      (readText (.comment, second) (plain (under word selector))) := by
  obtain ⟨name, rest, rfl, shape⟩ := under_shape word selector
  have skip : ∀ (reading : Reading) (text : List Char), (∀ c ∈ text, Plain c) →
      readText (.comment, reading) (plain (text ++ rest)) = readText (.comment, reading) (plain rest) := by
    intro reading text harmless
    rw [plain_append, read_append, read_plain (s := .comment) trivial rfl reading harmless, signs_comment]
    rfl
  have harmless : ∀ c ∈ word, Plain c := (nameText_word class_word).plain
  have marked : readText (.comment, first) (none :: plain (name ++ rest)) = readText (.comment, first) (plain rest) :=
    skip first name (nameText_lead class_word (shape.imp And.left And.left)).plain
  have placed : readText (.comment, second) (plain (under word (name ++ rest))) =
      readText (.comment, second) (plain rest) := by
    rcases shape with ⟨-, -, eq⟩ | ⟨rfl, eq⟩
    · rw [eq, skip second word harmless]
    · have spaced : ∀ c ∈ word ++ [' '], Plain c :=
        List.forall_mem_append.mpr ⟨harmless, List.forall_mem_singleton.mpr plain_space⟩
      rw [eq, ← skip second (word ++ [' ']) spaced, List.append_assoc, List.singleton_append]
  rw [marked, placed]
  exact stops_read alike (whole_comment first) (whole_comment second) rest

/-- Outside, both readers have settled the selector once the scope and the mark are read. -/
theorem stops_under_code (class_word : PlainClass word) {s : Scan} {first second : Reading}
    (rests : Rests word (s, first)) (rests' : Rests word (s, second)) (agrees : Agrees word first second)
    (selector : List Char) :
    Stops word (readText (s, first) (none :: plain selector)) (readText (s, second) (plain (under word selector))) := by
  obtain ⟨name, rest, rfl, shape⟩ := under_shape word selector
  obtain ⟨next, marked, agrees_next, firm⟩ := read_mark rests (nameText_lead class_word (shape.imp And.left And.left))
  obtain ⟨next', placed, agrees_next', poised⟩ := read_scope class_word rests'
  have both : Agrees word next next' := agrees_next.symm.trans (agrees.trans agrees_next')
  have cut : (none :: plain (name ++ rest) : Marked) = (none :: plain name) ++ plain rest := by
    rw [plain_append]
    rfl
  rw [cut, read_append, marked]
  rcases shape with ⟨-, complete, eq⟩ | ⟨rfl, eq⟩
  · rw [eq, plain_append, read_append, placed]
    exact stops_rest both firm.poised poised rests.sound rests.rested rests.outside complete
  · obtain ⟨spaced, space, agrees_space, firm'⟩ := read_space poised rests.sound rests.rested rests.outside
    rw [eq, ← List.singleton_append, plain_append, plain_append, read_append, read_append, placed, space]
    exact stops_read ⟨both.trans agrees_space, Or.inr ⟨firm, firm'⟩⟩ ⟨rests.sound, fun _ => firm.visible⟩
      ⟨rests.sound, fun _ => firm'.visible⟩ rest

theorem stops_under (class_word : PlainClass word) {first second : State} (starts : Starts word first second)
    (selector : List Char) :
    Stops word (readText first (none :: plain selector)) (readText second (plain (under word selector))) := by
  obtain ⟨s, reading⟩ := first
  obtain ⟨_, reading'⟩ := second
  obtain ⟨same, readings⟩ := starts
  obtain rfl : s = _ := same
  rcases readings with ⟨comment, alike⟩ | ⟨rests, rests', agrees⟩
  · obtain rfl : s = .comment := comment
    exact stops_under_comment class_word alike selector
  · exact stops_under_code class_word rests rests' agrees selector

end Steps

section Lists
variable {word : List Char}

def readers : Readers State State where
  place := fun state part => readText state (markPlace part)
  comma := fun state => readText state (plain [','])
  text := fun state text => readText state (plain text)
  text_nil := fun _ => rfl
  text_append := fun state first second => by rw [plain_append, read_append]

theorem places_eq (state : State) {parts : List (List Char)} (nonempty : parts ≠ []) :
    readers.places state parts = readText state ([some ','].intercalate (parts.map markPlace)) := by
  induction parts generalizing state with
  | nil => exact absurd rfl nonempty
  | cons part parts ih =>
    cases parts with
    | nil => simp [Readers.places, readers]
    | cons next parts =>
      rw [List.map_cons, List.map_cons, List.intercalate_cons_cons, read_append, read_append]
      exact ih _ (List.cons_ne_nil next parts)

theorem inStep (class_word : PlainClass word) : InStep readers word (Starts word) (Stops word) where
  empty := by
    intro first second part place start blank
    have passed := start.idle class_word (idle_blank place.noBreak blank)
    change Stops word (readText first (markPlace part)) second ∧
      Starts word (readText (readText first (markPlace part)) (plain [','])) second
    rw [markPlace_blank blank]
    exact ⟨passed.stops, passed.idle class_word idle_comma⟩
  selector := by
    intro first second part place start visible
    have before := start.idle class_word (idle_indentation place.noBreak)
    have after := (stops_under class_word before (Text.trim part)).idle class_word (idle_ending place.noBreak)
    change Stops word (readText first (markPlace part)) (readText second (plain (under word (Text.trim part))))
    rw [markPlace_visible visible, read_append, read_append]
    exact after
  separator := by
    intro first second stop
    have idle : ∀ c ∈ [',', ' '], Idle c :=
      List.forall_mem_cons.mpr ⟨Or.inl rfl, List.forall_mem_singleton.mpr idle_space⟩
    exact stop.comma class_word (List.cons_ne_nil _ _) (List.cons_ne_nil _ _) idle_comma idle
  trailing := by
    intro first second part place stop blank
    change Stops word (readText (readText first (plain [','])) (markPlace part)) second
    rw [markPlace_blank blank]
    exact (stop.idle class_word idle_comma).idle class_word (idle_blank place.noBreak blank)

theorem stops_list (class_word : PlainClass word) {first second : State} (starts : Starts word first second)
    {text : List Char} (noBreak : '\n' ∉ text) :
    Stops word (readText first (markList text)) (readText second (plain (listUnder word text))) := by
  have stops := (inStep class_word).list (List.splitOn_ne_nil ',' text)
    (fun _ member => place_of_mem_splitOn noBreak member) starts
  rw [places_eq _ (List.splitOn_ne_nil ',' text)] at stops
  exact stops

end Lists

end VideoPage.Proofs.MarkedLists
