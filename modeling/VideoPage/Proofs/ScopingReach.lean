import VideoPage.Proofs.MarkedLists
import VideoPage.Proofs.LineRuns

/-! Which selectors the scope reaches. A sheet with a mark wherever the scope is put, and the
sheet that comes out, are read side by side: line by line the readings stay alike, so the
rules of the one are taken for rules of the scope when those of the other are marked or taken
for such already. -/

namespace VideoPage.Proofs.ScopingReach
open Stylesheet Selector TextBlanks SheetScan SelectorLists ListReading SelectorLines LineRuns SheetRules PreludeReading
open MarkedReading MarkedLists

section Lines
variable {word : List Char}

/-- Both readers have read the same so far as it matters, and stand at the same point of a line. -/
structure Level (word : List Char) (first second : State) : Prop where
  same : first.1 = second.1
  alike : Alike word first.2 second.2

theorem Level.read {first second : State} (level : Level word first second) (text : List Char) :
    Level word (readText first (plain text)) (readText second (plain text)) := by
  obtain ⟨s, reading⟩ := first
  obtain ⟨_, reading'⟩ := second
  obtain rfl : s = _ := level.same
  refine ⟨?_, alike_read level.alike text⟩
  rw [read_scan, read_scan]

/-- At the brace that opens a block all selectors of its prelude are decided. -/
theorem level_opening (class_word : PlainClass word) {first second : State} (stops : Stops word first second)
    (code : calm first.1 = .code) (rest : List Char) :
    Level word (readText first (plain ('{' :: rest))) (readText second (plain (' ' :: '{' :: rest))) := by
  have opening : ∀ {state : State}, calm state.1 = .code →
      readText state (plain ['{']) = (.code, (settledReading state).next (.code '{')) := by
    intro state inCode
    have scan : (readText state (plain ['{'])).1 = .code := by
      obtain ⟨s, reading⟩ := state
      cases s <;> first | rfl | cases inCode
    exact Prod.ext scan (read_code inCode (by decide) (by decide))
  have outside : second.1.inComment = false := by
    rw [stops.inComment, ← calm_inComment, code]
    rfl
  obtain ⟨scan, rests, agrees⟩ := read_idle class_word stops.second_whole outside idle_space
  have scan_code : calm (readText second [some ' ']).1 = .code := by rw [scan, calm_calm, ← stops.same, code]
  have both := stops.agrees.trans agrees
  rw [← rests.settled] at both
  have structural : role (brackets (settledReading first).current) (.code '{') ≠ .text := by simp [role]
  have alike := both.next_break structural
  have level : Level word (readText first (plain ['{'])) (readText (readText second [some ' ']) (plain ['{'])) := by
    rw [opening code, opening scan_code]
    exact ⟨rfl, alike⟩
  exact level.read rest

theorem level_comma (class_word : PlainClass word) {first second : State} (stops : Stops word first second)
    {more more' : List Char} (idle : ∀ c ∈ more, Idle c) (idle' : ∀ c ∈ more', Idle c) :
    Level word (readText first (plain (',' :: more))) (readText second (plain (',' :: more'))) := by
  have all : ∀ c ∈ ',' :: more, Idle c := List.forall_mem_cons.mpr ⟨Or.inl rfl, idle⟩
  have all' : ∀ c ∈ ',' :: more', Idle c := List.forall_mem_cons.mpr ⟨Or.inl rfl, idle'⟩
  obtain ⟨same, ⟨-, alike⟩ | ⟨rests, rests', agrees⟩⟩ :=
    stops.comma class_word (List.cons_ne_nil _ _) (List.cons_ne_nil _ _) all all'
  · exact ⟨same, alike⟩
  · have outside : first.1.inComment = false := by
      have scan := scan_idles stops.first_whole (List.cons_ne_nil _ _) all
      rw [← calm_inComment, ← scan]
      exact rests.outside
    have outside' : second.1.inComment = false := stops.inComment.trans outside
    exact ⟨same, alike_of_parted same rests rests' agrees (parted_idles class_word stops.first_whole outside idle)
      (parted_idles class_word stops.second_whole outside' idle')⟩

section Line
variable {line : List Char}

theorem unmark_markLine (line : List Char) : unmark (markLine line) = line := by
  unfold markLine
  split
  next head tail split =>
    obtain ⟨whole, -⟩ := splitAtBrace?_parts split
    rw [unmark_append, unmark_markList, unmark_plain, ← whole]
  · exact unmark_plain line
  · split
    · exact unmark_markList line
    · exact unmark_plain line

theorem unmark_markIn (p : Position) (line : List Char) : unmark (markIn p line) = line := by
  unfold markIn
  split
  · exact unmark_markLine line
  · exact unmark_plain line

theorem level_openingLine (class_word : PlainClass word) {first second : State} (starts : Starts word first second)
    (code : first.1 = .code) (noBreak : '\n' ∉ line) {head tail : List Char}
    (split : Scan.code.splitAtBrace? line = some (head, .opening, tail)) (visible : ¬ Blank head) :
    Level word (readText first (markList head ++ plain tail)) (readText second (plain (scopeLine word line))) := by
  obtain ⟨whole, -, open_eq, rest, rfl⟩ := splitAtBrace?_opening split
  have noBreak_head : '\n' ∉ head := fun member => noBreak (whole ▸ List.mem_append_left _ member)
  have indented := (starts.symm.idle class_word (idle_indentation noBreak)).symm
  have stops := stops_list class_word indented noBreak_head
  have same : listUnder word (Text.trim head) = listUnder word head := by rw [listUnder, pieces_trim, listUnder]
  have closed : calm (readText first (markList head)).1 = .code := by
    rw [scan_marked, unmark_markList, code, open_eq]
  rw [scopeLine_opening split visible, same, read_append, plain_append, plain_append, read_append, read_append]
  exact level_opening class_word stops closed rest

theorem level_commaLine (class_word : PlainClass word) {first second : State} (starts : Starts word first second)
    (noBreak : '\n' ∉ line) (none : Scan.code.splitAtBrace? line = none) (comma : (Text.trim line).getLast? = some ',') :
    Level word (readText first (markList line)) (readText second (plain (scopeLine word line))) := by
  have visible : ¬ Blank line := fun blank => by simp [blank.trim_eq] at comma
  obtain ⟨more, cut, commas⟩ := beforeCommas_cut comma
  have ending := idle_ending noBreak
  have idle : ∀ c ∈ more ++ Text.ending line, Idle c := by
    intro c member
    rcases List.mem_append.mp member with member | member
    · exact Or.inl (commas c member)
    · exact ending c member
  have whole : line = (Text.indentation line ++ beforeCommas (Text.trim line)) ++ ',' :: (more ++ Text.ending line) := by
    calc
      line = Text.indentation line ++ Text.trim line ++ Text.ending line := (around_trim visible).symm
      _ = Text.indentation line ++ (beforeCommas (Text.trim line) ++ ',' :: more) ++ Text.ending line := by rw [← cut]
      _ = _ := by simp
  have noBreak_list : '\n' ∉ Text.indentation line ++ beforeCommas (Text.trim line) :=
    fun member => noBreak (whole ▸ List.mem_append_left _ member)
  have indented := (starts.symm.idle class_word (idle_indentation noBreak)).symm
  have stops := stops_list class_word indented noBreak_list
  have same : listUnder word (Text.indentation line ++ beforeCommas (Text.trim line)) =
      listUnder word (beforeCommas (Text.trim line)) := by
    have pieces := pieces_around (indentation_blank line) (beforeCommas (Text.trim line)) Blank.nil
    rw [List.append_nil] at pieces
    rw [listUnder, pieces, listUnder]
  have marked : markList line = markList (Text.indentation line ++ beforeCommas (Text.trim line)) ++
      plain (',' :: (more ++ Text.ending line)) := by
    conv => lhs; rw [whole]
    exact markList_comma idle
  rw [same] at stops
  rw [scopeLine_comma none comma, marked, read_append, plain_append, plain_append, read_append, read_append]
  exact level_comma class_word stops idle ending

end Line

/-- Both readers stand at the start of a line. -/
structure Ready (word : List Char) (first second : State) : Prop extends Level word first second where
  lineStart : first.1 = .comment ∨ first.1 = .code ∧ Rests word first ∧ Rests word second

theorem Ready.starts {first second : State} (ready : Ready word first second) : Starts word first second := by
  rcases ready.lineStart with comment | ⟨-, rests, rests'⟩
  · exact ⟨ready.same, Or.inl ⟨comment, ready.alike⟩⟩
  · exact ⟨ready.same, Or.inr ⟨rests, rests', ready.alike.agrees⟩⟩

theorem level_line (class_word : PlainClass word) {first second : State} (ready : Ready word first second)
    {p : Position} {line : List Char} (scan : first.1 = p.scan) (noBreak : '\n' ∉ line) :
    Level word (readText first (markIn p line)) (readText second (plain (lineUnder word p line))) := by
  by_cases kind : p.kindOf line = .selectors
  · obtain ⟨outside, -⟩ := (kindOf_eq_selectors_iff p line).mp kind
    have code : first.1 = .code := scan.trans (scan_of_outside outside)
    rw [lineUnder_selectors kind, show markIn p line = markLine line by rw [markIn, kind]]
    cases split : Scan.code.splitAtBrace? line with
    | none =>
      by_cases comma : (Text.trim line).getLast? = some ','
      · have marked : markLine line = markList line := by simp [markLine, split, comma]
        rw [marked]
        exact level_commaLine class_word ready.starts noBreak split comma
      · have marked : markLine line = plain line := by simp [markLine, split, comma]
        have same : scopeLine word line = line := by simp [scopeLine, split, comma]
        rw [same, marked]
        exact ready.toLevel.read line
    | some parts =>
      obtain ⟨head, brace, tail⟩ := parts
      obtain ⟨whole, -⟩ := splitAtBrace?_parts split
      cases brace with
      | closing =>
        have marked : markLine line = plain line := by simp [markLine, split]
        have same : scopeLine word line = line := by simp [scopeLine, split]
        rw [same, marked]
        exact ready.toLevel.read line
      | opening =>
        have marked : markLine line = markList head ++ plain tail := by simp [markLine, split]
        rw [marked]
        by_cases blank : Blank head
        · have idle := idle_blank (fun member => noBreak (whole ▸ List.mem_append_left tail member)) blank
          rw [scopeLine_blankHead split blank, markList_idle idle, ← plain_append, ← whole]
          exact ready.toLevel.read line
        · exact level_openingLine class_word ready.starts code noBreak split blank
  · have marked : markIn p line = plain line := by
      unfold markIn
      split
      next selectors => exact absurd selectors kind
      next => rfl
    rw [lineUnder_copied kind, marked]
    exact ready.toLevel.read line

theorem rests_newline (class_word : PlainClass word) {state : State} (outside : state.1.inComment = false) :
    (readText state (plain ['\n'])).1 = .code ∧ Rests word (readText state (plain ['\n'])) := by
  obtain ⟨s, reading⟩ := state
  have blank : ∀ reading : Reading,
      (reading.next (.code '\n')).current = [] ∨ Firm word (reading.next (.code '\n')).current :=
    fun reading => (agrees_blank class_word reading rfl).2
  have rests : ∀ reading : Reading, reading.current = [] ∨ Firm word reading.current → Rests word (.code, reading) :=
    fun reading current => ⟨whole_code reading, rfl, rfl, current⟩
  cases s with
  | comment | star => cases outside
  | code | quoted | escaped => exact ⟨rfl, rests _ (blank reading)⟩
  | slash => exact ⟨rfl, rests _ (blank (reading.next (.code '/')))⟩

theorem ready_newline (class_word : PlainClass word) {first second : State} (level : Level word first second) :
    Ready word (readText first (plain ['\n'])) (readText second (plain ['\n'])) := by
  refine ⟨level.read ['\n'], ?_⟩
  cases outside : first.1.inComment with
  | true =>
    left
    change first.1.step '\n' = .comment
    simp [Scan.step, Scan.newline, outside, Scan.atLineStart]
  | false =>
    obtain ⟨code, rests⟩ := rests_newline class_word outside
    have outside' : second.1.inComment = false := level.same ▸ outside
    obtain ⟨-, rests'⟩ := rests_newline class_word outside'
    exact Or.inr ⟨code, rests, rests'⟩

theorem level_lines (class_word : PlainClass word) {lines out : List (List Char)} {number : Nat} {p : Position}
    {first second : State} (ready : Ready word first second) (scan : first.1 = p.scan)
    (noBreaks : ∀ line ∈ lines, '\n' ∉ line) (ok : scopeLines word number p lines = .ok out) :
    Level word (readText first ([some '\n'].intercalate (markLines p lines)))
      (readText second (plain (['\n'].intercalate out))) := by
  -- A line break may fall between two lines that are read in step, never inside one of them.
  induction lines generalizing number p first second out with
  | nil =>
    obtain ⟨-, rfl⟩ := scopeLines_nil_ok ok
    exact ready.toLevel
  | cons line lines ih =>
    obtain ⟨q, rest, next, later, rfl⟩ := scopeLines_cons_ok ok
    have here := level_line class_word ready scan (noBreaks line List.mem_cons_self)
    have marked : markLines p (line :: lines) = markIn p line :: markLines q lines := by simp [markLines, next]
    have size := scopeLines_length later
    rw [marked]
    cases lines with
    | nil =>
      obtain rfl : rest = [] := List.length_eq_zero_iff.mp size
      simpa [markLines] using here
    | cons other lines =>
      have some_rest : rest ≠ [] := by
        rintro rfl
        cases size
      have some_marked : markLines q (other :: lines) ≠ [] := by simp [markLines]
      have ready' := ready_newline class_word here
      have scan' : (readText (readText first (markIn p line)) (plain ['\n'])).1 = q.scan := by
        rw [read_scan, scan_marked, unmark_markIn, scan, show q.scan = .atLineStart q.inComment from rfl,
          next?_inComment next]
        cases p.scan.after line <;> rfl
      have level := ih ready' scan' (fun line' member => noBreaks line' (List.mem_cons_of_mem line member)) later
      rw [List.intercalate_cons_of_ne_nil some_marked, List.intercalate_cons_of_ne_nil some_rest, plain_append,
        plain_append, read_append, read_append, read_append, read_append]
      exact level

end Lines

section Sheets

/-- Nothing that has been read is a mark. -/
structure Unmarked (reading : Reading) : Prop where
  selectors : ∀ selector ∈ reading.selectors, Sign.mark ∉ selector
  rules : ∀ rule ∈ reading.rules, ∀ selector ∈ rule, Sign.mark ∉ selector

theorem Unmarked.next {reading : Reading} (unmarked : Unmarked reading) {sign : Sign} (other : sign ≠ .mark) :
    Unmarked (reading.next sign) := by
  have fresh : ∀ selector ∈ ([[]] : List (List Sign)), Sign.mark ∉ selector := by simp
  unfold Reading.next
  cases role (brackets reading.current) sign with
  | opening =>
    refine ⟨fresh, ?_⟩
    dsimp only
    split
    · exact List.forall_mem_append.mpr ⟨unmarked.rules, by simpa using unmarked.selectors⟩
    · exact unmarked.rules
  | closing => exact ⟨fresh, unmarked.rules⟩
  | ending => exact ⟨fresh, unmarked.rules⟩
  | comma => exact ⟨List.forall_mem_append.mpr ⟨unmarked.selectors, fresh⟩, unmarked.rules⟩
  | text =>
    obtain ⟨earlier, current⟩ := List.forall_mem_append.mp unmarked.selectors
    refine ⟨List.forall_mem_append.mpr ⟨earlier, ?_⟩, unmarked.rules⟩
    dsimp only
    split
    · exact fresh
    · simpa [other.symm] using current

theorem signs_unmarked (s : Scan) (c : Char) : ∀ sign ∈ signs s c, sign ≠ .mark := by
  rintro sign member rfl
  cases s with
  | code => by_cases slash : c = '/' <;> simp [signs, slash] at member
  | slash =>
    by_cases star : c = '*'
    · simp [signs, star] at member
    · by_cases slash : c = '/' <;> simp [signs, star, slash] at member
  | comment | star => cases member
  | quoted quote | escaped quote => by_cases ends : c = '\n' <;> simp [signs, ends] at member

theorem unmarked_read {state : State} (unmarked : Unmarked state.2) (text : List Char) :
    Unmarked (readText state (plain text)).2 := by
  induction text generalizing state with
  | nil => exact unmarked
  | cons c text ih =>
    apply ih
    have step : ∀ {more : List Sign} {reading : Reading}, (∀ sign ∈ more, sign ≠ .mark) → Unmarked reading →
        Unmarked (more.foldl Reading.next reading) := by
      intro more
      induction more with
      | nil => exact fun _ unmarked => unmarked
      | cons sign more ih =>
        intro reading others unmarked
        exact ih (fun other member => others other (List.mem_cons_of_mem sign member))
          (unmarked.next (others sign List.mem_cons_self))
    exact step (signs_unmarked state.1 c) unmarked

theorem taken_iff (scope sheet : List Char) :
    EverySelector (TakenFor scope) (plain sheet) ↔ ∀ rule ∈ styleRules (plain sheet), AllSettled scope rule := by
  have empty : Unmarked {} := ⟨by simp [Reading.selectors], by simp⟩
  have unmarked := (@unmarked_read (.code, {}) empty sheet).rules
  constructor
  · exact fun taken rule member selector inside visible => Or.inr (taken rule member selector inside visible)
  · intro settled rule member selector inside visible
    refine (settled rule member selector inside visible).resolve_left fun marked => ?_
    exact unmarked rule member selector inside (List.mem_of_mem_head? marked)

theorem everySelector_and {kind other : List Sign → Prop} {sheet : Marked} :
    EverySelector (fun selector => kind selector ∧ other selector) sheet ↔
      EverySelector kind sheet ∧ EverySelector other sheet := by
  simp only [EverySelector, forall_and]

/-- Every selector of the sheet that comes out is taken for one of the scope exactly when every
selector of the sheet that goes in starts where the scope is put, or is taken for one of the scope
already. The sheet that comes out is confined to the scope when, besides, no name behind the scope
goes on unseen. -/
theorem scope_confined_iff {scope css out : String} (class_word : PlainClass scope.toList)
    (done : Stylesheet.scope scope css = .ok out) :
    (EverySelector (TakenFor scope.toList) (plain out.toList) ↔ Reached scope.toList css.toList) ∧
      (Confined scope.toList out.toList ↔
        Reached scope.toList css.toList ∧ EverySelector (NothingOverlooked scope.toList) (plain out.toList)) := by
  obtain ⟨lines, ok, text⟩ := scope_ok done
  have alike : Alike scope.toList ({} : Reading) {} := ⟨Agrees.refl {}, Or.inl ⟨rfl, Iff.rfl, Iff.rfl⟩⟩
  have rests : Rests scope.toList (.code, {}) := ⟨whole_code {}, rfl, rfl, Or.inl rfl⟩
  have ready : Ready scope.toList (.code, {}) (.code, {}) := ⟨⟨rfl, alike⟩, Or.inr ⟨rfl, rests, rests⟩⟩
  have level := level_lines class_word ready rfl (fun line member => (splitOn_parts member).1) ok
  rw [← text] at level
  have taken : EverySelector (TakenFor scope.toList) (plain out.toList) ↔ Reached scope.toList css.toList := by
    rw [taken_iff]
    exact level.alike.agrees.rules.symm
  refine ⟨taken, ?_⟩
  rw [← taken, ← everySelector_and, Confined]
  simp only [EverySelector, startsWith_iff]

/-- A brace on the line below its selector: the scope is put nowhere, and the rule escapes. -/
theorem scope_confined_iff_brace_below :
    PlainClass ".x".toList ∧
      Stylesheet.scope ".x" ".a\n\x7b\n  color: red;\n\x7d" = .ok ".a\n\x7b\n  color: red;\n\x7d" ∧
      ¬ Confined ".x".toList ".a\n\x7b\n  color: red;\n\x7d".toList ∧
      ¬ Reached ".x".toList ".a\n\x7b\n  color: red;\n\x7d".toList := by
  have class_word : PlainClass ".x".toList := ⟨['x'], rfl, List.cons_ne_nil _ _, List.forall_mem_singleton.mpr rfl⟩
  have done : Stylesheet.scope ".x" ".a\n\x7b\n  color: red;\n\x7d" = .ok ".a\n\x7b\n  color: red;\n\x7d" := by cbv
  have escapes : ¬ EverySelector (TakenFor ".x".toList) (plain ".a\n\x7b\n  color: red;\n\x7d".toList) := by
    intro taken
    have rules : styleRules (plain ".a\n\x7b\n  color: red;\n\x7d".toList) = [[[.code '.', .code 'a', .code '\n']]] := by cbv
    have rule := taken [[.code '.', .code 'a', .code '\n']] (rules ▸ List.mem_cons_self)
    obtain ⟨rest, whole, -⟩ := rule [.code '.', .code 'a', .code '\n'] List.mem_cons_self (List.cons_ne_nil _ _)
    simp at whole
  obtain ⟨taken, confined⟩ := scope_confined_iff class_word done
  have unreached : ¬ Reached ".x".toList ".a\n\x7b\n  color: red;\n\x7d".toList := fun reached => escapes (taken.mpr reached)
  exact ⟨class_word, done, fun confines => unreached (confined.mp confines).1, unreached⟩

end Sheets

end VideoPage.Proofs.ScopingReach
