import VideoPage.Proofs.PreludeReading
import VideoPage.Proofs.SelectorLists

/-! What a reader makes of the text that one of two readers may meet alone: blanks and commas,
marks, and the scope itself. None of it decides a selector, unless it is the start of one. -/

namespace VideoPage.Proofs.MarkedReading
open Stylesheet Selector TextBlanks SheetScan SelectorLists SheetRules PreludeReading

section Reading

theorem read_append (state : State) (first second : Marked) :
    readText state (first ++ second) = readText (readText state first) second := List.foldl_append

theorem read_cons (state : State) (c : Char) (text : List Char) :
    readText state (plain (c :: text)) =
      readText (state.1.step c, (signs state.1 c).foldl Reading.next state.2) (plain text) := rfl

theorem plain_append (first second : List Char) : plain (first ++ second) = plain first ++ plain second := List.map_append

theorem read_scan (state : State) (text : List Char) : (readText state (plain text)).1 = state.1.after text := by
  induction text generalizing state with
  | nil => rfl
  | cons c text ih => exact ih _

variable {word : List Char}

theorem alike_read {s : Scan} {first second : Reading} (alike : Alike word first second) (text : List Char) :
    Alike word (readText (s, first) (plain text)).2 (readText (s, second) (plain text)).2 := by
  induction text generalizing s first second with
  | nil => exact alike
  | cons c text ih => exact ih (alike.signs (signs s c))

end Reading

section Signs

/-- A sign that is never structure. -/
structure Inert (sign : Sign) : Prop where
  text : ∀ opened, role opened sign = .text
  level : ∀ opened, bracketsBehind opened sign = opened

theorem inert_code {c : Char} (harmless : c ∉ ['{', '}', ';', ',', '(', ')', '[', ']']) : Inert (.code c) := by
  simp only [List.mem_cons, List.not_mem_nil, or_false, not_or] at harmless
  constructor
  · simp [role, harmless]
  · simp [bracketsBehind, CssSyntax.bracketsAfter, harmless]

theorem inert_quoted (c : Char) : Inert (.quoted c) := ⟨fun _ => rfl, fun _ => rfl⟩

theorem inert_mark : Inert .mark := ⟨fun _ => rfl, fun _ => rfl⟩

theorem inert_blank {c : Char} (blank : Text.isBlank c = true) : Inert (.code c) := by
  apply inert_code
  apply not_mem_of_blank _ blank
  simp [Text.isBlank, Text.blankRanges]

theorem breaks_blank {c : Char} (blank : Text.isBlank c = true) : Breaks (.code c) := by
  refine ⟨continuesName_of_isBlank blank, ?_⟩
  intro same
  exact ne_of_blank rfl blank (Sign.code.inj same)

theorem breaks_quoted (c : Char) : Breaks (.quoted c) := ⟨rfl, Sign.noConfusion⟩

theorem brackets_inert {selector more : List Sign} (inert : ∀ sign ∈ more, Inert sign) :
    brackets (selector ++ more) = brackets selector := by
  rw [brackets_append]
  induction more with
  | nil => rfl
  | cons sign more ih =>
    rw [List.foldl_cons, (inert sign List.mem_cons_self).level]
    apply ih
    intro other member
    exact inert other (List.mem_cons_of_mem sign member)

theorem next_inert {reading : Reading} {more : List Sign} (inert : ∀ sign ∈ more, Inert sign)
    (shown : reading.current ≠ [] ∨ ∀ sign ∈ more, sign.blank = false) :
    more.foldl Reading.next reading = { reading with current := reading.current ++ more } := by
  induction more generalizing reading with
  | nil => simp
  | cons sign more ih =>
    have here : reading.current ≠ [] ∨ sign.blank = false := shown.imp_right fun all => all sign List.mem_cons_self
    have step := next_text ((inert sign List.mem_cons_self).text _) here
    rw [List.foldl_cons, step, ih (fun other member => inert other (List.mem_cons_of_mem sign member)) (Or.inl (by simp))]
    simp

end Signs

section States
variable {word : List Char}

/-- The reading once a slash that waits is known to open no comment. -/
def settledReading (state : State) : Reading :=
  match state.1 with
  | .slash => state.2.next (.code '/')
  | _ => state.2

theorem settled_eq {state : State} (noSlash : state.1 ≠ .slash) : settledReading state = state.2 := by
  obtain ⟨s, reading⟩ := state
  cases s with
  | slash => exact absurd rfl noSlash
  | _ => rfl

theorem settled_rested {state : State} (rested : calm state.1 = state.1) : settledReading state = state.2 := by
  apply settled_eq
  intro slash
  rw [slash] at rested
  cases rested

theorem settled_comment {state : State} (inside : state.1.inComment = true) : settledReading state = state.2 := by
  apply settled_eq
  intro slash
  rw [slash] at inside
  cases inside

def inString : Scan → Bool
  | .quoted _ | .escaped _ => true
  | _ => false

theorem settled_string {state : State} (string : inString state.1 = true) : settledReading state = state.2 := by
  apply settled_eq
  intro slash
  rw [slash] at string
  cases string

theorem inString_calm (s : Scan) : inString (calm s) = inString s := by cases s <;> rfl

theorem code_or_string {s : Scan} (outside : s.inComment = false) : calm s = .code ∨ inString s = true := by
  cases s with
  | code | slash => exact Or.inl rfl
  | quoted | escaped => exact Or.inr rfl
  | comment | star => cases outside

theorem read_code {state : State} (code : calm state.1 = .code) {c : Char} (noSlash : c ≠ '/') (noStar : c ≠ '*') :
    (readText state [some c]).2 = (settledReading state).next (.code c) := by
  obtain ⟨s, reading⟩ := state
  cases s with
  | code => simp [readText, signs, settledReading, noSlash]
  | slash => simp [readText, signs, settledReading, noSlash, noStar]
  | _ => cases code

theorem read_string {state : State} (string : inString state.1 = true) {c : Char} (noBreak : c ≠ '\n') :
    (readText state [some c]).2 = (settledReading state).next (.quoted c) := by
  obtain ⟨s, reading⟩ := state
  cases s with
  | quoted | escaped => simp [readText, signs, settledReading, noBreak]
  | _ => cases string

theorem readText_some (state : State) (c : Char) (text : List Char) :
    readText state (plain (c :: text)) = readText (readText state [some c]) (plain text) := rfl

/-- A string is always part of a selector. -/
structure Whole (state : State) : Prop where
  sound : Sound state.1
  string : inString state.1 = true → state.2.current ≠ []

theorem whole_code (reading : Reading) : Whole (.code, reading) := ⟨trivial, fun string => nomatch string⟩

theorem whole_comment (reading : Reading) : Whole (.comment, reading) := ⟨trivial, fun string => nomatch string⟩

theorem next_visible {reading : Reading} {sign : Sign} (text : ∀ opened, role opened sign = .text)
    (shown : reading.current ≠ [] ∨ sign.blank = false) : (reading.next sign).current ≠ [] := by
  rw [next_text (text _) shown]
  simp

theorem opens_string {s : Scan} {c : Char} (outside : inString s = false) (inside : inString (s.step c) = true) :
    (s = .code ∨ s = .slash) ∧ (c = '"' ∨ c = '\'') := by
  have inCode : inString (Scan.inCode c) = true → c = '"' ∨ c = '\'' := by
    intro opened
    unfold Scan.inCode at opened
    split at opened
    · cases opened
    · split at opened
      next quote => simpa using quote
      next => cases opened
  have inComment : inString (Scan.inCommentText c) = false := by
    unfold Scan.inCommentText
    split <;> rfl
  unfold Scan.step at inside
  split at inside
  · cases s <;> cases inside
  · cases s with
    | code => exact ⟨Or.inl rfl, inCode inside⟩
    | slash =>
      dsimp only at inside
      split at inside
      · cases inside
      · exact ⟨Or.inr rfl, inCode inside⟩
    | comment => exact absurd inside (by simp [inComment])
    | star =>
      dsimp only at inside
      split at inside
      · cases inside
      · exact absurd inside (by simp [inComment])
    | quoted quote | escaped quote => cases outside

theorem Whole.next {state : State} (whole : Whole state) (c : Char) : Whole (readText state [some c]) := by
  refine ⟨whole.sound.step c, fun inside => ?_⟩
  cases string : inString state.1 with
  | false =>
    obtain ⟨shape, quote⟩ := opens_string string inside
    have shown : ∀ reading : Reading, (reading.next (.code c)).current ≠ [] := by
      intro reading
      rcases quote with rfl | rfl <;> exact next_visible (inert_code (by decide)).text (Or.inr rfl)
    have code : calm state.1 = .code := by rcases shape with shape | shape <;> rw [shape] <;> rfl
    have noSlash : c ≠ '/' := by rcases quote with rfl | rfl <;> decide
    have noStar : c ≠ '*' := by rcases quote with rfl | rfl <;> decide
    rw [read_code code noSlash noStar]
    exact shown _
  | true =>
    have noBreak : c ≠ '\n' := by
      rintro rfl
      obtain ⟨s, reading⟩ := state
      cases s <;> simp [inString] at string <;> cases inside
    rw [read_string string noBreak, settled_string string]
    exact next_visible (inert_quoted c).text (Or.inl (whole.string string))

theorem Whole.read {state : State} (whole : Whole state) (text : List Char) : Whole (readText state (plain text)) := by
  induction text generalizing state with
  | nil => exact whole
  | cons c text ih => exact ih (whole.next c)

/-- What follows starts a selector or changes none. -/
structure Rests (word : List Char) (state : State) : Prop extends Whole state where
  rested : calm state.1 = state.1
  outside : state.1.inComment = false
  current : state.2.current = [] ∨ Firm word state.2.current

theorem Rests.settled {state : State} (rests : Rests word state) : settledReading state = state.2 :=
  settled_rested rests.rested

end States

section Idle
variable {word : List Char}

theorem agrees_breaks (class_word : PlainClass word) {reading : Reading} {sign : Sign} (visible : reading.current ≠ [])
    (breaks : Breaks sign) (text : role (brackets reading.current) sign = .text)
    (level : bracketsBehind (brackets reading.current) sign = brackets reading.current) :
    Agrees word reading (reading.next sign) ∧ Firm word (reading.next sign).current := by
  rw [next_text text (Or.inl visible)]
  refine ⟨agrees_append visible (keeps_of_breaks class_word visible breaks []) ?_,
    firm_of_breaks class_word visible breaks⟩
  rw [brackets_append]
  exact level

theorem agrees_blank (class_word : PlainClass word) (reading : Reading) {c : Char} (blank : Text.isBlank c = true) :
    Agrees word reading (reading.next (.code c)) ∧
      ((reading.next (.code c)).current = [] ∨ Firm word (reading.next (.code c)).current) := by
  have inert := inert_blank blank
  by_cases empty : reading.current = []
  · rw [next_blank (inert.text _) empty blank]
    exact ⟨Agrees.refl reading, Or.inl empty⟩
  · obtain ⟨agrees, firm⟩ := agrees_breaks class_word empty (breaks_blank blank) (inert.text _) (inert.level _)
    exact ⟨agrees, Or.inr firm⟩

theorem agrees_separator (class_word : PlainClass word) (reading : Reading) :
    Agrees word reading (reading.next (.code ',')) ∧
      ((reading.next (.code ',')).current = [] ∨ Firm word (reading.next (.code ',')).current) := by
  by_cases outside : brackets reading.current = []
  · have comma : role (brackets reading.current) (.code ',') = .comma := by simp [role, outside]
    rw [next_comma comma]
    exact ⟨agrees_comma outside, Or.inl rfl⟩
  · have visible : reading.current ≠ [] := fun empty => outside (by rw [empty]; rfl)
    have text : role (brackets reading.current) (.code ',') = .text := by simp [role, outside]
    obtain ⟨agrees, firm⟩ := agrees_breaks class_word visible ⟨rfl, by decide⟩ text rfl
    exact ⟨agrees, Or.inr firm⟩

theorem agrees_quoted (class_word : PlainClass word) {reading : Reading} (visible : reading.current ≠ []) (c : Char) :
    Agrees word reading (reading.next (.quoted c)) ∧ Firm word (reading.next (.quoted c)).current :=
  agrees_breaks class_word visible (breaks_quoted c) rfl rfl

/-- Blanks within a line, and commas. -/
def Idle (c : Char) : Prop := c = ',' ∨ Text.isBlank c = true ∧ c ≠ '\n'

theorem Idle.plain {c : Char} (idle : Idle c) : Plain c := by
  rcases idle with rfl | ⟨blank, noBreak⟩
  · exact plain_comma
  · exact plain_of_isBlank blank noBreak

theorem idle_space : Idle ' ' := Or.inr ⟨isBlank_space, by decide⟩

theorem agrees_idle (class_word : PlainClass word) (reading : Reading) {c : Char} (idle : Idle c) :
    Agrees word reading (reading.next (.code c)) ∧
      ((reading.next (.code c)).current = [] ∨ Firm word (reading.next (.code c)).current) := by
  rcases idle with rfl | ⟨blank, -⟩
  · exact agrees_separator class_word reading
  · exact agrees_blank class_word reading blank

/-- One reader may go on alone over a comma or a blank: it decides nothing. -/
theorem read_idle (class_word : PlainClass word) {state : State} (whole : Whole state)
    (outside : state.1.inComment = false) {c : Char} (idle : Idle c) :
    (readText state [some c]).1 = calm state.1 ∧ Rests word (readText state [some c]) ∧
      Agrees word (settledReading state) (readText state [some c]).2 := by
  have scan : (readText state [some c]).1 = calm state.1 := step_plain whole.sound idle.plain
  have rested : calm (readText state [some c]).1 = (readText state [some c]).1 := by rw [scan, calm_calm]
  have still_outside : (readText state [some c]).1.inComment = false := by rw [scan, calm_inComment, outside]
  refine ⟨scan, ?_⟩
  rcases code_or_string outside with code | string
  · obtain ⟨agrees, current⟩ := agrees_idle class_word (settledReading state) idle
    rw [← read_code code idle.plain.noSlash idle.plain.noStar] at agrees current
    exact ⟨⟨whole.next c, rested, still_outside, current⟩, agrees⟩
  · have visible : (settledReading state).current ≠ [] := by
      rw [settled_string string]
      exact whole.string string
    obtain ⟨agrees, firm⟩ := agrees_quoted class_word visible c
    rw [← read_string string idle.plain.noBreak] at agrees firm
    exact ⟨⟨whole.next c, rested, still_outside, Or.inr firm⟩, agrees⟩

theorem read_idles (class_word : PlainClass word) {state : State} (whole : Whole state)
    (outside : state.1.inComment = false) {text : List Char} (nonempty : text ≠ []) (idle : ∀ c ∈ text, Idle c) :
    (readText state (plain text)).1 = calm state.1 ∧ Rests word (readText state (plain text)) ∧
      Agrees word (settledReading state) (readText state (plain text)).2 := by
  induction text generalizing state with
  | nil => exact absurd rfl nonempty
  | cons c text ih =>
    obtain ⟨scan, rests, agrees⟩ := read_idle class_word whole outside (idle c List.mem_cons_self)
    have later : ∀ other ∈ text, Idle other := fun other member => idle other (List.mem_cons_of_mem c member)
    cases text with
    | nil => exact ⟨scan, rests, agrees⟩
    | cons next text =>
      obtain ⟨scan', rests', agrees'⟩ := ih rests.toWhole rests.outside (List.cons_ne_nil next text) later
      rw [readText_some]
      refine ⟨?_, rests', ?_⟩
      · rw [scan', scan, calm_calm]
      · rw [rests.settled] at agrees'
        exact agrees.trans agrees'

theorem read_idles_comment {state : State} (inside : state.1.inComment = true) {text : List Char}
    (idle : ∀ c ∈ text, Idle c) :
    (readText state (plain text)).2 = state.2 ∧ (readText state (plain text)).1.inComment = true := by
  induction text generalizing state with
  | nil => exact ⟨rfl, inside⟩
  | cons c text ih =>
    have sound : Sound state.1 := by cases shape : state.1 <;> simp [shape, Scan.inComment] at inside <;> trivial
    have scan : (readText state [some c]).1 = calm state.1 := step_plain sound (idle c List.mem_cons_self).plain
    have same : (readText state [some c]).2 = state.2 := by
      cases shape : state.1 <;> simp [shape, Scan.inComment] at inside <;> simp [readText, signs, shape]
    have inside' : (readText state [some c]).1.inComment = true := by rw [scan, calm_inComment, inside]
    rw [readText_some, ← same]
    apply ih inside'
    intro other member
    exact idle other (List.mem_cons_of_mem c member)

theorem scan_idles {state : State} (whole : Whole state) {text : List Char} (nonempty : text ≠ [])
    (idle : ∀ c ∈ text, Idle c) : (readText state (plain text)).1 = calm state.1 := by
  cases text with
  | nil => exact absurd rfl nonempty
  | cons c text =>
    have first : state.1.step c = calm state.1 := step_plain whole.sound (idle c List.mem_cons_self).plain
    have sound : Sound (calm state.1) := first ▸ whole.sound.step c
    rw [read_scan, after_cons, first]
    apply after_plain sound (calm_calm _)
    intro d member
    exact (idle d (List.mem_cons_of_mem c member)).plain

end Idle

section Names
variable {word : List Char}

structure NameText (text : List Char) : Prop where
  plain : ∀ c ∈ text, Plain c
  inert : ∀ c ∈ text, Inert (.code c)
  visible : ∀ c ∈ text, Text.isBlank c = false

theorem not_mem_of_name {c : Char} {special : List Char} (name : c = '.' ∨ c = ':' ∨ continuesName c = true)
    (others : ∀ d ∈ special, d ≠ '.' ∧ d ≠ ':' ∧ continuesName d = false) : c ∉ special := by
  intro member
  obtain ⟨noDot, noColon, noName⟩ := others c member
  rcases name with rfl | rfl | name
  · exact noDot rfl
  · exact noColon rfl
  · exact Bool.false_ne_true (noName.symm.trans name)

theorem nameText_of {text : List Char} (chars : ∀ c ∈ text, c = '.' ∨ c = ':' ∨ continuesName c = true) :
    NameText text := by
  refine ⟨fun c member => not_mem_of_name (chars c member) ?_, fun c member => ?_, fun c member => ?_⟩
  · simp [continuesName]
  · apply inert_code
    apply not_mem_of_name (chars c member)
    simp [continuesName]
  · rw [← Bool.not_eq_true]
    intro blank
    rcases chars c member with rfl | rfl | name
    · cases blank
    · cases blank
    · exact Bool.false_ne_true ((continuesName_of_isBlank blank).symm.trans name)

theorem nameText_word (class_word : PlainClass word) : NameText word :=
  nameText_of fun _ member => (plainClass_mem class_word member).imp_right Or.inr

theorem nameText_root {text : List Char} (root : text ∈ rootNames) : NameText text := by
  apply nameText_of
  simp only [rootNames, List.mem_cons, List.not_mem_nil, or_false] at root
  rcases root with rfl | rfl <;> simp [continuesName]

theorem nameText_lead (class_word : PlainClass word) {lead : List Char}
    (shape : (lead = word ∨ lead ∈ rootNames) ∨ lead = []) : NameText lead := by
  rcases shape with (rfl | root) | rfl
  · exact nameText_word class_word
  · exact nameText_root root
  · exact ⟨by simp, by simp, by simp⟩

theorem read_plain {s : Scan} (sound : Sound s) (rested : calm s = s) (reading : Reading) {text : List Char}
    (harmless : ∀ c ∈ text, Plain c) :
    readText (s, reading) (plain text) = (s, (text.flatMap (signs s)).foldl Reading.next reading) := by
  induction text generalizing reading with
  | nil => rfl
  | cons c text ih =>
    have step : s.step c = s := (step_plain sound (harmless c List.mem_cons_self)).trans rested
    rw [read_cons, step, ih _ fun other member => harmless other (List.mem_cons_of_mem c member), List.flatMap_cons,
      List.foldl_append]

theorem signs_code {text : List Char} (harmless : ∀ c ∈ text, Plain c) :
    text.flatMap (signs .code) = text.map .code := by
  induction text with
  | nil => rfl
  | cons c text ih =>
    have noSlash := (harmless c List.mem_cons_self).noSlash
    rw [List.flatMap_cons, ih fun other member => harmless other (List.mem_cons_of_mem c member)]
    simp [signs, noSlash]

theorem signs_quoted (quote : Char) {text : List Char} (harmless : ∀ c ∈ text, Plain c) :
    text.flatMap (signs (.quoted quote)) = text.map .quoted := by
  induction text with
  | nil => rfl
  | cons c text ih =>
    have noBreak := (harmless c List.mem_cons_self).noBreak
    rw [List.flatMap_cons, ih fun other member => harmless other (List.mem_cons_of_mem c member)]
    simp [signs, noBreak]

theorem signs_comment (text : List Char) : text.flatMap (signs .comment) = [] := by
  simp [signs]

theorem firm_inert {reading : Reading} (firm : Firm word reading.current) {more : List Sign}
    (inert : ∀ sign ∈ more, Inert sign) :
    Agrees word reading (more.foldl Reading.next reading) ∧ Firm word (more.foldl Reading.next reading).current := by
  rw [next_inert inert (Or.inl firm.visible)]
  exact ⟨agrees_append firm.visible (firm.keeps more) (brackets_inert inert), firm.append more⟩

theorem inert_signs {s : Scan} (rested : calm s = s) {text : List Char} (name : NameText text) :
    ∀ sign ∈ text.flatMap (signs s), Inert sign := by
  cases s with
  | code =>
    rw [signs_code name.plain]
    intro sign member
    obtain ⟨c, inside, rfl⟩ := List.mem_map.mp member
    exact name.inert c inside
  | quoted quote =>
    rw [signs_quoted quote name.plain]
    intro sign member
    obtain ⟨c, inside, rfl⟩ := List.mem_map.mp member
    exact inert_quoted c
  | comment => simp [signs_comment]
  | _ => cases rested

theorem read_mark {s : Scan} {reading : Reading} (rests : Rests word (s, reading)) {text : List Char}
    (name : NameText text) : ∃ next,
      readText (s, reading) (none :: plain text) = (s, next) ∧ Agrees word reading next ∧ Firm word next.current := by
  have outside : s.inComment = false := rests.outside
  have marked : Agrees word reading (reading.next .mark) ∧ Firm word (reading.next .mark).current := by
    rw [next_text (inert_mark.text _) (Or.inr rfl)]
    rcases rests.current with empty | firm
    · refine ⟨agrees_start empty (Or.inl rfl) rfl rfl, ?_⟩
      rw [show reading.current = [] from empty]
      exact firm_mark word
    · exact ⟨agrees_append firm.visible (firm.keeps _) (brackets_inert (by simpa using inert_mark)), firm.append _⟩
  obtain ⟨agrees, firm⟩ := firm_inert marked.2 (inert_signs rests.rested name)
  refine ⟨_, ?_, marked.1.trans agrees, firm⟩
  rw [← read_plain rests.sound rests.rested _ name.plain]
  simp [readText, outside]

/-- The scope decides a selector that starts with it, and changes no other. -/
theorem read_scope (class_word : PlainClass word) {s : Scan} {reading : Reading} (rests : Rests word (s, reading)) :
    ∃ next, readText (s, reading) (plain word) = (s, next) ∧ Agrees word reading next ∧ Poised word next.current := by
  have name := nameText_word class_word
  refine ⟨_, read_plain rests.sound rests.rested reading name.plain, ?_⟩
  rcases rests.current with empty | firm
  · cases s with
    | code =>
      have inert := inert_signs (s := .code) rfl name
      rw [signs_code name.plain] at inert ⊢
      have visible : ∀ sign ∈ word.map Sign.code, sign.blank = false := by
        intro sign member
        obtain ⟨c, inside, rfl⟩ := List.mem_map.mp member
        exact name.visible c inside
      have level : brackets (word.map Sign.code) = [] := @brackets_inert [] _ inert
      rw [next_inert inert (Or.inr visible)]
      refine ⟨agrees_start empty (settled_word word) ?_ level, ?_⟩
      · obtain ⟨rest, rfl, -, -⟩ := class_word
        rfl
      · rw [show reading.current = [] from empty]
        exact poised_word class_word
    | quoted quote => exact absurd empty (rests.string rfl)
    | comment => cases rests.outside
    | _ => cases rests.rested
  · obtain ⟨agrees, firm⟩ := firm_inert firm (inert_signs rests.rested name)
    exact ⟨agrees, firm.poised⟩

theorem read_space {s : Scan} {reading : Reading} (poised : Poised word reading.current) (sound : Sound s)
    (rested : calm s = s) (outside : s.inComment = false) :
    ∃ next, readText (s, reading) (plain [' ']) = (s, next) ∧ Agrees word reading next ∧ Firm word next.current := by
  have space : ∃ sign, signs s ' ' = [sign] ∧ Inert sign ∧ sign.continuesName = false := by
    cases s with
    | code => exact ⟨.code ' ', rfl, inert_blank isBlank_space, continuesName_of_isBlank isBlank_space⟩
    | quoted quote => exact ⟨.quoted ' ', rfl, inert_quoted ' ', rfl⟩
    | comment => cases outside
    | _ => cases rested
  obtain ⟨sign, shown, inert, noName⟩ := space
  have step : s.step ' ' = s := (step_plain sound plain_space).trans rested
  refine ⟨reading.next sign, ?_, ?_⟩
  · rw [read_cons, step, shown]
    rfl
  · rw [next_text (inert.text _) (Or.inl poised.visible)]
    exact ⟨agrees_append poised.visible (poised.keeps sign noName) (brackets_inert (by simpa using inert)),
      poised.firm sign noName⟩

end Names

section Parted
variable {word : List Char}

/-- Behind a comma no selector has started, unless the comma belongs to one. -/
def Parted (state : State) : Prop :=
  inString state.1 = false → brackets state.2.current = [] → state.2.current = [] ∧ state.2.earlier ≠ []

theorem parted_next {reading : Reading} {c : Char} (idle : Idle c)
    (parted : c = ',' ∨ (brackets reading.current = [] → reading.current = [] ∧ reading.earlier ≠ []))
    (closed : brackets (reading.next (.code c)).current = []) :
    (reading.next (.code c)).current = [] ∧ (reading.next (.code c)).earlier ≠ [] := by
  by_cases level : brackets reading.current = []
  · rcases idle with rfl | ⟨blank, -⟩
    · rw [next_comma (by simp [role, level])]
      exact ⟨rfl, by simp [nextSelector, Reading.selectors]⟩
    · have other : c ≠ ',' := ne_of_blank rfl blank
      obtain ⟨empty, earlier⟩ := parted.resolve_left other level
      rw [next_blank ((inert_blank blank).text _) empty blank]
      exact ⟨empty, earlier⟩
  · have visible : reading.current ≠ [] := fun empty => level (by rw [empty]; rfl)
    have inside : role (brackets reading.current) (.code c) = .text ∧
        bracketsBehind (brackets reading.current) (.code c) = brackets reading.current := by
      rcases idle with rfl | ⟨blank, -⟩
      · exact ⟨by simp [role, level], rfl⟩
      · exact ⟨(inert_blank blank).text _, (inert_blank blank).level _⟩
    rw [next_text inside.1 (Or.inl visible), brackets_append] at closed
    exact absurd (inside.2.symm.trans closed) level

theorem parted_idle {state : State} (whole : Whole state) (outside : state.1.inComment = false) {c : Char}
    (idle : Idle c) (parted : c = ',' ∨ calm state.1 = state.1 ∧ Parted state) : Parted (readText state [some c]) := by
  intro noString closed
  have scan : (readText state [some c]).1 = calm state.1 := step_plain whole.sound idle.plain
  rw [scan, inString_calm] at noString
  have code : calm state.1 = .code := by
    refine (code_or_string outside).resolve_right fun string => ?_
    exact Bool.false_ne_true (noString.symm.trans string)
  rw [read_code code idle.plain.noSlash idle.plain.noStar] at closed ⊢
  refine parted_next idle (parted.imp_right ?_) closed
  rintro ⟨rested, before⟩
  rw [settled_rested rested]
  exact before noString

theorem parted_idles (class_word : PlainClass word) {state : State} (whole : Whole state)
    (outside : state.1.inComment = false) {more : List Char} (idle : ∀ c ∈ more, Idle c) :
    Parted (readText state (plain (',' :: more))) := by
  have onward : ∀ {state : State} {text : List Char}, Rests word state → Parted state → (∀ c ∈ text, Idle c) →
      Parted (readText state (plain text)) := by
    intro state text
    induction text generalizing state with
    | nil => exact fun _ parted _ => parted
    | cons c text ih =>
      intro rests parted idle
      have here := idle c List.mem_cons_self
      obtain ⟨-, next, -⟩ := read_idle class_word rests.toWhole rests.outside here
      exact ih next (parted_idle rests.toWhole rests.outside here (Or.inr ⟨rests.rested, parted⟩))
        (fun d member => idle d (List.mem_cons_of_mem c member))
  obtain ⟨-, rests, -⟩ := read_idle class_word whole outside (Or.inl rfl)
  rw [readText_some]
  exact onward rests (parted_idle whole outside (Or.inl rfl) (Or.inl rfl)) idle

theorem alike_of_parted {first second : State} (same : first.1 = second.1) (rests : Rests word first)
    (rests' : Rests word second) (agrees : Agrees word first.2 second.2) (parted : Parted first) (parted' : Parted second) :
    Alike word first.2 second.2 := by
  refine ⟨agrees, ?_⟩
  by_cases started : first.2.current ≠ [] ∧ second.2.current ≠ []
  · exact Or.inr ⟨rests.current.resolve_left started.1, rests'.current.resolve_left started.2⟩
  · have code : inString first.1 = false := by
      rw [← Bool.not_eq_true]
      exact fun inside => started ⟨rests.string inside, rests'.string (same ▸ inside)⟩
    have closed : brackets first.2.current = [] := by
      rcases Classical.not_and_iff_not_or_not.mp started with empty | empty
      · rw [Classical.not_not.mp empty]
        rfl
      · rw [agrees.level, Classical.not_not.mp empty]
        rfl
    obtain ⟨empty, earlier⟩ := parted code closed
    obtain ⟨empty', earlier'⟩ := parted' (same ▸ code) (agrees.level ▸ closed)
    have prelude := agrees.prelude
    rw [allSettled_selectors, allSettled_selectors] at prelude
    refine Or.inl ⟨empty.trans empty'.symm, ?_, iff_of_false earlier earlier'⟩
    simpa [empty, empty'] using prelude

end Parted

end VideoPage.Proofs.MarkedReading
