import VideoPage.Proofs.CssSyntax
import VideoPage.Proofs.ListReading

/-! The commas that separate selectors, as opposed to those in strings, comments and brackets.
Splitting a list at every comma takes some selectors apart. Under the scope their parts are
put together again with a comma and a blank, so the list comes out right where each such
comma was written that way and its right-hand side starts with the scope. -/

namespace VideoPage.Proofs.SelectorSeparators
open Stylesheet Selector CssSyntax TextBlanks SheetScan SelectorLists ListReading

/-- What a list has open at a place. -/
structure Nesting where
  scan : Scan := .code
  /-- The round and square brackets that are open in its code, innermost first. -/
  brackets : List Char := []

namespace Nesting

def step (n : Nesting) (c : Char) : Nesting where
  scan := n.scan.step c
  brackets := if calm n.scan = .code then bracketsAfter n.brackets c else n.brackets

def read (n : Nesting) (text : List Char) : Nesting := text.foldl step n

/-- A comma at this place separates two selectors. -/
def Separates (n : Nesting) : Prop := calm n.scan = .code ∧ n.brackets = []

instance (n : Nesting) : Decidable n.Separates := inferInstanceAs (Decidable (_ ∧ _))

/-- Splits a list at the commas that separate selectors. -/
def split (n : Nesting) : List Char → List (List Char)
  | [] => [[]]
  | c :: rest =>
    if c = ',' ∧ n.Separates then [] :: (n.step c).split rest
    else ((n.step c).split rest).modifyHead (c :: ·)

end Nesting

/-- The list that has each separate selector under the scope. -/
def separatedUnder (scope text : List Char) : List Char :=
  [',', ' '].intercalate ((selectors (Nesting.split {} text)).map (under scope))

/-- Text that stays as it is when it is taken for the next selector of a list. -/
def StartsUnder (scope text : List Char) : Prop := ∃ rest, text = ' ' :: rest ∧ (dropWord? scope rest).isSome = true

/-- Every comma that separates no selectors stands right behind visible text and is followed by
text that stays as it is. -/
def KeepsCommas (n : Nesting) (scope text : List Char) : Prop :=
  ∀ front back, text = front ++ ',' :: back → ¬ (n.read front).Separates →
    (∀ c ∈ front.getLast?, Text.isBlank c = false) ∧ StartsUnder scope back

section Splitting

theorem split_eq_splitOn {n : Nesting} {text : List Char}
    (separates : ∀ front back, text = front ++ ',' :: back → (n.read front).Separates) :
    n.split text = text.splitOn ',' := by
  induction text generalizing n with
  | nil => rfl
  | cons c text ih =>
    have rest : (n.step c).split text = text.splitOn ',' :=
      ih fun front back cut => separates (c :: front) back (by rw [cut, List.cons_append])
    rw [Nesting.split, rest, List.splitOn_cons_eq_if_modifyHead]
    by_cases comma : c = ','
    · have here : n.Separates := separates [] text (by rw [comma, List.nil_append])
      simp [comma, here]
    · simp [comma]

theorem split_append {n : Nesting} {part : List Char} (noComma : ',' ∉ part) (rest : List Char) :
    n.split (part ++ rest) = ((n.read part).split rest).modifyHead (part ++ ·) := by
  induction part generalizing n with
  | nil =>
    change n.split rest = (n.split rest).modifyHead ([] ++ ·)
    cases n.split rest <;> rfl
  | cons c part ih =>
    have other : c ≠ ',' := fun same => noComma (same ▸ List.mem_cons_self)
    rw [List.cons_append, Nesting.split, if_neg fun both => other both.1,
      ih fun member => noComma (List.mem_cons_of_mem c member), Nesting.read, Nesting.read, List.foldl_cons]
    cases ((List.foldl Nesting.step (n.step c) part).split rest) <;> rfl

/-- The places behind the first one, each with whether the comma in front of it separates. The
nesting is the one behind the place before. -/
def placesBehind (n : Nesting) : List (List Char) → List (Bool × List Char)
  | [] => []
  | next :: rest => (decide n.Separates, next) :: placesBehind ((n.step ',').read next) rest

/-- Puts places together again where the comma between them does not separate. -/
def joined (first : List Char) : List (Bool × List Char) → List (List Char)
  | [] => [first]
  | (true, next) :: rest => first :: joined next rest
  | (false, next) :: rest => joined (first ++ ',' :: next) rest

theorem joined_append (lead first : List Char) (places : List (Bool × List Char)) :
    joined (lead ++ first) places = (joined first places).modifyHead (lead ++ ·) := by
  induction places generalizing first with
  | nil => rfl
  | cons place places ih =>
    obtain ⟨separates, next⟩ := place
    cases separates with
    | true => rfl
    | false => rw [joined, joined, List.append_assoc, ih]

theorem split_intercalate {n : Nesting} {first : List Char} {rest : List (List Char)}
    (noComma : ∀ part ∈ first :: rest, ',' ∉ part) :
    n.split ([','].intercalate (first :: rest)) = joined first (placesBehind (n.read first) rest) := by
  induction rest generalizing n first with
  | nil =>
    have split := split_append (n := n) (noComma first List.mem_cons_self) []
    simpa [Nesting.split, joined, placesBehind] using split
  | cons next rest ih =>
    have later := @ih ((n.read first).step ',') next fun part member => noComma part (List.mem_cons_of_mem first member)
    rw [List.intercalate_cons_cons, List.append_assoc, List.singleton_append, split_append (noComma first List.mem_cons_self),
      Nesting.split, later, placesBehind]
    by_cases separates : (n.read first).Separates
    · simp [separates, joined]
    · have append := joined_append (first ++ [',']) next (placesBehind (((n.read first).step ',').read next) rest)
      rw [List.append_assoc, List.singleton_append] at append
      simp [separates, joined, append, Function.comp_def]

end Splitting

section Parted

theorem separates_step {n : Nesting} {c : Char} (separates : n.Separates) (quiet : c = ',' ∨ Text.isBlank c = true) :
    (n.step c).Separates := by
  obtain ⟨code, none⟩ := separates
  have other : ∀ d ∈ ['/', '*', '"', '\'', '(', '[', ')', ']'], c ≠ d := by
    rintro d special rfl
    rcases quiet with rfl | blank
    · simp at special
    · exact not_mem_of_blank (by simp [Text.isBlank, Text.blankRanges]) blank special
  simp only [List.forall_mem_cons] at other
  obtain ⟨noSlash, noStar, noQuote, noTick, noRound, noSquare, noRound', noSquare', -⟩ := other
  constructor
  · cases scan : n.scan <;> simp [scan, calm] at code <;> by_cases lineBreak : c = '\n' <;>
      simp [Nesting.step, scan, Scan.step, lineBreak, Scan.inCode, Scan.newline, Scan.inComment, Scan.atLineStart,
        noSlash, noStar, noQuote, noTick, calm]
  · simp [Nesting.step, bracketsAfter, none, noRound, noSquare, noRound', noSquare']

theorem separates_read {n : Nesting} {text : List Char} (separates : n.Separates) (blank : Blank text) :
    (n.read text).Separates := by
  induction text generalizing n with
  | nil => exact separates
  | cons c text ih =>
    apply ih (separates_step separates (Or.inr (blank c List.mem_cons_self)))
    exact fun d member => blank d (List.mem_cons_of_mem c member)

/-- A comma that does not separate comes after something visible of the same selector. -/
def Parted (first : List Char) : List (Bool × List Char) → Prop
  | [] => True
  | (true, next) :: rest => Parted next rest
  | (false, next) :: rest => ¬ Blank first ∧ Parted (first ++ ',' :: next) rest

theorem parted_placesBehind {n : Nesting} {first : List Char} (start : Blank first → n.Separates)
    (rest : List (List Char)) : Parted first (placesBehind n rest) := by
  induction rest generalizing n first with
  | nil => trivial
  | cons next rest ih =>
    rw [placesBehind]
    by_cases separates : n.Separates
    · rw [decide_eq_true separates]
      exact ih fun blank => separates_read (separates_step separates (Or.inl rfl)) blank
    · rw [decide_eq_false separates]
      refine ⟨fun blank => separates (start blank), ih fun blank => ?_⟩
      exact absurd (show ',' ∈ first ++ ',' :: next by simp) (blank.not_mem rfl)

end Parted

section Appending
variable {scope word selector blanks rest more : List Char}

theorem endsName_behind (blank : Blank blanks) (rest : List Char) : EndsName (blanks ++ ',' :: rest) := by
  cases blanks with
  | nil => simp [EndsName, continuesName]
  | cons c blanks => simpa [EndsName] using continuesName_of_isBlank (blank c List.mem_cons_self)

theorem endsName_append (ends : EndsName more) : EndsName (rest ++ more) ↔ EndsName rest := by
  cases rest with
  | nil => simp [ends, endsName_nil]
  | cons c rest => simp [EndsName]

def EndsVisible (text : List Char) : Prop := ∃ init last, text = init ++ [last] ∧ Text.isBlank last = false

theorem blank_end {core tail : List Char} (visible : EndsVisible (core ++ tail)) (blank : Blank tail) : tail = [] := by
  rcases List.eq_nil_or_concat tail with none | ⟨init, last, rfl⟩
  · exact none
  · obtain ⟨front, final, ends, visible⟩ := visible
    rw [List.concat_eq_append, ← List.append_assoc] at ends
    obtain ⟨-, rfl⟩ := List.append_singleton_inj.mp ends
    exact absurd (blank last (by simp)) (by simp [visible])

/-- A word that a text starts with ends before the blanks in front of the next comma. -/
theorem word_before_comma (visible : EndsVisible word) (noComma : ',' ∉ word) (blank : Blank blanks)
    (same : word ++ rest = selector ++ (blanks ++ ',' :: more)) :
    ∃ tail, selector = word ++ tail ∧ rest = tail ++ (blanks ++ ',' :: more) := by
  rcases List.append_eq_append_iff.mp same with ⟨tail, whole, later⟩ | ⟨tail, whole, later⟩
  · exact ⟨tail, whole, later⟩
  · have quiet : Blank tail := by
      rcases List.append_eq_append_iff.mp later with ⟨back, inside, comma⟩ | ⟨back, inside, -⟩
      · cases back with
        | nil => rwa [inside, List.append_nil]
        | cons c back =>
          obtain rfl : ',' = c := (List.cons.inj comma).1
          exact absurd (by simp [whole, inside]) noComma
      · exact fun c member => blank c (inside ▸ List.mem_append_left back member)
    obtain rfl := blank_end (whole ▸ visible) quiet
    exact ⟨[], by simpa using whole.symm, by simpa using later.symm⟩

theorem dropWord?_behind (solid : Solid word) (noComma : ',' ∉ word) (blank : Blank blanks) :
    dropWord? word (selector ++ (blanks ++ ',' :: more)) =
      (dropWord? word selector).map (· ++ (blanks ++ ',' :: more)) := by
  have ends := endsName_behind blank more
  cases found : dropWord? word selector with
  | some tail =>
    obtain ⟨rfl, complete⟩ := dropWord?_eq_some found
    rw [List.append_assoc, dropWord?_append ((endsName_append ends).mpr complete)]
    rfl
  | none =>
    rw [Option.map_none, Option.eq_none_iff_forall_ne_some]
    intro rest found'
    obtain ⟨same, complete⟩ := dropWord?_eq_some found'
    obtain ⟨tail, rfl, rfl⟩ := word_before_comma solid.ends noComma blank same.symm
    rw [dropWord?_append ((endsName_append ends).mp complete)] at found
    cases found

/-- Only the start of a selector decides how it goes under the scope. -/
theorem under_behind (name : Solid scope) (noComma : ',' ∉ scope) (blank : Blank blanks) :
    under scope (selector ++ (blanks ++ ',' :: more)) = under scope selector ++ (blanks ++ ',' :: more) := by
  have colon : Solid ":root".toList := ⟨⟨':', _, rfl, rfl⟩, ⟨[':', 'r', 'o', 'o'], 't', rfl, rfl⟩⟩
  have body : Solid "body".toList := ⟨⟨'b', _, rfl, rfl⟩, ⟨['b', 'o', 'd'], 'y', rfl, rfl⟩⟩
  have roots : rootNames.findSome? (dropWord? · (selector ++ (blanks ++ ',' :: more))) =
      (rootNames.findSome? (dropWord? · selector)).map (· ++ (blanks ++ ',' :: more)) := by
    simp only [rootNames, List.findSome?_cons, List.findSome?_nil, dropWord?_behind colon (by decide) blank,
      dropWord?_behind body (by decide) blank]
    cases dropWord? ":root".toList selector with
    | some rest => rfl
    | none => cases dropWord? "body".toList selector <;> rfl
  rw [under, under, dropWord?_behind name noComma blank, Option.isSome_map, roots]
  split
  · rfl
  · cases rootNames.findSome? (dropWord? · selector) <;> simp

end Appending

section Comparison
variable {scope text : List Char}

/-- A place of a list that comes out, with the comma that is put in front of it. -/
def placeUnder (scope part : List Char) : List Char :=
  if (Text.trim part).isEmpty then [] else ',' :: ' ' :: under scope (Text.trim part)

/-- What comes out for places when each of them is taken for a selector. -/
def placesUnder (scope : List Char) : List (Bool × List Char) → List Char
  | [] => []
  | (_, part) :: rest => placeUnder scope part ++ placesUnder scope rest

/-- What comes out when only some commas separate. The blanks at the end of a place stay where
the selector goes on. -/
def joinedUnder (scope : List Char) (ending : List Char) : List (Bool × List Char) → List Char
  | [] => []
  | (true, part) :: rest => placeUnder scope part ++ joinedUnder scope (Text.ending part) rest
  | (false, part) :: rest => ending ++ ',' :: Text.trimEnd part ++ joinedUnder scope (Text.ending part) rest

/-- Where the two agree. -/
def Kept (scope : List Char) (ending : List Char) : List (Bool × List Char) → Prop
  | [] => True
  | (true, part) :: rest => Kept scope (Text.ending part) rest
  | (false, part) :: rest => ending = [] ∧ StartsUnder scope part ∧ Kept scope (Text.ending part) rest

/-- Selectors behind another one, each with its comma. -/
def following (selectors : List (List Char)) : List Char := selectors.flatMap ([',', ' '] ++ ·)

theorem following_cons (scope part : List Char) (parts : List (List Char)) :
    following ((selectors (part :: parts)).map (under scope)) =
      placeUnder scope part ++ following ((selectors parts).map (under scope)) := by
  rw [selectors_cons, placeUnder]
  split <;> simp [following]

theorem following_selectors (scope : List Char) (places : List (Bool × List Char)) :
    following ((selectors (places.map Prod.snd)).map (under scope)) = placesUnder scope places := by
  induction places with
  | nil => rfl
  | cons place places ih =>
    rw [List.map_cons, following_cons, ih]
    rfl

theorem trimEnd_visible {part : List Char} (visible : ¬ Blank part) :
    Text.trimEnd part = Text.indentation part ++ Text.trim part := by
  have halves := (trimEnd_append_ending part).trans (around_trim visible).symm
  exact List.append_cancel_right halves

theorem solid_comma_trimEnd (part : List Char) : Solid (',' :: Text.trimEnd part) := by
  by_cases blank : Blank part
  · have none : Text.trimEnd part = [] := by
      rw [Text.trimEnd, List.dropWhile_eq_nil_iff.mpr blank.reverse]
      rfl
    rw [none]
    exact solid_comma
  · rw [trimEnd_visible blank]
    exact solid_comma.around (solid_trim blank) (Text.indentation part)

/-- A comma is visible, so only the blanks behind it end a text that goes on after it. -/
theorem append_comma (first part : List Char) :
    first ++ ',' :: part = first ++ (',' :: Text.trimEnd part) ++ Text.ending part := by
  conv => lhs; rw [← trimEnd_append_ending part]
  simp

theorem ending_append_comma (first part : List Char) : Text.ending (first ++ ',' :: part) = Text.ending part := by
  rw [append_comma]
  exact ending_around (ending_blank part) (solid_comma_trimEnd part)

theorem trim_append_comma {first : List Char} (visible : ¬ Blank first) (part : List Char) :
    Text.trim (first ++ ',' :: part) = Text.trim first ++ (Text.ending first ++ ',' :: Text.trimEnd part) := by
  have solid := (solid_trim visible).around (solid_comma_trimEnd part) (Text.ending first)
  have whole : first ++ ',' :: part = Text.indentation first ++
      (Text.trim first ++ Text.ending first ++ (',' :: Text.trimEnd part)) ++ Text.ending part := by
    rw [append_comma]
    conv => lhs; rw [← around_trim visible]
    simp
  rw [whole, trim_around (indentation_blank first) solid (ending_blank part), List.append_assoc]

theorem placeUnder_blank {part : List Char} (blank : Blank part) : placeUnder scope part = [] := by
  rw [placeUnder, blank.trim_eq]
  rfl

theorem placeUnder_visible {part : List Char} (visible : ¬ Blank part) :
    placeUnder scope part = ',' :: ' ' :: under scope (Text.trim part) := by
  rw [placeUnder, if_neg (fun empty => visible ((isEmpty_trim_iff part).mp empty))]

theorem following_joined (name : Solid scope) (noComma : ',' ∉ scope) {first : List Char}
    {places : List (Bool × List Char)} (parted : Parted first places) :
    following ((selectors (joined first places)).map (under scope)) =
      placeUnder scope first ++ joinedUnder scope (Text.ending first) places := by
  induction places generalizing first with
  | nil => exact following_selectors scope [(true, first)]
  | cons place places ih =>
    obtain ⟨separates, part⟩ := place
    cases separates with
    | true =>
      rw [joined, following_cons, ih parted, joinedUnder]
    | false =>
      obtain ⟨visible, parted⟩ := parted
      have visible' : ¬ Blank (first ++ ',' :: part) :=
        fun blank => absurd (show ',' ∈ first ++ ',' :: part by simp) (blank.not_mem rfl)
      rw [joined, ih parted, placeUnder_visible visible, placeUnder_visible visible', trim_append_comma visible,
        under_behind name noComma (ending_blank first), ending_append_comma, joinedUnder]
      simp

/-- Behind what has come out there is nothing, or a comma, a blank and the scope. -/
theorem placesUnder_starts (scope : List Char) (places : List (Bool × List Char)) :
    placesUnder scope places = [] ∨ ∃ rest, placesUnder scope places = ',' :: ' ' :: (scope ++ rest) := by
  induction places with
  | nil => exact Or.inl rfl
  | cons place places ih =>
    obtain ⟨separates, part⟩ := place
    by_cases blank : Blank part
    · rw [placesUnder, placeUnder_blank blank, List.nil_append]
      exact ih
    · obtain ⟨rest, shape⟩ := scope_prefix_under scope (Text.trim part)
      rw [placesUnder, placeUnder_visible blank, shape]
      exact Or.inr ⟨rest ++ placesUnder scope places, by simp⟩

theorem joinedUnder_starts (scope : List Char) {ending : List Char} (blank : Blank ending)
    (places : List (Bool × List Char)) :
    joinedUnder scope ending places = [] ∨
      ∃ blanks rest, joinedUnder scope ending places = blanks ++ ',' :: rest ∧ Blank blanks := by
  induction places generalizing ending with
  | nil => exact Or.inl rfl
  | cons place places ih =>
    obtain ⟨separates, part⟩ := place
    cases separates with
    | false => exact Or.inr ⟨ending, _, by rw [joinedUnder, List.append_assoc, List.cons_append], blank⟩
    | true =>
      by_cases empty : Blank part
      · rw [joinedUnder, placeUnder_blank empty, List.nil_append]
        exact ih (ending_blank part)
      · rw [joinedUnder, placeUnder_visible empty]
        exact Or.inr ⟨[], _, rfl, Blank.nil⟩

theorem endsName_of_append {first second : List Char} (ends : EndsName (first ++ second)) : EndsName first := by
  cases first with
  | nil => exact endsName_nil
  | cons c first => exact ends

theorem endsName_blanks {blanks : List Char} (blank : Blank blanks) : EndsName blanks :=
  fun c member => continuesName_of_isBlank (blank c (List.mem_of_mem_head? member))

theorem under_endsName (scope selector : List Char) :
    ∃ rest, under scope selector = scope ++ rest ∧ EndsName rest := by
  obtain ⟨word, rest, -, ⟨-, complete, under_eq⟩ | ⟨-, under_eq⟩⟩ := under_shape scope selector
  · exact ⟨rest, under_eq, complete⟩
  · exact ⟨' ' :: rest, under_eq, endsName_blank rest⟩

theorem endsName_placesUnder (scope : List Char) (places : List (Bool × List Char)) : EndsName (placesUnder scope places) := by
  rcases placesUnder_starts scope places with none | ⟨more, shape⟩
  · rw [none]
    exact endsName_nil
  · rw [shape]
    exact endsName_behind Blank.nil _

/-- A place that starts with a blank and the scope has no other blank in front. -/
theorem place_with_scope (name : Solid scope) (rest : List Char) :
    ¬ Blank (' ' :: (scope ++ rest)) ∧
      Text.trimEnd (' ' :: (scope ++ rest)) = ' ' :: Text.trim (' ' :: (scope ++ rest)) := by
  have visible : ¬ Blank (' ' :: (scope ++ rest)) := by
    intro blank
    apply name.not_blank
    intro c member
    exact blank c (List.mem_cons_of_mem _ (List.mem_append_left rest member))
  have indentation : Text.indentation ([' '] ++ scope ++ rest) = [' '] := indentation_around Blank.space name
  rw [List.append_assoc, List.singleton_append] at indentation
  rw [trimEnd_visible visible, indentation]
  exact ⟨visible, rfl⟩

/-- Such a place comes out as it is when the name of the scope ends there. -/
theorem placeUnder_of_startsUnder (name : Solid scope) {part : List Char} (starts : StartsUnder scope part) :
    placeUnder scope part = ',' :: Text.trimEnd part := by
  obtain ⟨rest, rfl, found⟩ := starts
  obtain ⟨tail, found⟩ := Option.isSome_iff_exists.mp found
  obtain ⟨rfl, complete⟩ := dropWord?_eq_some found
  obtain ⟨visible, trimEnd⟩ := place_with_scope name tail
  obtain ⟨core, ⟨more, rfl⟩, trimmed⟩ := trim_starts Blank.space name tail
  rw [List.append_assoc, List.singleton_append] at trimmed
  rw [placeUnder_visible visible, trimEnd, trimmed, under_append (endsName_of_append complete)]

theorem scope_in_place (name : Solid scope) (noComma : ',' ∉ scope) {part more behind : List Char}
    (comma : behind = [] ∨ ∃ blanks rest, behind = blanks ++ ',' :: rest ∧ Blank blanks)
    (same : ' ' :: (scope ++ more) = Text.trimEnd part ++ behind) :
    ∃ rest, Text.trimEnd part = ' ' :: (scope ++ rest) ∧ more = rest ++ behind := by
  rcases comma with rfl | ⟨blanks, rest, rfl, blank⟩
  · exact ⟨more, by simpa using same.symm, by simp⟩
  · obtain ⟨init, last, ends, visible⟩ := name.ends
    have ends : EndsVisible (' ' :: scope) := ⟨' ' :: init, last, by rw [ends, List.cons_append], visible⟩
    obtain ⟨tail, whole, rfl⟩ := word_before_comma ends (by simpa using noComma) blank same
    exact ⟨tail, whole, rfl⟩

/-- Where a place came out as it was, it is a selector that has the scope already. -/
theorem startsUnder_of_eq (name : Solid scope) (noComma : ',' ∉ scope) {ending part : List Char} (blank : Blank ending)
    {places : List (Bool × List Char)}
    (same : placesUnder scope ((false, part) :: places) = joinedUnder scope ending ((false, part) :: places)) :
    ending = [] ∧ StartsUnder scope part := by
  have behind := joinedUnder_starts scope (ending_blank part) places
  rcases placesUnder_starts scope ((false, part) :: places) with none | ⟨more, shape⟩
  · simp [none, joinedUnder] at same
  · -- What comes out starts with the comma, so no blank is in front of it.
    obtain rfl : ending = [] := by
      cases ending with
      | nil => rfl
      | cons c ending =>
        rw [shape, joinedUnder] at same
        obtain rfl : ',' = c := (List.cons.inj same).1
        exact absurd (blank ',' List.mem_cons_self) (by decide)
    refine ⟨rfl, ?_⟩
    have same' := same
    rw [shape, joinedUnder, List.nil_append, List.cons_append, List.cons.injEq] at same'
    obtain ⟨rest, trimEnd, rfl⟩ := scope_in_place name noComma behind same'.2
    have whole : part = ' ' :: (scope ++ (rest ++ Text.ending part)) := by
      conv => lhs; rw [← trimEnd_append_ending part, trimEnd]
      simp
    obtain ⟨visible, trimmed⟩ := place_with_scope name (rest ++ Text.ending part)
    rw [← whole, trimEnd, List.cons.injEq] at trimmed
    obtain ⟨tail, under_eq, complete⟩ := under_endsName scope (scope ++ rest)
    -- What follows the scope is the same on both sides, and where it comes out it ends the name.
    rw [placesUnder, placeUnder_visible (whole ▸ visible), ← trimmed.2, under_eq] at shape
    have tails : tail ++ placesUnder scope places = rest ++ joinedUnder scope (Text.ending part) places := by
      simpa using shape
    have ends := endsName_placesUnder scope places
    have complete' : EndsName rest := endsName_of_append (tails ▸ (endsName_append ends).mpr complete)
    refine ⟨_, whole, ?_⟩
    rw [dropWord?_append ((endsName_append (endsName_blanks (ending_blank part))).mpr complete')]
    rfl

theorem placesUnder_eq_iff (name : Solid scope) (noComma : ',' ∉ scope) {ending : List Char} (blank : Blank ending)
    (places : List (Bool × List Char)) :
    placesUnder scope places = joinedUnder scope ending places ↔ Kept scope ending places := by
  induction places generalizing ending with
  | nil => exact iff_of_true rfl trivial
  | cons place places ih =>
    obtain ⟨separates, part⟩ := place
    have later := ih (ending_blank part)
    cases separates with
    | true => rw [placesUnder, joinedUnder, Kept, List.append_cancel_left_eq, later]
    | false =>
      have kept (none : ending = []) (starts : StartsUnder scope part) :
          placesUnder scope ((false, part) :: places) = joinedUnder scope ending ((false, part) :: places) ↔
            placesUnder scope places = joinedUnder scope (Text.ending part) places := by
        rw [placesUnder, joinedUnder, none, placeUnder_of_startsUnder name starts, List.nil_append, List.append_cancel_left_eq]
      constructor
      · intro same
        obtain ⟨none, starts⟩ := startsUnder_of_eq name noComma blank same
        exact ⟨none, starts, later.mp ((kept none starts).mp same)⟩
      · rintro ⟨none, starts, rest⟩
        exact (kept none starts).mpr (later.mpr rest)

end Comparison

section Commas
variable {scope : List Char}

theorem ending_eq_nil_iff (text : List Char) :
    Text.ending text = [] ↔ ∀ c ∈ text.getLast?, Text.isBlank c = false := by
  rcases List.eq_nil_or_concat text with rfl | ⟨init, last, rfl⟩
  · simp [Text.ending]
  · cases blank : Text.isBlank last <;> simp [Text.ending, blank]

theorem startsUnder_append (name : Solid scope) (noComma : ',' ∉ scope) (part more : List Char) :
    StartsUnder scope (part ++ ',' :: more) ↔ StartsUnder scope part := by
  cases part with
  | nil => simp [StartsUnder]
  | cons c part =>
    have same : dropWord? scope (part ++ ([] ++ ',' :: more)) = _ := dropWord?_behind name noComma Blank.nil
    rw [List.nil_append] at same
    simp [StartsUnder, same]

theorem keepsCommas_append {n : Nesting} {first : List Char} (noComma : ',' ∉ first) (back : List Char) :
    KeepsCommas n scope (first ++ ',' :: back) ↔
      (¬ (n.read first).Separates → Text.ending first = [] ∧ StartsUnder scope back) ∧
        KeepsCommas ((n.read first).step ',') scope back := by
  have read_comma : ∀ front, n.read (first ++ ',' :: front) = ((n.read first).step ',').read front := by
    intro front
    rw [Nesting.read, List.foldl_append, List.foldl_cons]
    rfl
  have last_comma : ∀ front : List Char,
      (∀ c ∈ (first ++ ',' :: front).getLast?, Text.isBlank c = false) ↔ ∀ c ∈ front.getLast?, Text.isBlank c = false := by
    intro front
    rw [← ending_eq_nil_iff, ending_append_comma, ending_eq_nil_iff]
  rw [ending_eq_nil_iff]
  constructor
  · intro keeps
    refine ⟨keeps first back rfl, ?_⟩
    rintro front back rfl inside
    have later := keeps (first ++ ',' :: front) back (by simp)
    rw [read_comma, last_comma] at later
    exact later inside
  · rintro ⟨here, later⟩ front back' cut inside
    -- Where a comma of the whole stands: behind this one, or it is this one.
    rcases List.append_eq_append_iff.mp cut with ⟨more, rfl, rest⟩ | ⟨more, rfl, rest⟩
    · rcases List.append_eq_cons_iff.mp rest.symm with ⟨rfl, same⟩ | ⟨more, rfl, rfl⟩
      · obtain rfl : back' = back := (List.cons.inj same).2
        rw [List.append_nil] at inside ⊢
        exact here inside
      · rw [last_comma]
        rw [read_comma] at inside
        exact later more back' rfl inside
    · rcases List.append_eq_cons_iff.mp rest.symm with ⟨rfl, same⟩ | ⟨more, rfl, -⟩
      · obtain rfl : back = back' := (List.cons.inj same).2
        rw [List.append_nil] at here
        exact here inside
      · simp at noComma

theorem keepsCommas_iff (name : Solid scope) (noComma : ',' ∉ scope) {n : Nesting} {first : List Char} {rest : List (List Char)}
    (free : ∀ part ∈ first :: rest, ',' ∉ part) :
    KeepsCommas n scope ([','].intercalate (first :: rest)) ↔
      Kept scope (Text.ending first) (placesBehind (n.read first) rest) := by
  induction rest generalizing n first with
  | nil =>
    rw [List.intercalate_singleton]
    refine iff_of_true (fun front back cut => ?_) trivial
    exact absurd (by simp [cut]) (free first List.mem_cons_self)
  | cons next rest ih =>
    have later := @ih ((n.read first).step ',') next fun part member => free part (List.mem_cons_of_mem first member)
    have starts : StartsUnder scope ([','].intercalate (next :: rest)) ↔ StartsUnder scope next := by
      cases rest with
      | nil => rw [List.intercalate_singleton]
      | cons other rest =>
        rw [List.intercalate_cons_cons, List.append_assoc, List.singleton_append]
        exact startsUnder_append name noComma next _
    rw [List.intercalate_cons_cons, List.append_assoc, List.singleton_append,
      keepsCommas_append (free first List.mem_cons_self), starts, later, placesBehind]
    by_cases separates : (n.read first).Separates
    · simp [separates, Kept]
    · simp [separates, Kept, and_assoc]

theorem following_cons_eq (part : List Char) (parts : List (List Char)) :
    following (part :: parts) = ',' :: ' ' :: [',', ' '].intercalate (part :: parts) := by
  induction parts generalizing part with
  | nil => simp [following]
  | cons next parts ih =>
    have rest := ih next
    rw [List.intercalate_cons_cons, following, List.flatMap_cons, ← following, rest]
    simp

theorem following_eq_iff {first second : List (List Char)} (visible : ∀ part ∈ first, part ≠ [])
    (visible' : ∀ part ∈ second, part ≠ []) :
    [',', ' '].intercalate first = [',', ' '].intercalate second ↔ following first = following second := by
  have nonempty : ∀ {part : List Char} {parts : List (List Char)}, part ≠ [] → [',', ' '].intercalate (part :: parts) ≠ [] := by
    intro part parts shown
    cases parts <;> simp [shown]
  cases first with
  | nil =>
    cases second with
    | nil => simp
    | cons part second =>
      refine iff_of_false (nonempty (visible' part List.mem_cons_self)).symm ?_
      rw [following_cons_eq]
      exact (List.cons_ne_nil _ _).symm
  | cons part first =>
    cases second with
    | nil =>
      refine iff_of_false (nonempty (visible part List.mem_cons_self)) ?_
      rw [following_cons_eq]
      exact List.cons_ne_nil _ _
    | cons other second => simp [following_cons_eq]

theorem placesBehind_parts (n : Nesting) (rest : List (List Char)) : (placesBehind n rest).map Prod.snd = rest := by
  induction rest generalizing n with
  | nil => rfl
  | cons next rest ih => rw [placesBehind, List.map_cons, ih]

/-- A list comes out as its separate selectors under the scope exactly when it keeps the commas
that separate none. -/
theorem listUnder_eq_iff (name : Solid scope) (noComma : ',' ∉ scope) (text : List Char) :
    listUnder scope text = separatedUnder scope text ↔ KeepsCommas {} scope text := by
  obtain ⟨first, rest, parts⟩ := List.exists_cons_of_ne_nil (List.splitOn_ne_nil ',' text)
  have free : ∀ part ∈ first :: rest, ',' ∉ part := fun part member => (splitOn_parts (parts ▸ member)).1
  have whole : [','].intercalate (first :: rest) = text := by rw [← parts, List.intercalate_splitOn]
  have visible : ∀ selectors : List (List Char), ∀ part ∈ selectors.map (under scope), part ≠ [] := by
    intro selectors part member
    obtain ⟨selector, -, rfl⟩ := List.mem_map.mp member
    obtain ⟨tail, shape⟩ := scope_prefix_under scope selector
    simp [shape, name.ne_nil]
  have parted := parted_placesBehind (n := Nesting.read {} first) (fun blank => separates_read ⟨rfl, rfl⟩ blank) rest
  have all := following_selectors scope ((true, first) :: placesBehind (Nesting.read {} first) rest)
  rw [List.map_cons, placesBehind_parts, placesUnder] at all
  calc listUnder scope text = separatedUnder scope text
    _ ↔ following ((selectors (first :: rest)).map (under scope)) =
        following ((selectors (Nesting.split {} text)).map (under scope)) := by
      rw [listUnder, pieces_eq, parts]
      exact following_eq_iff (visible _) (visible _)
    _ ↔ placesUnder scope (placesBehind (Nesting.read {} first) rest) =
        joinedUnder scope (Text.ending first) (placesBehind (Nesting.read {} first) rest) := by
      rw [all, ← whole, split_intercalate free, following_joined name noComma parted, List.append_cancel_left_eq]
    _ ↔ KeepsCommas {} scope text := by
      rw [placesUnder_eq_iff name noComma (ending_blank first), ← keepsCommas_iff name noComma free, whole]

end Commas

end VideoPage.Proofs.SelectorSeparators
