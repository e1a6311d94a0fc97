import VideoPage.Proofs.ListReading

/-! A selector list under a scope has the structure it had before: the same braces and, up to
a character that the next one makes the scan forget, the same things left open. The scope
may bring nothing that a scan takes notice of. -/

namespace VideoPage.Proofs.ScopedScan
open Stylesheet Selector TextBlanks SheetScan SelectorLists ListReading

/-- What is open, with the braces read so far. -/
abbrev Progress := Scan × List Brace

def readOn (state : Progress) (text : List Char) : Progress :=
  (state.1.after text, state.2 ++ state.1.braces text)

theorem readOn_append (state : Progress) (first second : List Char) :
    readOn state (first ++ second) = readOn (readOn state first) second := by
  simp only [readOn, after_append, braces_append, List.append_assoc]

def readers : Readers Progress Progress where
  place := readOn
  comma := fun state => readOn state [',']
  text := readOn
  text_nil := fun state => by simp [readOn, Scan.after, Scan.braces]
  text_append := readOn_append

theorem places_eq (state : Progress) {parts : List (List Char)} (nonempty : parts ≠ []) :
    readers.places state parts = readOn state ([','].intercalate parts) := by
  induction parts generalizing state with
  | nil => exact absurd rfl nonempty
  | cons part parts ih =>
    cases parts with
    | nil => simp [Readers.places, readers]
    | cons next parts =>
      rw [List.intercalate_cons_cons, readOn_append, readOn_append]
      exact ih _ (List.cons_ne_nil next parts)


/-- Both readers stand at the same place, where only comments and strings are open. -/
structure Starts (first second : Progress) : Prop where
  same : first = second
  rested : calm first.1 = first.1
  sound : Sound first.1

structure Stops (first second : Progress) : Prop where
  open_eq : calm first.1 = calm second.1
  braces_eq : first.2 = second.2
  first_sound : Sound first.1
  second_sound : Sound second.1

variable {scope : List Char}

theorem readOn_plain {state : Progress} {text : List Char} (rested : calm state.1 = state.1) (sound : Sound state.1)
    (plain : ∀ c ∈ text, Plain c) : readOn state text = state := by
  rw [readOn, after_plain sound rested plain, braces_plain plain, List.append_nil]

theorem rootNames_plain : ∀ word ∈ rootNames, ∀ c ∈ word, Plain c := by
  simp [rootNames, Plain]

theorem readOn_under {state : Progress} {selector : List Char} (plain : ∀ c ∈ scope, Plain c)
    (rested : calm state.1 = state.1) (sound : Sound state.1) :
    readOn state (under scope selector) = readOn state selector := by
  have skip : ∀ text rest, (∀ c ∈ text, Plain c) → readOn state (text ++ rest) = readOn state rest := by
    intro text rest harmless
    rw [readOn_append, readOn_plain rested sound harmless]
  obtain ⟨word, rest, rfl, ⟨named, -, under_eq⟩ | ⟨rfl, under_eq⟩⟩ := under_shape scope selector
  · have harmless : ∀ c ∈ word, Plain c := by
      rcases named with rfl | root
      · exact plain
      · exact rootNames_plain word root
    rw [under_eq, skip scope rest plain, skip word rest harmless]
  · rw [under_eq, skip scope _ plain, ← List.singleton_append, skip [' '] rest (List.forall_mem_singleton.mpr plain_space)]
    rfl

theorem readOn_trim {state : Progress} {part : List Char} (noBreak : '\n' ∉ part) (visible : ¬ Blank part)
    (rested : calm state.1 = state.1) (sound : Sound state.1) :
    calm (readOn state part).1 = calm (readOn state (Text.trim part)).1 ∧
      (readOn state part).2 = (readOn state (Text.trim part)).2 := by
  obtain ⟨braces, open_eq⟩ := scan_around (Text.trim part) sound rested
    (indentation_plain noBreak) (ending_plain noBreak)
  rw [around_trim visible] at braces open_eq
  exact ⟨open_eq, by simp only [readOn, braces]⟩

theorem inStep (plain : ∀ c ∈ scope, Plain c) : InStep readers scope Starts Stops where
  empty := by
    intro first second part place start blank
    obtain ⟨rfl, rested, sound⟩ := start
    have passed : readOn first part = first := readOn_plain rested sound (plain_of_blank place.noBreak blank)
    have comma : readOn first [','] = first := readOn_plain rested sound (List.forall_mem_singleton.mpr plain_comma)
    change Stops (readOn first part) first ∧ Starts (readOn (readOn first part) [',']) first
    rw [passed, comma]
    exact ⟨⟨rfl, rfl, sound, sound⟩, ⟨rfl, rested, sound⟩⟩
  selector := by
    intro first second part place start visible
    obtain ⟨rfl, rested, sound⟩ := start
    obtain ⟨open_eq, braces_eq⟩ := readOn_trim place.noBreak visible rested sound
    change Stops (readOn first part) (readOn first (under scope (Text.trim part)))
    rw [readOn_under plain rested sound]
    exact ⟨open_eq, braces_eq, sound.after _, sound.after _⟩
  separator := by
    intro first second stop
    have next : Sound (calm second.1) := step_plain stop.second_sound plain_comma ▸ stop.second_sound.step ','
    have comma : readOn first [','] = (calm first.1, first.2) := by
      rw [readOn, braces_plain (List.forall_mem_singleton.mpr plain_comma), List.append_nil]
      exact congrArg (·, first.2) (step_plain stop.first_sound plain_comma)
    have space : readOn second [',', ' '] = (calm second.1, second.2) := by
      have harmless : ∀ c ∈ [',', ' '], Plain c :=
        List.forall_mem_cons.mpr ⟨plain_comma, List.forall_mem_singleton.mpr plain_space⟩
      rw [readOn, braces_plain harmless, List.append_nil, after_cons, step_plain stop.second_sound plain_comma]
      exact congrArg (·, second.2) ((step_plain next plain_space).trans (calm_calm _))
    change Starts (readOn first [',']) (readOn second [',', ' '])
    rw [comma, space, stop.open_eq, stop.braces_eq]
    exact ⟨rfl, calm_calm _, next⟩
  trailing := by
    intro first second part place stop blank
    have harmless : ∀ c ∈ ',' :: part, Plain c :=
      List.forall_mem_cons.mpr ⟨plain_comma, plain_of_blank place.noBreak blank⟩
    have passed : readOn (readOn first [',']) part = readOn first (',' :: part) := by
      rw [← readOn_append, List.singleton_append]
    change Stops (readOn (readOn first [',']) part) second
    rw [passed]
    refine ⟨?_, ?_, stop.first_sound.after _, stop.second_sound⟩
    · exact (after_plain_calm stop.first_sound harmless).trans stop.open_eq
    · rw [readOn, braces_plain harmless, List.append_nil, stop.braces_eq]

/-- Read from code or from inside a comment or a string, a list and its scoped form show the
same braces and leave the same open, up to a character that the next one makes forgotten. -/
theorem scan_listUnder {s : Scan} {text : List Char} (plain : ∀ c ∈ scope, Plain c) (rested : calm s = s)
    (sound : Sound s) (noBreak : '\n' ∉ text) :
    s.braces (listUnder scope text) = s.braces text ∧
      calm (s.after (listUnder scope text)) = calm (s.after text) := by
  have start : Starts (s, []) (s, []) := ⟨rfl, rested, sound⟩
  have stop := (inStep plain).list (List.splitOn_ne_nil ',' text)
    (fun _ member => place_of_mem_splitOn noBreak member) start
  rw [places_eq _ (List.splitOn_ne_nil ',' text), List.intercalate_splitOn, ← pieces_eq] at stop
  exact ⟨stop.braces_eq.symm, stop.open_eq.symm⟩

end VideoPage.Proofs.ScopedScan
