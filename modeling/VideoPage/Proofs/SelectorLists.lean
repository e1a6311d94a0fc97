import VideoPage.Proofs.SheetScan
import VideoPage.Stylesheet.Selector

/-! Selector lists under a scope. Going under a scope changes a selector only at its start,
so a reader of the list and a reader of the scoped list stay in step place by place. -/

namespace VideoPage.Proofs.SelectorLists
open Stylesheet Selector TextBlanks SheetScan

/-- The name just before this text is not continued by it. -/
def EndsName (rest : List Char) : Prop := ∀ c ∈ rest.head?, continuesName c = false

theorem endsName_nil : EndsName [] := by simp [EndsName]

theorem codes_of_continuesName {c : Char} (name : continuesName c = true) :
    (65 ≤ c.toNat ∧ c.toNat ≤ 90) ∨ (97 ≤ c.toNat ∧ c.toNat ≤ 122) ∨ (48 ≤ c.toNat ∧ c.toNat ≤ 57) ∨
      c.toNat = 45 ∨ c.toNat = 95 := by
  simp only [continuesName, Char.isAlphanum, Char.isAlpha, Char.isUpper, Char.isLower, Char.isDigit, Bool.or_eq_true,
    Bool.and_eq_true, decide_eq_true_eq, ge_iff_le, UInt32.le_iff_toNat_le] at name
  rcases name with (((upper | lower) | digit) | rfl) | rfl
  · exact Or.inl upper
  · exact Or.inr (Or.inl lower)
  · exact Or.inr (Or.inr (Or.inl digit))
  · exact Or.inr (Or.inr (Or.inr (Or.inl rfl)))
  · exact Or.inr (Or.inr (Or.inr (Or.inr rfl)))

theorem continuesName_of_isBlank {c : Char} (blank : Text.isBlank c = true) : continuesName c = false := by
  rw [← Bool.not_eq_true]
  intro name
  have codes := codes_of_continuesName name
  simp only [Text.isBlank, Text.blankRanges, List.any_cons, List.any_nil, Bool.or_false, Bool.or_eq_true, Bool.and_eq_true,
    decide_eq_true_eq] at blank
  omega

theorem endsName_blank (rest : List Char) : EndsName (' ' :: rest) := by simp [EndsName, continuesName]

theorem dropWord?_append {word rest : List Char} (complete : EndsName rest) :
    dropWord? word (word ++ rest) = some rest := by
  rw [dropWord?, List.isPrefixOf?_eq_some_iff_append_eq.mpr rfl]
  cases rest with
  | nil => rfl
  | cons c rest => simp [complete c rfl]

theorem dropWord?_eq_some {word selector rest : List Char} (found : dropWord? word selector = some rest) :
    selector = word ++ rest ∧ EndsName rest := by
  rw [dropWord?] at found
  split at found
  next same =>
    cases found
    exact ⟨(List.isPrefixOf?_eq_some_iff_append_eq.mp same).symm, endsName_nil⟩
  next c tail same =>
    split at found
    next => cases found
    next complete =>
      cases found
      exact ⟨(List.isPrefixOf?_eq_some_iff_append_eq.mp same).symm, by simpa [EndsName] using complete⟩
  next => cases found

/-- Only the start of a selector changes: a name that stands for the scope gives way to it,
or the scope is put in front. -/
theorem under_shape (scope selector : List Char) :
    ∃ word rest, selector = word ++ rest ∧
      ((word = scope ∨ word ∈ rootNames) ∧ EndsName rest ∧ under scope selector = scope ++ rest ∨
        word = [] ∧ under scope selector = scope ++ ' ' :: rest) := by
  unfold under
  split
  next already =>
    obtain ⟨rest, found⟩ := Option.isSome_iff_exists.mp already
    obtain ⟨rfl, complete⟩ := dropWord?_eq_some found
    exact ⟨scope, rest, rfl, Or.inl ⟨Or.inl rfl, complete, rfl⟩⟩
  next =>
    cases root : rootNames.findSome? (dropWord? · selector) with
    | none => exact ⟨[], selector, rfl, Or.inr ⟨rfl, rfl⟩⟩
    | some rest =>
      obtain ⟨word, member, found⟩ := List.exists_of_findSome?_eq_some root
      obtain ⟨rfl, complete⟩ := dropWord?_eq_some found
      exact ⟨word, rest, rfl, Or.inl ⟨Or.inr member, complete, rfl⟩⟩

theorem under_append {scope rest : List Char} (complete : EndsName rest) :
    under scope (scope ++ rest) = scope ++ rest := by
  simp [under, dropWord?_append complete]

theorem under_under (scope selector : List Char) : under scope (under scope selector) = under scope selector := by
  obtain ⟨word, rest, -, ⟨-, complete, under_eq⟩ | ⟨-, under_eq⟩⟩ := under_shape scope selector
  · rw [under_eq, under_append complete]
  · rw [under_eq, under_append (endsName_blank rest)]

theorem scope_prefix_under (scope selector : List Char) : ∃ rest, under scope selector = scope ++ rest := by
  obtain ⟨word, rest, -, ⟨-, -, under_eq⟩ | ⟨-, under_eq⟩⟩ := under_shape scope selector
  · exact ⟨rest, under_eq⟩
  · exact ⟨' ' :: rest, under_eq⟩

theorem solid_under {scope selector : List Char} (name : Solid scope) (solid : Solid selector) :
    Solid (under scope selector) := by
  obtain ⟨word, rest, rfl, ⟨-, -, under_eq⟩ | ⟨rfl, under_eq⟩⟩ := under_shape scope selector
  · rw [under_eq]
    rcases List.eq_nil_or_concat rest with rfl | ⟨init, last, rfl⟩
    · simpa using name
    · obtain ⟨other, final, same, visible⟩ := solid.ends
      rw [List.concat_eq_append, ← List.append_assoc] at same ⊢
      obtain ⟨-, rfl⟩ := List.append_singleton_inj.mp same
      exact name.around (Solid.singleton visible) init
  · rw [under_eq]
    simpa using name.around solid [' ']

theorem mem_under {scope selector : List Char} {c : Char} (member : c ∈ under scope selector) :
    c ∈ scope ∨ c ∈ selector ∨ c = ' ' := by
  obtain ⟨word, rest, rfl, ⟨-, -, under_eq⟩ | ⟨rfl, under_eq⟩⟩ := under_shape scope selector
  · rw [under_eq, List.mem_append] at member
    exact member.imp_right fun inside => Or.inl (List.mem_append_right word inside)
  · rw [under_eq, List.mem_append, List.mem_cons] at member
    exact member.imp_right Or.symm

/-- A place of a selector list: what stands between two commas on one line. -/
structure Place (text : List Char) : Prop where
  noComma : ',' ∉ text
  noBreak : '\n' ∉ text

theorem splitOn_parts {text part : List Char} {c : Char} (member : part ∈ text.splitOn c) :
    c ∉ part ∧ ∀ d ∈ part, d ∈ text := by
  induction text generalizing part with
  | nil => simp_all
  | cons d text ih =>
    rw [List.splitOn_cons_eq_if_modifyHead] at member
    split at member
    next =>
      rcases List.mem_cons.mp member with rfl | member
      · simp
      · exact ⟨(ih member).1, fun e inside => List.mem_cons_of_mem d ((ih member).2 e inside)⟩
    next other =>
      cases parts : text.splitOn c with
      | nil => exact absurd parts (List.splitOn_ne_nil c text)
      | cons first rest =>
        rw [parts, List.modifyHead_cons] at member
        rcases List.mem_cons.mp member with rfl | member
        · have head := ih (parts ▸ List.mem_cons_self)
          have different : c ≠ d := fun same => other (beq_iff_eq.mpr same.symm)
          refine ⟨by simp [different, head.1], fun e inside => ?_⟩
          exact (List.mem_cons.mp inside).elim (fun same => same ▸ List.mem_cons_self)
            (fun inside => List.mem_cons_of_mem d (head.2 e inside))
        · have later := ih (parts ▸ List.mem_cons_of_mem first member)
          exact ⟨later.1, fun e inside => List.mem_cons_of_mem d (later.2 e inside)⟩

theorem splitOn_append_lead {c : Char} {lead : List Char} (noComma : c ∉ lead) (text : List Char) :
    (lead ++ text).splitOn c = (text.splitOn c).modifyHead (lead ++ ·) := by
  induction lead with
  | nil =>
    rw [List.nil_append]
    cases text.splitOn c <;> rfl
  | cons d lead ih =>
    have other : (d == c) = false := by simpa using fun same : d = c => noComma (same ▸ List.mem_cons_self)
    rw [List.cons_append, List.splitOn_cons_eq_if_modifyHead, ih fun member => noComma (List.mem_cons_of_mem d member)]
    cases text.splitOn c <;> simp [other]

theorem splitOn_append_tail {c : Char} {tail : List Char} (noComma : c ∉ tail) (text : List Char) :
    ∃ init last, text.splitOn c = init ++ [last] ∧ (text ++ tail).splitOn c = init ++ [last ++ tail] := by
  induction text with
  | nil => exact ⟨[], [], rfl, List.splitOn_eq_singleton noComma⟩
  | cons d text ih =>
    obtain ⟨init, last, old, new⟩ := ih
    rw [List.cons_append, List.splitOn_cons_eq_if_modifyHead, List.splitOn_cons_eq_if_modifyHead, old, new]
    split
    · exact ⟨[] :: init, last, rfl, rfl⟩
    · cases init with
      | nil => exact ⟨[], d :: last, rfl, rfl⟩
      | cons first init => exact ⟨(d :: first) :: init, last, rfl, rfl⟩

theorem place_of_mem_splitOn {text part : List Char} (noBreak : '\n' ∉ text) (member : part ∈ text.splitOn ',') :
    Place part :=
  ⟨(splitOn_parts member).1, fun inside => noBreak ((splitOn_parts member).2 '\n' inside)⟩

theorem pieces_parts {text piece : List Char} (member : piece ∈ pieces text) :
    Solid piece ∧ ',' ∉ piece ∧ ∀ c ∈ piece, c ∈ text := by
  obtain ⟨trimmed, visible⟩ := List.mem_filter.mp member
  obtain ⟨part, inside, rfl⟩ := List.mem_map.mp trimmed
  have parts := splitOn_parts inside
  have notBlank : ¬ Blank part := fun blank => by simp [blank.trim_eq] at visible
  exact ⟨solid_trim notBlank, fun comma => parts.1 (mem_trim comma), fun c found => parts.2 c (mem_trim found)⟩

theorem pieces_around {lead tail : List Char} (before : Blank lead) (text : List Char) (after : Blank tail) :
    pieces (lead ++ text ++ tail) = pieces text := by
  have noComma : ∀ blanks, Blank blanks → ',' ∉ blanks := fun _ blank => blank.not_mem rfl
  have front : pieces (lead ++ text) = pieces text := by
    have parts := splitOn_append_lead (noComma lead before) text
    cases old : text.splitOn ',' with
    | nil => exact absurd old (List.splitOn_ne_nil ',' text)
    | cons first rest =>
      have same : Text.trim (lead ++ first) = Text.trim first := by simpa using trim_blanks before first Blank.nil
      simp only [pieces, parts, old, List.modifyHead_cons, List.map_cons, same]
  obtain ⟨init, last, old, new⟩ := splitOn_append_tail (noComma tail after) (lead ++ text)
  have same : Text.trim (last ++ tail) = Text.trim last := trim_blanks Blank.nil last after
  rw [← front]
  simp only [pieces, old, new, List.map_append, List.map_cons, same]

theorem pieces_trim (text : List Char) : pieces (Text.trim text) = pieces text := by
  rcases blank_or_around text with blank | ⟨-, whole⟩
  · have around := pieces_around blank [] Blank.nil
    rw [List.append_nil, List.append_nil] at around
    rw [blank.trim_eq, around]
  · have around := pieces_around (indentation_blank text) (Text.trim text) (ending_blank text)
    rwa [← whole, eq_comm] at around

private theorem intercalate_comma_space (first : List Char) (rest : List (List Char)) :
    [',', ' '].intercalate (first :: rest) = [','].intercalate (first :: rest.map (' ' :: ·)) := by
  induction rest generalizing first with
  | nil => simp
  | cons next rest ih =>
    have later := ih next
    rw [List.map_cons, List.intercalate_cons_cons, List.intercalate_cons_cons, List.intercalate_cons_cons_left,
      later]
    simp

/-- A list of solid selectors, written out, is read back as it was. -/
theorem pieces_intercalate {selectors : List (List Char)} (solid : ∀ s ∈ selectors, Solid s)
    (noComma : ∀ s ∈ selectors, ',' ∉ s) : pieces ([',', ' '].intercalate selectors) = selectors := by
  have visible : ∀ s ∈ selectors, (!s.isEmpty) = true := fun s member => by simpa using (solid s member).ne_nil
  cases selectors with
  | nil => rfl
  | cons first rest =>
    have parts : ([',', ' '].intercalate (first :: rest)).splitOn ',' = first :: rest.map (' ' :: ·) := by
      rw [intercalate_comma_space, List.splitOn_intercalate _ _ (List.cons_ne_nil _ _)]
      intro part member
      rcases List.mem_cons.mp member with rfl | member
      · exact noComma _ List.mem_cons_self
      · obtain ⟨s, inside, rfl⟩ := List.mem_map.mp member
        simpa using noComma s (List.mem_cons_of_mem first inside)
    have trimmed : (first :: rest.map (' ' :: ·)).map Text.trim = first :: rest := by
      have same : rest.map (Text.trim ∘ (' ' :: ·)) = rest.map id := by
        apply List.map_congr_left
        intro s member
        have core := solid s (List.mem_cons_of_mem first member)
        simpa using trim_around Blank.space core Blank.nil
      rw [List.map_cons, List.map_map, same, List.map_id, (solid first List.mem_cons_self).trim_eq]
    rw [pieces, parts, trimmed, List.filter_eq_self.mpr visible]

section Scoped
variable {scope text : List Char}

theorem pieces_listUnder (name : Solid scope) (noComma : ',' ∉ scope) :
    pieces (listUnder scope text) = (pieces text).map (under scope) := by
  apply pieces_intercalate
  · intro s member
    obtain ⟨piece, inside, rfl⟩ := List.mem_map.mp member
    exact solid_under name (pieces_parts inside).1
  · intro s member comma
    obtain ⟨piece, inside, rfl⟩ := List.mem_map.mp member
    rcases mem_under comma with found | found | found
    · exact noComma found
    · exact (pieces_parts inside).2.1 found
    · cases found

theorem listUnder_listUnder (name : Solid scope) (noComma : ',' ∉ scope) :
    listUnder scope (listUnder scope text) = listUnder scope text := by
  have again : under scope ∘ under scope = under scope := funext (under_under scope)
  rw [listUnder, pieces_listUnder name noComma, List.map_map, again, listUnder]

theorem listUnder_eq_nil (empty : pieces text = []) : listUnder scope text = [] := by
  rw [listUnder, empty]
  rfl

theorem intercalate_ends (separator : List Char) {parts : List (List Char)} (nonempty : parts ≠ []) :
    (∃ first ∈ parts, ∃ rest, separator.intercalate parts = first ++ rest) ∧
      ∃ last ∈ parts, ∃ front, separator.intercalate parts = front ++ last := by
  induction parts with
  | nil => exact absurd rfl nonempty
  | cons part parts ih =>
    cases parts with
    | nil => exact ⟨⟨part, by simp, [], by simp⟩, ⟨part, by simp, [], by simp⟩⟩
    | cons next parts =>
      obtain ⟨-, last, member, front, whole⟩ := ih (List.cons_ne_nil next parts)
      rw [List.intercalate_cons_cons, whole]
      refine ⟨⟨part, List.mem_cons_self, separator ++ (front ++ last), by simp⟩, ?_⟩
      exact ⟨last, List.mem_cons_of_mem part member, part ++ separator ++ front, by simp⟩

theorem intercalate_append {α : Type} (separator : List α) {first second : List (List α)} (left : first ≠ [])
    (right : second ≠ []) : separator.intercalate (first ++ second) =
      separator.intercalate first ++ separator ++ separator.intercalate second := by
  induction first with
  | nil => exact absurd rfl left
  | cons part first ih =>
    cases first with
    | nil => simp [List.intercalate_cons_of_ne_nil right]
    | cons next first =>
      rw [List.cons_append, List.intercalate_cons_of_ne_nil (by simp), ih (List.cons_ne_nil next first),
        List.intercalate_cons_of_ne_nil (List.cons_ne_nil next first)]
      simp

theorem scope_prefix_listUnder (scope : List Char) (nonempty : pieces text ≠ []) :
    ∃ rest, listUnder scope text = scope ++ rest := by
  have mapped : (pieces text).map (under scope) ≠ [] := by simpa using nonempty
  obtain ⟨⟨first, member, rest, whole⟩, -⟩ := intercalate_ends [',', ' '] mapped
  obtain ⟨piece, -, rfl⟩ := List.mem_map.mp member
  obtain ⟨tail, under_eq⟩ := scope_prefix_under scope piece
  exact ⟨tail ++ rest, by rw [listUnder, whole, under_eq, List.append_assoc]⟩

theorem listUnder_ends (name : Solid scope) (noComma : ',' ∉ scope) (nonempty : pieces text ≠ []) :
    ∃ init last, listUnder scope text = init ++ [last] ∧ Text.isBlank last = false ∧ last ≠ ',' := by
  have mapped : (pieces text).map (under scope) ≠ [] := by simpa using nonempty
  obtain ⟨-, last, member, front, whole⟩ := intercalate_ends [',', ' '] mapped
  obtain ⟨piece, inside, rfl⟩ := List.mem_map.mp member
  obtain ⟨init, c, ends, visible⟩ := (solid_under name (pieces_parts inside).1).ends
  refine ⟨front ++ init, c, by rw [listUnder, whole, ends, List.append_assoc], visible, ?_⟩
  rintro rfl
  rcases mem_under (ends ▸ List.mem_append_right init List.mem_cons_self) with found | found | found
  · exact noComma found
  · exact (pieces_parts inside).2.1 found
  · cases found

theorem solid_listUnder (name : Solid scope) (noComma : ',' ∉ scope) (nonempty : pieces text ≠ []) :
    Solid (listUnder scope text) := by
  obtain ⟨init, last, ends, visible, -⟩ := listUnder_ends name noComma nonempty
  obtain ⟨rest, starts⟩ := scope_prefix_listUnder scope nonempty
  obtain ⟨first, more, rfl, shown⟩ := name.starts
  exact ⟨⟨first, more ++ rest, starts, shown⟩, ⟨init, last, ends, visible⟩⟩

private theorem mem_intercalate {separator : List Char} {parts : List (List Char)} {c : Char}
    (member : c ∈ separator.intercalate parts) : (∃ part ∈ parts, c ∈ part) ∨ c ∈ separator := by
  induction parts with
  | nil => simp at member
  | cons part parts ih =>
    cases parts with
    | nil => exact Or.inl ⟨part, List.mem_cons_self, by simpa using member⟩
    | cons next parts =>
      rw [List.intercalate_cons_cons, List.mem_append, List.mem_append] at member
      rcases member with (inside | inside) | inside
      · exact Or.inl ⟨part, List.mem_cons_self, inside⟩
      · exact Or.inr inside
      · refine (ih inside).imp_left fun ⟨found, later, holds⟩ => ?_
        exact ⟨found, List.mem_cons_of_mem part later, holds⟩

theorem mem_listUnder {c : Char} (member : c ∈ listUnder scope text) :
    c ∈ scope ∨ c ∈ text ∨ c = ' ' ∨ c = ',' := by
  rcases mem_intercalate member with ⟨part, inside, found⟩ | found
  · obtain ⟨piece, chosen, rfl⟩ := List.mem_map.mp inside
    rcases mem_under found with found | found | found
    · exact Or.inl found
    · exact Or.inr (Or.inl ((pieces_parts chosen).2.2 c found))
    · exact Or.inr (Or.inr (Or.inl found))
  · simp only [List.mem_cons, List.not_mem_nil, or_false] at found
    exact Or.inr (Or.inr found.symm)

end Scoped

end VideoPage.Proofs.SelectorLists
