import Mathlib
import VideoPage.Text.Blank

/-! A text is blanks around a solid core, or nothing but blanks. Trimming gives the core
back, so edits may be described on the core alone. -/

namespace VideoPage.Proofs.TextBlanks
open Text

def Blank (text : List Char) : Prop := ∀ c ∈ text, isBlank c = true

/-- Text that neither starts nor ends with a blank. Empty text is not solid. -/
structure Solid (text : List Char) : Prop where
  starts : ∃ first rest, text = first :: rest ∧ isBlank first = false
  ends : ∃ init last, text = init ++ [last] ∧ isBlank last = false

theorem not_mem_of_blank {c : Char} {special : List Char} (visible : ∀ d ∈ special, isBlank d = false)
    (blank : isBlank c = true) : c ∉ special := by
  intro member
  exact Bool.false_ne_true ((visible c member).symm.trans blank)

theorem ne_of_blank {c d : Char} (visible : isBlank d = false) (blank : isBlank c = true) : c ≠ d := by
  rintro rfl
  exact Bool.false_ne_true (visible.symm.trans blank)

theorem Blank.not_mem {text : List Char} {d : Char} (blank : Blank text) (visible : isBlank d = false) : d ∉ text := by
  intro member
  exact ne_of_blank visible (blank d member) rfl

theorem Blank.nil : Blank [] := by simp [Blank]

theorem isBlank_space : isBlank ' ' = true := rfl

theorem Blank.space : Blank [' '] := List.forall_mem_singleton.mpr isBlank_space

theorem Blank.append {first second : List Char} (left : Blank first) (right : Blank second) :
    Blank (first ++ second) := by
  intro c member
  rcases List.mem_append.mp member with member | member
  · exact left c member
  · exact right c member

theorem Blank.reverse {text : List Char} (blank : Blank text) : Blank text.reverse :=
  fun c member => blank c (List.mem_reverse.mp member)

theorem indentation_blank (text : List Char) : Blank (indentation text) :=
  fun _ member => (List.mem_takeWhile_imp member)

theorem ending_blank (text : List Char) : Blank (ending text) :=
  Blank.reverse (fun _ member => List.mem_takeWhile_imp member)

theorem indentation_append_trimStart (text : List Char) : indentation text ++ trimStart text = text :=
  List.takeWhile_append_dropWhile

theorem trimEnd_append_ending (text : List Char) : trimEnd text ++ ending text = text := by
  have parts := congrArg List.reverse (List.takeWhile_append_dropWhile (p := isBlank) (l := text.reverse))
  simpa only [trimEnd, ending, List.reverse_append, List.reverse_reverse] using parts

theorem mem_trim {text : List Char} {c : Char} (member : c ∈ trim text) : c ∈ text := by
  apply (List.dropWhile_sublist isBlank).mem
  apply List.mem_reverse.mp
  exact (List.dropWhile_sublist isBlank).mem (List.mem_reverse.mp member)

theorem mem_indentation {text : List Char} {c : Char} (member : c ∈ indentation text) : c ∈ text :=
  (List.takeWhile_sublist isBlank).mem member

theorem mem_ending {text : List Char} {c : Char} (member : c ∈ ending text) : c ∈ text :=
  List.mem_reverse.mp ((List.takeWhile_sublist isBlank).mem (List.mem_reverse.mp member))

theorem Solid.ne_nil {text : List Char} (solid : Solid text) : text ≠ [] := by
  obtain ⟨first, rest, rfl, _⟩ := solid.starts
  exact List.cons_ne_nil first rest

theorem Solid.not_blank {text : List Char} (solid : Solid text) : ¬ Blank text := by
  obtain ⟨first, rest, rfl, visible⟩ := solid.starts
  intro blank
  exact Bool.false_ne_true (visible.symm.trans (blank first List.mem_cons_self))

/-- Solid text stays solid around anything that is put in its middle. -/
theorem Solid.around {first last : List Char} (left : Solid first) (right : Solid last)
    (middle : List Char) : Solid (first ++ middle ++ last) := by
  obtain ⟨head, rest, rfl, visible⟩ := left.starts
  obtain ⟨init, final, rfl, solid⟩ := right.ends
  exact ⟨⟨head, _, rfl, visible⟩, ⟨head :: rest ++ middle ++ init, final, by simp, solid⟩⟩

theorem Solid.singleton {c : Char} (visible : isBlank c = false) : Solid [c] :=
  ⟨⟨c, [], rfl, visible⟩, ⟨[], c, rfl, visible⟩⟩

theorem solid_comma : Solid [','] := Solid.singleton rfl

theorem Solid.append {first last : List Char} (left : Solid first) (right : Solid last) :
    Solid (first ++ last) := by
  simpa using left.around right []

variable {lead core tail : List Char}

theorem trimStart_around (blank : Blank lead) (solid : Solid core) :
    trimStart (lead ++ core ++ tail) = core ++ tail := by
  obtain ⟨first, rest, rfl, visible⟩ := solid.starts
  rw [trimStart, List.append_assoc, List.dropWhile_append_of_pos blank]
  simp [visible]

theorem indentation_around (blank : Blank lead) (solid : Solid core) :
    indentation (lead ++ core ++ tail) = lead := by
  obtain ⟨first, rest, rfl, visible⟩ := solid.starts
  rw [indentation, List.append_assoc, List.takeWhile_append_of_pos blank]
  simp [visible]

theorem trimEnd_around (blank : Blank tail) (solid : Solid core) : trimEnd (core ++ tail) = core := by
  obtain ⟨init, last, rfl, visible⟩ := solid.ends
  rw [trimEnd, List.reverse_append, List.dropWhile_append_of_pos blank.reverse]
  simp [visible]

theorem ending_around (blank : Blank tail) (solid : Solid core) :
    ending (lead ++ core ++ tail) = tail := by
  obtain ⟨init, last, rfl, visible⟩ := solid.ends
  rw [ending, List.reverse_append, List.takeWhile_append_of_pos blank.reverse]
  simp [visible]

theorem trim_around (before : Blank lead) (solid : Solid core) (after : Blank tail) :
    trim (lead ++ core ++ tail) = core := by
  rw [trim, trimStart_around before solid, trimEnd_around after solid]

theorem Solid.trim_eq (solid : Solid core) : trim core = core := by
  simpa using trim_around Blank.nil solid Blank.nil

theorem Blank.trim_eq {text : List Char} (blank : Blank text) : trim text = [] := by
  have start : trimStart text = [] := List.dropWhile_eq_nil_iff.mpr blank
  rw [trim, start]
  rfl

private theorem dropWhile_blank_or_starts (text : List Char) :
    text.dropWhile isBlank = [] ∨ ∃ first rest, text.dropWhile isBlank = first :: rest ∧ isBlank first = false := by
  induction text with
  | nil => exact Or.inl rfl
  | cons c text ih =>
    cases visible : isBlank c with
    | true => simpa [visible] using ih
    | false => exact Or.inr ⟨c, text, by simp [visible], visible⟩

/-- Every text is blanks, or blanks around the solid core that trimming leaves. -/
theorem blank_or_around (text : List Char) :
    Blank text ∨ Solid (trim text) ∧ text = indentation text ++ trim text ++ ending text := by
  rcases dropWhile_blank_or_starts text with empty | ⟨first, rest, start, visible⟩
  · exact Or.inl (List.dropWhile_eq_nil_iff.mp empty)
  have cut : text = indentation text ++ (first :: rest) := by
    rw [← start]
    exact (indentation_append_trimStart text).symm
  have halves := trimEnd_append_ending (first :: rest)
  have trimmed : trim text = trimEnd (first :: rest) := congrArg trimEnd start
  rcases dropWhile_blank_or_starts (first :: rest).reverse with empty | ⟨last, init, stop, solid⟩
  · have blank := List.dropWhile_eq_nil_iff.mp empty first (by simp)
    exact absurd blank (by simp [visible])
  have ends : trimEnd (first :: rest) = init.reverse ++ [last] := by rw [trimEnd, stop, List.reverse_cons]
  have core : Solid (trimEnd (first :: rest)) := by
    refine ⟨?_, init.reverse, last, ends, solid⟩
    cases shape : trimEnd (first :: rest) with
    | nil => simp [ends] at shape
    | cons head tail =>
      have same : head = first := by
        rw [shape] at halves
        exact (List.cons.inj halves).1
      exact ⟨head, tail, rfl, same ▸ visible⟩
  have whole : text = indentation text ++ trimEnd (first :: rest) ++ ending (first :: rest) := by
    rw [List.append_assoc, halves]
    exact cut
  have tail : ending text = ending (first :: rest) := by
    rw [whole]
    exact ending_around (ending_blank _) core
  refine Or.inr ⟨trimmed ▸ core, ?_⟩
  rw [trimmed, tail]
  exact whole

theorem solid_trim {text : List Char} (visible : ¬ Blank text) : Solid (trim text) :=
  ((blank_or_around text).resolve_left visible).1

theorem around_trim {text : List Char} (visible : ¬ Blank text) :
    indentation text ++ trim text ++ ending text = text :=
  ((blank_or_around text).resolve_left visible).2.symm

theorem trim_blanks {lead tail : List Char} (before : Blank lead) (text : List Char) (after : Blank tail) :
    trim (lead ++ text ++ tail) = trim text := by
  rcases blank_or_around text with blank | ⟨solid, whole⟩
  · rw [((before.append blank).append after).trim_eq, blank.trim_eq]
  · have cut : lead ++ text ++ tail = (lead ++ indentation text) ++ trim text ++ (ending text ++ tail) := by
      conv => lhs; rw [whole]
      simp
    rw [cut]
    exact trim_around (before.append (indentation_blank text)) solid ((ending_blank text).append after)

/-- What follows a solid text may shorten at its end, but the solid text stays in front. -/
theorem trim_starts {lead core : List Char} (blank : Blank lead) (solid : Solid core) (text : List Char) :
    ∃ rest, rest <+: text ∧ Text.trim (lead ++ core ++ text) = core ++ rest := by
  rcases blank_or_around text with nothing | ⟨last, whole⟩
  · exact ⟨[], List.nil_prefix, by rw [trim_around blank solid nothing, List.append_nil]⟩
  · have core' := solid.around last (indentation text)
    refine ⟨indentation text ++ trim text, ⟨ending text, whole.symm⟩, ?_⟩
    have cut : lead ++ core ++ text = lead ++ (core ++ indentation text ++ trim text) ++ ending text := by
      rw [List.append_assoc lead core text]
      conv => lhs; rw [whole]
      simp
    rw [cut, trim_around blank core' (ending_blank text), List.append_assoc]

theorem trim_eq_nil_iff (text : List Char) : trim text = [] ↔ Blank text := by
  refine ⟨fun empty => ?_, Blank.trim_eq⟩
  by_contra visible
  exact (solid_trim visible).ne_nil empty

theorem isEmpty_trim_iff (text : List Char) : (trim text).isEmpty = true ↔ Blank text := by
  rw [List.isEmpty_iff, trim_eq_nil_iff]

end VideoPage.Proofs.TextBlanks
