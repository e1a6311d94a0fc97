import VideoPage.Proofs.SelectorLists

/-! Two readers of one selector list. The first reads the list as it was written, place by
place; the second reads it under the scope, where empty places and the blanks around
commas are gone. What holds between them over each place and each comma holds over the list. -/

namespace VideoPage.Proofs.ListReading
open Stylesheet Selector TextBlanks SheetScan SelectorLists

variable {σ τ : Type}

structure Readers (σ τ : Type) where
  place : σ → List Char → σ
  comma : σ → σ
  text : τ → List Char → τ
  text_nil : ∀ state, text state [] = state
  text_append : ∀ state first second, text state (first ++ second) = text (text state first) second

/-- The places of a list, one after the other, with a comma between any two. -/
def Readers.places (readers : Readers σ τ) : σ → List (List Char) → σ
  | state, [] => state
  | state, [part] => readers.place state part
  | state, part :: next :: rest => readers.places (readers.comma (readers.place state part)) (next :: rest)

/-- The second reader stands still over empty places, and so over the commas around them. A
comma is only read by both when a selector follows. -/
structure InStep (readers : Readers σ τ) (scope : List Char) (starts stops : σ → τ → Prop) : Prop where
  empty : ∀ {first second part}, Place part → starts first second → Blank part →
    stops (readers.place first part) second ∧ starts (readers.comma (readers.place first part)) second
  selector : ∀ {first second part}, Place part → starts first second → ¬ Blank part →
    stops (readers.place first part) (readers.text second (under scope (Text.trim part)))
  separator : ∀ {first second}, stops first second →
    starts (readers.comma first) (readers.text second [',', ' '])
  trailing : ∀ {first second part}, Place part → stops first second → Blank part →
    stops (readers.place (readers.comma first) part) second

/-- The places of a list that hold a selector, trimmed. -/
def selectors (parts : List (List Char)) : List (List Char) := (parts.map Text.trim).filter (!·.isEmpty)

theorem pieces_eq (text : List Char) : pieces text = selectors (text.splitOn ',') := rfl

theorem selectors_cons (part : List Char) (parts : List (List Char)) :
    selectors (part :: parts) = if (Text.trim part).isEmpty then selectors parts else Text.trim part :: selectors parts := by
  simp only [selectors, List.map_cons, List.filter_cons]
  cases (Text.trim part).isEmpty <;> rfl

theorem selectors_cons_blank {part : List Char} (blank : Blank part) (parts : List (List Char)) :
    selectors (part :: parts) = selectors parts := by
  rw [selectors_cons, if_pos ((isEmpty_trim_iff part).mpr blank)]

theorem selectors_cons_visible {part : List Char} (visible : ¬ Blank part) (parts : List (List Char)) :
    selectors (part :: parts) = Text.trim part :: selectors parts := by
  rw [selectors_cons, if_neg (fun empty => visible ((isEmpty_trim_iff part).mp empty))]

theorem selectors_eq_nil {parts : List (List Char)} (empty : selectors parts = []) :
    ∀ part ∈ parts, Blank part := by
  intro part member
  by_contra visible
  have kept : Text.trim part ∈ selectors parts :=
    List.mem_filter.mpr ⟨List.mem_map_of_mem member, by simpa using (solid_trim visible).ne_nil⟩
  rw [empty] at kept
  cases kept

namespace InStep
variable {readers : Readers σ τ} {scope : List Char} {starts stops : σ → τ → Prop}

/-- Once a selector has been read, empty places after it only move the first reader. -/
theorem emptyPlaces (step : InStep readers scope starts stops) {first : σ} {second : τ} {parts : List (List Char)}
    (nonempty : parts ≠ []) (place : ∀ part ∈ parts, Place part) (blank : ∀ part ∈ parts, Blank part)
    (stopped : stops first second) : stops (readers.places (readers.comma first) parts) second := by
  induction parts generalizing first with
  | nil => exact absurd rfl nonempty
  | cons part parts ih =>
    have next := step.trailing (place part List.mem_cons_self) stopped (blank part List.mem_cons_self)
    cases parts with
    | nil => exact next
    | cons other parts =>
      exact ih (List.cons_ne_nil other parts) (fun p member => place p (List.mem_cons_of_mem part member))
        (fun p member => blank p (List.mem_cons_of_mem part member)) next

theorem list (step : InStep readers scope starts stops) {first : σ} {second : τ} {parts : List (List Char)}
    (nonempty : parts ≠ []) (place : ∀ part ∈ parts, Place part) (start : starts first second) :
    stops (readers.places first parts)
      (readers.text second ([',', ' '].intercalate ((selectors parts).map (under scope)))) := by
  induction parts generalizing first second with
  | nil => exact absurd rfl nonempty
  | cons part parts ih =>
    have here := place part List.mem_cons_self
    have later : ∀ other ∈ parts, Place other := fun other member => place other (List.mem_cons_of_mem part member)
    by_cases blank : Blank part
    · rw [selectors_cons_blank blank]
      obtain ⟨stopped, started⟩ := step.empty here start blank
      cases parts with
      | nil => simpa [selectors, Readers.places, readers.text_nil] using stopped
      | cons next parts => exact ih (List.cons_ne_nil next parts) later started
    · have stopped := step.selector here start blank
      rw [selectors_cons_visible blank, List.map_cons]
      cases parts with
      | nil => simpa [selectors, Readers.places] using stopped
      | cons next parts =>
        by_cases last : selectors (next :: parts) = []
        · rw [last, List.map_nil, List.intercalate_singleton]
          exact step.emptyPlaces (List.cons_ne_nil next parts) later (selectors_eq_nil last) stopped
        · rw [List.intercalate_cons_of_ne_nil (by simpa using last), readers.text_append, readers.text_append]
          exact ih (List.cons_ne_nil next parts) later (step.separator stopped)

end InStep
end VideoPage.Proofs.ListReading
