import VideoPage.Trace.Event
import VideoPage.Proofs.WrittenNumbers

/-! Texts made of lines. Lines without line breaks can be told apart in the text that ends each of them
with one, and no name and no number that is written about an event holds a line break. Names are
told apart, and so are indices. -/

namespace VideoPage.Proofs.UnbrokenLines
open NumberTexts

section Lines

def Unbroken (line : List Char) : Prop := '\n' ∉ line

instance (line : List Char) : Decidable (Unbroken line) := inferInstanceAs (Decidable ('\n' ∉ line))

@[simp] theorem unbroken_nil : Unbroken [] := List.not_mem_nil

@[simp] theorem unbroken_cons {c : Char} {line : List Char} : Unbroken (c :: line) ↔ c ≠ '\n' ∧ Unbroken line := by
  rw [Unbroken, List.mem_cons, not_or, eq_comm]
  rfl

@[simp] theorem unbroken_append {first second : List Char} : Unbroken (first ++ second) ↔ Unbroken first ∧ Unbroken second := by
  rw [Unbroken, List.mem_append, not_or]
  rfl

variable {lines others : List (List Char)}

/-- The text of lines, each with its line break. -/
def terminated (lines : List (List Char)) : List Char := lines.flatMap (· ++ ['\n'])

theorem splitOn_terminated (unbroken : ∀ line ∈ lines, Unbroken line) : (terminated lines).splitOn '\n' = lines ++ [[]] := by
  induction lines with
  | nil => exact List.splitOn_nil '\n'
  | cons line lines ih =>
    have rest := ih (fun other member => unbroken other (List.mem_cons_of_mem line member))
    have cut := List.splitOn_append_cons_self_of_not_mem (unbroken line List.mem_cons_self) (terminated lines)
    rw [rest] at cut
    rw [terminated, List.flatMap_cons, List.append_assoc, List.cons_append]
    exact cut

theorem terminated_inj (unbroken : ∀ line ∈ lines, Unbroken line) (also : ∀ line ∈ others, Unbroken line) :
    terminated lines = terminated others ↔ lines = others := by
  constructor
  · intro same
    have split := congrArg (List.splitOn '\n') same
    rw [splitOn_terminated unbroken, splitOn_terminated also] at split
    exact List.append_cancel_right split
  · exact congrArg terminated

end Lines

section Names

@[simp] theorem unbroken_kind (kind : ComponentKind) : Unbroken kind.name.toList := by
  cases kind
  all_goals decide

@[simp] theorem unbroken_reason (reason : SkipReason) : Unbroken reason.name.toList := by
  cases reason
  all_goals decide

@[simp] theorem unbroken_action (action : ActionKind) : Unbroken action.name.toList := by
  cases action
  all_goals decide

@[simp] theorem kind_inj {a b : ComponentKind} : a.name = b.name ↔ a = b := by
  refine ⟨fun same => ?_, congrArg _⟩
  cases a <;> cases b
  all_goals first | rfl | exact absurd same (by decide)

@[simp] theorem reason_inj {a b : SkipReason} : a.name = b.name ↔ a = b := by
  refine ⟨fun same => ?_, congrArg _⟩
  cases a <;> cases b
  all_goals first | rfl | exact absurd same (by decide)

@[simp] theorem action_inj {a b : ActionKind} : a.name = b.name ↔ a = b := by
  refine ⟨fun same => ?_, congrArg _⟩
  cases a <;> cases b
  all_goals first | rfl | exact absurd same (by decide)

end Names

section Numbers

variable {text whole fraction : List Char} {negative : Bool} {x : ℚ}

theorem unbroken_digits (all : AllDigits text) : Unbroken text := fun member => nomatch all '\n' member

@[simp] theorem unbroken_toDigits (n : Nat) : Unbroken (Nat.toDigits 10 n) :=
  unbroken_digits (WrittenNumbers.allDigits_toDigits n)

@[simp] theorem toDigits_inj {m n : Nat} : Nat.toDigits 10 m = Nat.toDigits 10 n ↔ m = n := by
  constructor
  · intro same
    rw [← WrittenNumbers.ofDigits_toDigits m, same, WrittenNumbers.ofDigits_toDigits]
  · exact congrArg _

theorem unbroken_mantissa (read : Mantissa text whole fraction) : Unbroken text := by
  cases read with
  | whole _ all => exact unbroken_digits all
  | pointed _ all behind => simp [unbroken_digits all, unbroken_digits behind]
  | fraction _ behind => simp [unbroken_digits behind]

theorem unbroken_sign (signed : Sign text negative) : Unbroken text := by
  cases signed
  all_goals decide

theorem unbroken_exponent {power : Int} (scaled : Exponent text power) : Unbroken text := by
  cases scaled with
  | absent => exact unbroken_nil
  | power marks signed _ all => rcases marks with rfl | rfl <;> simp [unbroken_sign signed, unbroken_digits all]

theorem unbroken_writes (writes : Writes text negative x) : Unbroken text := by
  obtain ⟨signed, digits, scaled⟩ := writes
  simp [unbroken_sign signed, unbroken_mantissa digits, unbroken_exponent scaled]

theorem unbroken_pointed (places n : Nat) : Unbroken (Decimal.pointed places n) := by
  by_cases none : places = 0
  · rw [Decimal.pointed, if_pos none]
    exact unbroken_digits (WrittenNumbers.padded_digits _ n).1
  · obtain ⟨whole, fraction, digits, -⟩ := WrittenNumbers.spells_pointed none n
    exact unbroken_mantissa digits

theorem unbroken_nonFinite (x : Binary64) : Unbroken x.nonFiniteText := by
  cases x with
  | nan => decide
  | signed negative =>
    rw [Binary64.nonFiniteText, unbroken_append]
    exact ⟨unbroken_sign (WrittenNumbers.sign_text negative), by decide⟩

@[simp] theorem unbroken_fixedText (places : Nat) (x : Binary64) : Unbroken (x.fixedText places) := by
  cases x with
  | nan => exact unbroken_nonFinite .nan
  | signed negative a =>
    rw [Binary64.fixedText]
    split
    next => simp [unbroken_pointed, unbroken_sign (WrittenNumbers.sign_text negative)]
    next => exact unbroken_nonFinite _

end Numbers

end VideoPage.Proofs.UnbrokenLines
