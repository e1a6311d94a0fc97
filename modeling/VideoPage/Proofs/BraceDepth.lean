import Mathlib
import VideoPage.Stylesheet.Block

/-! How deep braces nest. Going through them from the first to the last, a sheet is refused
at the first one that closes nothing, or else at its end for the blocks that are still open. -/

namespace VideoPage.Proofs.BraceDepth
open Stylesheet

/-- How many more blocks some braces open than they close. -/
def depth {α : Type} (braces : List (α × Brace)) : Int :=
  (braces.map fun brace => match brace.2 with | .opening => 1 | .closing => -1).sum

/-- No brace closes a block that was not opened before it. -/
def NeverBelow {α : Type} (braces : List (α × Brace)) : Prop :=
  ∀ part, part <+: braces → 0 ≤ depth part

/-- The first brace by which the depth falls below zero, by the place it is at. -/
def FallsAt {α : Type} (braces : List (α × Brace)) (place : α) : Prop :=
  ∃ before after, braces = before ++ (place, .closing) :: after ∧ NeverBelow before ∧
    depth (before ++ [(place, .closing)]) < 0

variable {α : Type}

/-- The outcome for braces that come after some blocks were opened. -/
def verdict (line : α → Nat) : Nat → List (α × Brace) → Except ScopeError Unit
  | opened, [] => if opened = 0 then .ok () else .error (.unclosed opened)
  | opened, (_, .opening) :: rest => verdict line (opened + 1) rest
  | 0, (place, .closing) :: _ => .error (.unbalanced (line place))
  | opened + 1, (_, .closing) :: rest => verdict line opened rest

/-- The number of blocks that are open after a line's braces. -/
def settle : List Brace → Nat → Option Nat
  | [], opened => some opened
  | .opening :: rest, opened => settle rest (opened + 1)
  | .closing :: _, 0 => none
  | .closing :: rest, opened + 1 => settle rest opened

theorem verdict_line (line : Nat) (braces : List Brace) (rest : List (Nat × Brace)) (opened : Nat) :
    verdict id opened (braces.map (line, ·) ++ rest) =
      match settle braces opened with
      | none => .error (.unbalanced line)
      | some now => verdict id now rest := by
  induction braces generalizing opened with
  | nil => rfl
  | cons brace braces ih =>
    cases brace with
    | opening => exact ih (opened + 1)
    | closing =>
      cases opened with
      | zero => rfl
      | succ opened => exact ih opened

theorem depth_opening (place : α) (braces : List (α × Brace)) :
    depth ((place, .opening) :: braces) = depth braces + 1 := by
  simp only [depth, List.map_cons, List.sum_cons]
  omega

theorem depth_closing (place : α) (braces : List (α × Brace)) :
    depth ((place, .closing) :: braces) = depth braces - 1 := by
  simp only [depth, List.map_cons, List.sum_cons]
  omega

theorem depth_append (first second : List (α × Brace)) : depth (first ++ second) = depth first + depth second := by
  simp only [depth, List.map_append, List.sum_append]

variable {line : α → Nat}

/-- The braces in front of a line may have opened blocks, so the depth starts above zero. -/
theorem verdict_falls {before : List (α × Brace)} (place : α) (after : List (α × Brace)) {opened : Nat}
    (above : ∀ part, part <+: before → 0 ≤ opened + depth part) (spent : opened + depth before = 0) :
    verdict line opened (before ++ (place, .closing) :: after) = .error (.unbalanced (line place)) := by
  induction before generalizing opened with
  | nil =>
    have none : opened = 0 := by simpa [depth] using spent
    rw [none]
    rfl
  | cons brace before ih =>
    have parts : ∀ part, part <+: before → 0 ≤ opened + depth (brace :: part) :=
      fun part shorter => above _ (List.cons_prefix_cons.mpr ⟨rfl, shorter⟩)
    obtain ⟨other, kind⟩ := brace
    cases kind with
    | opening =>
      simp only [depth_opening] at parts spent
      refine @ih (opened + 1) (fun part shorter => ?_) (by omega)
      have bound := parts part shorter
      omega
    | closing =>
      simp only [depth_closing] at parts spent
      have bound := parts [] List.nil_prefix
      cases opened with
      | zero => simp [depth] at bound
      | succ opened =>
        refine ih (fun part shorter => ?_) (by omega)
        have bound := parts part shorter
        omega

theorem verdict_never {braces : List (α × Brace)} {opened : Nat}
    (above : ∀ part, part <+: braces → 0 ≤ opened + depth part) :
    verdict line opened braces =
      if opened + depth braces = 0 then .ok () else .error (.unclosed (opened + depth braces).toNat) := by
  induction braces generalizing opened with
  | nil =>
    rw [verdict]
    simp [depth]
  | cons brace braces ih =>
    have parts : ∀ part, part <+: braces → 0 ≤ opened + depth (brace :: part) :=
      fun part shorter => above _ (List.cons_prefix_cons.mpr ⟨rfl, shorter⟩)
    obtain ⟨other, kind⟩ := brace
    cases kind with
    | opening =>
      simp only [depth_opening] at parts ⊢
      have rest := @ih (opened + 1) (fun part shorter => by have bound := parts part shorter; omega)
      have same : ((opened + 1 : Nat) : Int) + depth braces = opened + (depth braces + 1) := by omega
      rw [verdict, rest, same]
    | closing =>
      simp only [depth_closing] at parts ⊢
      have bound := parts [] List.nil_prefix
      cases opened with
      | zero => simp [depth] at bound
      | succ opened =>
        have rest := @ih opened (fun part shorter => by have bound := parts part shorter; omega)
        have same : ((opened + 1 : Nat) : Int) + (depth braces - 1) = opened + depth braces := by omega
        rw [verdict, rest, same]

theorem never_or_falls (braces : List (α × Brace)) : NeverBelow braces ∨ ∃ place, FallsAt braces place := by
  induction braces using List.reverseRecOn with
  | nil =>
    refine Or.inl fun part shorter => ?_
    rw [List.prefix_nil.mp shorter]
    simp [depth]
  | append_singleton braces brace ih =>
    rcases ih with never | ⟨place, before, after, rfl, above, below⟩
    · by_cases below : depth (braces ++ [brace]) < 0
      · obtain ⟨place, kind⟩ := brace
        cases kind with
        | opening =>
          have bound := never braces (List.prefix_refl braces)
          rw [depth_append, depth_opening] at below
          simp only [depth, List.map_nil, List.sum_nil] at below bound
          omega
        | closing => exact Or.inr ⟨place, braces, [], rfl, never, below⟩
      · refine Or.inl fun part shorter => ?_
        rcases List.prefix_concat_iff.mp shorter with rfl | shorter
        · omega
        · exact never part shorter
    · exact Or.inr ⟨place, before, after ++ [brace], by simp, above, below⟩

theorem FallsAt.verdict_eq {braces : List (α × Brace)} {place : α} (falls : FallsAt braces place) :
    verdict line 0 braces = .error (.unbalanced (line place)) := by
  obtain ⟨before, after, rfl, above, below⟩ := falls
  have last := above before (List.prefix_refl before)
  rw [depth_append, depth_closing] at below
  simp only [depth, List.map_nil, List.sum_nil] at below last
  refine verdict_falls place after (fun part shorter => ?_) ?_
  · have bound := above part shorter
    omega
  · simp only [depth]
    omega

theorem NeverBelow.verdict_eq {braces : List (α × Brace)} (never : NeverBelow braces) :
    verdict line 0 braces = if depth braces = 0 then .ok () else .error (.unclosed (depth braces).toNat) := by
  have above : ∀ part, part <+: braces → 0 ≤ ((0 : Nat) : Int) + depth part :=
    fun part shorter => by simpa using never part shorter
  simpa using verdict_never above

theorem verdict_unbalanced_iff {braces : List (α × Brace)} {number : Nat} :
    verdict line 0 braces = .error (.unbalanced number) ↔ ∃ place, FallsAt braces place ∧ line place = number := by
  constructor
  · intro refused
    rcases never_or_falls braces with never | ⟨place, falls⟩
    · rw [never.verdict_eq] at refused
      split at refused <;> cases refused
    · rw [falls.verdict_eq, Except.error.injEq, ScopeError.unbalanced.injEq] at refused
      exact ⟨place, falls, refused⟩
  · rintro ⟨place, falls, rfl⟩
    exact falls.verdict_eq

theorem verdict_unclosed_iff {braces : List (α × Brace)} {opened : Nat} :
    verdict line 0 braces = .error (.unclosed opened) ↔ NeverBelow braces ∧ 0 < opened ∧ depth braces = opened := by
  constructor
  · intro refused
    rcases never_or_falls braces with never | ⟨place, falls⟩
    · have bound := never braces (List.prefix_refl braces)
      rw [never.verdict_eq] at refused
      split at refused
      · cases refused
      · rw [Except.error.injEq, ScopeError.unclosed.injEq] at refused
        refine ⟨never, ?_, ?_⟩
        · omega
        · omega
    · rw [falls.verdict_eq] at refused
      cases refused
  · rintro ⟨never, left_open, same⟩
    have visible : depth braces ≠ 0 := by omega
    rw [never.verdict_eq, if_neg visible, same, Int.toNat_natCast]

theorem verdict_ok_iff {braces : List (α × Brace)} :
    verdict line 0 braces = .ok () ↔ NeverBelow braces ∧ depth braces = 0 := by
  constructor
  · intro accepted
    rcases never_or_falls braces with never | ⟨place, falls⟩
    · rw [never.verdict_eq] at accepted
      split at accepted
      next closed => exact ⟨never, closed⟩
      next => cases accepted
    · rw [falls.verdict_eq] at accepted
      cases accepted
  · rintro ⟨never, closed⟩
    rw [never.verdict_eq, if_pos closed]

theorem verdict_map (braces : List (α × Brace)) (opened : Nat) :
    verdict id opened (braces.map fun brace => (line brace.1, brace.2)) = verdict line opened braces := by
  induction braces generalizing opened with
  | nil => rfl
  | cons brace braces ih =>
    obtain ⟨place, kind⟩ := brace
    cases kind with
    | opening => exact ih (opened + 1)
    | closing =>
      cases opened with
      | zero => rfl
      | succ opened => exact ih opened

end VideoPage.Proofs.BraceDepth
