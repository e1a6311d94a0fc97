import VideoPage.Proofs.BraceDepth
import VideoPage.Proofs.SheetBraces
import VideoPage.Proofs.SelectorLists
import VideoPage.Stylesheet.Scoping

/-! When a sheet cannot be scoped, and what is said about it, is decided by its structural
braces alone. The blocks that are open after a line are as many as the braces before its
end have opened and not closed, whichever way its lines were taken. -/

namespace VideoPage.Proofs.ScopingErrors
open Stylesheet SheetScan SheetBraces BraceDepth SelectorLists

def lineAfter (front : List Char) : Nat := front.count '\n' + 1

theorem track?_length (opens : Block) (braces : List Brace) (blocks : List Block) :
    (Block.track? opens braces blocks).map List.length = settle braces blocks.length := by
  induction braces generalizing opens blocks with
  | nil => rfl
  | cons brace rest ih =>
    cases brace with
    | opening => exact ih .verbatim (opens :: blocks)
    | closing =>
      cases blocks with
      | nil => rfl
      | cons _ blocks => exact ih opens blocks

/-- The structural braces of lines that follow each other, each with the number of its line. -/
def lineBraces : Nat → Bool → List (List Char) → List (Nat × Brace)
  | _, _, [] => []
  | number, inComment, line :: rest =>
    ((Scan.atLineStart inComment).braces line).map (number, ·) ++
      lineBraces (number + 1) ((Scan.atLineStart inComment).after line).inComment rest

theorem scopeLines_verdict (scope : List Char) (number : Nat) (p : Position) (lines : List (List Char)) :
    (scopeLines scope number p lines).map (fun _ => ()) =
      verdict id p.blocks.length (lineBraces number p.inComment lines) := by
  -- The blocks of a position are as many as are open: their kinds only matter to the text.
  induction lines generalizing number p with
  | nil =>
    rw [scopeLines, lineBraces, verdict]
    cases p.blocks with
    | nil => rfl
    | cons block blocks => rfl
  | cons line lines ih =>
    have tracked := track?_length (p.kindOf line).opens (p.scan.braces line) p.blocks
    rw [scopeLines, lineBraces, verdict_line, ← Position.scan, ← tracked]
    cases after : Block.track? (p.kindOf line).opens (p.scan.braces line) p.blocks with
    | none => simp [Position.next?, after, Except.map]
    | some blocks =>
      obtain ⟨q, next, same, comment⟩ : ∃ q, p.next? line = some q ∧ q.blocks = blocks ∧
          q.inComment = (p.scan.after line).inComment := by simp [Position.next?, after]
      have rest := ih (number + 1) q
      rw [same, comment] at rest
      rw [next, Option.map_some]
      dsimp only
      rw [← rest]
      cases scopeLines scope (number + 1) q lines <;> rfl

theorem located_line (s : Scan) (front : List Char) {line : List Char} (noBreak : '\n' ∉ line) :
    (located s front line).map (fun brace => (lineAfter brace.1, brace.2)) =
      (s.braces line).map (lineAfter front, ·) := by
  induction line generalizing s front with
  | nil => rfl
  | cons c line ih =>
    have same : lineAfter (front ++ [c]) = lineAfter front := by
      have other : c ≠ '\n' := fun same => noBreak (same ▸ List.mem_cons_self)
      simp [lineAfter, other]
    rw [located, List.map_append, ih _ _ (fun member => noBreak (List.mem_cons_of_mem c member)), same, braces_cons,
      List.map_append]
    cases s.brace? c <;> rfl

theorem lineAfter_locatedLines (inComment : Bool) (front : List Char) {lines : List (List Char)}
    (noBreaks : ∀ line ∈ lines, '\n' ∉ line) :
    (locatedLines inComment front lines).map (fun brace => (lineAfter brace.1, brace.2)) =
      lineBraces (lineAfter front) inComment lines := by
  induction lines generalizing inComment front with
  | nil => rfl
  | cons line lines ih =>
    have noBreak := noBreaks line List.mem_cons_self
    have number : lineAfter (front ++ line ++ ['\n']) = lineAfter front + 1 := by
      have none : line.count '\n' = 0 := List.count_eq_zero.mpr noBreak
      simp [lineAfter, none]
    rw [locatedLines, List.map_append, located_line _ _ noBreak, lineBraces, ← number,
      ih _ _ fun other member => noBreaks other (List.mem_cons_of_mem line member)]

/-- Whether a sheet can be scoped is the verdict on its structural braces, for any scope. -/
theorem scope_verdict (scope css : String) :
    (Stylesheet.scope scope css).map (fun _ => ()) = verdict lineAfter 0 (structuralBraces css.toList) := by
  have braces : structuralBraces css.toList = located .code [] css.toList :=
    bracesFrom_eq_located .code trivial [] css.toList
  have noBreaks : ∀ line ∈ css.toList.splitOn '\n', '\n' ∉ line := fun line member => (splitOn_parts member).1
  have lines := lineAfter_locatedLines false [] noBreaks
  rw [← located_intercalate, List.intercalate_splitOn] at lines
  have run := scopeLines_verdict scope.toList 1 {} (css.toList.splitOn '\n')
  rw [braces, ← verdict_map]
  change _ = verdict id 0 ((located (.atLineStart false) [] css.toList).map _)
  rw [lines]
  refine Eq.trans ?_ run
  simp only [Stylesheet.scope, scopeText]
  cases scopeLines scope.toList 1 {} (css.toList.splitOn '\n') <;> rfl

/-- The errors are exact and no scope changes them: a brace that closes nothing is reported by
its line, else the blocks left open by their number, else there is a result. -/
theorem scope_outcome (scope css : String) :
    (∀ line, Stylesheet.scope scope css = .error (.unbalanced line) ↔
      ∃ front, FallsAt (structuralBraces css.toList) front ∧ lineAfter front = line) ∧
    (∀ opened, Stylesheet.scope scope css = .error (.unclosed opened) ↔
      NeverBelow (structuralBraces css.toList) ∧ 0 < opened ∧ depth (structuralBraces css.toList) = opened) ∧
    ((∃ out, Stylesheet.scope scope css = .ok out) ↔
      NeverBelow (structuralBraces css.toList) ∧ depth (structuralBraces css.toList) = 0) := by
  have outcome := scope_verdict scope css
  have failed : ∀ error, Stylesheet.scope scope css = .error error ↔
      verdict lineAfter 0 (structuralBraces css.toList) = .error error := by
    intro error
    rw [← outcome]
    cases Stylesheet.scope scope css <;> simp [Except.map]
  have succeeded : (∃ out, Stylesheet.scope scope css = .ok out) ↔
      verdict lineAfter 0 (structuralBraces css.toList) = .ok () := by
    rw [← outcome]
    cases Stylesheet.scope scope css <;> simp [Except.map]
  refine ⟨fun line => ?_, fun opened => ?_, ?_⟩
  · rw [failed, verdict_unbalanced_iff]
  · rw [failed, verdict_unclosed_iff]
  · rw [succeeded, verdict_ok_iff]

end VideoPage.Proofs.ScopingErrors
