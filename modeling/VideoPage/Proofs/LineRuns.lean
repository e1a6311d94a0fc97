import VideoPage.Proofs.BraceDepth
import VideoPage.Proofs.SelectorLines

/-! Going through some lines of a sheet while others still follow. What a stretch of lines
comes out as, and the position behind it, do not depend on the rest. -/

namespace VideoPage.Proofs.LineRuns
open Stylesheet TextBlanks SheetScan SelectorLines BraceDepth

/-- Through these lines one position leads to the other. -/
def Through (scope : List Char) (p : Position) (lines out : List (List Char)) (q : Position) : Prop :=
  ∀ number rest, scopeLines scope number p (lines ++ rest) =
    (scopeLines scope (number + lines.length) q rest).map (out ++ ·)

section Runs
variable {scope : List Char} {p q r : Position} {lines out : List (List Char)}

theorem Through.nil (p : Position) : Through scope p [] [] p := by
  intro number rest
  change scopeLines scope number p rest = (scopeLines scope number p rest).map id
  cases scopeLines scope number p rest <;> rfl

theorem Through.append {lines' out' : List (List Char)} (first : Through scope p lines out q)
    (second : Through scope q lines' out' r) : Through scope p (lines ++ lines') (out ++ out') r := by
  intro number rest
  rw [List.append_assoc, first, second, List.length_append, ← Nat.add_assoc]
  cases scopeLines scope (number + lines.length + lines'.length) r rest with
  | error error => rfl
  | ok result => simp [Except.map]

theorem Through.line {line : List Char} (next : p.next? line = some q) :
    Through scope p [line] [lineUnder scope p line] q := by
  intro number rest
  rw [List.singleton_append, scopeLines, next]
  rfl

theorem Through.cons {line new : List Char} (first : Through scope p [line] [new] q)
    (second : Through scope q lines out r) : Through scope p (line :: lines) (new :: out) r :=
  first.append second

end Runs

section Results
variable {scope : List Char} {number : Nat} {p : Position} {line : List Char} {lines out : List (List Char)}

theorem scopeLines_nil_ok (done : scopeLines scope number p [] = .ok out) : p.blocks = [] ∧ out = [] := by
  cases blocks : p.blocks with
  | nil => exact ⟨rfl, by simpa [scopeLines, blocks, eq_comm] using done⟩
  | cons block rest => simp [scopeLines, blocks] at done

theorem scopeLines_cons_ok (done : scopeLines scope number p (line :: lines) = .ok out) :
    ∃ q rest, p.next? line = some q ∧ scopeLines scope (number + 1) q lines = .ok rest ∧
      out = lineUnder scope p line :: rest := by
  cases next : p.next? line with
  | none => simp [scopeLines, next] at done
  | some q =>
    cases rest : scopeLines scope (number + 1) q lines with
    | error error => simp [scopeLines, next, rest, Except.map] at done
    | ok tail => exact ⟨q, tail, rfl, rest, by simpa [scopeLines, next, rest, Except.map, eq_comm] using done⟩

theorem scopeLines_length (done : scopeLines scope number p lines = .ok out) : out.length = lines.length := by
  induction lines generalizing number p out with
  | nil => rw [(scopeLines_nil_ok done).2]
  | cons line lines ih =>
    obtain ⟨q, rest, -, later, rfl⟩ := scopeLines_cons_ok done
    rw [List.length_cons, List.length_cons, ih later]

theorem noBreak_lineUnder (noBreakScope : '\n' ∉ scope) (p : Position) (noBreak : '\n' ∉ line) :
    '\n' ∉ lineUnder scope p line := by
  by_cases kind : p.kindOf line = .selectors
  · rw [lineUnder_selectors kind]
    intro member
    rcases mem_scopeLine member with found | found | found | found
    · exact noBreakScope found
    · exact noBreak found
    · cases found
    · cases found
  · rw [lineUnder_copied kind]
    exact noBreak

theorem scopeLines_noBreak (noBreakScope : '\n' ∉ scope) (noBreaks : ∀ line ∈ lines, '\n' ∉ line)
    (done : scopeLines scope number p lines = .ok out) : ∀ line ∈ out, '\n' ∉ line := by
  induction lines generalizing number p out with
  | nil =>
    obtain ⟨-, rfl⟩ := scopeLines_nil_ok done
    exact fun _ member => nomatch member
  | cons line lines ih =>
    obtain ⟨q, rest, -, later, rfl⟩ := scopeLines_cons_ok done
    have first := noBreak_lineUnder noBreakScope p (noBreaks line List.mem_cons_self)
    have others := ih (fun other member => noBreaks other (List.mem_cons_of_mem line member)) later
    exact List.forall_mem_cons.mpr ⟨first, others⟩

theorem scope_ok {scope css out : String} (done : Stylesheet.scope scope css = .ok out) :
    ∃ lines, scopeLines scope.toList 1 {} (css.toList.splitOn '\n') = .ok lines ∧
      out.toList = ['\n'].intercalate lines := by
  cases lines : scopeLines scope.toList 1 {} (css.toList.splitOn '\n') with
  | error error => simp [Stylesheet.scope, scopeText, lines, Except.map] at done
  | ok result =>
    refine ⟨result, rfl, ?_⟩
    simp only [Stylesheet.scope, scopeText, lines, Except.map, Except.ok.injEq] at done
    rw [← done, String.toList_ofList]

theorem next?_inComment {q : Position} (next : p.next? line = some q) : q.inComment = (p.scan.after line).inComment := by
  obtain ⟨blocks, -, rfl⟩ := Option.map_eq_some_iff.mp next
  rfl

end Results

section Kinds
variable {p : Position} {line : List Char}

theorem kindOf_blank (blank : Blank line) : p.kindOf line = .copied := by
  simp [Position.kindOf, blank.trim_eq]

theorem kindOf_comment (starts : ['/', '*'] <+: Text.trim line) : p.kindOf line = .copied := by
  simp [Position.kindOf, starts]

theorem kindOf_inComment (inside : p.inComment = true) : p.kindOf line = .copied := by
  simp [Position.kindOf, inside]

theorem kindOf_inBlock (inside : Block.holdsSelectors p.blocks = false) : p.kindOf line = .copied := by
  unfold Position.kindOf
  dsimp only
  split
  · rfl
  · simp [inside]

theorem kindOf_closing (starts : ['}'] <+: Text.trim line) : p.kindOf line = .copied := by
  unfold Position.kindOf
  dsimp only
  split
  · rfl
  · simp [starts]

/-- A line that an at-rule may start or go on with. -/
structure RuleText (trimmed : List Char) : Prop where
  nonempty : trimmed ≠ []
  noComment : ¬ ['/', '*'] <+: trimmed
  noClosing : ¬ ['}'] <+: trimmed

theorem kindOf_pending {opens : Block} (outside : p.inComment = false)
    (level : Block.holdsSelectors p.blocks = true) (waiting : p.pending = some opens)
    (text : RuleText (Text.trim line)) : p.kindOf line = .atRule opens := by
  simp [Position.kindOf, outside, level, waiting, text.nonempty, text.noComment, text.noClosing]

theorem kindOf_atRule (outside : p.inComment = false) (level : Block.holdsSelectors p.blocks = true)
    (none : p.pending = none) (starts : (Text.trim line).head? = some '@') :
    p.kindOf line = .atRule (.ofAtRule (Text.trim line)) := by
  obtain ⟨rest, shape⟩ := List.head?_eq_some_iff.mp starts
  simp [Position.kindOf, outside, level, none, shape, List.isPrefixOf]

end Kinds

/-- The position between two rules that stand inside these blocks. -/
def between (blocks : List Block) : Position := { blocks := blocks }

section Lines
variable {scope line : List Char} {p : Position} {blocks blocks' : List Block}

theorem Through.copied (kind : p.kindOf line = .copied)
    (tracked : Block.track? .verbatim (p.scan.braces line) p.blocks = some blocks) :
    Through scope p [line] [line]
      { inComment := (p.scan.after line).inComment, blocks := blocks, pending := p.pending } := by
  have next : p.next? line =
      some { inComment := (p.scan.after line).inComment, blocks := blocks, pending := p.pending } := by
    simp [Position.next?, kind, LineKind.opens, tracked]
  have same : lineUnder scope p line = line := lineUnder_copied (by simp [kind])
  have step : Through scope p [line] [lineUnder scope p line] _ := Through.line next
  rwa [same] at step

theorem Through.kept (kind : (between blocks).kindOf line = .copied)
    (tracked : Block.track? .verbatim (Scan.code.braces line) blocks = some blocks')
    (ends : (Scan.code.after line).inComment = false) :
    Through scope (between blocks) [line] [line] (between blocks') := by
  have step : Through scope (between blocks) [line] [line] _ := Through.copied kind tracked
  rw [scan_of_outside rfl, ends] at step
  exact step

/-- An at-rule waits for its block until a line has a brace or ends it. -/
theorem Through.atRule {opens : Block} (kind : p.kindOf line = .atRule opens)
    (tracked : Block.track? opens (p.scan.braces line) p.blocks = some blocks) :
    Through scope p [line] [line]
      { inComment := (p.scan.after line).inComment, blocks := blocks,
        pending := if p.scan.braces line = [] ∧ (Text.trim line).getLast? ≠ some ';' then some opens else none } := by
  have next : p.next? line = some
      { inComment := (p.scan.after line).inComment, blocks := blocks,
        pending := if p.scan.braces line = [] ∧ (Text.trim line).getLast? ≠ some ';' then some opens else none } := by
    simp [Position.next?, kind, LineKind.opens, tracked]
  have same : lineUnder scope p line = line := lineUnder_copied (by simp [kind])
  have step : Through scope p [line] [lineUnder scope p line] _ := Through.line next
  rwa [same] at step

theorem Through.selectors (kind : (between blocks).kindOf line = .selectors)
    (tracked : Block.track? .rule (Scan.code.braces line) blocks = some blocks')
    (ends : (Scan.code.after line).inComment = false) :
    Through scope (between blocks) [line] [scopeLine scope line] (between blocks') := by
  have next := next?_selectors kind
  rw [between, tracked, ends] at next
  have step : Through scope (between blocks) [line] [lineUnder scope (between blocks) line] (between blocks') :=
    Through.line next
  rwa [lineUnder_selectors kind] at step

end Lines

/-- Braces inside a copied block only open and close copied blocks on top of it. -/
theorem track?_verbatim {braces : List Brace} {opened now : Nat} (blocks : List Block)
    (settled : settle braces opened = some now) :
    Block.track? .verbatim braces (List.replicate opened .verbatim ++ blocks) =
      some (List.replicate now .verbatim ++ blocks) := by
  induction braces generalizing opened with
  | nil =>
    obtain rfl : opened = now := by simpa [settle] using settled
    rfl
  | cons brace braces ih =>
    cases brace with
    | opening => exact @ih (opened + 1) settled
    | closing =>
      cases opened with
      | zero => simp [settle] at settled
      | succ opened => exact @ih opened settled

theorem track?_append {first second : List Brace} {blocks : List Block} :
    Block.track? .verbatim (first ++ second) blocks =
      (Block.track? .verbatim first blocks).bind (Block.track? .verbatim second) := by
  induction first generalizing blocks with
  | nil => rfl
  | cons brace first ih =>
    cases brace with
    | opening => exact ih
    | closing =>
      cases blocks with
      | nil => rfl
      | cons block blocks => exact ih

theorem settle_append {first second : List Brace} {opened : Nat} :
    settle (first ++ second) opened = (settle first opened).bind (settle second) := by
  induction first generalizing opened with
  | nil => rfl
  | cons brace first ih =>
    cases brace with
    | opening => exact ih
    | closing =>
      cases opened with
      | zero => rfl
      | succ opened => exact ih

end VideoPage.Proofs.LineRuns
