import VideoPage.Proofs.SheetPositions

/-! One sheet behind another. What the first one leaves behind for the second is at most an
at-rule that waits for its block. A line ends an at-rule by a brace or by a semicolon that
is its last visible character; an at-rule that no line ends so takes the next rule. -/

namespace VideoPage.Proofs.SheetJoins
open Stylesheet SelectorLists SelectorLines LineRuns SheetPositions

/-- A line that rules are read from. Lines in comments and declarations are not, and neither
are lines that start with a comment or with a closing brace. -/
structure AtRuleLevel (p : Position) (line : List Char) : Prop where
  outside : p.inComment = false
  level : Block.holdsSelectors p.blocks = true
  text : RuleText (Text.trim line)

def StartsAtRule (line : List Char) : Prop := (Text.trim line).head? = some '@'

/-- The line ends no at-rule. -/
structure GoesOn (line : List Char) : Prop where
  noBrace : Scan.code.braces line = []
  noSemicolon : (Text.trim line).getLast? ≠ some ';'

/-- A line starts an at-rule that neither it nor a later line ends. -/
def LeavesAtRule (p : Position) (lines : List (List Char)) : Prop :=
  ∃ first q line, ReadAt p lines first q line ∧ AtRuleLevel q line ∧ StartsAtRule line ∧
    ∀ later r next, first ≤ later → ReadAt p lines later r next → AtRuleLevel r next → GoesOn next

section Lines
variable {p q r : Position} {line : List Char} {lines : List (List Char)}

theorem leavesAtRule_concat (through : through? p lines = some q) :
    LeavesAtRule p (lines ++ [line]) ↔
      LeavesAtRule p lines ∧ (AtRuleLevel q line → GoesOn line) ∨
        AtRuleLevel q line ∧ StartsAtRule line ∧ GoesOn line := by
  have readAt : ∀ {index r other}, ReadAt p (lines ++ [line]) index r other ↔ _ := readAt_concat through
  constructor
  · rintro ⟨first, r, start, read, level, starts, goesOn⟩
    have last : first ≤ lines.length → AtRuleLevel q line → GoesOn line :=
      fun inside => goesOn lines.length q line inside (readAt.mpr (Or.inr ⟨rfl, rfl, rfl⟩))
    rcases readAt.mp read with read | ⟨rfl, rfl, rfl⟩
    · refine Or.inl ⟨⟨first, r, start, read, level, starts, ?_⟩, last (Nat.le_of_lt read.index_lt)⟩
      intro later r next behind read
      exact goesOn later r next behind (readAt.mpr (Or.inl read))
    · exact Or.inr ⟨level, starts, last (Nat.le_refl _) level⟩
  · rintro (⟨⟨first, r, start, read, level, starts, goesOn⟩, last⟩ | ⟨level, starts, goesOn⟩)
    · refine ⟨first, r, start, readAt.mpr (Or.inl read), level, starts, ?_⟩
      intro later r next behind read
      rcases readAt.mp read with read | ⟨rfl, rfl, rfl⟩
      · exact goesOn later r next behind read
      · exact last
    · refine ⟨lines.length, q, line, readAt.mpr (Or.inr ⟨rfl, rfl, rfl⟩), level, starts, ?_⟩
      intro later r next behind read _
      rcases readAt.mp read with read | ⟨-, -, rfl⟩
      · exact absurd read.index_lt (Nat.not_lt.mpr behind)
      · exact goesOn

theorem kindOf_copied (copied : ¬ AtRuleLevel p line) : p.kindOf line = .copied := by
  by_cases outside : p.inComment = false
  · by_cases level : Block.holdsSelectors p.blocks = true
    · by_contra kind
      refine copied ⟨outside, level, ?_, ?_, ?_⟩
      · exact fun empty => kind (kindOf_blank ((TextBlanks.trim_eq_nil_iff line).mp empty))
      · exact fun starts => kind (kindOf_comment starts)
      · exact fun starts => kind (kindOf_closing starts)
    · exact kindOf_inBlock (Bool.eq_false_iff.mpr level)
  · exact kindOf_inComment (Bool.not_eq_false _ ▸ outside)

theorem next?_pending_atRule {opens : Block} (outside : p.inComment = false) (kind : p.kindOf line = .atRule opens)
    (next : p.next? line = some q) : q.pending.isSome = true ↔ GoesOn line := by
  obtain ⟨blocks, -, rfl⟩ := Option.map_eq_some_iff.mp next
  simp only [kind, scan_of_outside outside]
  constructor
  · intro waits
    split at waits
    next goesOn =>
      simp only [Bool.and_eq_true, List.isEmpty_iff, bne_iff_ne] at goesOn
      exact ⟨goesOn.1, goesOn.2⟩
    next => cases waits
  · rintro ⟨noBrace, noSemicolon⟩
    simp [noBrace, noSemicolon]

theorem next?_pending_copied (kind : p.kindOf line = .copied) (next : p.next? line = some q) :
    q.pending = p.pending := by
  obtain ⟨blocks, -, rfl⟩ := Option.map_eq_some_iff.mp next
  simp only [kind]

/-- Only lines at the level of rules start at-rules or end them. -/
theorem next?_pending (next : p.next? line = some q) :
    q.pending.isSome = true ↔
      p.pending.isSome = true ∧ (AtRuleLevel p line → GoesOn line) ∨
        AtRuleLevel p line ∧ StartsAtRule line ∧ GoesOn line := by
  by_cases atLevel : AtRuleLevel p line
  · have ⟨outside, level, text⟩ := atLevel
    cases waiting : p.pending with
    | some opens =>
      rw [next?_pending_atRule outside (kindOf_pending outside level waiting text) next]
      simp [atLevel]
    | none =>
      by_cases starts : StartsAtRule line
      · rw [next?_pending_atRule outside (kindOf_atRule outside level waiting starts) next]
        simp [atLevel, starts]
      · have rule : StartsRule (Text.trim line) := by
          refine ⟨text.nonempty, ?_, ?_, ?_⟩
          · simpa [← Bool.not_eq_true] using text.noComment
          · simpa [← Bool.not_eq_true] using text.noClosing
          · rw [← Bool.not_eq_true, List.isPrefixOf_iff_prefix]
            rintro ⟨rest, shape⟩
            exact starts (by simp [StartsAtRule, ← shape])
        have kind := (kindOf_eq_selectors_iff p line).mpr ⟨outside, level, waiting, rule⟩
        rw [next?_selectors kind] at next
        obtain ⟨blocks, -, rfl⟩ := Option.map_eq_some_iff.mp next
        simp [starts]
  · rw [next?_pending_copied (kindOf_copied atLevel) next]
    simp [atLevel]

/-- An at-rule waits behind the lines exactly when they leave one. -/
theorem pending_iff (fresh : p.pending = none) (through : through? p lines = some q) :
    q.pending.isSome = true ↔ LeavesAtRule p lines := by
  induction lines using List.reverseRecOn generalizing q with
  | nil =>
    obtain rfl : p = q := by simpa [through?] using through
    have none : ¬ LeavesAtRule p [] := by
      rintro ⟨first, q, line, read, -⟩
      exact absurd read.index_lt (Nat.not_lt_zero first)
    simp [fresh, none]
  | append_singleton lines line ih =>
    obtain ⟨last, before, next⟩ := through?_concat through
    rw [next?_pending next, leavesAtRule_concat before, ih before]

end Lines

section Sheets
variable {scope css out : String}

theorem linesOf_append (css more : String) : linesOf (css ++ "\n" ++ more) = linesOf css ++ linesOf more := by
  have text : (css ++ "\n" ++ more).toList = css.toList ++ '\n' :: more.toList := by simp
  rw [linesOf, text, List.splitOn_append_cons_self]
  rfl

/-- Behind a sheet that was scoped the next one starts as if it were alone, but for an at-rule
that the first one leaves. -/
theorem scope_append {lines : List (List Char)} (done : scopeLines scope.toList 1 {} (linesOf css) = .ok lines)
    (outside : (Scan.code.after css.toList).inComment = false) (more : String) :
    ∃ pending, (pending.isSome = true ↔ LeavesAtRule {} (linesOf css)) ∧
      scopeLines scope.toList 1 {} (linesOf (css ++ "\n" ++ more)) =
        (scopeLines scope.toList (1 + (linesOf css).length) { pending } (linesOf more)).map (lines ++ ·) := by
  obtain ⟨q, through, closed, run⟩ := through_of_ok done
  have shape : q = { pending := q.pending } := by
    have inComment := (through_sheet_inComment through).trans outside
    rw [Position.mk.injEq]
    exact ⟨inComment, closed, rfl⟩
  refine ⟨q.pending, pending_iff rfl through, ?_⟩
  rw [linesOf_append, run, ← shape]

/-- A rule that any scope changes: it comes out with a blank in front of its brace. -/
theorem scope_rule (scope : String) :
    scopeLines scope.toList 1 {} (linesOf "a\x7b\x7d") =
      .ok [Selector.listUnder scope.toList ['a'] ++ [' ', '\x7b', '\x7d']] := by
  have lines : linesOf "a\x7b\x7d" = [['a', '\x7b', '\x7d']] := by decide
  have next : Position.next? {} ['a', '\x7b', '\x7d'] = some {} := by decide
  have kind : Position.kindOf {} ['a', '\x7b', '\x7d'] = .selectors := by decide
  have split : Scan.code.splitAtBrace? ['a', '\x7b', '\x7d'] = some (['a'], .opening, ['\x7b', '\x7d']) := by decide
  have under : scopeLine scope.toList ['a', '\x7b', '\x7d'] =
      Selector.listUnder scope.toList ['a'] ++ [' ', '\x7b', '\x7d'] :=
    scopeLine_opening split (TextBlanks.Solid.singleton rfl).not_blank
  simp only [lines, scopeLines, next, lineUnder_selectors kind, under]
  rfl

/-- The same rule is taken for the block of an at-rule that waits, and is copied. -/
theorem copies_rule (scope : String) (number : Nat) (opens : Block) :
    scopeLines scope.toList number { pending := some opens } (linesOf "a\x7b\x7d") = .ok [['a', '\x7b', '\x7d']] := by
  have lines : linesOf "a\x7b\x7d" = [['a', '\x7b', '\x7d']] := by decide
  have next : Position.next? { pending := some opens } ['a', '\x7b', '\x7d'] = some {} := by cases opens <;> decide
  have kind : Position.kindOf { pending := some opens } ['a', '\x7b', '\x7d'] ≠ .selectors := by cases opens <;> decide
  simp only [lines, scopeLines, next, lineUnder_copied kind]
  rfl

/-- Two scoped sheets, one behind the other, are the two sheets scoped as one, whatever the
second sheet is, exactly when the first one leaves no at-rule. -/
theorem scope_append_iff (done : Stylesheet.scope scope css = .ok out)
    (outside : (Scan.code.after css.toList).inComment = false) :
    (∀ more out', Stylesheet.scope scope more = .ok out' →
        Stylesheet.scope scope (css ++ "\n" ++ more) = .ok (out ++ "\n" ++ out')) ↔
      ¬ LeavesAtRule {} (linesOf css) := by
  obtain ⟨lines, done, text⟩ := scope_ok_iff.mp done
  have nonempty : ∀ {scope number p sheet lines}, scopeLines scope number p (linesOf sheet) = .ok lines → lines ≠ [] := by
    rintro scope number p sheet lines done rfl
    have size := scopeLines_length done
    exact linesOf_ne_nil sheet (List.length_eq_zero_iff.mp size.symm)
  constructor
  · intro joins leaves
    obtain ⟨pending, waits, run⟩ := scope_append done outside "a\x7b\x7d"
    obtain ⟨opens, rfl⟩ := Option.isSome_iff_exists.mp (waits.mpr leaves)
    have alone : Stylesheet.scope scope "a\x7b\x7d" =
        .ok (String.ofList (Selector.listUnder scope.toList ['a'] ++ [' ', '\x7b', '\x7d'])) :=
      scope_ok_iff.mpr ⟨_, scope_rule scope, by simp⟩
    obtain ⟨joined, done', text'⟩ := scope_ok_iff.mp (joins _ _ alone)
    rw [run, copies_rule] at done'
    obtain rfl : lines ++ [['a', '\x7b', '\x7d']] = joined := by simpa [Except.map] using done'
    rw [intercalate_append _ (nonempty done) (List.cons_ne_nil _ _), ← text] at text'
    have copied : Selector.listUnder scope.toList ['a'] ++ [' ', '\x7b', '\x7d'] = [] ++ ['a', '\x7b', '\x7d'] := by
      simpa using text'
    have blank := (List.append_inj' copied rfl).2
    simp at blank
  · intro ended more out' done'
    obtain ⟨lines', done', text'⟩ := scope_ok_iff.mp done'
    obtain ⟨pending, waits, run⟩ := scope_append done outside more
    obtain rfl : pending = none := by simpa [ended] using waits
    rw [scopeLines_number (1 + (linesOf css).length) done'] at run
    refine scope_ok_iff.mpr ⟨lines ++ lines', run, ?_⟩
    rw [intercalate_append _ (nonempty done) (nonempty done'), ← text, ← text']
    simp

/-- A comment behind the semicolon: the at-rule is over, but its line does not end it, and the
rule that follows is copied. -/
theorem scope_append_iff_comment_behind :
    Stylesheet.scope ".x" "@import \"a.css\"; /* base */" = .ok "@import \"a.css\"; /* base */" ∧
      (Scan.code.after "@import \"a.css\"; /* base */".toList).inComment = false ∧
      LeavesAtRule {} (linesOf "@import \"a.css\"; /* base */") ∧
      ¬ ∀ more out, Stylesheet.scope ".x" more = .ok out →
        Stylesheet.scope ".x" ("@import \"a.css\"; /* base */" ++ "\n" ++ more) =
          .ok ("@import \"a.css\"; /* base */" ++ "\n" ++ out) := by
  have done : Stylesheet.scope ".x" "@import \"a.css\"; /* base */" = .ok "@import \"a.css\"; /* base */" := by
    decide +kernel
  have outside : (Scan.code.after "@import \"a.css\"; /* base */".toList).inComment = false := by decide +kernel
  have lines : linesOf "@import \"a.css\"; /* base */" = ["@import \"a.css\"; /* base */".toList] := by decide +kernel
  have trimmed : Text.trim "@import \"a.css\"; /* base */".toList = "@import \"a.css\"; /* base */".toList := by decide +kernel
  have text : RuleText (Text.trim "@import \"a.css\"; /* base */".toList) := by
    rw [trimmed]
    exact ⟨by simp, by simp, by simp⟩
  have starts : (Text.trim "@import \"a.css\"; /* base */".toList).head? = some '@' := by decide +kernel
  have goesOn : GoesOn "@import \"a.css\"; /* base */".toList := ⟨by decide +kernel, by decide +kernel⟩
  have leaves : LeavesAtRule {} (linesOf "@import \"a.css\"; /* base */") := by
    rw [lines]
    refine ⟨0, {}, _, ⟨rfl, rfl⟩, ⟨rfl, rfl, text⟩, starts, ?_⟩
    intro later r next _ read _
    obtain rfl : later = 0 := by simpa using read.index_lt
    exact Option.some.inj read.line ▸ goesOn
  exact ⟨done, outside, leaves, fun joins => (scope_append_iff done outside).mp joins leaves⟩

end Sheets

end VideoPage.Proofs.SheetJoins
