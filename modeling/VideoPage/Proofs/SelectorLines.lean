import VideoPage.Proofs.ScopedScan
import VideoPage.Stylesheet.Scoping

/-! Lines of a stylesheet that hold selectors: when a line is one, and what is put in its
place. Everything else about a line is copied. -/

namespace VideoPage.Proofs.SelectorLines
open Stylesheet Selector TextBlanks SheetScan SelectorLists ScopedScan

/-- A trimmed line starts with none of the marks of a comment, a closing brace or an at-rule. -/
structure StartsRule (trimmed : List Char) : Prop where
  nonempty : trimmed ≠ []
  noComment : ['/', '*'].isPrefixOf trimmed = false
  noClosing : ['}'].isPrefixOf trimmed = false
  noAtRule : ['@'].isPrefixOf trimmed = false

theorem startsRule_cons {c : Char} {rest : List Char} (noSlash : c ≠ '/') (noBrace : c ≠ '}') (noAt : c ≠ '@') :
    StartsRule (c :: rest) := by
  constructor
  · exact List.cons_ne_nil c rest
  all_goals simp [List.isPrefixOf, noSlash.symm, noBrace.symm, noAt.symm]

/-- What stands behind the first characters matters only to a slash on its own. -/
theorem startsRule_append {core rest : List Char} (nonempty : core ≠ []) (noComment : ¬ ['/', '*'] <+: core)
    (noClosing : core.head? ≠ some '}') (noAtRule : core.head? ≠ some '@') (noStar : rest.head? ≠ some '*') :
    StartsRule (core ++ rest) := by
  cases core with
  | nil => exact absurd rfl nonempty
  | cons c core =>
    have other : c ≠ '}' ∧ c ≠ '@' := ⟨fun same => noClosing (by simp [same]), fun same => noAtRule (by simp [same])⟩
    refine ⟨List.cons_ne_nil c _, ?_, by simp [List.isPrefixOf, other.1.symm], by simp [List.isPrefixOf, other.2.symm]⟩
    rw [← Bool.not_eq_true, List.isPrefixOf_iff_prefix]
    intro starts
    cases core with
    | nil =>
      cases rest with
      | nil => simp at starts
      | cons d rest => exact noStar (by simpa using (List.cons_prefix_cons.mp (List.cons_prefix_cons.mp starts).2).1.symm)
    | cons d core =>
      obtain ⟨first, more⟩ := List.cons_prefix_cons.mp starts
      obtain ⟨second, -⟩ := List.cons_prefix_cons.mp more
      exact noComment (by simp [← first, ← second])

theorem kindOf_eq_selectors_iff (p : Position) (line : List Char) :
    p.kindOf line = .selectors ↔
      p.inComment = false ∧ Block.holdsSelectors p.blocks = true ∧ p.pending = none ∧ StartsRule (Text.trim line) := by
  unfold Position.kindOf
  constructor
  · intro kind
    dsimp only at kind
    split at kind
    · cases kind
    next outside =>
      split at kind
      · cases kind
      next level =>
        cases waiting : p.pending with
        | some opens => simp [waiting] at kind
        | none =>
          simp only [waiting] at kind
          split at kind
          · cases kind
          next noAt =>
            simp only [Bool.or_eq_true, not_or, Bool.not_eq_true, Bool.not_eq_true'] at outside level noAt
            exact ⟨outside.1.1, by simpa using level.1, rfl,
              ⟨by simpa using outside.1.2, outside.2, level.2, noAt⟩⟩
  · rintro ⟨outside, level, waiting, starts⟩
    simp [outside, level, waiting, starts.nonempty, starts.noComment, starts.noClosing, starts.noAtRule]

theorem scan_of_outside {p : Position} (outside : p.inComment = false) : p.scan = .code := by
  rw [Position.scan, outside]
  rfl

theorem next?_selectors {p : Position} {line : List Char} (kind : p.kindOf line = .selectors) :
    p.next? line = (Block.track? .rule (Scan.code.braces line) p.blocks).map fun blocks =>
      { inComment := (Scan.code.after line).inComment, blocks, pending := none } := by
  obtain ⟨outside, -, waiting, -⟩ := (kindOf_eq_selectors_iff p line).mp kind
  simp only [Position.next?, kind, LineKind.opens, scan_of_outside outside, waiting]

theorem lineUnder_selectors {scope line : List Char} {p : Position} (kind : p.kindOf line = .selectors) :
    lineUnder scope p line = scopeLine scope line := by
  rw [lineUnder, kind]

theorem lineUnder_copied {scope line : List Char} {p : Position} (kind : p.kindOf line ≠ .selectors) :
    lineUnder scope p line = line := by
  unfold lineUnder
  split
  next selectors => exact absurd selectors kind
  next => rfl

/-- The text before the commas that end it. -/
def beforeCommas (text : List Char) : List Char := (text.reverse.dropWhile (· = ',')).reverse

theorem beforeCommas_append (text : List Char) :
    ∃ commas, text = beforeCommas text ++ commas ∧ ∀ c ∈ commas, c = ',' := by
  refine ⟨(text.reverse.takeWhile (· = ',')).reverse, ?_, ?_⟩
  · have parts := congrArg List.reverse (List.takeWhile_append_dropWhile (p := (· = ',')) (l := text.reverse))
    simpa only [beforeCommas, List.reverse_append, List.reverse_reverse] using parts.symm
  · intro c member
    simpa using List.mem_takeWhile_imp (List.mem_reverse.mp member)

theorem beforeCommas_comma {text : List Char} (ends : ∀ c ∈ text.getLast?, c ≠ ',') :
    beforeCommas (text ++ [',']) = text := by
  rw [beforeCommas]
  rcases List.eq_nil_or_concat text with rfl | ⟨init, last, rfl⟩
  · simp
  · have other : last ≠ ',' := ends last (by simp)
    simp [other]

theorem beforeCommas_cut {text : List Char} (comma : text.getLast? = some ',') :
    ∃ more, text = beforeCommas text ++ ',' :: more ∧ ∀ c ∈ more, c = ',' := by
  obtain ⟨commas, cut, all⟩ := beforeCommas_append text
  cases commas with
  | nil =>
    obtain ⟨init, rfl⟩ := List.getLast?_eq_some_iff.mp comma
    have shorter : beforeCommas (init ++ [',']) = beforeCommas init := by simp [beforeCommas]
    obtain ⟨commas, cut', -⟩ := beforeCommas_append init
    rw [shorter, List.append_nil] at cut
    have length := congrArg List.length cut
    have length' := congrArg List.length cut'
    simp only [List.length_append, List.length_singleton] at length length'
    omega
  | cons c more =>
    obtain rfl : c = ',' := all c List.mem_cons_self
    exact ⟨more, cut, fun d member => all d (List.mem_cons_of_mem _ member)⟩

/-- What stands in the place of a line of selectors. The list may end at a brace, or at a
comma when it goes on over the next line; all other lines stay. -/
theorem scopeLine_cases (scope line : List Char) :
    scopeLine scope line = line ∨
      (∃ head tail, Scan.code.splitAtBrace? line = some (head, .opening, tail) ∧ ¬ Blank head ∧
        scopeLine scope line = Text.indentation line ++ listUnder scope (Text.trim head) ++ ' ' :: tail) ∨
      (Scan.code.splitAtBrace? line = none ∧ (Text.trim line).getLast? = some ',' ∧
        scopeLine scope line =
          Text.indentation line ++ listUnder scope (beforeCommas (Text.trim line)) ++ ',' :: Text.ending line) := by
  unfold scopeLine
  split
  next head tail split =>
    split
    · exact Or.inl rfl
    next visible =>
      refine Or.inr (Or.inl ⟨head, tail, split, ?_, rfl⟩)
      exact fun blank => visible ((isEmpty_trim_iff head).mpr blank)
  · exact Or.inl rfl
  next split =>
    dsimp only
    split
    next comma => exact Or.inr (Or.inr ⟨split, comma, rfl⟩)
    · exact Or.inl rfl

theorem scopeLine_opening {scope line head tail : List Char}
    (split : Scan.code.splitAtBrace? line = some (head, .opening, tail)) (visible : ¬ Blank head) :
    scopeLine scope line = Text.indentation line ++ listUnder scope (Text.trim head) ++ ' ' :: tail := by
  have shown : ¬ (Text.trim head).isEmpty = true := fun empty => visible ((isEmpty_trim_iff head).mp empty)
  simp [scopeLine, split, shown]

theorem scopeLine_blankHead {scope line head tail : List Char}
    (split : Scan.code.splitAtBrace? line = some (head, .opening, tail)) (blank : Blank head) :
    scopeLine scope line = line := by
  simp [scopeLine, split, blank.trim_eq]

theorem scopeLine_comma {scope line : List Char} (none : Scan.code.splitAtBrace? line = none)
    (comma : (Text.trim line).getLast? = some ',') :
    scopeLine scope line =
      Text.indentation line ++ listUnder scope (beforeCommas (Text.trim line)) ++ ',' :: Text.ending line := by
  simp [scopeLine, none, comma, beforeCommas]

/-- Both slashes and code take a brace for structure, and forget what came before it. -/
theorem calm_code_of_opening {s : Scan} {c : Char} (found : s.brace? c = some .opening) :
    calm s = .code ∧ c = '{' := by
  have brace : c = '{' := by
    by_contra other
    cases s <;> simp [Scan.brace?, other] at found
  cases s <;> simp_all [Scan.brace?, calm]

theorem scan_brace {s : Scan} {text : List Char} {c : Char} (brace : c = '{' ∨ c = '}')
    (open_eq : calm (s.after text) = .code) (rest : List Char) :
    s.braces (text ++ c :: rest) = s.braces text ++ Scan.code.braces (c :: rest) ∧
      s.after (text ++ c :: rest) = Scan.code.after (c :: rest) := by
  rw [braces_append, after_append]
  cases seen : s.after text <;> simp [seen, calm] at open_eq <;> rcases brace with rfl | rfl <;> exact ⟨rfl, rfl⟩

/-- Text without structure that leaves nothing open may change in front of a brace. -/
theorem scan_opening {s : Scan} {head : List Char} (quiet : s.braces head = []) (open_eq : calm (s.after head) = .code)
    (rest : List Char) : s.braces (head ++ '{' :: rest) = Scan.code.braces ('{' :: rest) ∧
      s.after (head ++ '{' :: rest) = Scan.code.after ('{' :: rest) := by
  have scan := scan_brace (Or.inl rfl) open_eq rest
  rwa [quiet, List.nil_append] at scan

theorem brace?_of_calm_code {s : Scan} (open_eq : calm s = .code) : s.brace? '{' = some .opening := by
  cases s <;> simp [calm] at open_eq <;> rfl

theorem mem_scopeLine {scope line : List Char} {c : Char} (member : c ∈ scopeLine scope line) :
    c ∈ scope ∨ c ∈ line ∨ c = ' ' ∨ c = ',' := by
  have list : ∀ text, (∀ d ∈ text, d ∈ line) → c ∈ listUnder scope text → c ∈ scope ∨ c ∈ line ∨ c = ' ' ∨ c = ',' :=
    fun text inside found => (mem_listUnder found).imp_right (Or.imp_left (inside c))
  rcases scopeLine_cases scope line with same | ⟨head, tail, split, -, under⟩ | ⟨-, -, under⟩
  · rw [same] at member
    exact Or.inr (Or.inl member)
  · obtain ⟨whole, -⟩ := splitAtBrace?_parts split
    rw [under, List.mem_append, List.mem_append, List.mem_cons] at member
    rcases member with (found | found) | rfl | found
    · exact Or.inr (Or.inl (mem_indentation found))
    · exact list _ (fun d inside => whole ▸ List.mem_append_left tail (mem_trim inside)) found
    · exact Or.inr (Or.inr (Or.inl rfl))
    · exact Or.inr (Or.inl (whole ▸ List.mem_append_right head found))
  · obtain ⟨commas, cut, -⟩ := beforeCommas_append (Text.trim line)
    rw [under, List.mem_append, List.mem_append, List.mem_cons] at member
    rcases member with (found | found) | rfl | found
    · exact Or.inr (Or.inl (mem_indentation found))
    · exact list _ (fun d inside => mem_trim (cut ▸ List.mem_append_left commas inside)) found
    · exact Or.inr (Or.inr (Or.inr rfl))
    · exact Or.inr (Or.inl (mem_ending found))

section Line
variable {scope line head tail : List Char}

theorem splitAtBrace?_opening (split : Scan.code.splitAtBrace? line = some (head, .opening, tail)) :
    line = head ++ tail ∧ Scan.code.braces head = [] ∧ calm (Scan.code.after head) = .code ∧
      ∃ rest, tail = '{' :: rest := by
  obtain ⟨whole, none, c, rest, rfl, found⟩ := splitAtBrace?_parts split
  obtain ⟨open_eq, rfl⟩ := calm_code_of_opening found
  exact ⟨whole, none, open_eq, rest, rfl⟩

theorem indentation_head (split : Scan.code.splitAtBrace? line = some (head, .opening, tail))
    (visible : ¬ Blank head) : Text.indentation line = Text.indentation head := by
  obtain ⟨whole, -⟩ := splitAtBrace?_opening split
  rw [whole, ← around_trim visible, List.append_assoc _ (Text.ending head)]
  rw [indentation_around (indentation_blank head) (solid_trim visible),
    indentation_around (indentation_blank head) (solid_trim visible)]

/-- The text that a scoped line has before its brace shows no structure, and leaves nothing open. -/
theorem newHead_scan (plain : ∀ c ∈ scope, Plain c) (noBreak : '\n' ∉ line)
    (split : Scan.code.splitAtBrace? line = some (head, .opening, tail)) (visible : ¬ Blank head) :
    Scan.code.braces (Text.indentation line ++ listUnder scope (Text.trim head) ++ [' ']) = [] ∧
      calm (Scan.code.after (Text.indentation line ++ listUnder scope (Text.trim head) ++ [' '])) = .code := by
  obtain ⟨whole, quiet, open_eq, -⟩ := splitAtBrace?_opening split
  have noBreak : '\n' ∉ head := fun member => noBreak (whole ▸ List.mem_append_left tail member)
  obtain ⟨old_braces, old_open⟩ := scan_around (s := .code) (Text.trim head) trivial rfl
    (indentation_plain noBreak) (ending_plain noBreak)
  obtain ⟨new_braces, new_open⟩ := scan_around (s := .code) (listUnder scope (Text.trim head))
    trivial rfl (indentation_plain noBreak) (List.forall_mem_singleton.mpr plain_space)
  obtain ⟨list_braces, list_open⟩ := scan_listUnder (s := .code) plain rfl trivial
    (show '\n' ∉ Text.trim head from fun member => noBreak (mem_trim member))
  rw [around_trim visible] at old_braces old_open
  rw [indentation_head split visible, new_braces, new_open, list_braces, list_open, ← old_braces, ← old_open]
  exact ⟨quiet, open_eq⟩

end Line

end VideoPage.Proofs.SelectorLines
