import VideoPage.Proofs.LineRuns

/-! A sheet that is under a scope stays as it is when it is put under the scope again. Each
line keeps its structure and the place it has in the sheet, so the second run takes every
line the way the first one did, and finds its selectors under the scope already. -/

namespace VideoPage.Proofs.ScopingIdempotence
open Stylesheet Selector TextBlanks SheetScan SelectorLists ScopedScan SelectorLines LineRuns

/-- A scope that cannot be taken for anything but a selector. -/
structure SelectorScope (scope : List Char) : Prop where
  nonempty : scope ≠ []
  trimmed : Text.trim scope = scope
  harmless : ∀ c ∈ scope, c ∉ [',', '{', '}', '"', '\'', '/', '*', '\\', '\n']
  notAtRule : scope.head? ≠ some '@'

namespace SelectorScope
variable {scope : List Char}

theorem solid (name : SelectorScope scope) : Solid scope := by
  rw [← name.trimmed]
  apply solid_trim
  intro blank
  exact name.nonempty (name.trimmed.symm.trans blank.trim_eq)

theorem plain (name : SelectorScope scope) : ∀ c ∈ scope, Plain c := by
  intro c member special
  apply name.harmless c member
  simp only [List.mem_cons, List.not_mem_nil, or_false] at special ⊢
  rcases special with rfl | rfl | rfl | rfl | rfl | rfl | rfl | rfl <;> simp

theorem noComma (name : SelectorScope scope) : ',' ∉ scope :=
  fun member => name.harmless ',' member (by decide)

theorem noBreak (name : SelectorScope scope) : '\n' ∉ scope :=
  fun member => name.harmless '\n' member (by decide)

theorem startsRule (name : SelectorScope scope) (rest : List Char) : StartsRule (scope ++ rest) := by
  cases scope with
  | nil => exact absurd rfl name.nonempty
  | cons c scope =>
    have special : c ∉ [',', '{', '}', '"', '\'', '/', '*', '\\', '\n'] := name.harmless c List.mem_cons_self
    simp only [List.mem_cons, List.not_mem_nil, or_false, not_or] at special
    exact startsRule_cons special.2.2.2.2.2.1 special.2.2.1 (fun same => name.notAtRule (by simp [same]))

end SelectorScope

section Line
variable {scope line : List Char}

/-- A line of selectors and what stands in its place have the same braces and both end in a
comment or both do not. -/
theorem scopeLine_scan (plain : ∀ c ∈ scope, Plain c) (noBreak : '\n' ∉ line) :
    Scan.code.braces (scopeLine scope line) = Scan.code.braces line ∧
      (Scan.code.after (scopeLine scope line)).inComment = (Scan.code.after line).inComment := by
  rcases scopeLine_cases scope line with same | ⟨head, tail, split, visible, under⟩ | ⟨none, comma, under⟩
  · rw [same]
    exact ⟨rfl, rfl⟩
  · obtain ⟨whole, quiet, open_eq, rest, rfl⟩ := splitAtBrace?_opening split
    obtain ⟨quiet', open_eq'⟩ := newHead_scan plain noBreak split visible
    have old := scan_opening quiet open_eq rest
    have new := scan_opening quiet' open_eq' rest
    rw [← whole] at old
    rw [List.append_assoc _ [' '], List.singleton_append] at new
    rw [under, old.1, old.2, new.1, new.2]
    exact ⟨rfl, rfl⟩
  · obtain ⟨commas, cut, all⟩ := beforeCommas_append (Text.trim line)
    have ends : ¬ Blank line := fun blank => by simp [blank.trim_eq] at comma
    have harmless : ∀ c ∈ commas ++ Text.ending line, Plain c := by
      intro c member
      rcases List.mem_append.mp member with member | member
      · exact all c member ▸ plain_comma
      · exact ending_plain noBreak c member
    have harmless' : ∀ c ∈ ',' :: Text.ending line, Plain c :=
      List.forall_mem_cons.mpr ⟨plain_comma, ending_plain noBreak⟩
    obtain ⟨old_braces, old_open⟩ := scan_around (s := .code) (beforeCommas (Text.trim line)) trivial rfl
      (indentation_plain noBreak) harmless
    obtain ⟨new_braces, new_open⟩ := scan_around (s := .code)
      (listUnder scope (beforeCommas (Text.trim line))) trivial rfl (indentation_plain noBreak) harmless'
    have before : '\n' ∉ beforeCommas (Text.trim line) :=
      fun member => noBreak (mem_trim (cut ▸ List.mem_append_left commas member))
    obtain ⟨list_braces, list_open⟩ := scan_listUnder (s := .code) plain rfl trivial before
    have whole : Text.indentation line ++ beforeCommas (Text.trim line) ++ (commas ++ Text.ending line) = line := by
      rw [← List.append_assoc, List.append_assoc (Text.indentation line), ← cut, around_trim ends]
    rw [whole] at old_braces old_open
    rw [under, new_braces, list_braces, ← old_braces, ← calm_inComment, new_open, list_open, ← old_open, calm_inComment]
    exact ⟨rfl, rfl⟩

theorem solid_listComma (name : SelectorScope scope) (text : List Char) : Solid (listUnder scope text ++ [',']) := by
  by_cases empty : pieces text = []
  · rw [listUnder_eq_nil empty]
    exact solid_comma
  · exact (solid_listUnder name.solid name.noComma empty).append solid_comma

theorem beforeCommas_listComma (name : SelectorScope scope) (text : List Char) :
    beforeCommas (listUnder scope text ++ [',']) = listUnder scope text := by
  apply beforeCommas_comma
  intro c last
  by_cases empty : pieces text = []
  · rw [listUnder_eq_nil empty] at last
    cases last
  · obtain ⟨init, d, ends, -, other⟩ := listUnder_ends name.solid name.noComma empty
    rw [ends, List.getLast?_concat] at last
    cases last
    exact other

/-- The text in front of the brace is a list under the scope, or blank when the list was empty. -/
theorem scopeLine_scopeLine (name : SelectorScope scope) (noBreak : '\n' ∉ line) :
    scopeLine scope (scopeLine scope line) = scopeLine scope line := by
  rcases scopeLine_cases scope line with same | ⟨head, tail, split, visible, under⟩ | ⟨none, comma, under⟩
  · rw [same, same]
  · obtain ⟨-, -, -, rest, rfl⟩ := splitAtBrace?_opening split
    obtain ⟨quiet, open_eq⟩ := newHead_scan name.plain noBreak split visible
    have again := splitAtBrace?_append rest quiet (brace?_of_calm_code open_eq)
    rw [List.append_assoc _ [' '], List.singleton_append, ← under] at again
    have lead := indentation_blank line
    have space := Blank.space
    by_cases empty : pieces (Text.trim head) = []
    · rw [listUnder_eq_nil empty, List.append_nil] at again
      exact scopeLine_blankHead again (lead.append space)
    · have solid := solid_listUnder name.solid name.noComma empty
      rw [scopeLine_opening again, trim_around lead solid space, listUnder_listUnder name.solid name.noComma]
      · rw [under, indentation_around lead solid]
      · exact fun blank => solid.not_blank fun c member => blank c (by simp [member])
  · have lead := indentation_blank line
    have tail := ending_blank line
    have solid := solid_listComma name (beforeCommas (Text.trim line))
    have whole : scopeLine scope line = Text.indentation line ++
        (listUnder scope (beforeCommas (Text.trim line)) ++ [',']) ++ Text.ending line := by rw [under]; simp
    have trimmed := (congrArg Text.trim whole).trans (trim_around lead solid tail)
    have none' : Scan.code.splitAtBrace? (scopeLine scope line) = Option.none := by
      rw [splitAtBrace?_eq_none_iff, (scopeLine_scan name.plain noBreak).1]
      exact splitAtBrace?_eq_none_iff.mp none
    rw [scopeLine_comma none' (by rw [trimmed, List.getLast?_concat]), trimmed, beforeCommas_listComma name,
      listUnder_listUnder name.solid name.noComma]
    rw [whole, indentation_around lead solid, ending_around tail solid]
    simp

theorem scopeLine_startsRule (name : SelectorScope scope) (starts : StartsRule (Text.trim line)) :
    StartsRule (Text.trim (scopeLine scope line)) := by
  rcases scopeLine_cases scope line with same | ⟨head, tail, split, visible, under⟩ | ⟨none, comma, under⟩
  · rw [same]
    exact starts
  · obtain ⟨-, -, -, rest, rfl⟩ := splitAtBrace?_opening split
    have lead := indentation_blank line
    by_cases empty : pieces (Text.trim head) = []
    · have blank : Blank (Text.indentation line ++ [' ']) := lead.append Blank.space
      obtain ⟨rest', -, trimmed⟩ := trim_starts blank (@Solid.singleton '{' rfl) rest
      rw [under, listUnder_eq_nil empty]
      simp only [List.append_assoc, List.cons_append, List.nil_append] at trimmed ⊢
      rw [trimmed]
      exact startsRule_cons (by decide) (by decide) (by decide)
    · obtain ⟨rest', -, trimmed⟩ := trim_starts lead (solid_listUnder name.solid name.noComma empty) (' ' :: '{' :: rest)
      obtain ⟨rest'', starts'⟩ := scope_prefix_listUnder scope empty
      rw [under, trimmed, starts', List.append_assoc]
      exact name.startsRule _
  · obtain ⟨rest, -, trimmed⟩ := trim_starts (indentation_blank line)
      (solid_listComma name (beforeCommas (Text.trim line))) (Text.ending line)
    rw [under, ← List.singleton_append, ← List.append_assoc, List.append_assoc (Text.indentation line), trimmed]
    by_cases empty : pieces (beforeCommas (Text.trim line)) = []
    · rw [listUnder_eq_nil empty]
      exact startsRule_cons (by decide) (by decide) (by decide)
    · obtain ⟨rest', starts'⟩ := scope_prefix_listUnder scope empty
      rw [starts', List.append_assoc, List.append_assoc]
      exact name.startsRule _

end Line

section Sheet
variable {scope : List Char}

/-- A scoped line is a line of the same kind, with the same effect on what follows it. -/
theorem next?_lineUnder (name : SelectorScope scope) (p : Position) {line : List Char} (noBreak : '\n' ∉ line) :
    p.next? (lineUnder scope p line) = p.next? line ∧
      lineUnder scope p (lineUnder scope p line) = lineUnder scope p line := by
  by_cases kind : p.kindOf line = .selectors
  · obtain ⟨outside, level, waiting, starts⟩ := (kindOf_eq_selectors_iff p line).mp kind
    have kind' : p.kindOf (scopeLine scope line) = .selectors :=
      (kindOf_eq_selectors_iff p _).mpr ⟨outside, level, waiting, scopeLine_startsRule name starts⟩
    obtain ⟨braces, inComment⟩ := scopeLine_scan name.plain noBreak
    rw [lineUnder_selectors kind, next?_selectors kind', next?_selectors kind, braces, inComment,
      lineUnder_selectors kind', scopeLine_scopeLine name noBreak]
    exact ⟨rfl, rfl⟩
  · rw [lineUnder_copied kind, lineUnder_copied kind]
    exact ⟨rfl, rfl⟩

theorem scopeLines_scopeLines (name : SelectorScope scope) {lines out : List (List Char)} (number : Nat) (p : Position)
    (noBreaks : ∀ line ∈ lines, '\n' ∉ line) (done : scopeLines scope number p lines = .ok out) :
    scopeLines scope number p out = .ok out ∧ ∀ line ∈ out, '\n' ∉ line := by
  refine ⟨?_, scopeLines_noBreak name.noBreak noBreaks done⟩
  -- The second run meets each line at the position where the first run met it.
  induction lines generalizing number p out with
  | nil =>
    obtain ⟨closed, rfl⟩ := scopeLines_nil_ok done
    exact done
  | cons line lines ih =>
    obtain ⟨next, again⟩ := next?_lineUnder name p (noBreaks line List.mem_cons_self)
    obtain ⟨q, tail, after, rest, rfl⟩ := scopeLines_cons_ok done
    have same := ih (number + 1) q (fun other member => noBreaks other (List.mem_cons_of_mem line member)) rest
    simp only [scopeLines, next, after, same, again, Except.map]

/-- Scoping again changes nothing: a sheet that came out of it comes out of it unchanged. -/
theorem scope_idempotent {scope css out : String} (name : SelectorScope scope.toList)
    (done : Stylesheet.scope scope css = .ok out) : Stylesheet.scope scope out = .ok out := by
  obtain ⟨result, lines, text⟩ := scope_ok done
  obtain ⟨same, clean⟩ := scopeLines_scopeLines name 1 {} (fun line member => (splitOn_parts member).1) lines
  have nonempty : result ≠ [] := by
    intro empty
    have size := scopeLines_length lines
    rw [empty, List.length_nil, eq_comm, List.length_eq_zero_iff] at size
    exact List.splitOn_ne_nil '\n' css.toList size
  have split : out.toList.splitOn '\n' = result := by
    rw [text]
    exact List.splitOn_intercalate '\n' clean nonempty
  rw [Stylesheet.scope, scopeText, split, same, Except.map, Except.map, ← text, String.ofList_toList]

theorem scope_idempotent_quoted_comma :
    Stylesheet.scope ".x" "@media print \x7b\n  a[b=\"\\ ,\x7b\"] /* , */ ,, body \x7b\n  \x7d\n\x7d" =
        .ok "@media print \x7b\n  .x a[b=\"\\, .x \x7b\"] /*, .x */, .x \x7b\n  \x7d\n\x7d" ∧
      Stylesheet.scope ".x" "@media print \x7b\n  .x a[b=\"\\, .x \x7b\"] /*, .x */, .x \x7b\n  \x7d\n\x7d" =
        .ok "@media print \x7b\n  .x a[b=\"\\, .x \x7b\"] /*, .x */, .x \x7b\n  \x7d\n\x7d" := by
  have name : SelectorScope ".x".toList := ⟨by decide, by decide, by simp, by decide⟩
  have done : Stylesheet.scope ".x" "@media print \x7b\n  a[b=\"\\ ,\x7b\"] /* , */ ,, body \x7b\n  \x7d\n\x7d" =
      .ok "@media print \x7b\n  .x a[b=\"\\, .x \x7b\"] /*, .x */, .x \x7b\n  \x7d\n\x7d" := by cbv
  exact ⟨done, scope_idempotent name done⟩

end Sheet

end VideoPage.Proofs.ScopingIdempotence
