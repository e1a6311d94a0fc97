import VideoPage.Proofs.GroupNames
import VideoPage.Proofs.SelectorLayout

/-! What comes out for a sheet that is well laid out. Every item leads from one place
between two rules to the next, in the same blocks, so items may follow each other and
groups may nest to any depth. Inside a block that is copied, a sheet comes out as it is. -/

namespace VideoPage.Proofs.ScopingLayout
open Stylesheet Selector TextBlanks SheetScan SheetBraces BraceDepth SelectorLines LineRuns CssSyntax SheetLayout GroupNames
open SelectorLayout

variable {scope : List Char} {blocks : List Block}

theorem space_scan (space : Space) : Scan.code.braces space.text = [] ∧ Scan.code.after space.text = .code :=
  ⟨braces_plain (blanks_plain space), after_plain trivial rfl (blanks_plain space)⟩

theorem through_blank (line : Space) : Through scope (between blocks) [line.text] [line.text] (between blocks) := by
  obtain ⟨quiet, closed⟩ := space_scan line
  refine Through.kept (kindOf_blank line.blank) ?_ ?_
  · rw [quiet]
    rfl
  · rw [closed]
    rfl

theorem closing_scan (line : ClosingLine) :
    Scan.code.braces line.text = [.closing] ∧ (Scan.code.after line.text).inComment = false := by
  have visible : ¬ Blank line.text := fun blank => by simpa [blank.trim_eq] using line.brace
  obtain ⟨braces, opened⟩ := scan_around (s := .code) (Text.trim line.text) trivial rfl
    (indentation_plain line.noBreak) (ending_plain line.noBreak)
  rw [around_trim visible, line.brace] at braces opened
  refine ⟨braces, ?_⟩
  rw [← calm_inComment, opened]
  rfl

theorem through_closing (line : ClosingLine) (top : Block) :
    Through scope (between (top :: blocks)) [line.text] [line.text] (between blocks) := by
  obtain ⟨braces, ends⟩ := closing_scan line
  refine Through.kept (kindOf_closing (line.brace ▸ List.prefix_refl _)) ?_ ends
  rw [braces]
  rfl

section AtRules

theorem starts_of_trim {mark text : List Char} (starts : mark <+: Text.trim text) (visible : ¬ Blank text) :
    ∃ rest, text = Text.indentation text ++ (mark ++ rest) := by
  obtain ⟨rest, trimmed⟩ := starts
  refine ⟨rest ++ Text.ending text, ?_⟩
  rw [← List.append_assoc mark, trimmed, ← List.append_assoc]
  exact (around_trim visible).symm

theorem ruleText {text : List Char} (noBreak : '\n' ∉ text) (visible : ¬ Blank text) (free : CommentFree text)
    (braces : ∀ brace ∈ (Scan.code.braces text).head?, brace = .opening) : RuleText (Text.trim text) := by
  have indented : Scan.code.after (Text.indentation text) = .code := after_plain trivial rfl (indentation_plain noBreak)
  refine ⟨fun empty => visible ((trim_eq_nil_iff text).mp empty), fun starts => ?_, fun starts => ?_⟩
  · obtain ⟨rest, whole⟩ := starts_of_trim starts visible
    have inside := free (Text.indentation text ++ ['/', '*']) ⟨rest, by rw [List.append_assoc, ← whole]⟩
    rw [after_append, indented] at inside
    cases inside
  · obtain ⟨rest, whole⟩ := starts_of_trim starts visible
    rw [whole, braces_append, braces_plain (indentation_plain noBreak), indented] at braces
    cases braces .closing rfl

theorem through_statement (line : Statement) (level : Block.holdsSelectors blocks = true) :
    Through scope (between blocks) [line.text] [line.text] (between blocks) := by
  have kind := kindOf_atRule (p := between blocks) rfl level rfl line.atRule
  have quiet := braces_of_structural_nil line.noBrace
  have step : Through scope (between blocks) [line.text] [line.text] _ :=
    Through.atRule kind (by rw [scan_of_outside rfl, quiet]; rfl)
  rw [scan_of_outside rfl, line.commentFree line.text (List.prefix_refl _), if_neg (fun both => both.2 line.ends)] at step
  exact step

/-- The position inside an at-rule that still waits for its block. -/
def waiting (blocks : List Block) (opens : Block) : Position := { blocks := blocks, pending := some opens }

variable {opens : Block}

theorem through_goingOn {p : Position} (line : PreludeLine) (outside : p.inComment = false) (inside : p.blocks = blocks)
    (kind : p.kindOf line.text = .atRule opens) : Through scope p [line.text] [line.text] (waiting blocks opens) := by
  have quiet := braces_of_structural_nil line.noBrace
  have step : Through scope p [line.text] [line.text] _ :=
    Through.atRule kind (by rw [scan_of_outside outside, quiet]; rfl)
  rw [scan_of_outside outside, line.commentFree line.text (List.prefix_refl _), if_pos ⟨quiet, line.goesOn⟩, inside] at step
  exact step

theorem through_early (level : Block.holdsSelectors blocks = true) (lines : List PreludeLine) :
    Through scope (waiting blocks opens) (lines.map (·.text)) (lines.map (·.text)) (waiting blocks opens) := by
  induction lines with
  | nil => exact Through.nil _
  | cons line lines ih =>
    have text : RuleText (Text.trim line.text) :=
      ruleText line.noBreak line.visible line.commentFree (by simp [braces_of_structural_nil line.noBrace])
    exact (through_goingOn line rfl rfl (kindOf_pending rfl level rfl text)).cons ih

def lastLine (prelude : Prelude) : List Char := prelude.last.text ++ '{' :: prelude.ending.text

variable (prelude : Prelude)

theorem lastLine_scan : Scan.code.braces (lastLine prelude) = [.opening] ∧ Scan.code.after (lastLine prelude) = .code := by
  obtain ⟨braces, opened⟩ := scan_opening (braces_of_structural_nil prelude.noBrace) prelude.closed prelude.ending.text
  obtain ⟨quiet, closed⟩ := space_scan prelude.ending
  refine ⟨braces.trans ?_, opened.trans closed⟩
  change .opening :: Scan.code.braces prelude.ending.text = [.opening]
  rw [quiet]

theorem lastLine_commentFree : CommentFree (lastLine prelude) := by
  intro front part
  rcases List.prefix_or_prefix_of_prefix part (List.prefix_append prelude.last.text _) with shorter | ⟨more, rfl⟩
  · exact prelude.commentFree front shorter
  · have tail : more <+: '{' :: prelude.ending.text := (List.prefix_append_right_inj _).mp part
    cases more with
    | nil => simpa using prelude.commentFree prelude.last.text (List.prefix_refl _)
    | cons c more =>
      obtain ⟨rfl, blanks⟩ := List.cons_prefix_cons.mp tail
      obtain ⟨-, opened⟩ := scan_opening (braces_of_structural_nil prelude.noBrace) prelude.closed more
      have plain : ∀ c ∈ more, Plain c := fun c member => blanks_plain prelude.ending c (blanks.subset member)
      have closed : Scan.code.after more = .code := after_plain trivial rfl plain
      rw [opened, after_cons, show Scan.code.step '{' = .code from rfl, closed]
      rfl

theorem lastLine_visible : ¬ Blank (lastLine prelude) := by
  intro blank
  exact @Blank.not_mem _ '{' blank rfl (List.mem_append_right _ List.mem_cons_self)

theorem lastLine_noBreak : '\n' ∉ lastLine prelude := by
  intro member
  rcases List.mem_append.mp member with member | member
  · exact prelude.last.noBreak member
  · exact prelude.ending.noBreak (by simpa using member)

theorem through_lastLine {p : Position} (outside : p.inComment = false) (inside : p.blocks = blocks)
    (kind : p.kindOf (lastLine prelude) = .atRule opens) :
    Through scope p [lastLine prelude] [lastLine prelude] (between (opens :: blocks)) := by
  obtain ⟨braces, closed⟩ := lastLine_scan prelude
  have step : Through scope p [lastLine prelude] [lastLine prelude] _ :=
    Through.atRule kind (by rw [scan_of_outside outside, braces, inside]; rfl)
  rw [scan_of_outside outside, closed, braces, if_neg (fun both => nomatch both.1)] at step
  exact step

theorem lastLine_atRule (starts : (Text.trim prelude.last.text).head? = some '@') :
    (Text.trim (lastLine prelude)).head? = some '@' := by
  have visible : ¬ Blank prelude.last.text := fun blank => by simp [blank.trim_eq] at starts
  have cut : lastLine prelude = Text.indentation prelude.last.text ++ Text.trim prelude.last.text ++
      (Text.ending prelude.last.text ++ '{' :: prelude.ending.text) := by
    rw [← List.append_assoc, around_trim visible]
    rfl
  obtain ⟨rest, -, trimmed⟩ := trim_starts (indentation_blank prelude.last.text) (solid_trim visible)
    (Text.ending prelude.last.text ++ '{' :: prelude.ending.text)
  rw [cut, trimmed]
  simp [starts]

theorem through_prelude (level : Block.holdsSelectors blocks = true) :
    Through scope (between blocks) prelude.lines prelude.lines (between (opened prelude :: blocks)) := by
  have starts := prelude.atRule
  cases early : prelude.early with
  | nil =>
    rw [early] at starts
    have lines : prelude.lines = [lastLine prelude] := by simp [Prelude.lines, early, lastLine]
    have kind := kindOf_atRule (p := between blocks) rfl level rfl (lastLine_atRule prelude starts)
    rw [ofAtRule_first prelude lines (lastLine_visible prelude)] at kind
    rw [lines]
    exact through_lastLine prelude rfl rfl kind
  | cons line more =>
    rw [early] at starts
    have lines : prelude.lines = line.text :: (more.map (·.text) ++ [lastLine prelude]) := by
      simp [Prelude.lines, early, lastLine]
    have kind : (between blocks).kindOf line.text = _ := kindOf_atRule rfl level rfl starts
    rw [ofAtRule_first prelude lines line.visible] at kind
    have text : RuleText (Text.trim (lastLine prelude)) :=
      ruleText (lastLine_noBreak prelude) (lastLine_visible prelude) (lastLine_commentFree prelude)
        (by simp [(lastLine_scan prelude).1])
    rw [lines]
    refine (through_goingOn line rfl rfl kind).cons ((through_early level more).append ?_)
    exact through_lastLine prelude rfl rfl (kindOf_pending rfl level rfl text)

end AtRules

section Comments

theorem inside_comment {text : List Char} (noEnd : ¬ ['*', '/'] <:+: text) :
    Scan.comment.braces text = [] ∧ (Scan.comment.after text).inComment = true := by
  obtain ⟨quiet, after⟩ := scan_uncut noEnd
  rw [after]
  refine ⟨quiet, ?_⟩
  split <;> rfl

theorem comment_ends {text : List Char} (ending : Space) (noEnd : ¬ ['*', '/'] <:+: text) :
    Scan.comment.braces (text ++ '*' :: '/' :: ending.text) = [] ∧
      Scan.comment.after (text ++ '*' :: '/' :: ending.text) = .code := by
  obtain ⟨quiet, inside⟩ := inside_comment noEnd
  obtain ⟨quiet', closed⟩ := space_scan ending
  rw [braces_append, quiet, after_append]
  cases last : Scan.comment.after text with
  | comment => exact ⟨quiet', closed⟩
  | star => exact ⟨quiet', closed⟩
  | _ => simp [last, Scan.inComment] at inside

def commented (blocks : List Block) : Position := { inComment := true, blocks := blocks }

theorem through_commented {lines : List Line} (noEnd : ∀ line ∈ lines, ¬ ['*', '/'] <:+: line.text) :
    Through scope (commented blocks) (lines.map (·.text)) (lines.map (·.text)) (commented blocks) := by
  induction lines with
  | nil => exact Through.nil _
  | cons line lines ih =>
    obtain ⟨quiet, inside⟩ := inside_comment (noEnd line List.mem_cons_self)
    have step : Through scope (commented blocks) [line.text] [line.text] _ :=
      Through.copied (kindOf_inComment rfl) (show Block.track? .verbatim (Scan.comment.braces line.text) blocks = _ by
        rw [quiet]
        rfl)
    rw [show (commented blocks).scan = .comment from rfl, inside] at step
    exact step.cons (ih fun other member => noEnd other (List.mem_cons_of_mem line member))

theorem comment_starts (indentation : Space) (text : List Char) :
    Scan.code.braces (indentation.text ++ '/' :: '*' :: text) = Scan.comment.braces text ∧
      Scan.code.after (indentation.text ++ '/' :: '*' :: text) = Scan.comment.after text := by
  obtain ⟨quiet, closed⟩ := space_scan indentation
  rw [braces_append, quiet, after_append, closed]
  exact ⟨rfl, rfl⟩

theorem kindOf_commentStart (indentation : Space) (text : List Char) (p : Position) :
    p.kindOf (indentation.text ++ '/' :: '*' :: text) = .copied := by
  have solid : Solid ['/', '*'] := (Solid.singleton rfl).append (Solid.singleton rfl)
  obtain ⟨rest, -, trimmed⟩ := trim_starts indentation.blank solid text
  apply kindOf_comment
  rw [List.append_assoc] at trimmed
  exact ⟨rest, trimmed.symm⟩

theorem through_comment (comment : Comment) :
    Through scope (between blocks) comment.lines comment.lines (between blocks) := by
  have noEnd : ¬ ['*', '/'] <:+: comment.last.text := comment.noEnd comment.last (by simp)
  obtain ⟨quiet, closed⟩ := comment_ends comment.ending noEnd
  cases early : comment.early with
  | nil =>
    obtain ⟨braces, after⟩ := comment_starts comment.indentation (comment.last.text ++ '*' :: '/' :: comment.ending.text)
    rw [Comment.lines, early]
    refine Through.kept (kindOf_commentStart comment.indentation _ _) ?_ ?_
    · rw [braces, quiet]
      rfl
    · rw [after, closed]
      rfl
  | cons first more =>
    have later : ∀ line ∈ first :: more, ¬ ['*', '/'] <:+: line.text :=
      fun line member => comment.noEnd line (early ▸ List.mem_append_left _ member)
    obtain ⟨quiet', inside⟩ := inside_comment (later first List.mem_cons_self)
    obtain ⟨braces, after⟩ := comment_starts comment.indentation first.text
    rw [Comment.lines, early]
    have start : Through scope (between blocks) [comment.indentation.text ++ '/' :: '*' :: first.text]
        [comment.indentation.text ++ '/' :: '*' :: first.text] _ :=
      Through.copied (kindOf_commentStart comment.indentation first.text _) (by
        rw [scan_of_outside rfl, braces, quiet']
        rfl)
    rw [scan_of_outside rfl, after, inside] at start
    have finish : Through scope (commented blocks) [comment.last.text ++ '*' :: '/' :: comment.ending.text]
        [comment.last.text ++ '*' :: '/' :: comment.ending.text] _ :=
      Through.copied (kindOf_inComment rfl) (by
        rw [show (commented blocks).scan = .comment from rfl, quiet]
        rfl)
    rw [show (commented blocks).scan = .comment from rfl, closed] at finish
    have middle : Through scope (commented blocks) _ _ _ :=
      through_commented (fun line member => later line (List.mem_cons_of_mem first member))
    exact start.cons (middle.append finish)

end Comments

section Bodies

theorem settle_of_balanced {text : List Char} (balanced : Balanced text) :
    settle (Scan.code.braces text) 0 = some 0 := by
  have outcome : verdict (fun _ => 0) 0 (structuralBraces text) = .ok () := verdict_ok_iff.mpr balanced
  have same : (structuralBraces text).map (fun brace => (0, brace.2)) = (Scan.code.braces text).map (0, ·) ++ [] := by
    rw [← structuralBraces_braces, List.map_map, List.append_nil]
    rfl
  rw [← verdict_map, same, verdict_line] at outcome
  cases now : settle (Scan.code.braces text) 0 with
  | none => simp [now] at outcome
  | some opened =>
    cases opened with
    | zero => rfl
    | succ opened => simp [now, verdict] at outcome

/-- The position in the body of a block, with as many blocks open inside it. -/
def inBody (inComment : Bool) (opened : Nat) (top : Block) (blocks : List Block) : Position :=
  { inComment := inComment, blocks := List.replicate opened .verbatim ++ top :: blocks }

section Lines
variable {top : Block} (closed : top ≠ .group)
include closed

theorem through_line {inComment : Bool} {opened now : Nat} {line : List Char}
    (settled : settle ((Scan.atLineStart inComment).braces line) opened = some now) :
    Through scope (inBody inComment opened top blocks) [line] [line]
      (inBody ((Scan.atLineStart inComment).after line).inComment now top blocks) := by
  have copied : Block.holdsSelectors (inBody inComment opened top blocks).blocks = false := by
    cases opened with
    | zero => cases top <;> trivial
    | succ opened => rfl
  exact Through.copied (kindOf_inBlock copied) (track?_verbatim (top :: blocks) settled)

/-- What happens in a body is decided by its braces; what its lines hold does not matter. -/
theorem through_lines {inComment : Bool} {opened now : Nat} {lines : List (List Char)}
    (settled : settle ((Scan.atLineStart inComment).braces (joinLines lines)) opened = some now) :
    Through scope (inBody inComment opened top blocks) lines lines
      (inBody ((Scan.atLineStart inComment).after (joinLines lines)).inComment now top blocks) := by
  induction lines generalizing inComment opened with
  | nil =>
    obtain rfl : opened = now := by simpa [joinLines, Scan.braces, settle] using settled
    cases inComment <;> exact Through.nil _
  | cons line lines ih =>
    cases lines with
    | nil => simpa [joinLines] using through_line closed (by simpa [joinLines] using settled)
    | cons next lines =>
      have text : joinLines (line :: next :: lines) = line ++ '\n' :: joinLines (next :: lines) := by
        simp [joinLines, List.intercalate_cons_cons]
      have noBrace : ((Scan.atLineStart inComment).after line).brace? '\n' = none := by
        cases (Scan.atLineStart inComment).after line <;> rfl
      rw [text, braces_append, braces_cons, noBrace, settle_append] at settled
      obtain ⟨middle, here, later⟩ := Option.bind_eq_some_iff.mp settled
      rw [text, after_append, after_cons]
      exact (through_line closed here).cons (ih later)

end Lines

theorem through_body (body : Body) {top : Block} (closed : top ≠ .group) :
    Through scope (between (top :: blocks)) (body.lines.map (·.text)) (body.lines.map (·.text))
      (between (top :: blocks)) := by
  have settled := settle_of_balanced body.balanced
  have step : Through scope (inBody false 0 top blocks) _ _ _ := through_lines closed settled
  rw [show Scan.atLineStart false = .code from rfl, body.ends] at step
  exact step

end Bodies

section Rules

theorem scopeLine_goingOn (line : SelectorLine) : scopeLine scope line.goingOn = line.goingOnUnder scope :=
  scopeLine_list_comma line.list scope line.ending

theorem scopeLine_openingLine (line : SelectorLine) : scopeLine scope line.opening = line.openingUnder scope :=
  scopeLine_list_opening line.list scope line.ending.text

theorem scopeLine_oneLine (rule : OneLineRule) : scopeLine scope rule.text = rule.under scope :=
  scopeLine_list_opening rule.list scope _

theorem goingOn_scan (line : SelectorLine) :
    Scan.code.braces line.goingOn = [] ∧ (Scan.code.after line.goingOn).inComment = false := by
  obtain ⟨quiet, closed⟩ := list_comma_scan line.list line.ending
  refine ⟨quiet, ?_⟩
  rw [← calm_inComment, SelectorLine.goingOn, closed]
  rfl

theorem opening_scan (line : SelectorLine) :
    Scan.code.braces line.opening = [.opening] ∧ (Scan.code.after line.opening).inComment = false := by
  obtain ⟨quiet, closed⟩ := list_scan line.list
  obtain ⟨braces, after⟩ := scan_opening quiet closed line.ending.text
  obtain ⟨quiet', closed'⟩ := space_scan line.ending
  constructor
  · rw [SelectorLine.opening, braces, braces_cons, show Scan.code.step '{' = .code from rfl, quiet']
    rfl
  · rw [SelectorLine.opening, after, after_cons, show Scan.code.step '{' = .code from rfl, closed']
    rfl

/-- All that such a line opens it closes again. -/
theorem oneLine_scan (rule : OneLineRule) (opens : Block) (blocks : List Block) :
    Block.track? opens (Scan.code.braces rule.text) blocks = some blocks ∧
      (Scan.code.after rule.text).inComment = false := by
  obtain ⟨quiet, closed⟩ := list_scan rule.list
  obtain ⟨braces, after⟩ := scan_opening quiet closed (rule.declarations.text ++ '}' :: rule.ending.text)
  obtain ⟨braces', after'⟩ := scan_brace (s := .code) (Or.inr rfl) rule.closed rule.ending.text
  obtain ⟨quiet', closed'⟩ := space_scan rule.ending
  have inside :
      Block.track? .verbatim (Scan.code.braces rule.declarations.text) (opens :: blocks) = some (opens :: blocks) :=
    track?_verbatim (opens :: blocks) (settle_of_balanced rule.balanced)
  constructor
  · have whole : Scan.code.braces rule.text = .opening :: (Scan.code.braces rule.declarations.text ++ [.closing]) := by
      rw [OneLineRule.text, braces, braces_cons, show Scan.code.step '{' = .code from rfl, braces', braces_cons,
        show Scan.code.step '}' = .code from rfl, quiet']
      rfl
    rw [whole, Block.track?, track?_append, inside]
    rfl
  · rw [OneLineRule.text, after, after_cons, show Scan.code.step '{' = .code from rfl, after', after_cons,
      show Scan.code.step '}' = .code from rfl, closed']
    rfl

variable (level : Block.holdsSelectors blocks = true)
include level

theorem through_goesOn (line : SelectorLine) :
    Through scope (between blocks) [line.goingOn] [line.goingOnUnder scope] (between blocks) := by
  obtain ⟨quiet, ends⟩ := goingOn_scan line
  have step : Through scope (between blocks) [line.goingOn] [scopeLine scope line.goingOn] (between blocks) := by
    refine Through.selectors (kindOf_list line.list (Or.inl rfl) line.ending.text level) ?_ ends
    rw [quiet]
    rfl
  rwa [scopeLine_goingOn] at step

theorem through_earlier (lines : List SelectorLine) :
    Through scope (between blocks) (lines.map (·.goingOn)) (lines.map (·.goingOnUnder scope)) (between blocks) := by
  induction lines with
  | nil => exact Through.nil _
  | cons line lines ih => exact (through_goesOn level line).cons ih

theorem through_opening (line : SelectorLine) :
    Through scope (between blocks) [line.opening] [line.openingUnder scope] (between (.rule :: blocks)) := by
  obtain ⟨braces, ends⟩ := opening_scan line
  have step : Through scope (between blocks) [line.opening] [scopeLine scope line.opening] (between (.rule :: blocks)) := by
    refine Through.selectors (kindOf_list line.list (Or.inr rfl) line.ending.text level) ?_ ends
    rw [braces]
    rfl
  rwa [scopeLine_openingLine] at step

theorem through_oneLine (rule : OneLineRule) :
    Through scope (between blocks) [rule.text] [rule.under scope] (between blocks) := by
  obtain ⟨tracked, ends⟩ := oneLine_scan rule .rule blocks
  have step : Through scope (between blocks) [rule.text] [scopeLine scope rule.text] (between blocks) :=
    Through.selectors (kindOf_list rule.list (Or.inr rfl) _ level) tracked ends
  rwa [scopeLine_oneLine] at step

end Rules

section Copies

theorem prelude_scan (line : PreludeLine) :
    Scan.code.braces line.text = [] ∧ (Scan.code.after line.text).inComment = false :=
  ⟨braces_of_structural_nil line.noBrace, line.commentFree line.text (List.prefix_refl _)⟩

variable (copied : Block.holdsSelectors blocks = false)
include copied

theorem copy_quiet {lines : List (List Char)}
    (quiet : ∀ line ∈ lines, Scan.code.braces line = [] ∧ (Scan.code.after line).inComment = false) :
    Through scope (between blocks) lines lines (between blocks) := by
  induction lines with
  | nil => exact Through.nil _
  | cons line lines ih =>
    obtain ⟨⟨braces, ends⟩, others⟩ := List.forall_mem_cons.mp quiet
    have step : Through scope (between blocks) [line] [line] (between blocks) :=
      Through.kept (kindOf_inBlock copied) (by rw [braces]; rfl) ends
    exact step.cons (ih others)

theorem copy_opening {line : List Char} (braces : Scan.code.braces line = [.opening])
    (ends : (Scan.code.after line).inComment = false) :
    Through scope (between blocks) [line] [line] (between (.verbatim :: blocks)) :=
  Through.kept (kindOf_inBlock copied) (by rw [braces]; rfl) ends

theorem copy_prelude (prelude : Prelude) :
    Through scope (between blocks) prelude.lines prelude.lines (between (.verbatim :: blocks)) := by
  obtain ⟨braces, after⟩ := lastLine_scan prelude
  have ends : (Scan.code.after (lastLine prelude)).inComment = false := by
    rw [after]
    rfl
  refine (copy_quiet copied fun line member => ?_).append (copy_opening copied braces ends)
  obtain ⟨early, -, rfl⟩ := List.mem_map.mp member
  exact prelude_scan early

theorem copy_earlier (lines : List SelectorLine) :
    Through scope (between blocks) (lines.map (·.goingOn)) (lines.map (·.goingOn)) (between blocks) := by
  refine copy_quiet copied fun line member => ?_
  obtain ⟨list, -, rfl⟩ := List.mem_map.mp member
  exact goingOn_scan list

/-- In a copied block a sheet opens and closes blocks as elsewhere, and none of its selectors is looked at. -/
theorem copy_sheet (sheet : Sheet) : Through scope (between blocks) sheet.lines sheet.lines (between blocks) := by
  induction sheet generalizing blocks with
  | done => exact Through.nil _
  | blank line rest ih => exact (through_blank line).cons (ih copied)
  | comment note rest ih => exact (through_comment note).append (ih copied)
  | statement line rest ih =>
    have quiet : ∀ text ∈ [line.text], Scan.code.braces text = [] ∧ (Scan.code.after text).inComment = false :=
      List.forall_mem_singleton.mpr ⟨braces_of_structural_nil line.noBrace, line.commentFree line.text (List.prefix_refl _)⟩
    have step : Through scope (between blocks) [line.text] [line.text] (between blocks) := copy_quiet copied quiet
    exact step.cons (ih copied)
  | group prelude _ items closing rest inside ih =>
    have block := (inside rfl).append ((through_closing closing .verbatim).cons (ih copied))
    rw [Sheet.lines, List.append_assoc]
    exact (copy_prelude copied prelude).append block
  | block prelude _ body closing rest ih =>
    have block := (through_body body (show Block.verbatim ≠ .group by decide)).append
      ((through_closing closing .verbatim).cons (ih copied))
    rw [Sheet.lines, List.append_assoc]
    exact (copy_prelude copied prelude).append block
  | rule earlier opening body closing rest ih =>
    obtain ⟨braces, ends⟩ := opening_scan opening
    have block := (through_body body (show Block.verbatim ≠ .group by decide)).append
      ((through_closing closing .verbatim).cons (ih copied))
    exact (copy_earlier copied earlier).append ((copy_opening copied braces ends).cons block)
  | oneLine line rest ih =>
    obtain ⟨tracked, ends⟩ := oneLine_scan line .verbatim blocks
    have step : Through scope (between blocks) [line.text] [line.text] (between blocks) :=
      Through.kept (kindOf_inBlock copied) tracked ends
    exact step.cons (ih copied)

end Copies

section Sheets

theorem through_sheet (sheet : Sheet) (level : Block.holdsSelectors blocks = true) :
    Through scope (between blocks) sheet.lines (sheet.linesFound scope) (between blocks) := by
  -- Every part leads from between two rules to between two rules, inside the same blocks.
  induction sheet generalizing blocks with
  | done => exact Through.nil _
  | blank line rest ih => exact (through_blank line).cons (ih level)
  | comment note rest ih => exact (through_comment note).append (ih level)
  | statement line rest ih => exact (through_statement line level).cons (ih level)
  | group prelude _ items closing rest inside ih =>
    have start := @through_prelude scope _ prelude level
    rw [Sheet.lines, Sheet.linesFound, List.append_assoc, List.append_assoc]
    cases entered : prelude.entered with
    | true =>
      rw [show opened prelude = .group from if_pos entered] at start
      exact start.append ((inside rfl).append ((through_closing closing .group).cons (ih level)))
    | false =>
      rw [show opened prelude = .verbatim from if_neg (entered ▸ Bool.false_ne_true)] at start
      exact start.append ((copy_sheet rfl items).append ((through_closing closing .verbatim).cons (ih level)))
  | block prelude other body closing rest ih =>
    have start := @through_prelude scope _ prelude level
    rw [show opened prelude = .verbatim from if_neg fun entered => other (conditional_of_entered prelude entered)] at start
    have block := (through_body body (show Block.verbatim ≠ .group by decide)).append
      ((through_closing closing .verbatim).cons (ih level))
    rw [Sheet.lines, Sheet.linesFound, List.append_assoc, List.append_assoc]
    exact start.append block
  | rule earlier opening body closing rest ih =>
    have after := (through_closing closing .rule).cons (ih level)
    have block := (through_body body (show Block.rule ≠ .group by decide)).append after
    exact (through_earlier level earlier).append ((through_opening level opening).cons block)
  | oneLine line rest ih => exact (through_oneLine level line).cons (ih level)

theorem comment_noBreak (comment : Comment) : ∀ line ∈ comment.lines, '\n' ∉ line := by
  have last : '\n' ∉ comment.last.text ++ '*' :: '/' :: comment.ending.text := by
    simp [comment.last.noBreak, comment.ending.noBreak]
  have start : ∀ text, '\n' ∉ text → '\n' ∉ comment.indentation.text ++ '/' :: '*' :: text := by
    intro text noBreak
    simp [comment.indentation.noBreak, noBreak]
  intro line member
  cases early : comment.early with
  | nil =>
    rw [Comment.lines, early] at member
    obtain rfl := List.mem_singleton.mp member
    exact start _ last
  | cons first more =>
    rw [Comment.lines, early] at member
    rcases List.mem_cons.mp member with rfl | member
    · exact start _ first.noBreak
    · rcases List.mem_append.mp member with member | member
      · obtain ⟨other, -, rfl⟩ := List.mem_map.mp member
        exact other.noBreak
      · obtain rfl := List.mem_singleton.mp member
        exact last

theorem prelude_noBreak (prelude : Prelude) : ∀ line ∈ prelude.lines, '\n' ∉ line := by
  intro line member
  rcases List.mem_append.mp member with member | member
  · obtain ⟨other, -, rfl⟩ := List.mem_map.mp member
    exact other.noBreak
  · obtain rfl := List.mem_singleton.mp member
    exact lastLine_noBreak prelude

theorem texts_noBreak (lines : List Line) : ∀ line ∈ lines.map (·.text), '\n' ∉ line := by
  intro line member
  obtain ⟨other, -, rfl⟩ := List.mem_map.mp member
  exact other.noBreak

theorem goingOn_noBreak (line : SelectorLine) : '\n' ∉ line.goingOn := by
  simp [SelectorLine.goingOn, list_noBreak, line.ending.noBreak]

theorem opening_noBreak (line : SelectorLine) : '\n' ∉ line.opening := by
  simp [SelectorLine.opening, list_noBreak, line.ending.noBreak]

theorem oneLine_noBreak (rule : OneLineRule) : '\n' ∉ rule.text := by
  simp [OneLineRule.text, list_noBreak, rule.declarations.noBreak, rule.ending.noBreak]

theorem sheet_noBreak (sheet : Sheet) : ∀ line ∈ sheet.lines, '\n' ∉ line := by
  induction sheet with
  | done => simp [Sheet.lines]
  | blank line rest ih => exact List.forall_mem_cons.mpr ⟨line.noBreak, ih⟩
  | comment note rest ih => exact List.forall_mem_append.mpr ⟨comment_noBreak note, ih⟩
  | statement line rest ih => exact List.forall_mem_cons.mpr ⟨line.noBreak, ih⟩
  | group prelude conditional items closing rest inside ih =>
    refine List.forall_mem_append.mpr ⟨List.forall_mem_append.mpr ⟨prelude_noBreak prelude, inside⟩, ?_⟩
    exact List.forall_mem_cons.mpr ⟨closing.noBreak, ih⟩
  | block prelude other body closing rest ih =>
    refine List.forall_mem_append.mpr ⟨List.forall_mem_append.mpr ⟨prelude_noBreak prelude, texts_noBreak body.lines⟩, ?_⟩
    exact List.forall_mem_cons.mpr ⟨closing.noBreak, ih⟩
  | rule earlier opening body closing rest ih =>
    have block := List.forall_mem_append.mpr ⟨texts_noBreak body.lines, List.forall_mem_cons.mpr ⟨closing.noBreak, ih⟩⟩
    refine List.forall_mem_append.mpr ⟨fun line member => ?_, List.forall_mem_cons.mpr ⟨opening_noBreak opening, block⟩⟩
    obtain ⟨other, -, rfl⟩ := List.mem_map.mp member
    exact goingOn_noBreak other
  | oneLine line rest ih => exact List.forall_mem_cons.mpr ⟨oneLine_noBreak line, ih⟩

theorem lines_eq_nil {sheet : Sheet} (empty : sheet.lines = []) : sheet = .done := by
  cases sheet with
  | done => rfl
  | _ => simp [Sheet.lines, Comment.lines] at empty

theorem scope_sheet (scope : String) (sheet : Sheet) :
    Stylesheet.scope scope sheet.text = .ok (sheet.found scope) := by
  have run := @through_sheet scope.toList [] sheet rfl 1 []
  rw [List.append_nil] at run
  have result : scopeLines scope.toList 1 {} sheet.lines = .ok (sheet.linesFound scope.toList) := by
    rw [show ({} : Position) = between [] from rfl, run]
    simp [scopeLines, between, Except.map]
  rw [Stylesheet.scope, scopeText, Sheet.text, String.toList_ofList, joinLines]
  by_cases empty : sheet.lines = []
  · obtain rfl := lines_eq_nil empty
    rfl
  · rw [List.splitOn_intercalate _ (sheet_noBreak sheet) empty, result]
    rfl

end Sheets

section Results
variable (scope) (sheet : Sheet)

theorem length_linesUnder : (sheet.linesUnder scope).length = sheet.lines.length := by
  induction sheet with
  | done => rfl
  | _ => simp_all [Sheet.linesUnder, Sheet.lines]

theorem length_linesFound : (sheet.linesFound scope).length = sheet.lines.length := by
  induction sheet with
  | done => rfl
  | group prelude _ items closing rest inside ih =>
    cases entered : prelude.entered <;> simp [Sheet.linesFound, Sheet.lines, entered, inside, ih]
  | _ => simp_all [Sheet.linesFound, Sheet.lines]

theorem linesFound_eq_iff : sheet.linesFound scope = sheet.linesUnder scope ↔ sheet.Reached scope := by
  induction sheet with
  | done => exact iff_of_true rfl trivial
  | group prelude _ items closing rest inside ih =>
    -- As many lines come out as belong there, so the items may be compared apart from the rest.
    have apart : ∀ lines : List (List Char), lines.length = (items.linesUnder scope).length →
        (prelude.lines ++ lines ++ closing.text :: rest.linesFound scope =
            prelude.lines ++ items.linesUnder scope ++ closing.text :: rest.linesUnder scope ↔
          lines = items.linesUnder scope ∧ rest.Reached scope) := by
      intro lines sizes
      rw [List.append_assoc, List.append_assoc, List.append_cancel_left_eq, ← ih]
      constructor
      · intro same
        obtain ⟨first, second⟩ := List.append_inj same sizes
        exact ⟨first, (List.cons.inj second).2⟩
      · rintro ⟨first, second⟩
        rw [first, second]
    rw [Sheet.linesFound, Sheet.linesUnder, Sheet.Reached]
    cases prelude.entered with
    | true =>
      rw [cond_true, if_pos rfl, apart _ (by rw [length_linesFound, length_linesUnder]), inside]
    | false =>
      rw [cond_false, if_neg Bool.false_ne_true, apart _ (length_linesUnder scope items).symm, eq_comm]
  | _ => simp_all [Sheet.linesFound, Sheet.linesUnder, Sheet.Reached]

/-- A sheet that is well laid out comes out with the selectors of its style rules under the
scope and with everything else as it was, apart from groups that are not entered. So all of it
is as it belongs exactly if no such group holds anything that the scope would change. -/
theorem scope_layout (scope : String) (sheet : Sheet) :
    Stylesheet.scope scope sheet.text = .ok (sheet.found scope) ∧
      (sheet.linesFound scope.toList = sheet.linesUnder scope.toList ↔ sheet.Reached scope.toList) :=
  ⟨scope_sheet scope sheet, linesFound_eq_iff scope.toList sheet⟩

/-- Groups in groups are entered, but not one with a comma right behind its name. -/
theorem scope_layout_nested : ∃ sheet : Sheet,
    sheet.text = "@media print \x7b\n@supports (display: grid) \x7b\nbody ,\n a\x7b\n\x7d\n\x7d\n\x7d\n@media,print \x7b\n.b \x7b\n\x7d\n\x7d" ∧
      sheet.under ".x" =
        "@media print \x7b\n@supports (display: grid) \x7b\n.x,\n .x a \x7b\n\x7d\n\x7d\n\x7d\n@media,print \x7b\n.x .b \x7b\n\x7d\n\x7d" ∧
      Stylesheet.scope ".x" sheet.text = .ok
        "@media print \x7b\n@supports (display: grid) \x7b\n.x,\n .x a \x7b\n\x7d\n\x7d\n\x7d\n@media,print \x7b\n.b \x7b\n\x7d\n\x7d" ∧
      ¬ sheet.Reached ".x".toList := by
  let nothing : Space := ⟨⟨[], by decide⟩, Blank.nil⟩
  let space : Space := ⟨⟨[' '], by decide⟩, Blank.space⟩
  let closing : ClosingLine := ⟨⟨['}'], by decide⟩, by decide⟩
  let root : Entry :=
    ⟨nothing, ⟨['b', 'o', 'd', 'y'], by decide⟩, space, ⟨⟨'b', _, rfl, rfl⟩, ⟨['b', 'o', 'd'], 'y', rfl, rfl⟩⟩,
      by decide, by decide, by decide, by cbv, rfl⟩
  let link : Entry :=
    ⟨space, ⟨['a'], by decide⟩, nothing, Solid.singleton rfl, by decide, by decide, by decide, by cbv, rfl⟩
  let bold : Entry :=
    ⟨nothing, ⟨['.', 'b'], by decide⟩, space, ⟨⟨'.', _, rfl, rfl⟩, ⟨['.'], 'b', rfl, rfl⟩⟩,
      by decide, by decide, by decide, by cbv, rfl⟩
  let body : Body := ⟨[], ⟨fun part shorter => by simp [List.prefix_nil.mp shorter, depth], by cbv⟩, rfl⟩
  let printed : Prelude :=
    ⟨[], ⟨"@media print ".toList, by decide_cbv⟩, nothing, by cbv, by cbv, commentFree_of_noSlash (by decide_cbv), by cbv⟩
  let grid : Prelude :=
    ⟨[], ⟨"@supports (display: grid) ".toList, by decide_cbv⟩, nothing, by cbv, by cbv, commentFree_of_noSlash (by decide_cbv), by cbv⟩
  let listed : Prelude :=
    ⟨[], ⟨"@media,print ".toList, by decide_cbv⟩, nothing, by cbv, by cbv, commentFree_of_noSlash (by decide_cbv), by cbv⟩
  have group : printed.Conditional :=
    ⟨"@media".toList, by simp [Prelude.conditionalNames], " print \x7b".toList, by cbv, Or.inl ⟨' ', rfl, rfl⟩⟩
  have inner : grid.Conditional :=
    ⟨"@supports".toList, by simp [Prelude.conditionalNames], " (display: grid) \x7b".toList, by cbv, Or.inl ⟨' ', rfl, rfl⟩⟩
  have other : listed.Conditional :=
    ⟨"@media".toList, by simp [Prelude.conditionalNames], ",print \x7b".toList, by cbv,
      Or.inr (@not_goesOn_cons ',' _ (by decide) (by decide) (by decide))⟩
  let sheet : Sheet :=
    .group printed group
      (.group grid inner (.rule [⟨⟨root, []⟩, nothing⟩] ⟨⟨link, []⟩, nothing⟩ body closing .done) closing .done) closing
      (.group listed other (.rule [] ⟨⟨bold, []⟩, nothing⟩ body closing .done) closing .done)
  obtain ⟨comes, reached⟩ := scope_layout ".x" sheet
  have differ : sheet.linesFound ".x".toList ≠ sheet.linesUnder ".x".toList := by
    intro same
    have found : (sheet.linesFound ".x".toList).flatten.length = 74 := by cbv
    have under : (sheet.linesUnder ".x".toList).flatten.length = 77 := by cbv
    rw [same, under] at found
    cases found
  exact ⟨sheet, by cbv, by cbv, comes.trans (congrArg Except.ok (by cbv)), fun all => differ (reached.mpr all)⟩

end Results

end VideoPage.Proofs.ScopingLayout
