import VideoPage.Proofs.BraceDepth
import VideoPage.Proofs.CssSyntax
import VideoPage.Proofs.SheetBraces
import VideoPage.Stylesheet.Scoping

/-! Stylesheets that are laid out one thing a line. A sheet is a tree here: groups hold
sheets again, and every other block holds lines of which only the braces count. Each part
carries what makes it well laid out, and says how it is written and how it belongs under a
scope. A group is known by its whole name, but it is entered only if certain characters come
right behind this name, so a sheet may come out otherwise. -/

namespace VideoPage.Proofs.SheetLayout
open Stylesheet Selector TextBlanks SheetScan SheetBraces BraceDepth CssSyntax

def joinLines (lines : List (List Char)) : List Char := ['\n'].intercalate lines

/-- After this text no string and no comment is open. -/
def Closed (text : List Char) : Prop := calm (Scan.code.after text) = .code

def CommentFree (text : List Char) : Prop := ∀ front, front <+: text → (Scan.code.after front).inComment = false

theorem commentFree_of_noSlash {text : List Char} (noSlash : '/' ∉ text) : CommentFree text := by
  -- Without a slash the scan never waits for the star that would open a comment.
  have clear : ∀ {front : List Char} {s : Scan}, '/' ∉ front → s.inComment = false ∧ s ≠ .slash →
      (s.after front).inComment = false := by
    intro front
    induction front with
    | nil => exact fun _ clear => clear.1
    | cons c front ih =>
      intro s noSlash clear
      obtain ⟨other, noSlash⟩ := List.ne_and_not_mem_of_not_mem_cons noSlash
      refine ih noSlash ?_
      cases s with
      | slash => exact absurd rfl clear.2
      | comment | star => cases clear.1
      | code | quoted | escaped => grind [Scan.step, Scan.newline, Scan.atLineStart, Scan.inCode, Scan.inComment]
  exact fun front part => clear (fun member => noSlash (part.subset member)) ⟨rfl, Scan.noConfusion⟩

/-- The structural braces of a text close what they open and nothing else. -/
def Balanced (text : List Char) : Prop :=
  NeverBelow (structuralBraces text) ∧ depth (structuralBraces text) = 0

structure Line where
  text : List Char
  noBreak : '\n' ∉ text

structure Space extends Line where
  blank : Blank text

structure ClosingLine extends Line where
  brace : Text.trim text = ['}']

/-- An at-rule without a block. -/
structure Statement extends Line where
  atRule : (Text.trim text).head? = some '@'
  ends : (Text.trim text).getLast? = some ';'
  noBrace : structuralBraces text = []
  commentFree : CommentFree text

/-- A comment alone on its lines. -/
structure Comment where
  indentation : Space
  early : List Line
  last : Line
  ending : Space
  noEnd : ∀ line ∈ early ++ [last], ¬ ['*', '/'] <:+: line.text

def Comment.lines (comment : Comment) : List (List Char) :=
  (comment.early.map (·.text) ++ [comment.last.text ++ '*' :: '/' :: comment.ending.text]).modifyHead
    fun first => comment.indentation.text ++ '/' :: '*' :: first

structure PreludeLine extends Line where
  visible : ¬ Blank text
  goesOn : (Text.trim text).getLast? ≠ some ';'
  noBrace : structuralBraces text = []
  commentFree : CommentFree text

/-- An at-rule up to the brace of its block, which may stand on a line of its own. -/
structure Prelude where
  early : List PreludeLine
  last : Line
  ending : Space
  noBrace : structuralBraces last.text = []
  closed : Closed last.text
  commentFree : CommentFree last.text
  atRule : (Text.trim ((early.map (·.text)).headD last.text)).head? = some '@'

namespace Prelude

def lines (prelude : Prelude) : List (List Char) :=
  prelude.early.map (·.text) ++ [prelude.last.text ++ '{' :: prelude.ending.text]

/-- The at-rule with its brace, from its name on. -/
def text (prelude : Prelude) : List Char := Text.trimStart (joinLines prelude.lines)

def conditionalNames : List (List Char) :=
  ["@media".toList, "@supports".toList, "@container".toList, "@layer".toList, "@document".toList]

/-- Whether the block holds rules to scope. The name is over at a blank, and wherever no name
of a stylesheet goes on. -/
def Conditional (prelude : Prelude) : Prop :=
  ∃ name ∈ conditionalNames, ∃ rest, prelude.text = name ++ rest ∧
    ((∃ c ∈ rest.head?, Text.isBlank c = true) ∨ ¬ GoesOn rest)

/-- Whether the name is one of these up to a blank, a parenthesis or the brace. -/
def entered (prelude : Prelude) : Bool :=
  conditionalNames.any fun name => match name.isPrefixOf? prelude.text with
    | some (c :: _) => Text.isBlank c || c = '(' || c = '{'
    | _ => false

end Prelude

structure Body where
  lines : List Line
  balanced : Balanced (joinLines (lines.map (·.text)))
  ends : (Scan.code.after (joinLines (lines.map (·.text)))).inComment = false

/-- A selector at its place in a list. -/
structure Entry where
  before : Space
  selector : Line
  after : Space
  solid : Solid selector.text
  noComma : ',' ∉ selector.text
  noAtRule : selector.text.head? ≠ some '@'
  noComment : ¬ ['/', '*'] <+: selector.text
  noBrace : structuralBraces selector.text = []
  closed : Closed selector.text

def Entry.text (entry : Entry) : List Char := entry.before.text ++ entry.selector.text ++ entry.after.text

structure SelectorList where
  first : Entry
  others : List Entry

namespace SelectorList

def entries (list : SelectorList) : List Entry := list.first :: list.others

def text (list : SelectorList) : List Char := [','].intercalate (list.entries.map Entry.text)

/-- The indentation stays and the commas are set anew. -/
def under (scope : List Char) (list : SelectorList) : List Char :=
  list.first.before.text ++ [',', ' '].intercalate (list.entries.map fun entry => Selector.under scope entry.selector.text)

end SelectorList

/-- A selector list and the blanks behind the comma or the brace that ends its line. -/
structure SelectorLine where
  list : SelectorList
  ending : Space

namespace SelectorLine

def goingOn (line : SelectorLine) : List Char := line.list.text ++ ',' :: line.ending.text

def goingOnUnder (scope : List Char) (line : SelectorLine) : List Char :=
  line.list.under scope ++ ',' :: line.ending.text

def opening (line : SelectorLine) : List Char := line.list.text ++ '{' :: line.ending.text

def openingUnder (scope : List Char) (line : SelectorLine) : List Char :=
  line.list.under scope ++ ' ' :: '{' :: line.ending.text

end SelectorLine

structure OneLineRule where
  list : SelectorList
  declarations : Line
  ending : Space
  balanced : Balanced declarations.text
  closed : Closed declarations.text

namespace OneLineRule

def text (rule : OneLineRule) : List Char :=
  rule.list.text ++ '{' :: (rule.declarations.text ++ '}' :: rule.ending.text)

def under (scope : List Char) (rule : OneLineRule) : List Char :=
  rule.list.under scope ++ ' ' :: '{' :: (rule.declarations.text ++ '}' :: rule.ending.text)

end OneLineRule

inductive Sheet where
  | done
  | blank (line : Space) (rest : Sheet)
  | comment (note : Comment) (rest : Sheet)
  | statement (line : Statement) (rest : Sheet)
  | group (prelude : Prelude) (conditional : prelude.Conditional) (items : Sheet) (closing : ClosingLine) (rest : Sheet)
  | block (prelude : Prelude) (other : ¬ prelude.Conditional) (body : Body) (closing : ClosingLine) (rest : Sheet)
  | rule (earlier : List SelectorLine) (opening : SelectorLine) (body : Body) (closing : ClosingLine) (rest : Sheet)
  | oneLine (line : OneLineRule) (rest : Sheet)

namespace Sheet

def lines : Sheet → List (List Char)
  | done => []
  | blank line rest => line.text :: rest.lines
  | comment note rest => note.lines ++ rest.lines
  | statement line rest => line.text :: rest.lines
  | group prelude _ items closing rest => prelude.lines ++ items.lines ++ closing.text :: rest.lines
  | block prelude _ body closing rest => prelude.lines ++ body.lines.map (·.text) ++ closing.text :: rest.lines
  | rule earlier opening body closing rest =>
    earlier.map (·.goingOn) ++ opening.opening :: (body.lines.map (·.text) ++ closing.text :: rest.lines)
  | oneLine line rest => line.text :: rest.lines

/-- Only the selectors of style rules differ, in groups as well. -/
def linesUnder (scope : List Char) : Sheet → List (List Char)
  | done => []
  | blank line rest => line.text :: rest.linesUnder scope
  | comment note rest => note.lines ++ rest.linesUnder scope
  | statement line rest => line.text :: rest.linesUnder scope
  | group prelude _ items closing rest =>
    prelude.lines ++ items.linesUnder scope ++ closing.text :: rest.linesUnder scope
  | block prelude _ body closing rest =>
    prelude.lines ++ body.lines.map (·.text) ++ closing.text :: rest.linesUnder scope
  | rule earlier opening body closing rest =>
    earlier.map (·.goingOnUnder scope) ++ opening.openingUnder scope ::
      (body.lines.map (·.text) ++ closing.text :: rest.linesUnder scope)
  | oneLine line rest => line.under scope :: rest.linesUnder scope

/-- As `linesUnder`, except that a group that is not entered stays as it is. -/
def linesFound (scope : List Char) : Sheet → List (List Char)
  | done => []
  | blank line rest => line.text :: rest.linesFound scope
  | comment note rest => note.lines ++ rest.linesFound scope
  | statement line rest => line.text :: rest.linesFound scope
  | group prelude _ items closing rest =>
    prelude.lines ++ (bif prelude.entered then items.linesFound scope else items.lines) ++
      closing.text :: rest.linesFound scope
  | block prelude _ body closing rest =>
    prelude.lines ++ body.lines.map (·.text) ++ closing.text :: rest.linesFound scope
  | rule earlier opening body closing rest =>
    earlier.map (·.goingOnUnder scope) ++ opening.openingUnder scope ::
      (body.lines.map (·.text) ++ closing.text :: rest.linesFound scope)
  | oneLine line rest => line.under scope :: rest.linesFound scope

/-- A group that is not entered holds nothing that the scope would change. -/
def Reached (scope : List Char) : Sheet → Prop
  | done => True
  | blank _ rest | comment _ rest | statement _ rest | block _ _ _ _ rest | rule _ _ _ _ rest | oneLine _ rest =>
    rest.Reached scope
  | group prelude _ items _ rest =>
    (if prelude.entered then items.Reached scope else items.linesUnder scope = items.lines) ∧ rest.Reached scope

def text (sheet : Sheet) : String := String.ofList (joinLines sheet.lines)

def under (scope : String) (sheet : Sheet) : String := String.ofList (joinLines (sheet.linesUnder scope.toList))

def found (scope : String) (sheet : Sheet) : String := String.ofList (joinLines (sheet.linesFound scope.toList))

end Sheet

end VideoPage.Proofs.SheetLayout
