import VideoPage.Stylesheet.Block
import VideoPage.Stylesheet.Selector

/-! Putting a stylesheet under a scope. The sheet is gone through line by line: a line with
selectors gets new ones, and every other line is copied. What a line means depends only
on the position before it, which is whether a comment is open, which blocks are open, and
whether an at-rule still waits for its block. -/

namespace VideoPage.Stylesheet

/-- The class that a page's dark stylesheet is scoped under. -/
def defaultScope : String := ".dark-theme"

/-- The at-rules whose blocks hold rules to scope. -/
def groupNames : List String := ["@media", "@supports", "@container", "@layer", "@document"]

/-- An at-rule's name ends at a blank, a brace or a parenthesis. -/
def atRuleName (text : List Char) : List Char :=
  text.takeWhile fun c => !(Text.isBlank c || c = '{' || c = '(')

def Block.ofAtRule (text : List Char) : Block :=
  if groupNames.any (·.toList = atRuleName text) then .group else .verbatim

/-- What the lines read so far leave open. -/
structure Position where
  inComment : Bool := false
  blocks : List Block := []
  /-- The kind of block that an at-rule on an earlier line still has to open. -/
  pending : Option Block := none
deriving DecidableEq

/-- What becomes of a line. -/
inductive LineKind where
  | copied
  /-- The start or a later part of an at-rule, with the kind of block it opens. -/
  | atRule (opens : Block)
  | selectors
deriving DecidableEq

/-- The kind of block that the first brace of a line opens. -/
def LineKind.opens : LineKind → Block
  | copied => .verbatim
  | atRule opens => opens
  | selectors => .rule

namespace Position

def scan (p : Position) : Scan := .atLineStart p.inComment

def kindOf (p : Position) (line : List Char) : LineKind :=
  let trimmed := Text.trim line
  if p.inComment || trimmed.isEmpty || ['/', '*'].isPrefixOf trimmed then .copied
  else if !Block.holdsSelectors p.blocks || ['}'].isPrefixOf trimmed then .copied
  else match p.pending with
    | some opens => .atRule opens
    | none => if ['@'].isPrefixOf trimmed then .atRule (.ofAtRule trimmed) else .selectors

/-- The position after a line; none when the line closes a block that was never opened.
An at-rule goes on to the next line while it has neither a brace nor a semicolon at the
end. -/
def next? (p : Position) (line : List Char) : Option Position :=
  let kind := p.kindOf line
  let braces := p.scan.braces line
  (Block.track? kind.opens braces p.blocks).map fun blocks => {
    inComment := (p.scan.after line).inComment
    blocks := blocks
    pending := match kind with
      | .atRule opens =>
        if braces.isEmpty && (Text.trim line).getLast? != some ';' then some opens else none
      | _ => p.pending }

end Position

/-- Puts the selectors of a line under a scope. They end at the first brace, or, when the
list goes on over the next line, at the comma. -/
def scopeLine (scope line : List Char) : List Char :=
  match Scan.code.splitAtBrace? line with
  | some (head, .opening, tail) =>
    if (Text.trim head).isEmpty then line
    else Text.indentation line ++ Selector.listUnder scope (Text.trim head) ++ ' ' :: tail
  | some (_, .closing, _) => line
  | none =>
    let trimmed := Text.trim line
    if trimmed.getLast? = some ',' then
      let list := (trimmed.reverse.dropWhile (· = ',')).reverse
      Text.indentation line ++ Selector.listUnder scope list ++ ',' :: Text.ending line
    else line

/-- A line as it comes out. -/
def lineUnder (scope : List Char) (p : Position) (line : List Char) : List Char :=
  match p.kindOf line with
  | .selectors => scopeLine scope line
  | _ => line

/-- Scopes lines from a position on, counting them for the errors. -/
def scopeLines (scope : List Char) :
    Nat → Position → List (List Char) → Except ScopeError (List (List Char))
  | _, p, [] => if p.blocks.isEmpty then .ok [] else .error (.unclosed p.blocks.length)
  | number, p, line :: rest =>
    match p.next? line with
    | none => .error (.unbalanced number)
    | some q => (scopeLines scope (number + 1) q rest).map (lineUnder scope p line :: ·)

/-- Scopes a whole text. -/
def scopeText (scope text : List Char) : Except ScopeError (List Char) :=
  (scopeLines scope 1 {} (text.splitOn '\n')).map ['\n'].intercalate

/-- Puts every selector of a stylesheet under a scope. -/
def scope (scope css : String) : Except ScopeError String :=
  (scopeText scope.toList css.toList).map String.ofList

end VideoPage.Stylesheet
