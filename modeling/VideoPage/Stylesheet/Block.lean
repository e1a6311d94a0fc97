import VideoPage.Stylesheet.Scan

/-! The blocks that are open at a point of a stylesheet, innermost first. -/

namespace VideoPage.Stylesheet

inductive Block where
  /-- A conditional group, whose children are rules to scope. -/
  | group
  /-- The declarations of a style rule. -/
  | rule
  /-- Anything that is copied as it stands. -/
  | verbatim
deriving DecidableEq

namespace Block

/-- Selectors stand at top level and directly inside groups. -/
def holdsSelectors : List Block → Bool
  | [] | group :: _ => true
  | _ => false

/-- The open blocks after a line's braces. The first brace that opens a block opens the
given kind and the others open copied ones. There is no result when a brace closes a
block that was never opened. -/
def track? (opens : Block) : List Brace → List Block → Option (List Block)
  | [], blocks => some blocks
  | .opening :: rest, blocks => track? verbatim rest (opens :: blocks)
  | .closing :: rest, _ :: blocks => track? opens rest blocks
  | .closing :: _, [] => none

end Block

/-- Why a stylesheet cannot be scoped. -/
inductive ScopeError where
  /-- A brace closes a block that was never opened; lines count from one. -/
  | unbalanced (line : Nat)
  /-- The text ends inside this many blocks. -/
  | unclosed (depth : Nat)
deriving DecidableEq

def ScopeError.message : ScopeError → String
  | unbalanced line => s!"line {line}: closing brace without a matching opening brace"
  | unclosed depth => s!"stylesheet ends with {depth} unclosed block(s)"

end VideoPage.Stylesheet
