import VideoPage.Text.Blank

/-! Selectors and selector lists under a scope. -/

namespace VideoPage.Stylesheet.Selector

/-- Whether a character extends the name before it. Only ASCII is looked at. -/
def continuesName (c : Char) : Bool := c.isAlphanum || c = '-' || c = '_'

/-- The rest of a selector that starts with a word as a whole name. -/
def dropWord? (word selector : List Char) : Option (List Char) :=
  match word.isPrefixOf? selector with
  | some [] => some []
  | some (c :: rest) => if continuesName c then none else some (c :: rest)
  | none => none

/-- The names that a page's own root goes by. -/
def rootNames : List (List Char) := [":root".toList, "body".toList]

/-- Puts one selector under a scope. A selector that is there already stays, the page's
root becomes the scope itself, and anything else becomes a descendant of it. -/
def under (scope selector : List Char) : List Char :=
  if (dropWord? scope selector).isSome then selector
  else match rootNames.findSome? (dropWord? · selector) with
    | some rest => scope ++ rest
    | none => scope ++ ' ' :: selector

/-- The selectors of a list, trimmed. Empty places between commas are dropped. -/
def pieces (selectors : List Char) : List (List Char) :=
  ((selectors.splitOn ',').map Text.trim).filter (!·.isEmpty)

/-- Puts every selector of a list under a scope. -/
def listUnder (scope selectors : List Char) : List Char :=
  [',', ' '].intercalate ((pieces selectors).map (under scope))

end VideoPage.Stylesheet.Selector
