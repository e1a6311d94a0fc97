import VideoPage.Page.Element

/-! Selectors as they are written: compounds with spaces between them. Only tags, classes
and attributes are known, and anything else is no selector. -/

namespace VideoPage

structure Compound where
  tag : Option String
  classes : List String
  attributes : List String
deriving DecidableEq

namespace Compound

def isNameCharacter (c : Char) : Bool := c.isAlphanum || c = '-' || c = '_'

/-- Reads a name, which is not empty. -/
def name? (text : List Char) : Option String :=
  if !text.isEmpty && text.all isNameCharacter then some (String.ofList text) else none

/-- Reads what follows an opening bracket: a name and the closing bracket. -/
def attribute? (text : List Char) : Option String :=
  if text.getLast? = some ']' then name? text.dropLast else none

/-- Reads a piece without points: some text and the attributes after it. -/
def piece? (text : List Char) : Option (List Char × List String) :=
  match text.splitOn '[' with
  | [] => none
  | first :: rest => (rest.mapM attribute?).map (first, ·)

/-- Reads the pieces after the first, each of which starts with a class. -/
def class? (text : List Char) : Option (String × List String) :=
  match piece? text with
  | some (first, attributes) => (name? first).map (·, attributes)
  | none => none

/-- Reads one compound: a tag, classes and attributes, none of which has to be there. -/
def read? (text : List Char) : Option Compound :=
  match text.splitOn '.' with
  | [] => none
  | start :: rest =>
    match piece? start, rest.mapM class? with
    | some (first, attributes), some classes =>
      let attributes := attributes ++ classes.flatMap (·.2)
      if first.isEmpty then some ⟨none, classes.map (·.1), attributes⟩
      else (name? first).map fun tag => ⟨some tag, classes.map (·.1), attributes⟩
    | _, _ => none

/-- Whether an element is what a compound describes. -/
def accepts (compound : Compound) (element : Element) : Bool :=
  (match compound.tag with
    | some tag => element.tag = tag
    | none => true) &&
  compound.classes.all (element.classes.contains ·) &&
  compound.attributes.all (element.hasAttribute ·)

end Compound

/-- Reads a selector. It has at least one compound. -/
def readSelector? (selector : String) : Option (List Compound) :=
  match (Text.words selector).mapM (Compound.read? ·.toList) with
  | some [] => none
  | result => result

end VideoPage
