import VideoPage.Binary64.Arithmetic
import VideoPage.Text.Words

/-! What an element of a page holds by itself, without its place in the tree. -/

namespace VideoPage

/-- Elements are numbered in the order in which they come into being. -/
abbrev NodeId := Nat

/-- What was last written into an element. Markup is stored as it stands. -/
inductive Content where
  | text (text : String)
  | markup (markup : String)
deriving DecidableEq

/-- Sets the value that goes by a name. A new name comes last and an old one keeps its
place. -/
def assign (name value : String) : List (String × String) → List (String × String)
  | [] => [(name, value)]
  | (other, old) :: rest =>
    if other = name then (name, value) :: rest else (other, old) :: assign name value rest

structure Element where
  tag : String
  attributes : List (String × String) := []
  style : List (String × String) := []
  content : Option Content := none
  /-- The position of a slider. -/
  value : Binary64 := 0
deriving DecidableEq

namespace Element

def attribute? (element : Element) (name : String) : Option String := element.attributes.lookup name

def hasAttribute (element : Element) (name : String) : Bool := (element.attribute? name).isSome

def setStyle (element : Element) (property value : String) : Element :=
  { element with style := assign property value element.style }

def classes (element : Element) : List String :=
  Text.words ((element.attribute? "class").getD "")

/-- Adds a class as the last one, or takes it away. -/
def toggleClass (element : Element) (name : String) (present : Bool) : Element :=
  let others := element.classes.filter (· ≠ name)
  let classes := if present then others ++ [name] else others
  { element with attributes := assign "class" (Text.unwords classes) element.attributes }

def isVideo (element : Element) : Bool := element.tag = "video"

def isInput (element : Element) : Bool := element.tag = "input"

/-- Everything but a drawing takes part in the page's style and text. -/
def isHtml (element : Element) : Bool := element.tag ≠ "svg"

end Element
end VideoPage
