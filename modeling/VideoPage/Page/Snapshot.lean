import VideoPage.Page.Basic

/-! What a page looks like at a moment, and what has changed since another one. -/

namespace VideoPage

/-- What can be seen of an element. -/
structure ElementState where
  tag : String
  className : Option String
  style : List (String × String)
  content : Option Content
  /-- The events that are listened for, in the order of registration. -/
  listeners : List String
  /-- Only a slider has a value. -/
  value : Option Binary64
  /-- Only a video has a clip. -/
  clip : Option Clip
deriving DecidableEq

/-- Every element of a page by its path. -/
abbrev Snapshot := List (String × ElementState)

namespace Page

def state (page : Page) (node : NodeId) : ElementState :=
  let element := page.element node
  { tag := element.tag
    className := element.attribute? "class"
    style := element.style
    content := element.content
    listeners := (page.listeners node).map (·.event)
    value := if element.isInput then some element.value else none
    clip := if element.isVideo then some (page.deck node).clip else none }

/-- A path is written as the positions among the children on the way from the root. -/
def pathText (path : List Nat) : String := "/".intercalate (path.map toString)

/-- The paths of an element and of everything below it, in document order. -/
def pathsWithin (page : Page) : Nat → List Nat → NodeId → List (List Nat × NodeId)
  | 0, _, _ => []
  | depth + 1, path, node =>
    (path, node) :: (page.children node).zipIdx.flatMap fun (child, position) =>
      page.pathsWithin depth (path ++ [position]) child

/-- The paths of all elements. A page without elements has none. -/
def paths (page : Page) : List (List Nat × NodeId) := page.pathsWithin page.count [] 0

def snapshot (page : Page) : Snapshot :=
  page.paths.map fun (path, node) => (pathText path, page.state node)

/-- The element at a path. -/
def at? (page : Page) (path : List Nat) : Option NodeId := page.paths.lookup path

end Page

namespace Snapshot

/-- The elements that are new or differ from what they were. -/
def changed (before after : Snapshot) : Snapshot :=
  after.filter fun (path, state) => before.lookup path ≠ some state

/-- The paths that are gone, in order of their texts. -/
def removed (before after : Snapshot) : List String :=
  ((before.map (·.1)).filter fun path => (after.lookup path).isNone).mergeSort (· ≤ ·)

end Snapshot
end VideoPage
