import VideoPage.Behaviour.Tooltip
import VideoPage.Page.Handler

/-! A page: elements, the tree that they form, their listeners, and the players of its
videos. Each aspect is a table of its own over all element numbers, so a change to one leaves
the others as they were. -/

namespace VideoPage

structure Page where
  /-- How many elements have come into being. -/
  count : Nat
  element : Table NodeId Element
  parent : Table NodeId (Option NodeId)
  children : Table NodeId (List NodeId)
  listeners : Table NodeId (List Listener)
  deck : Deck NodeId
  /-- The tooltip that an element shows. -/
  tooltip : Table NodeId (Option Tooltip)

/-- Why a page could not be bound. -/
inductive PageError where
  | invalidSelector (selector : String)
  | queryFailed
  | listenFailed
  | styleFailed
  | appendFailed
  /-- A tooltip's trigger belongs to no document. -/
  | noOwnerDocument
  /-- There is no document whose behaviours could be bound. -/
  | nothingToBind
  /-- The page's own script has found no document. -/
  | noDocument
deriving DecidableEq

def PageError.message : PageError → String
  | invalidSelector selector => "SyntaxError: " ++ selector
  | queryFailed => "query failed"
  | listenFailed => "listen failed"
  | styleFailed => "style failed"
  | appendFailed => "append failed"
  | noOwnerDocument => "tooltip trigger has no owner document"
  | nothingToBind => "cuebar: no document element to bind"
  | noDocument => "no document element"

namespace Page

/-- A page without elements. -/
def empty : Page where
  count := 0
  element := fun _ => { tag := "" }
  parent := fun _ => none
  children := fun _ => []
  listeners := fun _ => []
  deck := fun _ => ⟨.embedded false, {}⟩
  tooltip := fun _ => none

def setElement (page : Page) (node : NodeId) (element : Element) : Page :=
  { page with element := page.element.set node element }

/-- Makes an element the last child of another. -/
def adopt (page : Page) (parent child : NodeId) : Page :=
  { page with children := page.children.set parent (page.children parent ++ [child]) }

/-- Adds an element as the last child of another, or as the root. Its number is the count
of those before it. -/
def insert (page : Page) (parent : Option NodeId) (element : Element) (player : Player) : Page :=
  let grown := { page with
    count := page.count + 1
    element := page.element.set page.count element
    parent := page.parent.set page.count parent
    deck := page.deck.set page.count player }
  match parent with
  | some above => grown.adopt above page.count
  | none => grown

/-- Whether an element refuses an operation. Pages use such elements to try out failures. -/
def refuses (page : Page) (node : NodeId) (operation : String) : Bool :=
  (page.element node).hasAttribute ("fail-" ++ operation)

def addListener? (page : Page) (node : NodeId) (listener : Listener) : Except PageError Page :=
  if page.refuses node "listen" then .error .listenFailed
  else .ok { page with
    listeners := page.listeners.set node (page.listeners node ++ [listener]) }

def setStyle? (page : Page) (node : NodeId) (property value : String) : Except PageError Page :=
  if page.refuses node "style" then .error .styleFailed
  else .ok (page.setElement node ((page.element node).setStyle property value))

/-- Sets a style property where that is possible. -/
def setStyle (page : Page) (node : NodeId) (property value : String) : Page :=
  match page.setStyle? node property value with
  | .ok next => next
  | .error _ => page

/-- Writes an element's content. Its children leave the page and are nobody's children any
more; whatever listens on them stays. -/
def write (page : Page) (node : NodeId) (content : Content) : Page :=
  { page with
    element := page.element.set node { page.element node with content := some content }
    children := page.children.set node []
    parent := fun other => (page.parent other).filter (· ≠ node) }

def setValue (page : Page) (node : NodeId) (value : Binary64) : Page :=
  page.setElement node { page.element node with value }

end Page
end VideoPage
