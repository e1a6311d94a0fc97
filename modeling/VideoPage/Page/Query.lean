import VideoPage.Page.Basic
import VideoPage.Page.Compound

/-! Finding elements by selector. Every compound of a selector but the last has to match an
ancestor of what the next one matches; the last one matches the element itself. -/

namespace VideoPage.Page

/-- The ancestors of an element, nearest first. Ancestors come into being before their
descendants, so there are fewer of them than elements. -/
def ancestorsWithin (page : Page) : Nat → NodeId → List NodeId
  | 0, _ => []
  | depth + 1, node =>
    match page.parent node with
    | some above => above :: page.ancestorsWithin depth above
    | none => []

def ancestors (page : Page) (node : NodeId) : List NodeId := page.ancestorsWithin page.count node

/-- What lies below an element, in document order. -/
def belowWithin (page : Page) : Nat → NodeId → List NodeId
  | 0, _ => []
  | depth + 1, node =>
    (page.children node).flatMap fun child => child :: page.belowWithin depth child

def below (page : Page) (node : NodeId) : List NodeId := page.belowWithin page.count node

/-- Whether compounds, innermost first, match elements in the order of a row of ancestors. -/
def matchesAncestors (page : Page) : List Compound → List NodeId → Bool
  | [], _ => true
  | _ :: _, [] => false
  | compound :: rest, node :: above =>
    if compound.accepts (page.element node) then page.matchesAncestors rest above
    else page.matchesAncestors (compound :: rest) above

def matchesSelector (page : Page) (selector : List Compound) (node : NodeId) : Bool :=
  match selector.reverse with
  | [] => false
  | last :: outer =>
    last.accepts (page.element node) && page.matchesAncestors outer (page.ancestors node)

/-- The elements below another that match a selector, in document order. -/
def queryAll (page : Page) (scope : NodeId) (selector : String) : Except PageError (List NodeId) :=
  if page.refuses scope "query" then .error .queryFailed
  else match readSelector? selector with
    | some compounds => .ok ((page.below scope).filter (page.matchesSelector compounds))
    | none => .error (.invalidSelector selector)

/-- The first element that matches, if it is of the right kind. -/
def query (page : Page) (kind : Element → Bool) (scope : NodeId) (selector : String) :
    Except PageError (Option NodeId) :=
  (page.queryAll scope selector).map fun found => found.head?.filter fun node =>
    kind (page.element node)

/-- The nearest match around an element, which may be the element itself. -/
def closest (page : Page) (node : NodeId) (selector : String) :
    Except PageError (Option NodeId) :=
  match readSelector? selector with
  | some compounds => .ok ((node :: page.ancestors node).find? (page.matchesSelector compounds))
  | none => .error (.invalidSelector selector)

/-- The card that a bar belongs to: the nearest match around it, or else its parent. -/
def card (page : Page) (bar : NodeId) (selector : String) : Except PageError (Option NodeId) :=
  (page.closest bar selector).map fun found => found.or (page.parent bar)

end VideoPage.Page
