import VideoPage.Page.Basic

/-! A page as it is written: a tree of elements, numbered in document order. -/

namespace VideoPage

inductive Markup where
  | element (element : Element) (player : Player) (children : List Markup)

namespace Markup

mutual

/-- Adds a tree to a page, each element before its children. -/
def insert (page : Page) (parent : Option NodeId) : Markup → Page
  | .element here player children =>
    insertAll (page.insert parent here player) page.count children

/-- Adds trees as the last children of an element. -/
def insertAll (page : Page) (parent : NodeId) : List Markup → Page
  | [] => page
  | first :: rest => insertAll (first.insert page (some parent)) parent rest

end

/-- The page that consists of one tree. Its root has the number zero. -/
def page (markup : Markup) : Page := markup.insert .empty none

end Markup
end VideoPage
