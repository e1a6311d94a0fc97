import VideoPage.Decimal.Layout
import VideoPage.Trace.Event

/-! Recorded events as a JSON document. The document is built from lines, and the members
of an object are listed in the order of their names, so no sorting is needed. JSON has no
word for a number that is not finite, and `null` stands for all of them. -/

namespace VideoPage

namespace Export

abbrev Line := List Char

/-- Puts a comma after the last line of an item. -/
def addComma : List Line → List Line
  | [] => []
  | [last] => [last ++ [',']]
  | line :: rest => line :: addComma rest

/-- The lines of a sequence of items, with a comma after each item but the last. -/
def separated : List (List Line) → List Line
  | [] => []
  | [last] => last
  | item :: rest => addComma item ++ separated rest

/-- Moves lines two columns to the right. -/
def indented (lines : List Line) : List Line := lines.map ([' ', ' '] ++ ·)

/-- A bracketed sequence of items that is not empty. -/
def bracketed (opening : Line) (closing : Line) (items : List (List Line)) : List Line :=
  opening :: indented (separated items) ++ [closing]

def quoted (word : String) : Line := '"' :: word.toList ++ ['"']

def number (x : Binary64) : Line :=
  match x.exportText? with
  | some digits => digits
  | none => "null".toList

/-- A member of an object whose value fits on its line. -/
def member (name : String) (value : Line) : List Line := [quoted name ++ ':' :: ' ' :: value]

/-- A member whose value is an object. -/
def objectMember (name : String) (members : List (List Line)) : List Line :=
  bracketed (quoted name ++ [':', ' ', '{']) ['}'] members

end Export

open Export

def ComponentId.exportMember (id : ComponentId) : List Export.Line :=
  objectMember "component"
    [member "index" (Nat.toDigits 10 id.index), member "kind" (quoted id.kind.name)]

/-- The members of an event's object, in the order of their names. -/
def Event.exportMembers : Event → List (List Export.Line)
  | bound id => [id.exportMember, member "event" (quoted "bound")]
  | skipped id reason =>
    [id.exportMember, member "event" (quoted "skipped"), member "reason" (quoted reason.name)]
  | action id kind time rate =>
    [member "action" (quoted kind.name), id.exportMember, member "event" (quoted "action"),
      member "media_time" (number time), member "playback_rate" (number rate)]
  | seek id percent target =>
    [id.exportMember, member "event" (quoted "seek"), member "percent" (number percent),
      member "target" (number target)]

def Event.exportLines (event : Event) : List Export.Line :=
  bracketed ['{'] ['}'] event.exportMembers

namespace Export

/-- The lines of a document. -/
def documentLines : List Event → List Line
  | [] => ["[]".toList]
  | events => bracketed ['['] [']'] (events.map Event.exportLines)

end Export

/-- The document that holds recorded events. -/
def exportedEvents (events : List Event) : String :=
  String.ofList ((documentLines events).flatMap (· ++ ['\n']))

end VideoPage
