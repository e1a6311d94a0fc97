import VideoPage.Proofs.CssSyntax
import VideoPage.Stylesheet.Scoping

/-! The style rules of a sheet, as a reader of the whole text takes them. The reader knows
nothing of lines: a rule's selectors are what stands between the statement before it and
its brace. Text may carry marks, which the reader keeps and which mean nothing else to it. -/

namespace VideoPage.Proofs.SheetRules
open Stylesheet CssSyntax

/-- What is left of a text for a reader who takes comments for blanks. -/
inductive Sign where
  | code (c : Char)
  /-- A character inside a string. -/
  | quoted (c : Char)
  | mark
deriving DecidableEq

namespace Sign

def blank : Sign → Bool
  | code c => Text.isBlank c
  | _ => false

def continuesName : Sign → Bool
  | code c => Selector.continuesName c
  | _ => false

end Sign

/-- The signs that a character completes. A slash waits for the next one, which may make it
the start of a comment. -/
def signs (s : Scan) (c : Char) : List Sign :=
  match s with
  | .code => if c = '/' then [] else [.code c]
  | .slash => if c = '*' then [.code ' '] else if c = '/' then [.code '/'] else [.code '/', .code c]
  | .comment | .star => []
  | .quoted _ | .escaped _ => [if c = '\n' then .code c else .quoted c]

/-- The brackets that are open behind a sign. -/
def bracketsBehind (opened : List Char) : Sign → List Char
  | .code c => bracketsAfter opened c
  | _ => opened

def brackets (selector : List Sign) : List Char := selector.foldl bracketsBehind []

def atName? : List Sign → Option (List Sign)
  | .code '@' :: rest => some (.code '@' :: rest.takeWhile Sign.continuesName)
  | _ => none

/-- Whether what starts like this is an at-rule whose block holds rules again. -/
def opensGroup (start : List Sign) : Bool :=
  (atName? start).any fun name => name ∈ groupNames.map (·.toList.map Sign.code)

/-- What a sign does to the prelude that it comes after. -/
inductive Role where
  | opening
  | closing
  | ending
  | comma
  | text
deriving DecidableEq

def role (opened : List Char) : Sign → Role
  | .code c =>
    if c = '{' then .opening else if c = '}' then .closing
    else if opened = [] ∧ c = ';' then .ending else if opened = [] ∧ c = ',' then .comma else .text
  | _ => .text

structure Reading where
  /-- The open blocks, innermost first, and whether each is a group. -/
  blocks : List Bool := []
  /-- The selectors of the prelude before the current one. -/
  earlier : List (List Sign) := []
  /-- The current selector, without the blanks in front of it. -/
  current : List Sign := []
  /-- The selector lists of the rules so far that stand in groups only. -/
  rules : List (List (List Sign)) := []
deriving DecidableEq

namespace Reading

def selectors (reading : Reading) : List (List Sign) := reading.earlier ++ [reading.current]

def start (reading : Reading) : List Sign := reading.selectors.headD []

def next (reading : Reading) (sign : Sign) : Reading :=
  match role (brackets reading.current) sign with
  | .opening => {
      blocks := opensGroup reading.start :: reading.blocks
      rules := if reading.blocks.all id && (atName? reading.start).isNone then reading.rules ++ [reading.selectors]
        else reading.rules }
  | .closing => { blocks := reading.blocks.tail, rules := reading.rules }
  | .ending => { blocks := reading.blocks, rules := reading.rules }
  | .comma => { reading with earlier := reading.selectors, current := [] }
  | .text => { reading with
      current := if reading.current = [] ∧ sign.blank = true then [] else reading.current ++ [sign] }

end Reading

/-- Marks between the characters of a text. -/
abbrev Marked := List (Option Char)

def plain (text : List Char) : Marked := text.map some

abbrev State := Scan × Reading

def readText (state : State) (text : Marked) : State :=
  text.foldl (fun (s, reading) entry => match entry with
    | some c => (s.step c, (signs s c).foldl Reading.next reading)
    | none => (s, if s.inComment then reading else reading.next .mark)) state

/-- The selectors of each style rule that only groups stand around. Between two commas there
may be none, which shows as an empty selector. -/
def styleRules (text : Marked) : List (List (List Sign)) := (readText (.code, {}) text).2.rules

section Starts

/-- The code that signs start with. -/
def front : List Sign → List Char
  | .code c :: rest => c :: front rest
  | _ => []

variable (word : List Char) (selector : List Sign)

/-- A selector starts with a word as a whole name. -/
def StartsWith : Prop := ∃ rest, selector = word.map .code ++ rest ∧ ¬ GoesOn (front rest)

/-- A selector starts with a word and goes on with no ASCII letter, digit, hyphen or underscore.
The program looks no further before it takes the selector for one of the word's own. -/
def TakenFor : Prop := ∃ rest, selector = word.map .code ++ rest ∧ ∀ sign ∈ rest.head?, sign.continuesName = false

/-- If a selector starts with a word, no name goes on behind the word unseen. -/
def NothingOverlooked : Prop := ∀ rest, selector = word.map .code ++ rest → ¬ Overlooked (front rest)

theorem continuesName_front (rest : List Sign) : (∀ sign ∈ rest.head?, sign.continuesName = false) ↔
    ¬ ∃ c ∈ (front rest).head?, c.isAlphanum = true ∨ c = '-' ∨ c = '_' := by
  cases rest with
  | nil => simp [front]
  | cons sign rest => cases sign <;> simp [front, Sign.continuesName, Selector.continuesName, and_assoc]

theorem startsWith_iff : StartsWith word selector ↔ TakenFor word selector ∧ NothingOverlooked word selector := by
  constructor
  · rintro ⟨rest, whole, complete⟩
    rw [GoesOn, not_or, ← continuesName_front] at complete
    refine ⟨⟨rest, whole, complete.1⟩, ?_⟩
    intro other same
    obtain rfl := List.append_cancel_left (whole.symm.trans same)
    exact complete.2
  · rintro ⟨⟨rest, whole, complete⟩, nothing⟩
    refine ⟨rest, whole, ?_⟩
    rw [GoesOn, not_or, ← continuesName_front]
    exact ⟨complete, nothing rest whole⟩

end Starts

/-! Where the scope is put, as marks. -/

def markPlace (part : List Char) : Marked :=
  if (Text.trim part).isEmpty then plain part
  else plain (Text.indentation part) ++ none :: plain (Text.trimStart part)

def markList (text : List Char) : Marked := [some ','].intercalate ((text.splitOn ',').map markPlace)

def markLine (line : List Char) : Marked :=
  match Scan.code.splitAtBrace? line with
  | some (head, .opening, tail) => markList head ++ plain tail
  | some (_, .closing, _) => plain line
  | none => if (Text.trim line).getLast? = some ',' then markList line else plain line

/-- The marks of a line at its place in the sheet. -/
def markIn (p : Position) (line : List Char) : Marked :=
  match p.kindOf line with
  | .selectors => markLine line
  | _ => plain line

def markLines : Position → List (List Char) → List Marked
  | _, [] => []
  | p, line :: rest =>
    markIn p line :: match p.next? line with
      | some q => markLines q rest
      | none => []

/-- A sheet with a mark before each selector that is put under the scope. -/
def markText (text : List Char) : Marked := [some '\n'].intercalate (markLines {} (text.splitOn '\n'))

/-- Every selector of a style rule that only groups stand around is of some kind. -/
def EverySelector (kind : List Sign → Prop) (sheet : Marked) : Prop :=
  ∀ rule ∈ styleRules sheet, ∀ selector ∈ rule, selector ≠ [] → kind selector

/-- Every such selector starts with the scope. -/
def Confined (scope sheet : List Char) : Prop := EverySelector (StartsWith scope) (plain sheet)

/-- Every such selector starts where the scope is put, or is taken for one of the scope. -/
def Reached (scope sheet : List Char) : Prop :=
  EverySelector (fun selector => selector.head? = some .mark ∨ TakenFor scope selector) (markText sheet)

/-- A class and nothing else. -/
def PlainClass (word : List Char) : Prop :=
  ∃ name, word = '.' :: name ∧ name ≠ [] ∧ ∀ c ∈ name, Selector.continuesName c = true

end VideoPage.Proofs.SheetRules
