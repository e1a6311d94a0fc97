/-! Which braces of a stylesheet are structure. A scan reads one character at a time and
remembers only what those before it have left open, so reading a text is reading its
pieces one after the other. Comments run over line breaks and strings end at them. -/

namespace VideoPage.Stylesheet

inductive Brace where
  | opening
  | closing
deriving DecidableEq

/-- What the text read so far has left open. -/
inductive Scan where
  | code
  /-- In code, just after a slash, which a star would turn into a comment. -/
  | slash
  | comment
  /-- In a comment, just after a star, which a slash would turn into its end. -/
  | star
  | quoted (quote : Char)
  /-- In a string, just after a backslash, which hides the next character. -/
  | escaped (quote : Char)
deriving DecidableEq

namespace Scan

def inComment : Scan → Bool
  | comment | star => true
  | _ => false

/-- Where a line starts: inside a comment or in code. -/
def atLineStart (inComment : Bool) : Scan := if inComment then comment else code

/-- A line break ends everything but a comment. -/
def newline (s : Scan) : Scan := atLineStart s.inComment

def inCode (c : Char) : Scan :=
  if c = '/' then slash else if c = '"' || c = '\'' then quoted c else code

def inCommentText (c : Char) : Scan := if c = '*' then star else comment

/-- What is open after one more character. -/
def step (s : Scan) (c : Char) : Scan :=
  if c = '\n' then s.newline
  else match s with
    | code => inCode c
    | slash => if c = '*' then comment else inCode c
    | comment => inCommentText c
    | star => if c = '/' then code else inCommentText c
    | quoted quote => if c = '\\' then escaped quote else if c = quote then code else quoted quote
    | escaped quote => quoted quote

/-- What is open after a text. -/
def after (s : Scan) (text : List Char) : Scan := text.foldl step s

/-- The brace that a character is, if it is structure. -/
def brace? (s : Scan) (c : Char) : Option Brace :=
  match s with
  | code | slash =>
    if c = '{' then some .opening else if c = '}' then some .closing else none
  | _ => none

/-- The structural braces of a text, in order. -/
def braces (s : Scan) : List Char → List Brace
  | [] => []
  | c :: rest =>
    match s.brace? c with
    | some brace => brace :: (s.step c).braces rest
    | none => (s.step c).braces rest

/-- The text before the first structural brace, that brace, and the text from it on. -/
def splitAtBrace? (s : Scan) : List Char → Option (List Char × Brace × List Char)
  | [] => none
  | c :: rest =>
    match s.brace? c with
    | some brace => some ([], brace, c :: rest)
    | none =>
      match (s.step c).splitAtBrace? rest with
      | some (head, brace, tail) => some (c :: head, brace, tail)
      | none => none

end Scan
end VideoPage.Stylesheet
