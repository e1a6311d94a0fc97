/-! The arguments of the command that scopes a stylesheet. The command runs with any reader of
them; this one reads from left to right, and the first argument that makes no sense, or that
asks for a text, ends the reading. -/

namespace VideoPage

/-- An option that takes a value. -/
inductive ScopeOption where
  | output
  | scope
deriving DecidableEq

/-- What an argument is by itself. -/
inductive ScopeWord where
  /-- An option, with its value when that is in the same argument. -/
  | option (option : ScopeOption) (value : Option String)
  | help
  | version
  /-- After this, nothing is an option. -/
  | endOfOptions
  | file (path : String)
  | unknown
deriving DecidableEq

namespace ScopeWord

/-- Reads an argument after two dashes. -/
def ofLong (text : List Char) : ScopeWord :=
  let name := String.ofList (text.takeWhile (· ≠ '='))
  let value := (text.dropWhile (· ≠ '=')).tail?.map String.ofList
  if name = "output" then option .output value
  else if name = "scope" then option .scope value
  else if name = "help" && value.isNone then help
  else if name = "version" && value.isNone then version
  else unknown

/-- The value that follows an option's letter, after an equals sign or at once. -/
def shortValue : List Char → Option String
  | [] => none
  | '=' :: value => some (String.ofList value)
  | value => some (String.ofList value)

/-- Reads an argument. A lone dash is a file's name. -/
def ofText (text : String) : ScopeWord :=
  match text.toList with
  | ['-', '-'] => endOfOptions
  | '-' :: '-' :: long => ofLong long
  | '-' :: 'o' :: rest => option .output (shortValue rest)
  | '-' :: 'h' :: _ => help
  | '-' :: 'V' :: _ => version
  | '-' :: _ :: _ => unknown
  | _ => file text

end ScopeWord

structure ScopeArguments where
  input : String
  /-- Where the result goes; it replaces the input when this is missing. -/
  output : Option String
  /-- The scope; a page's own when this is missing. -/
  scope : Option String
deriving DecidableEq

/-- Why arguments do not say what to scope. -/
inductive ScopeStop where
  | refused
  /-- They only ask for this text. -/
  | shown (text : String)
deriving DecidableEq

namespace ScopeStop

def version : ScopeStop := shown "cuebar-scope-css 0.0.1\n"

def help : ScopeStop := shown <|
  "Prefix every selector in a stylesheet with a theme scope\n\n" ++
  "Usage: cuebar-scope-css [OPTIONS] <INPUT>\n\n" ++
  "Arguments:\n" ++
  "  <INPUT>  Stylesheet to rewrite\n\n" ++
  "Options:\n" ++
  "  -o, --output <OUTPUT>  Where to write the result; defaults to rewriting the input in place\n" ++
  "      --scope <SCOPE>    Selector every rule is nested under [default: .dark-theme]\n" ++
  "  -h, --help             Print help\n" ++
  "  -V, --version          Print version\n"

end ScopeStop

/-- What a command makes of its arguments. -/
abbrev ScopeReader := List String → Except ScopeStop ScopeArguments

/-- The arguments that have been read so far. -/
structure ScopeDraft where
  input : Option String := none
  output : Option String := none
  scope : Option String := none
  /-- The option whose value comes next. -/
  awaiting : Option ScopeOption := none
  onlyFiles : Bool := false
deriving DecidableEq

namespace ScopeDraft

/-- Sets an option, which is possible once. A file's name is not empty. -/
def set (draft : ScopeDraft) (option : ScopeOption) (value : String) :
    Except ScopeStop ScopeDraft :=
  match option with
  | .output =>
    if draft.output.isSome || value.isEmpty then .error .refused
    else .ok { draft with output := some value, awaiting := none }
  | .scope =>
    if draft.scope.isSome then .error .refused
    else .ok { draft with scope := some value, awaiting := none }

/-- Sets the input, which is possible once. -/
def setInput (draft : ScopeDraft) (path : String) : Except ScopeStop ScopeDraft :=
  if draft.input.isSome || path.isEmpty then .error .refused
  else .ok { draft with input := some path }

/-- Reads an argument that is no option's value. -/
def takeWord (draft : ScopeDraft) : ScopeWord → Except ScopeStop ScopeDraft
  | .option option (some value) => draft.set option value
  | .option option none => .ok { draft with awaiting := some option }
  | .help => .error .help
  | .version => .error .version
  | .endOfOptions => .ok { draft with onlyFiles := true }
  | .file path => draft.setInput path
  | .unknown => .error .refused

/-- Reads one argument. A value that looks like an option is none. -/
def take (draft : ScopeDraft) (text : String) : Except ScopeStop ScopeDraft :=
  if draft.onlyFiles then draft.setInput text
  else match draft.awaiting, ScopeWord.ofText text with
    | some option, .file value => draft.set option value
    | some _, _ => .error .refused
    | none, word => draft.takeWord word

def finish (draft : ScopeDraft) : Except ScopeStop ScopeArguments :=
  match draft.awaiting, draft.input with
  | none, some input => .ok { input, output := draft.output, scope := draft.scope }
  | _, _ => .error .refused

end ScopeDraft

def ScopeArguments.read : ScopeReader := fun arguments =>
  match arguments.foldlM ScopeDraft.take {} with
  | .ok draft => draft.finish
  | .error stop => .error stop

end VideoPage
