import VideoPage.Command.FileAccess
import VideoPage.Command.ScopeArguments
import VideoPage.Stylesheet.Scoping

/-! The command that puts a stylesheet file under a scope. Nothing is written unless the
whole stylesheet could be read and scoped. -/

namespace VideoPage.ScopeFile

variable {m : Type → Type} [Monad m]

/-- Reads, scopes and writes. -/
def scopeFile (files : FileAccess m) (arguments : ScopeArguments) : m CommandOutcome := do
  let input := arguments.input
  let output := arguments.output.getD input
  let scope := arguments.scope.getD Stylesheet.defaultScope
  match ← files.read input with
  | .error error => return .failed ("failed to read " ++ input) error.message ""
  | .ok css =>
    match Stylesheet.scope scope css with
    | .error error => return .failed ("failed to scope " ++ input) error.message ""
    | .ok result =>
      match ← files.write output result with
      | .error error => return .failed ("failed to write " ++ output) error.message ""
      | .ok () => return { errors := "scoped " ++ output ++ " under " ++ scope ++ "\n" }

/-- Runs the command, with a reader of its arguments. -/
def runWith (parse : ScopeReader) (files : FileAccess m) (arguments : List String) : m CommandOutcome :=
  match parse arguments with
  | .error .refused => return .refused
  | .error (.shown text) => return { output := text }
  | .ok arguments => scopeFile files arguments

/-- Runs the command. -/
def run (files : FileAccess m) (arguments : List String) : m CommandOutcome :=
  runWith ScopeArguments.read files arguments

end VideoPage.ScopeFile
