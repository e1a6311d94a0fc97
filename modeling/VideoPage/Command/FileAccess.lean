/-! What commands need of the world outside: text files, and a way to report. A command is
written for any monad with these operations, so the one that runs on a disk and the one
that is reasoned about are the same. -/

namespace VideoPage

inductive FileError where
  | notFound
  | isDirectory
  | notDirectory
  /-- The file's bytes are no text. -/
  | notText
  | other (message : String)
deriving DecidableEq

def FileError.message : FileError → String
  | notFound => "No such file or directory (os error 2)"
  | isDirectory => "Is a directory (os error 21)"
  | notDirectory => "Not a directory (os error 20)"
  | notText => "stream did not contain valid UTF-8"
  | other message => message

structure FileAccess (m : Type → Type) where
  read : String → m (Except FileError String)
  /-- Replaces a file or makes a new one. -/
  write : String → String → m (Except FileError Unit)

/-- How a command ends. -/
structure CommandOutcome where
  code : Nat := 0
  output : String := ""
  errors : String := ""
deriving DecidableEq

namespace CommandOutcome

/-- The outcome of a command whose arguments make no sense. -/
def refused : CommandOutcome := { code := 2, errors := "the arguments make no sense\n" }

/-- A failure, with what was being done and why it could not be. -/
def failed (doing cause : String) (output : String) : CommandOutcome where
  code := 1
  output := output
  errors := "Error: " ++ doing ++ "\n\nCaused by:\n    " ++ cause ++ "\n"

end CommandOutcome
end VideoPage
