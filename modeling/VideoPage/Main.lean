import VideoPage.Command.ScopeFile
import VideoPage.Command.Replay

/-! The command line. The first argument names a command and the rest are its own. -/

namespace VideoPage

/-- What went wrong with a file, as far as commands tell it apart. -/
def FileError.ofDisk : IO.Error → FileError
  | .noFileOrDirectory .. => .notFound
  | .inappropriateType _ code _ => if code = 21 then .isDirectory else .notDirectory
  | error => .other (toString error)

/-- Access to the files on a disk. -/
def diskAccess : FileAccess IO where
  read := fun path => do
    try
      match String.fromUTF8? (← IO.FS.readBinFile path) with
      | some text => return .ok text
      | none => return .error .notText
    catch error => return .error (.ofDisk error)
  write := fun path text => do
    try
      IO.FS.writeFile path text
      return .ok ()
    catch error => return .error (.ofDisk error)

/-- Runs the command that arguments name. -/
def runCommand : List String → IO CommandOutcome
  | "scope-css" :: arguments => ScopeFile.run diskAccess arguments
  | "replay" :: arguments => Replay.run diskAccess arguments
  | _ => return { code := 2, errors := "commands: scope-css, replay\n" }

end VideoPage

def main (arguments : List String) : IO UInt32 := do
  let outcome ← VideoPage.runCommand arguments
  IO.print outcome.output
  IO.eprint outcome.errors
  return outcome.code.toUInt32
