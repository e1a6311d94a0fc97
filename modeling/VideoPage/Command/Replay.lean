import VideoPage.Command.FileAccess
import VideoPage.Session.Viewing

/-! The command that goes through the scripted viewing and keeps its record in a file. -/

namespace VideoPage.Replay

/-- Where the record goes when no file is named. -/
def defaultPath : String := "cuebar-trace.json"

/-- Goes through the script and exports the record to the first of the named files. -/
def run {m : Type → Type} [Monad m] (files : FileAccess m) (arguments : List String) :
    m CommandOutcome := do
  let path := arguments.head?.getD defaultPath
  let viewing := Viewing.scripted
  let events := viewing.session.recorded
  match ← files.write path (exportedEvents events) with
  | .error error => return .failed ("failed to create " ++ path) error.message viewing.printed
  | .ok () =>
    let closing := "Wrote " ++ path ++ " (" ++ toString events.length ++ " events)\n"
    return { output := viewing.printed ++ closing }

end VideoPage.Replay
