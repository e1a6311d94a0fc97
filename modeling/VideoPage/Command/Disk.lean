import VideoPage.Command.FileAccess

/-! A disk as a value, with the working directory that paths start from. Directories are
only there to hold something: a place is a directory when a file lies below it, or when it
is the working directory or on the way there. The root is always on the way. -/

namespace VideoPage

inductive FileContents where
  | text (text : String)
  /-- Bytes that are no text. -/
  | bytes (bytes : List UInt8)
deriving DecidableEq

/-- The names on the way from the root to a file or a directory. -/
abbrev FilePlace := List String

abbrev Files := List (FilePlace × FileContents)

/-- Puts a file at a place, instead of the one that was there. -/
def Files.put (place : FilePlace) (contents : FileContents) : Files → Files
  | [] => [(place, contents)]
  | (other, old) :: rest =>
    if other = place then (place, contents) :: rest else (other, old) :: put place contents rest

structure Disk where
  /-- The working directory. -/
  here : FilePlace
  files : Files
deriving DecidableEq

namespace Disk

def isDirectory (disk : Disk) (place : FilePlace) : Bool :=
  place.isPrefixOf disk.here ||
    disk.files.any fun (other, _) => place.isPrefixOf other && place ≠ other

/-- Takes one name of a path. Only a directory can be left for another place, and above the
root there is the root. Whether something has the new name is not asked yet. -/
def enter (disk : Disk) (place : FilePlace) (name : String) : Except FileError FilePlace :=
  if !disk.isDirectory place then
    .error (if (disk.files.lookup place).isSome then .notDirectory else .notFound)
  else if name = "." then .ok place
  else if name = ".." then .ok place.dropLast
  else .ok (place ++ [name])

/-- What stands between the slashes of a path. -/
def pieces (path : String) : List String := (path.toList.splitOn '/').map String.ofList

/-- The names that a path consists of. Several slashes are as good as one. -/
def names (path : String) : List String := (pieces path).filter (· ≠ "")

/-- Whether a path ends with a slash. -/
def asksForDirectory (path : String) : Bool := (pieces path).getLast? == some ""

/-- Where a path starts: at the root when a slash stands in front. -/
def start (disk : Disk) (path : String) : FilePlace :=
  if (pieces path).head? = some "" then [] else disk.here

/-- Where a path leads. -/
def resolve (disk : Disk) (path : String) : Except FileError FilePlace :=
  if path = "" then .error .notFound else (names path).foldlM disk.enter (disk.start path)

def read (disk : Disk) (path : String) : Except FileError String :=
  match disk.resolve path with
  | .error error => .error error
  | .ok place =>
    if disk.isDirectory place then .error .isDirectory
    else match disk.files.lookup place with
      | none => .error .notFound
      | some contents =>
        if asksForDirectory path then .error .notDirectory
        else match contents with
          | .text text => .ok text
          | .bytes _ => .error .notText

/-- Replaces a file or makes a new one, in a directory that is already there. A path that
asks for a directory cannot be written to, whatever is there. -/
def write (disk : Disk) (path text : String) : Except FileError Disk :=
  match disk.resolve path with
  | .error error => .error error
  | .ok place =>
    if asksForDirectory path || disk.isDirectory place then .error .isDirectory
    else .ok { disk with files := disk.files.put place (.text text) }

/-- Access to the files of a disk that is a value. -/
def access : FileAccess (StateM Disk) where
  read := fun path disk => (disk.read path, disk)
  write := fun path text disk =>
    match disk.write path text with
    | .ok next => (.ok (), next)
    | .error error => (.error error, disk)

/-- A disk with nothing on it but a working directory and files below that. -/
def holding (files : Files) : Disk :=
  let here := ["tmp", "work"]
  ⟨here, files.map fun (place, contents) => (here ++ place, contents)⟩

/-- The files below the working directory, each with its place as seen from there. -/
def held (disk : Disk) : Files :=
  disk.files.filterMap fun (place, contents) =>
    (disk.here.isPrefixOf? place).map fun rest => (rest, contents)

end Disk
end VideoPage
