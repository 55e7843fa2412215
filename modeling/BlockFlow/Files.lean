/-
# Files

A snapshot of the files that a run may read, and the directory that relative paths start from.  A
path is followed segment by segment: every segment but the last must be a directory, a single dot
stays and two dots go up.

`Files.read` gives the text of a file or the reason why there is none; `Files.walk` lists the files
below a directory.
-/
import BlockFlow.Dict
import BlockFlow.Path

namespace BlockFlow

/-- What a snapshot holds at a path. -/
inductive Files.Entry
  | directory
  /-- A file; `none` if its bytes are no text. -/
  | file (text : Option String)
  deriving Repr, DecidableEq, Inhabited

/-- A snapshot of files. -/
structure Files where
  /-- Names of the working directory, from the root on. -/
  base : List String := []
  /-- Entries by their names from the root on. -/
  entries : List (List String × Files.Entry) := []
  deriving Inhabited

namespace Files

/-! ## 1. Building a snapshot -/

/-- The names in a path, without idle segments. -/
def namesOf (path : String) : List String :=
  ((Path.segments path.toList).filter fun s => !Path.isIdle s).map String.ofList

/-- The path of the working directory. -/
def workingDirectory (fs : Files) : String := "/" ++ "/".intercalate fs.base

/-- Names seen from a place, two dots going up. -/
def settle (place names : List String) : List String :=
  names.foldl (fun place name => if name == ".." then place.dropLast else place ++ [name]) place

/-- Adds an entry at a path. -/
def add (fs : Files) (path : String) (e : Entry) : Files :=
  let names := settle (if Path.isAbsolute path then [] else fs.base) (namesOf path)
  { fs with entries := fs.entries ++ [(names, e)] }

/-! ## 2. Following paths -/

/-- Why a file cannot be read. -/
inductive ReadError
  | notFound
  | notDirectory
  | isDirectory
  | notText
  deriving Repr, DecidableEq

/-- The words for a reason. -/
def ReadError.message : ReadError → String
  | .notFound => "No such file or directory (os error 2)"
  | .notDirectory => "Not a directory (os error 20)"
  | .isDirectory => "Is a directory (os error 21)"
  | .notText => "stream did not contain valid UTF-8"

/-- What is at a list of names.  Whatever lies above an entry or the working directory is a
directory. -/
def at? (fs : Files) (names : List String) : Option Entry :=
  match fs.entries.find? fun e => e.1 == names with
  | some e => some e.2
  | none =>
    if names.isPrefixOf fs.base || fs.entries.any (fun e => names.isPrefixOf e.1) then
      some .directory
    else none

/-- Follows segments from a place. -/
def follow (fs : Files) (here : List String) : List (List Char) → Except ReadError (List String)
  | [] => .ok here
  | s :: ss =>
    match fs.at? here with
    | none => .error .notFound
    | some (.file _) => .error .notDirectory
    | some .directory =>
      if Path.isIdle s then follow fs here ss
      else if s == ['.', '.'] then follow fs here.dropLast ss
      else follow fs (here ++ [String.ofList s]) ss

/-- The entry that a path leads to, and its names. -/
def find (fs : Files) (path : String) : Except ReadError (List String × Entry) := do
  if path.isEmpty then throw .notFound
  let start := if Path.isAbsolute path then [] else fs.base
  let names ← fs.follow start (Path.segments path.toList)
  match fs.at? names with
  | some e => return (names, e)
  | none => throw .notFound

/-! ## 3. Reading -/

/-- The text of the file at a path. -/
def read (fs : Files) (path : String) : Except ReadError String :=
  match fs.find path with
  | .error e => .error e
  | .ok (_, .directory) => .error .isDirectory
  | .ok (_, .file none) => .error .notText
  | .ok (_, .file (some text)) => .ok text

/-- Whether there is anything at a path. -/
def exists? (fs : Files) (path : String) : Bool :=
  match fs.find path with
  | .ok _ => true
  | .error _ => false

/-- Whether there is a directory at a path. -/
def isDirectory (fs : Files) (path : String) : Bool :=
  match fs.find path with
  | .ok (_, .directory) => true
  | _ => false

/-- The files below a path, by their paths relative to it in increasing order; a file itself is at
the empty path. -/
def walk (fs : Files) (path : String) : List (String × Option String) :=
  match fs.find path with
  | .error _ => []
  | .ok (_, .file text) => [("", text)]
  | .ok (names, .directory) =>
    let below := fs.entries.filterMap fun (place, e) =>
      match e with
      | .file text =>
        if names.isPrefixOf place then some ("/".intercalate (place.drop names.length), text) else none
      | .directory => none
    (Dict.ofList below : Dict String (Option String)).toList

end Files

end BlockFlow
