/-
# Unit files

The sources of a suite are the files below a directory whose names end as those of units do.  They
go by their paths from the directory on.
-/
import BlockFlow.Files

namespace BlockFlow

/-- Whether a path ends as those of unit files do. -/
def isUnitFile (path : String) : Bool :=
  [".unit.xml", ".html"].any fun e => e.toList.isSuffixOf path.toList

/-- A path with slashes in the place of backslashes. -/
def forwardSlashes (path : String) : String :=
  String.ofList (path.toList.map fun c => if c == '\\' then '/' else c)

/-- A file that cannot be read, by its path. -/
structure Unreadable where
  path : String
  why : Files.ReadError
  deriving Repr, DecidableEq

namespace Files

/-- The path of a file below a directory; the empty path is that of the directory itself. -/
def below (dir relative : String) : String := if relative.isEmpty then dir else Path.join dir relative

/-- The sources of the unit files below a directory, by their paths from the directory on. -/
def unitSources (fs : Files) (dir : String) : Except Unreadable (Dict String String) := do
  let found := (fs.walk dir).filter fun f => isUnitFile (below dir f.1)
  let sources ← found.mapM fun f =>
    match f.2 with
    | some text => Except.ok (forwardSlashes f.1, text)
    | none => .error (Unreadable.mk (below dir f.1) .notText)
  return Dict.ofList sources

end Files

end BlockFlow
