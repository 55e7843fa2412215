/-
# The program

Takes a snapshot of the files that a request may read, and prints the answer to it.
-/
import BlockFlow.CommandLine

namespace BlockFlow.CommandLine

/-- The entry of a file on disk. -/
def fileEntry (path : String) : IO Files.Entry := do
  return .file (String.fromUTF8? (← IO.FS.readBinFile path))

/-- Adds the unit files below a path on disk to a snapshot; links are not followed. -/
partial def addTree (fs : Files) (path : String) : IO Files := do
  let here := (← IO.currentDir) / path
  let mut fs := fs.add path .directory
  for e in ← here.readDir do
    let below := Path.join path e.fileName
    match (← e.path.symlinkMetadata).type with
    | .dir => fs ← addTree fs below
    | .file => if isUnitFile below then fs := fs.add below (← fileEntry below)
    | _ => pure ()
  return fs

/-- Adds what is at a path on disk to a snapshot, if there is anything. -/
def addPath (fs : Files) (path : String) : IO Files := do
  let here := (← IO.currentDir) / path
  if ← here.isDir then return fs.add path .directory
  if ← here.pathExists then return fs.add path (← fileEntry path)
  return fs

/-- The snapshot that a request needs. -/
def snapshot (r : Request) : IO Files := do
  let working ← IO.currentDir
  let mut fs : Files := { base := Files.namesOf working.toString }
  for dir in r.directories do
    let path := Path.join fs.workingDirectory dir
    if ← (working / dir).isDir then fs ← addTree fs path else fs ← addPath fs path
  for path in r.dataFiles fs do
    fs ← addPath fs path
  return fs

end BlockFlow.CommandLine

/-- Runs the program: the exit code says whether all went well. -/
def main (args : List String) : IO UInt32 := do
  let answer ← match BlockFlow.CommandLine.Request.parse args with
    | .ok r => pure (r.answer (← BlockFlow.CommandLine.snapshot r))
    | .error u => pure { code := u.code }
  for line in answer.lines do
    IO.println line
  return answer.code.toUInt32
