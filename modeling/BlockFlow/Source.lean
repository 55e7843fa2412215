/-
# Unit sources

A unit is written either as a `<unit>` of `<command>` elements or as the tables of an `<html>` page,
one command to a row of three cells.  `ScriptUnit.read` reads both; `ScriptUnit.readAll` reads the
sources of a suite in path order and refuses two units of one name.
-/
import BlockFlow.Markup.Document

namespace BlockFlow

/-! ## 1. Names from paths -/

/-- The characters after the last slash or backslash. -/
def lastSegment (path : String) : List Char :=
  (path.toList.reverse.takeWhile fun c => c != '/' && c != '\\').reverse

/-- The endings that a unit's name does without. -/
def unitEndings : List String := [".unit.xml", ".html", ".xml"]

/-- The characters before an ending, if the text has it. -/
def dropEnding? (ending : List Char) (cs : List Char) : Option (List Char) :=
  if ending.isSuffixOf cs then some (cs.take (cs.length - ending.length)) else none

/-- The name of a unit that does not give one: its file's, without the ending. -/
def unitNameOfPath (path : String) : String :=
  let file := lastSegment path
  String.ofList ((unitEndings.findSome? fun e => dropEnding? e.toList file).getD file)

/-! ## 2. What can be wrong with a source -/

/-- Why a document is no unit. -/
inductive SourceError
  | root (path : String) (found : String)
  | unsupported (path : String) (found : String) (line : Nat)
  | nameless (path : String) (line : Nat)
  | duplicate (name : String) (first second : String)
  deriving Repr, DecidableEq

/-- The report of a source error. -/
def SourceError.fault : SourceError → Fault
  | .root path found =>
    { kind := .grammar, code := "XML_ROOT_INVALID"
      message := "Expected <unit> or <html> root in file \"" ++ path ++ "\", got <" ++ found ++ ">." }
  | .unsupported path found line =>
    { kind := .grammar, code := "XML_ELEMENT_UNSUPPORTED"
      message := "Unsupported element <" ++ found ++ "> in unit \"" ++ path ++ "\" at line " ++
        toString line ++ "." }
  | .nameless path line =>
    { kind := .grammar, code := "XML_COMMAND_NAME_MISSING"
      message := "<command> without a name in unit \"" ++ path ++ "\" at line " ++
        toString line ++ "." }
  | .duplicate name first second =>
    { kind := .grammar, code := "UNIT_NAME_DUPLICATE"
      message := "Duplicate unit name \"" ++ name ++ "\" in \"" ++ first ++ "\" and \"" ++ second ++
        "\"." }

/-! ## 3. Commands of elements and rows -/

/-- The command that an element of a unit writes. -/
def Command.ofElement (path : String) (e : Markup.Element) : Except SourceError Command :=
  if e.name ≠ "command" then .error (.unsupported path e.name e.span.first.line)
  else
    match e.attribute? "name" with
    | some name =>
      if Text.allBlank name then .error (.nameless path e.span.first.line)
      else
        .ok { name := Text.trim name
              target := (e.attribute? "target").getD ""
              value := (e.attribute? "value").getD ""
              span := some e.span }
    | none => .error (.nameless path e.span.first.line)

/-- The command that a row of a table writes, if it writes one: three cells, the first not blank. -/
def Command.ofRow? (row : Markup.Element) : Option Command :=
  match row.childElements.filter fun c => Markup.Element.sameName c.name "td" with
  | [name, target, value] =>
    let name := Text.trim name.textContent
    if name.isEmpty then none
    else some { name, target := target.textContent, value := value.textContent, span := some row.span }
  | _ => none

/-- The title of a page, unless it is blank; of several titles only the first counts. -/
def titleOf? (page : Markup.Element) : Option String :=
  match page.descendantsNamed "title" with
  | [] => none
  | t :: _ =>
    let title := Text.trim t.textContent
    if title.isEmpty then none else some title

/-! ## 4. Units -/

/-- The unit of a document. -/
def ScriptUnit.ofElement (path : String) (root : Markup.Element) : Except SourceError ScriptUnit :=
  if root.name = "unit" then do
    let commands ← root.childElements.mapM (Command.ofElement path)
    return ⟨(root.attribute? "name").getD (unitNameOfPath path), path, commands⟩
  else if root.name = "html" then
    .ok ⟨(titleOf? root).getD (unitNameOfPath path), path,
      (root.descendantsNamed "tr").filterMap Command.ofRow?⟩
  else .error (.root path root.name)

/-- Reads the unit of a path from its source. -/
def ScriptUnit.read (path source : String) : Except Fault ScriptUnit := do
  let root ← Markup.Element.parse source
  (ScriptUnit.ofElement path root).mapError SourceError.fault

/-- Reads further units after those already read, which their names must differ from. -/
def ScriptUnit.readMore (done : List ScriptUnit) :
    List (String × String) → Except Fault (List ScriptUnit)
  | [] => .ok done
  | (path, source) :: rest => do
    let u ← ScriptUnit.read path source
    match done.find? fun d => d.name == u.name with
    | some d => throw (SourceError.duplicate u.name d.path path).fault
    | none => ScriptUnit.readMore (done ++ [u]) rest

/-- Reads the units of a suite in path order. -/
def ScriptUnit.readAll (sources : Dict String String) : Except Fault (List ScriptUnit) :=
  ScriptUnit.readMore [] sources.toList

end BlockFlow
