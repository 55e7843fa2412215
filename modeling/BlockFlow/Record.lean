/-
# Records of data files

A data file is a list of records, each a set of named values: the objects of a JSON list, or the
attributes of every `<vars>` element of a document.

A `DataCursor` is a cursor over the records of one file.  Loading a file and taking a record
either succeed or leave the cursor and the variables as they were.
-/
import BlockFlow.Files
import BlockFlow.Json.Values
import BlockFlow.Markup.Document

namespace BlockFlow

/-- One set of variables read from a data file. -/
abbrev Record := Dict String Value

/-- The two forms of data files. -/
inductive DataFormat
  | json
  | xml
  deriving Repr, DecidableEq, Inhabited

namespace DataFormat

/-- What a record of the format is called. -/
def recordName : DataFormat → String
  | .json => "JSON object"
  | .xml => "XML element"

end DataFormat

/-! ## 1. Parsing -/

/-- Why a text holds no records. -/
inductive RecordError
  | jsonMalformed
  | xmlMalformed
  | empty (format : DataFormat)
  deriving Repr, DecidableEq

/-- The report of a record error. -/
def RecordError.fault : RecordError → Fault
  | .jsonMalformed =>
    { kind := .script, code := "SCRIPT_DATA_PARSE"
      message := "JSON data must be an array of objects: " }
  | .xmlMalformed =>
    { kind := .script, code := "SCRIPT_DATA_PARSE", message := Markup.malformed.message }
  | .empty .json =>
    { kind := .script, code := "SCRIPT_DATA_EMPTY"
      message := "A JSON object could not be loaded, or the file was empty." }
  | .empty .xml =>
    { kind := .script, code := "SCRIPT_DATA_EMPTY"
      message := "A <vars> element could not be loaded, or <testdata> was empty." }

/-- The record of a JSON object. -/
def Record.ofJson? : Json → Option Record
  | .object fields => (Json.toFields? fields).map Dict.ofList
  | _ => none

/-- The record of an element's attributes. -/
def Record.ofElement (e : Markup.Element) : Record :=
  Dict.ofList (e.attributes.toList.map fun a => (a.1, .text a.2))

/-- The records of a JSON text. -/
def Record.ofJsonText (source : String) : Except RecordError (List Record) :=
  match Json.read? source with
  | some (.list items) =>
    match items.mapM Record.ofJson? with
    | some [] => .error (.empty .json)
    | some records => .ok records
    | none => .error .jsonMalformed
  | _ => .error .jsonMalformed

/-- The records of a document. -/
def Record.ofXmlText (source : String) : Except RecordError (List Record) :=
  match Markup.Element.read? source with
  | none => .error .xmlMalformed
  | some root =>
    let own := if Markup.Element.sameName root.name "vars" then [root] else []
    match own ++ root.descendantsNamed "vars" with
    | [] => .error (.empty .xml)
    | elements => .ok (elements.map Record.ofElement)

/-- The records of a text in a format. -/
def Record.ofText (format : DataFormat) (source : String) : Except RecordError (List Record) :=
  match format with
  | .json => Record.ofJsonText source
  | .xml => Record.ofXmlText source

/-! ## 2. Cursors -/

/-- A cursor over the records of a data file. -/
structure DataCursor where
  format : DataFormat
  records : List Record := []
  /-- Number of records already taken. -/
  position : Nat := 0
  deriving Inhabited

/-- Why a cursor cannot go on. -/
inductive DataError
  | unreadable (path : String) (why : Files.ReadError)
  | malformed (why : RecordError)
  | atEnd (format : DataFormat) (count : Nat)
  | inconsistent (format : DataFormat) (ordinal : Nat) (expected found : List String)
  deriving Repr, DecidableEq

/-- The report of a data error. -/
def DataError.fault : DataError → Fault
  | .unreadable path why =>
    { kind := .script, code := "SCRIPT_DATA_READ"
      message := "Failed to read data file \"" ++ path ++ "\": " ++ why.message }
  | .malformed why => why.fault
  | .atEnd format count =>
    { kind := .assertion, code := "ENGINE_RECORD_EOF"
      message := "No more " ++ format.recordName ++ "s to read after #" ++ toString count ++ "." }
  | .inconsistent format ordinal expected found =>
    { kind := .assertion, code := "ENGINE_RECORD_INCONSISTENT"
      message := "Inconsistent data at " ++ format.recordName ++ " #" ++ toString ordinal ++
        "; expected fields [" ++ ", ".intercalate expected ++ "], but found [" ++
        ", ".intercalate found ++ "]. Each " ++ format.recordName ++
        " must have the same set of fields." }

namespace DataCursor

/-- A cursor that has loaded nothing. -/
def new (format : DataFormat) : DataCursor := { format }

/-- Whether every record was taken. -/
def atEnd (r : DataCursor) : Bool := r.records.length ≤ r.position

/-- The field names of the first record. -/
def fields (r : DataCursor) : List String := r.records.head?.elim [] Dict.keys

/-- Reads a data file and moves before its first record. -/
def load (r : DataCursor) (files : Files) (path : String) : Except DataError DataCursor :=
  match files.read path with
  | .error why => .error (.unreadable path why)
  | .ok text =>
    match Record.ofText r.format text with
    | .error why => .error (.malformed why)
    | .ok records => .ok { r with records, position := 0 }

/-- Takes the next record into the variables.  Its fields must be those of the first record. -/
def next (r : DataCursor) (vars : Namespace) : Except DataError (DataCursor × Namespace) :=
  match r.records[r.position]? with
  | none => .error (.atEnd r.format r.position)
  | some record =>
    if record.keys = r.fields then
      .ok ({ r with position := r.position + 1 }, vars.insertAll record.toList)
    else .error (.inconsistent r.format (r.position + 1) r.fields record.keys)

end DataCursor

end BlockFlow
