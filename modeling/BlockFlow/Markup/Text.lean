/-
# Character data

The characters that stand for others: references to characters by number or by one of five names,
line ends, and white space in attribute values.  Each function takes the characters as they are
written and gives those that are meant, or `none` if a reference is malformed or unknown.
-/
import BlockFlow.Json.Token
import BlockFlow.Markup.Name

namespace BlockFlow.Markup

/-! ## 1. References -/

/-- The largest number that a character reference may write. -/
def referenceLimit : Nat := Nat.pow 2 32 - 1

/-- The character of a number.  A number that no character has stands for U+FFFD. -/
def charOfNumber? (n : Nat) : Option Char :=
  if n > referenceLimit then none
  else
    let c := if n.isValidChar then Char.ofNat n else Char.ofNat 0xFFFD
    if isLegal c then some c else none

/-- The number that digits of a base write; `none` without digits. -/
def digitsNumber? (base : Nat) (ds : List Char) : Option Nat :=
  if ds.isEmpty then none
  else ds.foldl (fun n c => n.bind fun n => (Json.hexDigit? c).map (base * n + ·)) (some 0)

/-- The character of a named reference. -/
def charOfName? (name : String) : Option Char :=
  match name with
  | "quot" => some '"'
  | "amp" => some '&'
  | "apos" => some '\''
  | "lt" => some '<'
  | "gt" => some '>'
  | _ => none

/-- The character that the body of a reference, between `&` and `;`, stands for. -/
def reference? : List Char → Option Char
  | '#' :: 'x' :: ds => (digitsNumber? 16 ds).bind charOfNumber?
  | '#' :: ds =>
    if ds.all Char.isDigit then (digitsNumber? 10 ds).bind charOfNumber? else none
  | name => charOfName? (String.ofList name)

/-- The body of a reference and what follows its semicolon. -/
def takeReference? : List Char → Option (List Char × List Char)
  | [] => none
  | ';' :: cs => some ([], cs)
  | c :: cs => (takeReference? cs).map fun p => (c :: p.1, p.2)

/-- A character of character data: written as itself, or by a reference. -/
inductive Datum
  | plain (c : Char)
  | referenced (c : Char)
  deriving Repr, DecidableEq

/-- Resolves the references in character data.  The length of the data bounds their number. -/
def resolve : Nat → List Char → Option (List Datum)
  | _, [] => some []
  | 0, _ => none
  | fuel + 1, '&' :: cs => do
    let (body, rest) ← takeReference? cs
    return .referenced (← reference? body) :: (← resolve fuel rest)
  | fuel + 1, c :: cs => do return .plain c :: (← resolve fuel cs)

/-- The characters and references of character data. -/
def data? (cs : List Char) : Option (List Datum) := resolve cs.length cs

/-! ## 2. Line ends -/

/-- Ends every line with one line feed.  `held` is the last character written, if it was a carriage
return, and `asIs` says that the last datum was a reference: the character after a reference is
taken as it is, and so is a referenced carriage return. -/
def normalizeLines (held : Bool) (asIs : Bool) : List Datum → List Char
  | [] => if held then ['\r'] else []
  | .referenced c :: ds =>
    let before := if held then ['\r'] else []
    if c == '\r' then before ++ normalizeLines true true ds
    else before ++ c :: normalizeLines false true ds
  | .plain c :: ds =>
    if asIs then
      let before := if held then ['\r'] else []
      if c == '\r' then before ++ normalizeLines true false ds
      else before ++ c :: normalizeLines false false ds
    else
      let before := if held then ['\n'] else []
      if c == '\r' then
        if ds.isEmpty then before ++ ['\n'] else before ++ normalizeLines true false ds
      else if held && c == '\n' then '\n' :: normalizeLines false false ds
      else before ++ c :: normalizeLines false false ds

/-- The text of character data with references. -/
def textOf? (cs : List Char) : Option String :=
  (data? cs).map fun ds => String.ofList (normalizeLines false false ds)

/-- The text of a section in which `&` is a character like any other. -/
def rawTextOf (cs : List Char) : String :=
  String.ofList (normalizeLines false false (cs.map .plain))

/-! ## 3. Attribute values -/

/-- Turns written white space into blanks, a carriage return with its line feed into one. -/
def blankSpace : List Datum → List Char
  | [] => []
  | .referenced c :: ds => c :: blankSpace ds
  | .plain '\r' :: .plain '\n' :: ds => ' ' :: blankSpace ds
  | .plain c :: ds => (if isSpace c then ' ' else c) :: blankSpace ds

/-- The value of an attribute. -/
def attributeValue? (cs : List Char) : Option String :=
  (data? cs).map fun ds => String.ofList (blankSpace ds)

end BlockFlow.Markup
