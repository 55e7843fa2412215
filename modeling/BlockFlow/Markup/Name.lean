/-
# Characters and names of markup

Which characters may stand in a document, which of them are white space, and which make up names.
A qualified name is a local name, with a prefix and a colon before it or not.
-/

namespace BlockFlow.Markup

/-- White space of markup. -/
def isSpace (c : Char) : Bool := c == ' ' || c == '\t' || c == '\n' || c == '\r'

/-- Characters that a document may hold. -/
def isLegal (c : Char) : Bool :=
  if c.toNat < 0x20 then isSpace c else c.toNat != 0xFFFE && c.toNat != 0xFFFF

/-- Ranges beyond ASCII of the characters that a name may start with. -/
def nameStartRanges : List (Nat × Nat) :=
  [(0xC0, 0xD6), (0xD8, 0xF6), (0xF8, 0x2FF), (0x370, 0x37D), (0x37F, 0x1FFF), (0x200C, 0x200D),
    (0x2070, 0x218F), (0x2C00, 0x2FEF), (0x3001, 0xD7FF), (0xF900, 0xFDCF), (0xFDF0, 0xFFFD),
    (0x10000, 0xEFFFF)]

/-- Characters that a name may start with; the colon is one of them. -/
def isNameStart (c : Char) : Bool :=
  if c.toNat ≤ 0x80 then c.isAlpha || c == ':' || c == '_'
  else nameStartRanges.any fun r => r.1 ≤ c.toNat && c.toNat ≤ r.2

/-- Characters that a name may go on with. -/
def isNameChar (c : Char) : Bool :=
  isNameStart c || c.isDigit || c == '-' || c == '.' || c.toNat == 0xB7 ||
    (0x300 ≤ c.toNat && c.toNat ≤ 0x36F) || c.toNat == 0x203F || c.toNat == 0x2040

/-- A name with a prefix, which is empty if there is none. -/
structure QName where
  space : String
  name : String
  deriving Repr, DecidableEq

/-- The name that a text starts with, and what follows. -/
def takeName? : List Char → Option (List Char × List Char)
  | [] => none
  | c :: cs =>
    if isNameStart c then some (c :: cs.takeWhile isNameChar, cs.dropWhile isNameChar) else none

/-- The qualified name that characters make up: at most one colon, and both parts start as names
do. -/
def QName.ofChars? (cs : List Char) : Option QName :=
  let before := cs.takeWhile (· != ':')
  let after := cs.dropWhile (· != ':')
  let starts (cs : List Char) : Bool := cs.head?.any isNameStart
  match after with
  | [] => if starts before then some ⟨"", String.ofList before⟩ else none
  | _ :: cs =>
    if cs.contains ':' then none
    else if !before.isEmpty && !starts before then none
    else if starts cs then some ⟨String.ofList before, String.ofList cs⟩ else none

/-- The qualified name that a text starts with, and what follows. -/
def takeQName? (cs : List Char) : Option (QName × List Char) := do
  return (← QName.ofChars? (cs.takeWhile isNameChar), cs.dropWhile isNameChar)

end BlockFlow.Markup
