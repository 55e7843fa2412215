/-
# Reading documents

A stack machine over tokens builds the tree of a document: the elements not yet closed, innermost
first, each with the children read so far and the name spaces in scope.  A prefix must be declared,
two attributes of an element differ in name space or local name, and a closing tag repeats the name
of its opening tag.

`Element.read?` gives the root of a document with exactly one.
-/
import BlockFlow.Markup.Token
import BlockFlow.Markup.Tree

namespace BlockFlow.Markup

/-! ## 1. Name spaces -/

/-- Name spaces in scope: a prefix, empty for the default, and its name; the innermost first. -/
abbrev Spaces := List (String × String)

/-- The name that the prefix `xml` always has. -/
def reservedSpace : String := "http://www.w3.org/XML/1998/namespace"

/-- The name of the prefix of declarations, which nothing may be bound to. -/
def declarationSpace : String := "http://www.w3.org/2000/xmlns/"

/-- The declarations among attributes, or `none` if one is not allowed. -/
def declared? (attributes : List Attribute) : Option Spaces :=
  attributes.foldlM (fun own a =>
    let isReserved := a.value == reservedSpace
    if a.name.space == "xmlns" then
      if a.value == declarationSpace then none
      else if (a.name.name == "xml") != isReserved then none
      else if own.any fun s => s.1 == a.name.name then none
      else if isReserved then some own
      else some (own ++ [(a.name.name, a.value)])
    else if a.name.name == "xmlns" then
      if isReserved || a.value == declarationSpace then none else some (own ++ [("", a.value)])
    else some own) []

/-- Whether an attribute declares a name space. -/
def Attribute.isDeclaration (a : Attribute) : Bool :=
  a.name.space == "xmlns" || a.name.name == "xmlns"

/-- The name space of a prefix; without a prefix there need not be one. -/
def Spaces.resolve? (s : Spaces) (space : String) : Option (Option String) :=
  match s.find? fun b => b.1 == space with
  | some b => some (some b.2)
  | none => if space.isEmpty then some none else none

/-- The name space of an attribute's prefix; an attribute without a prefix has none. -/
def Spaces.ofAttribute? (s : Spaces) (space : String) : Option (Option String) :=
  if space == "xml" then some (some reservedSpace)
  else if space.isEmpty then some none
  else s.resolve? space

/-- The attributes of an element by local name, or `none` if a prefix is unknown or two of them have
one name. -/
def attributes? (s : Spaces) (attributes : List Attribute) : Option (Dict String String) := do
  let named ← (attributes.filter fun a => !a.isDeclaration).mapM fun a => do
    return ((← s.ofAttribute? a.name.space, a.name.name), a.value)
  if (named.map Prod.fst).eraseDups.length < named.length then none
  return Dict.ofList (named.map fun a => (a.1.2, a.2))

/-! ## 2. The machine -/

/-- An element that is not yet closed. -/
structure Pending where
  tag : QName
  attributes : Dict String String
  spaces : Spaces
  /-- Characters left where it begins. -/
  before : Nat
  /-- Children so far, last first. -/
  children : List Node

/-- A reader between two tokens. -/
structure Builder where
  pending : List Pending := []
  root : Option Element := none
  /-- Whether the last token was character data, which the next one continues. -/
  afterText : Bool := false

/-- The span of a part of a text, given by the characters left before and after it. -/
def spanOf (cs : List Char) (before after : Nat) : Span :=
  ⟨.ofOffset (cs.length - before) cs, .ofOffset (cs.length - after) cs⟩

namespace Builder

/-- Hands a complete element to the one around it. -/
def deliver (e : Element) (b : Builder) : Option Builder :=
  match b.pending with
  | [] =>
    match b.root with
    | some _ => none
    | none => some { root := some e }
  | p :: ps =>
    some { b with pending := { p with children := .element e :: p.children } :: ps,
                  afterText := false }

/-- Hands character data to the element around it. -/
def addText (s : String) (b : Builder) : Option Builder :=
  match b.pending with
  | [] => none
  | p :: ps =>
    let children := match b.afterText, p.children with
      | true, .text t :: ns => .text (t ++ s) :: ns
      | _, ns => .text s :: ns
    some { b with pending := { p with children } :: ps, afterText := true }

/-- The children in order, without empty texts. -/
def finished (p : Pending) : List Node :=
  p.children.reverse.filter fun
    | .text s => !s.isEmpty
    | .element _ => true

/-- Takes one token of a text. -/
def step (source : List Char) (b : Builder) (t : Placed) : Option Builder :=
  match t.token with
  | .silent => some { b with afterText := false }
  | .text cs =>
    if b.pending.isEmpty then
      if cs.all isSpace then some b else none
    else (textOf? cs).bind b.addText
  | .verbatim cs => b.addText (rawTextOf cs)
  | .opening tag attributes selfClosing => do
    if tag.space == "xmlns" then none
    if b.pending.isEmpty && b.root.isSome then none
    let own ← declared? attributes
    let spaces := own ++ (b.pending.head?.elim [] Pending.spaces)
    let _ ← spaces.resolve? tag.space
    let attributes ← attributes? spaces attributes
    if selfClosing then
      b.deliver (.mk tag.name attributes [] (spanOf source t.before t.after))
    else
      return { b with pending := ⟨tag, attributes, spaces, t.before, []⟩ :: b.pending,
                      afterText := false }
  | .closing tag =>
    match b.pending with
    | [] => none
    | p :: ps =>
      if p.tag = tag then
        deliver (.mk tag.name p.attributes (finished p) (spanOf source p.before t.after))
          { b with pending := ps }
      else none

end Builder

/-! ## 3. Documents -/

/-- The root element of a document. -/
def Element.read? (s : String) : Option Element := do
  let cs := s.toList
  let b ← (← Token.all? cs).foldlM (Builder.step cs) {}
  if b.pending.isEmpty then b.root else none

/-- The report of a text that is no document. -/
def malformed : Fault where
  kind := .grammar
  code := "XML_PARSE_ERROR"
  message := "Malformed XML: "

/-- The root element of a document, or the report that there is none. -/
def Element.parse (s : String) : Except Fault Element :=
  match Element.read? s with
  | some e => .ok e
  | none => .error malformed

end BlockFlow.Markup
