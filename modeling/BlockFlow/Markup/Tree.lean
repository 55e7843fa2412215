/-
# Documents as trees

An element has a name, attributes, children and the span of its text; a child is an element or a
text that is not empty.  The operations read a tree: its text (`Element.textContent`), its elements
of a name (`Element.descendantsNamed`), its attributes.
-/
import BlockFlow.Command
import BlockFlow.Dict

namespace BlockFlow.Markup

mutual

/-- An element of a document. -/
inductive Element
  | mk (name : String) (attributes : Dict String String) (children : List Node) (span : Span)

/-- What an element may contain. -/
inductive Node
  | text (s : String)
  | element (e : Element)

end

namespace Element

/-! ## 1. Parts -/

def name : Element → String
  | .mk name _ _ _ => name

def attributes : Element → Dict String String
  | .mk _ attributes _ _ => attributes

def children : Element → List Node
  | .mk _ _ children _ => children

def span : Element → Span
  | .mk _ _ _ span => span

/-- The value of an attribute. -/
def attribute? (e : Element) (name : String) : Option String := e.attributes.get? name

/-- The children that are elements. -/
def childElements (e : Element) : List Element :=
  e.children.filterMap fun
    | .element c => some c
    | .text _ => none

/-! ## 2. Text and descendants -/

mutual

/-- The text of an element over all nesting. -/
def textContent : Element → String
  | .mk _ _ children _ => textOfNodes children

def textOfNode : Node → String
  | .text s => s
  | .element e => textContent e

def textOfNodes : List Node → String
  | [] => ""
  | n :: ns => textOfNode n ++ textOfNodes ns

end

/-- Whether two names differ in the case of ASCII letters at most. -/
def sameName (a b : String) : Bool := a.toList.map Char.toLower == b.toList.map Char.toLower

mutual

/-- The elements of a name below an element, in document order. -/
def descendantsNamed (name : String) : Element → List Element
  | .mk _ _ children _ => namedInNodes name children

def namedInNode (name : String) : Node → List Element
  | .text _ => []
  | .element e =>
    let below := descendantsNamed name e
    if sameName e.name name then e :: below else below

def namedInNodes (name : String) : List Node → List Element
  | [] => []
  | n :: ns => namedInNode name n ++ namedInNodes name ns

end

end Element

end BlockFlow.Markup
