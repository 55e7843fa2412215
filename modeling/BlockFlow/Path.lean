/-
# Paths

Paths are texts with slashes.  `Path.join` puts one after another without tidying either, and
`Path.parent?` is the path without its last name, without the slashes and single dots before it.
-/

namespace BlockFlow.Path

/-- Whether a path starts at the root. -/
def isAbsolute (p : String) : Bool := p.toList.head? == some '/'

/-- The path `p` seen from the directory `dir`. -/
def join (dir p : String) : String :=
  if isAbsolute p || dir.isEmpty then p
  else if dir.toList.getLast? == some '/' then dir ++ p
  else dir ++ "/" ++ p

/-- The texts between slashes. -/
def segments (cs : List Char) : List (List Char) := cs.splitOn '/'

/-- Whether a segment names nothing. -/
def isIdle (s : List Char) : Bool := s == [] || s == ['.']

/-- The part of a path that is no name: the slash of the root, or a dot in front of a slash. -/
def splitLead : List Char → List Char × List Char
  | '/' :: cs => (['/'], cs)
  | ['.'] => (['.'], [])
  | '.' :: '/' :: cs => (['.'], '/' :: cs)
  | cs => ([], cs)

/-- Segments with slashes between them. -/
def unsegment (ss : List (List Char)) : List Char := ['/'].intercalate ss

/-- The directory of a path; the empty path and the root have none. -/
def parent? (p : String) : Option String :=
  let (lead, body) := splitLead p.toList
  match (segments body).reverse.dropWhile isIdle with
  | [] => if lead == ['.'] then some "" else none
  | _ :: rest => some (String.ofList (lead ++ unsegment (rest.dropWhile isIdle).reverse))

end BlockFlow.Path
