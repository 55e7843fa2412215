/-
# Markup tokens

Splitting a document into tags, character data, sections and what carries no data: comments and
instructions.  A token remembers where it begins and ends as the number of characters left there.

Every token takes one character at least, so that `Token.scan` ends.
-/
import BlockFlow.Markup.Text

namespace BlockFlow.Markup

/-- An attribute as it is written, its value resolved. -/
structure Attribute where
  name : QName
  value : String
  deriving Repr, DecidableEq

/-- A token of markup. -/
inductive Token
  | opening (name : QName) (attributes : List Attribute) (selfClosing : Bool)
  | closing (name : QName)
  /-- Character data as it is written. -/
  | text (cs : List Char)
  /-- A section without references. -/
  | verbatim (cs : List Char)
  /-- A comment or an instruction. -/
  | silent
  deriving Repr, DecidableEq

/-! ## 1. Pieces -/

/-- What comes before the first occurrence of a word, and what follows the word. -/
def splitAtWord (word : List Char) : List Char → Option (List Char × List Char)
  | [] => if word.isEmpty then some ([], []) else none
  | c :: cs =>
    if word.isPrefixOf (c :: cs) then some ([], (c :: cs).drop word.length)
    else (splitAtWord word cs).map fun p => (c :: p.1, p.2)

/-- Whether a word occurs. -/
def hasWord (word cs : List Char) : Bool := (splitAtWord word cs).isSome

/-- The rest without white space in front. -/
def skipSpace (cs : List Char) : List Char := cs.dropWhile isSpace

/-- A value between quotes of either kind, and what follows. -/
def takeQuoted? : List Char → Option (List Char × List Char)
  | [] => none
  | q :: cs =>
    if q == '"' || q == '\'' then
      match cs.dropWhile fun c => c != q && c != '<' with
      | c :: rest =>
        let body := cs.takeWhile fun c => c != q && c != '<'
        if c == q && body.all isLegal then some (body, rest) else none
      | [] => none
    else none

/-- A name, an equals sign and a quoted value, and what follows. -/
def takeAttribute? (cs : List Char) : Option (Attribute × List Char) := do
  let (name, rest) ← takeQName? cs
  match skipSpace rest with
  | '=' :: rest =>
    let (body, rest) ← takeQuoted? (skipSpace rest)
    return (⟨name, ← attributeValue? body⟩, rest)
  | _ => none

/-- The attributes of a tag and whether it closes itself.  White space goes before each attribute;
the length of the text bounds their number. -/
def takeAttributes? : Nat → List Char → Option (List Attribute × Bool × List Char)
  | 0, _ => none
  | fuel + 1, cs =>
    match skipSpace cs with
    | '/' :: '>' :: rest => some ([], true, rest)
    | '>' :: rest => some ([], false, rest)
    | rest =>
      if cs.head?.any isSpace then do
        let (a, rest) ← takeAttribute? rest
        let (as, selfClosing, rest) ← takeAttributes? fuel rest
        return (a :: as, selfClosing, rest)
      else none

/-! ## 2. Tokens -/

/-- The rest after the opening of a comment. -/
def takeComment? (cs : List Char) : Option (Token × List Char) := do
  let (body, rest) ← splitAtWord "-->".toList cs
  if !body.all isLegal || hasWord "--".toList body || body.getLast? == some '-' then none
  return (.silent, rest)

/-- The rest after the opening of a section without references. -/
def takeVerbatim? (cs : List Char) : Option (Token × List Char) := do
  let (body, rest) ← splitAtWord "]]>".toList cs
  if !body.all isLegal then none
  return (.verbatim body, rest)

/-- The rest after the opening of an instruction.  A declaration is none. -/
def takeInstruction? (cs : List Char) : Option (Token × List Char) := do
  if "xml ".toList.isPrefixOf cs then none
  let (_, rest) ← takeName? cs
  let (body, rest) ← splitAtWord "?>".toList (skipSpace rest)
  if !body.all isLegal then none
  return (.silent, rest)

/-- The token that a text starts with, and what follows. -/
def Token.next? : List Char → Option (Token × List Char)
  | [] => none
  | '<' :: '!' :: '-' :: '-' :: cs => takeComment? cs
  | '<' :: '!' :: '[' :: 'C' :: 'D' :: 'A' :: 'T' :: 'A' :: '[' :: cs => takeVerbatim? cs
  | '<' :: '?' :: cs => takeInstruction? cs
  | '<' :: '/' :: cs => do
    let (name, rest) ← takeQName? cs
    match skipSpace rest with
    | '>' :: rest => return (.closing name, rest)
    | _ => none
  | '<' :: cs => do
    let (name, rest) ← takeQName? cs
    let (attributes, selfClosing, rest) ← takeAttributes? (rest.length + 1) rest
    return (.opening name attributes selfClosing, rest)
  | cs => do
    let body := cs.takeWhile (· != '<')
    if !body.all isLegal || hasWord "]]>".toList body then none
    return (.text body, cs.dropWhile (· != '<'))

/-- A token with the number of characters left before and after it. -/
structure Placed where
  token : Token
  before : Nat
  after : Nat

/-- The tokens of a text. -/
def Token.scan : Nat → List Char → Option (List Placed)
  | _, [] => some []
  | 0, _ => none
  | fuel + 1, cs => do
    let (t, rest) ← Token.next? cs
    return ⟨t, cs.length, rest.length⟩ :: (← Token.scan fuel rest)

/-! ## 3. The declaration -/

/-- An optional attribute of the declaration, with a following white space that only the end of the
declaration makes needless. -/
def skipDeclared? (word : String) (cs : List Char) : Option (List Char) :=
  if word.toList.isPrefixOf cs then do
    let (_, rest) ← takeAttribute? cs
    if rest.head?.any isSpace || "?>".toList.isPrefixOf rest || rest.isEmpty then
      return skipSpace rest
    else none
  else some cs

/-- The rest after the declaration, if the text starts with one. -/
def skipDeclaration? (cs : List Char) : Option (List Char) :=
  if "<?xml ".toList.isPrefixOf cs then do
    let rest ← skipDeclared? "version" (skipSpace (cs.drop 5))
    let rest ← skipDeclared? "encoding" rest
    let rest ← if "standalone".toList.isPrefixOf rest then (takeAttribute? rest).map Prod.snd
      else some rest
    match skipSpace rest with
    | '?' :: '>' :: rest => return rest
    | _ => none
  else some cs

/-- The tokens of a document, without a byte order mark and a declaration in front. -/
def Token.all? (cs : List Char) : Option (List Placed) := do
  let cs := match cs with
    | '\uFEFF' :: cs => cs
    | cs => cs
  let cs ← skipDeclaration? cs
  Token.scan cs.length cs

end BlockFlow.Markup
