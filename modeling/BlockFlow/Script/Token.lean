/-
# Tokens of the expression language

Splitting a source into literals, names and symbols.  Comments and white space come between tokens;
block comments nest.  A symbol is the longest that fits; some symbols are known only to be refused.

Every scanner gives the rest after what it takes, and `Token.all?` repeats them until the source is
used up.
-/
import BlockFlow.Json.Token
import BlockFlow.Text.Blank

namespace BlockFlow.Script

/-- A token. -/
inductive Token
  | int (n : Int64)
  | float (x : Float)
  | text (s : String)
  | char (c : Char)
  | name (s : String)
  | symbol (s : String)

/-- Whether a token is a symbol or word. -/
def Token.is (t : Token) (s : String) : Bool :=
  match t with
  | .symbol r => r == s
  | .name r => r == s
  | _ => false

/-! ## 1. Space between tokens -/

/-- The rest after a block comment, given how many are open. -/
def skipBlock (depth : Nat) : List Char → List Char
  | [] => []
  | '*' :: '/' :: cs => if depth ≤ 1 then cs else skipBlock (depth - 1) cs
  | '/' :: '*' :: cs => skipBlock (depth + 1) cs
  | _ :: cs => skipBlock depth cs

/-- The rest after white space and comments.  The length of the source bounds their number. -/
def skipSpace : Nat → List Char → List Char
  | 0, cs => cs
  | fuel + 1, cs =>
    match cs with
    | '/' :: '/' :: rest => skipSpace fuel (rest.dropWhile (· != '\n'))
    | '/' :: '*' :: rest => skipSpace fuel (skipBlock 1 rest)
    | c :: rest => if Text.isBlank c then skipSpace fuel rest else cs
    | [] => []

/-! ## 2. Numbers -/

/-- A digit or the underscore that may separate digits. -/
def isDigitOrGap (c : Char) : Bool := c.isDigit || c == '_'

/-- Digits without the underscores between them. -/
def dropGaps (cs : List Char) : List Char := cs.filter (· != '_')

/-- The number of a base, if every digit belongs to it. -/
def digitsOf? (base : Nat) (cs : List Char) : Option Nat :=
  if cs.isEmpty then none
  else cs.foldl (fun n c => do
    let n ← n
    let d ← Json.hexDigit? c
    if d < base then some (base * n + d) else none) (some 0)

/-- An integer written in a base of two, eight or sixteen: the bits of a word. -/
def basedInt? (base : Nat) (valid : Char → Bool) (cs : List Char) : Option (Token × List Char) := do
  let digit (c : Char) : Bool := valid c || c == '_'
  let n ← digitsOf? base (dropGaps (cs.takeWhile digit))
  if n < Nat.pow 2 64 then return (.int (Int64.ofInt n), cs.dropWhile digit) else none

/-- A hexadecimal digit. -/
def isHexDigit (c : Char) : Bool := (Json.hexDigit? c).isSome

/-- A letter that a name may start with. -/
def isLetter (c : Char) : Bool := c.isAlpha || c == '_'

/-- The digits after a point, and the rest.  A point before a name or a second point ends the number
instead; a point before a symbol, or last, makes it floating. -/
def fractionPart : List Char → Option (List Char × List Char)
  | ['.'] => some (['0'], [])
  | '.' :: c :: cs =>
    if c.isDigit then some ((c :: cs).takeWhile isDigitOrGap, (c :: cs).dropWhile isDigitOrGap)
    else if c == '_' || c == '.' || isLetter c then none
    else some (['0'], c :: cs)
  | _ => none

/-- The sign and digits of an exponent, and the rest. -/
def exponentPart : List Char → Option ((Bool × List Char) × List Char)
  | 'e' :: c :: cs =>
    if c.isDigit then
      some ((false, (c :: cs).takeWhile isDigitOrGap), (c :: cs).dropWhile isDigitOrGap)
    else if c == '+' || c == '-' then
      some ((c == '-', cs.takeWhile isDigitOrGap), cs.dropWhile isDigitOrGap)
    else none
  | _ => none

/-- A decimal number.  It is floating if it has a point or an exponent, or is too large. -/
def decimal? (cs : List Char) : Option (Token × List Char) :=
  let whole := dropGaps (cs.takeWhile isDigitOrGap)
  let rest := cs.dropWhile isDigitOrGap
  let (fraction, rest) := match fractionPart rest with
    | some (ds, r) => (some (dropGaps ds), r)
    | none => (none, rest)
  let (exponent, rest) := match exponentPart rest with
    | some ((minus, ds), r) => (some (minus, dropGaps ds), r)
    | none => (none, rest)
  match fraction, exponent with
  | none, none =>
    let n := Decimal.natOfDigits whole
    if n < Nat.pow 2 63 then some (.int (Int64.ofInt n), rest) else some (.float (Decimal.ofParts n 0), rest)
  | f, e =>
    let ds := f.getD []
    let k : Option Int := match e with
      | none => some 0
      | some (minus, es) =>
        if es.isEmpty then none
        else some (if minus then -(Decimal.natOfDigits es : Int) else Decimal.natOfDigits es)
    k.map fun k => (.float (Decimal.ofParts (Decimal.natOfDigits (whole ++ ds)) (k - ds.length)), rest)

/-- The number that a source starts with. -/
def number? : List Char → Option (Token × List Char)
  | '0' :: 'x' :: cs | '0' :: 'X' :: cs => basedInt? 16 isHexDigit cs
  | '0' :: 'o' :: cs | '0' :: 'O' :: cs => basedInt? 8 Char.isDigit cs
  | '0' :: 'b' :: cs | '0' :: 'B' :: cs => basedInt? 2 Char.isDigit cs
  | cs => decimal? cs

/-! ## 3. Texts -/

/-- The character that hexadecimal digits write. -/
def hexChar? (ds : List Char) : Option Char := do
  let n ← digitsOf? 16 ds
  if n.isValidChar then some (Char.ofNat n) else none

/-- The characters of a text up to its closing quote, which doubled stands for itself, and the
rest. -/
def quoted? (quote : Char) : List Char → Option (List Char × List Char)
  | [] => none
  | '\\' :: 'x' :: a :: b :: cs => do
    let c ← hexChar? [a, b]
    let (body, rest) ← quoted? quote cs
    return (c :: body, rest)
  | '\\' :: 'u' :: a :: b :: c :: d :: cs => do
    let c ← hexChar? [a, b, c, d]
    let (body, rest) ← quoted? quote cs
    return (c :: body, rest)
  | '\\' :: 'U' :: a :: b :: c :: d :: e :: f :: g :: h :: cs => do
    let c ← hexChar? [a, b, c, d, e, f, g, h]
    let (body, rest) ← quoted? quote cs
    return (c :: body, rest)
  | '\\' :: c :: cs => do
    let c ← match c with
      | '\\' => some '\\'
      | 't' => some '\t'
      | 'n' => some '\n'
      | 'r' => some '\r'
      | c => if c == quote then some c else none
    let (body, rest) ← quoted? quote cs
    return (c :: body, rest)
  | c :: cs =>
    if c == quote then
      match cs with
      | d :: ds =>
        if d == quote then do
          let (body, rest) ← quoted? quote ds
          return (quote :: body, rest)
        else some ([], cs)
      | [] => some ([], [])
    else if c == '\n' || c == '\\' then none
    else do
      let (body, rest) ← quoted? quote cs
      return (c :: body, rest)

/-- The characters of a text between backquotes, where nothing is escaped but a doubled quote, and
the rest.  Nothing may be inserted into it. -/
def verbatim? : List Char → Option (List Char × List Char)
  | [] => none
  | '`' :: '`' :: cs => (verbatim? cs).map fun p => ('`' :: p.1, p.2)
  | '`' :: cs => some ([], cs)
  | '$' :: '{' :: _ => none
  | c :: cs => (verbatim? cs).map fun p => (c :: p.1, p.2)

/-! ## 4. Names and symbols -/

/-- A character that a name may go on with. -/
def isNameChar (c : Char) : Bool := c.isAlphanum || c == '_'

/-- Whether a name has a letter and no digit before the first. -/
def isProperName (cs : List Char) : Bool := (cs.dropWhile (· == '_')).head?.any Char.isAlpha

/-- Symbols of several characters, each before those that it extends; the last ones are refused
wherever they come. -/
def longSymbols : List (List Char) :=
  ["**=", "<<=", ">>=", "..=", "...", "===", "!==", "::<",
    "**", "<<", ">>", "..", "==", "!=", "<=", ">=", "&&", "||", "+=", "-=", "*=", "/=", "%=", "&=",
    "|=", "^=", "??", "?.", "?[", "=>", "::", "#\x7b",
    "++", "--", "->", "<-", ":=", ":;", "(*", "*)"].map String.toList

/-- Symbols of one character. -/
def shortSymbols : List Char := "+-*/%()[]\x7b\x7d,;:.=<>!&|^".toList

/-- The symbol that a source starts with. -/
def symbol? (cs : List Char) : Option (Token × List Char) :=
  match longSymbols.find? fun s => s.isPrefixOf cs with
  | some s => some (.symbol (String.ofList s), cs.drop s.length)
  | none =>
    match cs with
    | c :: rest => if shortSymbols.contains c then some (.symbol (String.singleton c), rest) else none
    | [] => none

/-- The token that a source without leading space starts with. -/
def Token.next? : List Char → Option (Token × List Char)
  | [] => none
  | '"' :: cs => (quoted? '"' cs).map fun p => (.text (String.ofList p.1), p.2)
  | '`' :: '\n' :: cs | '`' :: cs => (verbatim? cs).map fun p => (.text (String.ofList p.1), p.2)
  | '\'' :: cs => do
    let (body, rest) ← quoted? '\'' cs
    match body with
    | [c] => return (.char c, rest)
    | _ => none
  | c :: cs =>
    if c.isDigit then number? (c :: cs)
    else if isLetter c then
      let name := c :: cs.takeWhile isNameChar
      if isProperName name then some (.name (String.ofList name), cs.dropWhile isNameChar) else none
    else symbol? (c :: cs)

/-- The tokens of a source. -/
def Token.scan : Nat → List Char → Option (List Token)
  | 0, cs => if cs.isEmpty then some [] else none
  | fuel + 1, cs =>
    match skipSpace cs.length cs with
    | [] => some []
    | cs => do
      let (t, rest) ← Token.next? cs
      return t :: (← Token.scan fuel rest)

/-- The tokens of a source, or `none` if it does not divide into tokens. -/
def Token.all? (cs : List Char) : Option (List Token) := Token.scan (cs.length + 1) cs

end BlockFlow.Script
