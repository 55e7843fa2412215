/-
# JSON tokens

Splitting a text into tokens: brackets, separators, words, numbers and strings, with white space
between them.  Each scanner returns a rest that is shorter than its input, and `Token.all?` repeats
them until the text is used up.
-/
import BlockFlow.Json.Basic

namespace BlockFlow.Json

/-- A token of JSON. -/
inductive Token
  | openList | closeList | openObject | closeObject | comma | colon
  | nullWord | trueWord | falseWord
  | number (n : Number)
  | text (s : String)
  deriving Repr, DecidableEq

/-! ## 1. Strings -/

/-- The body of a string up to its closing quote, escapes left as they are, and what follows. -/
def stringBody : List Char → Option (List Char × List Char)
  | [] => none
  | '"' :: cs => some ([], cs)
  | '\\' :: c :: cs => (stringBody cs).map fun p => ('\\' :: c :: p.1, p.2)
  | c :: cs => (stringBody cs).map fun p => (c :: p.1, p.2)

/-- The value of a hexadecimal digit. -/
def hexDigit? (c : Char) : Option Nat :=
  if '0' ≤ c ∧ c ≤ '9' then some (c.toNat - 48)
  else if 'a' ≤ c ∧ c ≤ 'f' then some (c.toNat - 87)
  else if 'A' ≤ c ∧ c ≤ 'F' then some (c.toNat - 55)
  else none

/-- The number that four hexadecimal digits write. -/
def hexUnit? (a b c d : Char) : Option Nat := do
  return ((← hexDigit? a) * 4096 + (← hexDigit? b) * 256 + (← hexDigit? c) * 16 + (← hexDigit? d))

/-- The character of an escape of one letter. -/
def shortEscape? : Char → Option Char
  | '"' => some '"'
  | '\\' => some '\\'
  | '/' => some '/'
  | 'b' => some '\x08'
  | 'f' => some '\x0c'
  | 'n' => some '\n'
  | 'r' => some '\r'
  | 't' => some '\t'
  | _ => none

/-- A code unit of sixteen bits that is the first half of a pair. -/
def isHighHalf (n : Nat) : Bool := 0xD800 ≤ n && n < 0xDC00

/-- A code unit of sixteen bits that is the second half of a pair. -/
def isLowHalf (n : Nat) : Bool := 0xDC00 ≤ n && n < 0xE000

/-- The characters that a string body stands for.  Control characters must be escaped, and halves
of a pair must come together. -/
def unescape : List Char → Option (List Char)
  | [] => some []
  | '\\' :: 'u' :: a :: b :: c :: d :: '\\' :: 'u' :: e :: f :: g :: h :: cs => do
    let m ← hexUnit? a b c d
    if isHighHalf m then
      let n ← hexUnit? e f g h
      if isLowHalf n then
        return Char.ofNat (0x10000 + (m - 0xD800) * 0x400 + (n - 0xDC00)) :: (← unescape cs)
      else none
    else if isLowHalf m then none
    else return Char.ofNat m :: (← unescape ('\\' :: 'u' :: e :: f :: g :: h :: cs))
  | '\\' :: 'u' :: a :: b :: c :: d :: cs => do
    let m ← hexUnit? a b c d
    if isHighHalf m || isLowHalf m then none else return Char.ofNat m :: (← unescape cs)
  | '\\' :: c :: cs => do return (← shortEscape? c) :: (← unescape cs)
  | c :: cs => if c == '\\' || c.toNat < 0x20 then none else return c :: (← unescape cs)
termination_by cs => cs.length

/-! ## 2. Numbers -/

/-- Digits of an exponent after its letter. -/
def exponentPart (cs : List Char) : Option ((Bool × List Char) × List Char) :=
  let (minus, ds) := Decimal.splitSign cs
  let digits := ds.takeWhile Char.isDigit
  if digits.isEmpty then none else some ((minus, digits), ds.dropWhile Char.isDigit)

/-- A number without its sign, and what follows: no leading zero, and a digit at least on either
side of the point. -/
def numberPart (negative : Bool) (cs : List Char) : Option (Number × List Char) := do
  let whole := cs.takeWhile Char.isDigit
  let rest := cs.dropWhile Char.isDigit
  if whole.isEmpty || (whole.head? == some '0' && whole.length > 1) then none
  let (fraction, rest) ← match rest with
    | '.' :: r =>
      let ds := r.takeWhile Char.isDigit
      if ds.isEmpty then none else some (some ds, r.dropWhile Char.isDigit)
    | r => some (none, r)
  match rest with
  | c :: r =>
    if c == 'e' || c == 'E' then
      let (exponent, r) ← exponentPart r
      return (⟨negative, whole, fraction, some exponent⟩, r)
    else return (⟨negative, whole, fraction, none⟩, c :: r)
  | [] => return (⟨negative, whole, fraction, none⟩, [])

/-! ## 3. Tokens -/

/-- White space between tokens. -/
def isSpace (c : Char) : Bool := c == ' ' || c == '\n' || c == '\t' || c == '\r'

/-- The token that a text without leading white space starts with, and what follows. -/
def Token.next? : List Char → Option (Token × List Char)
  | [] => none
  | '[' :: cs => some (.openList, cs)
  | ']' :: cs => some (.closeList, cs)
  | '{' :: cs => some (.openObject, cs)
  | '}' :: cs => some (.closeObject, cs)
  | ',' :: cs => some (.comma, cs)
  | ':' :: cs => some (.colon, cs)
  | 'n' :: 'u' :: 'l' :: 'l' :: cs => some (.nullWord, cs)
  | 't' :: 'r' :: 'u' :: 'e' :: cs => some (.trueWord, cs)
  | 'f' :: 'a' :: 'l' :: 's' :: 'e' :: cs => some (.falseWord, cs)
  | '"' :: cs => do
    let (body, rest) ← stringBody cs
    return (.text (String.ofList (← unescape body)), rest)
  | '-' :: cs => (numberPart true cs).map fun p => (.number p.1, p.2)
  | cs => (numberPart false cs).map fun p => (.number p.1, p.2)

/-- The tokens of a text; `none` if it does not divide into tokens.  Every token takes a character
at least, so that the length of the text bounds their number. -/
def Token.scan : Nat → List Char → Option (List Token)
  | 0, cs => if (cs.dropWhile isSpace).isEmpty then some [] else none
  | fuel + 1, cs =>
    match cs.dropWhile isSpace with
    | [] => some []
    | cs => do
      let (t, rest) ← Token.next? cs
      return t :: (← Token.scan fuel rest)

/-- The tokens of a text. -/
def Token.all? (cs : List Char) : Option (List Token) := Token.scan cs.length cs

end BlockFlow.Json
