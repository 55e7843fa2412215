/-
# Reading patterns

A pattern is written with the usual marks: a point for any character but a line feed, brackets for
sets, marks for repetition, bars and groups, classes after a backslash, and flags in a group that
starts with a question mark.

`Pattern.Token` is what the marks mean one by one; `Pattern.build` puts tokens together with a stack
of open groups, and `Pattern.read?` does both.

The reader has its limits.  Classes by a Unicode property (`\p`), sets inside sets and operators between
them, characters by their number (`\x`, `\u`), one-sided word borders and the flags `x` and `R` are not
read: `Pattern.read?` gives no pattern for a text with one of them, as for a text that is malformed, and
such a text is then looked for as it stands.
-/
import BlockFlow.Decimal.Read
import BlockFlow.Pattern.Basic

namespace BlockFlow.Pattern

/-! ## 1. Tokens -/

/-- What changes the meaning of the marks that follow. -/
structure Flags where
  ignoreCase : Bool := false
  dotAll : Bool := false
  multiLine : Bool := false
  deriving Repr, DecidableEq

/-- What stands for one character or one place. -/
inductive Atom
  | one (s : Charset)
  | any
  | start
  | finish
  | fixed (p : Pattern)
  deriving Repr, DecidableEq

/-- Flags set or cleared, by their letters. -/
abbrev FlagEdit := List (Char × Bool)

/-- A mark of a pattern. -/
inductive Token
  | atom (a : Atom)
  | flags (edit : FlagEdit)
  | opening (edit : FlagEdit)
  | closing
  | bar
  | times (least : Nat) (most : Option Nat)
  deriving Repr, DecidableEq

/-- The flags after an edit. -/
def Flags.apply (f : Flags) (edit : FlagEdit) : Flags :=
  edit.foldl (fun f e =>
    match e.1 with
    | 'i' => { f with ignoreCase := e.2 }
    | 's' => { f with dotAll := e.2 }
    | 'm' => { f with multiLine := e.2 }
    | _ => f) f

/-- The pattern of an atom. -/
def Atom.pattern (f : Flags) : Atom → Pattern
  | .one s => .one { s with ignoreCase := f.ignoreCase }
  | .any => .one (if f.dotAll then Charset.all else { members := [.single '\n'], negated := true })
  | .start => if f.multiLine then .lineStart else .start
  | .finish => if f.multiLine then .lineFinish else .finish
  | .fixed p => p

/-! ## 2. Putting tokens together -/

/-- A group that is still open. -/
structure Group where
  flags : Flags := {}
  /-- Alternatives before the last bar, the last first. -/
  before : List Pattern := []
  /-- What stands after the last bar, the last first. -/
  items : List Pattern := []

namespace Group

/-- The pattern of what stands after the last bar. -/
def current (g : Group) : Pattern := g.items.foldl (fun q p => .seq p q) .empty

/-- The pattern of the whole group. -/
def pattern (g : Group) : Pattern := g.before.foldl (fun q p => .alt p q) g.current

/-- Adds an item. -/
def push (g : Group) (p : Pattern) : Group := { g with items := p :: g.items }

end Group

/-- The pattern of tokens, inside a group and the groups around it, innermost first. -/
def build : List Token → Group → List Group → Option Pattern
  | [], g, [] => some g.pattern
  | [], _, _ :: _ => none
  | t :: ts, g, outer =>
    match t with
    | .atom a => build ts (g.push (a.pattern g.flags)) outer
    | .flags edit => build ts { g with flags := g.flags.apply edit } outer
    | .opening edit => build ts { flags := g.flags.apply edit } (g :: outer)
    | .closing =>
      match outer with
      | [] => none
      | o :: outer => build ts (o.push g.pattern) outer
    | .bar => build ts { g with before := g.current :: g.before, items := [] } outer
    | .times least most =>
      match g.items with
      | [] => none
      | p :: items => build ts { g with items := .times p least most :: items } outer

/-! ## 3. Scanning -/

/-- The class of characters that a letter after a backslash names. -/
def classOf? : Char → Option Charset.Member
  | 'd' => some (.digit false)
  | 'D' => some (.digit true)
  | 's' => some (.blank false)
  | 'S' => some (.blank true)
  | 'w' => some (.word false)
  | 'W' => some (.word true)
  | _ => none

/-- The character that a character after a backslash stands for. -/
def escaped? : Char → Option Char
  | 'n' => some '\n'
  | 't' => some '\t'
  | 'r' => some '\r'
  | 'f' => some '\x0c'
  | 'v' => some '\x0b'
  | 'a' => some '\x07'
  | c => if c.toNat < 0x80 && !c.isAlphanum && c != '<' && c != '>' then some c else none

/-- The entry of a set that a character after a backslash stands for. -/
def memberOf? (c : Char) : Option Charset.Member := classOf? c <|> (escaped? c).map .single

/-- The atom that a character after a backslash stands for. -/
def atomOf? : Char → Option Atom
  | 'b' => some (.fixed (.border false))
  | 'B' => some (.fixed (.border true))
  | 'A' => some (.fixed .start)
  | 'z' => some (.fixed .finish)
  | c => (memberOf? c).map fun m => .one { members := [m] }

/-- One entry of a set, and what follows it. -/
def member? : List Char → Option (Charset.Member × List Char)
  | '\\' :: c :: cs => (memberOf? c).map (·, cs)
  | '\\' :: [] => none
  | '[' :: _ => none
  | '&' :: '&' :: _ => none
  | c :: cs => some (.single c, cs)
  | [] => none

/-- The range of two entries, which must be single characters in order. -/
def rangeOf? : Charset.Member → Charset.Member → Option Charset.Member
  | .range a b, .range c d => if a == b && c == d && a ≤ c then some (.range a c) else none
  | _, _ => none

/-- One entry or range of a set, and what follows it.  A minus sign before the closing bracket makes
no range. -/
def entry? (cs : List Char) : Option (Charset.Member × List Char) := do
  let (m, rest) ← member? cs
  match rest with
  | '-' :: '-' :: _ => none
  | '-' :: ']' :: _ => return (m, rest)
  | '-' :: after =>
    let (n, after) ← member? after
    return (← rangeOf? m n, after)
  | _ => return (m, rest)

/-- The entries of a set up to its closing bracket, which cannot come first.  The bound is on their
number. -/
def members? : Nat → Bool → List Char → Option (List Charset.Member × List Char)
  | 0, _, _ => none
  | fuel + 1, first, cs =>
    if !first && cs.head? == some ']' then some ([], cs.tail)
    else do
      let (m, rest) ← entry? cs
      (members? fuel false rest).map fun p => (m :: p.1, p.2)

/-- A set after its opening bracket. -/
def charset? (cs : List Char) : Option (Charset × List Char) :=
  let negated := cs.head? == some '^'
  let cs := if negated then cs.tail else cs
  (members? (cs.length + 1) true cs).map fun p => ({ members := p.1, negated }, p.2)

/-- Decimal digits as a number, of which there must be one. -/
def count? (cs : List Char) : Option (Nat × List Char) :=
  let ds := cs.takeWhile Char.isDigit
  if ds.isEmpty then none else some (Decimal.natOfDigits ds, cs.dropWhile Char.isDigit)

/-- Numbers of repetitions after an opening brace. -/
def bounds? (cs : List Char) : Option (Token × List Char) := do
  let (least, cs) ← count? cs
  match cs with
  | '\x7d' :: rest => return (.times least (some least), rest)
  | ',' :: '\x7d' :: rest => return (.times least none, rest)
  | ',' :: rest =>
    let (most, rest) ← count? rest
    match rest with
    | '\x7d' :: rest => if least ≤ most then some (.times least (some most), rest) else none
    | _ => none
  | _ => none

/-- Drops the mark that asks for few repetitions; it has no say in whether there is a match. -/
def dropLazy : List Char → List Char
  | '?' :: cs => cs
  | cs => cs

/-- Letters of flags, those after a minus sign cleared, up to a colon or a closing bracket. -/
def flagEdit? (value : Bool) : List Char → Option (FlagEdit × Char × List Char)
  | [] => none
  | c :: cs =>
    if c == ':' || c == ')' then some ([], c, cs)
    else if c == '-' && value then flagEdit? false cs
    else if ['i', 's', 'm', 'u', 'U'].contains c then
      (flagEdit? value cs).map fun p => ((c, value) :: p.1, p.2)
    else none

/-- What follows a group's name. -/
def afterName? (cs : List Char) : Option (List Char) :=
  match cs with
  | c :: _ =>
    if Text.isNameStart c then
      match cs.dropWhile Text.isWord with
      | '>' :: rest => some rest
      | _ => none
    else none
  | [] => none

/-- A group, or flags, after an opening bracket. -/
def group? (cs : List Char) : Option (Token × List Char) :=
  match cs with
  | '?' :: 'P' :: '<' :: rest => (afterName? rest).map (.opening [], ·)
  | '?' :: '<' :: rest => (afterName? rest).map (.opening [], ·)
  | '?' :: rest =>
    match flagEdit? true rest with
    | some (edit, ':', rest) => some (.opening edit, rest)
    | some (edit, _, rest) => if edit.isEmpty then none else some (.flags edit, rest)
    | none => none
  | _ => some (.opening [], cs)

/-- The first token and what follows it. -/
def token? : List Char → Option (Token × List Char)
  | [] => none
  | '\\' :: c :: cs => (atomOf? c).map (.atom ·, cs)
  | '\\' :: [] => none
  | '.' :: cs => some (.atom .any, cs)
  | '^' :: cs => some (.atom .start, cs)
  | '$' :: cs => some (.atom .finish, cs)
  | '*' :: cs => some (.times 0 none, dropLazy cs)
  | '+' :: cs => some (.times 1 none, dropLazy cs)
  | '?' :: cs => some (.times 0 (some 1), dropLazy cs)
  | '\x7b' :: cs => (bounds? cs).map fun p => (p.1, dropLazy p.2)
  | '[' :: cs => (charset? cs).map fun p => (.atom (.one p.1), p.2)
  | '(' :: cs => group? cs
  | ')' :: cs => some (.closing, cs)
  | '|' :: cs => some (.bar, cs)
  | c :: cs => some (.atom (.one (.single c)), cs)

/-- The tokens of a text.  The bound is on their number. -/
def tokens? : Nat → List Char → Option (List Token)
  | _, [] => some []
  | 0, _ => none
  | fuel + 1, cs => do
    let (t, rest) ← token? cs
    return t :: (← tokens? fuel rest)

/-- The pattern that a text writes. -/
def read? (text : String) : Option Pattern := do
  build (← tokens? text.length text.toList) {} []

end BlockFlow.Pattern
