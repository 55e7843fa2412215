/-
# Parsing expressions

A recursive descent over tokens with precedence climbing for the binary operators.  Every function
takes a bound on the depth of the descent, for which a few times the number of tokens is enough.

`Script.parse?` reads a whole source: statements with semicolons between them, of which those that
end in a brace need none.  Loops and definitions of functions are not read, as if they were malformed.
-/
import BlockFlow.Script.Expr
import BlockFlow.Script.Token

namespace BlockFlow.Script

/-! ## 1. Words and operators -/

/-- Words that no variable, field or key may be named. -/
def reservedWords : List String :=
  ["true", "false", "let", "const", "if", "else", "switch", "do", "while", "until", "loop", "for",
    "in", "continue", "break", "return", "throw", "try", "catch", "fn", "private", "import",
    "export", "as", "global", "this", "var", "static", "shared", "goto", "exit", "match", "case",
    "public", "protected", "new", "use", "with", "is", "module", "package", "super", "thread",
    "spawn", "go", "await", "async", "sync", "yield", "default", "void", "null", "nil"]

/-- Whether a word is reserved. -/
def isReserved (s : String) : Bool := reservedWords.contains s

/-- Whether an expression may have a truth value, which a literal of another kind cannot. -/
def Expr.mayHold : Expr → Bool
  | .literal (.bool _) => true
  | .literal _ | .list _ | .map _ => false
  | _ => true

/-- How a binary operator joins two expressions, if it can. -/
abbrev Join := Expr → Expr → Option Expr

/-- Joins any two expressions. -/
def Join.always (f : Expr → Expr → Expr) : Join := fun l r => some (f l r)

/-- Joins two expressions that may have truth values. -/
def Join.truths (f : Expr → Expr → Expr) : Join := fun l r =>
  if l.mayHold && r.mayHold then some (f l r) else none

/-- The binary operator of a symbol or word, with its precedence. -/
def binary? (t : Token) : Option (Nat × Join) :=
  match t with
  | .symbol s =>
    match s with
    | "||" => some (30, .truths .either)
    | "|" => some (30, .always (.operator .bitOr))
    | "^" => some (30, .always (.operator .bitXor))
    | "&&" => some (60, .truths .both)
    | "&" => some (60, .always (.operator .bitAnd))
    | "==" => some (90, .always (.operator .eq))
    | "!=" => some (90, .always (.operator .ne))
    | "<" => some (130, .always (.operator .lt))
    | "<=" => some (130, .always (.operator .le))
    | ">" => some (130, .always (.operator .gt))
    | ">=" => some (130, .always (.operator .ge))
    | "??" => some (135, .always .orElse)
    | ".." => some (140, .always (.range false))
    | "..=" => some (140, .always (.range true))
    | "+" => some (150, .always (.operator .add))
    | "-" => some (150, .always (.operator .sub))
    | "*" => some (180, .always (.operator .mul))
    | "/" => some (180, .always (.operator .div))
    | "%" => some (180, .always (.operator .mod))
    | "**" => some (190, .always (.operator .pow))
    | "<<" => some (210, .always (.operator .shiftLeft))
    | ">>" => some (210, .always (.operator .shiftRight))
    | _ => none
  | .name "in" => some (110, .always .within)
  | _ => none

/-- The precedence of the operator that joins to the right. -/
def rightPrecedence : Nat := 190

/-- The assignment of a symbol: plain, or by an operator. -/
def assignment? (t : Token) : Option (Option Operator) :=
  match t with
  | .symbol s =>
    match s with
    | "=" => some none
    | "+=" => some (some .add)
    | "-=" => some (some .sub)
    | "*=" => some (some .mul)
    | "/=" => some (some .div)
    | "%=" => some (some .mod)
    | "**=" => some (some .pow)
    | "<<=" => some (some .shiftLeft)
    | ">>=" => some (some .shiftRight)
    | "&=" => some (some .bitAnd)
    | "|=" => some (some .bitOr)
    | "^=" => some (some .bitXor)
    | _ => none
  | _ => none

/-- Whether an expression can be assigned to: a variable, or a part of one. -/
def Expr.isPlace : Expr → Bool
  | .variable _ => true
  | .index e _ => e.isPlace
  | .property e _ => e.isPlace
  | _ => false

/-- The assignment of a value to a place.  A variable that is assigned an operation on itself is
assigned by the operator. -/
def Statement.assignment (place value : Expr) : Statement :=
  match place, value with
  | .variable x, .operator op (.variable y) e =>
    if x == y && op.assigns then .assign place (some op) e else .assign place none value
  | _, _ => .assign place none value

/-- The rest after a symbol or word. -/
def eat? (s : String) : List Token → Option (List Token)
  | t :: ts => if t.is s then some ts else none
  | [] => none

/-- The negation of an expression; a literal number is negated at once. -/
def Expr.negation : Expr → Expr
  | .literal (.int n) => .literal (.int (-n))
  | .literal (.float x) => .literal (.float (-x))
  | e => .negate e

/-! ## 2. The descent -/

/-- Names between bars, after the first bar. -/
def params? : List Token → Option (List String × List Token)
  | .symbol "|" :: ts => some ([], ts)
  | .name x :: .symbol "|" :: ts => if isReserved x then none else some ([x], ts)
  | .name x :: .symbol "," :: ts =>
    if isReserved x then none else (params? ts).map fun p => (x :: p.1, p.2)
  | _ => none

mutual

/-- An expression whose operators have at least a precedence. -/
def expr? : Nat → Nat → List Token → Option (Expr × List Token)
  | 0, _, _ => none
  | fuel + 1, least, ts => do
    let (l, ts) ← unary? fuel ts
    climb? fuel least l ts

/-- What follows a left operand. -/
def climb? : Nat → Nat → Expr → List Token → Option (Expr × List Token)
  | 0, _, _, _ => none
  | fuel + 1, least, l, ts =>
    match ts with
    | t :: rest =>
      match binary? t with
      | some (p, join) =>
        if p < least then some (l, ts)
        else do
          let (r, rest) ← expr? fuel (if p == rightPrecedence then p else p + 1) rest
          climb? fuel least (← join l r) rest
      | none => some (l, ts)
    | [] => some (l, [])

/-- An operand with signs before it. -/
def unary? : Nat → List Token → Option (Expr × List Token)
  | 0, _ => none
  | fuel + 1, ts =>
    match ts with
    | .symbol "-" :: rest => (unary? fuel rest).map fun p => (p.1.negation, p.2)
    | .symbol "+" :: rest => (unary? fuel rest).map fun p => (.affirm p.1, p.2)
    | .symbol "!" :: rest => (unary? fuel rest).map fun p => (.not p.1, p.2)
    | _ => do
      let (e, rest) ← primary? fuel ts
      postfix? fuel e rest

/-- Indices, properties and method calls after an operand. -/
def postfix? : Nat → Expr → List Token → Option (Expr × List Token)
  | 0, _, _ => none
  | fuel + 1, e, ts =>
    match ts with
    | .symbol "[" :: rest => do
      let (i, rest) ← expr? fuel 0 rest
      postfix? fuel (.index e i) (← eat? "]" rest)
    | .symbol "." :: .name k :: .symbol "(" :: rest => do
      if isReserved k then none
      let (args, rest) ← items? fuel ")" rest
      postfix? fuel (.call k (e :: args)) rest
    | .symbol "." :: .name k :: rest =>
      if isReserved k then none else postfix? fuel (.property e k) rest
    | .symbol "." :: _ => none
    | _ => some (e, ts)

/-- An operand without signs and without what may follow it. -/
def primary? : Nat → List Token → Option (Expr × List Token)
  | 0, _ => none
  | fuel + 1, ts =>
    match ts with
    | .int n :: rest => some (.literal (.int n), rest)
    | .float x :: rest => some (.literal (.float x), rest)
    | .text s :: rest => some (.literal (.text s), rest)
    | .char c :: rest => some (.literal (.char c), rest)
    | .symbol "(" :: .symbol ")" :: rest => some (.literal .unit, rest)
    | .symbol "(" :: rest => do
      let (e, rest) ← expr? fuel 0 rest
      return (e, ← eat? ")" rest)
    | .symbol "[" :: rest => (items? fuel "]" rest).map fun p => (.list p.1, p.2)
    | .symbol "#\x7b" :: rest => do
      let (fields, rest) ← fields? fuel rest
      let keys := fields.map Prod.fst
      if keys.eraseDups.length < keys.length then none else return (.map fields, rest)
    | .symbol "\x7b" :: rest => (block? fuel rest).map fun p => (.block p.1, p.2)
    | .symbol "|" :: rest => do
      let (params, rest) ← params? rest
      let (body, rest) ← expr? fuel 0 rest
      return (.function params body, rest)
    | .symbol "||" :: rest => (expr? fuel 0 rest).map fun p => (.function [] p.1, p.2)
    | .name "true" :: rest => some (.literal (.bool true), rest)
    | .name "false" :: rest => some (.literal (.bool false), rest)
    | .name "if" :: rest => choice? fuel rest
    | .name f :: .symbol "(" :: rest => do
      if isReserved f then none
      let (args, rest) ← items? fuel ")" rest
      return (.call f args, rest)
    | .name x :: rest => if isReserved x then none else some (.variable x, rest)
    | _ => none

/-- Expressions with commas between them, and one after the last at most, up to a closing symbol. -/
def items? : Nat → String → List Token → Option (List Expr × List Token)
  | 0, _, _ => none
  | fuel + 1, close, ts =>
    match eat? close ts with
    | some rest => some ([], rest)
    | none => do
      let (e, rest) ← expr? fuel 0 ts
      match eat? "," rest with
      | some rest => (items? fuel close rest).map fun p => (e :: p.1, p.2)
      | none => return ([e], ← eat? close rest)

/-- Fields of a map, up to the closing brace. -/
def fields? : Nat → List Token → Option (List (String × Expr) × List Token)
  | 0, _ => none
  | fuel + 1, ts =>
    match eat? "\x7d" ts with
    | some rest => some ([], rest)
    | none => do
      let (key, rest) ← match ts with
        | .name k :: .symbol ":" :: rest => if isReserved k then none else some (k, rest)
        | .text k :: .symbol ":" :: rest => some (k, rest)
        | _ => none
      let (e, rest) ← expr? fuel 0 rest
      match eat? "," rest with
      | some rest => (fields? fuel rest).map fun p => ((key, e) :: p.1, p.2)
      | none => return ([(key, e)], ← eat? "\x7d" rest)

/-- The condition and branches after an `if`. -/
def choice? : Nat → List Token → Option (Expr × List Token)
  | 0, _ => none
  | fuel + 1, ts => do
    let (cond, rest) ← expr? fuel 0 ts
    if !cond.mayHold then none
    let (yes, rest) ← block? fuel (← eat? "\x7b" rest)
    match rest with
    | .name "else" :: .name "if" :: rest =>
      let (no, rest) ← choice? fuel rest
      return (.choose cond yes [.expr no], rest)
    | .name "else" :: .symbol "\x7b" :: rest =>
      let (no, rest) ← block? fuel rest
      return (.choose cond yes no, rest)
    | .name "else" :: _ => none
    | rest => return (.choose cond yes [], rest)

/-- Statements up to the closing brace. -/
def block? : Nat → List Token → Option (List Statement × List Token)
  | 0, _ => none
  | fuel + 1, ts => do
    let (body, rest) ← statements? fuel ts
    return (body, ← eat? "\x7d" rest)

/-- Statements up to the end or a closing brace. -/
def statements? : Nat → List Token → Option (List Statement × List Token)
  | 0, _ => none
  | fuel + 1, ts =>
    match ts with
    | [] => some ([], [])
    | .symbol "\x7d" :: _ => some ([], ts)
    | .symbol ";" :: rest => statements? fuel rest
    | .name "if" :: rest => do
      let (e, rest) ← choice? fuel rest
      (statements? fuel rest).map fun p => (.expr e :: p.1, p.2)
    | .symbol "\x7b" :: rest => do
      let (body, rest) ← block? fuel rest
      (statements? fuel rest).map fun p => (.expr (.block body) :: p.1, p.2)
    | _ => do
      let (s, rest) ← simple? fuel ts
      match rest with
      | [] => return ([s], [])
      | .symbol "\x7d" :: _ => return ([s], rest)
      | .symbol ";" :: rest => (statements? fuel rest).map fun p => (s :: p.1, p.2)
      | _ => none

/-- A statement that needs a semicolon after it. -/
def simple? : Nat → List Token → Option (Statement × List Token)
  | 0, _ => none
  | fuel + 1, ts =>
    match ts with
    | .name "let" :: .name x :: .symbol "=" :: rest => do
      if isReserved x then none
      let (e, rest) ← expr? fuel 0 rest
      return (.define x (some e), rest)
    | .name "let" :: .name x :: rest => if isReserved x then none else some (.define x none, rest)
    | _ => do
      let (e, rest) ← expr? fuel 0 ts
      match rest with
      | t :: after =>
        match assignment? t with
        | some op =>
          if e.isPlace then
            let (r, after) ← expr? fuel 0 after
            return (op.elim (.assignment e r) fun op => .assign e (some op) r, after)
          else none
        | none => return (.expr e, rest)
      | [] => return (.expr e, [])

end

/-! ## 3. Sources -/

/-- The statements of a source, or `none` if it is not well formed. -/
def parse? (source : String) : Option (List Statement) := do
  let ts ← Token.all? source.toList
  match statements? (16 * (ts.length + 1)) ts with
  | some (body, []) => some body
  | _ => none

/-- The statements that take up all tokens of a source. -/
theorem parse?_of_tokens {source : String} {ts : List Token} {body : List Statement}
    (hts : Token.all? source.toList = some ts) (hbody : statements? (16 * (ts.length + 1)) ts = some (body, [])) :
    parse? source = some body := by
  rw [parse?, hts, Option.bind_eq_bind, Option.bind_some, hbody]

end BlockFlow.Script
