/-
# Flow commands

The command names that steer a run, `Keyword`, in the order in which they are listed.  A keyword may
open a construct (`opens?`), close the construct of another (`closes?`), or do neither.

A name with the suffix `AndWait` is recognised by the part before the suffix, and flagged:
`Keyword.ofName?`.
-/

namespace BlockFlow

/-- What a construct does with its body. -/
inductive Nature
  | conditional
  | guarded
  | loop
  | function
  deriving Repr, DecidableEq, Inhabited

/-- The name of a nature. -/
def Nature.name : Nature → String
  | .conditional => "if"
  | .guarded => "try"
  | .loop => "loop"
  | .function => "function"

/-- The commands that steer a run. -/
inductive Keyword
  | label | goto | gotoIf | skipNext
  | ifThen | elseIf | otherwise | endIf
  | tryBlock | catchError | finallyDo | endTry | throwError
  | whileLoop | forLoop | foreach | forJson | forXml
  | breakLoop | continueLoop
  | endWhile | endFor | endForeach | endForJson | endForXml
  | call | function | script | returnValue | endFunction | endScript
  | exitTest | loadJsonVars | loadXmlVars
  deriving Repr, DecidableEq, Inhabited

namespace Keyword

/-! ## 1. Names -/

/-- Every keyword, in listing order. -/
def all : List Keyword :=
  [.label, .goto, .gotoIf, .skipNext, .ifThen, .elseIf, .otherwise, .endIf, .tryBlock, .catchError,
    .finallyDo, .endTry, .throwError, .whileLoop, .forLoop, .foreach, .forJson, .forXml, .breakLoop,
    .continueLoop, .endWhile, .endFor, .endForeach, .endForJson, .endForXml, .call, .function,
    .script, .returnValue, .endFunction, .endScript, .exitTest, .loadJsonVars, .loadXmlVars]

/-- The command name of a keyword. -/
def name : Keyword → String
  | .label => "label"
  | .goto => "goto"
  | .gotoIf => "gotoIf"
  | .skipNext => "skipNext"
  | .ifThen => "if"
  | .elseIf => "elseIf"
  | .otherwise => "else"
  | .endIf => "endIf"
  | .tryBlock => "try"
  | .catchError => "catch"
  | .finallyDo => "finally"
  | .endTry => "endTry"
  | .throwError => "throw"
  | .whileLoop => "while"
  | .forLoop => "for"
  | .foreach => "foreach"
  | .forJson => "forJson"
  | .forXml => "forXml"
  | .breakLoop => "break"
  | .continueLoop => "continue"
  | .endWhile => "endWhile"
  | .endFor => "endFor"
  | .endForeach => "endForeach"
  | .endForJson => "endForJson"
  | .endForXml => "endForXml"
  | .call => "call"
  | .function => "function"
  | .script => "script"
  | .returnValue => "return"
  | .endFunction => "endFunction"
  | .endScript => "endScript"
  | .exitTest => "exitTest"
  | .loadJsonVars => "loadJsonVars"
  | .loadXmlVars => "loadXmlVars"

/-- The keyword with exactly this name. -/
def named? (name : String) : Option Keyword := all.find? fun k => k.name == name

/-- The characters before the first occurrence of a word, if it occurs. -/
def before? (word : List Char) : List Char → Option (List Char)
  | [] => if word.isEmpty then some [] else none
  | c :: cs =>
    if word.isPrefixOf (c :: cs) then some [] else (before? word cs).map (c :: ·)

/-- The suffix of the commands that wait for a page. -/
def waitSuffix : String := "AndWait"

/-- The keyword of a command name, and whether the name carries the suffix. -/
def ofName? (name : String) : Option (Keyword × Bool) :=
  match before? waitSuffix.toList name.toList with
  | some stem => (named? (String.ofList stem)).map (·, true)
  | none => (named? name).map (·, false)

/-! ## 2. Openers and closers -/

/-- The nature of the construct a keyword opens. -/
def opens? : Keyword → Option Nature
  | .ifThen => some .conditional
  | .tryBlock => some .guarded
  | .whileLoop | .forLoop | .foreach | .forJson | .forXml => some .loop
  | .function | .script => some .function
  | _ => none

/-- The opener of the construct a keyword closes. -/
def closes? : Keyword → Option Keyword
  | .endIf => some .ifThen
  | .endTry => some .tryBlock
  | .endWhile => some .whileLoop
  | .endFor => some .forLoop
  | .endForeach => some .foreach
  | .endForJson => some .forJson
  | .endForXml => some .forXml
  | .endFunction => some .function
  | .endScript => some .script
  | _ => none

/-- The name of the closer of an opener: `end` and the name with a capital letter. -/
def terminatorName (k : Keyword) : String :=
  match k.name.toList with
  | [] => "end"
  | c :: cs => "end" ++ String.ofList (c.toUpper :: cs)

end Keyword

end BlockFlow
