/-
# Flow errors

What a command can find wrong while a suite runs, apart from what evaluators, data files and jumps
report themselves.  None of these errors can be caught.
-/
import BlockFlow.Record
import BlockFlow.Value

namespace BlockFlow.Flow

/-! ## 1. Loops -/

/-- Why a loop command opens no loop. -/
inductive LoopMisuse
  | conditionMissing
  | headerParts
  | headerCondition
  /-- A variable of a header, by its number and what stands in its place. -/
  | headerVariable (ordinal : Nat) (text : String)
  | variableMissing
  | valuesMissing
  | fileMissing (command : String)
  deriving Repr, DecidableEq

/-- The words for a loop misuse. -/
def LoopMisuse.message : LoopMisuse → String
  | .conditionMissing => "'while' requires a condition expression."
  | .headerParts => "'for' requires: <initial-val>; <condition>; <iter-stmt>."
  | .headerCondition => "'for' requires a condition expression."
  | .headerVariable ordinal text =>
    "For loop variable #" ++ toString ordinal ++ " must start with $ and name a variable: '" ++
      text ++ "'"
  | .variableMissing => "'foreach' requires a variable name."
  | .valuesMissing => "'foreach' requires comma-separated values."
  | .fileMissing command => "'" ++ command ++ "' requires a data file path."

/-! ## 2. All flow errors -/

/-- Why a flow command fails. -/
inductive FlowError
  | nameInvalid (what name : String)
  /-- No block is recorded for the command with this reference. -/
  | blockMissing (ref : String)
  /-- A block lacks the part that is to run next. -/
  | partMissing (what : String)
  /-- The innermost construct is not of the kind that the command belongs to. -/
  | frameMissing (what : String)
  /-- The innermost construct, if there is one, is not the one that the command belongs to. -/
  | scopeMismatch (here : String) (active : Option String)
  | commandUnknown (name : String)
  | labelNotFound (label : String)
  | skipNotNumeric (spec : String)
  | skipNegative (number : Float)
  | functionNotFound (name : String)
  | argumentInvalid (text : String)
  | loopInvalid (why : LoopMisuse)
  | notInLoop
  | loadInvalid (format : DataFormat)
  | recordMultiple (format : DataFormat)
  | recordNotFound (format : DataFormat) (selector path : String)
  deriving Repr

namespace FlowError

/-- The code of a flow error. -/
def code : FlowError → String
  | .nameInvalid _ _ => "ENGINE_NAME_INVALID"
  | .blockMissing _ | .partMissing _ => "ENGINE_BLOCK_MISSING"
  | .frameMissing _ | .scopeMismatch _ _ => "ENGINE_SCOPE_MISMATCH"
  | .commandUnknown _ => "ENGINE_COMMAND_UNKNOWN"
  | .labelNotFound _ => "ENGINE_LABEL_NOT_FOUND"
  | .skipNotNumeric _ | .skipNegative _ => "ENGINE_SKIP_INVALID"
  | .functionNotFound _ => "ENGINE_FUNCTION_NOT_FOUND"
  | .argumentInvalid _ => "ENGINE_CALL_ARG_INVALID"
  | .loopInvalid _ => "ENGINE_LOOP_INVALID"
  | .notInLoop => "ENGINE_NOT_IN_LOOP"
  | .loadInvalid _ => "ENGINE_LOAD_INVALID"
  | .recordMultiple _ => "ENGINE_RECORD_MULTIPLE"
  | .recordNotFound _ _ _ => "ENGINE_RECORD_NOT_FOUND"

/-- The words for a flow error. -/
def message : FlowError → String
  | .nameInvalid what name => "Invalid character(s) in " ++ what ++ " name: '" ++ name ++ "'"
  | .blockMissing ref => "No block definition for " ++ ref ++ "."
  | .partMissing what => "No '" ++ what ++ "' command to branch to."
  | .frameMissing what => "Expected an active " ++ what ++ " block on the block stack."
  | .scopeMismatch here (some active) =>
    here ++ " unexpected command, active command was " ++ active
  | .scopeMismatch here none => here ++ " unexpected command, no block is active"
  | .commandUnknown name => "\"" ++ name ++ "\" is not a flow command."
  | .labelNotFound label => "Target label '" ++ label ++ "' is not found."
  | .skipNotNumeric spec => "skipNext requires a numeric value, got '" ++ spec ++ "'."
  | .skipNegative number =>
    "skipNext requires a number >= 0, got " ++ Value.numberLayout.render number ++ "."
  | .functionNotFound name => "Function does not exist: " ++ name ++ "."
  | .argumentInvalid text => "Invalid call parameter '" ++ text ++ "'; expected name = value."
  | .loopInvalid why => why.message
  | .notInLoop => "No active loop to break out of or continue."
  | .loadInvalid format => "Requires a file path to load each " ++ format.recordName ++ " from."
  | .recordMultiple format =>
    "Multiple " ++ format.recordName ++ "s are not valid for this command. (A specific " ++
      format.recordName ++ " can be selected by specifying: name=\"value\".)"
  | .recordNotFound format selector path =>
    format.recordName ++ " not found for selector expression: " ++ selector ++ "; in input file " ++
      path

/-- The report of a flow error. -/
def fault (e : FlowError) : Fault where
  kind := .assertion
  code := e.code
  message := e.message

@[simp] theorem isCatchable_fault (e : FlowError) : e.fault.isCatchable = false := rfl

end FlowError

end BlockFlow.Flow
