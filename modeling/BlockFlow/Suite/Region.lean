/-
# Regions and jumps

A region is a span of commands that no jump may enter or leave: a loop, a function, or one section
of a try.  Conditionals are no regions; a jump may cross their borders.

`Suite.region?` finds the innermost region around an address, and `Suite.checkJump` accepts a jump
within one unit whose ends have the same innermost region.
-/
import BlockFlow.Suite.Basic

namespace BlockFlow

/-! ## 1. Regions -/

/-- The sections of a try. -/
inductive Section
  | body
  | handler
  | cleanup
  deriving Repr, DecidableEq

/-- What a region is part of. -/
inductive Region.Kind
  | loop (opener : Keyword)
  | function (name : String)
  | tryPart (part : Section) (name : Option String)
  deriving Repr, DecidableEq

/-- A span of commands that jumps may not cross. -/
structure Region where
  top : Address
  bottom : Address
  kind : Region.Kind
  deriving Repr, DecidableEq

/-- The words for a kind of region. -/
def Region.Kind.text : Region.Kind → String
  | .loop k => k.name ++ " loop"
  | .function name => "function '" ++ name ++ "'"
  | .tryPart part name =>
    let what := match part with
      | .body => "try-block"
      | .handler => "catch-block for"
      | .cleanup => "finally-block for"
    match name with
    | some name => what ++ " '" ++ name ++ "'"
    | none => what

/-- The words for a region, with its positions counted from one. -/
def Region.text (r : Region) : String :=
  r.kind.text ++ " @[" ++ toString (r.top.position + 1) ++ "-" ++
    toString (r.bottom.position + 1) ++ "]"

/-- Whether two regions cover the same commands. -/
def Region.sameSpan (r s : Region) : Bool := r.top == s.top && r.bottom == s.bottom

/-- The ways a try divides into sections, in the order in which they are tried.  A border that the
try does not have rules a way out. -/
def Block.sections (b : Block) : List (Option Address × Option Address × Section) :=
  [(b.finallyAt, b.closer, .cleanup), (b.catchAt, b.finallyAt, .handler),
    (b.catchAt, b.closer, .handler), (some b.address, b.catchAt, .body),
    (some b.address, b.finallyAt, .body), (some b.address, b.closer, .body)]

/-- The section of a try that an address lies in; its closer lies in none. -/
def Block.sectionAt? (b : Block) (locus : Address) : Option Region :=
  b.sections.findSome? fun
    | (some top, some bottom, part) =>
      if top ≤ locus ∧ locus < bottom then some ⟨top, bottom, .tryPart part b.name⟩ else none
    | _ => none

/-- Whether an address lies after a block and not after its closer. -/
def Block.spans (b : Block) (locus : Address) : Bool :=
  b.address.unit == locus.unit && b.address.position < locus.position &&
    b.closer.any fun e => locus ≤ e

namespace Suite

/-- The loops, functions and tries around an address, outermost first. -/
def around (s : Suite) (locus : Address) : List Block :=
  (s.tables.blocks.toList.map Prod.snd).filter fun b =>
    b.spans locus && (b.nature?.any fun n => n != .conditional)

/-- The region that one of the constructs around an address gives. -/
def regionOf? (locus : Address) (b : Block) : Option Region :=
  match b.nature?, b.closer with
  | some .loop, some e => some ⟨b.address, e, .loop b.keyword⟩
  | some .function, some e => some ⟨b.address, e, .function (b.name.getD "")⟩
  | some .guarded, _ => b.sectionAt? locus
  | _, _ => none

/-- The innermost region around an address. -/
def region? (s : Suite) (locus : Address) : Option Region :=
  (s.around locus).getLast?.bind (regionOf? locus)

end Suite

/-! ## 2. Jumps -/

/-- Why a jump is refused. -/
inductive JumpError
  | crossUnit (start goal : Address)
  | restricted (out : Option Region) (into : Option Region)
  deriving Repr, DecidableEq

/-- The report of a refused jump. -/
def JumpError.fault : JumpError → Fault
  | .crossUnit start goal =>
    { kind := .assertion, code := "ENGINE_JUMP_CROSS_UNIT"
      message := "Attempt to jump from " ++ start.toText ++ " into another unit at " ++
        goal.toText ++ ". Only call and return cross units." }
  | .restricted out into =>
    { kind := .assertion, code := "ENGINE_JUMP_RESTRICTED"
      message := "Attempt to jump" ++ (out.elim "" fun r => " out of " ++ r.text) ++
        (into.elim "" fun r => " into " ++ r.text) ++
        ". You cannot jump into, or out of: loops, functions, or try blocks." }

/-- Checks that a jump stays within its innermost region. -/
def Suite.checkJump (s : Suite) (start goal : Address) : Except JumpError Unit :=
  if start.unit ≠ goal.unit then .error (.crossUnit start goal)
  else
    match s.region? start, s.region? goal with
    | none, none => .ok ()
    | some r, some t => if r.sameSpan t then .ok () else .error (.restricted (some r) (some t))
    | r, t => .error (.restricted r t)

end BlockFlow
