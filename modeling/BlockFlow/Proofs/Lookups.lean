/-
# Where the block map is read

While units are compiled the block map is read at openers: those that are pending, and the one that was just
closed.  `Draft.block` has an answer at every address.  The definitions of `Draft.Strict` read the map through
`Draft.read`, which halts where nothing is recorded, and they do the same: `Strict.flow_eq` for one command, and
`Tables.Strict.ofUnits_eq` for all units.
-/
import BlockFlow.Proofs.Nesting

namespace BlockFlow

/-! ## 1. Reading strictly -/

/-- Why a strict pass halts. -/
inductive Halt
  /-- No block is recorded at an address. -/
  | absent (a : Address)
  | misuse (why : Misuse)
  deriving Repr, DecidableEq

namespace Draft

/-- The block recorded at an address, which has to be there. -/
def read (d : Draft) (a : Address) : Except Halt Block :=
  match d.blockAt? a with
  | some b => .ok b
  | none => .error (.absent a)

namespace Strict

/-- The innermost pending opener, which must be of the expected keyword. -/
def innermost (d : Draft) (expected : Keyword) (missing : Misuse) : Except Halt Address :=
  match d.pending with
  | [] => .error (.misuse missing)
  | top :: _ => do
    if (← d.read top).keyword = expected then return top else throw (.misuse (.mismatch top))

/-- Closes the innermost pending opener, which must be of the expected keyword and, if the closer
is named, of that name. -/
def closeBlock (d : Draft) (expected : Keyword) (name : Option String) : Except Halt (Address × Draft) :=
  match d.pending with
  | [] => .error (.misuse (.noOpener expected))
  | top :: rest => do
    if (← d.read top).keyword ≠ expected then throw (.misuse (.mismatch top))
    if name.isSome then
      if (← d.read top).name ≠ name then throw (.misuse (.mismatch top))
    return (top, { d with pending := rest })

/-- Closes a construct without branches. -/
def closeWith (d : Draft) (a : Address) (k expected : Keyword) (name : Option String) : Except Halt Draft := do
  let (top, d) ← closeBlock d expected name
  let d := d.link top fun b => { b with closer := some a }
  return d.define { address := a, keyword := k, opener := some top }

/-- The innermost of some openers that is of a nature; those around it are not read. -/
def enclosing? (d : Draft) (n : Nature) : List Address → Except Halt (Option Address)
  | [] => return none
  | a :: as => do
    if (← d.read a).nature? == some n then return some a else enclosing? d n as

/-- What a flow command with a trimmed target does to the draft.  Openers, labels, calls and the commands that
take part in no construct read no block. -/
def flow (d : Draft) (a : Address) (k : Keyword) (target : String) : Except Halt Draft :=
  match k with
  | .elseIf => do
    let top ← innermost d .ifThen .noConditional
    if let some elseAt := (← d.read top).elseAt then throw (.misuse (.elseIfAfterElse elseAt))
    let d := d.define { address := a, keyword := k, opener := some top }
    return d.link top fun b => { b with elseIfs := b.elseIfs ++ [a] }
  | .otherwise => do
    let top ← innermost d .ifThen .noConditional
    if (← d.read top).elseAt.isSome then throw (.misuse .secondElse)
    let d := d.define { address := a, keyword := k, opener := some top }
    return d.link top fun b => { b with elseAt := some a }
  | .endIf => do
    let (top, d) ← closeBlock d .ifThen none
    let d := d.define { address := a, keyword := k, opener := some top }
    let b ← d.read top
    return d.linkAll (top :: (b.elseIfs ++ b.elseAt.toList)) fun b => { b with closer := some a }
  | .catchError => do
    let top ← innermost d .tryBlock .noTryForCatch
    let b ← d.read top
    if b.catchAt.isSome then throw (.misuse .secondCatch)
    if let some finallyAt := b.finallyAt then throw (.misuse (.catchAfterFinally finallyAt))
    let d := d.define { address := a, keyword := k, opener := some top }
    return d.link top fun b => { b with catchAt := some a }
  | .finallyDo => do
    let top ← innermost d .tryBlock .noTryForFinally
    if (← d.read top).finallyAt.isSome then throw (.misuse .secondFinally)
    let d := d.define { address := a, keyword := k, opener := some top }
    let b ← d.read top
    return d.linkAll (top :: b.catchAt.toList) fun b => { b with finallyAt := some a }
  | .endTry => do
    let (top, d) ← closeBlock d .tryBlock (nonEmpty? target)
    let d := d.define { address := a, keyword := k, opener := some top }
    let b ← d.read top
    return d.linkAll (top :: (b.catchAt.toList ++ b.finallyAt.toList)) fun b => { b with closer := some a }
  | .breakLoop | .continueLoop => do
    let some top ← enclosing? d .loop d.pending | throw (.misuse .outsideLoop)
    return d.define { address := a, keyword := k, opener := some top }
  | .endWhile => closeWith d a k .whileLoop none
  | .endFor => closeWith d a k .forLoop none
  | .endForeach => closeWith d a k .foreach none
  | .endForJson => closeWith d a k .forJson none
  | .endForXml => closeWith d a k .forXml none
  | .returnValue => do
    let some top ← enclosing? d .function d.pending | throw (.misuse .outsideFunction)
    return d.define { address := a, keyword := k, opener := some top }
  | .endFunction => closeWith d a k .function (nonEmpty? target)
  | .endScript => closeWith d a k .script (nonEmpty? target)
  | k => (d.flow a k target).mapError .misuse

/-- What any command does to the draft, unless a block is missing. -/
def command (d : Draft) (a : Address) (c : Command) : Except Address (Except CompileError Draft) :=
  match Keyword.ofName? c.name with
  | none => .ok (.ok d)
  | some (_, true) => .ok (.error (.misuse a .waits))
  | some (k, false) =>
    match flow d a k (Text.trim c.target) with
    | .ok d => .ok (.ok d)
    | .error (.misuse why) => .ok (.error (.misuse a why))
    | .error (.absent p) => .error p

/-- The commands of a unit from a position on. -/
def commands (d : Draft) (a : Address) : List Command → Except Address (Draft × Option CompileError)
  | [] => return (d, none)
  | c :: cs => do
    match ← command d a c with
    | .ok d => commands d a.next cs
    | .error e => return (d, some e)

/-- The keywords of openers. -/
def keywords (d : Draft) : List Address → Except Address (List (Address × Keyword))
  | [] => return []
  | a :: as =>
    match d.blockAt? a with
    | some b => return (a, b.keyword) :: (← keywords d as)
    | none => .error a

end Strict

end Draft

namespace Tables.Strict

/-- The tables with those of one more unit, and the error that stopped it. -/
def addUnit (t : Tables) (index : Nat) (u : ScriptUnit) : Except Address (Tables × Option CompileError) := do
  match ← Draft.Strict.commands { tables := t } ⟨index, 0⟩ u.commands with
  | (d, some e) => return (d.tables, some e)
  | (d, none) =>
    if d.pending.isEmpty then return (d.tables, none)
    else return (d.tables, some (.unterminated (← Draft.Strict.keywords d d.pending.reverse)))

/-- The tables with those of more units, the first of which has the given index. -/
def addUnits (t : Tables) (index : Nat) : List ScriptUnit → Except Address (Tables × Option CompileError)
  | [] => return (t, none)
  | u :: us => do
    match ← addUnit t index u with
    | (t, none) => addUnits t (index + 1) us
    | (t, some e) => return (t, some e)

/-- **The tables of units**, unless the block map is read at an address where no block is recorded. -/
def ofUnits (units : List ScriptUnit) : Except Address (Tables × Option CompileError) := addUnits {} 0 units

end Tables.Strict

/-! ## 2. One command -/

namespace Draft

variable {d : Draft} {a : Address} {k : Keyword} {target : String}

/-- Every pending opener is recorded. -/
def Recorded (d : Draft) : Prop := ∀ p ∈ d.pending, ∃ b, d.blockAt? p = some b

theorem Sound.all_recorded {units : List ScriptUnit} (h : d.Sound units a) : d.Recorded := by
  intro p hp
  obtain ⟨-, b, hb, -⟩ := h.pending hp
  exact ⟨b, hb⟩

theorem read_eq (h : ∃ b, d.blockAt? a = some b) : d.read a = .ok (d.block a) := by
  obtain ⟨b, hb⟩ := h
  rw [read, hb, block_of_blockAt? hb]

theorem exists_blockAt?_define {b : Block} (h : ∃ b, d.blockAt? a = some b) :
    ∃ b', (d.define b).blockAt? a = some b' := by
  rw [blockAt?_define]
  split
  · exact ⟨_, rfl⟩
  · exact h

namespace Strict

theorem innermost_eq (h : d.Recorded) (expected : Keyword) (missing : Misuse) :
    innermost d expected missing = (d.innermost expected missing).mapError .misuse := by
  unfold innermost Draft.innermost
  cases hp : d.pending with
  | nil => rfl
  | cons top rest =>
    dsimp only
    rw [read_eq (h top (by rw [hp]; exact List.mem_cons_self))]
    dsimp only [bind, Except.bind]
    split <;> rfl

theorem closeBlock_eq (h : d.Recorded) (expected : Keyword) (name : Option String) :
    closeBlock d expected name = (d.closeBlock expected name).mapError .misuse := by
  unfold closeBlock Draft.closeBlock
  cases hp : d.pending with
  | nil => rfl
  | cons top rest =>
    dsimp only
    rw [read_eq (h top (by rw [hp]; exact List.mem_cons_self))]
    dsimp only [bind, Except.bind]
    split
    · rfl
    · cases name with
      | none => rfl
      | some name =>
        by_cases hname : (d.block top).name = some name
        · simp [hname, Except.mapError, pure, Except.pure]
        · simp [hname, Except.mapError, throw, throwThe, MonadExceptOf.throw]

theorem closeWith_eq (h : d.Recorded) (expected : Keyword) (name : Option String) :
    closeWith d a k expected name = (d.closeWith a k expected name).mapError .misuse := by
  unfold closeWith Draft.closeWith
  rw [closeBlock_eq h]
  cases d.closeBlock expected name <;> rfl

theorem enclosing?_eq_find? (n : Nature) : ∀ {as : List Address}, (∀ p ∈ as, ∃ b, d.blockAt? p = some b) →
    enclosing? d n as = .ok (as.find? fun a => (d.block a).nature? == some n)
  | [], _ => rfl
  | a :: as, h => by
    unfold enclosing?
    rw [read_eq (h a List.mem_cons_self), List.find?_cons]
    dsimp only [bind, Except.bind]
    split
    · rename_i hn
      rw [hn]
      rfl
    · rename_i hn
      rw [Bool.eq_false_iff.2 hn]
      exact enclosing?_eq_find? n fun p hp => h p (List.mem_cons_of_mem _ hp)

theorem enclosing?_eq (h : d.Recorded) (n : Nature) : enclosing? d n d.pending = .ok (d.enclosing? n) :=
  enclosing?_eq_find? n h

/-- What goes on with the innermost pending construct goes on with one that is recorded. -/
theorem innermost_bind {expected : Keyword} {missing : Misuse} (h : d.Recorded)
    {f : Address → Except Halt Draft} {f' : Address → Except Misuse Draft}
    (hf : ∀ top, (∃ b, d.blockAt? top = some b) → f top = (f' top).mapError .misuse) :
    (innermost d expected missing >>= f) = (d.innermost expected missing >>= f').mapError .misuse := by
  rw [innermost_eq h]
  cases ht : d.innermost expected missing with
  | error e => rfl
  | ok top =>
    obtain ⟨rest, hp, -⟩ := innermost_ok ht
    exact hf top (h top (by rw [hp]; exact List.mem_cons_self))

/-- What goes on once the innermost construct is closed goes on with one that is recorded. -/
theorem closeBlock_bind {expected : Keyword} {name : Option String} (h : d.Recorded)
    {f : Address × Draft → Except Halt Draft} {f' : Address × Draft → Except Misuse Draft}
    (hf : ∀ top d', (∃ b, d'.blockAt? top = some b) → f (top, d') = (f' (top, d')).mapError .misuse) :
    (closeBlock d expected name >>= f) = (d.closeBlock expected name >>= f').mapError .misuse := by
  rw [closeBlock_eq h]
  cases ht : d.closeBlock expected name with
  | error e => rfl
  | ok p =>
    obtain ⟨top, d'⟩ := p
    obtain ⟨rest, hp, -, -, rfl⟩ := closeBlock_ok ht
    exact hf top _ (h top (by rw [hp]; exact List.mem_cons_self))

/-- **No flow command reads a block that is missing**, as long as the pending openers are recorded. -/
theorem flow_eq (h : d.Recorded) : flow d a k target = (d.flow a k target).mapError .misuse := by
  cases k with
  | elseIf =>
    refine innermost_bind h fun top htop => ?_
    rw [read_eq htop]
    dsimp only [bind, Except.bind]
    cases (d.block top).elseAt <;> rfl
  | otherwise =>
    refine innermost_bind h fun top htop => ?_
    rw [read_eq htop]
    dsimp only [bind, Except.bind]
    cases (d.block top).elseAt <;> rfl
  | endIf =>
    refine closeBlock_bind h fun top d' htop => ?_
    dsimp only
    rw [read_eq (exists_blockAt?_define htop)]
    rfl
  | catchError =>
    refine innermost_bind h fun top htop => ?_
    rw [read_eq htop]
    dsimp only [bind, Except.bind]
    cases (d.block top).catchAt <;> cases (d.block top).finallyAt <;> rfl
  | finallyDo =>
    refine innermost_bind h fun top htop => ?_
    rw [read_eq htop]
    dsimp only [bind, Except.bind]
    cases (d.block top).finallyAt with
    | some p => rfl
    | none =>
      rw [Option.isSome_none, if_neg Bool.false_ne_true, read_eq (exists_blockAt?_define htop)]
      rfl
  | endTry =>
    refine closeBlock_bind h fun top d' htop => ?_
    dsimp only
    rw [read_eq (exists_blockAt?_define htop)]
    rfl
  | breakLoop | continueLoop =>
    simp only [flow, Draft.flow]
    rw [enclosing?_eq h]
    cases d.enclosing? .loop <;> rfl
  | returnValue =>
    simp only [flow, Draft.flow]
    rw [enclosing?_eq h]
    cases d.enclosing? .function <;> rfl
  | endWhile | endFor | endForeach | endForJson | endForXml | endFunction | endScript => exact closeWith_eq h _ _
  | _ => rfl

/-! ## 3. All commands -/

variable {units : List ScriptUnit}

theorem command_eq (h : d.Recorded) (c : Command) : command d a c = .ok (d.command a c) := by
  unfold command Draft.command
  rcases Keyword.ofName? c.name with _ | ⟨k, _ | _⟩
  · rfl
  · dsimp only
    rw [flow_eq h]
    cases d.flow a k (Text.trim c.target) <;> rfl
  · rfl

theorem commands_eq : ∀ {cs : List Command} {d : Draft} {a : Address}, d.Sound units a → Listed units a cs →
    commands d a cs = .ok (d.commands a cs)
  | [], _, _, _, _ => rfl
  | c :: cs, d, a, h, hcs => by
    unfold commands Draft.commands
    rw [command_eq h.all_recorded]
    cases hc : d.command a c with
    | error e => rfl
    | ok d' => exact commands_eq (h.command hcs.head hc) hcs.tail

theorem keywords_eq : ∀ {as : List Address}, (∀ p ∈ as, ∃ b, d.blockAt? p = some b) →
    keywords d as = .ok (as.map fun a => (a, (d.block a).keyword))
  | [], _ => rfl
  | a :: as, h => by
    obtain ⟨b, hb⟩ := h a List.mem_cons_self
    unfold keywords
    rw [hb, keywords_eq fun p hp => h p (List.mem_cons_of_mem _ hp), List.map_cons, block_of_blockAt? hb]
    rfl

end Strict

end Draft

namespace Tables.Strict

variable {units : List ScriptUnit} {index : Nat}

theorem addUnit_eq {t : Tables} {u : ScriptUnit} (h : Draft.Sound units { tables := t } ⟨index, 0⟩)
    (hu : units[index]? = some u) : addUnit t index u = .ok (t.addUnit index u) := by
  unfold addUnit Tables.addUnit
  rw [Draft.Strict.commands_eq h (Draft.listed_commands hu)]
  rcases hd : Draft.commands { tables := t } ⟨index, 0⟩ u.commands with ⟨d, e | _⟩
  · have hsound := (Draft.invariant_sound units).commands h (Draft.listed_commands hu) hd
    dsimp only [bind, Except.bind]
    split
    · rfl
    · rw [Draft.Strict.keywords_eq fun p hp => hsound.all_recorded p (List.mem_reverse.1 hp)]
      rfl
  · rfl

theorem addUnits_eq : ∀ {us : List ScriptUnit} {t : Tables} {index : Nat},
    Draft.Sound units { tables := t } ⟨index, 0⟩ → (∀ i u, us[i]? = some u → units[index + i]? = some u) →
    addUnits t index us = .ok (t.addUnits index us)
  | [], _, _, _, _ => rfl
  | u :: us, t, index, h, hus => by
    have hu : units[index]? = some u := hus 0 u rfl
    unfold addUnits Tables.addUnits
    rw [addUnit_eq h hu]
    rcases ht : t.addUnit index u with ⟨t', e | _⟩
    · refine addUnits_eq ((Draft.invariant_sound units).addUnit h hu ht) fun i v hi => ?_
      have := hus (i + 1) v hi
      rwa [Nat.add_comm i, ← Nat.add_assoc] at this
    · rfl

/-- **Compiling never reads a block that is missing**, whether the units compile or not. -/
theorem ofUnits_eq (units : List ScriptUnit) : ofUnits units = .ok (Tables.ofUnits units) :=
  addUnits_eq (Suite.sound_nil units) fun i u hi => by simpa using hi

end Tables.Strict

end BlockFlow
