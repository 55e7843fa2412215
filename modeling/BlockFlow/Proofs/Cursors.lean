/-
# Cursors over records

A **reader** is a cursor together with the variables that records are copied into.  It is asked for files and for
records in any order, and every file may come from a snapshot of its own.  What it answered is written down, newest
first; the **history** alone says which records the reader stands in (`records`, those of the last file that was loaded)
and how many of them it gave out (`taken`).

`readers_are_atomic` says what a reader does after any requests.  That a failed request changes nothing is seen on the
requests carried out in place (`loadInPlace`, `nextInPlace`): there a request changes the reader bit by bit, and what it
changed before it fails stays changed.
-/
import BlockFlow.Proofs.Selection

namespace BlockFlow

/-- Records have the same field names exactly if they have the same list of them, which is in increasing order. -/
theorem Record.keys_eq_iff {a b : Record} : a.keys = b.keys ↔ ∀ name, name ∈ a.keys ↔ name ∈ b.keys := by
  constructor
  · intro h name
    rw [h]
  · intro h
    have hperm : a.keys.Perm b.keys := (List.perm_ext_iff_of_nodup a.nodup_keys b.nodup_keys).2 h
    have hsorted (d : Record) : d.keys.Pairwise fun x y => compare x y = .lt := List.pairwise_map.2 d.sorted
    refine hperm.eq_of_pairwise (fun x y _ _ hxy hyx => ?_) (hsorted a) (hsorted b)
    have hxx := Std.TransCmp.lt_trans hxy hyx
    simp at hxx

namespace Reading

/-! ## 1. Requests -/

/-- What a reader may be asked for. -/
inductive Request
  | load (files : Files) (path : String)
  | next

/-- What a reader answers. -/
inductive Reply
  /-- A file was loaded, whose first record has the fields. -/
  | loaded (fields : List String)
  /-- A record was copied into the variables. -/
  | taken
  deriving DecidableEq

/-- A cursor and the variables that records are copied into. -/
structure Reader where
  cursor : DataCursor
  vars : Namespace

/-- The answer to a request, and the reader after it. -/
def Reader.serve (r : Reader) : Request → Except DataError Reply × Reader
  | .load files path =>
    match r.cursor.load files path with
    | .error why => (.error why, r)
    | .ok cursor => (.ok (.loaded cursor.fields), { r with cursor })
  | .next =>
    match r.cursor.next r.vars with
    | .error why => (.error why, r)
    | .ok (cursor, vars) => (.ok .taken, ⟨cursor, vars⟩)

/-- A request that fails leaves the reader as it was. -/
theorem Reader.eq_of_serve_error {r r' : Reader} {q : Request} {why : DataError} (h : r.serve q = (.error why, r')) :
    r' = r := by
  cases q with
  | load files path =>
    rw [Reader.serve] at h
    split at h <;> cases h
    rfl
  | next =>
    rw [Reader.serve] at h
    split at h <;> cases h
    rfl

/-- The records of a file, or why there are none. -/
def recordsIn (format : DataFormat) (files : Files) (path : String) : Except DataError (List Record) :=
  match files.read path with
  | .error why => .error (.unreadable path why)
  | .ok text => (Record.ofText format text).mapError .malformed

theorem recordsIn_ne_nil {format : DataFormat} {files : Files} {path : String} :
    recordsIn format files path ≠ .ok [] := by
  intro h
  unfold recordsIn at h
  split at h
  · cases h
  · rename_i text _
    cases htext : Record.ofText format text with
    | error why =>
      rw [htext] at h
      cases h
    | ok records =>
      rw [htext] at h
      cases h
      exact Record.ofText_ne_nil htext rfl

theorem load_eq (c : DataCursor) (files : Files) (path : String) :
    c.load files path = (recordsIn c.format files path).map fun records => { c with records, position := 0 } := by
  unfold DataCursor.load recordsIn
  cases files.read path with
  | error why => rfl
  | ok text =>
    dsimp only
    cases Record.ofText c.format text <;> rfl

/-! ## 2. Requests carried out in place -/

/-- A change of a reader that may fail on its way; what it changed before stays changed. -/
abbrev Change := ExceptT DataError (StateM Reader)

/-- Loads a file in place. -/
def loadInPlace (files : Files) (path : String) : Change Reply := do
  match files.read path with
  | .error why => throw (.unreadable path why)
  | .ok text =>
    match Record.ofText (← getThe Reader).cursor.format text with
    | .error why => throw (.malformed why)
    | .ok records =>
      modifyThe Reader fun r => { r with cursor := { r.cursor with records } }
      modifyThe Reader fun r => { r with cursor := { r.cursor with position := 0 } }
      return .loaded (← getThe Reader).cursor.fields

/-- Binds variables one after the other. -/
def bindInPlace : List (String × Value) → Change Unit
  | [] => return
  | (name, v) :: fields => do
    modifyThe Reader fun r => { r with vars := r.vars.insert name v }
    bindInPlace fields

/-- Takes the next record in place. -/
def nextInPlace : Change Reply := do
  let r ← getThe Reader
  match r.cursor.records[r.cursor.position]? with
  | none => throw (.atEnd r.cursor.format r.cursor.position)
  | some record =>
    if record.keys = r.cursor.fields then
      bindInPlace record.toList
      modifyThe Reader fun r => { r with cursor := { r.cursor with position := r.cursor.position + 1 } }
      return .taken
    else throw (.inconsistent r.cursor.format (r.cursor.position + 1) r.cursor.fields record.keys)

/-- Carries out a request in place. -/
def inPlace : Request → Change Reply
  | .load files path => loadInPlace files path
  | .next => nextInPlace

theorem run_get_bind {α : Type} (k : Reader → Change α) (r : Reader) :
    ((getThe Reader : Change Reader) >>= k).run.run r = (k r).run.run r := rfl

theorem run_bind_of_ok {α β : Type} {c : Change α} {r r' : Reader} {x : α} (hc : c.run.run r = (.ok x, r'))
    (k : α → Change β) : (c >>= k).run.run r = (k x).run.run r' := by
  change (match c.run.run r with | (y, s) => (ExceptT.bindCont k y) s) = _
  rw [hc]
  rfl

theorem run_bindInPlace (fields : List (String × Value)) (r : Reader) :
    (bindInPlace fields).run.run r = (.ok (), { r with vars := r.vars.insertAll fields }) := by
  induction fields generalizing r with
  | nil => rfl
  | cons e fields ih => exact ih _

/-- **In place, a request does what it does at once**: it fails before it changes anything. -/
theorem run_inPlace (q : Request) (r : Reader) : (inPlace q).run.run r = r.serve q := by
  cases q with
  | load files path =>
    rw [inPlace, loadInPlace, Reader.serve, DataCursor.load]
    cases files.read path with
    | error why => rfl
    | ok text =>
      dsimp only
      rw [run_get_bind]
      cases Record.ofText r.cursor.format text <;> rfl
  | next =>
    rw [inPlace, nextInPlace, run_get_bind, Reader.serve, DataCursor.next]
    dsimp only
    cases r.cursor.records[r.cursor.position]? with
    | none => rfl
    | some record =>
      dsimp only
      by_cases hkeys : record.keys = r.cursor.fields
      · rw [if_pos hkeys, if_pos hkeys]
        exact run_bind_of_ok (run_bindInPlace record.toList r) _
      · rw [if_neg hkeys, if_neg hkeys]
        rfl

/-! ## 3. Histories -/

/-- Requests with what was answered, the newest first. -/
abbrev History := List (Request × Except DataError Reply)

namespace History

/-- The records of the last file that was loaded. -/
def records (format : DataFormat) : History → List Record
  | [] => []
  | (.load files path, .ok _) :: _ => (recordsIn format files path).toOption.getD []
  | _ :: h => records format h

/-- How many records were taken since. -/
def taken : History → Nat
  | [] => 0
  | (.load _ _, .ok _) :: _ => 0
  | (.next, .ok _) :: h => taken h + 1
  | (_, .error _) :: h => taken h

theorem records_of_error (format : DataFormat) (h : History) (q : Request) (why : DataError) :
    records format ((q, .error why) :: h) = records format h := by
  cases q <;> rfl

theorem taken_of_error (h : History) (q : Request) (why : DataError) : taken ((q, .error why) :: h) = taken h := by
  cases q <;> rfl

end History

/-- The requests in turn: what was answered, and the reader in the end. -/
def Reader.serveAll (r : Reader) (requests : List Request) : History × Reader :=
  requests.foldl (fun l q => ((q, (l.2.serve q).1) :: l.1, (l.2.serve q).2)) ([], r)

/-- **The reader stands where the history says.** -/
structure Stands (format : DataFormat) (h : History) (r : Reader) : Prop where
  cursor : r.cursor = ⟨format, h.records format, h.taken⟩
  taken_le : h.taken ≤ (h.records format).length

namespace Stands

variable {format : DataFormat} {h : History} {r : Reader}

theorem serve_load (hr : Stands format h r) {files : Files} {path : String} {first : Record} {rest : List Record}
    (hrecords : recordsIn format files path = .ok (first :: rest)) :
    r.serve (.load files path) = (.ok (.loaded first.keys), ⟨⟨format, first :: rest, 0⟩, r.vars⟩) := by
  rw [Reader.serve, load_eq, hr.cursor, hrecords]
  rfl

theorem serve_load_of_error (hr : Stands format h r) {files : Files} {path : String} {why : DataError}
    (hrecords : recordsIn format files path = .error why) : r.serve (.load files path) = (.error why, r) := by
  rw [Reader.serve, load_eq, hr.cursor, hrecords]
  rfl

/-- Behind the last record there is none to take. -/
theorem serve_next_of_end (hr : Stands format h r) (hend : (h.records format)[h.taken]? = none) :
    r.serve .next = (.error (.atEnd format h.taken), r) := by
  rw [Reader.serve, DataCursor.next, hr.cursor]
  dsimp only
  rw [hend]

theorem serve_next (hr : Stands format h r) {record first : Record} (hrecord : (h.records format)[h.taken]? = some record)
    (hfirst : (h.records format).head? = some first) : r.serve .next =
      if record.keys = first.keys then
        (.ok .taken, ⟨⟨format, h.records format, h.taken + 1⟩, r.vars.insertAll record.toList⟩)
      else (.error (.inconsistent format (h.taken + 1) first.keys record.keys), r) := by
  have hfields : r.cursor.fields = first.keys := by rw [hr.cursor, DataCursor.fields, hfirst]; rfl
  rw [Reader.serve, DataCursor.next, hfields, hr.cursor]
  dsimp only
  rw [hrecord]
  by_cases hkeys : record.keys = first.keys
  · simp only [if_pos hkeys]
  · simp only [if_neg hkeys]

/-- **A request moves the reader as the history says.** -/
theorem serve (hr : Stands format h r) (q : Request) : Stands format ((q, (r.serve q).1) :: h) (r.serve q).2 := by
  have hfailed (why : DataError) : Stands format ((q, .error why) :: h) r :=
    ⟨by rw [History.records_of_error, History.taken_of_error]; exact hr.cursor,
      by rw [History.records_of_error, History.taken_of_error]; exact hr.taken_le⟩
  cases q with
  | load files path =>
    cases hrecords : recordsIn format files path with
    | error why =>
      rw [hr.serve_load_of_error hrecords]
      exact hfailed why
    | ok records =>
      cases records with
      | nil => exact absurd hrecords recordsIn_ne_nil
      | cons first rest =>
        rw [hr.serve_load hrecords]
        refine ⟨?_, Nat.zero_le _⟩
        rw [History.records, History.taken, hrecords]
        rfl
  | next =>
    cases hrecord : (h.records format)[h.taken]? with
    | none =>
      rw [hr.serve_next_of_end hrecord]
      exact hfailed _
    | some record =>
      obtain ⟨hlt, -⟩ := List.getElem?_eq_some_iff.1 hrecord
      obtain ⟨first, hfirst⟩ : ∃ first, (h.records format).head? = some first :=
        ⟨_, List.head?_eq_getElem?.trans (List.getElem?_eq_getElem (by omega))⟩
      rw [hr.serve_next hrecord hfirst]
      split
      · exact ⟨rfl, hlt⟩
      · exact hfailed _

/-- Requests move the reader as the history of them says. -/
theorem serveAll (hr : Stands format [] r) (requests : List Request) :
    Stands format (r.serveAll requests).1 (r.serveAll requests).2 := by
  suffices h : ∀ (requests : List Request) (l : History × Reader), Stands format l.1 l.2 →
      Stands format (requests.foldl (fun l q => ((q, (l.2.serve q).1) :: l.1, (l.2.serve q).2)) l).1
        (requests.foldl (fun l q => ((q, (l.2.serve q).1) :: l.1, (l.2.serve q).2)) l).2 from
    h requests ([], r) hr
  intro requests
  induction requests with
  | nil => exact fun l hl => hl
  | cons q requests ih => exact fun l hl => ih _ (hl.serve q)

end Stands

/-- **A cursor over the records that the history tells of**, with what it answers next. -/
structure IsCursor (format : DataFormat) (h : History) (r : Reader) : Prop where
  /-- The end is reached when all records were taken. -/
  atEnd : r.cursor.atEnd = true ↔ h.taken = (h.records format).length
  /-- A file with records is loaded: the reader moves before its first record and gives the names of its fields. -/
  loads : ∀ files path first rest, recordsIn format files path = .ok (first :: rest) →
    r.serve (.load files path) = (.ok (.loaded first.keys), ⟨⟨format, first :: rest, 0⟩, r.vars⟩)
  /-- A file without records is not. -/
  not_loads : ∀ files path why, recordsIn format files path = .error why → r.serve (.load files path) = (.error why, r)
  nonempty : ∀ files path, recordsIn format files path ≠ .ok []
  /-- The next record is taken if it has the fields of the first: they are bound, and no other variable changes. -/
  takes : ∀ record first, (h.records format)[h.taken]? = some record → (h.records format).head? = some first →
    (∀ name, name ∈ record.keys ↔ name ∈ first.keys) →
    ∃ r', r.serve .next = (.ok .taken, r') ∧ ∀ name, r'.vars.get? name = (record.get? name).or (r.vars.get? name)
  /-- A record with other fields is not taken. -/
  not_takes : ∀ record first, (h.records format)[h.taken]? = some record → (h.records format).head? = some first →
    ¬ (∀ name, name ∈ record.keys ↔ name ∈ first.keys) →
    r.serve .next = (.error (.inconsistent format (h.taken + 1) first.keys record.keys), r)
  /-- Nor is there one at the end. -/
  ends : h.taken = (h.records format).length → r.serve .next = (.error (.atEnd format h.taken), r)
  /-- A request that fails changes nothing, and fails again. -/
  atomic : ∀ q why r', r.serve q = (.error why, r') → r' = r ∧ r'.serve q = (.error why, r)
  /-- All this holds of the requests carried out in place. -/
  in_place : ∀ q, (inPlace q).run.run r = r.serve q

theorem Stands.isCursor {format : DataFormat} {h : History} {r : Reader} (hr : Stands format h r) :
    IsCursor format h r where
  atEnd := by
    have hle := hr.taken_le
    rw [hr.cursor, DataCursor.atEnd, decide_eq_true_eq]
    exact ⟨fun h => Nat.le_antisymm hle h, fun h => Nat.le_of_eq h.symm⟩
  loads files path first rest := hr.serve_load
  not_loads files path why := hr.serve_load_of_error
  nonempty files path := recordsIn_ne_nil
  takes record first hrecord hfirst hkeys := by
    refine ⟨_, (hr.serve_next hrecord hfirst).trans (if_pos (Record.keys_eq_iff.2 hkeys)), fun name => ?_⟩
    exact Dict.get?_insertAll_toList r.vars record name
  not_takes record first hrecord hfirst hkeys :=
    (hr.serve_next hrecord hfirst).trans (if_neg fun h => hkeys (Record.keys_eq_iff.1 h))
  ends hend := hr.serve_next_of_end (List.getElem?_eq_none (Nat.le_of_eq hend.symm))
  atomic q why r' hq := by
    obtain rfl : r' = r := r.eq_of_serve_error hq
    exact ⟨rfl, hq⟩
  in_place q := run_inPlace q r

/-- **Readers are atomic cursors**, after any requests. -/
theorem readers_are_atomic (format : DataFormat) (vars : Namespace) (requests : List Request) :
    IsCursor format (Reader.serveAll ⟨DataCursor.new format, vars⟩ requests).1
      (Reader.serveAll ⟨DataCursor.new format, vars⟩ requests).2 := by
  have hnew : Stands format [] ⟨DataCursor.new format, vars⟩ := ⟨rfl, Nat.zero_le _⟩
  exact (hnew.serveAll requests).isCursor

end Reading

end BlockFlow
