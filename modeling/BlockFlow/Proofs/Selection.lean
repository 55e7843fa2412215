/-
# The record that a load command takes

A load command with a selector takes the first record on which the selector holds.  It reads the records one after
the other over the variables and asks the selector after each, so the search ends at the first record on which the
selector holds or fails, at the first with other fields than the first record, or behind the last one:
`Search.Reaches` and `Search.Stops`.

As the records that were read have the same fields, the last of them hides the ones before it, and the variables are
in the end those that there were, overridden by one record (`Search.seen_seen`).  `Evaluator.logged` writes down what
is asked; `Loads.takes_first_match` says that every record up to the last is asked about once, and no other.
-/
import BlockFlow.Proofs.Acting

namespace BlockFlow

/-- The records of a text are never none. -/
theorem Record.ofText_ne_nil {format : DataFormat} {text : String} {records : List Record}
    (h : Record.ofText format text = .ok records) : records ≠ [] := by
  rintro rfl
  cases format with
  | json =>
    rw [Record.ofText, Record.ofJsonText] at h
    split at h
    · split at h
      · cases h
      · rename_i hne _
        cases h
        exact hne rfl
      · cases h
    · cases h
  | xml =>
    rw [Record.ofText, Record.ofXmlText] at h
    split at h
    · cases h
    · dsimp only at h
      split at h
      · cases h
      · rename_i hne
        simp only [Except.ok.injEq, List.map_eq_nil_iff] at h
        exact hne h

namespace Flow

/-! ## 1. Searches -/

/-- A search through the records of a file, with what decides it. -/
structure Search where
  evaluate : Evaluator
  selector : String
  format : DataFormat
  path : String
  records : List Record
  /-- The variables before the search. -/
  vars : Namespace

namespace Search

variable (q : Search)

/-- The variables over which the selector is asked about a record. -/
def seen (r : Record) : Namespace := q.vars.insertAll r.toList

/-- What the selector says of a record. -/
def answer (r : Record) : Except EvalError Bool := (q.evaluate q.selector (q.seen r)).1.map Value.isTruthy

/-- The field names of the first record. -/
def fields : List String := q.records.head?.elim [] Dict.keys

/-- Asking about a record assigns no variable. -/
def Unassigning : Prop := ∀ r ∈ q.records, (q.evaluate q.selector (q.seen r)).2 = q.seen r

/-- **A record that the search comes to**: it has the fields of the first one, and so have all before it, on which
the selector does not hold. -/
structure Reaches (before : List Record) (r : Record) (after : List Record) : Prop where
  split : q.records = before ++ r :: after
  passed : ∀ x ∈ before, x.keys = q.fields ∧ q.answer x = .ok false
  consistent : r.keys = q.fields

/-- **How a search ends** at a record that it comes to. -/
inductive Stops (before : List Record) (r : Record) (after : List Record) : Except Fault Unit → Prop
  | found : q.answer r = .ok true → Stops before r after (.ok ())
  | failed {e} : q.answer r = .error e → Stops before r after (.error e.fault)
  | exhausted : q.answer r = .ok false → after = [] →
      Stops before r after (.error (FlowError.recordNotFound q.format q.selector q.path).fault)
  | inconsistent {x more} : q.answer r = .ok false → after = x :: more → x.keys ≠ q.fields →
      Stops before r after (.error (DataError.inconsistent q.format (before.length + 2) q.fields x.keys).fault)

variable {q} {before after : List Record} {r x : Record}

theorem Reaches.first (h : q.records = r :: after) : q.Reaches [] r after :=
  ⟨h, nofun, by rw [fields, h]; rfl⟩

/-- The search comes to the next record. -/
theorem Reaches.next (h : q.Reaches before r (x :: after)) (hr : q.answer r = .ok false) (hx : x.keys = q.fields) :
    q.Reaches (before ++ [r]) x after where
  split := by rw [h.split, List.append_assoc, List.singleton_append]
  passed y hy := by
    rcases List.mem_append.1 hy with hy | hy
    · exact h.passed y hy
    · obtain rfl := List.mem_singleton.1 hy
      exact ⟨h.consistent, hr⟩
  consistent := hx

/-- The search ends at a record on which the selector holds or fails. -/
theorem exists_stops_of_answer (hr : q.answer r ≠ .ok false) : ∃ result, q.Stops before r after result := by
  cases hanswer : q.answer r with
  | error e => exact ⟨_, .failed hanswer⟩
  | ok b =>
    cases b with
    | true => exact ⟨_, .found hanswer⟩
    | false => exact absurd hanswer hr

/-- A search ends. -/
theorem Reaches.exists_stops (h : q.Reaches before r after) :
    ∃ before r after result, q.Reaches before r after ∧ q.Stops before r after result := by
  induction after generalizing before r with
  | nil =>
    by_cases hr : q.answer r = .ok false
    · exact ⟨_, _, _, _, h, .exhausted hr rfl⟩
    · obtain ⟨result, hstops⟩ := exists_stops_of_answer hr
      exact ⟨_, _, _, result, h, hstops⟩
  | cons x after ih =>
    by_cases hr : q.answer r = .ok false
    · by_cases hx : x.keys = q.fields
      · exact ih (h.next hr hx)
      · exact ⟨_, _, _, _, h, .inconsistent hr rfl hx⟩
    · obtain ⟨result, hstops⟩ := exists_stops_of_answer hr
      exact ⟨_, _, _, result, h, hstops⟩

/-! ## 2. Variables in a search -/

/-- **A record hides the one before it**, as both have the same fields. -/
theorem seen_seen (hkeys : x.keys = r.keys) : (q.seen r).insertAll x.toList = q.seen x := by
  refine Dict.ext fun name => ?_
  rw [seen, seen, Dict.get?_insertAll_toList, Dict.get?_insertAll_toList, Dict.get?_insertAll_toList]
  cases hx : x.get? name with
  | some v => rfl
  | none =>
    have hr : r.get? name = none := by
      cases hr : r.get? name with
      | none => rfl
      | some v =>
        obtain ⟨w, hw⟩ := Dict.mem_keys.1 (hkeys ▸ Dict.mem_keys.2 ⟨v, hr⟩ : name ∈ x.keys)
        rw [hx] at hw
        cases hw
    rw [hr, Option.none_or]

end Search

end Flow

namespace Evaluator

/-- The list that a variable holds. -/
def entries (vars : Namespace) (log : String) : List Value :=
  match vars.get? log with
  | some (.list items) => items
  | _ => []

/-- The same evaluator, which notes every expression and what it is evaluated over in a variable that no expression
sees. -/
def logged (evaluate : Evaluator) (log : String) : Evaluator := fun expr vars =>
  let r := evaluate expr (vars.erase log)
  (r.1, r.2.insert log (.list (entries vars log ++ [.list [.text expr, .map (vars.erase log).toList]])))

end Evaluator

namespace Flow

namespace Search

variable {q : Search} {before after : List Record} {r x : Record} {log : String}

/-- What is noted when the selector is asked about a record. -/
def entry (q : Search) (r : Record) : Value := .list [.text q.selector, .map (q.seen r).toList]

/-- The variables after some records were asked about and one was read, with the notes of it. -/
def noted (q : Search) (log : String) (asked : List Record) (r : Record) : Namespace :=
  match asked with
  | [] => q.seen r
  | x :: xs => (q.seen r).insert log (.list ((x :: xs).map q.entry))

/-- Neither a variable nor a field of a record has the name. -/
def Omits (q : Search) (log : String) : Prop := q.vars.get? log = none ∧ ∀ r ∈ q.records, r.get? log = none

theorem Omits.seen (h : q.Omits log) (hr : r ∈ q.records) : (q.seen r).get? log = none := by
  rw [Search.seen, Dict.get?_insertAll_toList, h.1, h.2 r hr, Option.none_or]

theorem get?_noted_of_ne {asked : List Record} {name : String} (hname : name ≠ log) :
    (q.noted log asked r).get? name = (q.seen r).get? name := by
  cases asked with
  | nil => rfl
  | cons y ys => rw [noted, Dict.get?_insert, if_neg hname]

/-- Without the notes there is what was read. -/
theorem Omits.erase_noted (h : q.Omits log) (hr : r ∈ q.records) (asked : List Record) :
    (q.noted log asked r).erase log = q.seen r := by
  refine Dict.ext fun name => ?_
  rw [Dict.get?_erase]
  split
  · rename_i hname
    rw [hname, h.seen hr]
  · rename_i hname
    exact get?_noted_of_ne hname

theorem Omits.entries_noted (h : q.Omits log) (hr : r ∈ q.records) (asked : List Record) :
    Evaluator.entries (q.noted log asked r) log = asked.map q.entry := by
  cases asked with
  | nil => rw [Evaluator.entries, noted, h.seen hr]; rfl
  | cons y ys => rw [Evaluator.entries, noted, Dict.get?_insert, if_pos rfl]

/-- Reading the next record leaves the notes. -/
theorem Omits.noted_insertAll (h : q.Omits log) (hx : x ∈ q.records) (hkeys : x.keys = r.keys) (asked : List Record) :
    (q.noted log asked r).insertAll x.toList = q.noted log asked x := by
  cases asked with
  | nil => exact seen_seen hkeys
  | cons y ys =>
    refine Dict.ext fun name => ?_
    rw [Dict.get?_insertAll_toList]
    by_cases hname : name = log
    · subst hname
      rw [h.2 x hx, Option.none_or, noted, noted, Dict.get?_insert, Dict.get?_insert, if_pos rfl, if_pos rfl]
    · rw [get?_noted_of_ne hname, get?_noted_of_ne hname, ← seen_seen hkeys, Dict.get?_insertAll_toList]

/-- **An evaluator that answers as in the search**, over variables of which `view` says what they are once some
records were asked about and one was read. -/
structure Answers (q : Search) (evaluate : Evaluator) (view : List Record → Record → Namespace) : Prop where
  first : ∀ r ∈ q.records, view [] r = q.seen r
  asks : ∀ asked, ∀ r ∈ q.records,
    evaluate q.selector (view asked r) = ((q.evaluate q.selector (q.seen r)).1, view (asked ++ [r]) r)
  takes : ∀ asked, ∀ r ∈ q.records, ∀ x ∈ q.records, x.keys = r.keys →
    (view asked r).insertAll x.toList = view asked x

theorem Unassigning.answers (h : q.Unassigning) : q.Answers q.evaluate fun _ => q.seen where
  first _ _ := rfl
  asks _ r hr := Prod.ext rfl (h r hr)
  takes _ _ _ _ _ hkeys := seen_seen hkeys

theorem Unassigning.answers_logged (h : q.Unassigning) (hlog : q.Omits log) :
    q.Answers (q.evaluate.logged log) (q.noted log) where
  first _ _ := rfl
  asks asked r hr := by
    rw [Evaluator.logged, hlog.erase_noted hr, hlog.entries_noted hr]
    refine Prod.ext rfl ?_
    dsimp only
    rw [h r hr]
    cases asked with
    | nil => rfl
    | cons y ys => rw [List.cons_append, noted, ← List.cons_append, List.map_append]; rfl
  takes asked _ _ _ hx hkeys := hlog.noted_insertAll hx hkeys asked

/-! ## 3. Searching -/

/-- The cursor of the search with a number of records taken. -/
def cursor (q : Search) (n : Nat) : DataCursor := { format := q.format, records := q.records, position := n }

theorem next_of_keys_eq {n : Nat} (hx : q.records[n]? = some x) (hkeys : x.keys = q.fields) (v : Namespace) :
    (q.cursor n).next v = .ok (q.cursor (n + 1), v.insertAll x.toList) := by
  rw [DataCursor.next, cursor, hx]
  exact if_pos hkeys

theorem next_of_keys_ne {n : Nat} (hx : q.records[n]? = some x) (hkeys : x.keys ≠ q.fields) (v : Namespace) :
    (q.cursor n).next v = .error (.inconsistent q.format (n + 1) q.fields x.keys) := by
  rw [DataCursor.next, cursor, hx]
  exact if_neg hkeys

end Search

section

open BlockFlow.Flow.Action

variable {g : Setting} {s : Session} {q : Search} {before after : List Record} {r : Record}
  {result : Except Fault Unit} {view : List Record → Record → Namespace}

/-- The selector is asked about the record that was read. -/
theorem Search.Answers.ends_condition (h : q.Answers g.evaluate view) (hr : r ∈ q.records) (asked : List Record)
    {Q : Except Fault Bool → Session → Prop} :
    (condition g q.selector).Ends (s.withVars (view asked r)) Q ↔
      Q ((q.answer r).mapError EvalError.fault) (s.withVars (view (asked ++ [r]) r)) := by
  unfold condition
  rw [ends_bind, ends_evaluate, Session.vars_withVars, h.asks asked r hr, Search.answer]
  cases (q.evaluate q.selector (q.seen r)).1 <;> rfl

theorem ends_takeRecord {Q : Except Fault DataCursor → Session → Prop} (cursor : DataCursor) :
    (takeRecord cursor).Ends s Q ↔
      match cursor.next s.vars with
      | .error e => Q (.error e.fault) s
      | .ok (cursor, vars) => Q (.ok cursor) (s.withVars vars) := by
  unfold takeRecord
  rw [ends_bind, ends_ask]
  dsimp only
  cases cursor.next s.vars with
  | error e => rfl
  | ok p => rfl

/-- After a record on which the selector does not hold the next one is read, if one is left. -/
theorem Search.Answers.selectRecord_of_false (h : q.Answers g.evaluate view) (hr : r ∈ q.records)
    (hanswer : q.answer r = .ok false) (asked : List Record) (cursor : DataCursor) (left : Nat)
    {Q : Except Fault Unit → Session → Prop} :
    (selectRecord g q.selector q.path cursor (left + 1)).Ends (s.withVars (view asked r)) Q ↔
      (takeRecord cursor >>= fun cursor => selectRecord g q.selector q.path cursor left).Ends
        (s.withVars (view (asked ++ [r]) r)) Q := by
  rw [selectRecord, ends_bind, h.ends_condition hr, hanswer]
  rfl

/-- At the record where it stops, a search ends. -/
theorem Search.Stops.selectRecord_ends (hview : q.Answers g.evaluate view) (h : q.Reaches before r after)
    (hstops : q.Stops before r after result) :
    (selectRecord g q.selector q.path (q.cursor (before.length + 1)) after.length).Ends
      (s.withVars (view before r)) fun x t => x = result ∧ t = s.withVars (view (before ++ [r]) r) := by
  have hr : r ∈ q.records := by rw [h.split]; exact List.mem_append_right _ List.mem_cons_self
  cases hstops with
  | found hanswer =>
    cases after <;> rw [List.length, selectRecord, ends_bind, hview.ends_condition hr, hanswer] <;> exact ⟨rfl, rfl⟩
  | failed hanswer =>
    cases after <;> rw [List.length, selectRecord, ends_bind, hview.ends_condition hr, hanswer] <;> exact ⟨rfl, rfl⟩
  | exhausted hanswer hafter =>
    subst hafter
    rw [List.length, selectRecord, ends_bind, hview.ends_condition hr, hanswer]
    exact ⟨rfl, rfl⟩
  | @inconsistent x more hanswer hafter hx =>
    subst hafter
    have hat : q.records[before.length + 1]? = some x := by rw [h.split]; simp
    rw [List.length_cons, hview.selectRecord_of_false hr hanswer, ends_bind, ends_takeRecord,
      Search.next_of_keys_ne hat hx]
    exact ⟨rfl, rfl⟩

/-- **A search passes the records on which the selector does not hold**, up to the one where it stops. -/
theorem Search.Stops.passes (hview : q.Answers g.evaluate view) (h : q.Reaches before r after)
    (hstops : q.Stops before r after result) (left asked : List Record) (hbefore : asked ++ left = before)
    (y : Record) (rest : List Record) (hrest : left ++ r :: after = y :: rest) :
    (selectRecord g q.selector q.path (q.cursor (asked.length + 1)) rest.length).Ends
      (s.withVars (view asked y)) fun x t => x = result ∧ t = s.withVars (view (before ++ [r]) r) := by
  induction left generalizing asked y rest with
  | nil =>
    obtain ⟨rfl, rfl⟩ := List.cons.inj hrest
    obtain rfl : asked = before := by rw [← hbefore, List.append_nil]
    exact hstops.selectRecord_ends hview h
  | cons z left ih =>
    rw [List.cons_append] at hrest
    obtain ⟨rfl, rfl⟩ := List.cons.inj hrest
    have hsplit : q.records = asked ++ z :: (left ++ r :: after) := by rw [h.split, ← hbefore]; simp
    obtain ⟨hkeys, hanswer⟩ := h.passed z (by rw [← hbefore]; simp)
    -- the next record is one before `r`, or `r` itself; both have the fields of the first
    obtain ⟨x, more, hmore⟩ : ∃ x more, left ++ r :: after = x :: more := by
      cases left with
      | nil => exact ⟨_, _, rfl⟩
      | cons w ws => exact ⟨_, _, rfl⟩
    have hx : x.keys = q.fields := by
      cases left with
      | nil => exact (List.cons.inj hmore).1 ▸ h.consistent
      | cons w ws => exact (List.cons.inj hmore).1 ▸ (h.passed w (by rw [← hbefore]; simp)).1
    have hat : q.records[asked.length + 1]? = some x := by rw [hsplit, hmore]; simp
    have hz : z ∈ q.records := by rw [hsplit]; simp
    have hmem : x ∈ q.records := List.mem_of_getElem? hat
    rw [hmore, List.length_cons, hview.selectRecord_of_false hz hanswer, ends_bind, ends_takeRecord,
      Search.next_of_keys_eq hat hx]
    dsimp only
    rw [Session.withVars_withVars, Session.vars_withVars, hview.takes _ z hz x hmem (hx.trans hkeys.symm)]
    have hnext := ih (asked ++ [z]) (by rw [← hbefore]; simp) x more hmore
    rwa [List.length_append, List.length_singleton] at hnext

/-! ## 4. Load commands -/

/-- A command that loads a record of a file that can be read, with the search that it makes. -/
structure Loads (g : Setting) (s : Session) (a : Address) (c : Command) (q : Search) : Prop where
  command : s.suite.commandAt? a = some c
  keyword : ∃ k, Keyword.ofName? c.name = some (k, false) ∧
    (k, q.format) ∈ [(Keyword.loadJsonVars, DataFormat.json), (Keyword.loadXmlVars, DataFormat.xml)]
  file : Text.trim c.target ≠ ""
  path : q.path = dataPath g s a.unit (Text.trim c.target)
  records : ∃ text, g.files.read q.path = .ok text ∧ Record.ofText q.format text = .ok q.records
  evaluate : q.evaluate = g.evaluate
  selector : q.selector = Text.trim c.value
  vars : q.vars = s.vars

/-- The same setting with another evaluator. -/
def Setting.withEvaluate (g : Setting) (evaluate : Evaluator) : Setting := { g with evaluate }

/-- The session of a command that runs, with the variables that it has come to. -/
def Session.running (s : Session) (a : Address) (vars : Namespace) : Session := { s with current := some a, vars }

namespace Loads

variable {a : Address} {c : Command} {f : Record} {others : List Record} {vars : Namespace}

/-- What the command does is what loading a record does. -/
theorem execute_eq (h : Loads g s a c q) (g' : Setting)
    (hends : (loadRecord g' a q.format (Text.trim c.target) q.selector).Ends (s.running a s.vars)
      fun x t => x = result ∧ t = s.running a vars) :
    s.execute g' a = (result.mapError (·.attach (s.suite.commandRef a)), s.running a vars) := by
  obtain ⟨k, hof, hk⟩ := h.keyword
  have hperform : perform g' a k (Text.trim c.target) (Text.trim c.value) =
      loadRecord g' a q.format (Text.trim c.target) q.selector := by
    simp only [List.mem_cons, Prod.mk.injEq, List.not_mem_nil, or_false] at hk
    obtain ⟨rfl, hformat⟩ | ⟨rfl, hformat⟩ := hk <;> rw [hformat, h.selector] <;> rfl
  have hdispatch : (dispatch g' a).Ends (s.running a s.vars) fun x t => x = result ∧ t = s.running a vars := by
    unfold dispatch
    rw [ends_bind, ends_ask]
    dsimp only
    rw [show Command.locate (s.running a s.vars).suite.units a = .ok c from
      Command.locate_eq_ok_iff.2 h.command]
    dsimp only
    rw [hof]
    dsimp only
    rw [hperform]
    exact hends
  unfold Session.execute
  rw [show { s with current := some a } = s.running a s.vars from rfl]
  obtain ⟨hresult, hsession⟩ := hdispatch
  generalize dispatch g' a (s.running a s.vars) = p at hresult hsession
  obtain ⟨x, t⟩ := p
  obtain rfl : x = result := hresult
  obtain rfl : t = s.running a vars := hsession
  cases x <;> rfl

/-- The command reads the first record, and goes on from there. -/
theorem loadRecord_iff (h : Loads g s a c q) (hfirst : q.records = f :: others) (evaluate : Evaluator)
    {Q : Except Fault Unit → Session → Prop} :
    (loadRecord (g.withEvaluate evaluate) a q.format (Text.trim c.target) q.selector).Ends (s.running a s.vars) Q ↔
      (if !q.selector.isEmpty then
        selectRecord (g.withEvaluate evaluate) q.selector q.path (q.cursor 1) others.length
      else if !others.isEmpty then fail (.recordMultiple q.format) else pure ()).Ends (s.running a (q.seen f)) Q := by
  obtain ⟨text, hread, hrecords⟩ := h.records
  have hfile : (Text.trim c.target).isEmpty = false := Bool.eq_false_iff.2 fun he => h.file (String.isEmpty_iff.1 he)
  have hload : (DataCursor.new q.format).load g.files q.path = .ok (q.cursor 0) := by
    rw [DataCursor.load, hread]
    dsimp only
    rw [show (DataCursor.new q.format).format = q.format from rfl, hrecords]
    rfl
  have hnext : (q.cursor 0).next s.vars = .ok (q.cursor 1, q.seen f) := by
    have hkeys : f.keys = q.fields := (Search.Reaches.first hfirst).consistent
    rw [Search.next_of_keys_eq (by rw [hfirst]; rfl) hkeys, Search.seen, h.vars]
  have hpath : dataPath (g.withEvaluate evaluate) (s.running a s.vars) a.unit (Text.trim c.target) = q.path :=
    h.path.symm
  have hfiles : (g.withEvaluate evaluate).files = g.files := rfl
  have hlength : (q.cursor 1).records.length - (q.cursor 1).position = others.length := by
    rw [Search.cursor, hfirst]
    rfl
  have hat : (q.cursor 1).atEnd = others.isEmpty := by
    rw [DataCursor.atEnd, Search.cursor, hfirst]
    cases others <;> simp
  unfold loadRecord
  simp only [hfile, Bool.false_eq_true, if_false]
  rw [ends_bind, ends_ask]
  dsimp only
  rw [hpath, hfiles, hload]
  dsimp only
  rw [ends_bind, ends_takeRecord, show (s.running a s.vars).vars = s.vars from rfl, hnext]
  dsimp only
  rw [hlength, hat]
  rfl

/-- Without a selector the command needs the file to have one record. -/
theorem execute_of_no_selector (h : Loads g s a c q) (hfirst : q.records = f :: others)
    (hselector : q.selector = "") :
    s.execute g a = (if others = [] then .ok ()
        else .error ((FlowError.recordMultiple q.format).fault.attach (s.suite.commandRef a)),
      s.running a (q.seen f)) := by
  have hrun (result : Except Fault Unit) (hresult : (if !others.isEmpty then fail (.recordMultiple q.format)
      else pure () : Action Unit).Ends (s.running a (q.seen f)) fun x t => x = result ∧ t = s.running a (q.seen f)) :
      s.execute g a = (result.mapError (·.attach (s.suite.commandRef a)), s.running a (q.seen f)) := by
    refine h.execute_eq g ((h.loadRecord_iff hfirst g.evaluate).2 ?_)
    rw [hselector]
    exact hresult
  cases others with
  | nil => rw [hrun (.ok ()) ⟨rfl, rfl⟩]; rfl
  | cons x xs => rw [hrun (.error (FlowError.recordMultiple q.format).fault) ⟨rfl, rfl⟩]; rfl

/-- With a selector the command ends as its search does, by whatever evaluator answers for that of the search. -/
theorem execute_of_stops {evaluate : Evaluator} (h : Loads g s a c q) (hselector : q.selector ≠ "")
    (hview : q.Answers evaluate view) (hreach : q.Reaches before r after) (hstops : q.Stops before r after result) :
    s.execute (g.withEvaluate evaluate) a =
      (result.mapError (·.attach (s.suite.commandRef a)), s.running a (view (before ++ [r]) r)) := by
  obtain ⟨f, others, hfirst⟩ : ∃ f others, before ++ r :: after = f :: others := by cases before <;> exact ⟨_, _, rfl⟩
  have hrecords := hreach.split.trans hfirst
  have hnonempty : q.selector.isEmpty = false := Bool.eq_false_iff.2 fun he => hselector (String.isEmpty_iff.1 he)
  refine h.execute_eq _ ((h.loadRecord_iff hrecords evaluate).2 ?_)
  rw [hnonempty, ← hview.first f (by rw [hrecords]; exact List.mem_cons_self)]
  exact hstops.passes (g := g.withEvaluate evaluate) (s := s.running a s.vars) hview hreach before [] rfl f others
    hfirst

/-- **A load command takes the first record on which its selector holds.**  Without a selector it succeeds exactly
if the file has one record, and reads that.

With one, its search stops somewhere, and the command ends as the search does: with success at a record on which
the selector holds, or with what is wrong there.  It leaves the variables overridden by that record alone.  It asks
the selector about the records up to there, each once and in order; so about all of them if none is found.  It
succeeds exactly if the search comes to a record on which the selector holds. -/
theorem takes_first_match (h : Loads g s a c q) :
    (q.selector = "" → ∃ f others, q.records = f :: others ∧
      s.execute g a = (if others = [] then .ok ()
        else .error ((FlowError.recordMultiple q.format).fault.attach (s.suite.commandRef a)),
        s.running a (q.seen f))) ∧
    (q.selector ≠ "" → q.Unassigning →
      (∃ before r after result, q.Reaches before r after ∧ q.Stops before r after result) ∧
      (∀ before r after result, q.Reaches before r after → q.Stops before r after result →
        s.execute g a = (result.mapError (·.attach (s.suite.commandRef a)), s.running a (q.seen r)) ∧
        ∀ log, q.Omits log → s.execute (g.withEvaluate (g.evaluate.logged log)) a =
          (result.mapError (·.attach (s.suite.commandRef a)),
            s.running a ((q.seen r).insert log (.list ((before ++ [r]).map q.entry))))) ∧
      ((s.execute g a).1 = .ok () ↔ ∃ before r after, q.Reaches before r after ∧ q.answer r = .ok true)) := by
  obtain ⟨text, -, hrecords⟩ := h.records
  obtain ⟨f, others, hfirst⟩ := List.exists_cons_of_ne_nil (Record.ofText_ne_nil hrecords)
  refine ⟨fun hselector => ⟨f, others, hfirst, h.execute_of_no_selector hfirst hselector⟩, fun hselector hun => ?_⟩
  obtain ⟨before, r, after, result, hreach, hstops⟩ := (Search.Reaches.first hfirst).exists_stops
  have hrun : ∀ before r after result, q.Reaches before r after → q.Stops before r after result →
      s.execute g a = (result.mapError (·.attach (s.suite.commandRef a)), s.running a (q.seen r)) := by
    intro before r after result hreach hstops
    exact h.execute_of_stops hselector (h.evaluate ▸ hun.answers) hreach hstops
  refine ⟨⟨before, r, after, result, hreach, hstops⟩, fun before r after result hreach hstops =>
    ⟨hrun before r after result hreach hstops, fun log hlog => ?_⟩, fun hok => ?_, ?_⟩
  · rw [h.execute_of_stops hselector (h.evaluate ▸ hun.answers_logged hlog) hreach hstops]
    cases before <;> rfl
  · rw [hrun before r after result hreach hstops] at hok
    cases hstops with
    | found hanswer => exact ⟨before, r, after, hreach, hanswer⟩
    | failed | exhausted | inconsistent => cases hok
  · rintro ⟨before, r, after, hreach, hanswer⟩
    rw [hrun before r after _ hreach (.found hanswer)]
    rfl

end Loads

/-- A setting with a file of two records, in which every expression says what the variable `x` is. -/
def Setting.twoRecords : Setting where
  evaluate := fun _ vars => (.ok ((vars.get? "x").getD .null), vars)
  files := { entries := [(["d.json"], .file (some "[\x7b\"x\": false\x7d, \x7b\"x\": true\x7d]"))] }

/-- The first of two records is passed over, and the second one taken; the selector was asked about both. -/
theorem Loads.takes_second_record : ∃ (s : Session) (q : Search),
    Loads .twoRecords s ⟨0, 0⟩ { name := "loadJsonVars", target := "/d.json", value := "$x" } q ∧
      s.vars = Dict.ofList [("y", .null)] ∧
      s.execute .twoRecords ⟨0, 0⟩ =
        (.ok (), s.running ⟨0, 0⟩ (Dict.ofList [("x", .bool true), ("y", .null)])) ∧
      s.execute (Setting.twoRecords.withEvaluate (Setting.twoRecords.evaluate.logged "asked")) ⟨0, 0⟩ =
        (.ok (), s.running ⟨0, 0⟩ (Dict.ofList [("x", .bool true), ("y", .null), ("asked", .list
          [.list [.text "$x", .map [("x", .bool false), ("y", .null)]],
            .list [.text "$x", .map [("x", .bool true), ("y", .null)]]])])) := by
  let s : Session :=
    { suite := { units := [.named "main" [{ name := "loadJsonVars", target := "/d.json", value := "$x" }]] }
      vars := Dict.ofList [("y", .null)] }
  let q : Search :=
    { evaluate := Setting.twoRecords.evaluate, selector := "$x", format := .json, path := "/d.json"
      records := [Dict.ofList [("x", .bool false)], Dict.ofList [("x", .bool true)]], vars := s.vars }
  have hread : Setting.twoRecords.files.read "/d.json" = .ok "[\x7b\"x\": false\x7d, \x7b\"x\": true\x7d]" := by rfl
  have hrecords : Record.ofText .json "[\x7b\"x\": false\x7d, \x7b\"x\": true\x7d]" = .ok q.records := by
    with_unfolding_all rfl
  have h : Loads .twoRecords s ⟨0, 0⟩ { name := "loadJsonVars", target := "/d.json", value := "$x" } q :=
    ⟨rfl, ⟨.loadJsonVars, rfl, List.mem_cons_self⟩, by decide, rfl, ⟨_, hread, hrecords⟩, rfl, rfl, rfl⟩
  have hun : q.Unassigning := fun _ _ => rfl
  have hreach : q.Reaches [Dict.ofList [("x", .bool false)]] (Dict.ofList [("x", .bool true)]) [] :=
    ⟨rfl, by simp only [List.forall_mem_singleton]; exact ⟨rfl, rfl⟩, rfl⟩
  have homits : q.Omits "asked" := by
    refine ⟨rfl, fun r hr => ?_⟩
    obtain rfl | hr := List.mem_cons.1 hr
    · rfl
    · rw [List.mem_singleton.1 hr]
      rfl
  obtain ⟨-, hends, -⟩ := h.takes_first_match.2 (by decide) hun
  obtain ⟨hexecute, hlogged⟩ := hends _ _ _ _ hreach (.found rfl)
  exact ⟨s, q, h, rfl, hexecute, hlogged "asked" homits⟩

end

end Flow

end BlockFlow
