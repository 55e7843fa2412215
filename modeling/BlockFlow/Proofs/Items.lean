/-
# Items of a loop

A loop over values or records delivers each of them once, in order: at the start of its pass the item is
bound, whatever the passes before did to the variables.  `Deals` says so of what the opener does to the
loop's source, and `Moment.Reopens.exists_rounds` of the run, as long as the passes end.

A record with other fields than the first one ends the run, after the passes of the records before it.
-/
import BlockFlow.Proofs.Passes

namespace BlockFlow.Flow

open BlockFlow.Flow.Action

/-! ## 1. Sources that deal -/

/-- What an opener does, time after time, gives the variables what is listed, and comes to an end. -/
def Deals (g : Setting) (last : Except Fault Bool × LoopSource × Namespace → Prop) :
    List (Namespace → Prop) → Except Fault Bool × LoopSource × Namespace → Prop
  | [], r => last r
  | given :: items, r => ∃ source v, r = (.ok true, source, v) ∧ given v ∧
      ∀ w, Deals g last items (source.opened g true w)

/-- No pass is left. -/
def IsOver (r : Except Fault Bool × LoopSource × Namespace) : Prop := ∃ source v, r = (.ok false, source, v)

/-- The next record has other fields than the first one. -/
def IsInconsistent (r : Except Fault Bool × LoopSource × Namespace) : Prop :=
  ∃ f : Fault, r.1 = .error f ∧ f.isCatchable = false ∧ f.code = "ENGINE_RECORD_INCONSISTENT"

/-- A value is bound to a variable, and its index to the name for it. -/
def Numbered (var : String) (item : Value × Nat) (v : Namespace) : Prop :=
  v.get? var = some item.1 ∧ v.get? Namespace.indexName = some (.number item.2.toFloat)

/-- The fields of a record are bound to their values. -/
def Fielded (r : Record) (v : Namespace) : Prop := ∀ name x, r.get? name = some x → v.get? name = some x

section

variable {g : Setting} {last : Except Fault Bool × LoopSource × Namespace → Prop}

/-- A loop over values deals those from its index on. -/
theorem deals_values {var : String} {items : List Value} (hvar : var ≠ Namespace.indexName) :
    ∀ {left : List Value} {index : Nat} (w : Namespace), items.drop index = left →
      Deals g IsOver ((left.zipIdx index).map (Numbered var))
        ((LoopSource.values var items index).tested g (LoopSource.itemBound var items index w))
  | [], index, w, hleft => by
    have hlen : ¬index < items.length := by
      have := congrArg List.length hleft
      rw [List.length_drop, List.length_nil] at this
      omega
    refine ⟨_, _, Prod.ext ?_ rfl⟩
    exact congrArg Except.ok (decide_eq_false hlen)
  | item :: left, index, w, hleft => by
    have hitem : items[index]? = some item := by
      rw [← List.head?_drop, hleft, List.head?_cons]
    have hlen : index < items.length := (List.getElem?_eq_some_iff.1 hitem).1
    rw [List.zipIdx_cons, List.map_cons]
    refine ⟨_, _, Prod.ext (congrArg Except.ok (decide_eq_true hlen)) rfl, ?_, fun w' => ?_⟩
    · unfold LoopSource.itemBound
      rw [hitem]
      dsimp only
      exact ⟨by rw [Dict.get?_insert, if_neg hvar, Dict.get?_insert, if_pos rfl],
        by rw [Dict.get?_insert, if_pos rfl]⟩
    · refine deals_values hvar w' ?_
      rw [← List.drop_drop, hleft, List.drop_one, List.tail_cons]

/-- A loop over records deals those that have the fields of the first one. -/
theorem deals_records {records after : List Record} {fields : List String}
    (hend : ∀ (cursor : DataCursor) w, cursor.records = records → records.drop cursor.position = after →
      last ((LoopSource.records cursor).tested g w)) :
    ∀ {before : List Record} {cursor : DataCursor} (w : Namespace), cursor.records = records →
      cursor.fields = fields → records.drop cursor.position = before ++ after →
      (∀ r ∈ before, r.keys = fields) →
      Deals g last (before.map Fielded) ((LoopSource.records cursor).tested g w)
  | [], cursor, w, hrecords, _, hleft, _ => hend cursor w hrecords hleft
  | r :: before, cursor, w, hrecords, hfields, hleft, hkeys => by
    have hr : cursor.records[cursor.position]? = some r := by
      rw [hrecords, ← List.head?_drop, hleft, List.cons_append, List.head?_cons]
    have hat : ¬cursor.atEnd = true := by
      have := (List.getElem?_eq_some_iff.1 hr).1
      simp only [DataCursor.atEnd, decide_eq_true_eq]
      omega
    have hnext : cursor.next w = .ok ({ cursor with position := cursor.position + 1 }, w.insertAll r.toList) := by
      unfold DataCursor.next
      rw [hr]
      dsimp only
      rw [if_pos (by rw [hkeys r List.mem_cons_self, hfields])]
    have htested : (LoopSource.records cursor).tested g w =
        (.ok true, .records { cursor with position := cursor.position + 1 }, w.insertAll r.toList) := by
      unfold LoopSource.tested
      dsimp only
      rw [if_neg hat, hnext]
    rw [htested, List.map_cons]
    refine ⟨_, _, rfl, fun name x hx => ?_, fun w' => ?_⟩
    · rw [Dict.get?_insertAll_toList, hx]
      rfl
    · refine deals_records hend w' hrecords hfields ?_ fun r' hr' => hkeys r' (List.mem_cons_of_mem _ hr')
      rw [← List.drop_drop, hleft, List.cons_append, List.drop_one, List.tail_cons]

/-- Loading a file moves before its first record. -/
theorem position_of_load {c c' : DataCursor} {files : Files} {path : String} (h : c.load files path = .ok c') :
    c'.position = 0 := by
  unfold DataCursor.load at h
  split at h
  · cases h
  · split at h <;> cases h
    rfl

/-- At the end of the file no record is left. -/
theorem isOver_of_records {cursor : DataCursor} {w : Namespace} (h : cursor.records.drop cursor.position = []) :
    IsOver ((LoopSource.records cursor).tested g w) := by
  have hat : cursor.atEnd = true := by
    rw [List.drop_eq_nil_iff] at h
    simpa [DataCursor.atEnd] using h
  refine ⟨.records cursor, w, ?_⟩
  unfold LoopSource.tested
  dsimp only
  rw [if_pos hat]

/-- A record with other fields than the first one is not taken. -/
theorem isInconsistent_of_records {cursor : DataCursor} {w : Namespace} {r : Record} {after : List Record}
    (h : cursor.records.drop cursor.position = r :: after) (hr : r.keys ≠ cursor.fields) :
    IsInconsistent ((LoopSource.records cursor).tested g w) := by
  have hat : cursor.records[cursor.position]? = some r := by rw [← List.head?_drop, h, List.head?_cons]
  have hnot : ¬cursor.atEnd = true := by
    have := (List.getElem?_eq_some_iff.1 hat).1
    simp only [DataCursor.atEnd, decide_eq_true_eq]
    omega
  have hnext : cursor.next w =
      .error (.inconsistent cursor.format (cursor.position + 1) cursor.fields r.keys) := by
    unfold DataCursor.next
    rw [hat]
    dsimp only
    rw [if_neg hr]
  unfold LoopSource.tested
  dsimp only
  rw [if_neg hnot, hnext]
  exact ⟨_, rfl, rfl, rfl⟩

/-! ## 2. Headers -/

variable {s : Session}

/-- The header of a loop over values. -/
theorem foreachHeader_gives {target value : String} {v : Value}
    (hname : Text.isLetteredName (dropDollar target) = true) (hvalue : value ≠ "")
    (hv : (g.evaluate ("[" ++ value ++ "]") s.vars).1 = .ok v) :
    (foreachHeader g target value).Ends s fun r t =>
      r = .ok ⟨.values (dropDollar target) (loopValues v) 0, [dropDollar target, Namespace.indexName]⟩ ∧
        t = s.withVars (g.evaluate ("[" ++ value ++ "]") s.vars).2 := by
  have hvar : (dropDollar target).isEmpty = false := by
    refine Bool.eq_false_iff.2 fun hempty => ?_
    rw [String.isEmpty_iff.1 hempty] at hname
    cases hname
  have hname' : checkName (dropDollar target) "foreach variable" = .ok () := by
    unfold checkName
    rw [if_pos hname]
  have hvalue' : value.isEmpty = false := Bool.eq_false_iff.2 fun h => hvalue (String.isEmpty_iff.1 h)
  unfold foreachHeader
  dsimp only
  rw [hvar, hname', hvalue']
  simp only [Bool.false_eq_true, if_false]
  rw [ends_bind]
  exact Ends.evaluate_of_ok hv ⟨rfl, rfl⟩

/-- The header of a loop over records. -/
theorem recordsHeader_gives {a : Address} {k : Keyword} {format : DataFormat} {target : String}
    {cursor : DataCursor} (htarget : target ≠ "")
    (hload : (DataCursor.new format).load g.files (dataPath g s a.unit target) = .ok cursor) :
    (recordsHeader g a k format target).Ends s fun r t =>
      r = .ok ⟨.records cursor, cursor.fields⟩ ∧ t = s.withVars s.vars := by
  have htarget' : target.isEmpty = false := Bool.eq_false_iff.2 fun h => htarget (String.isEmpty_iff.1 h)
  unfold recordsHeader
  dsimp only
  rw [htarget']
  simp only [Bool.false_eq_true, if_false]
  rw [ends_bind, ends_ask]
  dsimp only
  rw [hload]
  exact ⟨rfl, rfl⟩

end

/-! ## 3. Passes for the items -/

section

variable {σ : Type} {g : Setting} {host : Host σ} {m₀ m : Moment σ} {a e : Address} {l : LoopFrame}
  {rest : List Frame} {post : List (List Frame)} {last : Except Fault Bool × LoopSource × Namespace → Prop}

/-- Every pass of the loop at an address that begins after passes that have ended does end. -/
def PassesEnd (g : Setting) (host : Host σ) (a : Address) (rest : List Frame) (post : List (List Frame))
    (m : Moment σ) : Prop :=
  ∀ passes m' b, Rounds g host a rest post passes m m' → m'.advance g host = some (.done, b) →
    b.BeginsPass a rest post → ∃ z, Pass g host a rest post b z

/-- **A loop makes one pass for each item** that its opener deals, in order. -/
theorem Moment.Reopens.exists_rounds {items : List (Namespace → Prop)}
    {r : Except Fault Bool × LoopSource × Namespace} (h : m.Reopens g host a e rest post l r) (hm₀ : m₀.Starts)
    (hreach : Reachable g host m₀ m) (hdeals : Deals g last items r) (he : m.session.suite.Construct a e)
    (hpasses : PassesEnd g host a rest post m) : ∃ passes m' l' r', Rounds g host a rest post passes m m' ∧
      List.Forall₂ (fun p given => given p.1.session.vars) passes items ∧ Reachable g host m₀ m' ∧
      m'.Reopens g host a e rest post l' r' ∧ last r' := by
  induction items generalizing m l r with
  | nil => exact ⟨[], m, l, r, .none, .nil, hreach, h, hdeals⟩
  | cons given items ih =>
    obtain ⟨source, v, rfl, hgiven, hlater⟩ := hdeals
    obtain ⟨b, hadv, hreachb, top, hbegins, hvars⟩ := h.begins hm₀ hreach
    obtain ⟨z, hpass⟩ := hpasses [] m b .none hadv hbegins
    have heb : b.session.suite.Construct a e := by
      rw [hreachb.suite hm₀, ← hreach.suite hm₀]
      exact he
    obtain ⟨hreachz, hez, hreopens⟩ := hpass.reopens hm₀ hreachb top h.opener h.back heb
    obtain ⟨passes, m', l', r', hrounds, hitems, hreach', hreopens', hlast⟩ := ih hreopens hreachz
      (hlater z.session.vars) hez
      fun passes m' b' hrounds => hpasses ((b, z) :: passes) m' b' (.pass hadv hbegins hpass hrounds)
    exact ⟨(b, z) :: passes, m', l', r', .pass hadv hbegins hpass hrounds, .cons (by rw [hvars]; exact hgiven) hitems,
      hreach', hreopens', hlast⟩

/-- How a loop over values or records ends. -/
inductive LoopEnd
  | exhausted
  | inconsistent

/-- What its opener does at last. -/
def LoopEnd.Means : LoopEnd → Except Fault Bool × LoopSource × Namespace → Prop
  | .exhausted => IsOver
  | .inconsistent => IsInconsistent

/-- **What a loop has to deliver** when it is reached from outside: what holds of the variables at the starts
of its passes, and how it then ends. -/
inductive Supplies (g : Setting) (s : Session) (a : Address) (k : Keyword) (c : Command) :
    List (Namespace → Prop) → LoopEnd → Prop
  | values {v : Value} (keyword : k = .foreach)
      (name : Text.isLetteredName (dropDollar (Text.trim c.target)) = true) (nonempty : Text.trim c.value ≠ "")
      (evaluated : (g.evaluate ("[" ++ Text.trim c.value ++ "]") s.vars).1 = .ok v) :
      Supplies g s a k c ((loopValues v).zipIdx.map (Numbered (dropDollar (Text.trim c.target)))) .exhausted
  | records {format : DataFormat} {cursor : DataCursor}
      (keyword : (k, format) ∈ [(Keyword.forJson, DataFormat.json), (Keyword.forXml, DataFormat.xml)])
      (file : Text.trim c.target ≠ "")
      (load : (DataCursor.new format).load g.files (dataPath g s a.unit (Text.trim c.target)) = .ok cursor)
      (consistent : ∀ r ∈ cursor.records, r.keys = cursor.fields) :
      Supplies g s a k c (cursor.records.map Fielded) .exhausted
  | inconsistent {format : DataFormat} {cursor : DataCursor} {before after : List Record} {r : Record}
      (keyword : (k, format) ∈ [(Keyword.forJson, DataFormat.json), (Keyword.forXml, DataFormat.xml)])
      (file : Text.trim c.target ≠ "")
      (load : (DataCursor.new format).load g.files (dataPath g s a.unit (Text.trim c.target)) = .ok cursor)
      (split : cursor.records = before ++ r :: after) (consistent : ∀ r ∈ before, r.keys = cursor.fields)
      (other : r.keys ≠ cursor.fields) : Supplies g s a k c (before.map Fielded) .inconsistent

/-- **How the run goes on at the opener of a loop that has no pass left**: by way of the closer to the command
behind it, with the constructs around the loop; or it fails at a record with other fields. -/
def Moment.Finishes (g : Setting) (host : Host σ) (m : Moment σ) (e : Address) (around : List (List Frame)) :
    LoopEnd → Prop
  | .exhausted => ∃ m₁ m₂, m.advance g host = some (.done, m₁) ∧ m₁.next? = some e ∧
      m₁.advance g host = some (.done, m₂) ∧ m₂.session.blockStacks = around ∧ m₂.session.pending = none ∧
      m₂.following = e.next
  | .inconsistent => ∃ f m₁, m.advance g host = some (.unhandled f, m₁) ∧ f.code = "ENGINE_RECORD_INCONSISTENT"

/-- An opener that has come to the end of its loop. -/
theorem Moment.Reopens.finishes {fin : LoopEnd} {r : Except Fault Bool × LoopSource × Namespace}
    (h : m.Reopens g host a e rest post l r) (hm₀ : m₀.Starts) (hreach : Reachable g host m₀ m)
    (he : m.session.suite.Construct a e) (hends : fin.Means r) : m.Finishes g host e (rest :: post) fin := by
  cases fin with
  | exhausted =>
    obtain ⟨source, v, rfl⟩ := hends
    obtain ⟨m₁, hadv, top, -, hpending, hexit, -⟩ := h.done _ _ _ rfl
    have hreach₁ := hreach.step hadv nofun (hexit.trans (hreach.exitRequested hm₀))
    have hnext : m₁.next? = some e := by rw [Moment.next?, hpending]; rfl
    have hsuite : m₁.session.suite = m.session.suite := (hreach₁.suite hm₀).trans (hreach.suite hm₀).symm
    obtain ⟨m₂, hadv₂, hafter, -, hpending₂, hfollow, -⟩ := hreach₁.leaves_loop hm₀ top rfl hnext
      (by rw [hsuite]; exact h.opener ▸ he)
    exact ⟨m₁, m₂, hadv, hnext, hadv₂, hafter, hpending₂, hfollow⟩
  | inconsistent =>
    obtain ⟨f, hf, huncatchable, hcode⟩ := hends
    obtain ⟨f', m', hadv, hcode'⟩ := (h.failed f hf).2 huncatchable
    exact ⟨f', m', hadv, hcode'.trans hcode⟩

variable (host) in
/-- A loop over records is entered with the cursor of its file. -/
theorem enters_records {k : Keyword} {c : Command} {format : DataFormat} {cursor : DataCursor}
    (ha : m.next? = some a) (hc : m.session.suite.commandAt? a = some c)
    (hof : Keyword.ofName? c.name = some (k, false)) (hfresh : isReentering a m.session = false)
    (he : m.session.suite.Construct a e)
    (keyword : (k, format) ∈ [(Keyword.forJson, DataFormat.json), (Keyword.forXml, DataFormat.xml)])
    (file : Text.trim c.target ≠ "")
    (load : (DataCursor.new format).load g.files (dataPath g m.session a.unit (Text.trim c.target)) = .ok cursor) :
    ∃ h : LoopHeader, h.source = .records cursor ∧
      m.Reopens g host a e m.session.blocks (m.session.outer.map Level.blocks) (h.frame a m.session.vars)
        (h.source.opened g false (h.bound m.session.vars)) := by
  have hheader (k : Keyword) : (recordsHeader g a k format (Text.trim c.target)).Ends (m.session.poise (some a))
      fun r t => r = .ok ⟨.records cursor, cursor.fields⟩ ∧
        t = (m.session.poise (some a)).withVars m.session.vars := recordsHeader_gives file load
  simp only [List.mem_cons, Prod.mk.injEq, List.not_mem_nil, or_false] at keyword
  refine ⟨⟨.records cursor, cursor.fields⟩, rfl, ?_⟩
  obtain ⟨rfl, rfl⟩ | ⟨rfl, rfl⟩ := keyword
  · exact Reachable.enters host ha hc hof hfresh he rfl (hheader _)
  · exact Reachable.enters host ha hc hof hfresh he rfl (hheader _)

/-- **Loops deliver every item once, in order.**  A loop over values or over records that is reached from
outside makes exactly one pass for each item, whatever its body does to the variables, as long as the passes
end; at the start of its pass the item is bound.  Then the run goes on behind the closer, or it fails at the
first record with other fields than the first one. -/
theorem loop_delivers_every_item {c : Command} {k : Keyword} {items : List (Namespace → Prop)} {fin : LoopEnd}
    (hm₀ : m₀.Starts) (hreach : Reachable g host m₀ m) (ha : m.next? = some a)
    (hc : m.session.suite.commandAt? a = some c) (hof : Keyword.ofName? c.name = some (k, false))
    (hfresh : isReentering a m.session = false) (he : m.session.suite.Construct a e)
    (hsupplies : Supplies g m.session a k c items fin)
    (hpasses : PassesEnd g host a m.session.blocks (m.session.outer.map Level.blocks) m) :
    ∃ passes m', Rounds g host a m.session.blocks (m.session.outer.map Level.blocks) passes m m' ∧
      List.Forall₂ (fun p given => given p.1.session.vars) passes items ∧
      m'.Finishes g host e m.session.blockStacks fin := by
  -- whatever the loop is over, its opener enters it, and then deals the items
  obtain ⟨h, v, henters, hdeals⟩ : ∃ (h : LoopHeader) (v : Namespace),
      m.Reopens g host a e m.session.blocks (m.session.outer.map Level.blocks) (h.frame a v)
        (h.source.opened g false (h.bound v)) ∧
      Deals g fin.Means items (h.source.opened g false (h.bound v)) := by
    cases hsupplies with
    | values keyword name nonempty evaluated =>
      subst keyword
      have hvar : dropDollar (Text.trim c.target) ≠ Namespace.indexName := by
        intro hvar
        rw [hvar] at name
        exact absurd name (by decide)
      exact ⟨_, _, Reachable.enters host ha hc hof hfresh he rfl (foreachHeader_gives name nonempty evaluated),
        deals_values hvar _ rfl⟩
    | records keyword file load consistent =>
      obtain ⟨h, hsource, henters⟩ := enters_records host ha hc hof hfresh he keyword file load
      refine ⟨h, _, henters, ?_⟩
      rw [hsource]
      exact deals_records (fun cursor w hrecords hleft => isOver_of_records (hrecords ▸ hleft)) _ rfl rfl
        (by rw [position_of_load load, List.drop_zero, List.append_nil]) consistent
    | @inconsistent format cursor before after r keyword file load split consistent other =>
      obtain ⟨h, hsource, henters⟩ := enters_records host ha hc hof hfresh he keyword file load
      refine ⟨h, _, henters, ?_⟩
      rw [hsource]
      refine deals_records (fun cursor' w hrecords hleft => isInconsistent_of_records (hrecords ▸ hleft) ?_) _ rfl rfl
        (by rw [position_of_load load, List.drop_zero, split]) consistent
      rw [DataCursor.fields, hrecords]
      exact other
  obtain ⟨passes, m', l', r', hrounds, hitems, hreach', hreopens, hends⟩ :=
    henters.exists_rounds hm₀ hreach hdeals he hpasses
  refine ⟨passes, m', hrounds, hitems, ?_⟩
  have hsuite : m'.session.suite = m.session.suite := (hreach'.suite hm₀).trans (hreach.suite hm₀).symm
  rw [m.session.blockStacks_eq]
  exact hreopens.finishes hm₀ hreach' (hsuite ▸ he) hends

/-- A setting in which every expression gives two values. -/
def Setting.giving : Setting := ⟨fun _ vars => (.ok (.list [.null, .bool true]), vars), {}, none⟩

/-- A loop over two values makes two passes. -/
theorem loop_over_two_values : ∃ (m₀ m' : Moment Unit) (passes : List (Moment Unit × Moment Unit)),
    Moment.ofUnits [.named "main" [{ name := "foreach", target := "x", value := "a, b" },
      { name := "endForeach" }]] = .ok m₀ ∧ m₀.next? = some ⟨0, 0⟩ ∧
    Rounds .giving silent ⟨0, 0⟩ [] [] passes m₀ m' ∧
    List.Forall₂ (fun p given => given p.1.session.vars) passes
      [Numbered "x" (.null, 0), Numbered "x" (.bool true, 1)] ∧
    m'.Finishes .giving silent ⟨0, 1⟩ [[]] .exhausted := by
  have hvalue (v : Namespace) : (Setting.giving.evaluate ("[" ++ Text.trim "a, b" ++ "]") v).1 =
      .ok (.list [.null, .bool true]) := rfl
  obtain ⟨m₀, b₁, z₁, b₂, z₂, m₁, hm₀, hnext, hb, ho, hcmd, hfresh, he, hadv₁, hbegins₁, hz₁, hx₁, hback₁, hadv₂, hbegins₂,
      hz₂, hx₂, hback₂, hover, hpending⟩ : ∃ m₀ b₁ z₁ b₂ z₂ m₁ : Moment Unit,
      Moment.ofUnits [.named "main" [{ name := "foreach", target := "x", value := "a, b" },
        { name := "endForeach" }]] = .ok m₀ ∧ m₀.next? = some ⟨0, 0⟩ ∧
      m₀.session.blocks = [] ∧ m₀.session.outer.map Level.blocks = [] ∧
      m₀.session.suite.commandAt? ⟨0, 0⟩ = some { name := "foreach", target := "x", value := "a, b" } ∧
      isReentering ⟨0, 0⟩ m₀.session = false ∧ m₀.session.suite.Construct ⟨0, 0⟩ ⟨0, 1⟩ ∧
      m₀.advance .giving silent = some (.done, b₁) ∧ b₁.BeginsPass ⟨0, 0⟩ [] [] ∧
      b₁.advance .giving silent = some (.done, z₁) ∧ z₁.session.exitRequested = false ∧ z₁.SentBack ⟨0, 0⟩ [] [] ∧
      z₁.advance .giving silent = some (.done, b₂) ∧ b₂.BeginsPass ⟨0, 0⟩ [] [] ∧
      b₂.advance .giving silent = some (.done, z₂) ∧ z₂.session.exitRequested = false ∧ z₂.SentBack ⟨0, 0⟩ [] [] ∧
      z₂.advance .giving silent = some (.done, m₁) ∧ m₁.session.pending = some ⟨0, 1⟩ :=
    ⟨_, _, _, _, _, _, rfl, rfl, rfl, rfl, rfl, rfl, ⟨_, rfl, rfl, rfl⟩, rfl, ⟨⟨_, rfl, rfl, rfl, rfl⟩, rfl, rfl⟩, rfl, rfl,
      ⟨_, rfl, rfl, rfl, rfl, rfl⟩, rfl, ⟨⟨_, rfl, rfl, rfl, rfl⟩, rfl, rfl⟩, rfl, rfl, ⟨_, rfl, rfl, rfl, rfl, rfl⟩, rfl,
      rfl⟩
  have hpass {b z : Moment Unit} (hb : b.BeginsPass ⟨0, 0⟩ [] []) (hadv : b.advance .giving silent = some (.done, z))
      (hx : z.session.exitRequested = false) (hback : z.SentBack ⟨0, 0⟩ [] []) :
      Pass .giving silent ⟨0, 0⟩ [] [] b z := by
    obtain ⟨l, top, hl⟩ := hb.top
    exact ⟨.step .start ⟨l, .of_top top, hl⟩ hadv nofun hx, hback⟩
  have hpass₁ := hpass hbegins₁ hz₁ hx₁ hback₁
  have hpass₂ := hpass hbegins₂ hz₂ hx₂ hback₂
  -- the passes are these two
  have hpasses : PassesEnd .giving silent ⟨0, 0⟩ [] [] m₀ := by
    rintro passes m' b hrounds hadv hbegins
    cases hrounds with
    | none =>
      cases hadv.symm.trans hadv₁
      exact ⟨_, hpass₁⟩
    | pass opens begins runs further =>
      cases opens.symm.trans hadv₁
      cases runs.unique hpass₁
      cases further with
      | none =>
        cases hadv.symm.trans hadv₂
        exact ⟨_, hpass₂⟩
      | pass opens begins runs further =>
        cases opens.symm.trans hadv₂
        cases runs.unique hpass₂
        cases further with
        | none =>
          cases hadv.symm.trans hover
          cases hpending.symm.trans hbegins.pending
        | pass opens begins runs further =>
          cases opens.symm.trans hover
          cases hpending.symm.trans begins.pending
  obtain ⟨passes, m', hrounds, hitems, hfinishes⟩ := loop_delivers_every_item (starts_ofUnits hm₀) .start hnext hcmd rfl
    hfresh he (.values rfl (by decide) (by decide) (hvalue _)) (by rw [hb, ho]; exact hpasses)
  rw [hb, ho] at hrounds
  rw [Session.blockStacks_eq, hb, ho] at hfinishes
  exact ⟨m₀, m', passes, hm₀, hnext, hrounds, hitems, hfinishes⟩

end

end BlockFlow.Flow
