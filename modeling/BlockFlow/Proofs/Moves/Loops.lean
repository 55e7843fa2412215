/-
# Moves of loops

A loop is entered at its opener, which also begins every other pass once the closer or a `continue` has
sent the run back there.  The names that a loop binds are those that it saved (`LoopHeader.Own`), and its
source is the only thing that a pass changes in its frame (`LoopFrame.Same`).
-/
import BlockFlow.Proofs.Moves

namespace BlockFlow.Flow

section

open BlockFlow.Flow.Action

variable {g : Setting} {a : Address} {s : Session}

/-- The same loop, apart from its source and from whether a pass is left. -/
structure LoopFrame.Same (l l' : LoopFrame) : Prop where
  opener : l'.opener = l.opener
  saved : l'.saved = l.saved
  reentering : l'.reentering = l.reentering
  binds : ∀ name, l'.source.Binds name → l.source.Binds name

/-- A loop's own names are those that its source binds. -/
def LoopHeader.Own (h : LoopHeader) : Prop := ∀ name, h.source.Binds name → name ∈ h.names

theorem whileHeader_own {cond : String} {h : LoopHeader} (hh : whileHeader cond = .ok h) : h.Own := by
  unfold whileHeader at hh
  split at hh
  · cases hh
  · cases hh
    exact nofun

theorem forHeader_own {target : String} {h : LoopHeader} (hh : forHeader target = .ok h) : h.Own := by
  unfold forHeader at hh
  split at hh
  · rename_i init cond iterate _
    dsimp only at hh
    split at hh
    · cases hh
    · cases hn : headerVariables 1 (Text.splitTopLevel ',' init) with
      | error e =>
        rw [hn] at hh
        cases hh
      | ok names =>
        rw [hn] at hh
        cases hh
        exact nofun
  · cases hh

theorem foreachHeader_own (target value : String) :
    (foreachHeader g target value).Ends s fun r _ => ∀ h, r = .ok h → h.Own := by
  unfold foreachHeader
  dsimp only
  split
  · exact nofun
  · split
    · exact nofun
    · split
      · exact nofun
      · rw [ends_bind, ends_evaluate]
        rcases g.evaluate ("[" ++ value ++ "]") s.vars with ⟨e | v, vars⟩
        · exact nofun
        · rintro h ⟨⟩ name (rfl | rfl)
          · exact List.mem_cons_self
          · exact List.mem_cons_of_mem _ List.mem_cons_self

theorem recordsHeader_own (k : Keyword) (format : DataFormat) (target : String) :
    (recordsHeader g a k format target).Ends s fun r _ => ∀ h, r = .ok h → h.Own := by
  unfold recordsHeader
  split
  · exact nofun
  · rw [ends_bind, ends_ask]
    dsimp only
    split
    · exact nofun
    · rintro h ⟨⟩ name hname
      exact hname

/-- What a step of a loop's source may change. -/
theorem setSource_ends {Q : Except Fault Unit → Session → Prop} {l : LoopFrame} {rest : List Frame}
    (hs : s.blocks = .loop l :: rest) (source : LoopSource)
    (hQ : Q (.ok ()) (s.setBlocks (.loop { l with source } :: rest))) : (setSource source).Ends s Q := by
  rw [setSource, ends_change, Session.updateLoop, Session.updateTop, hs]
  exact hQ

/-- The cursor of a file still has the fields of the file when a record was taken. -/
theorem fields_of_next {cursor cursor' : DataCursor} {v w : Namespace} (h : cursor.next v = .ok (cursor', w)) :
    cursor'.fields = cursor.fields := by
  unfold DataCursor.next at h
  split at h
  · cases h
  · split at h
    · cases h
      rfl
    · cases h

theorem advance_ends {Q : Except Fault Unit → Session → Prop} {l : LoopFrame} {rest : List Frame}
    (hs : s.blocks = .loop l :: rest)
    (hQ : ∀ r source v, (∀ name, source.Binds name → l.source.Binds name) →
      Q r ((s.setBlocks (.loop { l with source } :: rest)).withVars v)) :
    (l.source.advance g).Ends s Q := by
  have hsame : s.setBlocks (.loop { l with source := l.source } :: rest) = s := by
    rw [← hs, Session.setBlocks_blocks]
  have hstay := hsame ▸ fun r v => hQ r l.source v fun _ => id
  generalize hsource : l.source = source at hQ ⊢
  cases source with
  | holding cond => exact hstay _ s.vars
  | records cursor => exact hstay _ s.vars
  | counted init cond iterate => exact (OnlyVars.evaluateAll g iterate).ends hstay
  | values var items index =>
    unfold LoopSource.advance
    rw [ends_bind]
    exact setSource_ends hs _ ((OnlyVars.bindItem var items (index + 1)).ends fun r v => hQ r _ v fun _ => id)

theorem hasPass_ends {Q : Except Fault Bool → Session → Prop} {l : LoopFrame} {rest : List Frame}
    (hs : s.blocks = .loop l :: rest)
    (hQ : ∀ r source v, (∀ name, source.Binds name → l.source.Binds name) →
      Q r ((s.setBlocks (.loop { l with source } :: rest)).withVars v)) :
    (l.source.hasPass g).Ends s Q := by
  have hsame : s.setBlocks (.loop { l with source := l.source } :: rest) = s := by
    rw [← hs, Session.setBlocks_blocks]
  have hstay := hsame ▸ fun r v => hQ r l.source v fun _ => id
  generalize hsource : l.source = source at hQ ⊢
  cases source with
  | holding cond => exact (OnlyVars.condition g cond).ends hstay
  | counted init cond iterate => exact (OnlyVars.condition g cond).ends hstay
  | values var items index =>
    exact ((OnlyVars.bindName Namespace.indexName _).bind fun _ => OnlyVars.pure _).ends hstay
  | records cursor =>
    simp only [LoopSource.hasPass]
    split
    · exact hstay _ s.vars
    · rw [ends_bind, ends_ask]
      dsimp only
      split
      · exact hstay _ s.vars
      · rename_i cursor' vars hnext
        rw [ends_bind, ends_change]
        dsimp only
        rw [ends_bind]
        refine setSource_ends (s := s.withVars vars) (by simpa using hs) _ ?_
        rw [Session.setBlocks_withVars]
        refine hQ _ _ _ fun name hname => ?_
        rw [LoopSource.Binds, fields_of_next hnext] at hname
        exact hname

/-- Beginning a pass of the innermost loop, or going on at its closer. -/
theorem beginPass_ends {Q : Except Fault Unit → Session → Prop} {l : LoopFrame} {rest : List Frame}
    {k : Keyword} (hn : s.suite.Nested) (hp : s.pending = none) (hs : s.blocks = .loop l :: rest)
    {b : Block} (hb : s.suite.blockAt? a = some b) (hns : b.nature?.isSome)
    (hQ : ∀ r l' p? v, LoopFrame.Same l l' → (∀ p, p? = some p → s.suite.IsPart a p) →
      Q r ((s.setBlocks (.loop l' :: rest)).proceed p? v)) :
    (beginPass g a k).Ends s Q := by
  obtain ⟨e, he⟩ := hn.closed hb hns
  have hpend (bs : List Frame) : (s.setBlocks bs).pending = none := (s.kept_setBlocks bs).pending.trans hp
  unfold beginPass
  simp only [ends_bind]
  unfold topLoop
  simp only [ends_bind, ends_ask, hs, ends_pure]
  refine hasPass_ends hs fun r source v hbinds => ?_
  cases r with
  | error f =>
    rw [Session.withVars_eq_proceed (hpend _)]
    exact hQ _ _ none v ⟨rfl, rfl, rfl, hbinds⟩ (by rintro _ ⟨⟩)
  | ok more =>
    have hupdate : ((s.setBlocks (.loop { l with source } :: rest)).withVars v).updateLoop
        (fun l => { l with complete := !more }) =
        (s.setBlocks (.loop { l with source, complete := !more } :: rest)).withVars v := by
      rw [Session.updateLoop, Session.updateTop, Session.blocks_withVars, Session.blocks_setBlocks]
      dsimp only
      rw [Session.setBlocks_withVars, Session.setBlocks_setBlocks]
    dsimp only
    rw [ends_change, hupdate]
    dsimp only
    split
    · rw [ends_bind]
      refine Ends.block (b := b) ?_ (Ends.goToPart he ?_)
      · rw [Session.suite_withVars, Session.suite_setBlocks, hb]
      · rw [Session.branch_withVars]
        refine hQ _ _ (some e) v ⟨rfl, rfl, rfl, hbinds⟩ ?_
        rintro p ⟨⟩
        exact hn.isPart_closer ⟨b, hb, hns, he⟩
    · rw [ends_pure, Session.withVars_eq_proceed (hpend _)]
      exact hQ _ _ none v ⟨rfl, rfl, rfl, hbinds⟩ (by rintro _ ⟨⟩)

/-- An opener is to begin another pass of the innermost loop. -/
theorem isReentering_iff : isReentering a s = true ↔
    ∃ l rest, s.blocks = .loop l :: rest ∧ l.opener = a ∧ l.reentering = true := by
  unfold isReentering
  split
  · rename_i l rest hs
    rw [Bool.and_eq_true, beq_iff_eq]
    refine ⟨fun h => ⟨l, rest, hs, h⟩, ?_⟩
    rintro ⟨l', rest', hs', h⟩
    cases hs.symm.trans hs'
    exact h
  · rename_i hno
    exact iff_of_false Bool.false_ne_true fun ⟨l, rest, hs, _⟩ => hno l rest hs

/-- The opener of the innermost loop begins another pass. -/
theorem reenterLoop_move (h : s.Ready) {b : Block} (hb : s.suite.blockAt? a = some b)
    (hns : b.nature?.isSome) (hback : isReentering a s = true) (k : Keyword) :
    Ends (do
      change fun s => s.updateLoop fun l => { l with reentering := false }
      (← topLoop).source.advance g
      beginPass g a k) s (Move a s) := by
  obtain ⟨l, rest, hs, hopener, hre⟩ := isReentering_iff.1 hback
  have hpend (bs : List Frame) : (s.setBlocks bs).pending = none :=
    (s.kept_setBlocks bs).pending.trans h.pending
  have hupdate : s.updateLoop (fun l => { l with reentering := false }) =
      s.setBlocks (.loop { l with reentering := false } :: rest) := by
    rw [Session.updateLoop, Session.updateTop, hs]
  unfold topLoop
  simp only [ends_bind, ends_change, hupdate, ends_ask, Session.blocks_setBlocks, ends_pure]
  refine advance_ends (l := { l with reentering := false }) (Session.blocks_setBlocks _ _) fun r source v hbinds => ?_
  rw [Session.setBlocks_setBlocks]
  cases r with
  | error f =>
    rw [Session.withVars_eq_proceed (hpend _)]
    exact .again hs hopener hre rfl rfl rfl (by rintro _ ⟨⟩) hbinds
  | ok _ =>
    refine beginPass_ends (b := b) (l := { l with reentering := false, source })
      ?_ (hpend _) (Session.blocks_setBlocks _ (_ :: rest)) ?_ hns ?_
    · rw [Session.suite_withVars, Session.suite_setBlocks]
      exact h.nested
    · rw [Session.suite_withVars, Session.suite_setBlocks, hb]
    · intro r l' p? w hsame hp
      rw [Session.suite_withVars, Session.suite_setBlocks] at hp
      rw [Session.setBlocks_withVars, Session.setBlocks_setBlocks]
      exact .again (v := w) hs hopener hre hsame.opener hsame.saved hsame.reentering hp fun name hname =>
        hbinds name (hsame.binds name hname)

/-- The opener of a loop that is reached from outside enters the loop. -/
theorem enterLoop_move {header : Action LoopHeader} (h : s.Ready) {b : Block}
    (hb : s.suite.blockAt? a = some b) (hn : b.nature? = some .loop) (hheader : header.OnlyVars)
    (hown : header.Ends s fun r _ => ∀ h, r = .ok h → h.Own) (hfresh : ¬isReentering a s = true) (k : Keyword) :
    Ends (do
      let h ← header
      pushLoop a h
      h.source.begin g
      beginPass g a k) s (Move a s) := by
  have hagain : ∀ l rest, s.blocks = .loop l :: rest → l.reentering → l.opener ≠ a :=
    fun l rest hs hl ho => hfresh (isReentering_iff.2 ⟨l, rest, hs, ho, hl⟩)
  have hpend (bs : List Frame) : (s.setBlocks bs).pending = none :=
    (s.kept_setBlocks bs).pending.trans h.pending
  obtain ⟨v, hv⟩ := hheader s
  rw [ends_bind]
  unfold Ends at hown ⊢
  rw [hv]
  generalize (header s).1 = r at hown ⊢
  cases r with
  | error f =>
    dsimp only
    rw [Session.withVars_eq_proceed h.pending]
    exact .stay (by rintro ⟨⟩)
  | ok header =>
    let l : LoopFrame :=
      { opener := a
        source := header.source
        saved := Dict.ofList (header.names.map fun name => (name, v.get? name)) }
    have hfits : Frame.Fits s.suite (.loop l) := by
      refine ⟨⟨b, hb, hn⟩, fun name hname => ?_⟩
      rw [show l.saved.get? name = some (v.get? name) from get?_bindings (hown header rfl name hname)]
      exact Option.some_ne_none _
    change Ends _ _ (Move a s)
    unfold pushLoop
    rw [ends_bind, ends_change]
    dsimp only
    rw [Session.push_withVars]
    change Ends _ ((s.push (.loop l)).withVars _) _
    rw [ends_bind]
    refine (OnlyVars.begin g header.source).ends fun r v => ?_
    cases r with
    | error f =>
      rw [Session.withVars_withVars,
        Session.withVars_eq_proceed (s := s.push (.loop l)) (hpend _)]
      exact .enter hfits rfl (by rintro _ ⟨⟩) (by rintro _ ⟨⟩; rfl) hagain (by rintro _ ⟨⟩)
    | ok _ =>
      refine beginPass_ends (b := b) (l := l) ?_ (hpend _) (s.blocks_push _) ?_ (by rw [hn]; rfl) ?_
      · exact (s.kept_setBlocks _).suite ▸ h.nested
      · rw [← hb, ← (s.kept_setBlocks (.loop l :: s.blocks)).suite]
        rfl
      · intro r l' p? w hsame hp
        have hsuite : (s.push (.loop l)).suite = s.suite := (s.kept_setBlocks _).suite
        rw [Session.suite_withVars, Session.suite_withVars, hsuite] at hp
        rw [Session.setBlocks_withVars, Session.setBlocks_withVars, Session.push,
          Session.setBlocks_setBlocks]
        refine .enter (hfits.loop hsame.opener hsame.saved hsame.binds) hsame.opener (by rintro _ ⟨⟩) ?_ hagain hp
        rintro _ ⟨⟩
        exact hsame.reentering

theorem reachLoop_move {header : Action LoopHeader} (h : s.Ready) {k : Keyword}
    (hk : s.suite.keywordAt? a = some k) (hloop : k.opens? = some .loop) (hheader : header.OnlyVars)
    (hown : header.Ends s fun r _ => ∀ h, r = .ok h → h.Own) : (reachLoop g a k header).Ends s (Move a s) := by
  obtain ⟨b, hb, rfl⟩ := h.nested.exists_block hk (Keyword.isLinked_of_opens? hloop)
  unfold reachLoop
  rw [ends_bind, ends_ask]
  dsimp only
  split
  · exact reenterLoop_move h hb (by rw [Block.nature?, hloop]; rfl) ‹_› _
  · exact enterLoop_move h hb hloop hheader hown ‹_› _

theorem closeLoop_move (h : s.Ready) {k q : Keyword} (hk : s.suite.keywordAt? a = some k)
    (hcloses : k.closes? = some q) (hloop : q.opens? = some .loop) :
    (closeLoop a).Ends s (Move a s) := by
  obtain ⟨c, hc, rfl⟩ := h.nested.exists_block hk
    (Keyword.isLinked_of_partOf? (Keyword.partOf?_of_closes? hcloses))
  obtain ⟨o, b, ho, hb, rfl, hclose⟩ := h.nested.construct_of_closes? hc hcloses
  unfold closeLoop
  rw [ends_bind]
  refine Ends.block hc ?_
  dsimp only
  rw [ends_bind]
  refine Ends.requireActive (fun f rest hs hf => ?_) h.fail_move
  cases ho.symm.trans hf
  have hn := (h.mem_fits hs).nature_eq hb
  rw [Block.nature?, hloop] at hn
  cases f with
  | conditional c' => cases hn
  | guarded t => cases hn
  | loop l =>
    unfold topLoop
    simp only [ends_bind, ends_ask, hs, ends_pure]
    split
    · unfold leaveTop
      have := Move.leave (v := (s.drop 1).vars) hs (by rintro _ ⟨⟩) hclose
      rwa [← Session.withVars_eq_proceed ((s.kept_drop 1).pending.trans h.pending)] at this
    · rw [ends_bind, ends_change]
      have hupdate : s.updateLoop (fun l => { l with reentering := true }) =
          s.setBlocks (.loop { l with reentering := true } :: rest) := by
        rw [Session.updateLoop, Session.updateTop, hs]
      refine Ends.goToPart ho ?_
      rw [hupdate, Session.branch_eq_proceed, Session.vars_setBlocks]
      exact .repeat_ hs hclose

end

end BlockFlow.Flow
