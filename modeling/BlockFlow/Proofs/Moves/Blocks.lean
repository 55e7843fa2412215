/-
# Moves of conditionals and tries

The branches of a conditional and the sections of a try are reached only where their construct is the
innermost one: otherwise the command fails and nothing changes.
-/
import BlockFlow.Proofs.Moves

namespace BlockFlow.Flow

/-! ## 1. Conditionals -/

namespace Action

variable {s : Session} {Q : Except Fault Unit → Session → Prop}

/-- A condition's branch is entered, or the run goes on at another part of the conditional. -/
theorem Ends.tryBranch {g : Setting} {b : Block} {cond : String} {c : IfFrame} {rest : List Frame}
    (hn : s.suite.Nested) (hp : s.pending = none) (hs : s.blocks = .conditional c :: rest)
    (hb : s.suite.blockAt? c.opener = some b) (hkey : b.keyword = .ifThen)
    (hu : ∀ p ∈ c.untried, s.suite.IsPart c.opener p)
    (hQ : ∀ r c' p? v, c'.opener = c.opener → (∀ p ∈ c'.untried, p ∈ c.untried) →
      (∀ p, p? = some p → s.suite.IsPart c.opener p) →
      Q r ((s.setBlocks (.conditional c' :: rest)).proceed p? v)) :
    (Flow.tryBranch g b cond).Ends s Q := by
  have hns : b.nature?.isSome := by rw [Block.nature?, hkey]; rfl
  have hsame : s.setBlocks (.conditional c :: rest) = s := by rw [← hs, Session.setBlocks_blocks]
  have hupdate (v : Namespace) (f : IfFrame → IfFrame) : (s.withVars v).updateIf f =
      (s.setBlocks (.conditional (f c) :: rest)).withVars v := by
    rw [Session.updateIf, Session.updateTop, Session.blocks_withVars, hs]
    exact Session.setBlocks_withVars _ _ _
  have hpend (bs : List Frame) : (s.setBlocks bs).pending = none := (s.kept_setBlocks bs).pending.trans hp
  obtain ⟨e, he⟩ := hn.closed hb hns
  unfold Flow.tryBranch
  rw [ends_bind]
  refine (OnlyVars.condition g cond).ends fun r v => ?_
  cases r with
  | error f =>
    have := hQ (.error f) c none v rfl (fun _ h => h) (by rintro _ ⟨⟩)
    rwa [hsame, ← Session.withVars_eq_proceed hp] at this
  | ok held =>
    cases held with
    | true =>
      have := hQ (.ok ()) { c with matched := true } none v rfl (fun _ h => h) (by rintro _ ⟨⟩)
      rw [← Session.withVars_eq_proceed (hpend _), ← hupdate v fun c => { c with matched := true }]
        at this
      exact this
    | false =>
      obtain ⟨p, hother⟩ := Block.exists_other c.untried he
      have := hQ (.ok ()) { c with untried := c.untried.tail } (some p) v rfl
        (fun _ h => List.mem_of_mem_tail h) (fun q hq => by cases hq; exact hn.isPart_other hb hns hu hother)
      rw [← Session.branch_withVars, ← hupdate v fun c => { c with untried := c.untried.tail }] at this
      simp only [Bool.false_eq_true, if_false]
      unfold takeUntried
      simp only [ends_bind, ends_ask, Session.blocks_withVars, hs, ends_change, ends_pure]
      exact Ends.goToPart hother this

end Action

section

open BlockFlow.Flow.Action

variable {g : Setting} {a : Address} {s : Session}

theorem enterIf_move (h : s.Ready) (hk : s.suite.keywordAt? a = some .ifThen) (cond : String) :
    (enterIf g a cond).Ends s (Move a s) := by
  obtain ⟨b, hb, hkey⟩ := h.nested.exists_block hk rfl
  have hns : b.nature? = some .conditional := by rw [Block.nature?, hkey]; rfl
  have huntried : ∀ p ∈ b.elseIfs, s.suite.IsPart a p := fun p hp =>
    h.nested.isPart_of_mem (k := .elseIf) hb (by rw [hns]; rfl) hp
  have hkept := s.kept_setBlocks (.conditional { opener := a, untried := b.elseIfs } :: s.blocks)
  unfold enterIf
  rw [ends_bind]
  refine Ends.block hb ?_
  dsimp only
  rw [ends_bind, ends_change]
  refine Ends.tryBranch (c := { opener := a, untried := b.elseIfs }) (b := b)
    (by rw [Session.push, hkept.suite]; exact h.nested) (hkept.pending.trans h.pending)
    (Session.blocks_push _ _) (by rw [Session.push, hkept.suite, hb]) hkey
    (by rw [Session.push, hkept.suite]; exact huntried) ?_
  intro r c' p? v ho hu hp
  rw [Session.push, hkept.suite] at hp
  rw [Session.push, Session.setBlocks_setBlocks]
  have hat : Frame.opener (.conditional c') = a := ho
  refine .enter ⟨⟨b, by rw [hat, hb], hns⟩, fun p hp => ?_⟩ hat (by rintro _ ⟨⟩) (by rintro _ ⟨⟩) ?_ hp
  · rw [show c'.opener = a from ho]
    exact huntried p (hu p hp)
  · rintro l rest hs - rfl
    have := (h.mem_fits hs).nature_eq hb
    rw [hns] at this
    cases this

/-- Reaching a branch or the closer of the innermost conditional. -/
theorem owningIf_ends {Q : Except Fault Block → Session → Prop} (h : s.Ready) {k : Keyword}
    (hk : s.suite.keywordAt? a = some k) (hpart : k.partOf? = some .ifThen)
    (hok : ∀ c rest b, s.blocks = .conditional c :: rest → s.suite.blockAt? c.opener = some b →
      b.keyword = .ifThen → s.suite.IsPart c.opener a → (k.closes?.isSome → s.suite.Construct c.opener a) →
      Q (.ok b) s)
    (herr : ∀ f, Q (.error f) s) : (owningIf a).Ends s Q := by
  obtain ⟨c, hc, rfl⟩ := h.nested.exists_block hk (Keyword.isLinked_of_partOf? hpart)
  obtain ⟨o, b, ho, hb, hkey, hmem, hat⟩ := h.nested.exists_owner hc hpart
  unfold owningIf
  rw [ends_bind]
  refine Ends.block hc ?_
  dsimp only
  rw [ends_bind]
  refine Ends.requireActive (fun f rest hs hf => ?_) herr
  cases ho.symm.trans hf
  rw [ho]
  refine Ends.block hb ?_
  have hn := (h.mem_fits hs).nature_eq hb
  rw [Block.nature?, hkey] at hn
  cases f with
  | conditional c' =>
    refine hok c' rest b hs hb hkey hat fun hcl => ?_
    obtain ⟨q, hq⟩ := Option.isSome_iff_exists.1 hcl
    obtain ⟨o', b', ho', -, -, hcon⟩ := h.nested.construct_of_closes? hc hq
    cases ho.symm.trans ho'
    exact hcon
  | loop l => cases hn
  | guarded t => cases hn

theorem reachElseIf_move (h : s.Ready) (hk : s.suite.keywordAt? a = some .elseIf) (cond : String) :
    (reachElseIf g a cond).Ends s (Move a s) := by
  unfold reachElseIf
  rw [ends_bind]
  refine owningIf_ends h hk rfl (fun c rest b hs hb hkey hat _ => ?_) fun f => ?_
  · have hopen := h.nested.not_construct (o := c.opener) hk rfl
    have hfits := h.mem_fits hs
    have hns : b.nature?.isSome := by rw [Block.nature?, hkey]; rfl
    obtain ⟨e, he⟩ := h.nested.closed hb hns
    dsimp only
    rw [ends_bind, ends_ask]
    dsimp only
    split
    · refine Ends.goToPart he ?_
      have hsame : s.setBlocks (.conditional c :: rest) = s := by rw [← hs, Session.setBlocks_blocks]
      have hpart (p : Address) (hp : some e = some p) : s.suite.IsPart c.opener p := by
        cases hp
        exact h.nested.isPart_closer ⟨b, hb, hns, he⟩
      have := Move.branch (v := s.vars) (r := .ok ()) hs hat hopen rfl (fun _ h => h) hpart
      rwa [hsame] at this
    · exact Ends.tryBranch h.nested h.pending hs hb hkey hfits.2
        fun r c' p? v ho hu hp => .branch hs hat hopen ho hu hp
  · exact h.fail_move f

theorem reachElse_move (h : s.Ready) (hk : s.suite.keywordAt? a = some .otherwise) :
    (reachElse a).Ends s (Move a s) := by
  unfold reachElse
  rw [ends_bind]
  refine owningIf_ends h hk rfl (fun c rest b hs hb hkey hat _ => ?_) fun f => ?_
  · have hopen := h.nested.not_construct (o := c.opener) hk rfl
    have hns : b.nature?.isSome := by rw [Block.nature?, hkey]; rfl
    have hsame : s.setBlocks (.conditional c :: rest) = s := by rw [← hs, Session.setBlocks_blocks]
    obtain ⟨e, he⟩ := h.nested.closed hb hns
    have hmove (p? : Option Address) (hp : ∀ p, p? = some p → s.suite.IsPart c.opener p) :
        Move a s (.ok ()) (s.proceed p? s.vars) := by
      have := Move.branch (v := s.vars) (r := .ok ()) hs hat hopen rfl (fun _ h => h) hp
      rwa [hsame] at this
    dsimp only
    rw [ends_bind, ends_ask]
    dsimp only
    split
    · refine Ends.goToPart he (hmove (some e) ?_)
      rintro p ⟨⟩
      exact h.nested.isPart_closer ⟨b, hb, hns, he⟩
    · have := hmove none (by rintro _ ⟨⟩)
      rwa [← Session.withVars_eq_proceed h.pending] at this
  · exact h.fail_move f

theorem leaveIf_move (h : s.Ready) (hk : s.suite.keywordAt? a = some .endIf) :
    (leaveIf a).Ends s (Move a s) := by
  unfold leaveIf
  rw [ends_bind, ends_discard]
  refine owningIf_ends h hk rfl (fun c rest b hs hb hkey hat hcl => ?_) h.fail_move
  have hpend := ((s.kept_drop 1).pending.trans h.pending)
  have := Move.leave (v := (s.drop 1).vars) hs nofun (hcl rfl)
  rwa [← Session.withVars_eq_proceed hpend] at this

/-! ## 2. Tries -/

theorem enterTry_move (h : s.Ready) (hk : s.suite.keywordAt? a = some .tryBlock) :
    (enterTry a).Ends s (Move a s) := by
  obtain ⟨b, hb, hkey⟩ := h.nested.exists_block hk rfl
  have hns : b.nature? = some .guarded := by rw [Block.nature?, hkey]; rfl
  have hmove {t : TryFrame} (ht : t.opener = a) (hplain : t.isActive = false →
      b.catchAt = none ∧ b.finallyAt = none) (hphase : ∀ p, t.phase = some p → p = .trying)
      (hc : t.caught = false) (hcl : t.cleaned = false) : Move a s (.ok ()) (s.enterTry t) := by
    have hpend : (s.enterTry t).pending = none := (s.kept_setBlocks _).pending.trans h.pending
    have := Move.enterTry (v := (s.enterTry t).vars) ⟨⟨b, by rw [← hb, ← ht]; rfl, hns⟩,
      fun hi b' hb' => by rw [ht] at hb'; cases hb.symm.trans hb'; exact hplain hi⟩ ht hphase hc hcl
    rwa [← Session.withVars_eq_proceed hpend] at this
  unfold enterTry
  rw [ends_bind]
  refine Ends.block hb ?_
  dsimp only
  rw [ends_bind, ends_ask]
  dsimp only
  split
  · rename_i hplain
    simp only [Bool.and_eq_true, Option.isNone_iff_eq_none] at hplain
    have := hmove (t := { opener := a }) rfl (fun _ => hplain.1) (by rintro _ ⟨⟩) rfl rfl
    rw [Session.enterTry, TryFrame.isActive, if_neg (by simp), Int.add_zero,
      ← Session.nesting_setBlocks s] at this
    exact this
  · refine hmove (t := { opener := a, phase := some .trying }) rfl (by rintro ⟨⟩) ?_ rfl rfl
    rintro p ⟨⟩
    rfl

/-- The message of a fault is forgotten. -/
theorem clearError_ends {Q : Except Fault Unit → Session → Prop}
    (hQ : ∀ v, v.get? Namespace.errorName = none → Q (.ok ()) (s.withVars v)) : clearError.Ends s Q :=
  hQ (s.vars.erase Namespace.errorName) (by rw [Dict.get?_erase, if_pos rfl])

/-- The innermost try is left, and the work is taken up that waits for it. -/
theorem closeTry_ends {Q : Except Fault Unit → Session → Prop} {t : TryFrame} {rest : List Frame}
    (hs : s.blocks = .guarded t :: rest)
    (hQ : ∀ v, v.get? Namespace.errorName = none →
      (if t.isActive then resumeDeferred t.opener else pure ()).Ends ((s.leaveTry t rest).withVars v) Q) :
    (do
      clearError
      let blocks ← ask Session.blocks
      change fun s => s.setBlocks blocks.tail
      match blocks with
      | .guarded t :: _ =>
        if t.isActive then
          change fun s => { s with nesting := s.nesting - 1 }
          resumeDeferred t.opener
      | _ => fail (.frameMissing "try")).Ends s Q := by
  rw [ends_bind]
  refine clearError_ends fun v hv => ?_
  have hend := hQ v hv
  dsimp only
  simp only [ends_bind, ends_ask, Session.blocks_withVars, hs, ends_change, List.tail_cons, Session.setBlocks_withVars]
  split
  · rename_i hactive
    have hleft : ({ (s.setBlocks rest).withVars v with
        nesting := ((s.setBlocks rest).withVars v).nesting - 1 } : Session) = (s.leaveTry t rest).withVars v := by
      rw [Session.leaveTry, if_pos hactive, Session.nesting_withVars, Session.nesting_setBlocks]
      rfl
    rw [if_pos hactive] at hend
    rw [ends_bind, ends_change]
    dsimp only
    rwa [hleft]
  · rename_i hinactive
    have hleft : s.setBlocks rest = s.leaveTry t rest := by
      rw [Session.leaveTry, if_neg hinactive, Int.sub_zero, ← Session.nesting_setBlocks s rest]
    rw [if_neg hinactive] at hend
    rwa [hleft]

/-- Reaching a section or the closer of the innermost try. -/
theorem ownTry_ends {Q : Except Fault Unit → Session → Prop} {f : Unit → Action Unit} (h : s.Ready)
    {k : Keyword} (hk : s.suite.keywordAt? a = some k) (hpart : k.partOf? = some .tryBlock)
    (hok : ∀ t rest b c, s.blocks = .guarded t :: rest → s.suite.blockAt? t.opener = some b →
      b.keyword = .tryBlock → s.suite.blockAt? a = some c → c.keyword = k →
      c.opener = some t.opener → a ∈ b.partsOf k → s.suite.IsPart t.opener a → (f ()).Ends s Q)
    (herr : ∀ e, Q (.error e) s) :
    (Action.block a >>= fun b => requireActive b.opener >>= f).Ends s Q := by
  obtain ⟨c, hc, rfl⟩ := h.nested.exists_block hk (Keyword.isLinked_of_partOf? hpart)
  obtain ⟨o, b, ho, hb, hkey, hmem, hat⟩ := h.nested.exists_owner hc hpart
  rw [ends_bind]
  refine Ends.block hc ?_
  dsimp only
  rw [ends_bind]
  refine Ends.requireActive (fun f rest hs hf => ?_) herr
  cases ho.symm.trans hf
  have hn := (h.mem_fits hs).nature_eq hb
  rw [Block.nature?, hkey] at hn
  cases f with
  | guarded t => exact hok t rest b c hs hb hkey hc rfl ho hmem hat
  | loop l => cases hn
  | conditional c' => cases hn

theorem reachCatch_move (h : s.Ready) (hk : s.suite.keywordAt? a = some .catchError) :
    (reachCatch a).Ends s (Move a s) := by
  obtain ⟨c, hc, hck⟩ := h.nested.exists_block hk rfl
  obtain ⟨o, b, ho, hb, hkey, hmem, hat⟩ := h.nested.exists_owner hc (by rw [hck]; rfl)
  have hns : b.nature?.isSome := by rw [Block.nature?, hkey]; rfl
  have hfollow := h.nested.follows hc ho hb
  unfold Block.follow at hfollow
  rw [hck] at hfollow
  have hfin : c.finallyAt = b.finallyAt := by rw [← hfollow]
  have hcl : c.closer = b.closer := by rw [← hfollow]
  unfold reachCatch
  rw [ends_bind]
  refine Ends.block hc ?_
  dsimp only
  rw [ends_bind]
  refine Ends.requireActive (fun f rest hs hf => ?_) h.fail_move
  cases ho.symm.trans hf
  have hn := (h.mem_fits hs).nature_eq hb
  rw [Block.nature?, hkey] at hn
  cases f with
  | loop l => cases hn
  | conditional c' => cases hn
  | guarded t =>
    have hphase : phase? s = t.phase := by rw [phase?, hs]
    obtain ⟨e, he⟩ := h.nested.closed hb hns
    dsimp only
    rw [ends_bind, ends_ask]
    dsimp only
    rw [hphase]
    split
    · rename_i hcatching
      rw [bne_iff_ne] at hcatching
      have hfinally : finallyOf? s.suite t.opener = b.finallyAt := by
        rw [finallyOf?, show s.suite.blockAt? t.opener = some b from hb]
        rfl
      cases hq : b.finallyAt with
      | some q =>
        refine Ends.goToPart (p := q) (by rw [hfin, hq]; rfl) ?_
        refine .skipHandler hs hat hk hcatching ?_ fun q' hq' => ?_
        · exact h.nested.isPart_of_mem (k := .finallyDo) hb hns (by simp [Block.partsOf, hq])
        · exact Option.some.inj (hq.symm.trans (hfinally.symm.trans hq'))
      | none =>
        refine Ends.goToPart (p := e) (by rw [hfin, hq, hcl, he]; rfl) ?_
        refine .skipHandler hs hat hk hcatching (h.nested.isPart_closer ⟨b, hb, hns, he⟩) ?_
        intro q' hq'
        rw [hfinally, hq] at hq'
        cases hq'
    · exact h.pass_move (h.passable hk rfl (by decide) (by rintro ⟨⟩)) s.vars

theorem reachFinally_move (h : s.Ready) (hk : s.suite.keywordAt? a = some .finallyDo) :
    (reachFinally a).Ends s (Move a s) := by
  unfold reachFinally
  refine ownTry_ends h hk rfl ?_ h.fail_move
  intro t rest b c hs hb hkey hc hck hco hmem hat
  have hfin : b.finallyAt = some a := by simpa [Block.partsOf] using hmem
  have hactive : t.isActive := by
    by_contra hi
    have := ((h.mem_fits hs).2 (Bool.eq_false_iff.2 hi) b hb).2
    rw [hfin] at this
    cases this
  rw [ends_bind]
  refine clearError_ends fun v _ => ?_
  dsimp only
  rw [ends_change, Session.updateTry, Session.updateTop, Session.blocks_withVars, hs]
  dsimp only
  rw [if_pos hactive, Session.setBlocks_withVars,
    Session.withVars_eq_proceed ((s.kept_setBlocks _).pending.trans h.pending)]
  refine .reachFinally hs ?_ hactive
  rw [finallyOf?, hb]
  exact hfin

theorem leaveTry_move (h : s.Ready) (hk : s.suite.keywordAt? a = some .endTry) :
    (leaveTry a).Ends s (Move a s) := by
  unfold leaveTry
  refine ownTry_ends h hk rfl ?_ h.fail_move
  intro t rest b c hs hb hkey hc hck hco hmem hat
  have hclose : s.suite.Construct t.opener a := by
    obtain ⟨o, b', ho, -, -, hcon⟩ := h.nested.construct_of_closes? hc (q := .tryBlock) (by rw [hck]; rfl)
    cases hco.symm.trans ho
    exact hcon
  have hpend : (s.leaveTry t rest).pending = none := (s.kept_setBlocks _).pending.trans h.pending
  refine closeTry_ends hs fun v _ => ?_
  split
  · rename_i hactive
    have hdef : ((s.leaveTry t rest).withVars v).deferred = s.deferred := s.deferred_setBlocks _
    have hdep : ((s.leaveTry t rest).withVars v).depth = s.depth := s.depth_setBlocks _
    refine Ends.resumeDeferred ?_ ?_ ?_ ?_ <;> rw [hdef, hdep]
    · intro hquiet
      rw [Session.withVars_eq_proceed hpend]
      exact .closeTry hs hclose fun _ => hquiet
    · intro d ds f hd hr hdp hw
      have := Move.rethrow (v := v) hs hclose hactive hd hr hdp hw
      rwa [← Session.withVars_eq_proceed (s := (s.leaveTry t rest).withDeferred ds) hpend] at this
    · intro d ds origin goal s' hd hr hdp hw hsus
      exact .resuspend hs hclose hactive hd hr hdp hw (Suspends.of_withVars (v := v) hsus)
    · intro d ds origin goal hd hr hdp hw hclear
      exact .resume ⟨hs, hclose, hactive, hd, hr, hdp, hw, hclear⟩
  · rename_i hinactive
    rw [ends_pure, Session.withVars_eq_proceed hpend]
    exact .closeTry hs hclose fun hactive => absurd hactive hinactive

end

end BlockFlow.Flow
