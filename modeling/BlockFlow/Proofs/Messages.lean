/-
# Messages of caught faults

A try that catches a fault binds the name `_error` to the message of the fault.  The name is one for all tries of
a call, and nothing but calls saves it; every cleanup section and every closer of a try removes it.

`Session.Retains` says that the message is kept for the call of the try, in the variables or by a call that was
made from there, and not hidden by a loop.  A step keeps this (`Moment.Undisturbed.retains`), so it lasts as long
as the try is open, up to the next `finally` or `endTry` of its call, whatever else is run
(`message_lasts_up_to_cleanup`).  With an inner try that catches nothing the message is gone:
`inner_try_removes_message`.
-/
import BlockFlow.Proofs.Privacy
import BlockFlow.Proofs.Sparing

namespace BlockFlow.Flow

open BlockFlow.Flow.Action

/-! ## 1. How much stacks have saved -/

/-- The number of loops and calls on stacks, the run itself counting as a call. -/
def savings (A : List (List Frame)) : Nat := A.flatten.countP Frame.isLoop + A.length

section

variable {A : List (List Frame)} {f : Frame} {rest : List Frame} {post : List (List Frame)}

theorem map_snd_placed (A : List (List Frame)) : (placed A).map Prod.snd = A.flatten := by
  induction A with
  | nil => rfl
  | cons fs A ih =>
    rw [placed, List.map_append, List.map_map, ih, List.flatten_cons]
    congr 1
    exact List.map_id fs

theorem length_snapshotsIn (fs : List Frame) : (snapshotsIn fs).length = fs.countP Frame.isLoop := by
  induction fs with
  | nil => rfl
  | cons f fs ih =>
    rw [snapshotsIn, List.filterMap_cons, List.countP_cons, ← ih]
    cases f <;> rfl

theorem Session.savings_blockStacks (s : Session) : savings s.blockStacks = s.snapshots.length + 1 := by
  have hcalls (calls : List Call) : (calls.flatMap Call.snapshots).length =
      (calls.map Call.blocks).flatten.countP Frame.isLoop + calls.length := by
    induction calls with
    | nil => rfl
    | cons c calls ih =>
      rw [List.flatMap_cons, List.length_append, ih, Call.snapshots, List.length_append, length_snapshotsIn,
        List.map_cons, List.flatten_cons, List.countP_append, List.length_singleton, List.length_cons]
      omega
  rw [savings, blockStacks, snapshots, List.flatten_append, List.countP_append, List.length_append, List.length_append,
    hcalls, length_snapshotsIn, List.flatten_singleton, List.length_map, List.length_singleton]
  omega

/-- What is below a construct has saved no more than all there is. -/
theorem Bears.savings_le (h : Bears A f rest post) : savings (rest :: post) ≤ savings A := by
  obtain ⟨inner, hA⟩ := h
  have hdepth : post.length + 1 ≤ A.length :=
    depth_le_of_mem_placed (x := (post.length + 1, f)) (by rw [hA]; exact List.mem_append_right _ List.mem_cons_self)
  have hflat : A.flatten = inner.map Prod.snd ++ f :: (rest :: post).flatten := by
    rw [← map_snd_placed A, hA, List.map_append, List.map_cons, map_snd_placed]
  rw [savings, savings, hflat, List.countP_append, List.countP_cons, List.length_cons]
  omega

theorem Session.depth_of_blockStacks {s : Session} {fs : List Frame} (h : s.blockStacks = fs :: post) :
    s.depth = post.length + 1 := by
  have hlength := congrArg List.length h
  rw [Session.blockStacks_eq, List.length_cons, List.length_cons, List.length_map] at hlength
  rw [Session.depth_eq, hlength]

end

/-! ## 2. Bindings that are kept for a call -/

/-- **The binding of a name is kept** for the call that was running over some snapshots: that call is running, and
its variables have the binding, or the call that it has made has saved it.  No loop entered since then has saved
the name. -/
inductive Session.Retains (name : String) (b : Option Value) (base : List Snapshot) (s : Session) : Prop
  | here (loops : List Snapshot) (omits : ∀ sn ∈ loops, sn.binding? name = none)
      (snapshots : s.snapshots = loops ++ base) (bound : s.vars.get? name = b) : Retains name b base s
  | called (inner : List Snapshot) {loops : List Snapshot} {site : Address} {saved : Namespace}
      (omits : ∀ sn ∈ loops, sn.binding? name = none)
      (snapshots : s.snapshots = inner ++ .call site saved :: (loops ++ base)) (bound : saved.get? name = b) :
      Retains name b base s

section

variable {name : String} {b : Option Value} {base loops inner gone after : List Snapshot} {s t : Session}
  {P : Snapshot → Prop} {site : Address} {saved : Namespace}

theorem lowest?_eq_none (h : ∀ sn ∈ gone, sn.binding? name = none) : lowest? name gone = none :=
  List.findSome?_eq_none_iff.2 fun sn hsn => h sn (List.mem_reverse.1 hsn)

/-- What has not saved the name is no call. -/
theorem countP_of_omits (h : ∀ sn ∈ loops, sn.binding? name = none) : loops.countP Snapshot.isCall = 0 := by
  refine List.countP_eq_zero.2 fun sn hsn => ?_
  cases sn with
  | loop => exact Bool.false_ne_true
  | call => cases h _ hsn

/-- What is taken off leaves the base as it is, if enough is left. -/
theorem exists_left (h : loops ++ base = gone ++ after) (hlen : base.length ≤ after.length) :
    ∃ left, loops = gone ++ left ∧ after = left ++ base := by
  rcases List.append_eq_append_iff.1 h with ⟨more, rfl, hbase⟩ | ⟨left, hloops, hafter⟩
  · have hmore : more = [] := by
      have := congrArg List.length hbase
      rw [List.length_append] at this
      exact List.length_eq_zero_iff.1 (by omega)
    subst hmore
    exact ⟨[], by rw [List.append_nil, List.append_nil], hbase.symm⟩
  · exact ⟨left, hloops, hafter⟩

/-- In the call itself the variables have the binding. -/
theorem Session.Retains.bound (h : s.Retains name b base) (hcall : s.calls.length = base.countP Snapshot.isCall) :
    s.vars.get? name = b := by
  cases h with
  | here loops omits snapshots bound => exact bound
  | called inner omits snapshots bound =>
    rw [← s.countP_snapshots, snapshots, List.countP_append, List.countP_cons, List.countP_append,
      countP_of_omits omits, Snapshot.isCall, if_pos rfl] at hcall
    omega

/-- **A command of the call** that carries the name keeps its binding. -/
theorem Session.Carries.retains (h : s.Carries name (Snapshot.Omits name) t)
    (homits : ∀ sn ∈ loops, sn.binding? name = none) (hs : s.snapshots = loops ++ base)
    (hb : s.vars.get? name = b) (hlen : base.length ≤ t.snapshots.length) : t.Retains name b base := by
  cases h with
  | spares spared =>
    obtain ⟨gone, hgone, hv⟩ := spared
    obtain ⟨left, rfl, hleft⟩ := exists_left (hs.symm.trans hgone) hlen
    refine .here _ (fun sn hsn => homits sn (List.mem_append_right _ hsn)) hleft ?_
    rw [hv, lowest?_eq_none fun sn hsn => homits sn (List.mem_append_left _ hsn)]
    exact hb
  | shelters sn grown allowed kept =>
    rw [get?_restore] at kept
    cases sn with
    | loop o saved =>
      refine .here (.loop o saved :: loops) ?_ (by rw [grown, hs]; rfl) ?_
      · rintro sn' (_ | ⟨_, hsn'⟩)
        · exact allowed
        · exact homits sn' hsn'
      · rw [show (Snapshot.loop o saved).binding? name = none from allowed] at kept
        exact kept.trans hb
    | call site saved =>
      exact .called [] homits (by rw [grown, hs]; rfl) (Eq.trans kept hb)

/-- **A command of a call that was made** keeps the binding that this has saved, and gives it back when the call
ends. -/
theorem Session.Carries.retains_called (h : s.Carries name P t) (homits : ∀ sn ∈ loops, sn.binding? name = none)
    (hs : s.snapshots = inner ++ .call site saved :: (loops ++ base)) (hb : saved.get? name = b)
    (hlen : base.length ≤ t.snapshots.length) : t.Retains name b base := by
  cases h with
  | shelters sn grown allowed kept =>
    exact .called (sn :: inner) homits (by rw [grown, hs, List.cons_append]) hb
  | spares spared =>
    obtain ⟨gone, hgone, hv⟩ := spared
    have hs' : (inner ++ .call site saved :: loops) ++ base = gone ++ t.snapshots := by
      rw [← hgone, hs, List.append_assoc]
      rfl
    obtain ⟨left, hsplit, hleft⟩ := exists_left hs' hlen
    rcases List.append_eq_append_iff.1 hsplit with ⟨more, rfl, hmore⟩ | ⟨above, rfl, rfl⟩
    · cases more with
      | nil =>
        obtain rfl : _ = left := hmore
        exact .called [] homits hleft hb
      -- the call ends, and some of the loops around it
      | cons top more =>
        obtain ⟨rfl, rfl⟩ := List.cons.inj hmore
        refine .here _ (fun sn hsn => homits sn (List.mem_append_right _ hsn)) hleft ?_
        rw [hv, show inner ++ .call site saved :: more = (inner ++ [.call site saved]) ++ more by simp,
          lowest?_append, lowest?_eq_none fun sn hsn => homits sn (List.mem_append_left _ hsn), lowest?_append]
        exact hb
    · exact .called _ homits (by rw [hleft, List.append_assoc]; rfl) hb

/-- A step inside of a call that was made may do anything. -/
theorem retains_of_inside {new : List Snapshot} (homits : ∀ sn ∈ loops, sn.binding? name = none)
    (hs : s.snapshots = inner ++ .call site saved :: (loops ++ base)) (hb : saved.get? name = b)
    (hmoved : new ++ s.snapshots = gone ++ t.snapshots) (hinside : base.countP Snapshot.isCall < t.calls.length) :
    t.Retains name b base := by
  rw [hs, ← List.append_assoc] at hmoved
  rcases List.append_eq_append_iff.1 hmoved with ⟨more, -, hmore⟩ | ⟨above, -, habove⟩
  · cases more with
    | nil => exact .called [] homits hmore.symm hb
    | cons top more =>
      have hbelow : loops ++ base = more ++ t.snapshots := (List.cons.inj hmore).2
      have hcount := congrArg (List.countP Snapshot.isCall) hbelow
      rw [List.countP_append, countP_of_omits homits, List.countP_append, t.countP_snapshots] at hcount
      omega
  · exact .called _ homits habove hb

end

/-! ## 3. Tries that catch -/

section

variable {g : Setting} {f : Fault} {s s' : Session} {a : Address}

/-- A try that catches a fault has caught none before, and the message is bound. -/
theorem Offer.caught_once (o : Offer g f s .handled s') (h : s.Fitted) (hcaught : s'.Caught) :
    ∃ t k n rest, s.Reaches k n t rest ∧ t.caught = false ∧ s'.blocks = .guarded t.enterHandler :: rest ∧
      s'.outer = ((s.abortCalls k).drop n).outer ∧
      s'.vars.get? Namespace.errorName = some (.text f.message) := by
  -- a try that does not catch goes on at its cleanup section or at its closer, which are no handlers
  have hnot {k n : Nat} {t t' : TryFrame} {rest : List Frame} {p : Address} (hr : s.Reaches k n t rest)
      (hb : s'.blocks = .guarded t' :: rest) (ho : t'.opener = t.opener) (hsuite : s'.suite = s.suite)
      (hp : s'.pending = some p) (hk : s.suite.keywordAt? p ≠ some .catchError) : False := by
    obtain ⟨t₀, rest₀, q, hb₀, hq, hp₀⟩ := hcaught
    cases hb.symm.trans hb₀
    cases hp.symm.trans hp₀
    refine hk (keywordAt?_of_catchOf? h.nested (h.fits _ hr.mem_frames) ?_)
    rw [hsuite, ho] at hq
    exact hq
  cases o with
  | @caught k n t rest p v catchable reaches catches message =>
    exact ⟨t, k, n, rest, reaches, catches.2.2.1, Session.blocks_setBlocks _ _, Session.outer_setBlocks _ _, message⟩
  | @cleaned k n t rest p v catchable reaches uncaught section_ uncleaned =>
    refine (hnot reaches (Session.blocks_setBlocks _ _) rfl ?_ rfl ?_).elim
    · exact (Session.suite_setBlocks _ _).trans reaches.kept.suite
    · rw [keywordAt?_of_finallyOf? h.nested (h.fits _ reaches.mem_frames) section_]
      rintro ⟨⟩
  | @passed k n t rest e v catchable reaches uncaught done nesting closer =>
    refine (hnot reaches (Session.blocks_setBlocks _ _) rfl ?_ rfl ?_).elim
    · exact (Session.suite_setBlocks _ _).trans reaches.kept.suite
    · obtain ⟨b, k, hb, hk, hclose⟩ := h.nested.keyword_of_construct closer
      rw [hk]
      rintro ⟨⟩
      cases hclose

/-- **A step that ends with a caught fault**: a try that has caught none before is innermost, and the message is
bound. -/
theorem Step.caught_once (h : Step g a s (.handled f) s') (hs : s.Sound a) (hcaught : s'.Caught) :
    ∃ t rest post, t.caught = false ∧ s.Bears (.guarded t) rest post ∧
      s'.blockStacks = (.guarded t.enterHandler :: rest) :: post ∧
      s'.vars.get? Namespace.errorName = some (.text f.message) := by
  cases h with
  | @handled f₀ _ u _ ready move same offer =>
    obtain ⟨t, k, n, rest, hr, hfresh, hb, ho, hmessage⟩ := offer.caught_once (move.sound ready hs).toFitted hcaught
    obtain ⟨pre, L, post, above, hlev, rfl, hL, rfl, -⟩ := hr.levels default
    obtain ⟨left, hleft⟩ := Session.placed_of_levels hlev hL
    obtain ⟨left', hleft'⟩ := move.placed_of_error hleft
    have hout : ((u.abortCalls pre.length).drop above.length).outer = post :=
      (List.cons.inj (Session.levels_uncover hlev hL default)).2
    refine ⟨t, rest, post.map Level.blocks, hfresh, ⟨left', hleft'⟩, by rw [s'.blockStacks_eq, hb, ho, hout], ?_⟩
    rw [hmessage, ← Fault.message_attach f (s.suite.commandRef a), same]

end

/-! ## 4. While the try is open -/

section

variable {σ : Type}

/-- **An expression or the host assigns a variable** by the next command: this would do something else if neither
could change what the variable is bound to. -/
def Moment.Assigns (g : Setting) (host : Host σ) (m : Moment σ) (name : String) : Prop :=
  m.advance (g.sparing name) (host.sparing name) ≠ m.advance g host

/-- The next command removes the message of a fault: it is a `finally` or an `endTry`, of the call at a depth. -/
def Moment.Removes (m : Moment σ) (depth : Nat) : Prop :=
  m.session.depth = depth ∧ ∃ a k, m.next? = some a ∧ m.session.suite.keywordAt? a = some k ∧
    (k = .finallyDo ∨ k = .endTry)

/-- **A try is open and nothing else binds its message**: no host command, expression or record does, and no other
try of its call catches a fault by the next command. -/
structure Moment.Undisturbed (g : Setting) (host : Host σ) (rest : List Frame) (post : List (List Frame))
    (m : Moment σ) : Prop where
  isOpen : ∃ t, m.session.Bears (.guarded t) rest post
  unassigned : ¬m.Assigns g host Namespace.errorName
  unread : ∀ a, m.next? = some a → ¬Bestows g m.session a Namespace.errorName
  uncaught : ∀ f m', m.advance g host = some (.handled f, m') → m'.session.Caught →
    m'.session.depth = post.length + 1 → ∃ t, m'.session.blockStacks = (.guarded t :: rest) :: post

variable {g : Setting} {host : Host σ} {m₀ m m' : Moment σ} {x : StepResult} {f : Fault} {rest : List Frame}
  {post : List (List Frame)} {base : List Snapshot} {b : Option Value} {t : TryFrame}

/-- A command that does not fail disturbs no message if expressions and the host do not, and it reads no records. -/
theorem Moment.undisturbed_of_done (hg : g.Spares Namespace.errorName) (hhost : host.Spares Namespace.errorName)
    (hadv : m.advance g host = some (.done, m'))
    (hreads : ∀ a k, m.next? = some a → m.session.suite.keywordAt? a = some k → recordFormat? k = none)
    (hopen : ∃ t, m.session.Bears (.guarded t) rest post) : m.Undisturbed g host rest post := by
  refine ⟨hopen, not_not.2 ?_, ?_, ?_⟩
  · rw [hg.sparing_eq, hhost.sparing_eq]
  · rintro a ha ⟨k, format, target, value, cursor, ⟨c, hc, hof, -⟩, hformat, -⟩
    cases (hreads a k ha (keywordAt?_of_commandAt? hc hof)).symm.trans hformat
  · intro f m'' hadv'
    cases hadv.symm.trans hadv'

/-- A try that has caught a fault stays one as long as it is open. -/
theorem Reachable.caught_of_bears (h : Reachable g host m₀ m) (hm₀ : m₀.Starts)
    (hadv : m.advance g host = some (x, m')) (hx : ∀ f, x ≠ .unhandled f)
    (hcaught : ∀ t, m.session.Bears (.guarded t) rest post → t.caught = true)
    (hopen : ∃ t, m.session.Bears (.guarded t) rest post) :
    ∀ t, m'.session.Bears (.guarded t) rest post → t.caught = true := by
  intro t' ht'
  obtain ⟨t, ht⟩ := hopen
  obtain ⟨a, -, -, -, hstep⟩ := Moment.step_of_advance (h.sound hm₀) hadv
  rcases (show Session.Bears (m.session.poise (some a)) (.guarded t) rest post from ht).step hstep hx ht' with
    heq | ⟨hbecomes, -⟩
  · rw [Frame.guarded.inj heq]
    exact hcaught t ht
  · cases hbecomes with
    | guarded advances => exact advances.caught (hcaught t ht)

/-- No try of the call catches a fault by the next command, neither the one that has caught one nor another one. -/
theorem Moment.Undisturbed.not_caught (hu : m.Undisturbed g host rest post) (hs : m.session.Sound m.place)
    (hcaught : ∀ t, m.session.Bears (.guarded t) rest post → t.caught = true)
    (hadv : m.advance g host = some (.handled f, m')) (hcatches : m'.session.Caught) :
    m'.session.depth ≠ post.length + 1 ∧ m'.session.depth ≤ m.session.depth := by
  obtain ⟨a, -, hplace, -, hstep⟩ := Moment.step_of_advance hs hadv
  obtain ⟨t, rest', post', hfresh, hbears, htop, -⟩ := hstep.caught_once (hplace ▸ hs.poise _) hcatches
  constructor
  · intro hdepth
    obtain ⟨t', htop'⟩ := hu.uncaught f m' hadv hcatches hdepth
    obtain ⟨hhead, rfl⟩ := List.cons.inj (htop.symm.trans htop')
    obtain ⟨-, rfl⟩ := List.cons.inj hhead
    cases hfresh.symm.trans (hcaught t hbears)
  · rw [Session.depth_of_blockStacks htop]
    exact hbears.depth_le

/-- A loop that is innermost, and inside of the try, has not saved the name. -/
theorem Moment.Undisturbed.not_binds {loops : List Snapshot} {name : String} (hu : m.Undisturbed g host rest post)
    (hs : m.session.Sound m.place) (hbase : savings (rest :: post) = base.length + 1)
    (homits : ∀ sn ∈ loops, sn.binding? name = none) (hsn : m.session.snapshots = loops ++ base) :
    ∀ l fs, m.session.blocks = .loop l :: fs → ¬l.source.Binds name := by
  intro l fs hblocks hbinds
  obtain ⟨t, ht⟩ := hu.isOpen
  have hstacks : m.session.blockStacks = (.loop l :: fs) :: m.session.outer.map Level.blocks := by
    rw [m.session.blockStacks_eq, hblocks]
  have hsavings := m.session.savings_blockStacks
  rw [Session.Bears, hstacks] at ht
  rcases ht.top_or with ⟨heq, -⟩ | hinner
  · cases heq
  · have hle := hinner.savings_le
    rw [hstacks] at hsavings
    have hloop : savings ((.loop l :: fs) :: m.session.outer.map Level.blocks) =
        savings (fs :: m.session.outer.map Level.blocks) + 1 := by
      rw [savings, savings, List.flatten_cons, List.flatten_cons, List.cons_append, List.countP_cons,
        Frame.isLoop, if_pos rfl, List.length_cons, List.length_cons]
      omega
    cases loops with
    | nil =>
      rw [hsn, List.nil_append] at hsavings
      omega
    | cons sn loops =>
      have hhead : sn = .loop l.opener l.saved := by
        rw [m.session.snapshots_eq, hblocks] at hsn
        exact (List.cons.inj hsn).1.symm
      have hsaved := homits sn List.mem_cons_self
      rw [hhead] at hsaved
      have hfits : Frame.Fits m.session.suite (.loop l) := by
        refine hs.fits _ (List.mem_append_left _ ?_)
        rw [hblocks]
        exact List.mem_cons_self
      exact hfits.2 name hbinds hsaved

/-- **A step keeps the message** for the call of the try, if the try is open before and after it and nothing else
binds or removes the message. -/
theorem Moment.Undisturbed.retains (hu : m.Undisturbed g host rest post) (hremoves : ¬m.Removes (post.length + 1))
    (hs : m.session.Sound m.place) (hcaught : ∀ t, m.session.Bears (.guarded t) rest post → t.caught = true)
    (hbase : savings (rest :: post) = base.length + 1) (hcalls : base.countP Snapshot.isCall = post.length)
    (hr : m.session.Retains Namespace.errorName b base) (hadv : m.advance g host = some (x, m'))
    (hopen : ∃ t, m'.session.Bears (.guarded t) rest post) : m'.session.Retains Namespace.errorName b base := by
  obtain ⟨a, ha, -⟩ := Option.map_eq_some_iff.1 hadv
  have hsparing : m.advance (g.sparing Namespace.errorName) (host.sparing Namespace.errorName) = some (x, m') :=
    (not_not.1 hu.unassigned).trans hadv
  have hg := g.spares_sparing Namespace.errorName
  obtain ⟨t, ht⟩ := hopen
  have hlen : base.length ≤ m'.session.snapshots.length := by
    have hle := ht.savings_le
    rw [Session.savings_blockStacks] at hle
    omega
  have hdeep : post.length + 1 ≤ m'.session.depth := ht.depth_le
  cases hr with
  | here loops homits hsn hb =>
    have hdepth : m.session.depth = post.length + 1 := by
      rw [Session.depth, ← Session.countP_snapshots, hsn, List.countP_append, countP_of_omits homits, hcalls,
        Nat.zero_add]
    have hkey (k : Keyword) (hk : k = .finallyDo ∨ k = .endTry) : m.session.suite.keywordAt? a ≠ some k :=
      fun hat => hremoves ⟨hdepth, a, k, ha, hat, hk⟩
    rcases Moment.carries hs hg (host.spares_sparing _) ha (hkey _ (.inl rfl)) (hkey _ (.inr rfl)) (hu.unread a ha)
      (hu.not_binds hs hbase homits hsn) hsparing with ⟨⟨f, rfl⟩, hcatches⟩ | hcarries
    · obtain ⟨hne, hle⟩ := hu.not_caught hs hcaught hadv hcatches
      omega
    · exact hcarries.retains homits hsn hb hlen
  | called inner homits hsn hb =>
    rcases Moment.carries_from hs hg hsparing with ⟨⟨f, rfl⟩, hcatches⟩ | ⟨v, hcarries⟩
    · obtain ⟨hne, -⟩ := hu.not_caught hs hcaught hadv hcatches
      obtain ⟨a', new?, gone, u, -, he⟩ := Moment.exchange_of_advance hs hadv
      refine retains_of_inside homits hsn hb he.moved ?_
      rw [hcalls]
      rw [Session.depth] at hne hdeep
      omega
    · exact hcarries.retains_called homits hsn hb hlen

/-- **While the try is open**, after it has caught a fault, the message is kept for its call. -/
theorem Meanwhile.retains (hm₀ : m₀.Starts) (hreach : Reachable g host m₀ m)
    (hstacks : m.session.blockStacks = (.guarded t :: rest) :: post) (hcaught : t.caught = true)
    (hbound : m.session.vars.get? Namespace.errorName = b)
    (h : Meanwhile g host (fun z => z.Undisturbed g host rest post ∧ ¬z.Removes (post.length + 1)) m m')
    (hopen : ∃ t, m'.session.Bears (.guarded t) rest post) :
    m'.session.Retains Namespace.errorName b m.session.snapshots := by
  -- the try is no loop, so all that the run has saved is below it
  have hbase : savings (rest :: post) = m.session.snapshots.length + 1 := by
    rw [← m.session.savings_blockStacks, hstacks]
    rfl
  have hcalls : m.session.snapshots.countP Snapshot.isCall = post.length := by
    have hdepth := Session.depth_of_blockStacks hstacks
    rw [Session.depth] at hdepth
    rw [m.session.countP_snapshots]
    omega
  -- the invariant is that the message is kept, and that the try is still one that has caught a fault
  suffices hinv : (∀ t, m'.session.Bears (.guarded t) rest post → t.caught = true) ∧
      m'.session.Retains Namespace.errorName b m.session.snapshots from hinv.2
  induction h with
  | start =>
    refine ⟨fun t' ht' => ?_, .here [] (by rintro _ ⟨⟩) rfl hbound⟩
    obtain rfl : t' = t := Frame.guarded.inj (Bears.unique ht' (.of_top hstacks))
    exact hcaught
  | step before holds advance handled goesOn ih =>
    have hreach' := hreach.trans before.reachable
    obtain ⟨hcaught', hretains⟩ := ih holds.1.isOpen
    exact ⟨hreach'.caught_of_bears hm₀ advance handled hcaught' holds.1.isOpen,
      holds.1.retains holds.2 (hreach'.sound hm₀) hcaught' hbase hcalls hretains advance hopen⟩

end

/-! ## 5. The end of the try -/

section

variable {s : Session} {a : Address} {t : TryFrame} {rest : List Frame}

/-- The cleanup section of a try forgets the message. -/
theorem reachFinally_forgets (h : s.Ready) (hs : s.blocks = .guarded t :: rest)
    (ha : finallyOf? s.suite t.opener = some a) :
    (reachFinally a).Ends s fun _ u => u.vars.get? Namespace.errorName = none := by
  refine Ends.own_part hs (isPart_of_finallyOf? h.nested (h.mem_fits hs) ha) fun _ _ => ?_
  rw [ends_bind]
  refine clearError_ends fun v hv => ?_
  dsimp only
  rw [ends_change, Session.updateTry, (Session.snapshots_updateTop fun top => by cases top <;> rfl).2]
  exact hv

/-- **The innermost try takes up a jump** at its closer. -/
def Session.TakesUpJump (s : Session) (a : Address) (t : TryFrame) (rest : List Frame) : Prop :=
  ∃ d ds origin goal, s.TakesUp a t rest d ds ∧ d.work = .transfer origin goal

/-- Work that is taken up changes variables only if it is a jump, and then by leaving constructs and calls. -/
theorem resumeDeferred_forgets {tryAt : Address} (s : Session) : (resumeDeferred tryAt).Ends s fun _ u =>
    s.Unwinds u ∧ (u.vars = s.vars ∨ ∃ d ds origin goal, s.deferred = d :: ds ∧ d.resumeAt = tryAt ∧
      d.depth = s.depth ∧ d.work = .transfer origin goal) := by
  refine ⟨resumeDeferred_unwinds tryAt s, ?_⟩
  refine Ends.resumeDeferred (Q := fun _ u => u.vars = s.vars ∨ ∃ d ds origin goal, s.deferred = d :: ds ∧
    d.resumeAt = tryAt ∧ d.depth = s.depth ∧ d.work = .transfer origin goal) ?_ ?_ ?_ ?_
  · exact fun _ => .inl rfl
  · exact fun _ _ _ _ _ _ _ => .inl rfl
  · exact fun d ds origin goal u hd hat hdepth hwork _ => .inr ⟨d, ds, origin, goal, hd, hat, hdepth, hwork⟩
  · exact fun d ds origin goal hd hat hdepth hwork _ => .inr ⟨d, ds, origin, goal, hd, hat, hdepth, hwork⟩

/-- **The closer of a try forgets the message**; a jump that it takes up may give back an older one, with the loops
and calls that are left. -/
theorem leaveTry_forgets (h : s.Ready) (hs : s.blocks = .guarded t :: rest) (hcl : s.suite.Construct t.opener a) :
    (leaveTry a).Ends s fun _ u => u.vars.get? Namespace.errorName = none ∨
      s.TakesUpJump a t rest ∧ u.snapshots ≠ s.snapshots := by
  refine Ends.own_part hs (h.nested.isPart_closer hcl) fun _ _ => closeTry_ends hs fun v hv => ?_
  have hsame : ((s.leaveTry t rest).withVars v).snapshots = s.snapshots := Session.snapshots_leaveTry hs
  have hforgot : ((s.leaveTry t rest).withVars v).vars.get? Namespace.errorName = none := hv
  split
  · rename_i hactive
    refine (resumeDeferred_forgets _).mono ?_
    rintro r u ⟨⟨gone, hgone, hu⟩, hquiet | ⟨d, ds, origin, goal, hd, hat, hdepth, hwork⟩⟩
    · rw [hquiet]
      exact .inl hforgot
    · by_cases hleft : u.snapshots = s.snapshots
      · rw [hleft, ← hsame] at hgone
        obtain rfl : gone = [] := List.self_eq_append_left.1 hgone
        rw [hu]
        exact .inl hforgot
      · have hdeferred : s.deferred = d :: ds := (s.deferred_setBlocks rest).symm.trans hd
        exact .inr ⟨⟨d, ds, origin, goal, ⟨hs, hcl, hactive, hdeferred, hat, hdepth.trans (s.depth_setBlocks rest)⟩,
          hwork⟩, hleft⟩
  · exact .inl hforgot

end

/-! ## 6. From the handler to the end -/

section

variable {σ : Type} {g : Setting} {host : Host σ} {m₀ p m y : Moment σ} {w : World σ} {r : Except Fault Unit} {f : Fault}
  {rest : List Frame} {post : List (List Frame)} {a : Address} {t : TryFrame}

/-- **A try catches the fault of the next command**, and the run goes on at its handler. -/
structure Moment.Catches (g : Setting) (host : Host σ) (p : Moment σ) (f : Fault) (t : TryFrame) (rest : List Frame)
    (post : List (List Frame)) (m : Moment σ) : Prop where
  fails : p.advance g host = some (.handled f, m)
  caught : m.session.Caught
  top : m.session.blockStacks = (.guarded t :: rest) :: post

/-- The handler of a try begins with the message, and its try has caught a fault. -/
theorem Moment.Catches.message (h : p.Catches g host f t rest post m) (hs : p.session.Sound p.place) :
    t.caught = true ∧ m.session.vars.get? Namespace.errorName = some (.text f.message) := by
  obtain ⟨a, -, hplace, -, hstep⟩ := Moment.step_of_advance hs h.fails
  obtain ⟨t₀, rest₀, post₀, -, -, htop, hmessage⟩ := hstep.caught_once (hplace ▸ hs.poise _) h.caught
  obtain ⟨hhead, -⟩ := List.cons.inj (htop.symm.trans h.top)
  obtain rfl := Frame.guarded.inj (List.cons.inj hhead).1
  exact ⟨rfl, hmessage⟩

/-- A run goes on after a fault that was handled. -/
theorem Moment.Catches.reachable (h : p.Catches g host f t rest post m) (hm₀ : m₀.Starts)
    (hp : Reachable g host m₀ p) : Reachable g host m₀ m := by
  obtain ⟨a, -, -, -, hstep⟩ := Moment.step_of_advance (hp.sound hm₀) h.fails
  refine hp.step h.fails (by rintro _ ⟨⟩) ?_
  cases hstep with
  | handled ready move same offer =>
    obtain ⟨-, -, hexit⟩ := move.kept
    exact (offer.kept.2.trans (hexit.resolve_right (by rintro ⟨⟨⟩, -⟩))).trans (hp.exitRequested hm₀)

/-- A command that is no call runs in a session that is ready for it. -/
theorem Moment.ready_of_ne_call (hs : m.session.Sound m.place) (ha : m.next? = some a)
    (hcall : m.session.suite.keywordAt? a ≠ some .call) : (m.session.poise (some a)).Ready :=
  Session.Sound.ready_of_ne_call (m.place_of_next? ha ▸ hs.poise _) rfl hcall

/-- What a flow command does is what the session does with it. -/
theorem Moment.runs_flow {k : Keyword} {Q : Session → Prop} (ha : m.next? = some a)
    (hk : m.session.suite.keywordAt? a = some k)
    (hQ : ∀ target value, (perform g a k target value).Ends (m.session.poise (some a)) fun _ u => Q u)
    (hrun : m.poised.runCommand g host a = (r, w)) : Q w.session := by
  obtain ⟨c, hcmd, hof⟩ := commandAt?_of_keywordAt? hk
  have hflow := runCommand_flow (w := m.poised) g host ha hcmd hof
  have hends := hQ (Text.trim c.target) (Text.trim c.value)
  unfold Ends at hflow hends
  rw [hrun, m.session_poised ha] at hflow
  rw [(Prod.mk.inj hflow).2]
  exact hends

/-- **The message of a caught fault lasts up to the cleanup section of its try, or its closer.**  From the moment at
which a try catches a fault, the message is bound whenever a command of the call of the try is next and the try is
open, if nothing else binds it, and no other `finally` or `endTry` of the call was run.  It is unbound when the
`finally` or the `endTry` of the try has run, unless this takes up a jump and leaves a loop or a call. -/
theorem message_lasts_up_to_cleanup (hm₀ : m₀.Starts) (hp : Reachable g host m₀ p)
    (hcatches : p.Catches g host f t rest post m) :
    (∀ y, Meanwhile g host (fun z => z.Undisturbed g host rest post ∧ ¬z.Removes (post.length + 1)) m y →
      (∃ t, y.session.Bears (.guarded t) rest post) → y.session.depth = post.length + 1 →
      y.session.vars.get? Namespace.errorName = some (.text f.message)) ∧
    ∀ y a t r w, Reachable g host m y → y.session.blockStacks = (.guarded t :: rest) :: post → y.next? = some a →
      y.poised.runCommand g host a = (r, w) →
      (finallyOf? y.session.suite t.opener = some a → w.session.vars.get? Namespace.errorName = none) ∧
      (y.session.suite.Construct t.opener a → w.session.vars.get? Namespace.errorName = none ∨
        y.poised.session.TakesUpJump a t rest ∧ w.session.snapshots ≠ y.session.snapshots) := by
  obtain ⟨hcaught, hmessage⟩ := hcatches.message (hp.sound hm₀)
  have hreach := hcatches.reachable hm₀ hp
  refine ⟨fun y hy hopen hdepth => ?_, fun y a t r w hy htop ha hrun => ?_⟩
  · have hretains := hy.retains hm₀ hreach hcatches.top hcaught hmessage hopen
    refine hretains.bound ?_
    have hm := Session.depth_of_blockStacks hcatches.top
    rw [Session.depth] at hm hdepth
    rw [m.session.countP_snapshots]
    omega
  · have hs := (hreach.trans hy).sound hm₀
    have hblocks : y.session.blocks = .guarded t :: rest := by
      rw [y.session.blockStacks_eq] at htop
      exact (List.cons.inj htop).1
    have hfits : Frame.Fits y.session.suite (.guarded t) := by
      refine hs.fits _ (List.mem_append_left _ ?_)
      rw [hblocks]
      exact List.mem_cons_self
    constructor
    · intro hfinally
      have hkey := keywordAt?_of_finallyOf? hs.nested hfits hfinally
      have hready := Moment.ready_of_ne_call hs ha (by rw [hkey]; rintro ⟨⟩)
      exact Moment.runs_flow ha hkey (fun _ _ => reachFinally_forgets hready hblocks hfinally) hrun
    · intro hcloser
      obtain ⟨b, k, -, hk, hclose⟩ := hs.nested.keyword_of_construct hcloser
      have hready := Moment.ready_of_ne_call hs ha (by rw [hk]; rintro ⟨⟩; cases hclose)
      have hkey := hready.keyword_closer hblocks hcloser
      rw [y.session_poised ha]
      exact Moment.runs_flow ha hkey (fun _ _ => leaveTry_forgets hready hblocks hcloser) hrun

/-- A handler runs a command of the host with the message bound, and the closer of its try removes it. -/
theorem message_is_bound_in_handler : ∃ (m₀ p m y z : Moment Unit) (f : Fault) (t : TryFrame),
    Moment.ofUnits [.named "main" [{ name := "try" }, { name := "throw" }, { name := "catch" }, { name := "echo" },
      { name := "endTry" }]] = .ok m₀ ∧
    Reachable .trivial silent m₀ p ∧ p.Catches .trivial silent f t [] [] m ∧ f.message = "Error thrown" ∧
    y.next? = some ⟨0, 3⟩ ∧ y.session.vars.get? Namespace.errorName = some (.text f.message) ∧
    y.advance .trivial silent = some (.done, z) ∧ z.next? = some ⟨0, 4⟩ ∧
    (z.poised.runCommand .trivial silent ⟨0, 4⟩).2.session.vars.get? Namespace.errorName = none := by
  obtain ⟨m₀, p, m, y, z, f, t, hm₀, hp, hcatches, hmessage, ⟨hnext, hkey, hadv, hexit⟩, htopy, hy, hadvy, hexity, htopz,
      hz, hcloser, hquiet⟩ :
      ∃ (m₀ p m y z : Moment Unit) (f : Fault) (t : TryFrame),
      Moment.ofUnits [.named "main" [{ name := "try" }, { name := "throw" }, { name := "catch" }, { name := "echo" },
        { name := "endTry" }]] = .ok m₀ ∧ m₀.after? .trivial silent 1 = some p ∧
      p.Catches .trivial silent f t [] [] m ∧ f.message = "Error thrown" ∧
      (m.next? = some ⟨0, 2⟩ ∧ m.session.suite.keywordAt? ⟨0, 2⟩ = some .catchError ∧
        m.advance .trivial silent = some (.done, y) ∧ y.session.exitRequested = false) ∧
      y.session.blockStacks = [[.guarded t]] ∧ y.next? = some ⟨0, 3⟩ ∧ y.advance .trivial silent = some (.done, z) ∧
      z.session.exitRequested = false ∧ z.session.blockStacks = [[.guarded t]] ∧ z.next? = some ⟨0, 4⟩ ∧
      z.session.suite.Construct t.opener ⟨0, 4⟩ ∧ z.poised.session.deferred = [] :=
    ⟨_, _, _, _, _, _, _, rfl, rfl, ⟨rfl, ⟨_, _, _, rfl, rfl, rfl⟩, rfl⟩, rfl, ⟨rfl, rfl, rfl, rfl⟩, rfl, rfl, rfl, rfl, rfl,
      rfl, ⟨_, rfl, rfl, rfl⟩, rfl⟩
  obtain ⟨hbound, hends⟩ := message_lasts_up_to_cleanup (starts_ofUnits hm₀) (reachable_of_after? hp) hcatches
  have hmeanwhile : Meanwhile .trivial silent (fun z => z.Undisturbed .trivial silent [] [] ∧ ¬z.Removes 1) m y := by
    refine Meanwhile.start.step ⟨Moment.undisturbed_of_done (fun _ _ => rfl) (fun _ _ _ _ => rfl) hadv ?_
      ⟨t, .of_top hcatches.top⟩, ?_⟩ hadv (by rintro _ ⟨⟩) hexit
    · intro a k ha hk
      cases hnext.symm.trans ha
      cases hkey.symm.trans hk
      rfl
    · rintro ⟨-, a, k, ha, hk, hkind⟩
      cases hnext.symm.trans ha
      cases hkey.symm.trans hk
      rcases hkind with hkind | hkind <;> cases hkind
  refine ⟨m₀, p, m, y, z, f, t, hm₀, reachable_of_after? hp, hcatches, hmessage, hy,
    hbound y hmeanwhile ⟨t, .of_top htopy⟩ (Session.depth_of_blockStacks htopy), hadvy, hz, ?_⟩
  rcases (hends z ⟨0, 4⟩ t _ _ (hmeanwhile.reachable.step hadvy (by rintro _ ⟨⟩) hexity) htopz hz rfl).2 hcloser with
    hforgot | ⟨⟨d, ds, origin, goal, htakes, -⟩, -⟩
  · exact hforgot
  · cases hquiet.symm.trans htakes.deferred

/-- The next command is the cleanup section of a try, or its closer. -/
def Moment.EndsTry (m : Moment σ) (t : TryFrame) : Prop :=
  ∃ a, m.next? = some a ∧ (finallyOf? m.session.suite t.opener = some a ∨ m.session.suite.Construct t.opener a)

/-- Nothing else binds the message of an open try by the next command, which is neither the cleanup section of the
try nor its closer, and no fault is caught. -/
structure Moment.Calm (g : Setting) (host : Host σ) (t : TryFrame) (rest : List Frame) (post : List (List Frame))
    (m : Moment σ) : Prop where
  undisturbed : m.Undisturbed g host rest post
  elsewhere : ¬m.EndsTry t
  unhandled : ∀ f m', m.advance g host ≠ some (.handled f, m')

theorem Meanwhile.calm_step (h : Meanwhile g host (Moment.Calm g host t rest post) m y) (hg : g.Spares Namespace.errorName)
    (hhost : host.Spares Namespace.errorName) {z : Moment σ} (hadv : y.advance g host = some (.done, z))
    (hnext : ∀ a, y.next? = some a → (∀ k, y.session.suite.keywordAt? a = some k → recordFormat? k = none) ∧
      finallyOf? y.session.suite t.opener ≠ some a ∧ ¬y.session.suite.Construct t.opener a)
    (hopen : ∃ t, y.session.Bears (.guarded t) rest post) (hexit : z.session.exitRequested = false) :
    Meanwhile g host (Moment.Calm g host t rest post) m z := by
  refine h.step ⟨Moment.undisturbed_of_done hg hhost hadv (fun a k ha => (hnext a ha).1 k) hopen, ?_, fun f z' hadv' => ?_⟩
    hadv (by rintro _ ⟨⟩) hexit
  · rintro ⟨a, ha, hends⟩
    exact hends.elim (hnext a ha).2.1 (hnext a ha).2.2
  · cases hadv.symm.trans hadv'

/-- **A try inside of the handler removes the message**, though it catches no fault.  And after the closer of a try
the message is bound if an outer try catches the fault that it raises again, or if it takes up a jump that ends a
call. -/
theorem inner_try_removes_message :
    (∃ (m₀ p m y : Moment Unit) (f : Fault) (t : TryFrame),
      Moment.ofUnits [.named "main" [{ name := "try" }, { name := "throw" }, { name := "catch" }, { name := "try" },
        { name := "endTry" }, { name := "echo" }, { name := "endTry" }]] = .ok m₀ ∧
      Reachable .trivial silent m₀ p ∧ p.Catches .trivial silent f t [] [] m ∧
      Meanwhile .trivial silent (Moment.Calm .trivial silent t [] []) m y ∧ y.session.blockStacks = [[.guarded t]] ∧
      y.next? = some ⟨0, 5⟩ ∧ y.session.vars.get? Namespace.errorName = none) ∧
    (∃ (m₀ p m y z : Moment Unit) (f f' : Fault) (t t' : TryFrame) (rest : List Frame),
      Moment.ofUnits [.named "main" [{ name := "try" }, { name := "try" }, { name := "throw" }, { name := "catch" },
        { name := "throw" }, { name := "finally" }, { name := "endTry" }, { name := "catch" },
        { name := "endTry" }]] = .ok m₀ ∧
      Reachable .trivial silent m₀ p ∧ p.Catches .trivial silent f t rest [] m ∧ Reachable .trivial silent m y ∧
      y.session.blockStacks = [.guarded t' :: rest] ∧ y.EndsTry t' ∧ y.advance .trivial silent = some (.handled f', z) ∧
      z.session.vars.get? Namespace.errorName = some (.text f'.message)) ∧
    (∃ (m₀ p m y z : Moment Unit) (f : Fault) (t t' : TryFrame) (post : List (List Frame)),
      Moment.ofUnits [.named "main" [{ name := "try" }, { name := "throw" }, { name := "catch" },
        { name := "call", target := "f" }, { name := "finally" }, { name := "endTry" },
        { name := "function", target := "f" }, { name := "try" }, { name := "throw" }, { name := "catch" },
        { name := "exitTest" }, { name := "finally" }, { name := "endTry" }, { name := "endFunction" }]] = .ok m₀ ∧
      Reachable .trivial silent m₀ p ∧ p.Catches .trivial silent f t [] post m ∧ Reachable .trivial silent m y ∧
      y.session.blockStacks = [.guarded t'] :: post ∧ y.EndsTry t' ∧ y.advance .trivial silent = some (.done, z) ∧
      z.session.vars.get? Namespace.errorName = some (.text "Error thrown")) := by
  refine ⟨?_, ?_, ?_⟩
  · have hspares : Setting.trivial.Spares Namespace.errorName := fun _ _ => rfl
    have hhost : silent.Spares Namespace.errorName := fun _ _ _ _ => rfl
    refine ⟨_, _, _, _, _, _, rfl, reachable_of_after? (n := 1) rfl, ⟨rfl, ⟨_, _, _, rfl, rfl, rfl⟩, rfl⟩,
      .calm_step (.calm_step (.calm_step .start hspares hhost rfl ?_ ⟨_, .of_top rfl⟩ rfl) hspares hhost rfl ?_
        ⟨_, .of_top rfl⟩ rfl) hspares hhost rfl ?_ ⟨_, [(1, .guarded _)], rfl⟩ rfl, rfl, rfl, rfl⟩
    -- none of the three commands reads records, or is a part of the try
    all_goals
      rintro _ ⟨⟩
      refine ⟨?_, ?_, ?_⟩
      · rintro _ ⟨⟩
        rfl
      · intro h
        cases h
      · rintro ⟨_, ⟨⟩, -, ⟨⟩⟩
  · refine ⟨_, _, _, _, _, _, _, _, _, _, rfl, reachable_of_after? (n := 2) rfl, ⟨rfl, ⟨_, _, _, rfl, rfl, rfl⟩, rfl⟩,
      reachable_of_after? (n := 3) rfl, rfl, ⟨_, rfl, .inr ⟨_, rfl, rfl, rfl⟩⟩, rfl, rfl⟩
  · refine ⟨_, _, _, _, _, _, _, _, _, rfl, reachable_of_after? (n := 6) rfl, ⟨rfl, ⟨_, _, _, rfl, rfl, rfl⟩, rfl⟩,
      reachable_of_after? (n := 3) rfl, rfl, ⟨_, rfl, .inr ⟨_, rfl, rfl, rfl⟩⟩, rfl, rfl⟩

end

end BlockFlow.Flow
