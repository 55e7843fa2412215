/-
# Frames around the run

Where the constructs that are running hold a run.  A `Fence` says for a frame up to which part of its
construct the run stays while the frame is on its stack, and for a function where the run is while it
is called.  `Fence.Holds` says that the frames of a call hold an address: each of them begins before it
and is fenced after it, and the frames below hold its opener.  A jump may leave conditionals, so what
is below a conditional holds the address as well.

`Laid` says this of every call down to a `Ground`, which may be any stack at all.  Moves and offers keep
levels laid (`Move.laid`, `Move.laid_of_error`, `Offer.laid`) as long as they leave the ground alone.
-/
import BlockFlow.Proofs.Restacking

namespace BlockFlow.Flow

/-! ## 1. Fences -/

/-- Up to where frames hold the run, and where it is while a function is called. -/
structure Fence where
  bound : Frame → Option Address
  zone : Option Address → Address → Prop

namespace Fence

/-- **A fence that fits a suite**: it runs along closers and cleanup sections, and the zone of a function
is left by no step but the last one of the function. -/
structure Fair (F : Fence) (suite : Suite) : Prop where
  nested : suite.Nested
  part {f q} : f.Fits suite → F.bound f = some q →
    suite.Construct f.opener q ∨
      (∃ t, f = .guarded t ∧ t.cleaned = false) ∧ finallyOf? suite f.opener = some q
  inner {c o e p} : F.zone c o → suite.Construct o e → o < p → p ≤ e → F.zone c p
  after {c o e} : F.zone c o → suite.Construct o e → ¬suite.Opens .function o → F.zone c e.next
  next {c a} : F.zone c a → (∀ o, suite.Construct o a → suite.Opens .function o ∧ c ≠ some o) →
    F.zone c a.next
  jump {c a goal} : F.zone c a → suite.blockAt? a = none → suite.checkJump a goal = .ok () →
    F.zone c goal
  entry {o} : suite.Opens .function o → F.zone (some o) o

/-- **Frames hold an address**, in a call of a function or outside of every call. -/
def Holds (F : Fence) (c : Option Address) : List Frame → Address → Prop
  | [], r => F.zone c r
  | f :: fs, r => (∀ q, F.bound f = some q → f.opener < r ∧ r ≤ q) ∧
      (f.nature = .conditional → F.Holds c fs r) ∧ F.Holds c fs f.opener

variable {F : Fence} {suite : Suite} {c : Option Address} {f g : Frame} {fs above : List Frame}
  {a o e p q r : Address}

/-- A fence runs along parts of constructs. -/
theorem Fair.isPart (hF : F.Fair suite) (hf : f.Fits suite) (hq : F.bound f = some q) :
    suite.IsPart f.opener q := by
  rcases hF.part hf hq with he | ⟨-, hfin⟩
  · exact hF.nested.isPart_closer he
  · exact isPart_of_finallyOf? hF.nested hf hfin

theorem Fair.fenced_of_inner (hF : F.Fair suite) (hf : f.Fits suite) (hq : F.bound f = some q)
    (h : f.opener < o ∧ o ≤ q) (he : suite.Construct o e) : f.opener < o ∧ e < q := by
  have hpart := hF.isPart hf hq
  refine ⟨h.1, hF.nested.closer_lt_part hpart he h.1 (lt_of_le_of_ne h.2 ?_)⟩
  exact hpart.ne_opener he

/-- The frames below another one hold its opener. -/
theorem Holds.below (h : F.Holds c (above ++ f :: fs) r) : F.Holds c fs f.opener := by
  induction above generalizing r with
  | nil => exact h.2.2
  | cons g above ih => exact ih h.2.2

theorem Holds.exists_zone (h : F.Holds c fs r) : ∃ p, F.zone c p := by
  induction fs generalizing r with
  | nil => exact ⟨r, h⟩
  | cons f fs ih => exact ih h.2.2

/-- Frames that hold an opener hold everything inside its construct. -/
theorem Holds.inner (hF : F.Fair suite) (hfits : ∀ f ∈ fs, f.Fits suite) (h : F.Holds c fs o)
    (he : suite.Construct o e) (hop : o < p) (hpe : p ≤ e) : F.Holds c fs p := by
  induction fs with
  | nil => exact hF.inner h he hop hpe
  | cons f fs ih =>
    obtain ⟨hbound, hcond, hbelow⟩ := h
    refine ⟨fun q hq => ?_, fun hf => ih (fun g hg => hfits g (List.mem_cons_of_mem _ hg)) (hcond hf), hbelow⟩
    have := hF.fenced_of_inner (hfits f List.mem_cons_self) hq (hbound q hq) he
    exact ⟨this.1.trans hop, hpe.trans this.2.le⟩

/-- Frames that hold an opener hold what follows its construct. -/
theorem Holds.after (hF : F.Fair suite) (hfits : ∀ f ∈ fs, f.Fits suite) (h : F.Holds c fs o)
    (he : suite.Construct o e) (hfun : ¬suite.Opens .function o) : F.Holds c fs e.next := by
  induction fs with
  | nil => exact hF.after h he hfun
  | cons f fs ih =>
    obtain ⟨hbound, hcond, hbelow⟩ := h
    refine ⟨fun q hq => ?_, fun hf => ih (fun g hg => hfits g (List.mem_cons_of_mem _ hg)) (hcond hf), hbelow⟩
    have hf := hfits f List.mem_cons_self
    have := hF.fenced_of_inner hf hq (hbound q hq) he
    have hlt := this.1.trans (hF.nested.opener_lt_closer he)
    have hunit := hF.nested.unit_of_isPart (hF.isPart hf hq)
    refine ⟨hlt.trans e.lt_next, (Address.next_le_iff ?_).2 this.2⟩
    exact (Address.unit_eq_of_between hlt this.2.le hunit.symm).trans hunit.symm

/-- Frames that hold an address hold the next one, if none of them is fenced there. -/
theorem Holds.next (hF : F.Fair suite) (hfits : ∀ f ∈ fs, f.Fits suite) (h : F.Holds c fs a)
    (hne : ∀ f ∈ fs, F.bound f ≠ some a) (hz : F.zone c a → F.zone c a.next) :
    F.Holds c fs a.next := by
  induction fs with
  | nil => exact hz h
  | cons f fs ih =>
    obtain ⟨hbound, hcond, hbelow⟩ := h
    obtain ⟨hf, hfits⟩ := List.forall_mem_cons.1 hfits
    obtain ⟨hnf, hne⟩ := List.forall_mem_cons.1 hne
    refine ⟨fun q hq => ?_, fun hf => ih hfits (hcond hf) hne, hbelow⟩
    obtain ⟨hlt, hle⟩ := hbound q hq
    have hunit := hF.nested.unit_of_isPart (hF.isPart hf hq)
    refine ⟨hlt.trans a.lt_next, (Address.next_le_iff ?_).2 (lt_of_le_of_ne hle ?_)⟩
    · exact (Address.unit_eq_of_between hlt hle hunit.symm).trans hunit.symm
    · rintro rfl
      exact hnf hq

/-- A frame holds what is inside its construct and not after its fence. -/
theorem Holds.within (hF : F.Fair suite) (hfits : ∀ f ∈ fs, f.Fits suite) (h : F.Holds c fs f.opener)
    (hp : suite.Spans f.opener p) (hq : ∀ q, F.bound f = some q → p ≤ q) : F.Holds c (f :: fs) p := by
  obtain ⟨e, he, hlt, hle⟩ := hp
  exact ⟨fun q hbound => ⟨hlt, hq q hbound⟩, fun _ => h.inner hF hfits he hlt hle, h⟩

/-- The fence of a frame that is no try in want of its cleanup section is the closer. -/
theorem Fair.construct (hF : F.Fair suite) (hf : f.Fits suite)
    (hclean : ∀ t, f = .guarded t → t.cleaned = true) (hq : F.bound f = some q) :
    suite.Construct f.opener q := by
  rcases hF.part hf hq with he | ⟨⟨t, ht, hcl⟩, -⟩
  · exact he
  · rw [hclean t ht] at hcl
    cases hcl

/-- Nothing inside the construct of such a frame is after its fence. -/
theorem Fair.le_bound (hF : F.Fair suite) (hf : f.Fits suite)
    (hclean : ∀ t, f = .guarded t → t.cleaned = true) (hp : suite.Spans f.opener p)
    (hq : F.bound f = some q) : p ≤ q := by
  obtain ⟨e, he, -, hle⟩ := hp
  cases he.unique (hF.construct hf hclean hq)
  exact hle

/-- Such a frame holds everything inside its construct. -/
theorem Holds.within_construct (hF : F.Fair suite) (hfits : ∀ f ∈ fs, f.Fits suite)
    (h : F.Holds c fs f.opener) (hf : f.Fits suite) (hclean : ∀ t, f = .guarded t → t.cleaned = true)
    (hp : suite.Spans f.opener p) : F.Holds c (f :: fs) p :=
  h.within hF hfits hp fun _ hq => hF.le_bound hf hclean hp hq

/-- A frame holds a part of its construct that is not after the cleanup section. -/
theorem Holds.within_part (hF : F.Fair suite) (hfits : ∀ f ∈ fs, f.Fits suite) (h : F.Holds c fs f.opener)
    (hf : f.Fits suite) (hp : suite.IsPart f.opener p)
    (hlast : ∀ q, finallyOf? suite f.opener = some q → p ≤ q) : F.Holds c (f :: fs) p := by
  refine h.within hF hfits (hF.nested.spans_of_isPart hp) fun q hq => ?_
  rcases hF.part hf hq with he | ⟨-, hfin⟩
  · obtain ⟨e, he', -, hle⟩ := hF.nested.spans_of_isPart hp
    cases he.unique he'
    exact hle
  · exact hlast q hfin

/-- A jump stays on the same side of the fence of a loop or a try. -/
theorem Fair.fenced_of_jump (hF : F.Fair suite) (hf : f.Fits suite) (hnature : f.nature ≠ .conditional)
    (hq : F.bound f = some q) (h : f.opener < a ∧ a ≤ q) (hunlinked : suite.blockAt? a = none)
    (hj : suite.checkJump a p = .ok ()) : f.opener < p ∧ p ≤ q := by
  have hpart := hF.isPart hf hq
  have hlt : a < q := by
    refine lt_of_le_of_ne h.2 ?_
    rintro rfl
    obtain ⟨b, hb, -⟩ := hpart
    cases hunlinked.symm.trans hb
  obtain ⟨e, he, -, hqe⟩ := hF.nested.spans_of_isPart hpart
  have hborders : suite.Borders f.opener a := ⟨⟨e, he, h.1, h.2.trans hqe⟩, f.nature, hnature, hf.1⟩
  obtain ⟨e', he', hop, hpe⟩ := hF.nested.spans_of_checkJump hj (hF.nested.not_closesTry hunlinked) hborders
  cases he.unique he'
  refine ⟨hop, ?_⟩
  rcases hF.part hf hq with hcl | ⟨-, hfin⟩
  · cases he.unique hcl
    exact hpe
  · obtain ⟨b, hb, hbq⟩ := Option.bind_eq_some_iff.1 hfin
    have := hF.nested.le_section_iff_of_checkJump hj (hF.nested.not_closesTry hunlinked) hborders hb
      hpart (.inr hbq)
    exact (not_le.1 fun hqp => not_le.2 hlt (this.2 hqp)).le

/-- **Frames that are left after a jump** hold its goal. -/
theorem Holds.jump (hF : F.Fair suite) (hfits : ∀ f ∈ fs, f.Fits suite) (h : F.Holds c fs a)
    (hunlinked : suite.blockAt? a = none) (hj : suite.checkJump a p = .ok ()) {R fs' : List Frame}
    (hleft : keepSpanning suite p (fs ++ R) = fs' ++ R) : F.Holds c fs' p := by
  induction fs with
  | nil =>
    obtain ⟨left, hR, -⟩ := exists_keepSpanning suite p R
    have hlen := congrArg List.length hR
    rw [show keepSpanning suite p R = fs' ++ R from hleft, List.length_append, List.length_append] at hlen
    have hnil : fs' = [] := List.length_eq_zero_iff.1 (by omega)
    rw [hnil]
    exact hF.jump h hunlinked hj
  | cons f fs ih =>
    obtain ⟨hf, hrest⟩ := List.forall_mem_cons.1 hfits
    obtain ⟨hbound, hcond, hbelow⟩ := h
    have hkept (hnature : f.nature ≠ .conditional) : F.Holds c (f :: fs) p :=
      ⟨fun q hq => hF.fenced_of_jump hf hnature hq (hbound q hq) hunlinked hj,
        fun hn => absurd hn hnature, hbelow⟩
    cases f with
    | loop l =>
      obtain rfl := List.append_cancel_right (show (.loop l :: fs) ++ R = fs' ++ R from hleft)
      exact hkept nofun
    | guarded t =>
      obtain rfl := List.append_cancel_right (show (.guarded t :: fs) ++ R = fs' ++ R from hleft)
      exact hkept nofun
    | conditional i =>
      rw [List.cons_append, keepSpanning] at hleft
      split at hleft
      · rename_i hspans
        obtain rfl := List.append_cancel_right (show (.conditional i :: fs) ++ R = fs' ++ R from hleft)
        simp only [IfFrame.spans, Bool.and_eq_true, decide_eq_true_eq, Option.any_eq_true] at hspans
        obtain ⟨hlt, e, he, hle⟩ := hspans
        obtain ⟨b, hb, hbe⟩ := Option.bind_eq_some_iff.1 he
        have hcon : suite.Construct i.opener e := by
          obtain ⟨⟨b', hb', hn⟩, -⟩ := hf
          cases hb.symm.trans hb'
          exact ⟨b, hb, by rw [hn]; rfl, hbe⟩
        refine ⟨fun q hq => ?_, fun _ => Holds.inner hF hrest hbelow hcon hlt hle, hbelow⟩
        rcases hF.part hf hq with hcl | ⟨⟨t, ht, -⟩, -⟩
        · cases hcon.unique hcl
          exact ⟨hlt, hle⟩
        · cases ht
      · exact ih hrest (hcond rfl) hleft

end Fence

/-! ## 2. Levels over a ground -/

/-- What a run does not touch: frames of one call, and the levels around it. -/
structure Ground where
  rest : List Frame := []
  outer : List Level := []

/-- Levels that reach down to a ground.  If there are frames in it then there are others over them. -/
def Ground.Carries (G : Ground) (ls : List Level) : Prop :=
  ∃ up fs r c, ls = up ++ ⟨fs ++ G.rest, r, c⟩ :: G.outer ∧ (fs = [] → G.rest = [])

/-- **Levels whose frames hold the place of their call**, down to a ground. -/
inductive Laid (F : Fence) (G : Ground) : List Level → Prop
  | floor {fs : List Frame} {r : Address} {c : Option Address} (holds : F.Holds c fs r) :
      Laid F G (⟨fs ++ G.rest, r, c⟩ :: G.outer)
  | call {L : Level} {ls : List Level} (holds : F.Holds L.callee L.blocks L.place)
      (below : Laid F G ls) : Laid F G (L :: ls)

section

variable {F : Fence} {G : Ground} {L : Level} {pre post : List Level} {bs bs' : List Frame}
  {c : Option Address} {a p : Address}

/-- The innermost level changes. -/
theorem Laid.retop (h : Laid F G (⟨bs, a, c⟩ :: post)) (hG : G.Carries (⟨bs', p, c⟩ :: post))
    (hbs : ∀ fs fs' R, bs = fs ++ R → bs' = fs' ++ R → (fs' = [] → R = []) → F.Holds c fs a →
      F.Holds c fs' p) : Laid F G (⟨bs', p, c⟩ :: post) := by
  cases h with
  | @floor fs _ _ holds =>
    obtain ⟨up, fs', r', c', heq, hnil⟩ := hG
    have hlen := congrArg List.length heq
    rw [List.length_cons, List.length_append, List.length_cons] at hlen
    have hup : up = [] := List.length_eq_zero_iff.1 (by omega)
    subst hup
    obtain ⟨hL, -⟩ := List.cons.inj heq
    cases hL
    exact .floor (hbs fs fs' G.rest rfl rfl hnil holds)
  | call holds below =>
    have := hbs bs bs' [] (List.append_nil _).symm (List.append_nil _).symm (fun _ => rfl) holds
    exact .call this below

/-- Levels around a level that is over the ground. -/
theorem Laid.uncover (h : Laid F G (pre ++ L :: post)) (hlen : G.outer.length ≤ post.length) :
    Laid F G (L :: post) := by
  induction pre with
  | nil => exact h
  | cons M pre ih =>
    rw [List.cons_append] at h
    generalize hls : M :: (pre ++ L :: post) = ls at h
    cases h with
    | floor holds =>
      have := congrArg List.length (List.cons.inj hls).2
      rw [List.length_append, List.length_cons] at this
      omega
    | call holds below =>
      obtain ⟨-, rfl⟩ := List.cons.inj hls
      exact ih below

/-- The frame that a level is cut down to. -/
theorem Fence.Holds.cut (above : List Frame) {rest fs fs' R : List Frame} {f f' : Frame}
    (h : F.Holds c fs a) (hbs : above ++ f :: rest = fs ++ R) (hbs' : f' :: rest = fs' ++ R)
    (hnil : fs' = [] → R = []) : ∃ inner, fs' = f' :: inner ∧ F.Holds c inner f.opener := by
  cases fs' with
  | nil =>
    rw [hnil rfl] at hbs'
    cases hbs'
  | cons g inner =>
    obtain ⟨rfl, rfl⟩ := List.cons.inj hbs'
    have hfs : above ++ f :: inner = fs := by
      refine List.append_cancel_right (?_ : _ ++ R = _ ++ R)
      rw [List.append_assoc]
      exact hbs
    exact ⟨inner, rfl, (hfs ▸ h).below⟩

end

/-! ## 3. Sessions over a ground -/

theorem Ground.Carries.length {G : Ground} {L : Level} {post : List Level} (h : G.Carries (L :: post)) :
    G.outer.length ≤ post.length := by
  obtain ⟨up, fs, r, c, heq, -⟩ := h
  have := congrArg List.length heq
  rw [List.length_cons, List.length_append, List.length_cons] at this
  omega

/-- Levels that are cut down to levels over the ground are over the ground. -/
theorem Ground.Carries.of_cut {G : Ground} {pre post ls ls' : List Level} {L : Level}
    {above rest : List Frame} {f f' : Frame} {r : Address} (h : G.Carries ls')
    (hls : ls = pre ++ L :: post) (hb : L.blocks = above ++ f :: rest)
    (hls' : ls' = ⟨f' :: rest, r, L.callee⟩ :: post) : G.Carries ls := by
  subst hls hls'
  obtain ⟨up, fs, q, c, heq, hnil⟩ := h
  cases up with
  | cons M up =>
    obtain ⟨-, rfl⟩ := List.cons.inj heq
    exact ⟨pre ++ L :: up, fs, q, c, by simp, hnil⟩
  | nil =>
    obtain ⟨hL, rfl⟩ := List.cons.inj heq
    obtain ⟨bs, p, d⟩ := L
    dsimp only at hb hL
    cases fs with
    | nil =>
      rw [hnil rfl] at hL
      cases hL
    | cons g fs =>
      cases hL
      refine ⟨pre, above ++ f :: fs, p, c, ?_, fun h => by simp at h⟩
      rw [hb]
      simp

/-- Every stack reaches down to the bottom. -/
theorem Ground.carries_bottom {ls : List Level} (h : ls ≠ []) : (⟨[], []⟩ : Ground).Carries ls := by
  obtain ⟨up, L, rfl⟩ := List.eq_nil_or_concat ls |>.resolve_left h
  refine ⟨up, L.blocks, L.place, L.callee, ?_, fun _ => rfl⟩
  rw [List.concat_eq_append, List.append_nil]

namespace Session

variable (s : Session)

/-- The levels of the calls that have not ended. -/
def standing (r : Address) : List Level :=
  match s.sites with
  | [] => s.levels r
  | c :: _ => if c.returning then s.outer else s.levels r

variable {s}

theorem Running.standing (h : s.Running) (r : Address) : s.standing r = s.levels r := by
  unfold Session.standing
  cases hs : s.sites with
  | nil => rfl
  | cons c calls => simp [h c (by rw [hs]; exact List.mem_cons_self)]

/-- **The frames of a session hold** the address at which it goes on, or its innermost loop is to begin
another pass there. -/
def Stands (F : Fence) (G : Ground) (s : Session) (r : Address) : Prop :=
  Laid F G (s.standing r) ∨ ∃ l rest, s.blocks = .loop l :: rest ∧ l.reentering ∧ l.opener = r ∧
    Laid F G (s.levels r.next)

end Session

section

variable {F : Fence} {G : Ground} {s s' : Session} {a p : Address} {f : Frame} {rest bs : List Frame}

/-- A session that is laid at the command it is about to run, unless its innermost loop is to begin
another pass. -/
theorem Session.Stands.laid (h : s.Stands F G a) (hr : s.Running)
    (hagain : ∀ l rest, s.blocks = .loop l :: rest → l.opener ≠ a) : Laid F G (s.levels a) := by
  rcases h with h | ⟨l, rest, hs, -, ho, -⟩
  · rwa [hr.standing] at h
  · exact absurd ho (hagain l rest hs)

/-- A session that stands somewhere is laid somewhere. -/
theorem Session.Stands.exists_laid (h : s.Stands F G a) (hr : s.Running) : ∃ r, Laid F G (s.levels r) := by
  rcases h with h | ⟨-, -, -, -, -, h⟩
  · exact ⟨_, hr.standing a ▸ h⟩
  · exact ⟨_, h⟩

/-- The constructs of the innermost call change. -/
theorem Laid.setLevel (h : Laid F G (s.levels a)) (hf : s.Fitted) (hr : s.Restacks bs s')
    (hG : G.Carries (s'.levels p))
    (hbs : ∀ fs fs' R, s.blocks = fs ++ R → bs = fs' ++ R → (fs' = [] → R = []) →
      (∀ f ∈ fs, f.Fits s.suite) → F.Holds s.callee? fs a → F.Holds s.callee? fs' p) :
    Laid F G (s'.levels p) := by
  unfold Session.levels Session.level at h hG ⊢
  rw [hr.blocks, hr.outer, hr.callee] at hG ⊢
  refine h.retop hG fun fs fs' R hfs hfs' hnil => hbs fs fs' R hfs hfs' hnil fun f hff => ?_
  exact hf.blocks f (by rw [hfs]; exact List.mem_append_left _ hff)

/-- The run goes on elsewhere in the innermost construct. -/
theorem Laid.inTop (h : Laid F G (s.levels a)) (hf : s.Fitted) (hs : s.blocks = f :: rest)
    (hr : s.Restacks s.blocks s') (hG : G.Carries (s'.levels p))
    (hbs : ∀ fs, (∀ f ∈ fs, f.Fits s.suite) → F.Holds s.callee? fs f.opener →
      F.Holds s.callee? (f :: fs) p) : Laid F G (s'.levels p) := by
  refine h.setLevel hf hr hG fun fs fs' R hfs hfs' hnil hfits hholds => ?_
  rw [hs] at hfs hfs'
  obtain ⟨inner, rfl, hinner⟩ := hholds.cut [] hfs hfs' hnil
  have hrest := List.append_cancel_right (hfs.symm.trans hfs')
  exact hbs inner (fun g hg => hfits g (by rw [hrest]; exact List.mem_cons_of_mem _ hg)) hinner

/-- The innermost construct is left. -/
theorem Laid.tail (h : Laid F G (s.levels a)) (hf : s.Fitted) (hs : s.blocks = f :: rest)
    (hr : s.Restacks rest s') (hG : G.Carries (s'.levels p))
    (hbs : ∀ fs R, rest = fs ++ R → (∀ f ∈ fs, f.Fits s.suite) → F.Holds s.callee? fs f.opener →
      F.Holds s.callee? fs p) : Laid F G (s'.levels p) := by
  refine h.setLevel hf hr hG fun fs fs' R hfs hfs' hnil hfits hholds => ?_
  rw [hs] at hfs
  have hrest := List.append_cancel_right
    (hfs.symm.trans (congrArg (f :: ·) hfs') : fs ++ R = (f :: fs') ++ R)
  subst hrest
  exact hbs fs' R hfs' (fun g hg => hfits g (List.mem_cons_of_mem _ hg)) hholds.2.2

/-- Calls end and constructs are left, and the innermost construct that remains changes. -/
theorem Laid.cutTo (h : Laid F G (s.levels a)) (hf : s.Fitted) {pre post : List Level} {L : Level}
    {above rest : List Frame} {f f' : Frame} (hl : s.levels a = pre ++ L :: post)
    (hL : L.blocks = above ++ f :: rest) (hs' : s'.levels p = ⟨f' :: rest, p, L.callee⟩ :: post)
    (hG : G.Carries (s'.levels p))
    (hbs : ∀ fs, (∀ f ∈ fs, f.Fits s.suite) → F.Holds L.callee fs f.opener →
      F.Holds L.callee (f' :: fs) p) : Laid F G (s'.levels p) := by
  rw [hs'] at hG ⊢
  have hmem : ∀ g ∈ L.blocks, g.Fits s.suite := fun g hg =>
    hf.fits g ((s.mem_frames_iff a).2 ⟨L, by rw [hl]; simp, hg⟩)
  rw [hl] at h
  have hlaid := h.uncover hG.length
  refine Laid.retop (show Laid F G (⟨L.blocks, L.place, L.callee⟩ :: post) from hlaid) hG
    fun fs fs' R hfs hfs' hnil hholds => ?_
  obtain ⟨inner, rfl, hinner⟩ := hholds.cut above (hL.symm.trans hfs) hfs' hnil
  refine hbs inner (fun g hg => hmem g ?_) hinner
  obtain ⟨-, hrest⟩ := List.cons.inj hfs'
  rw [hL, hrest]
  exact List.mem_append_right _ (List.mem_cons_of_mem _ (List.mem_append_left _ hg))

end

/-! ## 4. Commands at which no frame is fenced -/

theorem not_opens_of_keyword {suite : Suite} {a : Address} (hn : suite.Nested) {k : Keyword} {n : Nature}
    (hk : suite.keywordAt? a = some k) (hne : k.opens? ≠ some n) : ¬suite.Opens n a := by
  rintro ⟨b, hb, hnat⟩
  have hkey := hn.keyword hb
  rw [hk] at hkey
  rw [Option.some.inj hkey] at hne
  exact hne hnat

section

variable {F : Fence} {G : Ground} {s s' : Session} {a : Address} {goal : Goal}

/-- The command of a transfer opens nothing, and is no part of a construct but of a function. -/
theorem Session.Transfers.keyword (h : s.Transfers a goal) : ∃ k, s.suite.keywordAt? a = some k ∧
    k.opens? = none ∧ ∀ q, k.partOf? = some q → q.opens? = some .function := by
  obtain ⟨k, hk, hgoal⟩ := Option.bind_eq_some_iff.1 h.carries
  refine ⟨k, hk, ?_⟩
  cases k <;> first | cases hgoal; done | exact ⟨rfl, by rintro q ⟨⟩; rfl⟩ | exact ⟨rfl, nofun⟩

theorem Frame.nature_ne_function (f : Frame) : f.nature ≠ .function := by
  cases f <;> nofun

theorem Frame.Fits.not_function {suite : Suite} {f : Frame} (hf : f.Fits suite) :
    ¬suite.Opens .function f.opener := by
  rintro ⟨b, hb, hn⟩
  exact f.nature_ne_function (Option.some.inj ((hf.nature_eq hb).symm.trans hn))

/-- No frame is fenced at the command of a transfer. -/
theorem Session.Transfers.not_fenced (h : s.Transfers a goal) (hF : F.Fair s.suite) {f : Frame}
    (hf : f.Fits s.suite) : F.bound f ≠ some a := by
  intro hq
  obtain ⟨c, hc, ho, hpart⟩ := hF.isPart hf hq
  obtain ⟨k, hk, -, hfun⟩ := h.keyword
  have hkey := hF.nested.keyword hc
  rw [hk] at hkey
  cases hkey
  obtain ⟨q, hqk⟩ := Option.isSome_iff_exists.1 hpart
  obtain ⟨o, b, ho', hb, hbk, -⟩ := hF.nested.exists_owner hc hqk
  cases ho.symm.trans ho'
  refine hf.not_function ⟨b, hb, ?_⟩
  rw [Block.nature?, hbk]
  exact hfun q hqk

/-- No frame is fenced at a command from which the run goes on to the next one. -/
theorem Session.Passable.not_fenced (h : s.Passable a) (hF : F.Fair s.suite) {f : Frame}
    (hf : f.Fits s.suite) : F.bound f ≠ some a := by
  intro hq
  rcases hF.part hf hq with he | ⟨-, hfin⟩
  · exact hf.not_function (h.2 _ he).1
  · exact h.1 (keywordAt?_of_finallyOf? hF.nested hf hfin)

/-- A command that opens no loop is not the one at which the innermost loop begins another pass. -/
theorem Session.Fitted.ne_of_not_opens (h : s.Fitted) (hk : ¬s.suite.Opens .loop a) {l : LoopFrame}
    {rest : List Frame} (hs : s.blocks = .loop l :: rest) : l.opener ≠ a := by
  rintro rfl
  exact hk (h.top hs).1

/-- No move but the end of a function leaves a call about to end. -/
theorem Move.running {x : Except Fault Unit} (m : Move a s x s') (hr : s.Running) : s'.Running ∨
    ∃ c calls v, s.Transfers a .function ∧ s.calls = c :: calls ∧
      s' = s.markReturning.proceed (some c.returnTo) v := by
  have hdrop (k : Nat) (h : s'.sites = s.sites.drop k) : s'.Running := fun c hc =>
    hr c (List.mem_of_mem_drop (h ▸ hc))
  have hsuspends {u : Session} {origin : Address} {goal : Goal} (hu : u.sites = s.sites)
      (hsus : Suspends origin goal u s') : s'.Running := by
    obtain ⟨clean, blocks, owes, hsection⟩ := hsus
    rename_i k n t rest p v
    refine hdrop k ?_
    rw [← hu, ← Session.sites_abortCalls]
    exact (Session.sites_setBlocks _ _).trans (Session.sites_drop _ n)
  cases m with
  | stay | skipHandler | skipFunction | replace | exit => exact .inl (hdrop 0 rfl)
  | jump | enter | enterTry | branch | reachFinally | closeTry | repeat_ | again | rethrow | resume =>
    exact .inl (hdrop 0 (s.sites_setBlocks _))
  | leave => exact .inl (hdrop 0 (s.sites_drop 1))
  | @resuspend t rest d ds _ _ _ top closer active deferred resumeAt depth work suspends =>
    exact .inl (hsuspends (u := (s.leaveTry t rest).withDeferred ds) (s.sites_setBlocks _) suspends)
  | suspend transfers stays suspends => exact .inl (hsuspends rfl suspends)
  | breakLoop | continueLoop =>
    exact .inl (hdrop 0 ((Session.sites_setBlocks _ _).trans (s.sites_drop _)))
  | adrift => exact .inl (hdrop 0 (s.sites_drop _))
  | returnFrom transfers stays clear call => exact .inr ⟨_, _, _, transfers, call, rfl⟩
  | enterCall =>
    refine .inl fun d hd => ?_
    rcases List.mem_cons.1 hd with rfl | hd
    · rfl
    · exact hr d hd

/-- Around an ended call there is the level that it returns to. -/
theorem Session.standing_markReturning {c : Call} {calls : List Call} (hc : s.calls = c :: calls)
    (p? : Option Address) (v : Namespace) (r : Address) :
    (s.markReturning.proceed p? v).standing r = s.outer := by
  unfold Session.standing
  rw [Session.sites_proceed, Session.sites_markReturning hc]
  exact Session.outer_markReturning hc

theorem Session.outer_ne_nil {c : Call} {calls : List Call} (hc : s.calls = c :: calls) : s.outer ≠ [] := by
  intro ho
  have := congrArg List.length ho
  rw [s.length_outer, hc] at this
  cases this

/-- The levels around the innermost one, if they are over the ground. -/
theorem Laid.outer (h : Laid F G (s.levels a)) (hne : s.outer ≠ []) (hG : G.Carries s.outer) :
    Laid F G s.outer := by
  obtain ⟨L, post, ho⟩ := List.exists_cons_of_ne_nil hne
  rw [Session.levels, ho] at h
  rw [ho] at hG ⊢
  exact Laid.uncover (show Laid F G ([s.level a] ++ L :: post) from h) hG.length

end

/-! ## 5. The command that is about to run -/

section

variable {F : Fence} {G : Ground} {s : Session} {a : Address} {goal : Goal} {f : Frame} {rest : List Frame}

/-- No loop begins another pass at a command that opens none. -/
theorem Session.Stands.laid_of_not_opens (h : s.Stands F G a) (hr : s.Running) (hf : s.Fitted)
    (hk : ¬s.suite.Opens .loop a) : Laid F G (s.levels a) :=
  h.laid hr fun _ _ => hf.ne_of_not_opens hk

theorem Session.Stands.laid_of_transfers (h : s.Stands F G a) (hr : s.Running) (hf : s.Fitted)
    (ht : s.Transfers a goal) : Laid F G (s.levels a) := by
  obtain ⟨k, hk, hne, -⟩ := ht.keyword
  exact h.laid_of_not_opens hr hf (not_opens_of_keyword hf.nested hk (by rw [hne]; rintro ⟨⟩))

theorem Session.Stands.laid_of_top (h : s.Stands F G a) (hr : s.Running) (hs : s.blocks = f :: rest)
    (hf : ∀ l, f ≠ .loop l) : Laid F G (s.levels a) := by
  refine h.laid hr fun l rest' hs' => ?_
  cases hs.symm.trans hs'
  exact absurd rfl (hf l)

/-- No loop begins another pass at its closer. -/
theorem Session.Stands.laid_at_closer (h : s.Stands F G a) (hr : s.Running) (hn : s.suite.Nested)
    (hs : s.blocks = f :: rest) (he : s.suite.Construct f.opener a) : Laid F G (s.levels a) := by
  refine h.laid hr fun l rest' hs' ho => ?_
  cases hs.symm.trans hs'
  have := hn.opener_lt_closer he
  rw [show Frame.opener (.loop l) = a from ho] at this
  exact lt_irrefl a this

end

/-! ## 6. The ways to stay laid -/

section

variable {F : Fence} {G : Ground} {s s' : Session} {a p r : Address} {goal : Goal} {f f' : Frame}
  {above rest : List Frame}

/-- The run goes on to the next command, in the same constructs. -/
theorem Laid.next (h : Laid F G (s.levels a)) (hf : s.Fitted) (hF : F.Fair s.suite)
    (hr : s.Restacks s.blocks s') (hG : G.Carries (s'.levels a.next))
    (hne : ∀ f, f.Fits s.suite → F.bound f ≠ some a)
    (hz : F.zone s.callee? a → F.zone s.callee? a.next) : Laid F G (s'.levels a.next) := by
  refine h.setLevel hf hr hG fun fs fs' R hfs hfs' _ hfits hholds => ?_
  obtain rfl := List.append_cancel_right (hfs.symm.trans hfs')
  exact hholds.next hF hfits (fun f hf => hne f (hfits f hf)) hz

/-- The run goes on at the closer of a construct that it did not enter. -/
theorem Laid.skip (h : Laid F G (s.levels a)) (hf : s.Fitted) (hF : F.Fair s.suite)
    (hr : s.Restacks s.blocks s') (hG : G.Carries (s'.levels p)) (he : s.suite.Construct a p) :
    Laid F G (s'.levels p) := by
  refine h.setLevel hf hr hG fun fs fs' R hfs hfs' _ hfits hholds => ?_
  obtain rfl := List.append_cancel_right (hfs.symm.trans hfs')
  exact hholds.inner hF hfits he (hf.nested.opener_lt_closer he) le_rfl

/-- A construct is entered, and the run goes on inside it and not after its fence. -/
theorem Laid.enter (h : Laid F G (s.levels f.opener)) (hf : s.Fitted) (hF : F.Fair s.suite)
    (hr : s.Restacks (f :: s.blocks) s') (hG : G.Carries (s'.levels p)) (hp : s.suite.Spans f.opener p)
    (hq : ∀ q, F.bound f = some q → p ≤ q) : Laid F G (s'.levels p) := by
  refine h.setLevel hf hr hG fun fs fs' R hfs hfs' _ hfits hholds => ?_
  rw [hfs, ← List.cons_append] at hfs'
  obtain rfl := List.append_cancel_right hfs'
  exact hholds.within hF hfits hp hq

/-- The innermost construct is left by its closer, and the run goes on after it. -/
theorem Session.Closes.laid_next (h : s.Closes a f rest s') (hl : s.Stands F G a) (hr : s.Running) (hf : s.Fitted)
    (hF : F.Fair s.suite) (hG : G.Carries (s'.levels a.next)) : Laid F G (s'.levels a.next) :=
  (hl.laid_at_closer hr hf.nested h.top h.closer).tail hf h.top h.after hG fun _ _ _ hfits hholds =>
    hholds.after hF hfits h.closer (hf.top h.top).not_function

/-- The innermost construct was left by its closer, at which the session still is. -/
theorem Session.Closes.laid (h : s.Closes a f rest s') (hl : s.Stands F G a) (hr : s.Running) (hf : s.Fitted)
    (hF : F.Fair s.suite) (hG : G.Carries (s'.levels a)) : Laid F G (s'.levels a) :=
  (hl.laid_at_closer hr hf.nested h.top h.closer).tail hf h.top h.after hG fun _ _ _ hfits hholds =>
    hholds.inner hF hfits h.closer (hf.nested.opener_lt_closer h.closer) le_rfl

/-- A construct goes on, and the run is inside it. -/
theorem Session.Turns.laid (h : s.Turns a above f f' rest s') (hl : Laid F G (s.levels r)) (hf : s.Fitted)
    (hF : F.Fair s.suite) (hG : G.Carries (s'.levels p)) (hp : s.suite.Spans f.opener p) :
    Laid F G (s'.levels p) := by
  have hlevels : s'.levels p = ⟨f' :: rest, p, (s.level r).callee⟩ :: s.outer := by
    rw [Session.levels, Session.level, h.after.blocks, h.after.outer, h.after.callee]
    rfl
  refine hl.cutTo hf (show s.levels r = [] ++ s.level r :: s.outer from rfl) h.before hlevels hG
    fun fs hfits hholds => ?_
  rw [← h.opener] at hholds hp
  exact hholds.within_construct hF hfits h.fits h.cleaned hp

/-- **A construct that goes on** keeps the session laid. -/
theorem Session.Turns.stands (h : s.Turns a above f f' rest s') (hl : s.Stands F G a) (hr : s.Running)
    (hr' : s'.Running) (hf : s.Fitted) (hF : F.Fair s.suite) (hG : ∀ r, G.Carries (s'.levels r)) :
    s'.Stands F G (s'.pending.getD a.next) := by
  obtain ⟨r, hlaid⟩ := hl.exists_laid hr
  have hopens := (hf.blocks f (by rw [h.before]; simp)).1
  rcases h.goesOn.spans hf.nested hopens with hp | hspans
  · -- the loop is to begin another pass at its opener
    obtain ⟨l, rfl, hre⟩ := h.reenters hp
    obtain ⟨e, he⟩ := hf.nested.exists_construct_of_opens hopens
    rw [hp]
    exact .inr ⟨l, rest, h.after.blocks, hre, h.opener,
      h.laid hlaid hf hF (hG _) (hf.nested.spans_opener_next he)⟩
  · refine .inl ?_
    rw [hr'.standing]
    exact h.laid hlaid hf hF (hG _) hspans

/-- All constructs of the innermost call are left, so that any place in the zone of its function will do. -/
theorem Laid.exists_of_empty (h : Laid F G (s.levels a)) (hf : s.Fitted) (hr : s.Restacks [] s')
    (hG : ∀ p, G.Carries (s'.levels p)) : ∃ p, Laid F G (s'.levels p) := by
  obtain ⟨p, hp⟩ : ∃ p, (∃ q, F.zone s.callee? q) → F.zone s.callee? p := by
    by_cases hz : ∃ q, F.zone s.callee? q
    · obtain ⟨q, hq⟩ := hz
      exact ⟨q, fun _ => hq⟩
    · exact ⟨a, fun h => absurd h hz⟩
  refine ⟨p, h.setLevel hf hr (hG p) fun fs fs' R _ hfs' _ _ hholds => ?_⟩
  obtain ⟨rfl, -⟩ := List.append_eq_nil_iff.1 hfs'.symm
  exact hp hholds.exists_zone

/-- A transfer waits, and the run goes on in the cleanup section that it waits for. -/
theorem Suspends.laid {origin r : Address} (h : Suspends origin goal s s') (hl : Laid F G (s.levels r))
    (hf : s.Fitted) (hF : F.Fair s.suite) (hG : ∀ r, G.Carries (s'.levels r)) (d : Address) :
    Laid F G (s'.levels (s'.pending.getD d)) := by
  obtain ⟨pre, L, post, above, t, rest, p, hlev, hb, -, hsec, hp, hlev', -⟩ := h.levels r
  have hfit : Frame.Fits s.suite (.guarded t) :=
    hf.fits _ ((s.mem_frames_iff r).2 ⟨L, by rw [hlev]; simp, by rw [hb]; simp⟩)
  have hspans := hf.nested.spans_of_isPart (isPart_of_finallyOf? hf.nested hfit hsec)
  rw [hp]
  refine hl.cutTo hf hlev hb (hlev' p) (hG p) fun fs hfits hholds => ?_
  exact hholds.within_construct (f := .guarded t.enterCleanup) hF hfits hfit.enterCleanup
    (by rintro _ ⟨⟩; rfl) hspans

end

/-! ## 7. Moves keep sessions laid -/

section

variable {F : Fence} {G : Ground} {s s' : Session} {a : Address}

/-- **Moves keep sessions laid** if they leave the ground alone, if a transfer that is taken up was made
inside the frames, and if a transfer that is put in the place of other work is not the last command of
its function.  A move that fails leaves the session laid somewhere. -/
theorem Move.laid {x : Except Fault Unit} (m : Move a s x s') (h : s.Ready) (hs : s.Sound a) (hF : F.Fair s.suite)
    (hl : s.Stands F G a) (hG : ∀ r, G.Carries (s'.standing r))
    (hresume : ∀ t rest d ds origin goal, s.Resumes a t rest d ds origin goal → ∀ fs R,
      rest = fs ++ R → F.Holds s.callee? fs t.opener → F.Holds s.callee? fs origin)
    (hreplace : ∀ d ds goal, s.Transfers a goal → s.deferred = d :: ds → s.leavesCleanup d goal →
      F.zone s.callee? a → F.zone s.callee? a.next) :
    s'.Stands F G (s'.pending.getD a.next) ∨ x ≠ .ok () ∧ ∃ r, Laid F G (s'.levels r) := by
  have hrun := h.runs hs
  have hn := h.nested
  have hf := h.toFitted
  have htransfer {goal : Goal} (ht : s.Transfers a goal) : Laid F G (s.levels a) :=
    hl.laid_of_transfers hrun hf ht
  rcases m.running hrun with hrun' | ⟨c, calls, v, ht, hc, rfl⟩
  rotate_left
  · -- the call that has ended no longer stands
    have hstanding := Session.standing_markReturning hc (some c.returnTo) v
    refine .inl (.inl ?_)
    rw [hstanding]
    exact (htransfer ht).outer (Session.outer_ne_nil hc) (hstanding a ▸ hG a)
  have hG' (r : Address) : G.Carries (s'.levels r) := hrun'.standing r ▸ hG r
  have hstand {r : Address} (hl : Laid F G (s'.levels r)) :
      s'.Stands F G r ∨ x ≠ .ok () ∧ ∃ r, Laid F G (s'.levels r) :=
    .inl (.inl (by rwa [hrun'.standing]))
  have hturn {above rest : List Frame} {f f' : Frame} (ht : s.Turns a above f f' rest s') :
      s'.Stands F G (s'.pending.getD a.next) ∨ x ≠ .ok () ∧ ∃ r, Laid F G (s'.levels r) :=
    .inl (ht.stands hl hrun hrun' hf hF hG')
  have hclose {f : Frame} {rest : List Frame} (hc : s.Closes a f rest s') : Laid F G (s'.levels a.next) :=
    hc.laid_next hl hrun hf hF (hG' _)
  cases m with
  | stay pass =>
    by_cases hx : x = .ok ()
    · rcases hl with hl | ⟨l, rest, hb, hre, rfl, hl⟩
      · rw [hrun.standing] at hl
        exact hstand (hl.next hf hF (.proceed .refl _ _) (hG' _) (fun f hf => (pass hx).not_fenced hF hf)
          fun hz => hF.next hz (pass hx).closer)
      · exact hstand hl
    · exact .inr ⟨hx, hl.exists_laid hrun⟩
  | jump unlinked keyword accepted =>
    have hlaid := hl.laid_of_not_opens hrun hf (by rintro ⟨b, hb, -⟩; cases unlinked.symm.trans hb)
    exact hstand (hlaid.setLevel hf ((Session.Restacks.setBlocks _).proceed _ _) (hG' _)
      fun fs fs' R hfs hfs' _ hfits hholds => hholds.jump hF hfits unlinked accepted (hfs ▸ hfs'))
  | @enter f r p? v fits opener noTry fresh again part =>
    subst opener
    have hlaid : Laid F G (s.levels f.opener) := by
      rcases hl with hl | ⟨l, rest, hb, hre, ho, -⟩
      · rwa [hrun.standing] at hl
      · exact absurd ho (again l rest hb hre)
    have hspans := hn.spans_from_opener fits.1 part
    exact hstand (hlaid.enter hf hF ((Session.Restacks.setBlocks _).proceed _ _) (hG' _) hspans
      fun q hq => hF.le_bound fits (fun t ht => absurd ht (noTry t)) hspans hq)
  | @enterTry t v fits opener phase caught cleaned =>
    subst opener
    have hlaid := hl.laid_of_not_opens hrun hf fun ⟨b, hb, hnat⟩ => by
      cases (fits.nature_eq hb).symm.trans hnat
    refine hstand (hlaid.enter (f := .guarded t) hf hF ((Session.Restacks.enterTry t).proceed _ _) (hG' _)
      (hn.spans_from_opener fits.1 nofun) fun q hq => ?_)
    have hpart := hF.isPart fits hq
    obtain ⟨-, -, hlt, -⟩ := hn.spans_of_isPart hpart
    exact (Address.next_le_iff (hn.unit_of_isPart hpart).symm).2 hlt
  | branch top at_ open_ opener untried part => exact hturn (.branch hf top at_ open_ opener untried part)
  | reachFinally top at_ active => exact hturn (.reachFinally hf top at_ active)
  | repeat_ top closer => exact hturn (.repeat_ hf top)
  | again top at_ reentering opener saved done part binds =>
    exact hturn (.again hf top at_ opener saved part binds)
  | breakLoop transfers stays clear top closer => exact hturn (.breakLoop hf clear top closer)
  | continueLoop transfers stays clear top => exact hturn (.continueLoop hf clear top)
  | leave top noTry closer => exact hstand (hclose ⟨top, closer, (Session.Restacks.tail top).proceed _ _⟩)
  | closeTry top closer quiet => exact hstand (hclose ((Session.Closes.of_leaveTry top closer).proceed _ _))
  | @rethrow t rest d ds _ v top closer =>
    have hc := ((Session.Closes.of_leaveTry top closer).withDeferred ds).proceed none v
    exact .inr ⟨nofun, a, hc.laid hl hrun hf hF (hG' a)⟩
  | @resume t rest d ds origin goal _ resumes =>
    have hlaid := hl.laid_at_closer hrun hn resumes.top resumes.closer
    exact hstand (hlaid.tail hf resumes.top (((Session.Restacks.leaveTry t rest).withDeferred ds).proceed _ _) (hG' _)
      fun fs R hrest _ hholds => hresume _ _ _ _ _ _ resumes fs R hrest hholds)
  | @resuspend t rest d ds origin goal _ top closer active deferred resumeAt depth work suspends =>
    have hc := (Session.Closes.of_leaveTry top closer).withDeferred ds
    have hleft := hf.leaveTry top
    obtain ⟨pre, L, post, above, t', rest', p, hlev, hb, -, -, -, hlev', -⟩ := suspends.levels a
    have hlaid := hc.laid hl hrun hf hF ((hG' a).of_cut hlev hb (hlev' a))
    refine hstand (suspends.laid hlaid ⟨hleft.nested, hleft.fits, hleft.counted⟩ ?_ hG' _)
    rwa [show ((s.leaveTry t rest).withDeferred ds).suite = s.suite from s.suite_setBlocks _]
  | skipHandler top at_ handler phase part last =>
    exact hstand ((hl.laid_of_top hrun top nofun).inTop hf top (.proceed .refl _ _) (hG' _)
      fun fs hfits hholds => hholds.within_part hF hfits (hf.top top) part fun q hq => (last q hq).le)
  | skipFunction opens closer callee =>
    have hlaid := hl.laid_of_not_opens hrun hf fun ho => nomatch opens.unique ho
    exact hstand (hlaid.skip hf hF (.proceed .refl _ _) (hG' _) closer)
  | replace transfers deferred leaves =>
    exact hstand ((htransfer transfers).next hf hF ((Session.Restacks.refl.withDeferred _).proceed _ _) (hG' _)
      (fun f hf => transfers.not_fenced hF hf) (hreplace _ _ _ transfers deferred leaves))
  | suspend transfers stays suspends => exact hstand (suspends.laid (htransfer transfers) hf hF hG' _)
  | adrift transfers =>
    refine .inr ⟨nofun, (htransfer transfers).exists_of_empty hf ?_ hG'⟩
    have := (Session.Restacks.drop (s := s) s.blocks.length).proceed none ‹_›
    rwa [List.drop_length] at this
  | returnFrom transfers stays clear call => exact absurd hrun' (Session.not_running_markReturning call _ _)
  | exit transfers stays clear =>
    obtain ⟨k, hk, hgoal⟩ := Option.bind_eq_some_iff.1 transfers.carries
    have hclosed : k.closes? = none := by cases k <;> first | rfl | cases hgoal
    exact hstand ((htransfer transfers).next hf hF ⟨rfl, rfl, rfl⟩ (hG' _)
      (fun f hf => transfers.not_fenced hF hf)
      fun hz => hF.next hz fun o ho => absurd ho (hn.not_construct hk hclosed))
  | @enterCall callee args v keyword opens names =>
    have hlaid := hl.laid_of_not_opens hrun hf (not_opens_of_keyword hn keyword (by rintro ⟨⟩))
    refine hstand ?_
    change Laid F G (⟨[], callee, some callee⟩ :: ((s.withVars v).enterCall callee a args).outer)
    rw [Session.outer_enterCall]
    exact .call (hF.entry opens) hlaid

/-- A handler lies before the cleanup section of its try. -/
theorem isPart_of_catchOf? {suite : Suite} (hn : suite.Nested) {f : Frame} (hf : f.Fits suite) {p : Address}
    (hp : catchOf? suite f.opener = some p) :
    suite.IsPart f.opener p ∧ ∀ q, finallyOf? suite f.opener = some q → p < q := by
  obtain ⟨b, hb, hbp⟩ := Option.bind_eq_some_iff.1 hp
  have hnat : b.nature?.isSome := by
    rw [hf.nature_eq hb]
    rfl
  refine ⟨hn.isPart_of_mem (k := .catchError) hb hnat (by simpa [Block.partsOf] using hbp), ?_⟩
  intro q hq
  rw [finallyOf?, hb] at hq
  exact hn.sections hb hnat hbp hq

/-- **Faults that a try handles** keep sessions laid. -/
theorem Offer.laid {g : Setting} {f : Fault} {r : Address} (o : Offer g f s .handled s') (hf : s.Fitted)
    (hF : F.Fair s.suite) (hl : Laid F G (s.levels r)) (hG : ∀ r, G.Carries (s'.levels r)) (d : Address) :
    Laid F G (s'.levels (s'.pending.getD d)) := by
  have hn := hf.nested
  obtain ⟨pre, L, post, above, t, t', rest, p, hlev, hb, hact, hans, hp, hlev', -⟩ := o.levels r
  have hfit : Frame.Fits s.suite (.guarded t) :=
    hf.fits _ ((s.mem_frames_iff r).2 ⟨L, by rw [hlev]; simp, by rw [hb]; simp⟩)
  rw [hp]
  refine hl.cutTo hf hlev hb (hlev' p) (hG p) fun fs hfits hholds => ?_
  cases hans with
  | handler at_ phase caught =>
    obtain ⟨hpart, hlt⟩ := isPart_of_catchOf? hn hfit at_
    exact hholds.within_part (f := .guarded t.enterHandler) hF hfits ⟨hfit.1, nofun⟩ hpart
      fun q hq => (hlt q hq).le
  | cleanup at_ cleaned =>
    exact hholds.within_construct (f := .guarded t.enterCleanup) hF hfits ⟨hfit.1, nofun⟩
      (by rintro _ ⟨⟩; rfl) (hn.spans_of_isPart (isPart_of_finallyOf? hn hfit at_))
  | closer at_ done =>
    have hpart := hn.isPart_closer at_
    rcases done with hnone | hdone
    · exact hholds.within_part hF hfits hfit hpart fun q hq => nomatch hq.symm.trans hnone
    · exact hholds.within_construct hF hfits hfit (by rintro _ ⟨⟩; exact hdone) (hn.spans_of_isPart hpart)

end

/-! ## 8. Steps keep sessions laid -/

/-- The ground below every level. -/
def Ground.bottom : Ground := {}

section

variable {F : Fence} {G : Ground} {g : Setting} {s s' : Session} {a : Address} {x : StepResult}

/-- A call that has ended returns to a level that goes on at its command. -/
theorem Session.place_of_returning (hs : s.Sound a) {c : Call} {calls : List Call}
    (hc : s.sites = c :: calls) (hret : c.returning = true) : ∃ L post, s.outer = L :: post ∧ L.place = a := by
  obtain ⟨-, rfl⟩ := hs.returning c calls hc hret
  unfold Session.sites at hc
  unfold Session.outer
  cases hcs : s.calls with
  | nil =>
    rw [hcs] at hc
    cases hc
  | cons d ds =>
    rw [hcs] at hc
    obtain ⟨rfl, -⟩ := List.cons.inj hc
    cases ds with
    | nil => exact ⟨_, _, rfl, rfl⟩
    | cons e es => exact ⟨_, _, rfl, rfl⟩

theorem Offer.running {f : Fault} (o : Offer g f s .handled s') (hr : s.Running) : s'.Running := by
  have hmain {k n : Nat} (h : s'.sites = ((s.abortCalls k).drop n).sites) : s'.Running := by
    intro c hc
    rw [h, Session.sites_drop, Session.sites_abortCalls] at hc
    exact hr c (List.mem_of_mem_drop hc)
  cases o with
  | caught | cleaned | passed => exact hmain (Session.sites_setBlocks _ _)

/-- There is a level that goes on. -/
theorem Session.standing_ne_nil (s : Session) (r : Address) : s.standing r ≠ [] := by
  unfold Session.standing
  cases hs : s.sites with
  | nil => exact List.cons_ne_nil _ _
  | cons c calls =>
    dsimp only
    split
    · obtain ⟨d, ds, hd, -, -⟩ := List.map_eq_cons_iff.1 hs
      exact Session.outer_ne_nil hd
    · exact List.cons_ne_nil _ _

/-- The levels of a session reach down to the bottom. -/
theorem Ground.carries_bottom_levels (s : Session) (r : Address) : Ground.bottom.Carries (s.levels r) :=
  Ground.carries_bottom (List.cons_ne_nil _ _)

theorem Ground.carries_bottom_standing (s : Session) (r : Address) : Ground.bottom.Carries (s.standing r) :=
  Ground.carries_bottom (s.standing_ne_nil r)

/-- Where a fault is handled the levels were over the ground that they are over. -/
theorem Offer.carries {f : Fault} {r : Address} (o : Offer g f s .handled s') (hG : G.Carries (s'.levels r))
    (q : Address) : G.Carries (s.levels q) := by
  obtain ⟨pre, L, post, above, t, t', rest, p, hlev, hb, -, -, -, hlev', -⟩ := o.levels q
  exact hG.of_cut hlev hb (hlev' r)

/-- A command that fails leaves the session laid, with the provisos of moves. -/
theorem Move.laid_of_error {f : Fault} (m : Move a s (.error f) s') (h : s.Ready) (hs : s.Sound a)
    (hF : F.Fair s.suite) (hl : s.Stands F G a) (hG : ∀ r, G.Carries (s'.levels r))
    (hresume : ∀ t rest d ds origin goal, s.Resumes a t rest d ds origin goal → ∀ fs R,
      rest = fs ++ R → F.Holds s.callee? fs t.opener → F.Holds s.callee? fs origin)
    (hreplace : ∀ d ds goal, s.Transfers a goal → s.deferred = d :: ds → s.leavesCleanup d goal →
      F.zone s.callee? a → F.zone s.callee? a.next) :
    s'.Running ∧ ∃ r, Laid F G (s'.levels r) := by
  have hrun : s'.Running := fun c hc => h.runs hs c (m.sites_of_error ▸ hc)
  refine ⟨hrun, ?_⟩
  rcases m.laid h hs hF hl (fun r => hrun.standing r ▸ hG r) hresume hreplace with hstands | ⟨-, hlaid⟩
  · exact hstands.exists_laid hrun
  · exact hlaid

/-- **Commands keep sessions laid**, with the provisos of moves. -/
theorem Step.laid (h : Step g a s x s') (hx : ∀ f, x ≠ .unhandled f) (hs : s.Sound a)
    (hp : s.pending = none) (hF : F.Fair s.suite) (hl : s.Stands F G a) (hG : ∀ r, G.Carries (s'.standing r))
    (hresume : ∀ t rest d ds origin goal, s.Resumes a t rest d ds origin goal → ∀ fs R,
      rest = fs ++ R → F.Holds s.callee? fs t.opener → F.Holds s.callee? fs origin)
    (hreplace : ∀ d ds goal, s.Transfers a goal → s.deferred = d :: ds → s.leavesCleanup d goal →
      F.zone s.callee? a → F.zone s.callee? a.next) :
    s'.Stands F G (s'.pending.getD a.next) := by
  cases h with
  | @finish c calls v call returning =>
    obtain ⟨L, post, ho, rfl⟩ := s.place_of_returning hs call returning
    obtain ⟨hblocks, hret⟩ := hs.returning c calls call returning
    have hgenuine := hs.calls c (by rw [call]; exact List.mem_cons_self)
    have hlaid : Laid F G (L :: post) := by
      rcases hl with hl | ⟨l, rest, hb, -⟩
      · rw [Session.standing, call] at hl
        dsimp only at hl
        rwa [if_pos returning, ho] at hl
      · cases hblocks.symm.trans hb
    have hlev (q : Address) : (s.abortCall.withVars v).levels q = ⟨L.blocks, q, L.callee⟩ :: post :=
      s.levels_abortCall ho q
    have hpass : s.Passable L.place := by
      rw [hret]
      refine ⟨by rw [hgenuine.keyword]; nofun, fun o he => ?_, fun n ho => ?_⟩
      · exact absurd he (hs.nested.not_construct hgenuine.keyword rfl)
      · exact absurd ho (not_opens_of_keyword hs.nested hgenuine.keyword (by rintro ⟨⟩))
    have hfits : ∀ f ∈ L.blocks, f.Fits s.suite := fun f hf =>
      hs.fits f ((s.mem_frames_iff default).2 ⟨L, by rw [Session.levels, ho]; simp, hf⟩)
    have hstanding := (hs.finishCall call returning v default).2.standing
    refine .inl ?_
    rw [show (s.abortCall.withVars v).pending = none from (s.kept_abortCall).pending.trans hp, hstanding,
      Option.getD_none, hlev]
    refine Laid.retop (show Laid F G (⟨L.blocks, L.place, L.callee⟩ :: post) from hlaid)
      (hlev L.place.next ▸ hstanding L.place.next ▸ hG L.place.next) fun fs fs' R hfs hfs' hnil hholds => ?_
    obtain rfl := List.append_cancel_right (hfs.symm.trans hfs')
    have hmem : ∀ f ∈ fs, f.Fits s.suite := fun f hf => hfits f (hfs ▸ List.mem_append_left R hf)
    exact hholds.next hF hmem (fun f hf => hpass.not_fenced hF (hmem f hf)) fun hz =>
      hF.next hz fun o he => absurd he (hs.nested.not_construct (hret ▸ hgenuine.keyword) rfl)
  | move ready move =>
    exact (move.laid ready hs hF hl hG hresume hreplace).resolve_right fun h => h.1 rfl
  | handled ready move same offer =>
    have hrun : s'.Running := offer.running fun c hc => ready.runs hs c (move.sites_of_error ▸ hc)
    have hG' (r : Address) : G.Carries (s'.levels r) := hrun.standing r ▸ hG r
    obtain ⟨-, r, hlt⟩ := move.laid_of_error ready hs hF hl (offer.carries (hG' default)) hresume hreplace
    refine .inl ?_
    rw [hrun.standing]
    exact offer.laid (move.sound ready hs).toFitted (move.kept.1 ▸ hF) hlt hG' _
  | unhandled => exact absurd rfl (hx _)

end

end BlockFlow.Flow
