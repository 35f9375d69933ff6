import Mathlib.Tactic
import PnfsLattice.Cache.System
import PnfsLattice.Lib.FirstMatch

/-!
# Completed mutations are visible

A lookup or inode read that begins after a mutation has finished should see the catalogue
as of that mutation or later. The caches keep to it as long as no entry is older than
the invalidations its key has had, which is `Stamped.Sound`.

A negative entry is inserted under a check of the invalidation generation, and that check
is enough. A positive entry and an inode are inserted without one: a reader that was slow
between its catalogue read and the insertion puts back what a mutation has just thrown
out.
-/

namespace PnfsLattice

open Lib List Option

/-! ## What a request should return -/

/-- A lookup's result holds of the catalogue at times not before the floors. -/
def LookupFresh (s : CacheSys) (r : LookupReq) : LookupResult → Prop
  | .notFound t =>
    r.floorD ≤ t ∧ t ≤ s.now ∧ ((s.hist t).lookup r.key).filter MdsInode.visible = none
  | .found t₁ t₂ child =>
    (r.floorD ≤ t₁ ∧ t₁ ≤ s.now ∧ ∃ type, (s.hist t₁).dirents r.key = some (child.fileid, type)) ∧
    r.floorI child.fileid ≤ t₂ ∧ t₂ ≤ s.now ∧ (s.hist t₂).inodes child.fileid = some child

/-- An inode read's result holds of the catalogue at a time not before the floor. -/
def InodeFresh (s : CacheSys) (r : InodeReq) : InodeResult → Prop
  | .notFound t =>
    r.floor ≤ t ∧ t ≤ s.now ∧ ((s.hist t).inodes r.fileid).filter MdsInode.visible = none
  | .found t ino => r.floor ≤ t ∧ t ≤ s.now ∧ (s.hist t).inodes r.fileid = some ino

/-- Every request that has returned, returned the catalogue's state as of some point at or
after the mutations that had finished when it began. -/
def Visible (s : CacheSys) : Prop :=
  (∀ r ∈ s.lookups, ∀ res, r.pc = .done res → LookupFresh s r res) ∧
    ∀ r ∈ s.reads, ∀ res, r.pc = .done res → InodeFresh s r res

/-! ## The invariant -/

/-- What a dirent cache entry says of the catalogue. -/
def DirentHolds (hist : ℕ → NsCatalogue) (t : ℕ) (key : DirentKey) : DirentVal → Prop
  | none => (hist t).lookup key = none
  | some (child, _) => ∃ type, (hist t).dirents key = some (child, type)

/-- What an inode cache entry says of the catalogue. -/
def InodeHolds (hist : ℕ → NsCatalogue) (t : ℕ) (fileid : CatFileid) (ino : MdsInode) : Prop :=
  (hist t).inodes fileid = some ino

/-- The part of the invariant about the caches and clocks. -/
structure CacheCore (s : CacheSys) : Prop where
  dsound : s.dcache.Sound (DirentHolds s.hist) s.now
  isound : s.icache.Sound (InodeHolds s.hist) s.now
  finD_le : ∀ key, s.finD key ≤ s.dcache.dropped key
  dropped_le : ∀ key, s.dcache.dropped key ≤ s.bumped key
  bumped_le : ∀ key, s.bumped key ≤ s.now
  finI_le : ∀ f, s.finI f ≤ s.icache.dropped f
  droppedI_le : ∀ f, s.icache.dropped f ≤ s.now

/-- What a lookup knows at its place. -/
def LookupAt (s : CacheSys) (r : LookupReq) : LookupPc → Prop
  | .probeDirent | .readGen => True
  | .probeInode t child =>
    r.floorD ≤ t ∧ t ≤ s.now ∧ ∃ type, (s.hist t).dirents r.key = some (child, type)
  | .readCat gen => gen ≤ s.invalGen
  | .putNegative gen t =>
    r.floorD ≤ t ∧ t ≤ s.now ∧ (s.hist t).lookup r.key = none ∧ gen ≤ s.invalGen ∧
      (s.invalGen = gen → ∀ key, s.bumped key ≤ t)
  | .putDirent t child | .putInode t child => LookupFresh s r (.found t t child)
  | .done res => LookupFresh s r res

/-- What holds of a lookup under way. -/
structure LookupOk (s : CacheSys) (r : LookupReq) : Prop where
  floorD_le : r.floorD ≤ s.dcache.dropped r.key
  floorI_le : ∀ f, r.floorI f ≤ s.icache.dropped f
  here : LookupAt s r r.pc

/-- What an inode read knows at its place. -/
def InodeReadAt (s : CacheSys) (r : InodeReq) : InodePc → Prop
  | .probe | .readCat => True
  | .putInode t ino => InodeFresh s r (.found t ino)
  | .done res => InodeFresh s r res

/-- What holds of an inode read under way. -/
structure InodeReadOk (s : CacheSys) (r : InodeReq) : Prop where
  floor_le : r.floor ≤ s.icache.dropped r.fileid
  here : InodeReadAt s r r.pc

/-- The invalidation of a change is still to do, or has been carried out. -/
def InvalDone (s : CacheSys) (m : Mutation) : Inval → Prop
  | .dirent key _ => (∃ b, .dirent key b ∈ m.todo) ∨ m.time ≤ s.dcache.dropped key
  | .inode f => .inode f ∈ m.todo ∨ m.time ≤ s.icache.dropped f

/-- What holds of a mutation that has committed. -/
structure MutOk (s : CacheSys) (m : Mutation) : Prop where
  time_le : m.time ≤ s.now
  bumped : ∀ key, .dirent key true ∈ m.todo → m.time ≤ s.bumped key
  changes : ∀ c ∈ m.changes, InvalDone s m c.inval

structure CacheInv (s : CacheSys) : Prop where
  core : CacheCore s
  lookups : ∀ r ∈ s.lookups, LookupOk s r
  reads : ∀ r ∈ s.reads, InodeReadOk s r
  muts : ∀ m ∈ s.muts, MutOk s m

/-! ## Moving on -/

/-- The server has moved on: its history was extended, its clocks went forward, and with
the same generation no bump was made. -/
structure Later (s t : CacheSys) : Prop where
  now_le : s.now ≤ t.now
  hist_eq : ∀ i ≤ s.now, t.hist i = s.hist i
  droppedD_le : ∀ key, s.dcache.dropped key ≤ t.dcache.dropped key
  droppedI_le : ∀ f, s.icache.dropped f ≤ t.icache.dropped f
  bumped_le : ∀ key, s.bumped key ≤ t.bumped key
  gen_le : s.invalGen ≤ t.invalGen
  bumped_eq : t.invalGen = s.invalGen → t.bumped = s.bumped

theorem Later.refl (s : CacheSys) : Later s s :=
  ⟨le_rfl, fun _ _ => rfl, fun _ => le_rfl, fun _ => le_rfl, fun _ => le_rfl, le_rfl, fun _ => rfl⟩

variable {s t : CacheSys} {m : Mutation}

variable {u : CacheSys}

theorem Later.trans (h : Later s t) (h' : Later t u) : Later s u where
  now_le := h.now_le.trans h'.now_le
  hist_eq i hi := (h'.hist_eq i (hi.trans h.now_le)).trans (h.hist_eq i hi)
  droppedD_le key := (h.droppedD_le key).trans (h'.droppedD_le key)
  droppedI_le f := (h.droppedI_le f).trans (h'.droppedI_le f)
  bumped_le key := (h.bumped_le key).trans (h'.bumped_le key)
  gen_le := h.gen_le.trans h'.gen_le
  bumped_eq heq := by
    have htu : u.invalGen = t.invalGen := le_antisymm (heq ▸ h.gen_le) h'.gen_le
    exact (h'.bumped_eq htu).trans (h.bumped_eq (htu ▸ heq))

section Stable

variable {s t : CacheSys}

variable {r : LookupReq}

theorem LookupFresh.later {res} (h : LookupFresh s r res) (hl : Later s t) :
    LookupFresh t r res := by
  have hnow := hl.now_le
  cases res with
  | notFound i =>
    obtain ⟨hf, hi, hv⟩ := h
    exact ⟨hf, hi.trans hnow, hl.hist_eq i hi ▸ hv⟩
  | found i j =>
    obtain ⟨⟨hf, hi, hv⟩, hf', hj, hv'⟩ := h
    exact ⟨⟨hf, hi.trans hnow, hl.hist_eq i hi ▸ hv⟩, hf', hj.trans hnow, hl.hist_eq j hj ▸ hv'⟩

theorem InodeFresh.later {r res} (h : InodeFresh s r res) (hl : Later s t) :
    InodeFresh t r res := by
  have hnow := hl.now_le
  cases res with
  | notFound i | found i =>
    obtain ⟨hf, hi, hv⟩ := h
    exact ⟨hf, hi.trans hnow, hl.hist_eq i hi ▸ hv⟩

theorem LookupAt.later {pc} (h : LookupAt s r pc) (hl : Later s t) : LookupAt t r pc := by
  have hnow := hl.now_le
  cases pc with
  | probeDirent | readGen => trivial
  | probeInode i =>
    obtain ⟨hf, hi, hv⟩ := h
    exact ⟨hf, hi.trans hnow, hl.hist_eq i hi ▸ hv⟩
  | readCat => exact le_trans h hl.gen_le
  | putNegative gen i =>
    obtain ⟨hf, hi, hv, hgen, hbump⟩ := h
    refine ⟨hf, hi.trans hnow, hl.hist_eq i hi ▸ hv, hgen.trans hl.gen_le, fun heq => ?_⟩
    -- The generation only grows, so it did not change in between either.
    have hsame : s.invalGen = gen := le_antisymm (heq ▸ hl.gen_le) hgen
    rw [hl.bumped_eq (heq.trans hsame.symm)]
    exact hbump hsame
  | putDirent i child | putInode i child => exact @LookupFresh.later _ _ _ (.found i i child) h hl
  | done => exact LookupFresh.later h hl

theorem LookupOk.later (h : LookupOk s r) (hl : Later s t) : LookupOk t r :=
  ⟨h.floorD_le.trans (hl.droppedD_le _), fun f => (h.floorI_le f).trans (hl.droppedI_le f),
    h.here.later hl⟩

theorem InodeReadAt.later {r pc} (h : InodeReadAt s r pc) (hl : Later s t) :
    InodeReadAt t r pc := by
  cases pc with
  | probe | readCat => trivial
  | putInode i ino => exact @InodeFresh.later _ _ _ (.found i ino) h hl
  | done => exact InodeFresh.later h hl

theorem InodeReadOk.later {r} (h : InodeReadOk s r) (hl : Later s t) : InodeReadOk t r :=
  ⟨h.floor_le.trans (hl.droppedI_le _), h.here.later hl⟩

theorem InvalDone.later {m v} (h : InvalDone s m v) (hl : Later s t) : InvalDone t m v := by
  cases v with
  | dirent key => exact h.imp_right fun hle => hle.trans (hl.droppedD_le key)
  | inode f => exact h.imp_right fun hle => hle.trans (hl.droppedI_le f)

/-- An invalidation is taken from the list, and is done or noted again. -/
theorem InvalDone.next {m v item rest todo} (h : InvalDone s m v) (htodo : m.todo = item :: rest)
    (hitem : InvalDone s { m with todo } item) (hrest : rest ⊆ todo) :
    InvalDone s { m with todo } v := by
  cases v with
  | dirent =>
    rcases h with ⟨b', hb'⟩ | hle
    · rcases mem_cons.mp (htodo ▸ hb') with rfl | hb'
      · exact hitem
      · exact .inl ⟨b', hrest hb'⟩
    · exact .inr hle
  | inode =>
    rcases h with hf | hle
    · rcases mem_cons.mp (htodo ▸ hf) with rfl | hf
      · exact hitem
      · exact .inl (hrest hf)
    · exact .inr hle

theorem MutOk.later {m} (h : MutOk s m) (hl : Later s t) : MutOk t m :=
  ⟨h.time_le.trans hl.now_le, fun key hk => (h.bumped key hk).trans (hl.bumped_le key),
    fun c hc => (h.changes c hc).later hl⟩

end Stable

/-! ## Changes of the caches -/

section Caches

/-- What a step of a request leaves: caches in order, the server moved on, the other
requests untouched. -/
structure StepOk (s t : CacheSys) : Prop where
  core : CacheCore t
  later : Later s t
  lookups : t.lookups = s.lookups
  reads : t.reads = s.reads
  muts : t.muts = s.muts

variable {s : CacheSys}

theorem CacheCore.setDcache (h : CacheCore s) {c} (hc : c.Sound (DirentHolds s.hist) s.now)
    (hd : c.dropped = s.dcache.dropped) : StepOk s { s with dcache := c } := by
  refine ⟨⟨hc, h.isound, ?_, ?_, h.bumped_le, h.finI_le, h.droppedI_le⟩,
    { Later.refl s with droppedD_le := ?_ }, rfl, rfl, rfl⟩ <;>
  intro key
  · rw [hd]; exact h.finD_le key
  · rw [hd]; exact h.dropped_le key
  · rw [hd]

theorem CacheCore.setIcache (h : CacheCore s) {c} (hc : c.Sound (InodeHolds s.hist) s.now)
    (hd : c.dropped = s.icache.dropped) : StepOk s { s with icache := c } := by
  refine ⟨⟨h.dsound, hc, h.finD_le, h.dropped_le, h.bumped_le, ?_, ?_⟩,
    { Later.refl s with droppedI_le := ?_ }, rfl, rfl, rfl⟩ <;>
  intro f
  · rw [hd]; exact h.finI_le f
  · rw [hd]; exact h.droppedI_le f
  · rw [hd]

variable {t : ℕ}

variable {r : LookupReq} {gen : ℕ}

/-- **The generation check suffices.**  A negative insertion that finds the generation it
read before its catalogue read is not older than the invalidations of its name. -/
theorem dropped_le_of_unchanged (h : CacheCore s) (hat : LookupAt s r (.putNegative gen t))
    (hgen : s.invalGen = gen) (key : DirentKey) : s.dcache.dropped key ≤ t := by
  obtain ⟨-, -, -, -, hbump⟩ := hat
  exact (h.dropped_le key).trans (hbump hgen key)

theorem sound_putNegativeIfUnchanged (h : CacheCore s) (hat : LookupAt s r (.putNegative gen t))
    (alloc : Bool) :
    (putNegativeIfUnchanged s alloc r.key gen t).Sound (DirentHolds s.hist) s.now := by
  unfold putNegativeIfUnchanged
  split
  next hif => exact h.dsound.put (dropped_le_of_unchanged h hat hif.1 r.key) hat.2.1 hat.2.2.1
  next => exact h.dsound

theorem sound_direntCachePut (h : CacheCore s) {key child} (hfresh : s.dcache.dropped key ≤ t)
    (ht : t ≤ s.now) (hv : ∃ type, (s.hist t).dirents key = some (child.fileid, type))
    (alloc : Bool) :
    (direntCachePut s.dcache alloc key t child).Sound (DirentHolds s.hist) s.now := by
  unfold direntCachePut
  split
  · exact h.dsound.put hfresh ht hv
  · exact h.dsound

theorem sound_inodeCachePut (h : CacheCore s) {ino} (hfresh : s.icache.dropped ino.fileid ≤ t)
    (ht : t ≤ s.now) (hv : (s.hist t).inodes ino.fileid = some ino) (alloc : Bool) :
    (inodeCachePut s.icache alloc t ino).Sound (InodeHolds s.hist) s.now := by
  unfold inodeCachePut
  split
  · exact h.isound.put hfresh ht hv
  · exact h.isound

@[simp] theorem dropped_putNegativeIfUnchanged (alloc : Bool) (key : DirentKey) (gen t : ℕ) :
    (putNegativeIfUnchanged s alloc key gen t).dropped = s.dcache.dropped := by
  unfold putNegativeIfUnchanged
  split <;> rfl

@[simp] theorem dropped_direntCachePut (c : Stamped DirentKey DirentVal) (alloc : Bool)
    (key : DirentKey) (t : ℕ) (child : MdsInode) :
    (direntCachePut c alloc key t child).dropped = c.dropped := by
  unfold direntCachePut
  split <;> rfl

@[simp] theorem dropped_inodeCachePut (c : Stamped CatFileid MdsInode) (alloc : Bool) (t : ℕ)
    (ino : MdsInode) : (inodeCachePut c alloc t ino).dropped = c.dropped := by
  unfold inodeCachePut
  split <;> rfl

end Caches

/-! ## Steps of requests -/

/-- The insertion a lookup is about to make is not older than the invalidations of its
key. The negative insertion makes this check itself. -/
def LookupPc.PutsFresh (s : CacheSys) (key : DirentKey) : LookupPc → Prop
  | .putDirent t _ => s.dcache.dropped key ≤ t
  | .putInode t child => s.icache.dropped child.fileid ≤ t
  | _ => True

/-- The insertion an inode read is about to make is not older than the invalidations of
its inode. -/
def InodePc.PutsFresh (s : CacheSys) : InodePc → Prop
  | .putInode t ino => s.icache.dropped ino.fileid ≤ t
  | _ => True

instance (s : CacheSys) (key : DirentKey) (pc : LookupPc) : Decidable (pc.PutsFresh s key) := by
  cases pc <;> unfold LookupPc.PutsFresh <;> infer_instance

instance (s : CacheSys) (pc : InodePc) : Decidable (pc.PutsFresh s) := by
  cases pc <;> unfold InodePc.PutsFresh <;> infer_instance

theorem StepOk.trans (h : StepOk s t) (h' : StepOk t u) : StepOk s u :=
  ⟨h'.core, h.later.trans h'.later, h'.lookups.trans h.lookups, h'.reads.trans h.reads,
    h'.muts.trans h.muts⟩

theorem StepOk.refl (h : CacheCore s) : StepOk s s :=
  ⟨h, .refl s, rfl, rfl, rfl⟩

theorem lookup_eq_some {cat : NsCatalogue} {key : DirentKey} {child : MdsInode}
    (h : cat.lookup key = some child) : (∃ type, cat.dirents key = some (child.fileid, type)) ∧
      cat.inodes child.fileid = some child := by
  obtain ⟨⟨f, type⟩, hd, hi⟩ := bind_eq_some_iff.mp h
  have hf : child.fileid = f := cat.keyed f child hi
  subst hf
  exact ⟨⟨type, hd⟩, hi⟩

theorem LookupOk.setPc {r} (h : LookupOk s r) {pc} (hpc : LookupAt s { r with pc } pc) :
    LookupOk s { r with pc } :=
  ⟨h.floorD_le, h.floorI_le, hpc⟩

theorem InodeReadOk.setPc {r} (h : InodeReadOk s r) {pc} (hpc : InodeReadAt s { r with pc } pc) :
    InodeReadOk s { r with pc } :=
  ⟨h.floor_le, hpc⟩

section

variable (hc : CacheCore s)

include hc

/-- A step of a lookup whose insertion, if it makes one, is fresh. -/
theorem lookupStep_ok {r : LookupReq} (hr : LookupOk s r) (hput : r.pc.PutsFresh s r.key)
    (alloc : Bool) : StepOk s (lookupStep s alloc r).1 ∧ LookupOk (lookupStep s alloc r).1
      (lookupStep s alloc r).2 := by
  have hhere := hr.here
  have hfloorD := hr.floorD_le.trans ((hc.dropped_le _).trans (hc.bumped_le _))
  have hfloorI := fun f => (hr.floorI_le f).trans (hc.droppedI_le f)
  unfold lookupStep
  obtain ⟨key, _, _, pc⟩ := r
  cases pc with
  | probeDirent =>
    cases he : s.dcache.entry key with
    | none => exact ⟨.refl hc, hr.setPc trivial⟩
    | some e =>
      obtain ⟨t, _ | ⟨child, type⟩⟩ := e
      · obtain ⟨hd, ht, hv⟩ := hc.dsound _ _ _ he
        refine ⟨.refl hc, hr.setPc ⟨hr.floorD_le.trans hd, ht, ?_⟩⟩
        rw [show (s.hist t).lookup key = none from hv]
        rfl
      · obtain ⟨hd, ht, hv⟩ := hc.dsound _ _ _ he
        exact ⟨.refl hc, hr.setPc ⟨hr.floorD_le.trans hd, ht, hv⟩⟩
  | probeInode _ child =>
    obtain ⟨hf, ht₁, type, hd⟩ := hhere
    cases he : s.icache.entry child with
    | none => simp only [he]; exact ⟨.refl hc, hr.setPc trivial⟩
    | some e =>
      obtain ⟨t₂, ino⟩ := e
      obtain ⟨hdrop, ht₂, hv⟩ := hc.isound _ _ _ he
      have hino : ino.fileid = child := (s.hist t₂).keyed child ino hv
      simp only [he]
      split
      · subst hino
        exact ⟨.refl hc, hr.setPc ⟨⟨hf, ht₁, type, hd⟩, (hr.floorI_le _).trans hdrop, ht₂, hv⟩⟩
      · have hstep := hc.setIcache (hc.isound.evict child) rfl
        exact ⟨hstep, (hr.later hstep.later).setPc trivial⟩
  | readGen => exact ⟨.refl hc, hr.setPc (show s.invalGen ≤ s.invalGen from le_rfl)⟩
  | readCat =>
    cases hl : (s.hist s.now).lookup key with
    | none => exact ⟨.refl hc, hr.setPc ⟨hfloorD, le_rfl, hl, hhere, fun _ => hc.bumped_le⟩⟩
    | some =>
      obtain ⟨hd, hi⟩ := lookup_eq_some hl
      dsimp only
      split
      · exact ⟨.refl hc, hr.setPc ⟨⟨hfloorD, le_rfl, hd⟩, hfloorI _, le_rfl, hi⟩⟩
      next hvis =>
        refine ⟨.refl hc, hr.setPc ⟨hfloorD, le_rfl, ?_⟩⟩
        rw [hl, filter_some, if_neg hvis]
  | putNegative _ t =>
    have hstep := hc.setDcache (sound_putNegativeIfUnchanged hc hhere alloc)
      (dropped_putNegativeIfUnchanged ..)
    refine ⟨hstep, (hr.later hstep.later).setPc ?_⟩
    refine ⟨hhere.1, hhere.2.1, ?_⟩
    rw [show (s.hist t).lookup key = none from hhere.2.2.1]
    rfl
  | putDirent t child =>
    have hfresh : LookupFresh s _ (.found t t child) := hhere
    have hstep := hc.setDcache
      (sound_direntCachePut hc hput hfresh.1.2.1 hfresh.1.2.2 alloc) (dropped_direntCachePut ..)
    exact ⟨hstep, (hr.later hstep.later).setPc (hfresh.later hstep.later)⟩
  | putInode t child =>
    have hfresh : LookupFresh s _ (.found t t child) := hhere
    have hstep := hc.setIcache
      (sound_inodeCachePut hc hput hfresh.2.2.1 hfresh.2.2.2 alloc) (dropped_inodeCachePut ..)
    exact ⟨hstep, (hr.later hstep.later).setPc (hfresh.later hstep.later)⟩
  | done => exact ⟨.refl hc, hr⟩

theorem inodeReadStep_ok {r} (hr : InodeReadOk s r) (hput : r.pc.PutsFresh s) (alloc : Bool) :
    StepOk s (inodeReadStep s alloc r).1 ∧ InodeReadOk (inodeReadStep s alloc r).1
      (inodeReadStep s alloc r).2 := by
  have hhere := hr.here
  have hfloor := hr.floor_le.trans (hc.droppedI_le _)
  unfold inodeReadStep
  obtain ⟨fileid, _, pc⟩ := r
  cases pc with
  | probe =>
    cases he : s.icache.entry fileid with
    | none => exact ⟨.refl hc, hr.setPc trivial⟩
    | some =>
      obtain ⟨hdrop, ht, hv⟩ := hc.isound _ _ _ he
      dsimp only
      split
      · exact ⟨.refl hc, hr.setPc ⟨hr.floor_le.trans hdrop, ht, hv⟩⟩
      · have hstep := hc.setIcache (hc.isound.evict fileid) rfl
        exact ⟨hstep, (hr.later hstep.later).setPc trivial⟩
  | readCat =>
    cases hi : (s.hist s.now).inodes fileid with
    | none => exact ⟨.refl hc, hr.setPc ⟨hfloor, le_rfl, by rw [hi]; rfl⟩⟩
    | some =>
      dsimp only
      split
      · exact ⟨.refl hc, hr.setPc ⟨hfloor, le_rfl, hi⟩⟩
      next hvis =>
        exact ⟨.refl hc, hr.setPc ⟨hfloor, le_rfl, by
          rw [hi, filter_some, if_neg hvis]⟩⟩
  | putInode t ino =>
    have hfresh : InodeFresh s _ (.found t ino) := hhere
    have hino : ino.fileid = fileid := (s.hist t).keyed _ _ hfresh.2.2
    have hstep := hc.setIcache
      (sound_inodeCachePut hc hput hfresh.2.1 (hino ▸ hfresh.2.2) alloc)
      (dropped_inodeCachePut ..)
    exact ⟨hstep, (hr.later hstep.later).setPc (hfresh.later hstep.later)⟩
  | done => exact ⟨.refl hc, hr⟩

/-! ## Steps of mutations -/

theorem finishChange_ok (htodo : m.todo = []) {c} (h : InvalDone s m c.inval) :
    StepOk s (finishChange m.time s c) := by
  unfold finishChange
  cases hinv : c.inval with
  | dirent key =>
    rw [hinv, InvalDone, htodo] at h
    have hdone : m.time ≤ s.dcache.dropped key := h.resolve_left fun ⟨_, hb⟩ => by cases hb
    exact ⟨{ hc with finD_le := raise_le_of_le hc.finD_le hdone },
      { Later.refl s with }, rfl, rfl, rfl⟩
  | inode f =>
    rw [hinv, InvalDone, htodo] at h
    have hdone : m.time ≤ s.icache.dropped f := h.resolve_left fun hb => by cases hb
    exact ⟨{ hc with finI_le := raise_le_of_le hc.finI_le hdone },
      { Later.refl s with }, rfl, rfl, rfl⟩

theorem finish_ok (htodo : m.todo = []) {changes : List RowChange}
    (h : ∀ c ∈ changes, InvalDone s m c.inval) :
    StepOk s (changes.foldl (finishChange m.time) s) := by
  induction changes generalizing s with
  | nil => exact .refl hc
  | cons c _ ih =>
    have hone := finishChange_ok hc htodo (h c (by simp))
    exact hone.trans (ih hone.core fun c' hc' => (h c' (by simp [hc'])).later hone.later)

theorem mutationStep_ok (hm : MutOk s m) :
    StepOk s (mutationStep s m).1 ∧ MutOk (mutationStep s m).1 (mutationStep s m).2 := by
  unfold mutationStep
  cases htodo : m.todo with
  | nil =>
    have hstep := finish_ok hc htodo hm.changes
    exact ⟨hstep, hm.later hstep.later⟩
  | cons item rest =>
    have hold : ∀ {x}, x ∈ rest → x ∈ m.todo := fun hx => htodo ▸ mem_cons_of_mem _ hx
    cases item with
    | inode f =>
      have hlater : Later s { s with icache := s.icache.drop f m.time } :=
        { Later.refl s with droppedI_le := fun _ => le_raise .. }
      have hm' := hm.later hlater
      exact ⟨⟨⟨hc.dsound, hc.isound.drop f m.time, hc.finD_le, hc.dropped_le, hc.bumped_le,
        fun f' => (hc.finI_le f').trans (le_raise ..), raise_le hc.droppedI_le hm.time_le⟩,
        hlater, rfl, rfl, rfl⟩, hm'.time_le, fun key hk => hm'.bumped key (hold hk),
        fun c hcm => (hm'.changes c hcm).next htodo (.inr (le_raise_self ..)) (.refl _)⟩
    | dirent key b =>
      cases b with
      | false =>
        have hlater : Later s { s with
            invalGen := s.invalGen + 1, bumped := raise _ key m.time } :=
          { Later.refl s with
            bumped_le := fun _ => le_raise ..
            gen_le := Nat.le_succ _
            bumped_eq := fun heq => absurd heq (Nat.succ_ne_self _) }
        have hm' := hm.later hlater
        refine ⟨⟨{ hc with
          dropped_le := fun key' => (hc.dropped_le key').trans (le_raise ..)
          bumped_le := raise_le hc.bumped_le hm.time_le }, hlater, rfl, rfl, rfl⟩, hm'.time_le,
          fun key' hk => ?_, fun c hcm => ?_⟩
        · rcases mem_cons.mp hk with he | hk
          · cases he
            exact le_raise_self ..
          · exact hm'.bumped key' (hold hk)
        · exact (hm'.changes c hcm).next htodo (.inl ⟨true, mem_cons_self⟩) (subset_cons_self ..)
      | true =>
        have hlater : Later s { s with dcache := s.dcache.drop key m.time } :=
          { Later.refl s with droppedD_le := fun _ => le_raise .. }
        have hm' := hm.later hlater
        have hbumped := hm.bumped key (htodo ▸ mem_cons_self)
        exact ⟨⟨⟨hc.dsound.drop key m.time, hc.isound,
          fun key' => (hc.finD_le key').trans (le_raise ..),
          raise_le_of_le hc.dropped_le hbumped, hc.bumped_le, hc.finI_le, hc.droppedI_le⟩,
          hlater, rfl, rfl, rfl⟩, hm'.time_le, fun key' hk => hm'.bumped key' (hold hk),
          fun c hcm => (hm'.changes c hcm).next htodo (.inr (le_raise_self ..)) (.refl _)⟩

end

/-! ## Every run -/

section Run

variable {s t : CacheSys}

/-- A step of the server that replaces or adds requests which are in order after it. -/
theorem CacheInv.step (h : CacheInv s) (hst : StepOk s t) {l r m}
    (hl : ∀ x ∈ l, x ∈ s.lookups ∨ LookupOk t x) (hr : ∀ x ∈ r, x ∈ s.reads ∨ InodeReadOk t x)
    (hm : ∀ x ∈ m, x ∈ s.muts ∨ MutOk t x) :
    CacheInv { t with lookups := l, reads := r, muts := m } := by
  have hlater : Later t { t with lookups := l, reads := r, muts := m } := { Later.refl t with }
  have hc := hst.core
  refine ⟨{ hc with }, fun x hx => ?_, fun x hx => ?_, fun x hx => ?_⟩
  · rcases hl x hx with hx | hx
    · exact ((h.lookups x hx).later hst.later).later hlater
    · exact hx.later hlater
  · rcases hr x hx with hx | hx
    · exact ((h.reads x hx).later hst.later).later hlater
    · exact hx.later hlater
  · rcases hm x hx with hx | hx
    · exact ((h.muts x hx).later hst.later).later hlater
    · exact hx.later hlater

/-- A commit extends the history: what the caches say of it stays true. -/
theorem commit_ok (h : CacheCore s) (cat : NsCatalogue) :
    StepOk s { s with now := s.now + 1, hist := Function.update s.hist (s.now + 1) cat } := by
  have hhist : ∀ i ≤ s.now, Function.update s.hist (s.now + 1) cat i = s.hist i := by
    intro i hi
    exact Function.update_of_ne (by omega) ..
  have hnow : s.now ≤ s.now + 1 := Nat.le_succ _
  refine ⟨⟨h.dsound.mono hnow fun i key v hi hv => ?_, h.isound.mono hnow fun i f v hi hv => ?_,
    h.finD_le, h.dropped_le, fun key => (h.bumped_le key).trans hnow, h.finI_le,
    fun f => (h.droppedI_le f).trans hnow⟩,
    { Later.refl s with now_le := hnow, hist_eq := hhist }, rfl, rfl, rfl⟩
  · cases v with
    | none =>
      have hv' : (s.hist i).lookup key = none := hv
      rw [← hhist i hi] at hv'
      exact hv'
    | some child =>
      have hv' : ∃ type, (s.hist i).dirents key = some (child.1, type) := hv
      rw [← hhist i hi] at hv'
      exact hv'
  · have hv' : (s.hist i).inodes f = some v := hv
    rw [← hhist i hi] at hv'
    exact hv'

theorem mutOk_commit {n} (changes : List RowChange) (hnow : s.now = n) :
    MutOk s { time := n, changes, todo := changes.map RowChange.inval } := by
  refine ⟨hnow.ge, fun key hk => ?_, fun c hc => ?_⟩
  · -- No invalidation is half done yet.
    obtain ⟨c, -, hc⟩ := mem_map.mp hk
    cases c <;> cases hc
  · have hmem := mem_map_of_mem (f := RowChange.inval) hc
    cases hinv : c.inval with
    | dirent _ b => exact .inl ⟨b, hinv ▸ hmem⟩
    | inode => exact .inl (hinv ▸ hmem)

end Run

/-- Every insertion that is made without a generation check is not older than the
invalidations its key has had: no mutation that committed after the catalogue read has
already thrown out the key's entry. -/
def PutsFresh (s : CacheSys) : CacheOp → Prop
  | .lookup _ i => ∀ r ∈ s.lookups[i]?, r.pc.PutsFresh s r.key
  | .read _ i => ∀ r ∈ s.reads[i]?, r.pc.PutsFresh s
  | _ => True

instance (s : CacheSys) (a : CacheOp) : Decidable (PutsFresh s a) := by
  cases a <;> unfold PutsFresh <;> infer_instance

theorem cacheInv_start (h : CacheStart s) : CacheInv s := by
  obtain ⟨_, rfl⟩ := h
  refine ⟨⟨Stamped.sound_empty, Stamped.sound_empty, ?_, ?_, ?_, ?_, ?_⟩, ?_, ?_, ?_⟩ <;>
    intro x <;> first | exact le_rfl | exact fun hx => absurd hx not_mem_nil

theorem cacheInv_step {a} (h : CacheInv s) (hok : PutsFresh s a) (hst : cacheStep s a = some t) :
    CacheInv t := by
  have hsame := StepOk.refl h.core
  cases a with
  | beginLookup key =>
    cases hst
    exact h.step hsame (forall_mem_cons.mpr
      ⟨.inr ⟨h.core.finD_le key, h.core.finI_le, trivial⟩, fun _ => .inl⟩) (fun _ => .inl) fun _ =>
      .inl
  | beginRead f =>
    cases hst
    exact h.step hsame (fun _ => .inl)
      (forall_mem_cons.mpr ⟨.inr ⟨h.core.finI_le f, trivial⟩, fun _ => .inl⟩) fun _ => .inl
  | lookup alloc =>
    obtain ⟨r, hr, hst⟩ := bind_eq_some_iff.mp hst
    cases hst
    obtain ⟨hstep, hpost⟩ :=
      lookupStep_ok h.core (h.lookups r (mem_of_getElem? hr)) (hok r hr) alloc
    exact h.step hstep (forall_mem_set (fun _ => .inl) (.inr hpost))
      (fun x hx => .inl (hstep.reads ▸ hx)) (fun x hx => .inl (hstep.muts ▸ hx))
  | read alloc =>
    obtain ⟨r, hr, hst⟩ := bind_eq_some_iff.mp hst
    cases hst
    obtain ⟨hstep, hpost⟩ :=
      inodeReadStep_ok h.core (h.reads r (mem_of_getElem? hr)) (hok r hr) alloc
    exact h.step hstep (fun x hx => .inl (hstep.lookups ▸ hx))
      (forall_mem_set (fun _ => .inl) (.inr hpost)) (fun x hx => .inl (hstep.muts ▸ hx))
  | commit =>
    cases hst
    exact h.step (commit_ok h.core _) (fun _ => .inl) (fun _ => .inl)
      (forall_mem_cons.mpr ⟨.inr (mutOk_commit _ rfl), fun _ => .inl⟩)
  | mutation =>
    obtain ⟨m, hm, hst⟩ := bind_eq_some_iff.mp hst
    cases hst
    obtain ⟨hstep, hpost⟩ := mutationStep_ok h.core (h.muts m (mem_of_getElem? hm))
    exact h.step hstep (fun x hx => .inl (hstep.lookups ▸ hx))
      (fun x hx => .inl (hstep.reads ▸ hx)) (forall_mem_set (fun _ => .inl) (.inr hpost))
  | evictDirent key =>
    cases hst
    have hstep := h.core.setDcache (h.core.dsound.evict key) rfl
    exact h.step hstep (fun _ => .inl) (fun _ => .inl) fun _ => .inl
  | evictInode f =>
    cases hst
    have hstep := h.core.setIcache (h.core.isound.evict f) rfl
    exact h.step hstep (fun _ => .inl) (fun _ => .inl) fun _ => .inl

/-- **Completed mutations are visible**, in every run whose unchecked insertions are
fresh. -/
theorem mutations_visible {s : CacheSys} (h : Reachable CacheStart cacheStep PutsFresh s) :
    Visible s := by
  have hinv : CacheInv s := h.invariant (fun _ => cacheInv_start)
    (fun _ _ _ hs hok hst => cacheInv_step hs hok hst)
  refine ⟨fun r hr res hpc => ?_, fun r hr _ hpc => ?_⟩
  · have hhere := (hinv.lookups r hr).here
    rw [hpc] at hhere
    exact hhere
  · have hhere := (hinv.reads r hr).here
    rw [hpc] at hhere
    exact hhere

/-! ### A name that comes back

File 10 is called `a` in the root directory. A lookup of the name reads the catalogue,
and a REMOVE of it commits, invalidates and finishes before the lookup has made its
insertions. -/

/-- File 10, of one link. -/
def soleFile : MdsInode where
  fileid := 10
  type := .reg
  mode := 0o644
  nlink := 1
  uid := 0
  gid := 0
  size := 0
  atime := 0
  mtime := 0
  ctime := 0
  change := 1
  generation := 1
  flags := 0
  parentFileid := 2
  inlineDsId := 0
  inlineFh := []

/-- The catalogue that holds file 10 under the name `a`. -/
def soleFileCat : NsCatalogue where
  dirents key := if key = (2, [97]) then some (10, .reg) else none
  inodes f := if f = 10 then some soleFile else none
  keyed := by
    intro f ino h
    split at h
    next hf => cases h; exact hf.symm
    next => cases h

/-- The server before any request. -/
def soleFileStart : CacheSys where
  now := 0
  hist _ := soleFileCat
  dcache := .empty
  invalGen := 0
  icache := .empty
  bumped _ := 0
  finD _ := 0
  finI _ := 0
  lookups := []
  reads := []
  muts := []

theorem soleFileStart_start : CacheStart soleFileStart := ⟨soleFileCat, rfl⟩

/-- REMOVE of the name, from its commit to its end. -/
def removeSole : List CacheOp :=
  [.commit [.delDirent (2, [97]), .delInode 10], .mutation 0, .mutation 0, .mutation 0, .mutation 0]

/-- A lookup that has made its insertions before the name is removed, and one that begins
afterwards. -/
def lookupThenRemove : List CacheOp :=
  .beginLookup (2, [97]) :: List.replicate 5 (.lookup true 0) ++ removeSole ++
    .beginLookup (2, [97]) :: List.replicate 4 (.lookup true 0)

theorem mutations_visible_inTurn : ∃ s, Reachable CacheStart cacheStep PutsFresh s ∧
      s.lookups.map LookupReq.pc = [.done (.notFound 1), .done (.found 0 0 soleFile)] ∧
      Visible s := by
  have hs : Reachable CacheStart cacheStep PutsFresh _ :=
    .run soleFileStart lookupThenRemove soleFileStart_start
  exact ⟨_, hs, rfl, mutations_visible hs⟩

/-- The lookup that began after the REMOVE had finished finds the file. -/
theorem removed_name_found_again : ∃ s, Reachable CacheStart cacheStep anyStep s ∧ ¬ Visible s := by
  refine ⟨_, .run soleFileStart
    (.beginLookup (2, [97]) :: List.replicate 3 (.lookup true 0) ++ removeSole ++
      List.replicate 2 (.lookup true 0) ++
      .beginLookup (2, [97]) :: List.replicate 2 (.lookup true 0))
    soleFileStart_start, fun hvis => ?_⟩
  have hfresh := hvis.1 _ mem_cons_self (.found 0 0 soleFile) rfl
  have hfloor : 1 ≤ 0 := hfresh.1.1
  omega

end PnfsLattice
