import PnfsLattice.Catalogue.Attrs
import PnfsLattice.Namespace.System

/-!
# What catalogue calls leave alone

Fileids are not used again, an inode keeps its type, and only files are marked for
removal. Jobs rely on it: between the snapshot of a file and the calls that are made for
it, the fileid stands for that file or for nothing.
-/

namespace PnfsLattice

open Lib List Option Memdb

/-- The inodes of a later catalogue: each has the type it had, or is new. Flags stay, and no
directory gets a mark for removal. -/
structure Evolves (m m' : Memdb) : Prop where
  next_le : m.nextFileid ≤ m'.nextFileid
  inode : ∀ f ino', m'.inodeFind f = some ino' →
    (∃ ino, m.inodeFind f = some ino ∧ ino'.type = ino.type ∧
      (ino'.doomed = true → ino.doomed = true ∨ ino.type ≠ .dir) ∧
      (∀ flag, ino.has flag = true → ino'.has flag = true)) ∨
    (m.nextFileid ≤ f ∧ f < m'.nextFileid ∧ (ino'.doomed = true → ino'.type ≠ .dir))

/-- The fileid has been given out, and not to a directory. -/
def FileAt (m : Memdb) (f : CatFileid) : Prop :=
  f < m.nextFileid ∧ ∀ ino, m.inodeFind f = some ino → ino.type ≠ .dir

/-- Fileids come from the allocator, and only files are marked for removal. -/
structure InodesOk (m : Memdb) : Prop where
  lt : ∀ f ino, m.inodeFind f = some ino → f < m.nextFileid
  doomed : ∀ f ino, m.inodeFind f = some ino → ino.doomed = true → ino.type ≠ .dir

section Evolve

variable {m m' m'' : Memdb} {now : ℕ}

theorem Evolves.refl (m : Memdb) : Evolves m m :=
  ⟨le_rfl, fun _ ino h => .inl ⟨ino, h, rfl, .inl, fun _ => id⟩⟩

theorem Evolves.trans (h : Evolves m m') (h' : Evolves m' m'') : Evolves m m'' := by
  refine ⟨h.next_le.trans h'.next_le, fun f ino'' hi'' => ?_⟩
  rcases h'.inode f ino'' hi'' with ⟨ino', hi', ht', hd', hk'⟩ | ⟨hle, hlt, hd⟩
  · rcases h.inode f ino' hi' with ⟨ino, hi, ht, hd, hk⟩ | ⟨hle, hlt, hd⟩
    · refine .inl ⟨ino, hi, ht'.trans ht, fun hdoomed => ?_, fun flag => hk' flag ∘ hk flag⟩
      rcases hd' hdoomed with hd' | hfile
      · exact hd hd'
      · exact .inr (ht ▸ hfile)
    · refine .inr ⟨hle, hlt.trans_le h'.next_le, fun hdoomed => ?_⟩
      rw [ht']
      exact (hd' hdoomed).elim hd id
  · exact .inr ⟨h.next_le.trans hle, hlt, hd⟩

variable {f : CatFileid} {ino : MdsInode} {a : CreateArgs} {alloc : Bool}

theorem FileAt.evolve (hf : FileAt m f) (h : Evolves m m') : FileAt m' f := by
  refine ⟨hf.1.trans_le h.next_le, fun ino' hi' => ?_⟩
  rcases h.inode f ino' hi' with ⟨ino, hi, ht, -⟩ | ⟨hlt, -⟩
  · exact ht ▸ hf.2 ino hi
  · exact absurd hf.1 hlt.not_gt

theorem InodesOk.evolve (hm : InodesOk m) (h : Evolves m m') : InodesOk m' := by
  refine ⟨fun f ino' hi' => ?_, fun f ino' hi' hdoomed => ?_⟩
  · rcases h.inode f ino' hi' with ⟨ino, hi, -⟩ | ⟨-, hlt, -⟩
    · exact (hm.lt f ino hi).trans_le h.next_le
    · exact hlt
  · rcases h.inode f ino' hi' with ⟨ino, hi, ht, hd, -⟩ | ⟨-, -, hd⟩
    · rw [ht]
      exact (hd hdoomed).elim (hm.doomed f ino hi) id
    · exact hd hdoomed

theorem Memdb.Keeps.evolves (h : m.Keeps m') : Evolves m m' := by
  refine ⟨h.next_le, fun f ino' hi' => .inl ?_⟩
  obtain ⟨ino, hi, hlater⟩ := h.inode f ino' hi'
  exact ⟨ino, hi, hlater.type, hlater.doomed, hlater.flags⟩

theorem Evolves.inodeStore {ino} (h : Evolves m m') (hn : m.nextFileid ≤ ino.fileid)
    (hlt : ino.fileid < m'.nextFileid) (hd : ino.doomed = false) :
    Evolves m (m'.inodeStore ino) := by
  refine ⟨h.next_le, fun x ino' hx => ?_⟩
  rw [inodeFind_inodeStore] at hx
  split at hx
  next hxf =>
    cases hx
    exact .inr ⟨hxf ▸ hn, hxf ▸ hlt, fun hd' => by rw [hd] at hd'; cases hd'⟩
  next => exact h.inode x ino' hx

/-! ## The calls -/

theorem WideData.not_doomed (w : WideData) (a : CreateArgs) (fileid : CatFileid) (now : ℕ) :
    (w.child a fileid now).doomed = false := by
  unfold MdsInode.doomed MdsInode.has WideData.child
  dsimp only
  cases w.inlineStripe <;> decide

theorem evolves_alloc (m : Memdb) : Evolves m { m with nextFileid := m.nextFileid + 1 } :=
  Memdb.Keeps.evolves (.of_inodes rfl (Nat.le_succ _))

theorem evolves_memNsCreate {child} (h : memNsCreate now a m = .ok (child, m')) : Evolves m m' := by
  refine Evolves.trans ?_ (keeps_create h).evolves
  exact (evolves_alloc m).inodeStore le_rfl (Nat.lt_succ_self _) (a.not_doomed _ now)

theorem evolves_memNsCreateWide {a} (hm : Evolves m m') (hnew : m.nextFileid ≤ a.child.fileid)
    (hlt : a.child.fileid < m'.nextFileid) (hd : a.child.doomed = false)
    (h : memNsCreateWide now alloc a m' = .ok m'') : Evolves m m'' := by
  obtain ⟨-, -, -, -, -, _, rfl, rfl⟩ := memNsCreateWide_ok h
  exact (hm.inodeStore hnew hlt hd).trans (Memdb.Keeps.evolves
    (.touch (.of_inodes (by rfl) (by rfl)) (by intro; rfl)))

variable {name : Name}

theorem evolves_memRemovePendingEnqueueUnlink {dir child gen} (hfile : FileAt m child)
    (h : memRemovePendingEnqueueUnlink dir name child gen m = .ok m') : Evolves m m' := by
  obtain ⟨d, _, -, -, -, rfl⟩ := enqueueUnlink_ok h
  have hmark : m.Keeps (m.inodeModify child (setFlag iflagDeletePending)) :=
    (Memdb.Keeps.refl m).modify (fun _ => rfl) fun i hi => .setFlag _ (hfile.2 i hi)
  exact (hmark.same (by rfl) (by rfl)).evolves

theorem inodeDel_not_mem_gcActs (alloc : Bool) (snap : StripeSnap) :
    .inodeDel ∉ gcActs alloc snap := by
  unfold gcActs
  split <;> simp

theorem inodeDel_not_mem_rmGcActs (snap : StripeSnap) : .inodeDel ∉ rmGcActs snap := by
  unfold rmGcActs
  split
  · simp
  · intro hmem
    obtain ⟨e, -, he⟩ := mem_map.mp hmem
    cases he

theorem inodeDel_not_mem_stripeDelActs (ino : MdsInode) : .inodeDel ∉ ino.stripeDelActs := by
  unfold MdsInode.stripeDelActs
  split <;> simp

/-- What a call of a clean-up does to the catalogue. -/
inductive CleanupCall (m : Memdb) (f : CatFileid) : CleanupAct → Memdb → Prop
  | none (act : CleanupAct) : CleanupCall m f act m
  | gc (e : DsMapEntry) (hint : UInt32) : CleanupCall m f (.gc e hint) (m.gcInsert f hint e)
  | stripeDel : CleanupCall m f .stripeDel (memStripeMapDel f m)
  | inodeDel : CleanupCall m f .inodeDel (m.inodeDrop f)
  | complete (seq : ℕ) : CleanupCall m f (.complete seq) (memRemovePendingComplete seq m)

section Cleanup

variable {c : Choice} {rest : List CleanupAct} {act : CleanupAct}

theorem cleanupCall : CleanupCall m f act (cleanupStep c m f rest act).1 := by
  cases act with
  | fetch =>
    simp only [cleanupStep]
    repeat' split
    all_goals exact .none _
  | gc e hint =>
    unfold cleanupStep memGcEnqueue
    dsimp only
    split
    next hm' =>
      split_ifs at hm'
      cases hm'
      exact .gc e hint
    next => exact .none _
  | stripeDel => exact .stripeDel
  | inodeDel =>
    unfold cleanupStep memInodeDel
    dsimp only
    split
    next hm' =>
      split_ifs at hm'
      cases hm'
      exact .inodeDel
    next => exact .none _
  | complete seq => exact .complete seq

/-- A clean-up goes on with the rest, after the rows of a map that it has fetched. -/
theorem cleanup_rest : ∃ rows, (cleanupStep c m f rest act).2 = .cleanup f (rows ++ rest) ∧
    .inodeDel ∉ rows ∧ ((∀ drainer, act ≠ .fetch drainer) → rows = []) := by
  cases act with
  | fetch =>
    simp only [cleanupStep]
    split
    · exact ⟨[], rfl, nofun, fun _ => rfl⟩
    split
    · exact ⟨[], rfl, nofun, fun _ => rfl⟩
    split
    · exact ⟨_, rfl, inodeDel_not_mem_rmGcActs _, fun h => absurd rfl (h _)⟩
    · exact ⟨_, rfl, inodeDel_not_mem_gcActs _ _, fun h => absurd rfl (h _)⟩
  | gc | inodeDel =>
    simp only [cleanupStep]
    split <;> exact ⟨[], rfl, nofun, fun _ => rfl⟩
  | stripeDel | complete => exact ⟨[], rfl, nofun, fun _ => rfl⟩

theorem evolves_cleanupStep : Evolves m (cleanupStep c m f rest act).1 := by
  have hrefl := Memdb.Keeps.refl m
  have hcall := @cleanupCall m f c rest act
  generalize (cleanupStep c m f rest act).1 = m' at hcall
  refine Memdb.Keeps.evolves ?_
  cases hcall with
  | none => exact hrefl
  | inodeDel => exact hrefl.drop f
  | gc | stripeDel | complete => exact hrefl.same rfl le_rfl

end Cleanup

theorem evolves_createWideCall {w} : Evolves m (createWideCall now alloc a w m) := by
  have halloc := evolves_alloc m
  unfold createWideCall memAllocFileid
  dsimp only
  split
  next hm' =>
    refine evolves_memNsCreateWide halloc ?_ ?_ ?_ hm'
    · exact le_rfl
    · exact Nat.lt_succ_self _
    · exact w.not_doomed a _ now
  next => exact halloc

end Evolve

/-! ## Jobs -/

/-- The catalogue call of one step of a job, if it makes one. -/
inductive JobCall (c : Choice) (m : Memdb) : Job → Memdb → Prop
  | none (job : Job) : JobCall c m job m
  | submit {p name child map m'} (hasync : c.async = true)
      (h : memRemovePendingEnqueueUnlink p name child.fileid child.generation m = .ok m') :
      JobCall c m (.removeSubmit p name child map) m'
  | remove {p name child map guard gc final m'}
      (h : unlinkLocked c.now p name guard gc m = .ok (final, m')) :
      JobCall c m (.removeCommit p name child map) m'
  | rename {a victim keep map nsFlags m'}
      (h : memNsRenameFlags c.now a.srcParent a.srcName a.dstParent a.dstName nsFlags m = .ok m') :
      JobCall c m (.renameCommit a victim keep map) m'
  | cleanup {f act rest} : JobCall c m (.cleanup f (act :: rest)) (cleanupStep c m f rest act).1

section Jobs

variable {m m' : Memdb} {c : Choice}

variable {p : CatFileid} {name : Name} {child : MdsInode} {map : Option StripeSnap} {job : Job}
  {f : CatFileid}

theorem jobCall_removeKnown (x : Option MdsInode) :
    JobCall c m (.removeCommit p name x map) (removeKnown c m p name child map).1 := by
  unfold removeKnown memNsRemove
  split
  · exact .none _
  next h =>
    split
    · split
      · exact .remove h
      · exact .remove h
    · exact .remove h

theorem jobCall_removeCommit {child} :
    JobCall c m (.removeCommit p name child map) (removeCommit c m p name child map).1 := by
  unfold removeCommit memNsRemove memNsRemoveKnownGc
  split
  · split
    · exact .none _
    next h => exact .remove h
  · split
    · exact jobCall_removeKnown _
    · split
      · exact .none _
      next h => exact .remove h
      next h => exact .remove h

theorem jobCall (c : Choice) (m : Memdb) (job : Job) : JobCall c m job (jobStep c m job).1 := by
  cases job with
  | removeSubmit =>
    simp only [jobStep, removeSubmit]
    split
    next hasync =>
      split
      next h => exact .submit hasync h
      next => exact .none _
    next => exact .none _
  | removeCommit => exact jobCall_removeCommit
  | renameCommit =>
    simp only [jobStep, renameCommit]
    split
    · exact .none _
    next h =>
      split
      · exact .rename h
      · split
        · exact .rename h
        · split <;> exact .rename h
  | cleanup f todo =>
    cases todo with
    | nil => exact .none _
    | cons => exact .cleanup
  | drainDirent =>
    simp only [jobStep]
    split <;> exact .none _
  | removeSnapshot | removePrefetch | renameSnapshot | closeRead | drainAttr | done => exact .none _

/-- What a job takes for a file is none but a file. -/
def JobFiles (m : Memdb) : Job → Prop
  | .removePrefetch _ _ child | .removeSubmit _ _ child _ => FileAt m child.fileid
  | .removeCommit _ _ child _ => ∀ x ∈ child, x.finalData = true → FileAt m x.fileid
  | .renameCommit _ victim _ _ => ∀ v ∈ victim, FileAt m v.fileid
  | .cleanup f todo => .inodeDel ∈ todo → FileAt m f
  | _ => True

theorem JobFiles.mono (hj : JobFiles m job) (h : ∀ f, FileAt m f → FileAt m' f) :
    JobFiles m' job := by
  cases job with
  | removePrefetch | removeSubmit => exact h _ hj
  | removeCommit => exact fun x hx hfinal => h _ (hj x hx hfinal)
  | renameCommit => exact fun v hv => h _ (hj v hv)
  | cleanup => exact fun hmem => h _ (hj hmem)
  | _ => trivial

theorem JobFiles.evolve (hj : JobFiles m job) (h : Evolves m m') : JobFiles m' job :=
  hj.mono fun _ hf => hf.evolve h

theorem evolves_jobStep (hj : JobFiles m job) : Evolves m (jobStep c m job).1 := by
  have hcall := jobCall c m job
  revert hcall
  generalize (jobStep c m job).1 = m'
  intro hcall
  cases hcall with
  | none => exact .refl m
  | submit _ h => exact evolves_memRemovePendingEnqueueUnlink hj h
  | remove h => exact (keeps_unlinkLocked h).evolves
  | rename h => exact (keeps_renameFlags h).evolves
  | cleanup => exact evolves_cleanupStep

/-- The clean-ups that delete no inode. -/
theorem inodeFind_of_memNsLookup (h : memNsLookup m p name = .ok child) :
    m.inodeFind child.fileid = some child := by
  unfold memNsLookup at h
  split at h <;> cases h
  next hfound =>
    obtain ⟨d, -, hd⟩ := Option.bind_eq_some_iff.mp hfound
    exact (fileid_of_inodeFind hd) ▸ hd

section

variable (hok : InodesOk m)

include hok

theorem InodesOk.fileAt {ino} (hi : m.inodeFind f = some ino) (ht : ino.type ≠ .dir) : FileAt m f :=
  ⟨hok.lt f ino hi, fun _ hi' => mem_unique hi hi' ▸ ht⟩

theorem fileAt_of_finalData (hchild : memNsLookup m p name = .ok child)
    (hfinal : child.finalData = true) : FileAt m child.fileid := by
  simp only [MdsInode.finalData, Bool.and_eq_true, decide_eq_true_eq] at hfinal
  exact hok.fileAt (inodeFind_of_memNsLookup hchild) (by rw [hfinal.1]; decide)

theorem jobFiles_removeSnapshot : JobFiles m (removeSnapshot c m p name) := by
  unfold removeSnapshot
  split
  · exact nofun
  next hchild =>
    split
    next hfinal =>
      have hfile := fileAt_of_finalData hok hchild (Bool.and_eq_true_iff.mp hfinal).1
      split
      · exact hfile
      · exact hfile
    next =>
      rintro x ⟨⟩ hfinal
      exact fileAt_of_finalData hok hchild hfinal

theorem jobFiles_renameSnapshot {a} : JobFiles m (renameSnapshot c m a) := by
  unfold renameSnapshot
  dsimp only
  split
  · trivial
  split
  · trivial
  split
  · trivial
  split
  · exact nofun
  next hv =>
    rintro x ⟨⟩
    obtain ⟨hvis, hfinal⟩ := filter_eq_some_iff.mp hv
    obtain ⟨hlook, -⟩ := filter_eq_some_iff.mp hvis
    cases hl : memNsLookup m a.dstParent a.dstName with
    | error =>
      rw [hl] at hlook
      cases hlook
    | ok =>
      rw [hl] at hlook
      cases hlook
      exact fileAt_of_finalData hok hl hfinal

theorem jobFiles_closeRead : JobFiles m (closeRead c m f) := by
  unfold closeRead
  split
  · trivial
  next ino hino =>
    split
    next horphan =>
      have hi := (filter_eq_some_iff.mp hino).1
      have hd : ino.doomed = true := by simp [MdsInode.doomed, horphan]
      exact fun _ => hok.fileAt hi (hok.doomed f ino hi hd)
    next => trivial

theorem jobFiles_drainAttr {row} : JobFiles m (drainAttr m row) := by
  unfold drainAttr
  split
  · exact fun hmem => by simp at hmem
  next hi =>
    split
    next hpending =>
      simp only [Bool.and_eq_true, decide_eq_true_eq] at hpending
      exact fun _ => hok.fileAt hi (by rw [hpending.2]; decide)
    next => exact fun hmem => by simp at hmem

end

theorem jobFiles_cleanupStep {act rest} (hrest : .inodeDel ∈ rest → FileAt m f) :
    JobFiles m (cleanupStep c m f rest act).2 := by
  obtain ⟨_, heq, hrows, -⟩ := @cleanup_rest m f c rest act
  rw [heq]
  exact fun hmem => hrest ((mem_append.mp hmem).resolve_left hrows)

theorem jobFiles_removeKnown : JobFiles m (removeKnown c m p name child map).2 := by
  have hgc := inodeDel_not_mem_gcActs c.allocGc
  unfold removeKnown
  split
  · trivial
  split
  · split
    · exact fun hmem => absurd hmem (hgc _)
    · exact fun hmem => by simp at hmem
  · trivial

theorem jobFiles_removeCommit {child} : JobFiles m (removeCommit c m p name child map).2 := by
  have hgc := inodeDel_not_mem_gcActs c.allocGc
  unfold removeCommit
  split
  · split <;> trivial
  split
  · exact jobFiles_removeKnown
  split
  · trivial
  · trivial
  · exact fun hmem => absurd hmem (hgc _)

theorem jobFiles_renameCommit {a victim keep} :
    JobFiles m (renameCommit c m a victim keep map).2 := by
  have hgc := inodeDel_not_mem_gcActs c.allocGc
  have hdel := inodeDel_not_mem_stripeDelActs
  unfold renameCommit
  split
  · trivial
  split
  · trivial
  split
  · trivial
  split
  · exact fun hmem => absurd (mem_append.mp hmem) (not_or.mpr ⟨hgc _, hdel _⟩)
  · exact fun hmem => absurd (mem_cons.mp hmem) (not_or.mpr ⟨nofun, hdel _⟩)

theorem jobFiles_jobStep (hok : InodesOk m) (hj : JobFiles m job) :
    JobFiles m (jobStep c m job).2 := by
  cases job with
  | removeSnapshot => exact jobFiles_removeSnapshot hok
  | removePrefetch => exact hj
  | removeSubmit p name child map =>
    have hcommit : JobFiles m (.removeCommit p name (some child) map) := by
      rintro x ⟨⟩ -
      exact hj
    simp only [jobStep, removeSubmit]
    split
    · split
      · trivial
      · exact hcommit
    · exact hcommit
  | removeCommit => exact jobFiles_removeCommit
  | renameSnapshot => exact jobFiles_renameSnapshot hok
  | renameCommit => exact jobFiles_renameCommit
  | closeRead => exact jobFiles_closeRead hok
  | drainDirent =>
    simp only [jobStep]
    split <;> trivial
  | drainAttr => exact jobFiles_drainAttr hok
  | cleanup f todo =>
    cases todo with
    | nil => trivial
    | cons => exact jobFiles_cleanupStep fun hmem => hj (mem_cons_of_mem _ hmem)
  | done => trivial

end Jobs

/-! ## The system -/

/-- Jobs delete files only. -/
structure NsSys.Files (s : NsSys) : Prop where
  inodes : InodesOk s.cat
  jobs : ∀ job ∈ s.jobs, JobFiles s.cat job

/-- The jobs that requests start with. -/
def Job.fresh : Job → Bool
  | .removeSnapshot _ _ | .renameSnapshot _ | .closeRead _ | .drainDirent _ => true
  | _ => false

/-- The ways in which a step changes the catalogue and the jobs: a call of its own, a new
request, a step of a job, or neither. -/
inductive SysStep (s : NsSys) : NsOp → NsSys → Prop
  | other {op s'} (hcat : s'.cat = s.cat) (hlost : s'.lost = s.lost) (hjobs : s'.jobs = s.jobs) :
  SysStep s op s'
  | create {i now name type mode uid gid a child cat}
      (h : memNsCreate now a s.cat = .ok (child, cat)) :
      SysStep s (.create i now name type mode uid gid) (s.setCat cat)
  | createWide {i now alloc name mode uid gid w a} :
      SysStep s (.createWide i now alloc name mode uid gid w)
        (s.setCat (createWideCall now alloc a w s.cat))
  | link {i now name p cd target cat} (hcd : s.compounds[i]? = some cd)
      (hsaved : cd.saved = some target) (h : memNsLink now p name target.fileid s.cat = .ok cat) :
      SysStep s (.link i now name) (s.setCat cat)
  | queue {op job} (hnew : job.fresh = true) : SysStep s op (s.queue job)
  | job {j c job} (hj : s.jobs[j]? = some job) :
      SysStep s (.job j c)
        { s.setCat (jobStep c s.cat job).1 with jobs := s.jobs.set j (jobStep c s.cat job).2 }

section System

variable {s s' : NsSys} {op : NsOp}

theorem sysStep (h : nsSysStep s op = some s') : SysStep s op s' := by
  cases op <;> simp only [nsSysStep, Option.bind_eq_bind, Option.bind_eq_some_iff,
    Option.pure_def, Option.some.injEq] at h
  case compound =>
    subst h
    exact .other rfl rfl rfl
  case fh i op =>
    obtain ⟨cd, -, rfl⟩ := h
    exact .other rfl rfl rfl
  case create i now name type mode uid gid =>
    obtain ⟨cd, -, fh, -, -, -, rfl⟩ := h
    unfold NsSys.call
    split
    next hcat =>
      obtain ⟨⟨_, _⟩, hok, rfl⟩ := exists_of_map_ok hcat
      exact .create hok
    next => exact .other rfl rfl rfl
  case createWide i now alloc name mode uid gid w =>
    obtain ⟨cd, -, fh, -, -, -, rfl⟩ := h
    exact .createWide
  case link i now name =>
    obtain ⟨cd, hcd, fh, -, _, hsaved, -, -, rfl⟩ := h
    unfold NsSys.call
    split
    next hcat => exact .link hcd hsaved hcat
    next => exact .other rfl rfl rfl
  case remove i name =>
    obtain ⟨cd, -, fh, -, -, -, rfl⟩ := h
    exact .queue rfl
  case rename i srcName dstName =>
    obtain ⟨cd, -, _, -, _, -, -, -, rfl⟩ := h
    exact .queue rfl
  case close i =>
    obtain ⟨_, -, _, -, rfl⟩ := h
    exact .queue rfl
  case drain row =>
    split at h <;> cases h
    exact .queue rfl
  case job j c =>
    obtain ⟨_, hj, rfl⟩ := h
    exact .job hj

variable {job : Job}

theorem JobFiles.of_fresh {m} (h : job.fresh = true) : JobFiles m job := by
  cases job <;> trivial

theorem evolves_step (hs : s.Files) (h : SysStep s op s') : Evolves s.cat s'.cat := by
  cases h with
  | other hcat =>
    rw [hcat]
    exact .refl _
  | create h => exact evolves_memNsCreate h
  | createWide => exact evolves_createWideCall
  | link _ _ h => exact (keeps_link h).evolves
  | queue => exact .refl _
  | job hj => exact evolves_jobStep (hs.jobs _ (mem_of_getElem? hj))

theorem files_step (hs : s.Files) (h : SysStep s op s') : s'.Files := by
  have hev := evolves_step hs h
  refine ⟨hs.inodes.evolve hev, fun job' hmem => ?_⟩
  -- Old jobs, and the one that moved.
  have hold : ∀ job ∈ s.jobs, JobFiles s'.cat job := fun job hjob => (hs.jobs job hjob).evolve hev
  cases h with
  | other _ _ hjobs => exact hold job' (hjobs ▸ hmem)
  | create | createWide | link => exact hold job' hmem
  | queue hnew => exact forall_mem_cons.mpr ⟨.of_fresh hnew, hold⟩ job' hmem
  | job hj =>
    refine forall_mem_set hold ?_ job' hmem
    exact (jobFiles_jobStep hs.inodes (hs.jobs _ (mem_of_getElem? hj))).evolve hev

theorem files_start (h : NsStart s) : s.Files := by
  obtain ⟨now, rfl⟩ := h
  refine ⟨⟨fun f ino hi => ?_, fun f ino hi hd => ?_⟩, nofun⟩
  · exact (good_start ⟨now, rfl⟩ false).shape.nodeLt f _ (node_of_inodeFind hi rfl)
  -- The root directory is not marked.
  have hroot : ino = rootInode now := mem_singleton.mp (mem_of_findKey hi)
  have hclear : (rootInode now).doomed = false := by simp [MdsInode.doomed, MdsInode.has, rootInode]
  rw [hroot, hclear] at hd
  cases hd

end System

end PnfsLattice
