import PnfsLattice.Namespace.Steps

/-!
# Lifecycle flags

`MDS_IFLAG_DELETE_PENDING` and `MDS_IFLAG_UNLINK_ORPHAN` tell the drainer and the last CLOSE
which inodes they have to finalize. They are set by the delete-at-ack of REMOVE and by a
RENAME over an open file, and share their word with `MDS_IFLAG_DS_PENDING`, which LAYOUTGET
and LAYOUTCOMMIT change by reading an inode and later writing the whole word back.

The updates of LAYOUTGET and LAYOUTCOMMIT run here next to the namespace operations. An
update is a job: the read of the inode, the insertion into the inode cache where there is
one, the write, the invalidation. LAYOUTCOMMIT may find the inode in the cache; entries of
the cache are dropped at any time or not at all, so that a cached inode may be as old as the
file. An inode that the compound of a LAYOUTCOMMIT has read for an earlier operation is one
whose read comes early.

A namespace call never clears a flag. A write of an update clears the lifecycle flags that
have been set since its read (`mark_clears_delete_pending`).
-/

namespace PnfsLattice

open Lib List Option Memdb

/-! ## The inode write of LAYOUTCOMMIT -/

/-- `compound_write_clears_setid`, for an unprivileged caller: the mode without its set-id
bits, if that is another mode. -/
def clearedMode (ino : MdsInode) : Option UInt32 :=
  if ino.type ≠ .reg then none
  else
    let mode := ino.mode &&& ~~~0o4000
    let mode := if mode &&& 0o010 != 0 then mode &&& ~~~0o2000 else mode
    if mode = ino.mode then none else some mode

/-- What a LAYOUTCOMMIT reports, and who sends it. -/
structure CommitArgs where
  /-- `last_write_offset`, if `new_offset`. -/
  lastWriteOffset : Option UInt64
  timeModify : Option ℕ
  /-- There is a commit aggregator. -/
  aggregator : Bool
  /-- The caller is not root, and access control is on. -/
  unprivileged : Bool
deriving DecidableEq

/-- What a step of an update meets outside the catalogue. -/
structure FlagEnv where
  now : ℕ
  /-- The quota check passes. -/
  quota : Bool
  /-- The aggregator takes the commit. -/
  submit : Bool
deriving DecidableEq

/-- The size that a LAYOUTCOMMIT reports, and whether it passes the checks. -/
def CommitArgs.newSize (a : CommitArgs) (env : FlagEnv) (lc : MdsInode) : Option UInt64 :=
  match a.lastWriteOffset with
  | none => some lc.size
  | some offset =>
    if offset = 0xFFFFFFFFFFFFFFFF then none
    else if lc.size < offset + 1 && !env.quota then none
    else some (offset + 1)

/-- The inode without `MDS_IFLAG_DS_PENDING`. -/
def clearDsPending (ino : MdsInode) : MdsInode :=
  { ino with flags := ino.flags &&& ~~~iflagDsPending }

/-- The size joins the merged write if it has grown. -/
def mergeSize (newSize : UInt64) (w : MdsInode × UInt32) : MdsInode × UInt32 :=
  if w.1.size < newSize then ({ w.1 with size := newSize }, w.2 ||| attrSizeExtend) else w

/-- The flags join it if `MDS_IFLAG_DS_PENDING` is set. -/
def mergeFlags (w : MdsInode × UInt32) : MdsInode × UInt32 :=
  if w.1.has iflagDsPending then (clearDsPending w.1, w.2 ||| attrFlags) else w

variable (a : CommitArgs)

/-- The time joins it: that of the client, or the present time with a new offset. -/
def mergeMtime (env : FlagEnv) (w : MdsInode × UInt32) : MdsInode × UInt32 :=
  match a.timeModify.or (a.lastWriteOffset.map fun _ => env.now) with
  | some mtime => ({ w.1 with mtime }, w.2 ||| attrMtime)
  | none => w

/-- The mode joins it if new data clears set-id bits. -/
def mergeMode (w : MdsInode × UInt32) : MdsInode × UInt32 :=
  if a.unprivileged && (a.lastWriteOffset.isSome || a.timeModify.isSome) then
    match clearedMode w.1 with
    | some mode => ({ w.1 with mode }, w.2 ||| attrMode)
    | none => w
  else w

def mergedWrite (env : FlagEnv) (newSize : UInt64) (lc : MdsInode) : MdsInode × UInt32 :=
  mergeMode a (mergeMtime a env (mergeFlags (mergeSize newSize (lc, 0))))

/-- The inode and the mask that a LAYOUTCOMMIT writes after reading `lc`; nothing if it
fails a check, or has nothing to write. The aggregator takes the size and the time. -/
def layoutcommitWrite (env : FlagEnv) (lc : MdsInode) : Option (MdsInode × UInt32) :=
  match a.newSize env lc with
  | none => none
  | some newSize =>
    if a.aggregator && lc.has iflagHpcShared then
      if (a.lastWriteOffset.isSome || a.timeModify.isSome) && !env.submit then none
      else if lc.has iflagDsPending then some (clearDsPending lc, attrFlags)
      else none
    else
      let w := mergedWrite a env newSize lc
      if w.2 = 0 then none else some w

/-! ## Updates -/

/-- Where an update of an inode stands. -/
inductive FlagJob
  /-- `layout_clear_ds_pending`. -/
  | clear (fileid : CatFileid)
  /-- `layout_revoke_unready_grant`, and `op_layoutget` without a grant. -/
  | mark (fileid : CatFileid)
  /-- `op_layoutcommit`, before it reads the inode. -/
  | commit (fileid : CatFileid) (a : CommitArgs)
  /-- An inode has been read from the catalogue, for a LAYOUTCOMMIT or another request, and is
  not in the cache yet. -/
  | fill (ino : MdsInode) (next : Option CommitArgs)
  /-- `cat_setattr` comes next. The merged write invalidates only if it succeeds. -/
  | write (fileid : CatFileid) (attrs : MdsInode) (mask : UInt32) (merged : Bool)
  /-- `compound_inode_invalidate`. -/
  | forget (fileid : CatFileid)
  | done
deriving DecidableEq

/-- The namespace, the inode cache and the updates. -/
structure FlagSys where
  ns : NsSys
  icache : List MdsInode
  updates : List FlagJob

inductive FlagOp
  | ns (op : NsOp)
  | clearDsPending (fileid : CatFileid)
  | markDsPending (fileid : CatFileid)
  | layoutcommit (fileid : CatFileid) (a : CommitArgs)
  /-- Another request reads the inode and puts it into the cache. -/
  | read (fileid : CatFileid)
  /-- An entry of the cache is dropped. -/
  | evict (fileid : CatFileid)
  | update (j : ℕ) (env : FlagEnv)

/-- A LAYOUTCOMMIT that has read its inode. A file under removal is stale. -/
def committing (env : FlagEnv) (a : CommitArgs) (lc : MdsInode) : FlagJob :=
  if lc.has iflagDeletePending then .done
  else
    match layoutcommitWrite a env lc with
    | none => .done
    | some (attrs, mask) => .write lc.fileid attrs mask true

/-- The read of `compound_cat_inode_get` past the cache. -/
def readInode (m : Memdb) (fileid : CatFileid) (next : Option CommitArgs) : FlagJob :=
  match (m.inodeFind fileid).filter MdsInode.visible with
  | none => .done
  | some ino => .fill ino next

/-- One step of an update: the catalogue, the cache, and where it then stands. -/
def updateStep (m : Memdb) (icache : List MdsInode) (env : FlagEnv) :
    FlagJob → Memdb × List MdsInode × FlagJob
  | .clear fileid =>
    match (m.inodeFind fileid).filter fun ino => ino.has iflagDsPending with
    | none => (m, icache, .done)
    | some ino => (m, icache, .write fileid (clearDsPending ino) attrFlags false)
  | .mark fileid =>
    match (m.inodeFind fileid).filter fun ino => !ino.has iflagDsPending with
    | none => (m, icache, .done)
    | some ino => (m, icache, .write fileid (setFlag iflagDsPending ino) attrFlags false)
  | .commit fileid a =>
    match (findKey MdsInode.fileid fileid icache).filter MdsInode.visible with
    | some lc => (m, icache, committing env a lc)
    | none => (m, eraseKey MdsInode.fileid fileid icache, readInode m fileid (some a))
  | .fill ino next =>
    (m, upsert MdsInode.fileid ino icache,
      match next with
      | none => .done
      | some a => committing env a ino)
  | .write fileid attrs mask merged =>
    match memNsSetattr env.now fileid attrs mask m with
    | .ok m' => (m', icache, .forget fileid)
    | .error _ => (m, icache, if merged then .done else .forget fileid)
  | .forget fileid => (m, eraseKey MdsInode.fileid fileid icache, .done)
  | .done => (m, icache, .done)

def FlagSys.queue (s : FlagSys) (job : FlagJob) : FlagSys :=
  { s with updates := s.updates ++ [job] }

def flagStep (s : FlagSys) : FlagOp → Option FlagSys
  | .ns op => (nsSysStep s.ns op).map fun ns => { s with ns }
  | .clearDsPending fileid => some (s.queue (.clear fileid))
  | .markDsPending fileid => some (s.queue (.mark fileid))
  | .layoutcommit fileid a => some (s.queue (.commit fileid a))
  | .read fileid => some (s.queue (readInode s.ns.cat fileid none))
  | .evict fileid => some { s with icache := eraseKey MdsInode.fileid fileid s.icache }
  | .update j env =>
    match s.updates[j]? with
    | none => none
    | some job =>
      let (cat, icache, job') := updateStep s.ns.cat s.icache env job
      some { ns := s.ns.setCat cat, icache, updates := s.updates.set j job' }

/-- A new server. -/
def FlagStart (s : FlagSys) : Prop := NsStart s.ns ∧ s.icache = [] ∧ s.updates = []

/-! ## The property and the condition -/

/-- The flags that tell who finalizes an inode. -/
def lifecycleFlags : List UInt32 := [iflagDeletePending, iflagUnlinkOrphan]

/-- Every lifecycle flag of an inode is still set if the inode is still there. -/
def KeepsLifecycle (s t : FlagSys) : Prop :=
  ∀ f ino ino', s.ns.cat.inodeFind f = some ino → t.ns.cat.inodeFind f = some ino' →
    ∀ flag ∈ lifecycleFlags, ino.has flag = true → ino'.has flag = true

/-- An update that writes the flags word has seen the lifecycle flags that the inode has. -/
def FlagJob.WritesCurrent (m : Memdb) : FlagJob → Prop
  | .write fileid attrs mask _ => selects mask attrFlags = true →
      ∀ ino ∈ m.inodeFind fileid, ∀ flag ∈ lifecycleFlags,
        ino.has flag = true → attrs.has flag = true
  | _ => True

instance (m : Memdb) : (job : FlagJob) → Decidable (job.WritesCurrent m)
  | .write fileid attrs _ _ =>
    have (ino : MdsInode) : Decidable (∀ flag ∈ lifecycleFlags,
        ino.has flag = true → attrs.has flag = true) := List.decidableBAll _ _
    inferInstanceAs (Decidable (_ → ∀ ino ∈ m.inodeFind fileid, _))
  | .clear .. | .mark .. | .commit .. | .fill .. | .forget .. | .done => instDecidableTrue

/-- Every write of an update is from a read that has seen the lifecycle flags. -/
def WritesCurrent (s : FlagSys) : FlagOp → Prop
  | .update j _ => ∀ job ∈ s.updates[j]?, job.WritesCurrent s.ns.cat
  | _ => True

instance (s : FlagSys) (op : FlagOp) : Decidable (WritesCurrent s op) := by
  cases op <;> unfold WritesCurrent <;> infer_instance

/-! ## What an update makes of the lifecycle flags -/

variable {flag : UInt32}

theorem has_clearDsPending (hflag : flag ∈ lifecycleFlags) (ino : MdsInode) :
    (clearDsPending ino).has flag = ino.has flag := by
  have hkeep : ~~~iflagDsPending &&& flag = flag := by
    simp only [lifecycleFlags, mem_cons, not_mem_nil, or_false] at hflag
    rcases hflag with rfl | rfl <;> decide
  simp [MdsInode.has, clearDsPending, UInt32.and_assoc, hkeep]

theorem has_setFlag_dsPending (hflag : flag ∈ lifecycleFlags) (ino : MdsInode) :
    (setFlag iflagDsPending ino).has flag = ino.has flag := by
  have hnone : iflagDsPending &&& flag = 0 := by
    simp only [lifecycleFlags, mem_cons, not_mem_nil, or_false] at hflag
    rcases hflag with rfl | rfl <;> decide
  simp [MdsInode.has, setFlag, or_and_distrib, hnone]

/-- One inode, with the same lifecycle flags. -/
structure Derived (lc attrs : MdsInode) : Prop where
  fileid : attrs.fileid = lc.fileid
  has : ∀ flag ∈ lifecycleFlags, attrs.has flag = lc.has flag

theorem Derived.refl (lc : MdsInode) : Derived lc lc := ⟨rfl, fun _ _ => rfl⟩

theorem Derived.trans {a b c} (h : Derived a b) (h' : Derived b c) : Derived a c :=
  ⟨h'.fileid.trans h.fileid, fun flag hf => (h'.has flag hf).trans (h.has flag hf)⟩

theorem derived_clearDsPending (lc : MdsInode) : Derived lc (clearDsPending lc) :=
  ⟨rfl, fun _ hflag => has_clearDsPending hflag lc⟩

theorem derived_setFlag (lc : MdsInode) : Derived lc (setFlag iflagDsPending lc) :=
  ⟨rfl, fun _ hflag => has_setFlag_dsPending hflag lc⟩

theorem derived_mergeSize (newSize : UInt64) (w : MdsInode × UInt32) :
    Derived w.1 (mergeSize newSize w).1 := by
  rw [mergeSize]
  split
  · exact ⟨rfl, fun _ _ => rfl⟩
  · exact .refl _

theorem derived_mergeFlags (w : MdsInode × UInt32) : Derived w.1 (mergeFlags w).1 := by
  rw [mergeFlags]
  split
  · exact derived_clearDsPending w.1
  · exact .refl _

theorem derived_mergeMtime (a : CommitArgs) (env : FlagEnv) (w : MdsInode × UInt32) :
    Derived w.1 (mergeMtime a env w).1 := by
  rw [mergeMtime]
  split
  · exact ⟨rfl, fun _ _ => rfl⟩
  · exact .refl _

theorem derived_mergeMode (a : CommitArgs) (w : MdsInode × UInt32) :
    Derived w.1 (mergeMode a w).1 := by
  rw [mergeMode]
  split
  · split
    · exact ⟨rfl, fun _ _ => rfl⟩
    · exact .refl _
  · exact .refl _

theorem derived_layoutcommitWrite {a env lc attrs mask}
    (h : layoutcommitWrite a env lc = some (attrs, mask)) : Derived lc attrs := by
  rw [layoutcommitWrite] at h
  split at h
  · cases h
  · next newSize _ =>
      split at h
      · split at h
        · cases h
        · split at h <;> cases h
          exact derived_clearDsPending lc
      · dsimp only at h
        split at h
        · cases h
        have hw : (mergedWrite a env newSize lc).1 = attrs :=
          congrArg _ (some.inj h)
        rw [← hw]
        exact (((derived_mergeSize _ (lc, 0)).trans (derived_mergeFlags _)).trans
          (derived_mergeMtime a env _)).trans (derived_mergeMode a _)

/-! ## Only files are marked for removal -/

/-- A snapshot with a mark for removal is one of a file. -/
def SnapOk (m : Memdb) (ino : MdsInode) : Prop := ino.doomed = true → FileAt m ino.fileid

/-- What an update has read are snapshots of files, if they have a mark. -/
def FlagJob.Ok (m : Memdb) : FlagJob → Prop
  | .fill ino _ => SnapOk m ino
  | .write fileid attrs _ _ => attrs.fileid = fileid ∧ SnapOk m attrs
  | _ => True

structure FlagInv (s : FlagSys) : Prop where
  files : s.ns.Files
  cached : ∀ ino ∈ s.icache, SnapOk s.ns.cat ino
  updates : ∀ job ∈ s.updates, job.Ok s.ns.cat

section Inv

variable {m m' : Memdb} {ino lc attrs : MdsInode} {job : FlagJob} {f : CatFileid}

theorem Derived.doomed (h : Derived lc attrs) : attrs.doomed = lc.doomed := by
  rw [MdsInode.doomed, MdsInode.doomed, h.has _ (by simp [lifecycleFlags]),
    h.has _ (by simp [lifecycleFlags])]

theorem SnapOk.derived (h : SnapOk m lc) (hd : Derived lc attrs) : SnapOk m attrs := by
  intro hdoomed
  rw [hd.fileid]
  exact h (hd.doomed ▸ hdoomed)

theorem SnapOk.mono (h : SnapOk m ino) (hm : ∀ f, FileAt m f → FileAt m' f) : SnapOk m' ino :=
  fun hd => hm _ (h hd)

theorem FlagJob.Ok.mono (h : job.Ok m) (hm : ∀ f, FileAt m f → FileAt m' f) : job.Ok m' := by
  cases job with
  | fill => exact SnapOk.mono h hm
  | write => exact ⟨h.1, h.2.mono hm⟩
  | _ => trivial

theorem snapOk_of_inodeFind (hm : InodesOk m) (h : m.inodeFind f = some ino) : SnapOk m ino := by
  intro hd
  rw [fileid_of_inodeFind h]
  refine ⟨hm.lt f ino h, fun ino' h' => ?_⟩
  obtain rfl : ino = ino' := mem_unique h h'
  exact hm.doomed f ino h hd

theorem ok_readInode (hm : InodesOk m) (next : Option CommitArgs) : (readInode m f next).Ok m := by
  rw [readInode]
  split
  · trivial
  · next h => exact snapOk_of_inodeFind hm (filter_eq_some_iff.mp h).1

theorem ok_committing (h : SnapOk m lc) (env : FlagEnv) (a : CommitArgs) :
    (committing env a lc).Ok m := by
  rw [committing]
  split
  · trivial
  split
  · trivial
  · next hw =>
      have hd := derived_layoutcommitWrite hw
      exact ⟨hd.fileid, h.derived hd⟩

theorem inodeFind_setattr (now : ℕ) (mask : UInt32) (x : CatFileid) :
    (m.inodeModify f (setattrInode now attrs mask)).inodeFind x =
      if x = f then (m.inodeFind x).map (setattrInode now attrs mask) else m.inodeFind x :=
  inodeFind_inodeModify x fun _ => rfl

variable {now : ℕ} {mask : UInt32}

theorem FileAt.setattr (h : FileAt m f) (g : CatFileid) :
    FileAt (m.inodeModify g (setattrInode now attrs mask)) f := by
  refine ⟨h.1, fun ino' h' => ?_⟩
  rw [inodeFind_setattr] at h'
  split at h'
  · obtain ⟨ino, hino, rfl⟩ := map_eq_some_iff.mp h'
    exact h.2 ino hino
  · exact h.2 ino' h'

theorem doomed_setattrInode (h : (setattrInode now attrs mask ino).doomed = true) :
    ino.doomed = true ∨ attrs.doomed = true := by
  by_cases hsel : selects mask attrFlags = true
  · simp only [MdsInode.doomed, MdsInode.has, setattrInode, if_pos hsel] at h
    exact .inr h
  · simp only [MdsInode.doomed, MdsInode.has, setattrInode, if_neg hsel] at h
    exact .inl h

/-- The write of an update whose snapshot is one of a file, if it has a mark. -/
theorem InodesOk.setattr (hm : InodesOk m) (hfid : attrs.fileid = f) (h : SnapOk m attrs) :
    InodesOk (m.inodeModify f (setattrInode now attrs mask)) := by
  constructor
  · intro x ino' hx
    rw [inodeFind_setattr] at hx
    split at hx
    · obtain ⟨ino, hino, -⟩ := map_eq_some_iff.mp hx
      exact hm.lt x ino hino
    · exact hm.lt x ino' hx
  · intro x ino' hx hd
    rw [inodeFind_setattr] at hx
    by_cases hxf : x = f
    · rw [if_pos hxf] at hx
      obtain ⟨ino, hino, rfl⟩ := map_eq_some_iff.mp hx
      rcases doomed_setattrInode hd with hold | hnew
      · exact hm.doomed x ino hino hold
      · have hfile := h hnew
        rw [hfid, ← hxf] at hfile
        exact hfile.2 ino hino
    · rw [if_neg hxf] at hx
      exact hm.doomed x ino' hx hd

theorem memNsSetattr_ok (h : memNsSetattr now f attrs mask m = .ok m') :
    (m.inodeFind f).isSome ∧ m' = m.inodeModify f (setattrInode now attrs mask) := by
  rw [memNsSetattr] at h
  by_cases hnone : (m.inodeFind f).isNone = true
  · rw [if_pos hnone] at h
    cases h
  · rw [if_neg hnone] at h
    cases h
    exact ⟨by simpa [isSome_iff_ne_none] using hnone, rfl⟩

end Inv

/-! ## Steps -/

/-- What a step of an update does to the catalogue: nothing, or its write. A write without
its inode does nothing. -/
inductive UpdateCall (m : Memdb) (env : FlagEnv) : FlagJob → Memdb → Prop
  | none {job} (h : job.WritesCurrent m) : UpdateCall m env job m
  | write {f attrs mask merged} (h : (m.inodeFind f).isSome) :
      UpdateCall m env (.write f attrs mask merged)
        (m.inodeModify f (setattrInode env.now attrs mask))

section Steps

variable {m : Memdb} {icache : List MdsInode} {env : FlagEnv} {job : FlagJob} {s t : FlagSys}

theorem updateCall (m : Memdb) (icache : List MdsInode) (env : FlagEnv) (job : FlagJob) :
    UpdateCall m env job (updateStep m icache env job).1 := by
  cases job with
  | clear | mark | commit =>
    simp only [updateStep]
    split <;> exact .none trivial
  | write =>
    simp only [updateStep]
    split
    · next h =>
        obtain ⟨hsome, rfl⟩ := memNsSetattr_ok h
        exact .write hsome
    · next h =>
        refine .none fun _ _ hino => ?_
        rw [memNsSetattr, hino] at h
        cases h
  | _ => exact .none trivial

variable {m' : Memdb} {op : FlagOp}

theorem FileAt.update (h : UpdateCall m env job m') (f : CatFileid) (hf : FileAt m f) :
    FileAt m' f := by
  cases h with
  | none => exact hf
  | write => exact hf.setattr _

theorem InodesOk.update (hm : InodesOk m) (hjob : job.Ok m) (h : UpdateCall m env job m') :
    InodesOk m' := by
  cases h with
  | none => exact hm
  | write => exact hm.setattr hjob.1 hjob.2

/-- The snapshots after a step of an update come from the catalogue, the cache or the
update. -/
theorem ok_updateStep (hm : InodesOk m) (hcached : ∀ ino ∈ icache, SnapOk m ino) (hjob : job.Ok m) :
    (∀ ino ∈ (updateStep m icache env job).2.1, SnapOk m ino) ∧
      (updateStep m icache env job).2.2.Ok m := by
  have herase : ∀ f, ∀ ino ∈ eraseKey MdsInode.fileid f icache, SnapOk m ino :=
    fun f ino hino => hcached ino (mem_eraseKey.mp hino).1
  cases job with
  | clear =>
    simp only [updateStep]
    split
    · exact ⟨hcached, trivial⟩
    · next ino h =>
        have hfind := (filter_eq_some_iff.mp h).1
        have hd := derived_clearDsPending ino
        refine ⟨hcached, hd.fileid.trans (fileid_of_inodeFind hfind), ?_⟩
        exact (snapOk_of_inodeFind hm hfind).derived hd
  | mark =>
    simp only [updateStep]
    split
    · exact ⟨hcached, trivial⟩
    · next ino h =>
        have hfind := (filter_eq_some_iff.mp h).1
        have hd := derived_setFlag ino
        refine ⟨hcached, hd.fileid.trans (fileid_of_inodeFind hfind), ?_⟩
        exact (snapOk_of_inodeFind hm hfind).derived hd
  | commit f a =>
    simp only [updateStep]
    split
    · next lc h =>
        have hmem := mem_of_findKey (filter_eq_some_iff.mp h).1
        exact ⟨hcached, ok_committing (hcached lc hmem) env a⟩
    · exact ⟨herase f, ok_readInode hm _⟩
  | fill _ next =>
    refine ⟨fun x hx => ?_, ?_⟩
    · rcases mem_upsert.mp hx with rfl | ⟨hx, -⟩
      · exact hjob
      · exact hcached x hx
    · cases next with
      | none => trivial
      | some a => exact ok_committing hjob env a
  | write f _ _ merged =>
    simp only [updateStep]
    split
    · exact ⟨hcached, trivial⟩
    · cases merged <;> exact ⟨hcached, trivial⟩
  | forget f => exact ⟨herase f, trivial⟩
  | done => exact ⟨hcached, trivial⟩

theorem FlagInv.queue (h : FlagInv s) {job} (hjob : job.Ok s.ns.cat) : FlagInv (s.queue job) :=
  { h with updates := forall_mem_append.mpr ⟨h.updates, forall_mem_singleton.mpr hjob⟩ }

theorem flagInv_step (h : FlagInv s) (hstep : flagStep s op = some t) : FlagInv t := by
  cases op with
  | ns =>
    obtain ⟨ns, hns, rfl⟩ := map_eq_some_iff.mp hstep
    have hev := evolves_step h.files (sysStep hns)
    have hmono : ∀ f, FileAt s.ns.cat f → FileAt ns.cat f := fun f hf => hf.evolve hev
    exact ⟨files_step h.files (sysStep hns), fun ino hino => (h.cached ino hino).mono hmono,
      fun job hjob => (h.updates job hjob).mono hmono⟩
  | clearDsPending | markDsPending | layoutcommit =>
    cases hstep
    exact h.queue trivial
  | read =>
    cases hstep
    exact h.queue (ok_readInode h.files.inodes none)
  | evict =>
    cases hstep
    exact ⟨h.files, fun ino hino => h.cached ino (mem_eraseKey.mp hino).1, h.updates⟩
  | update j env =>
    simp only [flagStep] at hstep
    split at hstep
    · cases hstep
    · next job hj =>
        cases hstep
        have hjob := h.updates job (mem_of_getElem? hj)
        have hcall := updateCall s.ns.cat s.icache env job
        have hmono := FileAt.update hcall
        obtain ⟨hcached, hjob'⟩ := @ok_updateStep _ _ env job h.files.inodes
          h.cached hjob
        refine ⟨⟨h.files.inodes.update hjob hcall, fun k hk => ?_⟩, fun ino hino => ?_,
          forall_mem_set (fun k hk => ?_) (hjob'.mono hmono)⟩
        · exact (h.files.jobs k hk).mono hmono
        · exact (hcached ino hino).mono hmono
        · exact (h.updates k hk).mono hmono

theorem flagInv_start (h : FlagStart s) : FlagInv s := by
  obtain ⟨hns, hcache, hupdates⟩ := h
  exact ⟨files_start hns, by simp [hcache], by simp [hupdates]⟩

theorem keepsLifecycle_ns {ns op} (h : FlagInv s) (hns : nsSysStep s.ns op = some ns) :
    KeepsLifecycle s { s with ns } := by
  intro f ino ino' hino hino' flag _ hflag
  rcases (evolves_step h.files (sysStep hns)).inode f ino' hino' with
    ⟨old, hold, -, -, hk⟩ | ⟨hnew, -⟩
  · obtain rfl : ino = old := mem_unique hino hold
    exact hk flag hflag
  · exact absurd (h.files.inodes.lt f ino hino) hnew.not_gt

theorem keepsLifecycle_of_cat (hcat : t.ns.cat = s.ns.cat) : KeepsLifecycle s t := by
  intro f _ _ hino hino' _ _ hflag
  rw [hcat, hino] at hino'
  cases hino'
  exact hflag

/-- A write of an update clears no lifecycle flag exactly if its snapshot has them all. -/
theorem keepsLifecycle_update (hcall : UpdateCall s.ns.cat env job t.ns.cat) :
    KeepsLifecycle s t ↔ job.WritesCurrent s.ns.cat := by
  generalize hcat : t.ns.cat = cat at hcall
  cases hcall with
  | none hcur => exact ⟨fun _ => hcur, fun _ => keepsLifecycle_of_cat hcat⟩
  | @write f attrs mask =>
    constructor
    · intro h hsel ino hino flag hflag hhas
      have hino' : t.ns.cat.inodeFind f = some (setattrInode env.now attrs mask ino) := by
        rw [hcat, inodeFind_setattr, if_pos rfl, hino, map_some]
      have hset := h f ino _ hino hino' flag hflag hhas
      simpa only [MdsInode.has, setattrInode, if_pos hsel] using hset
    · intro h x ino _ hino hino' flag hflag hhas
      rw [hcat, inodeFind_setattr] at hino'
      by_cases hxf : x = f
      · rw [if_pos hxf, hino] at hino'
        cases hino'
        by_cases hsel : selects mask attrFlags = true
        · have hset := h hsel ino (hxf ▸ hino) flag hflag hhas
          simpa only [MdsInode.has, setattrInode, if_pos hsel] using hset
        · simpa only [MdsInode.has, setattrInode, if_neg hsel] using hhas
      · rw [if_neg hxf, hino] at hino'
        cases hino'
        exact hhas

theorem keepsLifecycle_step (h : FlagInv s) (hstep : flagStep s op = some t) :
    KeepsLifecycle s t ↔ WritesCurrent s op := by
  cases op with
  | ns =>
    obtain ⟨_, hns, rfl⟩ := map_eq_some_iff.mp hstep
    exact ⟨fun _ => trivial, fun _ => keepsLifecycle_ns h hns⟩
  | update j env =>
    simp only [flagStep] at hstep
    split at hstep
    · cases hstep
    · next job hj =>
        cases hstep
        refine (keepsLifecycle_update (updateCall _ _ env job)).trans ?_
        constructor
        · intro hcur k hk
          obtain rfl : job = k := mem_unique hj hk
          exact hcur
        · exact fun hcur => hcur job hj
  | _ =>
    cases hstep
    exact ⟨fun _ => trivial, fun _ => keepsLifecycle_of_cat rfl⟩

theorem allMoves_keepsLifecycle_iff (h : FlagInv s) (run : List FlagOp) :
    AllMoves flagStep KeepsLifecycle s run ↔ AllSteps flagStep WritesCurrent s run :=
  allMoves_iff_allSteps (I := FlagInv) (R := KeepsLifecycle) (C := WritesCurrent)
    (fun _ _ _ hinv hstep => flagInv_step hinv hstep)
    (fun _ _ _ hinv hstep => keepsLifecycle_step hinv hstep) run h

end Steps

/-- **Lifecycle flags.**  Along a run of LAYOUTGETs, LAYOUTCOMMITs and namespace operations
from a new server no step takes `MDS_IFLAG_DELETE_PENDING` or `MDS_IFLAG_UNLINK_ORPHAN` from
an inode that stays, exactly if no update of `MDS_IFLAG_DS_PENDING` writes the flags word
from a snapshot older than such a flag. -/
theorem lifecycle_flags_kept {s : FlagSys} (h : FlagStart s) (run : List FlagOp) :
    AllMoves flagStep KeepsLifecycle s run ↔ AllSteps flagStep WritesCurrent s run :=
  allMoves_keepsLifecycle_iff (flagInv_start h) run

/-! ### Runs -/

def newFlagServer : FlagSys := { ns := newServer, icache := [], updates := [] }

theorem flagStart_newFlagServer : FlagStart newFlagServer := ⟨nsStart_newServer, rfl, rfl⟩

/-- The file `/a`, which gets the first fileid. -/
def makeFileA : List FlagOp :=
  [.ns .compound, .ns (.fh 0 .putrootfh), .ns (.create 0 1 [97] .reg 0o644 0 0)]

/-- The next step of update `j`, at a time when nothing is refused. -/
def runUpdate (j : ℕ) : FlagOp := .update j { now := 2, quota := true, submit := true }

/-- REMOVE of `/a` up to its delete-at-ack. -/
def removeA : List FlagOp :=
  [.ns (.remove 0 [97]), .ns (runJob 0 true), .ns (runJob 0 true), .ns (runJob 0 true)]

/-- LAYOUTGET marks the file and clears the mark before the file is removed. -/
theorem lifecycle_flags_kept_inTurn : ∃ t, exec flagStep newFlagServer (makeFileA ++
        [.markDsPending 3, runUpdate 0, runUpdate 0, .clearDsPending 3, runUpdate 1, runUpdate 1] ++
        removeA) = some t ∧
      (t.ns.cat.inodeFind 3).any (fun ino => ino.has iflagDeletePending) = true ∧
      AllMoves flagStep KeepsLifecycle newFlagServer (makeFileA ++
        [.markDsPending 3, runUpdate 0, runUpdate 0, .clearDsPending 3, runUpdate 1, runUpdate 1] ++
        removeA) :=
  ⟨_, rfl, by decide, (lifecycle_flags_kept flagStart_newFlagServer _).mpr (by decide)⟩

/-- LAYOUTGET reads the inode, REMOVE deletes the file at its acknowledgement, and LAYOUTGET
writes the flags back: `MDS_IFLAG_DELETE_PENDING` is lost, the drainer takes the row of the
manifest for done, and the inode stays for good. -/
theorem mark_clears_delete_pending : ¬ AllMoves flagStep KeepsLifecycle newFlagServer
        (makeFileA ++ [.markDsPending 3, runUpdate 0] ++ removeA ++ [runUpdate 0]) ∧
    ∃ t, exec flagStep newFlagServer
        (makeFileA ++ [.markDsPending 3, runUpdate 0] ++ removeA ++ [runUpdate 0] ++
          [.ns (.drain ⟨1, 2, [97], 3, 1⟩), .ns (runJob 0 true), .ns (runJob 0 true),
            .ns (runJob 0 true)]) = some t ∧
      t.ns.cat.removePending = [] ∧ t.ns.cat.dirents = [] ∧
      (t.ns.cat.inodeFind 3).isSome = true := by
  refine ⟨fun h => ?_, _, rfl, by decide, by decide, by decide⟩
  have hsteps := (allMoves_keepsLifecycle_iff (flagInv_start flagStart_newFlagServer) _).mp h
  revert hsteps
  decide

end PnfsLattice
