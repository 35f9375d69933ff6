import PnfsLattice.Catalogue.Memdb
import PnfsLattice.Lib.Machine

/-!
# Namespace operations

REMOVE, RENAME, LINK, CREATE and CLOSE of one metadata server as they run over the
in-memory catalogue. A request is a job, and a step of it is one catalogue call: the
lookup that takes the snapshot, the prefetch of the stripe map, the call that changes the
namespace, each row of the clean-up afterwards. Jobs interleave. The drainer of the
asynchronous remove is a job for a row of the manifest.

Requests come from compounds, whose current and saved filehandles are set by PUTROOTFH,
PUTFH, LOOKUP, SAVEFH and RESTOREFH. A filehandle carries the path that the compound
keeps for it, which PUTFH leaves empty.

The checks that only refuse a request (access control, frozen subtrees, the encoding of
names) are not modelled: a refused request is one that is not made. Neither are change
counters in replies, quota and notifications, which these steps do not read.
-/

namespace PnfsLattice

open Lib

/-! ## The data of a file -/

structure StripeSnap where
  stripeCount : ℕ
  mirrorCount : ℕ
  entries : List DsMapEntry
deriving DecidableEq

/-- The snapshot of a catalogue row. -/
def MemdbStripe.snap (s : MemdbStripe) : StripeSnap :=
  { stripeCount := s.stripeCount, mirrorCount := s.mirrorCount, entries := s.entries }

/-- The one stripe that is recorded on the inode. -/
def MdsInode.inlineSnap (ino : MdsInode) : StripeSnap where
  stripeCount := 1
  mirrorCount := 1
  entries := [{ dsId := ino.inlineDsId, nfsFh := ino.inlineFh.take mdsNfsFhMax }]

/-- `MDS_GC_SWEEP_GEOM`. -/
def StripeSnap.geom (s : StripeSnap) : UInt32 :=
  (UInt32.ofNat s.stripeCount <<< 4) ||| (UInt32.ofNat s.mirrorCount &&& 0xF)

/-- The first entry of each data server, with its filehandle cut to `MDS_NFS_FH_MAX`. -/
def uniqueDs : List UInt32 → List DsMapEntry → List DsMapEntry
  | _, [] => []
  | seen, e :: es =>
    if e.dsId ∈ seen then uniqueDs seen es
    else { e with nfsFh := e.nfsFh.take mdsNfsFhMax } :: uniqueDs (e.dsId :: seen) es

/-- `collect_unique_ds_gc_entries`; `alloc` is its allocation. -/
def collectUniqueDs (alloc : Bool) (s : StripeSnap) : Option (List DsMapEntry) :=
  if s.stripeCount = 0 || s.mirrorCount = 0 || mdsMaxStripes < s.stripeCount ||
      mdsMaxMirrors < s.mirrorCount || !alloc then none
  else some (uniqueDs [] (s.entries.take (s.stripeCount * s.mirrorCount)))

/-- A REG file whose last link is going, as `op_remove` and `op_rename` decide it. -/
def MdsInode.finalData (ino : MdsInode) : Bool := ino.type = .reg && ino.nlink = 1

/-! ## Clean-up -/

/-- A catalogue call of a clean-up. -/
inductive CleanupAct
  /-- `stripe_map_get`, whose rows are then queued; the drainer bounds their number. -/
  | fetch (drainer : Bool)
  | gc (e : DsMapEntry) (sweepHint : UInt32)
  | stripeDel
  | inodeDel
  | complete (removeSeq : ℕ)
deriving DecidableEq

/-- `enqueue_gc_for_final_unlink` with a stripe map at hand. -/
def gcActs (alloc : Bool) (s : StripeSnap) : List CleanupAct :=
  match collectUniqueDs alloc s with
  | none => []
  | some es => es.map fun e => .gc e s.geom

/-- `rm_gc_enqueue_stripe_map`. -/
def rmGcActs (s : StripeSnap) : List CleanupAct :=
  if s.stripeCount = 0 || s.mirrorCount = 0 then []
  else ((uniqueDs [] (s.entries.take (min (s.stripeCount * s.mirrorCount) (64 * 64)))).take 64).map
    fun e => .gc e s.geom

/-- The stripe map is deleted unless it is on the inode. -/
def MdsInode.stripeDelActs (ino : MdsInode) : List CleanupAct :=
  if ino.has iflagInlineStripe then [] else [.stripeDel]

/-- `compound_orphan_finalize`. -/
def orphanFinalizeActs (alloc : Bool) (ino : MdsInode) : List CleanupAct :=
  (if ino.has iflagInlineStripe then gcActs alloc ino.inlineSnap else [.fetch false]) ++
    ino.stripeDelActs ++ [.inodeDel]

/-- `rm_finalize_inode`. -/
def rmFinalizeActs (ino : MdsInode) : List CleanupAct :=
  (if ino.has iflagInlineStripe then rmGcActs ino.inlineSnap else [.fetch true]) ++
    ino.stripeDelActs ++ [.inodeDel]

/-! ## Jobs -/

structure RenameArgs where
  srcParent : CatFileid
  srcName : Name
  dstParent : CatFileid
  dstName : Name
deriving DecidableEq

/-- A request and its place. -/
inductive Job
  | removeSnapshot (parent : CatFileid) (name : Name)
  | removePrefetch (parent : CatFileid) (name : Name) (child : MdsInode)
  | removeSubmit (parent : CatFileid) (name : Name) (child : MdsInode) (map : Option StripeSnap)
  | removeCommit (parent : CatFileid) (name : Name) (child : Option MdsInode)
      (map : Option StripeSnap)
  | renameSnapshot (a : RenameArgs)
  /-- `victim` is set if the destination was the last link of a regular file. -/
  | renameCommit (a : RenameArgs) (victim : Option MdsInode) (keep : Bool)
      (map : Option StripeSnap)
  | closeRead (fileid : CatFileid)
  | drainDirent (row : RemovePendingEntry)
  | drainAttr (row : RemovePendingEntry)
  | cleanup (fileid : CatFileid) (todo : List CleanupAct)
  | done
deriving DecidableEq

/-- What a step finds outside the catalogue: the clock, its allocations, whether the
asynchronous path may be taken, whether the file is open. -/
structure Choice where
  now : ℕ
  alloc : Bool
  allocGc : Bool
  async : Bool
  hasWriters : Bool
deriving DecidableEq

variable (c : Choice) (m : Memdb) (parent : CatFileid) (name : Name)

/-- The snapshot of `op_remove`: `op_remove_resolve`, `op_remove_snapshot_inline_stripe`. -/
def removeSnapshot : Job :=
  match memNsLookup m parent name with
  | .error _ => .removeCommit parent name none none
  | .ok child =>
    if child.finalData && child.fileid != 0 then
      if child.has iflagInlineStripe && c.alloc then
        .removeSubmit parent name child (some child.inlineSnap)
      else .removePrefetch parent name child
    else .removeCommit parent name (some child) none

/-- `op_remove_try_async`. -/
def removeSubmit (child : MdsInode) (map : Option StripeSnap) : Memdb × Job :=
  if c.async then
    match memRemovePendingEnqueueUnlink parent name child.fileid child.generation m with
    | .ok m' => (m', .done)
    | .error _ => (m, .removeCommit parent name (some child) map)
  else (m, .removeCommit parent name (some child) map)

/-- The remove without a guard: the catalogue has no `ns_remove_known`. What is done
afterwards follows from the snapshot. -/
def removeKnown (child : MdsInode) (map : Option StripeSnap) : Memdb × Job :=
  match memNsRemove c.now parent name m with
  | .error _ => (m, .done)
  | .ok (_, m') =>
    if child.finalData && child.fileid != 0 then
      match map with
      | some s => (m', .cleanup child.fileid (gcActs c.allocGc s))
      | none => (m', .cleanup child.fileid [.fetch false])
    else (m', .done)

/-- The rows of a fused remove: there are some if the last link of a file goes and its
stripe map is at hand. -/
def fusedRows (c : Choice) (child : MdsInode) (map : Option StripeSnap) :
    Option (StripeSnap × List DsMapEntry) :=
  if child.finalData && child.fileid != 0 then
    map.bind fun s => (collectUniqueDs c.alloc s).bind fun es =>
      if es.isEmpty then none else some (s, es)
  else none

/-- `op_remove_commit` and `op_remove_finish`. -/
def removeCommit (c : Choice) (m : Memdb) (parent : CatFileid) (name : Name)
    (child : Option MdsInode) (map : Option StripeSnap) : Memdb × Job :=
  match child with
  | none =>
    match memNsRemove c.now parent name m with
    | .error _ => (m, .done)
    | .ok (_, m') => (m', .done)
  | some child =>
    match fusedRows c child map with
    | none => removeKnown c m parent name child map
    | some (s, es) =>
      match memNsRemoveKnownGc c.now parent name child ⟨es, s.geom⟩ m with
      | .error _ => (m, .done)
      | .ok (true, m') => (m', .done)
      | .ok (false, m') => (m', .cleanup child.fileid (gcActs c.allocGc s))

/-- A lookup of `compound_lookup_local_child`, past the caches. -/
def lookupVisible (m : Memdb) (parent : CatFileid) (name : Name) : Option MdsInode :=
  (memNsLookup m parent name).toOption.filter MdsInode.visible

variable (c : Choice) (m : Memdb)

/-- The snapshot of `op_rename`: it ends if both names are one file, or if a directory is to
replace one that has entries. -/
def renameSnapshot (a : RenameArgs) : Job :=
  let src := lookupVisible m a.srcParent a.srcName
  let dst := lookupVisible m a.dstParent a.dstName
  if a.srcParent = a.dstParent ∧ a.srcName = a.dstName then .done
  else if src.any fun s => dst.any fun d => s.fileid = d.fileid then .done
  else if src.any fun s => dst.any fun d =>
      s.type = .dir && d.type = .dir && m.dirHasEntries d.fileid then .done
  else match dst.filter MdsInode.finalData with
    | none => .renameCommit a none false none
    | some v => .renameCommit a (some v) c.hasWriters
        (if !c.hasWriters && v.has iflagInlineStripe && c.alloc then some v.inlineSnap else none)

/-- The change of `op_rename`, and what is done afterwards for an overwritten file. -/
def renameCommit (a : RenameArgs) (victim : Option MdsInode) (keep : Bool)
    (map : Option StripeSnap) : Memdb × Job :=
  match memNsRenameFlags c.now a.srcParent a.srcName a.dstParent a.dstName
      (if keep then rnfKeepDstOrphan else 0) m with
  | .error _ => (m, .done)
  | .ok m' =>
    match victim with
    | none => (m', .done)
    | some v =>
      if keep then (m', .done)
      else match map with
        | some s => (m', .cleanup v.fileid (gcActs c.allocGc s ++ v.stripeDelActs))
        | none => (m', .cleanup v.fileid (.fetch false :: v.stripeDelActs))

/-- The read of the inode after the last CLOSE. -/
def closeRead (fileid : CatFileid) : Job :=
  match (m.inodeFind fileid).filter MdsInode.visible with
  | none => .done
  | some ino =>
    if ino.has iflagUnlinkOrphan then .cleanup fileid (orphanFinalizeActs c.allocGc ino) else .done

/-- The second half of `rm_execute`. -/
def drainAttr (m : Memdb) (row : RemovePendingEntry) : Job :=
  match m.inodeFind row.childFileid with
  | none => .cleanup row.childFileid [.complete row.removeSeq]
  | some ino =>
    if ino.has iflagDeletePending && ino.generation = row.childGeneration && ino.type = .reg then
      .cleanup row.childFileid (rmFinalizeActs ino ++ [.complete row.removeSeq])
    else .cleanup row.childFileid [.complete row.removeSeq]

/-- One call of a clean-up; failures are ignored. -/
def cleanupStep (c : Choice) (m : Memdb) (fileid : CatFileid) (rest : List CleanupAct) :
    CleanupAct → Memdb × Job
  | .fetch drainer =>
    match m.stripeFind fileid with
    | none => (m, .cleanup fileid rest)
    | some s =>
      if !c.alloc then (m, .cleanup fileid rest)
      else if drainer then (m, .cleanup fileid (rmGcActs s.snap ++ rest))
      else (m, .cleanup fileid (gcActs c.allocGc s.snap ++ rest))
  | .gc e hint =>
    match memGcEnqueue fileid e hint m with
    | .ok m' => (m', .cleanup fileid rest)
    | .error _ => (m, .cleanup fileid rest)
  | .stripeDel => (memStripeMapDel fileid m, .cleanup fileid rest)
  | .inodeDel =>
    match memInodeDel fileid m with
    | .ok m' => (m', .cleanup fileid rest)
    | .error _ => (m, .cleanup fileid rest)
  | .complete seq => (memRemovePendingComplete seq m, .cleanup fileid rest)

def jobStep (c : Choice) (m : Memdb) : Job → Memdb × Job
  | .removeSnapshot parent name => (m, removeSnapshot c m parent name)
  | .removePrefetch parent name child =>
    (m, .removeSubmit parent name child
      (((m.stripeFind child.fileid).map MemdbStripe.snap).filter fun _ => c.alloc))
  | .removeSubmit parent name child map => removeSubmit c m parent name child map
  | .removeCommit parent name child map => removeCommit c m parent name child map
  | .renameSnapshot a => (m, renameSnapshot c m a)
  | .renameCommit a victim keep map => renameCommit c m a victim keep map
  | .closeRead fileid => (m, closeRead c m fileid)
  | .drainDirent row =>
    -- The name is bound to the file again: the backend cannot remove it under a guard, and
    -- the row is left for a later attempt.
    if (m.direntFind row.dirFileid row.name).any fun d => d.childFileid = row.childFileid then
      (m, .done)
    else (m, .drainAttr row)
  | .drainAttr row => (m, drainAttr m row)
  | .cleanup _ [] => (m, .done)
  | .cleanup fileid (act :: rest) => cleanupStep c m fileid rest act
  | .done => (m, .done)

/-! ## Compounds -/

/-- `/`. -/
def slash : UInt8 := 47

/-- A filehandle with the path the compound keeps for it. -/
structure PathFh where
  fileid : CatFileid
  path : Name
deriving DecidableEq

/-- The current and the saved filehandle. -/
structure CompoundFh where
  current : Option PathFh
  saved : Option PathFh
deriving DecidableEq

/-- `compound_validate_name`, without the check of the encoding. -/
def validateName (name : Name) : Bool :=
  !name.isEmpty && name != [46] && name != [46, 46] && slash ∉ name

/-- The path after a LOOKUP; an unknown path stays unknown. -/
def PathFh.child (fh : PathFh) (name : Name) : Name :=
  if fh.path = [slash] then slash :: name
  else if fh.path.isEmpty then []
  else fh.path ++ slash :: name

/-- The cycle test of `op_rename`: the saved path is a directory above the current one. -/
def pathAbove (saved current : Name) : Bool :=
  !saved.isEmpty && !current.isEmpty && saved.isPrefixOf current &&
    current[saved.length]? == some slash

/-- The operations on filehandles. -/
inductive FhOp
  | putrootfh
  | putfh (fileid : CatFileid)
  | lookup (name : Name)
  | savefh
  | restorefh
deriving DecidableEq

/-- An operation on filehandles; an error leaves them as they were. -/
def fhStep (m : Memdb) (cd : CompoundFh) : FhOp → CompoundFh
  | .putrootfh => { cd with current := some ⟨fileidRoot, [slash]⟩ }
  | .putfh fileid =>
    if fileid ≠ 0 && ((m.inodeFind fileid).filter MdsInode.visible).isSome then
      { cd with current := some ⟨fileid, []⟩ }
    else cd
  | .lookup name =>
    match cd.current with
    | none => cd
    | some fh =>
      match lookupVisible m fh.fileid name with
      | none => cd
      | some child =>
        if !validateName name || mdsMaxPath ≤ (fh.child name).length then cd
        else { cd with current := some ⟨child.fileid, fh.child name⟩ }
  | .savefh => if cd.current.isSome then { cd with saved := cd.current } else cd
  | .restorefh => if cd.saved.isSome then { cd with current := cd.saved } else cd

/-! ## The system -/

/-- The catalogue, the compounds and the requests under way. `lost` collects the files
whose stripe map has been deleted; no step reads it. -/
structure NsSys where
  cat : Memdb
  lost : List CatFileid
  compounds : List CompoundFh
  jobs : List Job

/-- The catalogue after a call, with the stripe maps that have gone. -/
def NsSys.setCat (s : NsSys) (cat : Memdb) : NsSys :=
  { s with
    cat
    lost := (s.cat.stripes.map MemdbStripe.fileid).filter (fun f => (cat.stripeFind f).isNone) ++
      s.lost }

/-- The data that a wide create is given. -/
structure WideData where
  stripeCount : ℕ
  stripeUnit : ℕ
  mirrorCount : ℕ
  entries : List DsMapEntry
  inlineStripe : Bool
deriving DecidableEq

/-- The inode of a wide create: a new fileid and one link. -/
def WideData.child (w : WideData) (a : CreateArgs) (fileid : CatFileid) (now : ℕ) : MdsInode :=
  { a.child fileid now with
    nlink := 1
    flags := if w.inlineStripe then iflagInlineStripe else 0 }

/-- The labels. Requests are those of the compound with the given index. -/
inductive NsOp
  | compound
  | fh (i : ℕ) (op : FhOp)
  | create (i now : ℕ) (name : Name) (type : FileType) (mode : UInt32) (uid gid : UInt64)
  | createWide (i now : ℕ) (alloc : Bool) (name : Name) (mode : UInt32) (uid gid : UInt64)
      (w : WideData)
  | link (i now : ℕ) (name : Name)
  | remove (i : ℕ) (name : Name)
  | rename (i : ℕ) (srcName dstName : Name)
  | close (i : ℕ)
  | drain (row : RemovePendingEntry)
  | job (j : ℕ) (c : Choice)

/-- A catalogue call of its own: LINK and CREATE are one call each. -/
def NsSys.call (s : NsSys) (r : Except MdsStatus Memdb) : NsSys :=
  match r with
  | .ok cat => s.setCat cat
  | .error _ => s

def NsSys.queue (s : NsSys) (j : Job) : NsSys := { s with jobs := j :: s.jobs }

/-- A wide create: a fileid is taken, and the file made under it. -/
def createWideCall (now : ℕ) (alloc : Bool) (a : CreateArgs) (w : WideData) (m : Memdb) : Memdb :=
  let (fileid, m) := memAllocFileid m
  match memNsCreateWide now alloc
      { parentFileid := a.parent, name := a.name, child := w.child a fileid now
        stripeCount := w.stripeCount, stripeUnit := w.stripeUnit, mirrorCount := w.mirrorCount
        entries := w.entries } m with
  | .ok m' => m'
  | .error _ => m

def nsSysStep (s : NsSys) : NsOp → Option NsSys
  | .compound => some { s with compounds := ⟨none, none⟩ :: s.compounds }
  | .fh i op => do
    let cd ← s.compounds[i]?
    return { s with compounds := s.compounds.set i (fhStep s.cat cd op) }
  | .create i now name type mode uid gid => do
    let cd ← s.compounds[i]?
    let fh ← cd.current
    guard (validateName name)
    return s.call ((memNsCreate now ⟨fh.fileid, name, type, mode, uid, gid⟩ s.cat).map Prod.snd)
  | .createWide i now alloc name mode uid gid w => do
    let cd ← s.compounds[i]?
    let fh ← cd.current
    guard (validateName name)
    return s.setCat (createWideCall now alloc ⟨fh.fileid, name, .reg, mode, uid, gid⟩ w s.cat)
  | .link i now name => do
    let cd ← s.compounds[i]?
    let fh ← cd.current
    let target ← cd.saved
    guard (validateName name)
    return s.call (memNsLink now fh.fileid name target.fileid s.cat)
  | .remove i name => do
    let cd ← s.compounds[i]?
    let fh ← cd.current
    guard (validateName name)
    return s.queue (.removeSnapshot fh.fileid name)
  | .rename i srcName dstName => do
    let cd ← s.compounds[i]?
    let dst ← cd.current
    let src ← cd.saved
    guard (validateName srcName && validateName dstName && !pathAbove src.path dst.path)
    return s.queue (.renameSnapshot ⟨src.fileid, srcName, dst.fileid, dstName⟩)
  | .close i => do
    let cd ← s.compounds[i]?
    let fh ← cd.current
    return s.queue (.closeRead fh.fileid)
  | .drain row => if row ∈ s.cat.removePending then some (s.queue (.drainDirent row)) else none
  | .job j c => do
    let job ← s.jobs[j]?
    let (cat, job') := jobStep c s.cat job
    return { s.setCat cat with jobs := s.jobs.set j job' }

/-- A server with an empty catalogue and no request. -/
def NsStart (s : NsSys) : Prop :=
  ∃ now, s = { cat := memdbNew now, lost := [], compounds := [], jobs := [] }

/-- A new server at time 0. -/
def newServer : NsSys := { cat := memdbNew 0, lost := [], compounds := [], jobs := [] }

theorem nsStart_newServer : NsStart newServer := ⟨0, rfl⟩

/-- A step of job `j`: allocations succeed, the file is not open. -/
def runJob (j : ℕ) (async : Bool) : NsOp := .job j ⟨1, true, true, async, false⟩

end PnfsLattice
