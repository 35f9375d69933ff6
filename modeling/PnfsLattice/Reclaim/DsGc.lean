import Mathlib.Order.Nat
import PnfsLattice.Catalogue.Memdb
import PnfsLattice.Lib.Machine

/-!
# Reclamation of backing files

A file's stripe map names one backing file on a data server for each stripe and mirror. A
relocation copies one of them to another data server, writes the map and queues the old one; a
final unlink and a failed wide create queue all of them. Workers of `ds_gc` take rows from
the queue, unlink what the row's hint covers, delete the stripe map and then the row. A row
names its backing files by data server, file and slot, not by what they hold.

An inode exists here until its final unlink is committed: by the namespace remove, by the
delete-at-ack of a REMOVE whose manifest is drained later, or when the last CLOSE of an orphan
begins to finalise it. File ids are not used again.
-/

namespace PnfsLattice

open Lib

/-! ## Hints -/

/-- `MDS_GC_SWEEP_GEOM`. -/
def gcSweepGeom (sc mc : ℕ) : ℕ := (sc <<< 4) % 4294967296 ||| (mc &&& 15)

/-- `MDS_GC_SWEEP_SLOT`. -/
def gcSweepSlot (s m : ℕ) : ℕ := 2147483648 ||| ((s <<< 4) % 4294967296 ||| (m &&& 15))

/-- `MDS_GC_SWEEP_IS_SLOT`. -/
def gcSweepIsSlot (h : ℕ) : Bool := h.testBit 31

/-- `MDS_GC_SWEEP_SC`. -/
def gcSweepSc (h : ℕ) : ℕ := (h >>> 4) &&& 134217727

/-- `MDS_GC_SWEEP_MC`. -/
def gcSweepMc (h : ℕ) : ℕ := h &&& 15

/-! ## Maps, files and rows -/

structure StripeMap where
  stripeCount : ℕ
  stripeUnit : ℕ
  mirrorCount : ℕ
  entries : List DsMapEntry
  deriving DecidableEq

structure DsFile where
  dsId : UInt32
  fileid : CatFileid
  stripe : ℕ
  mirror : ℕ
  deriving DecidableEq

def StripeMap.slot (map : StripeMap) (s m : ℕ) : Option DsMapEntry :=
  if s < map.stripeCount ∧ m < map.mirrorCount then map.entries[s * map.mirrorCount + m]?
  else none

def StripeMap.names (map : StripeMap) (x : DsFile) : Prop :=
  (map.slot x.stripe x.mirror).map DsMapEntry.dsId = some x.dsId
deriving Decidable

/-- `struct mds_gc_entry`, without the handle, which the sweeps do not use. -/
structure GcRow where
  gcSeq : ℕ
  fileid : CatFileid
  dsId : UInt32
  sweepHint : ℕ
  deriving DecidableEq

/-- The bounds of `sweep_known_geometry`. -/
def GcRow.geometry (row : GcRow) : ℕ × ℕ :=
  let sc := gcSweepSc row.sweepHint
  let mc := gcSweepMc row.sweepHint
  (if sc = 0 ∨ mdsMaxStripes < sc then mdsMaxStripes else sc,
    if mc = 0 ∨ mdsMaxMirrors < mc then mdsMaxMirrors else mc)

/-- The slots that a row may unlink. -/
def GcRow.sweeps (row : GcRow) (s m : ℕ) : Prop :=
  if gcSweepIsSlot row.sweepHint then s = gcSweepSc row.sweepHint ∧ m = gcSweepMc row.sweepHint
  else if row.sweepHint ≠ 0 then s < row.geometry.1 ∧ m < row.geometry.2
  else s < mdsMaxStripes ∧ m < mdsMaxMirrors
deriving Decidable

/-- The backing files that a row may unlink. -/
def GcRow.covers (row : GcRow) (x : DsFile) : Prop :=
  row.fileid = x.fileid ∧ row.dsId = x.dsId ∧ row.sweeps x.stripe x.mirror
deriving Decidable

/-! ## Jobs -/

/-- A call of `mover_relocate_file`; `cq` tells whether there is a commit queue, and `fh` is the
handle that `mds_synth_fh` makes. -/
structure Relocation where
  fileid : CatFileid
  source : UInt32
  mirror : ℕ
  target : UInt32
  stripe : ℕ
  cq : Bool
  fh : List UInt8
  deriving DecidableEq

/-- The backing file that a relocation makes. -/
def Relocation.copy (r : Relocation) : DsFile := ⟨r.target, r.fileid, r.stripe, r.mirror⟩

/-- The next access of `mover_relocate_file`. -/
inductive MoverAt
  | get
  | check (map : StripeMap)
  | ensure (map : StripeMap)
  | copy (map : StripeMap)
  | reget (map : StripeMap)
  | put (map : StripeMap)
  | enqueue (fhLen : ℕ)
  deriving DecidableEq

/-- How a final unlink is committed: with its rows, with its rows after it, or by an ack that is
finalised later. -/
inductive RemoveKind
  | fused
  | split
  | ack
  deriving DecidableEq

/-- What is under way, by its next access. -/
inductive ReclaimJob
  | mover (r : Relocation) (x : MoverAt)
  -- `hpc_wide_create_commit`
  | createCommit (fileid : CatFileid) (map : StripeMap)
  -- `op_remove`, `rm_finalize_inode`, `compound_orphan_finalize`
  | removeGet (kind : RemoveKind) (fileid : CatFileid)
  | removeCommit (kind : RemoveKind) (fileid : CatFileid) (map : Option StripeMap)
  | finalizeGet (fileid : CatFileid) (thenDel : Bool)
  | enqueueRows (fileid : CatFileid) (dss : List UInt32) (hint : ℕ) (thenDel : Bool)
  | finalizeDel (fileid : CatFileid)
  -- `process_one_entry`
  | sweep (row : GcRow) (todo : List (ℕ × ℕ))
  | dense (row : GcRow) (stripe mirror : ℕ) (had : Bool)
  | mapDel (row : GcRow)
  | dequeue (row : GcRow)
  | returned
  deriving DecidableEq

/-- Inodes, stripe maps, queue and data servers. For the statement: the backing files that a
worker has unlinked and nobody has made again, and the files whose stripe map a worker has
deleted. -/
structure ReclaimSys where
  nextFileid : ℕ
  nextSeq : ℕ
  inodes : List ℕ
  maps : List (ℕ × StripeMap)
  gc : List GcRow
  files : List DsFile
  jobs : List ReclaimJob
  unlinked : List DsFile
  mapDeleted : List ℕ

/-- The answer of `mds_proxy_unlink_ds_file`. -/
inductive UnlinkAnswer
  | ok
  | io
  | notfound
  deriving DecidableEq

/-- What the catalogue, the data servers and the clients answer. -/
structure ReclaimEnv where
  ok : Bool
  unlink : UnlinkAnswer

namespace ReclaimSys

variable (s : ReclaimSys)

def goto (j : ℕ) (job : ReclaimJob) : ReclaimSys :=
  { s with jobs := s.jobs.set j job }

/-- `mem_stripe_map_get`. -/
def map (fileid : CatFileid) : Option StripeMap :=
  (findKey Prod.fst fileid s.maps).map Prod.snd

/-- `mem_stripe_map_put`. -/
def putMap (fileid : CatFileid) (map : StripeMap) : ReclaimSys :=
  { s with maps := upsert Prod.fst (fileid, map) s.maps }

/-- `mem_stripe_map_del`. -/
def delMap (fileid : CatFileid) : ReclaimSys :=
  { s with maps := eraseKey Prod.fst fileid s.maps }

/-- `mem_gc_enqueue`. -/
def enqueue (fileid : CatFileid) (ds : UInt32) (hint : ℕ) : ReclaimSys :=
  { s with gc := s.gc ++ [⟨s.nextSeq, fileid, ds, hint⟩], nextSeq := s.nextSeq + 1 }

/-- `mds_proxy_ensure_ds_file`. -/
def ensureFile (x : DsFile) : ReclaimSys :=
  { s with
    files := if x ∈ s.files then s.files else x :: s.files
    unlinked := s.unlinked.filter (· ≠ x) }

/-- A worker's `mds_proxy_unlink_ds_file`; nothing happens if there is no such file. -/
def unlinkFile (x : DsFile) : ReclaimSys :=
  if x ∈ s.files then
    { s with files := s.files.filter (· ≠ x), unlinked := x :: s.unlinked }
  else s

/-- The final unlink is committed. -/
def removeInode (fileid : CatFileid) : ReclaimSys :=
  { s with inodes := s.inodes.filter (· ≠ fileid) }

end ReclaimSys

/-! ## The mover -/

/-- The checks of `mover_relocate_file` on the map it has read. -/
def Relocation.applies (r : Relocation) (map : StripeMap) : Bool :=
  r.stripe < map.stripeCount && 1 ≤ map.mirrorCount && r.mirror < map.mirrorCount &&
    (map.slot r.stripe r.mirror).any (fun e => e.dsId = r.source) &&
    -- A mirrored stripe must not have the target already.
    (map.mirrorCount ≤ 1 || (List.range map.mirrorCount).all fun m =>
      !(map.slot r.stripe m).any fun e => e.dsId = r.target)

/-- The entry of the slot after the move. -/
def Relocation.entry (r : Relocation) (e : DsMapEntry) : DsMapEntry :=
  ⟨r.target, if r.fh = [] then e.nfsFh else r.fh⟩

def Relocation.moved (r : Relocation) (map : StripeMap) : StripeMap :=
  { map with entries := map.entries.modify (r.stripe * map.mirrorCount + r.mirror) r.entry }

/-- One access of `mover_relocate_file`. -/
def moverStep (s : ReclaimSys) (j : ℕ) (env : ReclaimEnv) (r : Relocation) : MoverAt → ReclaimSys
  | .get =>
    match s.map r.fileid with
    | none => s.goto j .returned
    | some map => if r.applies map then s.goto j (.mover r (.check map)) else s.goto j .returned
  | .check map =>
    -- No layout, no writer, no hole, and a file that is not empty.
    if env.ok then s.goto j (.mover r (.ensure map)) else s.goto j .returned
  | .ensure map =>
    if env.ok then (s.ensureFile r.copy).goto j (.mover r (.copy map)) else s.goto j .returned
  | .copy map => if env.ok then s.goto j (.mover r (.reget map)) else s.goto j .returned
  | .reget map =>
    match s.map r.fileid with
    | none => s.goto j .returned
    | some map' =>
      if map'.stripeCount = map.stripeCount ∧ map'.stripeUnit = map.stripeUnit ∧
          map'.mirrorCount = map.mirrorCount ∧
          (map'.slot r.stripe r.mirror).any (fun e => e.dsId = r.source) then
        s.goto j (.mover r (.put map'))
      else s.goto j .returned
  | .put map =>
    if !env.ok || mdsMaxStripes < map.stripeCount || mdsMaxMirrors < map.mirrorCount then
      s.goto j .returned
    else
      (s.putMap r.fileid (r.moved map)).goto j
        (.mover r (.enqueue ((map.slot r.stripe r.mirror).elim 0 fun e => e.nfsFh.length)))
  | .enqueue fhLen =>
    if env.ok && (r.cq || 0 < fhLen) then
      (s.enqueue r.fileid r.source (gcSweepSlot r.stripe r.mirror)).goto j .returned
    else s.goto j .returned

/-! ## Creates and removes -/

variable (map : StripeMap)

/-- The data servers of a map, each once, as `collect_unique_ds_gc_entries` and
`rm_gc_enqueue_stripe_map` find them; the latter stops at 64. -/
def StripeMap.uniqueDs (kind : RemoveKind) : List UInt32 :=
  let dss := (map.entries.take (map.stripeCount * map.mirrorCount)).map DsMapEntry.dsId
  match kind with
  | .ack => ((dss.take 4096).eraseDups).take 64
  | _ => dss.eraseDups

/-- The data servers of the entries that have a handle, as `hpc_enqueue_cleanup_entries` finds
them. -/
def StripeMap.captured : List UInt32 :=
  ((map.entries.take (map.stripeCount * map.mirrorCount)).filter fun e => 0 < e.nfsFh.length).map
    DsMapEntry.dsId

/-- All backing files of a map. -/
def StripeMap.backing (fileid : CatFileid) : List DsFile :=
  (List.range map.stripeCount).flatMap fun s => (List.range map.mirrorCount).filterMap fun m =>
    (map.slot s m).map fun e => ⟨e.dsId, fileid, s, m⟩

/-- Rows for all data servers at once, in the transaction of the remove. -/
def ReclaimSys.enqueueAll (s : ReclaimSys) (fileid : CatFileid)
    (hint : ℕ) (dss : List UInt32) : ReclaimSys :=
  dss.foldl (fun s ds => s.enqueue fileid ds hint) s

/-- The rows of a final unlink: one for each data server of the map. -/
def removeRows (kind : RemoveKind) (fileid : CatFileid) (map : StripeMap) (thenDel : Bool) :
    ReclaimJob :=
  .enqueueRows fileid (map.uniqueDs kind) (gcSweepGeom map.stripeCount map.mirrorCount) thenDel

/-- One access of a create or remove. -/
def removeStep (s : ReclaimSys) (j : ℕ) (env : ReclaimEnv) : ReclaimJob → Option ReclaimSys
  | .createCommit fileid map =>
    if env.ok then
      some (({ s with inodes := fileid :: s.inodes }.putMap fileid map).goto j .returned)
    else
      some (s.goto j (.enqueueRows fileid map.captured
        (gcSweepGeom map.stripeCount map.mirrorCount) false))
  | .removeGet kind fileid => some (s.goto j (.removeCommit kind fileid (s.map fileid)))
  | .removeCommit kind fileid map =>
    if !env.ok || fileid ∉ s.inodes then some (s.goto j .returned)
    else
      match kind, map with
      | .fused, some map =>
        some ((((s.removeInode fileid).delMap fileid).enqueueAll fileid
          (gcSweepGeom map.stripeCount map.mirrorCount) (map.uniqueDs .fused)).goto j .returned)
      | .split, some map =>
        some (((s.removeInode fileid).delMap fileid).goto j (removeRows .split fileid map false))
      | .ack, _ => some ((s.removeInode fileid).goto j (.finalizeGet fileid true))
      | _, none => some (((s.removeInode fileid).delMap fileid).goto j (.finalizeGet fileid false))
  | .finalizeGet fileid thenDel =>
    match s.map fileid with
    | some map => some (s.goto j (removeRows (if thenDel then .ack else .split) fileid map thenDel))
    | none => some (s.goto j (if thenDel then .finalizeDel fileid else .returned))
  | .enqueueRows fileid [] _ thenDel =>
    some (s.goto j (if thenDel then .finalizeDel fileid else .returned))
  | .enqueueRows fileid (ds :: dss) hint thenDel =>
    some ((if env.ok then s.enqueue fileid ds hint else s).goto j
      (.enqueueRows fileid dss hint thenDel))
  | .finalizeDel fileid => some ((s.delMap fileid).goto j .returned)
  | _ => none

/-! ## The workers -/

/-- A worker begins with a row. -/
def processOneEntry (row : GcRow) : ReclaimJob :=
  if gcSweepIsSlot row.sweepHint then
    .sweep row [(gcSweepSc row.sweepHint, gcSweepMc row.sweepHint)]
  else if row.sweepHint ≠ 0 then
    .sweep row ((List.range row.geometry.1).flatMap fun s =>
      (List.range row.geometry.2).map fun m => (s, m))
  else .dense row 0 0 false

/-- The next slot of `sweep_legacy_dense`. -/
def denseNext (row : GcRow) (stripe mirror : ℕ) (had existed : Bool) : ReclaimJob :=
  if existed && mirror + 1 < mdsMaxMirrors then .dense row stripe (mirror + 1) true
  else if (had || existed) && stripe + 1 < mdsMaxStripes then .dense row (stripe + 1) 0 false
  else .mapDel row

variable (s : ReclaimSys) (j : ℕ) (env : ReclaimEnv)

/-- One access of `process_one_entry`. -/
def gcStep : ReclaimJob → Option ReclaimSys
  | .sweep row [] => some (s.goto j (.mapDel row))
  | .sweep row ((stripe, mirror) :: todo) =>
    match env.unlink with
    | .io => some (s.goto j .returned)
    | .notfound => some (s.goto j (.mapDel row))
    | .ok => some ((s.unlinkFile ⟨row.dsId, row.fileid, stripe, mirror⟩).goto j (.sweep row todo))
  | .dense row stripe mirror had =>
    match env.unlink with
    | .io => some (s.goto j .returned)
    | .notfound => some (s.goto j (.mapDel row))
    | .ok =>
      let x : DsFile := ⟨row.dsId, row.fileid, stripe, mirror⟩
      some ((s.unlinkFile x).goto j (denseNext row stripe mirror had (x ∈ s.files)))
  | .mapDel row =>
    let gone := if (s.map row.fileid).isSome then row.fileid :: s.mapDeleted else s.mapDeleted
    some (({ s with mapDeleted := gone }.delMap row.fileid).goto j (.dequeue row))
  | .dequeue row =>
    some ({ s with gc := s.gc.filter fun r => r.gcSeq ≠ row.gcSeq }.goto j .returned)
  | _ => none

/-! ## The system -/

/-- What happens next. -/
inductive ReclaimOp
  | relocate (r : Relocation)
  /-- A wide create makes the backing files of a new file. -/
  | create (map : StripeMap)
  | remove (kind : RemoveKind) (fileid : CatFileid)
  /-- A worker gets a row that was peeked. -/
  | peek (seq : ℕ)
  /-- A job goes on. -/
  | job (j : ℕ) (env : ReclaimEnv)

/-- A job's next access. -/
def reclaimJobStep (job : ReclaimJob) : Option ReclaimSys :=
  match job with
  | .mover r x => some (moverStep s j env r x)
  | _ => (removeStep s j env job).orElse fun _ => gcStep s j env job

/-- One access to the catalogue or to a data server. -/
def reclaimStep (s : ReclaimSys) : ReclaimOp → Option ReclaimSys
  | .relocate r => some { s with jobs := s.jobs ++ [.mover r .get] }
  | .create map =>
    if 0 < map.stripeCount ∧ map.stripeCount ≤ mdsMaxStripes ∧ 0 < map.mirrorCount ∧
        map.mirrorCount ≤ mdsMaxMirrors then
      some { s with
        nextFileid := s.nextFileid + 1
        files := s.files ++ map.backing s.nextFileid
        jobs := s.jobs ++ [.createCommit s.nextFileid map] }
    else none
  | .remove kind fileid => some { s with jobs := s.jobs ++ [.removeGet kind fileid] }
  | .peek seq => (s.gc.find? fun row => row.gcSeq = seq).map fun row =>
    { s with jobs := s.jobs ++ [processOneEntry row] }
  | .job j env => s.jobs[j]?.bind (reclaimJobStep s j env)

end PnfsLattice
