import PnfsLattice.Lib.Machine
import PnfsLattice.Lib.Tally
import PnfsLattice.ParentTouch.Shard

/-!
# Parent touches as a system

A shard of the aggregator together with the flushes whose callback runs without the lock,
the persisted change counters that the callbacks and the synchronous mutations bump, and
the overlaid reads, which look at the persisted row first and at the shard afterwards.

The last fields of the system are not in the source. They remember what the callbacks
that succeeded were given, what failed flushes dropped, the synchronous bumps that have
not been noted yet, the `out_after` values that commits returned, and the results of
overlaid reads.
-/

namespace PnfsLattice

open Lib

/-! ## Flushes outside the lock -/

/-- What a thread holds while a flush callback runs: the victim of an eviction with the
preparation it makes room for, a snapshot of one bucket, or the rest of a drained batch.
The last one is the `flush_and_drop` that is about to drop. -/
inductive FlushJob
  | evict (victim : PtBucket) (fileid : Fileid) (seedChange : ℕ)
  | flush (fileid : Fileid) (delta : ℕ) (thenDrop : Bool)
  | drain (fileid : Fileid) (delta : ℕ) (rest : List (Fileid × ℕ))
  | drop (fileid : Fileid)
deriving DecidableEq

/-- The deltas a job holds, the one whose callback runs first. -/
def FlushJob.items : FlushJob → List (Fileid × ℕ)
  | .evict victim _ _ => [(victim.fileid, victim.pendingDelta)]
  | .flush fileid delta _ => [(fileid, delta)]
  | .drain fileid delta rest => (fileid, delta) :: rest
  | .drop _ => []

/-- A thread with a flush outside the lock, and the outcome of the callback once it has
returned. -/
structure PtThread where
  tid : ℕ
  job : FlushJob
  outcome : Option Bool
deriving DecidableEq

/-- The deltas in flight: those that no callback has persisted. -/
def PtThread.flying (t : PtThread) : List (Fileid × ℕ) :=
  if t.outcome = some true then t.job.items.tail else t.job.items

/-- An overlaid read that has read the row; `before` are the `out_after` values returned
when it began, and `settled` says that nothing of the directory was pending or in flight. -/
structure Reader where
  tid : ℕ
  fileid : Fileid
  row : DirAttrs
  before : List ℕ
  settled : Bool
deriving DecidableEq

structure ReadResult where
  fileid : Fileid
  value : ℕ
  before : List ℕ
deriving DecidableEq

structure PtSys where
  shard : PtShard
  threads : List PtThread
  readers : List Reader
  persisted : Fileid → ℕ
  succeeded : Fileid → ℕ
  lost : Fileid → ℕ
  unnoted : Fileid → ℕ
  returned : Fileid → List ℕ
  reads : List ReadResult

/-- What the buckets in a list have pending for a directory. -/
def pendingOf (d : Fileid) (l : List PtBucket) : ℕ :=
  tally PtBucket.fileid PtBucket.pendingDelta d l

/-- What the threads in a list have in flight for a directory. -/
def flyingOf (d : Fileid) (k : List PtThread) : ℕ :=
  tally Prod.fst Prod.snd d (k.flatMap PtThread.flying)

/-- What the buckets of a directory have pending. -/
def PtSys.pending (s : PtSys) (d : Fileid) : ℕ := pendingOf d s.shard.buckets

/-- What is in flight for a directory. -/
def PtSys.inflight (s : PtSys) (d : Fileid) : ℕ := flyingOf d s.threads

/-! ## Steps -/

/-- One critical section, one callback, one synchronous mutation, or one half of an
overlaid read. -/
inductive PtOp
  | prepare (tid : ℕ) (fileid : Fileid) (seedChange : ℕ) (picks : List Fileid) (alloc : Bool)
  | commit (fileid : Fileid) (now : Timespec)
  | abort (fileid : Fileid)
  | syncBump (fileid : Fileid)
  | noteSync (fileid : Fileid) (now : Timespec)
  | flush (tid : ℕ) (fileid : Fileid) (thenDrop : Bool)
  | drain (tid : ℕ)
  | callback (tid : ℕ) (ok : Bool)
  | complete (tid : ℕ) (picks : List Fileid) (alloc : Bool)
  | drop (tid : ℕ)
  | readRow (tid : ℕ) (fileid : Fileid) (mtime ctime : Timespec)
  | overlay (tid : ℕ)
deriving DecidableEq

def hasTid (tid : ℕ) (t : PtThread) : Bool := t.tid == tid

def isReader (tid : ℕ) (r : Reader) : Bool := r.tid == tid

/-- A thread goes outside the lock. -/
def PtSys.launch (s : PtSys) (tid : ℕ) (job : FlushJob) : PtSys :=
  { s with threads := ⟨tid, job, none⟩ :: s.threads }

/-- The system after the locked part of a preparation. A victim with nothing pending needs
no callback. -/
def PtSys.prepared (s : PtSys) (tid : ℕ) (fileid : Fileid) (seedChange : ℕ) (sh : PtShard) :
    PrepareResult → PtSys
  | .evict victim =>
    { s with
      shard := sh
      threads := ⟨tid, .evict victim fileid seedChange,
        if victim.pendingDelta = 0 then some true else none⟩ :: s.threads }
  | _ => { s with shard := sh }

/-- The failure path of a flush: the delta is restored if the directory still has a
bucket. -/
def PtSys.restore (s : PtSys) (fileid : Fileid) (delta : ℕ) : PtSys :=
  match shardFind s.shard fileid with
  | some _ => { s with shard := snapshotRestore s.shard fileid delta }
  | none => { s with lost := bump s.lost fileid delta }

/-- A callback returns; a success has persisted the delta. -/
def PtSys.returnCallback (s : PtSys) (t : PtThread) (ok : Bool) : Option PtSys :=
  match t.outcome, t.job.items with
  | none, (fileid, delta) :: _ =>
    let s' := { s with
      threads := modifyFirst (hasTid t.tid) (fun t => { t with outcome := some ok }) s.threads }
    some (if ok then
      { s' with
        persisted := bump s.persisted fileid delta, succeeded := bump s.succeeded fileid delta }
      else s')
  | _, _ => none

/-- The thread `tid` goes on to another job, or is done. -/
def PtSys.goOn (s : PtSys) (tid : ℕ) : Option FlushJob → PtSys
  | some job =>
    { s with
      threads := modifyFirst (hasTid tid) (fun t => { t with job, outcome := none }) s.threads }
  | none => { s with threads := s.threads.eraseP (hasTid tid) }

def drainRest : List (Fileid × ℕ) → Option FlushJob
  | [] => none
  | (fileid, delta) :: rest => some (.drain fileid delta rest)

/-- What a thread does when it has the lock again. -/
def PtSys.relocked (s : PtSys) (t : PtThread) (picks : List Fileid) (alloc : Bool) : Option PtSys :=
  match t.outcome, t.job with
  | some true, .evict _ fileid seedChange =>
    (prepareRoom s.shard fileid seedChange picks alloc).map fun r =>
      (s.goOn t.tid none).prepared t.tid fileid seedChange r.1 r.2
  | some false, .evict victim _ _ =>
    some { s.goOn t.tid none with shard := mergeVictim s.shard victim }
  | some true, .flush fileid _ thenDrop =>
    some (s.goOn t.tid (if thenDrop then some (.drop fileid) else none))
  | some false, .flush fileid delta _ => some ((s.goOn t.tid none).restore fileid delta)
  | some true, .drain _ _ rest => some (s.goOn t.tid (drainRest rest))
  | some false, .drain fileid delta rest =>
    some ((s.goOn t.tid (drainRest rest)).restore fileid delta)
  | _, _ => none

/-- The reader of a directory, after its look at the row. -/
def PtSys.newReader (s : PtSys) (tid : ℕ) (fileid : Fileid) (mtime ctime : Timespec) : Reader :=
  { tid, fileid, row := ⟨s.persisted fileid, mtime, ctime⟩, before := s.returned fileid
    settled := s.pending fileid == 0 && s.inflight fileid == 0 }

def ptStep (s : PtSys) : PtOp → Option PtSys
  | .prepare tid fileid seedChange picks alloc =>
    (parentTouchPrepare s.shard fileid seedChange picks alloc).map fun r =>
      s.prepared tid fileid seedChange r.1 r.2
  | .commit fileid now =>
    match parentTouchCommitPrepared s.shard fileid now with
    | none => some s
    | some (shard, after) =>
      some { s with
        shard
        returned := fun d => if fileid = d then after :: s.returned d else s.returned d }
  | .abort fileid => some { s with shard := parentTouchAbortPrepared s.shard fileid }
  | .syncBump fileid =>
    some { s with
      persisted := bump s.persisted fileid 1, unnoted := bump s.unnoted fileid 1 }
  | .noteSync fileid now =>
    some { s with
      shard := parentTouchNoteSyncBump s.shard fileid now
      unnoted := fun d => if fileid = d then s.unnoted d - 1 else s.unnoted d }
  | .flush tid fileid thenDrop =>
    match flushTake s.shard fileid with
    | some (shard, delta) => some ({ s with shard }.launch tid (.flush fileid delta thenDrop))
    | none => some (if thenDrop then s.launch tid (.drop fileid) else s)
  | .drain tid =>
    match drainTake s.shard ptFlushBatch with
    | (_, []) => some s
    | (shard, (fileid, delta) :: rest) =>
      some ({ s with shard }.launch tid (.drain fileid delta rest))
  | .callback tid ok => (s.threads.find? (hasTid tid)).bind fun t => s.returnCallback t ok
  | .complete tid picks alloc =>
    (s.threads.find? (hasTid tid)).bind fun t => s.relocked t picks alloc
  | .drop tid =>
    (s.threads.find? (hasTid tid)).bind fun t =>
      match t.job with
      | .drop fileid => some { s.goOn t.tid none with shard := dropBucket s.shard fileid }
      | _ => none
  | .readRow tid fileid mtime ctime =>
    some { s with readers := s.newReader tid fileid mtime ctime :: s.readers }
  | .overlay tid =>
    (s.readers.find? (isReader tid)).map fun r =>
      { s with
        readers := s.readers.eraseP (isReader tid)
        reads := ⟨r.fileid, (parentTouchOverlay s.shard r.fileid r.row).change, r.before⟩ ::
          s.reads }

/-- An empty shard over rows with any change counters. -/
def ptSysInit (capacity : ℕ) (persisted : Fileid → ℕ) : PtSys :=
  { shard := { buckets := [], capacity, tick := 0 }, threads := [], readers := [], persisted
    succeeded := fun _ => 0, lost := fun _ => 0, unnoted := fun _ => 0, returned := fun _ => []
    reads := [] }

/-- The systems a server starts with; a shard holds at least four buckets. -/
def PtInit (s : PtSys) : Prop :=
  ∃ capacity persisted, 4 ≤ capacity ∧ s = ptSysInit capacity persisted

end PnfsLattice
