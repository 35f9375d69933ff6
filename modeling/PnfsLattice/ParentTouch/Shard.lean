import PnfsLattice.Lib.FirstMatch
import PnfsLattice.Stateid

/-!
# A shard of the parent-touch aggregator

The critical sections of `parent_touch.c` on one shard. A directory has its shard, and no
call touches two, so that the shards do not see each other. The shard is one list of
buckets, newest first; a hash chain is this list filtered, and `entry_count` is its length.

The dirty list is kept as the time at which a bucket was last moved to its front:
`dirtyAt` is none for a clean bucket, and the tail of the list is the dirty bucket with the
least time. Change counters are natural numbers.

A call that runs the flush callback does so without the lock, so that it is cut here into
what it does before and after.
-/

namespace PnfsLattice

open Lib

/-- `struct timespec`. -/
structure Timespec where
  sec : ℕ
  nsec : ℕ
deriving DecidableEq

def stampNewer (a b : Timespec) : Bool :=
  if a.sec ≠ b.sec then b.sec < a.sec else b.nsec < a.nsec

/-- The newer of two stamps, the second unless the first is newer. -/
def newerStamp (a b : Timespec) : Timespec := if stampNewer a b then a else b

/-- `struct pt_bucket`. -/
structure PtBucket where
  fileid : Fileid
  logicalChange : ℕ
  pendingDelta : ℕ
  stamp : Timespec
  dirtyAt : Option ℕ
  pinCount : ℕ
deriving DecidableEq

/-- `struct pt_shard`. -/
structure PtShard where
  buckets : List PtBucket
  capacity : ℕ
  /-- The time of the next move to the front of the dirty list. -/
  tick : ℕ
deriving DecidableEq

def isDir (fileid : Fileid) (e : PtBucket) : Bool := e.fileid == fileid

def shardFind (sh : PtShard) (fileid : Fileid) : Option PtBucket :=
  sh.buckets.find? (isDir fileid)

/-- A write to the bucket that `shard_find` finds. -/
def PtShard.modify (sh : PtShard) (fileid : Fileid) (f : PtBucket → PtBucket) : PtShard :=
  { sh with buckets := modifyFirst (isDir fileid) f sh.buckets }

/-- The time a move to the front of the dirty list takes. -/
def PtShard.ticked (sh : PtShard) : PtShard := { sh with tick := sh.tick + 1 }

/-! ## prepare -/

/-- What `parent_touch_prepare` comes to under the lock: the bucket was there and is
pinned, a bucket was made and pinned, the caller has to go the synchronous way, or a dirty
victim was detached and is to be flushed first. -/
inductive PrepareResult
  | folded
  | inserted
  | fallback
  | evict (victim : PtBucket)
deriving DecidableEq

/-- The buckets `shard_detach_any_clean_unpinned` may take. -/
def isCleanUnpinned (e : PtBucket) : Bool := e.dirtyAt.isNone && e.pinCount == 0

def PtShard.full (sh : PtShard) : Bool := sh.capacity ≤ sh.buckets.length

/-- The clean buckets that a run of `parent_touch_prepare` evicts one after another, until
there is room or none is left. The order in which the scan meets the directories depends
on the hash; `picks` is that order. -/
def evictClean (sh : PtShard) : List Fileid → Option PtShard
  | [] => if sh.full && sh.buckets.any isCleanUnpinned then none else some sh
  | d :: ds =>
    if sh.full && sh.buckets.any (fun e => isDir d e && isCleanUnpinned e) then
      evictClean
        { sh with buckets := sh.buckets.eraseP fun e => isDir d e && isCleanUnpinned e } ds
    else none

/-- The time of the bucket that `shard_detach_lru_dirty_unpinned` takes. -/
def lruTime (sh : PtShard) : Option ℕ :=
  ((sh.buckets.filter fun e => e.pinCount == 0).filterMap PtBucket.dirtyAt).min?

/-- The bucket that `shard_detach_lru_dirty_unpinned` takes, if its time is `time`. -/
def isLru (time : ℕ) (e : PtBucket) : Bool := e.pinCount == 0 && e.dirtyAt == some time

/-- `shard_detach_lru_dirty_unpinned`. -/
def detachLru (sh : PtShard) : Option (PtBucket × PtShard) :=
  (lruTime sh).bind fun time => (sh.buckets.find? (isLru time)).map fun victim =>
    (victim, { sh with buckets := sh.buckets.eraseP (isLru time) })

/-- The bucket `parent_touch_prepare` makes. -/
def newBucket (fileid : Fileid) (seedChange : ℕ) : PtBucket :=
  { fileid, logicalChange := seedChange, pendingDelta := 0, stamp := ⟨0, 0⟩, dirtyAt := none
    pinCount := 1 }

/-- The loop of `parent_touch_prepare` that makes room, and what follows it; `alloc` is the
outcome of the allocation. The directory is not looked up again here. -/
def prepareRoom (sh : PtShard) (fileid : Fileid) (seedChange : ℕ) (picks : List Fileid)
    (alloc : Bool) : Option (PtShard × PrepareResult) :=
  (evictClean sh picks).map fun sh =>
    if sh.full then
      match detachLru sh with
      | none => (sh, .fallback)
      | some (victim, sh') => (sh', .evict victim)
    else if alloc then
      ({ sh with buckets := newBucket fileid seedChange :: sh.buckets }, .inserted)
    else (sh, .fallback)

/-- What a prepare writes to a bucket that is there. -/
def foldSeed (seedChange : ℕ) (e : PtBucket) : PtBucket :=
  { e with
    logicalChange := if e.logicalChange < seedChange then seedChange else e.logicalChange
    pinCount := e.pinCount + 1 }

/-- `parent_touch_prepare` up to its flush callback. -/
def parentTouchPrepare (sh : PtShard) (fileid : Fileid) (seedChange : ℕ) (picks : List Fileid)
    (alloc : Bool) : Option (PtShard × PrepareResult) :=
  match shardFind sh fileid with
  | some _ => some (sh.modify fileid (foldSeed seedChange), .folded)
  | none => prepareRoom sh fileid seedChange picks alloc

/-- What a victim whose flush failed adds to a bucket that was made meanwhile. -/
def absorbVictim (victim : PtBucket) (tick : ℕ) (e : PtBucket) : PtBucket :=
  let pending := e.pendingDelta + victim.pendingDelta
  { e with
    pendingDelta := pending
    logicalChange := if e.logicalChange < victim.logicalChange then victim.logicalChange
      else e.logicalChange
    stamp := newerStamp victim.stamp e.stamp
    dirtyAt := if 0 < pending then some tick else e.dirtyAt }

/-- The failure path of an eviction: the victim is merged into a bucket of its directory,
or put back. -/
def mergeVictim (sh : PtShard) (victim : PtBucket) : PtShard :=
  match shardFind sh victim.fileid with
  | some _ => (sh.modify victim.fileid (absorbVictim victim sh.tick)).ticked
  | none => { sh with buckets := { victim with dirtyAt := some sh.tick } :: sh.buckets }.ticked

/-! ## commit, abort, note, overlay -/

/-- What a commit writes to the bucket. -/
def commitBucket (now : Timespec) (tick : ℕ) (e : PtBucket) : PtBucket :=
  { e with
    logicalChange := e.logicalChange + 1, pendingDelta := e.pendingDelta + 1
    stamp := newerStamp now e.stamp, dirtyAt := some tick, pinCount := e.pinCount - 1 }

/-- `parent_touch_commit_prepared`: the shard and `out_after`, or none if there is no
bucket; `out_before` is one less. -/
def parentTouchCommitPrepared (sh : PtShard) (fileid : Fileid) (now : Timespec) :
    Option (PtShard × ℕ) :=
  (shardFind sh fileid).map fun e =>
    ((sh.modify fileid (commitBucket now sh.tick)).ticked, e.logicalChange + 1)

/-- The bucket carries nothing once it is unpinned. -/
def isResidue (e : PtBucket) : Bool :=
  e.pinCount - 1 == 0 && e.dirtyAt.isNone && e.pendingDelta == 0

variable (sh : PtShard) (fileid : Fileid)

def parentTouchAbortPrepared : PtShard :=
  match shardFind sh fileid with
  | none => sh
  | some e =>
    if isResidue e then { sh with buckets := sh.buckets.eraseP (isDir fileid) }
    else sh.modify fileid fun e => { e with pinCount := e.pinCount - 1 }

def parentTouchNoteSyncBump (now : Timespec) : PtShard :=
  sh.modify fileid fun e =>
    { e with logicalChange := e.logicalChange + 1, stamp := newerStamp now e.stamp }

/-- The attributes of a directory that the overlay writes. -/
structure DirAttrs where
  change : ℕ
  mtime : Timespec
  ctime : Timespec
deriving DecidableEq

/-- `parent_touch_overlay`: it only raises. -/
def parentTouchOverlay (ino : DirAttrs) : DirAttrs :=
  match shardFind sh fileid with
  | none => ino
  | some e =>
    { change := if ino.change < e.logicalChange then e.logicalChange else ino.change
      mtime := newerStamp e.stamp ino.mtime
      ctime := newerStamp e.stamp ino.ctime }

/-! ## Flushing -/

/-- The bucket after `snapshot_take`. -/
def snapshotTake (e : PtBucket) : PtBucket := { e with pendingDelta := 0, dirtyAt := none }

/-- The first section of `parent_touch_flush_fileid`: the delta it takes, or none if there
is no bucket or it is clean. -/
def flushTake (sh : PtShard) (fileid : Fileid) : Option (PtShard × ℕ) :=
  (shardFind sh fileid).bind fun e =>
    if e.dirtyAt.isNone || e.pendingDelta == 0 then none
    else some (sh.modify fileid snapshotTake, e.pendingDelta)

/-- `snapshot_restore`, on the bucket that `shard_find` finds. -/
def snapshotRestore (sh : PtShard) (fileid : Fileid) (delta : ℕ) : PtShard :=
  (sh.modify fileid fun e =>
    { e with
      pendingDelta := e.pendingDelta + delta
      dirtyAt := if 0 < e.pendingDelta + delta then some sh.tick else e.dirtyAt }).ticked

/-- The bucket may be dropped. -/
def isDroppable (e : PtBucket) : Bool := e.pinCount == 0 && e.pendingDelta == 0

/-- The last section of `parent_touch_flush_and_drop`. -/
def dropBucket (sh : PtShard) (fileid : Fileid) : PtShard :=
  match shardFind sh fileid with
  | none => sh
  | some e => if isDroppable e then { sh with buckets := sh.buckets.eraseP (isDir fileid) } else sh

def ptFlushBatch : ℕ := 64

/-- The tail of the dirty list, by its time. -/
def tailTime (sh : PtShard) : Option ℕ := (sh.buckets.filterMap PtBucket.dirtyAt).min?

/-- The batch that `drain_shard` takes from the tail of the dirty list. -/
def drainTake (sh : PtShard) : ℕ → PtShard × List (Fileid × ℕ)
  | 0 => (sh, [])
  | n + 1 =>
    match (tailTime sh).bind fun time =>
        (sh.buckets.find? fun e => e.dirtyAt == some time).map fun e => (time, e) with
    | none => (sh, [])
    | some (time, e) =>
      let (sh', items) := drainTake
        { sh with
          buckets := modifyFirst (fun e => e.dirtyAt == some time) snapshotTake sh.buckets } n
      (sh', (e.fileid, e.pendingDelta) :: items)

end PnfsLattice
