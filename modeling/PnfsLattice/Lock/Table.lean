import PnfsLattice.Lib.FirstMatch
import PnfsLattice.Lib.Machine
import PnfsLattice.Stateid

/-!
# The byte-range lock table

The lock manager of `lock_state.c`. The table is one list of owner states, newest
first: the per-file chains and the per-stripe stateid chains of the source are both
built by head insertion, so each of them is this list filtered. A pointer to an owner
state is the first entry its lookup matches.

Offsets and lengths are the source's `uint64_t`, with its saturating `range_end`. The
catalogue is written and never read, and every result of a write is ignored, so the
model keeps the log of the calls made.
-/

namespace PnfsLattice

open Lib

/-! ## Range arithmetic -/

/-- `UINT64_MAX`, which as a length means to end of file. -/
def uint64Max : UInt64 := 0xFFFFFFFFFFFFFFFF

/-- `range_end`: the exclusive end of a range, saturated when it would wrap. -/
def rangeEnd (offset length : UInt64) : UInt64 :=
  if length = uint64Max ∨ offset + length < offset then uint64Max else offset + length

def rangesOverlap (o₁ l₁ o₂ l₂ : UInt64) : Bool :=
  o₁ < rangeEnd o₂ l₂ && o₂ < rangeEnd o₁ l₁

/-! ## The table -/

/-- The lock types a range can hold; the blocking wire types are normalised away. -/
inductive LockType
  | readLt
  | writeLt
deriving DecidableEq

/-- The normalisation at the head of `lock_acquire`: `READ_LT` = 1, `WRITE_LT` = 2,
`READW_LT` = 3, `WRITEW_LT` = 4; any other wire value has no effective type. -/
def effType (lockType : UInt32) : Option LockType :=
  if lockType = 1 ∨ lockType = 3 then some .readLt
  else if lockType = 2 ∨ lockType = 4 then some .writeLt
  else none

/-- `struct lock_range`: one held range and the id of its row. -/
structure LockRange where
  offset : UInt64
  length : UInt64
  lockType : LockType
  lockId : ℕ
deriving DecidableEq

/-- `struct lock_owner_state`. -/
structure LockOwnerState where
  fileid : Fileid
  clientid : Clientid
  owner : List UInt8
  stateid : Stateid
  ranges : List LockRange
deriving DecidableEq

/-- `struct mds_coord_lock_row`: one row of the shared `byte_locks` table. -/
structure LockRow where
  fileid : Fileid
  lockId : ℕ
  offset : UInt64
  length : UInt64
  lockType : LockType
  clientid : Clientid
  owner : List UInt8
  stateidOther : Other
  seqid : UInt32
  openStateidOther : Option Other
  ownerMdsId : UInt32
  ownerBootEpoch : UInt64
deriving DecidableEq

/-- The calls the lock manager makes on the catalogue. -/
inductive LockCatCall
  | put (row : LockRow)
  | del (fileid : Fileid) (lockId : ℕ)
  | reapClient (clientid : Clientid)
deriving DecidableEq

/-- `struct lock_table`: `cat` says whether a catalogue is attached, `catLog` holds the
calls made on it, oldest first. -/
structure LockTable where
  owners : List LockOwnerState
  nextSeq : ℕ
  mdsId : UInt32
  cat : Bool
  bootEpoch : UInt64
  catLog : List LockCatCall
deriving DecidableEq

/-- `lock_table_init` followed by `lock_table_set_cat`: an empty table. -/
def lockTableInit (mdsId : UInt32) (seed : ℕ) (cat : Bool) (bootEpoch : UInt64) : LockTable :=
  { owners := [], nextSeq := seed, mdsId, cat, bootEpoch, catLog := [] }

def lockStripes : ℕ := 16

/-- `stripe`: the stripe a file belongs to. -/
def stripe (fileid : Fileid) : ℕ := fileid.toNat % lockStripes

/-- `stateid_stripe`: the stripe index in byte 4 of `other`, the top byte of the tail. -/
def stateidStripe (other : Other) : ℕ := other.tail / 2 ^ 56 % 256 % lockStripes

/-- `make_lock_stateid`: the stripe byte above the low seven bytes of the counter. -/
def makeLockStateid (lt : LockTable) (fileid : Fileid) : Stateid :=
  { seqid := 0
    other := { mdsId := lt.mdsId, tail := stripe fileid * 2 ^ 56 + lt.nextSeq % 2 ^ 56 } }

def ownerMatch (os : LockOwnerState) (clientid : Clientid) (owner : List UInt8) : Bool :=
  os.clientid == clientid && os.owner == owner

/-- The entries `find_owner` walks for: those of the file with this owner. -/
def isOwnerOf (fileid : Fileid) (clientid : Clientid) (owner : List UInt8)
    (os : LockOwnerState) : Bool :=
  os.fileid == fileid && ownerMatch os clientid owner

/-- The entries `find_by_sid` walks for: those of the stripe with this stateid. -/
def hasSid (s : ℕ) (other : Other) (os : LockOwnerState) : Bool :=
  stripe os.fileid == s && os.stateid.other == other

def findOwner (lt : LockTable) (fileid : Fileid) (clientid : Clientid) (owner : List UInt8) :
    Option LockOwnerState :=
  lt.owners.find? (isOwnerOf fileid clientid owner)

def findBySid (lt : LockTable) (s : ℕ) (other : Other) : Option LockOwnerState :=
  lt.owners.find? (hasSid s other)

/-! ## Conflicts -/

/-- Whether a held range keeps `effType` on `[offset, offset + length)` from being
granted. -/
def rangeConflicts (eff : LockType) (offset length : UInt64) (r : LockRange) : Bool :=
  rangesOverlap r.offset r.length offset length && !(r.lockType == .readLt && eff == .readLt)

/-- `scan_conflict`: the first range in the way, with its owner state. The requester's
own entry is skipped by `owner_match`, which also covers the pointer test `os == self`:
the identity passed in is that of `self` whenever there is one. -/
def scanConflict (lt : LockTable) (fileid : Fileid) (clientid : Clientid) (owner : List UInt8)
    (eff : LockType) (offset length : UInt64) : Option (LockOwnerState × LockRange) :=
  lt.owners.findSome? fun os =>
    if os.fileid == fileid && !ownerMatch os clientid owner then
      (os.ranges.find? (rangeConflicts eff offset length)).map fun r => (os, r)
    else none

/-- `struct lock_conflict`: what a denied request is told. -/
structure LockConflict where
  offset : UInt64
  length : UInt64
  lockType : LockType
  clientid : Clientid
  owner : List UInt8
deriving DecidableEq

/-- The conflict report filled in from `scan_conflict`'s result. -/
def lockConflict (os : LockOwnerState) (r : LockRange) : LockConflict :=
  { offset := r.offset, length := r.length, lockType := r.lockType
    clientid := os.clientid, owner := os.owner }

/-- The failures of the entry points. -/
inductive LockErr
  | inval
  | badStateid
  | oldStateid
  | denied (conflict : LockConflict)
  | locksHeld
  /-- An allocation failed (return value `-1`). -/
  | nomem
deriving DecidableEq

/-! ## Persistence -/

/-- `persist_range_put`: upsert one row, when a catalogue is attached. -/
def persistRangePut (lt : LockTable) (os : LockOwnerState) (r : LockRange)
    (openStateid : Option Stateid) : List LockCatCall :=
  if lt.cat then
    [.put { fileid := os.fileid, lockId := r.lockId, offset := r.offset, length := r.length
            lockType := r.lockType, clientid := os.clientid, owner := os.owner
            stateidOther := os.stateid.other, seqid := os.stateid.seqid
            openStateidOther := openStateid.map Stateid.other
            ownerMdsId := lt.mdsId, ownerBootEpoch := lt.bootEpoch }]
  else []

def persistRangeDel (lt : LockTable) (fileid : Fileid) (lockId : ℕ) : List LockCatCall :=
  if lt.cat then [.del fileid lockId] else []

/-! ## Carving -/

/-- What one carve leaves: the ranges, the counter, the catalogue calls, and whether the
spare node was used. -/
structure Carved where
  ranges : List LockRange
  nextSeq : ℕ
  calls : List LockCatCall
  spareUsed : Bool
deriving DecidableEq

/-- Put a range, and the calls made for it, in front of the rest of a carve. -/
def Carved.push (r : LockRange) (calls : List LockCatCall) (c : Carved) : Carved :=
  { c with ranges := r :: c.ranges, calls := calls ++ c.calls }

/-- The length that ends a remainder at `rend`, which stays "to end of file" if it was. -/
def tailLength (rend offset : UInt64) : UInt64 :=
  if rend = uint64Max then uint64Max else rend - offset

/-- `carve_range`: remove `[offset, stop)` from the ranges of `os`. `seq` is the value
of `next_seq`. The loop stops after a split, as the source's `break` does. -/
def carveRange (lt : LockTable) (os : LockOwnerState) (offset stop : UInt64) (seq : ℕ) :
    List LockRange → Carved
  | [] => { ranges := [], nextSeq := seq, calls := [], spareUsed := false }
  | r :: rest =>
    let rend := rangeEnd r.offset r.length
    if rend ≤ offset ∨ stop ≤ r.offset then
      -- No overlap.
      (carveRange lt os offset stop seq rest).push r []
    else if r.offset < offset ∧ stop < rend then
      -- The range covers the region strictly: split, with the spare for the right part.
      let left := { r with length := offset - r.offset }
      let spare := { r with offset := stop, length := tailLength rend stop, lockId := seq }
      { ranges := left :: spare :: rest
        nextSeq := seq + 1
        calls := persistRangePut lt os left none ++ persistRangePut lt os spare none
        spareUsed := true }
    else if offset ≤ r.offset ∧ rend ≤ stop then
      -- Fully covered: removed, with its row.
      let c := carveRange lt os offset stop seq rest
      { c with calls := persistRangeDel lt os.fileid r.lockId ++ c.calls }
    else if r.offset < offset then
      -- Keep the head.
      let left := { r with length := offset - r.offset }
      (carveRange lt os offset stop seq rest).push left (persistRangePut lt os left none)
    else
      -- Keep the tail.
      let right := { r with offset := stop, length := tailLength rend stop }
      (carveRange lt os offset stop seq rest).push right (persistRangePut lt os right none)

/-! ## Entry points -/

/-- `seqid_check`: zero means "current"; an older seqid and a future one fail apart. -/
def seqidCheck (os : LockOwnerState) (presented : UInt32) : Except LockErr Unit :=
  if presented = 0 ∨ presented = os.stateid.seqid then .ok ()
  else if presented < os.stateid.seqid then .error .oldStateid
  else .error .badStateid

def lockOwnerMax : ℕ := 128

/-- The arguments of `lock_acquire`. -/
structure LockArgs where
  fileid : Fileid
  lockType : UInt32
  offset : UInt64
  length : UInt64
  clientid : Clientid
  owner : List UInt8
  openStateid : Option Stateid
  newLockOwner : Bool
  lockStateid : Stateid
deriving DecidableEq

/-- Which allocations of a `lock_acquire` succeed: the range nodes and the file bucket,
taken up front, and the owner state of a first LOCK. -/
structure LockAlloc where
  nodes : Bool := true
  ownerState : Bool := true
deriving DecidableEq

/-- A length of zero means to end of file. -/
def effLength (length : UInt64) : UInt64 := if length = 0 then uint64Max else length

/-- The lookup that resolves the requesting owner: by identity on the new-owner arm, by
stateid within the file's stripe on the other. -/
def LockArgs.resolves (a : LockArgs) : LockOwnerState → Bool :=
  if a.newLockOwner then isOwnerOf a.fileid a.clientid (a.owner.take lockOwnerMax)
  else hasSid (stripe a.fileid) a.lockStateid.other

/-- The checks of the existing-owner arm; the new-owner arm has none. -/
def LockArgs.resolve (a : LockArgs) (lt : LockTable) : Except LockErr (Option LockOwnerState) :=
  match lt.owners.find? a.resolves with
  | some os =>
    if a.newLockOwner then .ok (some os)
    else if os.fileid ≠ a.fileid then .error .badStateid
    else (seqidCheck os a.lockStateid.seqid).map fun _ => some os
  | none => if a.newLockOwner then .ok none else .error .badStateid

/-- The owner state a first LOCK creates. -/
def LockArgs.newOwnerState (a : LockArgs) (lt : LockTable) : LockOwnerState :=
  { fileid := a.fileid, clientid := a.clientid, owner := a.owner.take lockOwnerMax
    stateid := makeLockStateid lt a.fileid, ranges := [] }

/-- The grant of `lock_acquire` on the owner state `os`: carve its own overlap away, add
the new range in front, bump the stateid. Returns `os` as written and the table with
its counter and log advanced, `os` not yet stored. -/
def grantRange (lt : LockTable) (os : LockOwnerState) (eff : LockType)
    (offset length : UInt64) (openStateid : Option Stateid) : LockOwnerState × LockTable :=
  let c := carveRange lt os offset (rangeEnd offset length) lt.nextSeq os.ranges
  let nr : LockRange := { offset, length, lockType := eff, lockId := c.nextSeq }
  let os' := { os with
    ranges := nr :: c.ranges
    stateid := { os.stateid with seqid := os.stateid.seqid + 1 } }
  (os', { lt with
    nextSeq := c.nextSeq + 1
    catLog := lt.catLog ++ (c.calls ++ persistRangePut lt os' nr openStateid) })

def lockAcquire (lt : LockTable) (alloc : LockAlloc) (a : LockArgs) :
    LockTable × Except LockErr Stateid :=
  match effType a.lockType with
  | none => (lt, .error .inval)
  | some eff =>
    let length := effLength a.length
    if !alloc.nodes then (lt, .error .nomem)
    else match a.resolve lt with
      | .error e => (lt, .error e)
      | .ok found =>
        -- The requester's identity is that of the resolved state when there is one.
        let who := (found.map fun os => (os.clientid, os.owner)).getD
          (a.clientid, a.owner.take lockOwnerMax)
        match scanConflict lt a.fileid who.1 who.2 eff a.offset length with
        | some (cos, cr) => (lt, .error (.denied (lockConflict cos cr)))
        | none =>
          match found with
          | some os =>
            let (os', lt') := grantRange lt os eff a.offset length a.openStateid
            ({ lt' with owners := modifyFirst a.resolves (fun _ => os') lt.owners },
              .ok os'.stateid)
          | none =>
            if !alloc.ownerState then (lt, .error .nomem)
            else
              let (os', lt') := grantRange { lt with nextSeq := lt.nextSeq + 1 }
                (a.newOwnerState lt) eff a.offset length a.openStateid
              ({ lt' with owners := os' :: lt.owners }, .ok os'.stateid)

/-- The checks `lock_acquire` makes before it writes: the effective type and the owner
state it then rewrites, if the requester has one already. -/
def LockArgs.admission (a : LockArgs) (lt : LockTable) (alloc : LockAlloc) :
    Except LockErr (LockType × Option LockOwnerState) :=
  match effType a.lockType with
  | none => .error .inval
  | some eff =>
    if !alloc.nodes then .error .nomem
    else match a.resolve lt with
      | .error e => .error e
      | .ok found =>
        let who := (found.map fun os => (os.clientid, os.owner)).getD
          (a.clientid, a.owner.take lockOwnerMax)
        match scanConflict lt a.fileid who.1 who.2 eff a.offset (effLength a.length) with
        | some (cos, cr) => .error (.denied (lockConflict cos cr))
        | none => .ok (eff, found)

/-- `lock_acquire` is its checks, and then one of two writes. -/
theorem lockAcquire_eq (lt : LockTable) (alloc : LockAlloc) (a : LockArgs) :
    lockAcquire lt alloc a =
      match a.admission lt alloc with
      | .error e => (lt, .error e)
      | .ok (eff, some os) =>
        let (os', lt') := grantRange lt os eff a.offset (effLength a.length) a.openStateid
        ({ lt' with owners := modifyFirst a.resolves (fun _ => os') lt.owners }, .ok os'.stateid)
      | .ok (eff, none) =>
        if !alloc.ownerState then (lt, .error .nomem)
        else
          let (os', lt') := grantRange { lt with nextSeq := lt.nextSeq + 1 }
            (a.newOwnerState lt) eff a.offset (effLength a.length) a.openStateid
          ({ lt' with owners := os' :: lt.owners }, .ok os'.stateid) := by
  unfold lockAcquire LockArgs.admission
  cases effType a.lockType with
  | none => rfl
  | some eff =>
    cases alloc.nodes with
    | false => rfl
    | true =>
      cases a.resolve lt with
      | error => rfl
      | ok found =>
        dsimp only
        cases scanConflict lt a.fileid _ _ eff a.offset (effLength a.length) with
        | some => rfl
        | none => cases found <;> rfl

theorem LockArgs.resolve_of_admission {a : LockArgs} {lt : LockTable} {alloc : LockAlloc}
    {eff : LockType} {found : Option LockOwnerState} (h : a.admission lt alloc = .ok (eff, found)) :
    a.resolve lt = .ok found := by
  unfold LockArgs.admission at h
  cases heff : effType a.lockType with
  | none => simp [heff] at h
  | some =>
    cases hn : alloc.nodes with
    | false => simp [heff, hn] at h
    | true =>
      cases hr : a.resolve lt with
      | error => simp [heff, hn, hr] at h
      | ok =>
        simp only [heff, hn, hr, Bool.not_true, Bool.false_eq_true, if_false] at h
        split at h
        · cases h
        · cases h; rfl

/-- `lock_test`, for a lock type that has an effective type. -/
def lockTest (lt : LockTable) (fileid : Fileid) (eff : LockType) (offset length : UInt64)
    (clientid : Clientid) (owner : List UInt8) : Except LockErr Unit :=
  match scanConflict lt fileid clientid (owner.take lockOwnerMax) eff offset
      (effLength length) with
  | some (cos, cr) => .error (.denied (lockConflict cos cr))
  | none => .ok ()

/-- A LOCK by a new lock owner looks for conflicts under the owner's own bytes: the owner
state it resolves to has the identity that was presented. -/
theorem admission_of_newLockOwner (lt : LockTable) (a : LockArgs) {eff : LockType}
    (hnew : a.newLockOwner = true) (heff : effType a.lockType = some eff) : a.admission lt {} =
      match scanConflict lt a.fileid a.clientid (a.owner.take lockOwnerMax) eff a.offset
          (effLength a.length) with
      | some (cos, cr) => .error (.denied (lockConflict cos cr))
      | none => .ok (eff, lt.owners.find? a.resolves) := by
  have hres : a.resolve lt = .ok (lt.owners.find? a.resolves) := by
    unfold LockArgs.resolve
    cases lt.owners.find? a.resolves <;> simp [hnew]
  have hwho : ((lt.owners.find? a.resolves).map fun os => (os.clientid, os.owner)).getD
      (a.clientid, a.owner.take lockOwnerMax) = (a.clientid, a.owner.take lockOwnerMax) := by
    cases hf : lt.owners.find? a.resolves with
    | none => rfl
    | some =>
      have hos := List.find?_some hf
      simp only [LockArgs.resolves, hnew, if_true, isOwnerOf, ownerMatch, Bool.and_eq_true,
        beq_iff_eq] at hos
      simp [hos.2.1, hos.2.2]
  simp [LockArgs.admission, heff, hres, hwho]

/-- **LOCKT agrees with LOCK.**  On every table `lock_test` answers what a LOCK by a new
lock owner with the same arguments would be answered: both succeed, or both are denied
with the same range, type and owner in the way. -/
theorem lockt_agrees_with_lock (lt : LockTable) (a : LockArgs) {eff : LockType}
    (hnew : a.newLockOwner = true) (heff : effType a.lockType = some eff) :
    lockTest lt a.fileid eff a.offset a.length a.clientid a.owner =
      (lockAcquire lt {} a).2.map fun _ => () := by
  rw [lockAcquire_eq, admission_of_newLockOwner lt a hnew heff, lockTest]
  cases scanConflict lt a.fileid a.clientid (a.owner.take lockOwnerMax) eff a.offset
      (effLength a.length) with
  | some => rfl
  | none => cases hf : lt.owners.find? a.resolves <;> rfl

def oneByteRead : LockTable :=
  { lockTableInit 1 7 true 0 with
    owners := [⟨3, 11, [1], ⟨1, ⟨1, 3 * 2 ^ 56⟩⟩, [⟨4, 1, .readLt, 2⟩]⟩] }

/-- A blocking write lock to end of file meets the reader. -/
theorem lockt_agrees_with_lock_denied :
    lockTest oneByteRead 3 .writeLt 2 0 12 [9] = .error (.denied ⟨4, 1, .readLt, 11, [1]⟩) ∧
      lockTest oneByteRead 3 .writeLt 2 0 12 [9] = (lockAcquire oneByteRead {}
        ⟨3, 4, 2, 0, 12, [9], none, true, ⟨0, ⟨0, 0⟩⟩⟩).2.map fun _ => () :=
  ⟨by decide, lockt_agrees_with_lock _ ⟨3, 4, 2, 0, 12, [9], none, true, ⟨0, ⟨0, 0⟩⟩⟩ rfl rfl⟩

variable (lt : LockTable)

/-- `lock_release`: the lock type is ignored, the owner state survives. -/
def lockRelease (alloc : Bool) (lockStateid : Stateid) (offset length : UInt64) :
    LockTable × Except LockErr Stateid :=
  let length := effLength length
  let key := hasSid (stateidStripe lockStateid.other) lockStateid.other
  if !alloc then (lt, .error .nomem)
  else match lt.owners.find? key with
    | none => (lt, .error .badStateid)
    | some os =>
      match seqidCheck os lockStateid.seqid with
      | .error e => (lt, .error e)
      | .ok () =>
        let c := carveRange lt os offset (rangeEnd offset length) lt.nextSeq os.ranges
        let os' := { os with
          ranges := c.ranges
          stateid := { os.stateid with seqid := os.stateid.seqid + 1 } }
        ({ lt with
            owners := modifyFirst key (fun _ => os') lt.owners
            nextSeq := c.nextSeq
            catLog := lt.catLog ++ c.calls }, .ok os'.stateid)

/-- `lock_free_stateid`: only a rangeless owner state is freed. -/
def lockFreeStateid (other : Other) : LockTable × Except LockErr Unit :=
  let key := hasSid (stateidStripe other) other
  match lt.owners.find? key with
  | none => (lt, .error .badStateid)
  | some os =>
    if os.ranges ≠ [] then (lt, .error .locksHeld)
    else ({ lt with owners := lt.owners.eraseP key }, .ok ())

def lockStateExists (other : Other) : Bool :=
  (findBySid lt (stateidStripe other) other).isSome

/-! ## Cleanup by client

Both cleanups hold one stripe lock at a time, and the catalogue is reaped after the last
one is dropped; each critical section is a definition of its own. -/

/-- One stripe's pass of `lock_release_all_for_client`. -/
def releaseStripe (s : ℕ) (clientid : Clientid) : LockTable :=
  { lt with owners := lt.owners.filter fun os =>
      !(stripe os.fileid == s && os.clientid == clientid) }

/-- The best-effort reap of the rows of some clients. -/
def reapClients (cids : List Clientid) : LockTable :=
  if lt.cat then { lt with catLog := lt.catLog ++ cids.map .reapClient } else lt

/-- `lock_release_all_for_client`: every stripe in turn, then the reap. -/
def lockReleaseAllForClient (clientid : Clientid) : LockTable :=
  reapClients ((List.range lockStripes).foldl (fun lt s => releaseStripe lt s clientid) lt)
    [clientid]

def lockRevokeMaxClients : ℕ := 64

/-- Phase 1 of a revocation: the first 64 distinct clients along a file's chain. -/
def collectClients (limit : ℕ) (cids : List Clientid) : List Clientid :=
  cids.foldl (fun acc c => if c ∈ acc ∨ limit ≤ acc.length then acc else acc ++ [c]) []

variable (lt : LockTable)

/-- Phase 3 of `lock_revoke_expired_for_file`: drop the file's states of the clients found
expired. Returns how many were dropped. -/
def revokeStates (fileid : Fileid) (expired : List Clientid) : LockTable × ℕ :=
  let hit := fun os : LockOwnerState => os.fileid == fileid && expired.contains os.clientid
  ({ lt with owners := lt.owners.filter fun os => !hit os }, lt.owners.countP hit)

/-- `lock_revoke_expired_for_file`: `leaseExpired` is `session_client_lease_expired` at the
time of phase 2. -/
def lockRevokeExpiredForFile (leaseExpired : Clientid → Bool) (fileid : Fileid) : LockTable × ℕ :=
  let onFile := lt.owners.filter fun os => os.fileid == fileid
  let cids := collectClients lockRevokeMaxClients (onFile.map LockOwnerState.clientid)
  let expired := cids.filter leaseExpired
  if expired = [] then (lt, 0)
  else
    let (lt', revoked) := revokeStates lt fileid expired
    (if 0 < revoked then reapClients lt' expired else lt', revoked)

/-- The clients a revocation finds expired on a file. -/
def expiredOnFile (leaseExpired : Clientid → Bool) (fileid : Fileid) : List Clientid :=
  (collectClients lockRevokeMaxClients
    ((lt.owners.filter fun os => os.fileid == fileid).map LockOwnerState.clientid)).filter
      leaseExpired

/-- The early return on no expired client is only a shortcut. -/
theorem lockRevokeExpiredForFile_eq (leaseExpired : Clientid → Bool) (fileid : Fileid) :
    lockRevokeExpiredForFile lt leaseExpired fileid =
      let expired := expiredOnFile lt leaseExpired fileid
      let (lt', revoked) := revokeStates lt fileid expired
      (if 0 < revoked then reapClients lt' expired else lt', revoked) := by
  unfold lockRevokeExpiredForFile expiredOnFile
  dsimp only
  split
  next h => simp [h, revokeStates]
  next => rfl

@[simp] theorem reapClients_owners (cids : List Clientid) :
    (reapClients lt cids).owners = lt.owners := by
  unfold reapClients
  split <;> rfl

/-! ## The table as a machine -/

/-- One action on the table. The two cleanups appear as whole calls and also as single
critical sections, so that other calls may run between them. -/
inductive LockOp
  | acquire (alloc : LockAlloc) (args : LockArgs)
  | release (alloc : Bool) (lockStateid : Stateid) (offset length : UInt64)
  | freeStateid (other : Other)
  | releaseAllForClient (clientid : Clientid)
  | releaseStripe (s : ℕ) (clientid : Clientid)
  | revokeExpiredForFile (leaseExpired : Clientid → Bool) (fileid : Fileid)
  | revokeStates (fileid : Fileid) (expired : List Clientid)
  | reapClients (cids : List Clientid)

/-- One step of the lock table; every call is enabled in every state. -/
def lockStep : LockOp → Option LockTable
  | .acquire alloc args => some (lockAcquire lt alloc args).1
  | .release alloc sid offset length => some (lockRelease lt alloc sid offset length).1
  | .freeStateid other => some (lockFreeStateid lt other).1
  | .releaseAllForClient clientid => some (lockReleaseAllForClient lt clientid)
  | .releaseStripe s clientid => some (releaseStripe lt s clientid)
  | .revokeExpiredForFile leaseExpired fileid =>
    some (lockRevokeExpiredForFile lt leaseExpired fileid).1
  | .revokeStates fileid expired => some (revokeStates lt fileid expired).1
  | .reapClients cids => some (reapClients lt cids)

/-- The empty tables a server starts with. -/
def LockInit (lt : LockTable) : Prop :=
  ∃ mdsId seed cat bootEpoch, lt = lockTableInit mdsId seed cat bootEpoch

end PnfsLattice
