import PnfsLattice.Catalogue.Inode
import PnfsLattice.Lib.FirstMatch
import PnfsLattice.Lib.Machine

/-!
# The stripe lease table

The per-stripe lease table of `lease_table.c`, the slicing of `lease_stripe_map.c`, and
the two places of `op_layoutget` that use them on an HPC-shared file: the conflict check
with its narrowing near the entry, and the acquisition near the end.

A stripe is at most `2^32` bytes and its index at most `2^32 - 1`, so none of the sums
below wraps, and positions are natural numbers. The sixteen shards are one list, newest
entry first: a shard's chain is the entries with its index.
-/

namespace PnfsLattice

open Lib

/-! ## Slices -/

/-- `struct stripe_slice`. -/
structure StripeSlice where
  stripeIndex : ℕ
  dsOffset : ℕ
  dsLength : ℕ
deriving DecidableEq

/-- `UINT32_MAX`, the last stripe index. -/
def uint32MaxNat : ℕ := 2 ^ 32 - 1

inductive SliceErr
  | einval
  | enospc
deriving DecidableEq

/-- The loop of `lease_range_to_stripe_slices`; `room` is what is left of the output. -/
def sliceLoop (stripeUnit : ℕ) : ℕ → ℕ → ℕ → ℕ → Except SliceErr (List StripeSlice)
  | 0, _, _, remaining => if remaining > 0 then .error .enospc else .ok []
  | room + 1, curIdx, curOff, remaining =>
    if remaining > 0 then
      let sliceLen := min (stripeUnit - curOff) remaining
      let slice := { stripeIndex := curIdx, dsOffset := curOff, dsLength := sliceLen }
      if remaining - sliceLen > 0 then
        -- The next stripe index must exist.
        if curIdx = uint32MaxNat then .error .einval
        else (sliceLoop stripeUnit room (curIdx + 1) 0 (remaining - sliceLen)).map (slice :: ·)
      else .ok [slice]
    else .ok []

/-- `lease_range_to_stripe_slices`. A length is at most `UINT64_MAX`, which is refused. -/
def leaseRangeToStripeSlices (logicalOffset logicalLength stripeUnit maxSlices : ℕ) :
    Except SliceErr (List StripeSlice) :=
  if stripeUnit = 0 ∨ maxSlices = 0 ∨ logicalLength = 0 ∨ 2 ^ 64 - 1 ≤ logicalLength then
    .error .einval
  else if logicalOffset / stripeUnit > uint32MaxNat then .error .einval
  else sliceLoop stripeUnit maxSlices (logicalOffset / stripeUnit) (logicalOffset % stripeUnit)
    logicalLength

/-! ## The table -/

/-- `struct slt_entry`. -/
structure SltEntry where
  fileid : Fileid
  clientid : Clientid
  dsOffset : ℕ
  dsLength : ℕ
  expiryNs : ℕ
  stripeIndex : ℕ
  dsId : UInt32
deriving DecidableEq

def shardIndex (fileid : Fileid) (stripeIndex : ℕ) : UInt64 :=
  let mix := fileid ^^^ (UInt64.ofNat stripeIndex * 0x9e3779b97f4a7c15)
  (mix ^^^ (mix >>> 16)) &&& 15

/-- `ranges_overlap` of `lease_table.c`. -/
def leasesOverlap (aOff aLen bOff bLen : ℕ) : Bool := aOff < bOff + bLen && bOff < aOff + aLen

def shardEvictExpired (tbl : List SltEntry) (shard : UInt64) (now : ℕ) : List SltEntry :=
  tbl.filter fun e => !(shardIndex e.fileid e.stripeIndex == shard && e.expiryNs ≤ now)

/-- An entry of another client on the slice. -/
def SltEntry.conflicts (e : SltEntry) (fileid : Fileid) (clientid : Clientid)
    (sl : StripeSlice) : Bool :=
  e.fileid == fileid && e.stripeIndex == sl.stripeIndex && e.clientid != clientid &&
    leasesOverlap e.dsOffset e.dsLength sl.dsOffset sl.dsLength

/-- `stripe_lease_check_conflict`; the lookup evicts what has expired in the shard. -/
def stripeLeaseCheckConflict (tbl : List SltEntry) (now : ℕ) (fileid : Fileid)
    (clientid : Clientid) (sl : StripeSlice) : List SltEntry × Bool :=
  if sl.dsLength = 0 then (tbl, false)
  else
    let tbl := shardEvictExpired tbl (shardIndex fileid sl.stripeIndex) now
    (tbl, tbl.any fun e => e.conflicts fileid clientid sl)

def SltEntry.renews (fileid : Fileid) (clientid : Clientid) (sl : StripeSlice)
    (e : SltEntry) : Bool :=
  e.fileid == fileid && e.clientid == clientid && e.stripeIndex == sl.stripeIndex &&
    e.dsOffset == sl.dsOffset

/-- `stripe_lease_acquire`; `alloc` says whether a new entry could be allocated. Nothing
is checked against the leases of other clients. -/
def stripeLeaseAcquire (tbl : List SltEntry) (now : ℕ) (alloc : Bool) (fileid : Fileid)
    (clientid : Clientid) (dsId : UInt32) (sl : StripeSlice) (durationMs : ℕ) : List SltEntry :=
  if durationMs = 0 ∨ sl.dsLength = 0 then tbl
  else
    let tbl := shardEvictExpired tbl (shardIndex fileid sl.stripeIndex) now
    let expiryNs := now + durationMs * 1000000
    match tbl.find? (SltEntry.renews fileid clientid sl) with
    | some _ =>
      modifyFirst (SltEntry.renews fileid clientid sl)
        (fun e => { e with dsLength := sl.dsLength, dsId, expiryNs }) tbl
    | none =>
      if alloc then
        { fileid, clientid, stripeIndex := sl.stripeIndex, dsOffset := sl.dsOffset
          dsLength := sl.dsLength, dsId, expiryNs } :: tbl
      else tbl

def stripeLeaseReleaseAllFor (tbl : List SltEntry) (fileid : Fileid) (clientid : Clientid) :
    List SltEntry :=
  tbl.filter fun e => !(e.fileid == fileid && e.clientid == clientid)

/-- The loop of `stripe_lease_prefix_conflict_free_length`. -/
def prefixLoop (now stripeUnit leaseOffset leaseLength : ℕ) (fileid : Fileid)
    (clientid : Clientid) (tbl : List SltEntry) : List StripeSlice → List SltEntry × ℕ
  | [] => (tbl, leaseLength)
  | sl :: rest =>
    match stripeLeaseCheckConflict tbl now fileid clientid sl with
    | (tbl, true) => (tbl, sl.stripeIndex * stripeUnit + sl.dsOffset - leaseOffset)
    | (tbl, false) => prefixLoop now stripeUnit leaseOffset leaseLength fileid clientid tbl rest

/-- `stripe_lease_prefix_conflict_free_length`; the source returns 0 where the subtraction
above is truncated. -/
def stripeLeasePrefixConflictFreeLength (tbl : List SltEntry) (now : ℕ)
    (slices : List StripeSlice) (stripeUnit leaseOffset leaseLength : ℕ) (fileid : Fileid)
    (clientid : Clientid) : List SltEntry × ℕ :=
  if stripeUnit = 0 ∨ leaseLength = 0 then (tbl, leaseLength)
  else prefixLoop now stripeUnit leaseOffset leaseLength fileid clientid tbl slices

/-! ## LAYOUTGET and LAYOUTRETURN -/

/-- The configuration under which the table is used: the stripe unit, 64 KiB if it is not
configured, and a lease duration, without which the table is not consulted. -/
structure LeaseCfg where
  cfgStripeUnit : ℕ
  durationMs : ℕ
  active : 0 < durationMs

variable (cfg : LeaseCfg)

def LeaseCfg.sltUnit : ℕ :=
  if cfg.cfgStripeUnit = 0 then 65536 else cfg.cfgStripeUnit

/-- A LAYOUTGET's lease range on a file. -/
structure LeaseRange where
  clientid : Clientid
  fileid : Fileid
  offset : ℕ
  length : ℕ
deriving DecidableEq

def LeaseRange.slices (g : LeaseRange) : Except SliceErr (List StripeSlice) :=
  leaseRangeToStripeSlices g.offset g.length cfg.sltUnit mdsMaxStripes

/-- The table, the LAYOUTGETs that have passed the check (with their range, as narrowed),
and the ranges granted and not returned. -/
structure LeaseSys where
  tbl : List SltEntry
  checked : List LeaseRange
  granted : List LeaseRange
deriving DecidableEq

/-- The first step: slice the range, look for the conflict-free length, narrow to it.
`none` is `NFS4ERR_LAYOUTTRYLATER`. -/
def layoutgetCheck (tbl : List SltEntry) (now : ℕ) (g : LeaseRange) :
    List SltEntry × Option LeaseRange :=
  match g.slices cfg with
  | .error _ => (tbl, none)
  | .ok slices =>
    let (tbl, sltPrefix) := stripeLeasePrefixConflictFreeLength tbl now slices cfg.sltUnit
      g.offset g.length g.fileid g.clientid
    if sltPrefix = 0 then (tbl, none)
    else (tbl, some { g with length := min sltPrefix g.length })

/-- The second step: acquire each slice of the narrowed range, ignoring failures. -/
def layoutgetAcquire (tbl : List SltEntry) (now : ℕ) (alloc : StripeSlice → Bool) (g : LeaseRange) :
    List SltEntry :=
  match g.slices cfg with
  | .error _ => tbl
  | .ok slices => slices.foldl (fun tbl sl =>
    stripeLeaseAcquire tbl now (alloc sl) g.fileid g.clientid 0 sl cfg.durationMs) tbl

/-- The steps of the clients, each with the time it is taken at. `acquire` names a
LAYOUTGET by its place among those that have passed the check. -/
inductive LeaseOp
  | check (now : ℕ) (g : LeaseRange)
  | acquire (now : ℕ) (alloc : StripeSlice → Bool) (i : ℕ)
  | layoutreturn (fileid : Fileid) (clientid : Clientid)

def leaseStep (s : LeaseSys) : LeaseOp → Option LeaseSys
  | .check now g =>
    let (tbl, out) := layoutgetCheck cfg s.tbl now g
    some { s with tbl, checked := out.toList ++ s.checked }
  | .acquire now alloc i => do
    let g ← s.checked[i]?
    return { tbl := layoutgetAcquire cfg s.tbl now alloc g
             checked := s.checked.eraseIdx i
             granted := g :: s.granted }
  | .layoutreturn fileid clientid =>
    some { s with
      tbl := stripeLeaseReleaseAllFor s.tbl fileid clientid
      granted := s.granted.filter fun g => !(g.fileid == fileid && g.clientid == clientid) }

/-- The server's start: no lease, no LAYOUTGET. -/
def leaseInit : LeaseSys := { tbl := [], checked := [], granted := [] }

/-- The state the server starts in. -/
def LeaseStart (s : LeaseSys) : Prop := s = leaseInit

/-- The time of a step. -/
def LeaseOp.now : LeaseOp → ℕ
  | .check now _ | .acquire now _ _ => now
  | .layoutreturn _ _ => 0

/-- Time has not passed the expiry of any lease. -/
def NoneExpired (s : LeaseSys) (op : LeaseOp) : Prop := ∀ e ∈ s.tbl, op.now < e.expiryNs
deriving Decidable

end PnfsLattice
