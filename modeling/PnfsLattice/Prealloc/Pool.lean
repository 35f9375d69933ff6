import Mathlib.Data.List.Perm.Subperm
import PnfsLattice.Lib.Machine
import PnfsLattice.Lib.RingBuffer
import PnfsLattice.Stateid

/-!
# The pool of pre-created data-server files

`ds_prealloc.c`: each MDS keeps rings of slots, each with a reserved fileid and a file made
for it on a data server. A slot has a row in the shared table `mds_prealloc_pool` from which a
restarted MDS fills its rings again. The row is inserted when the slot is made and deleted
when it is handed out: by the pop, or in the transaction of the create that uses the fileid.
Both are best effort, and the result is not looked at.

Placement, data-server files and filehandles are choices of the step here, and so is the
outcome of each insert and delete. `mds_cat_alloc_fileid` returns ids it has never returned.
-/

namespace PnfsLattice

open Lib

/-! ## Slots and rows -/

/-- `struct prealloc_slot`, with the filehandle and synthetic owner of its entry. -/
structure PreallocSlot where
  fileid : Fileid
  stripeUnit : UInt32
  dsId : UInt32
  nfsFh : List UInt8
  synth : UInt32 × UInt32
deriving DecidableEq, Inhabited

/-- `struct mds_prealloc_pool_row`; its synthetic owner is never written. -/
structure PoolRow where
  fileid : Fileid
  dsId : UInt32
  ownerMdsId : UInt32
  stripeUnit : UInt32
  nfsFh : List UInt8
deriving DecidableEq

/-- The row that `produce_slot` inserts. -/
def PreallocSlot.row (slot : PreallocSlot) (selfMdsId : UInt32) : PoolRow :=
  { fileid := slot.fileid, dsId := slot.dsId, ownerMdsId := selfMdsId
    stripeUnit := slot.stripeUnit, nfsFh := slot.nfsFh }

/-- The slot that `recover_pool` makes of a row. -/
def PoolRow.slot (row : PoolRow) (stripeUnit : UInt32) : PreallocSlot :=
  { fileid := row.fileid
    stripeUnit := if row.stripeUnit ≠ 0 then row.stripeUnit else stripeUnit
    dsId := row.dsId, nfsFh := row.nfsFh, synth := (0, 0) }

/-- A data-server id that no registry gives out. -/
def badDsId (dsId : UInt32) : Bool := 65536 ≤ dsId

/-- `mds_cat_prealloc_pool_insert`, whose result the caller drops. -/
def poolInsert (rows : List PoolRow) (row : PoolRow) (ok : Bool) : List PoolRow :=
  if ok && rows.all fun r => r.fileid != row.fileid then row :: rows else rows

/-- `mds_cat_prealloc_pool_delete`, whose result the caller drops. -/
def poolDelete (rows : List PoolRow) (fileid : Fileid) (ok : Bool) : List PoolRow :=
  if ok then rows.filter fun r => r.fileid != fileid else rows

/-- The rows that `mds_cat_prealloc_pool_scan` returns: an id of 0 stands for any on both sides. -/
def poolScans (ownerMdsId : UInt32) (row : PoolRow) : Bool :=
  ownerMdsId == 0 || row.ownerMdsId == 0 || row.ownerMdsId == ownerMdsId

/-! ## The rings of one MDS -/

/-- `DS_PREALLOC_DEFAULT_STRIPE_UNIT`. -/
def preallocStripeUnit : UInt32 := 65536

/-- `struct ds_prealloc_ctx`. -/
structure PreallocCtx where
  rings : List (RingBuffer PreallocSlot)
  popRr : UInt32

/-- The rings that `ds_prealloc_init_ex2` allocates. -/
def preallocRings (poolSize ringCount : ℕ) : List (RingBuffer PreallocSlot) :=
  let poolSize := if poolSize = 0 then 128 else poolSize
  let ringCount := min (if ringCount = 0 then 4 else ringCount) 64
  List.replicate ringCount (.empty (max (poolSize / ringCount) 8) (by omega))

/-- `ring_push` on one of the rings. -/
def ringPush (rings : List (RingBuffer PreallocSlot)) (i : ℕ) (slot : PreallocSlot) :
    List (RingBuffer PreallocSlot) :=
  rings.modify i fun r => r.push slot

/-- What `recover_pool` has at hand while it goes through the rows. -/
structure Recovery where
  rings : List (RingBuffer PreallocSlot)
  ringI : ℕ
  rows : List PoolRow

/-- `recover_pool`: rows go to the rings in turn, and stay in the table; those with a bad data
server are dropped. -/
def recoverRow (deleteOk : Fileid → Bool) (st : Recovery) (row : PoolRow) : Recovery :=
  if badDsId row.dsId then
    { st with rows := poolDelete st.rows row.fileid (deleteOk row.fileid) }
  else
    { st with
      rings := ringPush st.rings (st.ringI % st.rings.length) (row.slot preallocStripeUnit)
      ringI := st.ringI + 1 }

def recoverPool (rings : List (RingBuffer PreallocSlot)) (rows scanned : List PoolRow)
    (deleteOk : Fileid → Bool) : Recovery :=
  scanned.foldl (recoverRow deleteOk) { rings, ringI := 0, rows }

/-- The walk of `ds_prealloc_pop_ex` through the rings with the given indices: the slot handed
out, the rings and the rows. A slot with a bad data server is dropped with its row. -/
def popRings (deleteOk : Fileid → Bool) : List ℕ → List (RingBuffer PreallocSlot) → List PoolRow →
      Option PreallocSlot × List (RingBuffer PreallocSlot) × List PoolRow
  | [], rings, rows => (none, rings, rows)
  | i :: is, rings, rows =>
    match rings[i]?.bind RingBuffer.pop with
    | none => popRings deleteOk is rings rows
    | some (slot, ring) =>
      if badDsId slot.dsId then
        popRings deleteOk is (rings.set i ring)
          (poolDelete rows slot.fileid (deleteOk slot.fileid))
      else (some slot, rings.set i ring, rows)

/-- The result of a pop. -/
structure Popped where
  ctx : PreallocCtx
  rows : List PoolRow
  slot : Option PreallocSlot
  hasPoolRow : Bool

/-- `ds_prealloc_pop_ex` up to the synchronous fallback; `deferred` says that the caller asked
for `has_pool_row_out`. `ds_prealloc_pop` is the case in which it did not. -/
def dsPreallocPopEx (ctx : PreallocCtx) (rows : List PoolRow) (deferred : Bool)
    (deleteOk : Fileid → Bool) : Popped :=
  let n := ctx.rings.length
  let order := (List.range n).map fun k => (ctx.popRr + k.toUInt32).toNat % n
  match popRings deleteOk order ctx.rings rows with
  | (none, rings, rows) =>
    { ctx := { rings, popRr := ctx.popRr + 1 }, rows, slot := none, hasPoolRow := false }
  | (some slot, rings, rows) =>
    { ctx := { rings, popRr := ctx.popRr + 1 }
      rows := if deferred then rows else poolDelete rows slot.fileid (deleteOk slot.fileid)
      slot := some slot, hasPoolRow := deferred }

/-! ## The system -/

/-- A fileid in the hands of a create; `hasPoolRow` says that its transaction deletes the row. -/
structure Handed where
  fileid : Fileid
  hasPoolRow : Bool
deriving DecidableEq

/-- A running MDS: its pool, the slots that the refill workers have made and not yet pushed, and
the creates under way. -/
structure PoolNode where
  ctx : PreallocCtx
  staged : List (ℕ × PreallocSlot)
  handed : List Handed

/-- The MDSes by `mds_id`, the pool table, the fileids allocated so far, the inodes there are, and
those ever committed. -/
structure PoolSys where
  nodes : UInt32 → Option PoolNode
  rows : List PoolRow
  allocated : List Fileid
  inodes : List Fileid
  committed : List Fileid

/-- What can happen. -/
inductive PoolEvent
  /-- `ds_prealloc_init_ex2`; `scanned` is what the scan of the table returned. -/
  | start (m : UInt32) (poolSize ringCount : ℕ) (scanned : List PoolRow) (deleteOk : Fileid → Bool)
  /-- `produce_slot` of a refill worker. -/
  | produce (m : UInt32) (ring : ℕ) (slot : PreallocSlot) (insertOk : Bool)
  /-- `ring_push` of a slot made before. -/
  | push (m : UInt32) (ring : ℕ) (slot : PreallocSlot)
  /-- A pop; `fallback` is the fileid that `sync_pop` allocates if the rings are empty, unless
  it fails. -/
  | pop (m : UInt32) (deferred : Bool) (deleteOk : Fileid → Bool) (fallback : Option Fileid)
  /-- The create transaction commits; `deleteOk` is the outcome of the delete in it. -/
  | commit (m : UInt32) (h : Handed) (deleteOk : Bool)
  /-- The create fails. -/
  | abort (m : UInt32) (h : Handed)
  /-- A create without a slot, under a fileid of its own. -/
  | plain (fileid : Fileid)
  | remove (fileid : Fileid)
  | crash (m : UInt32)

variable (s : PoolSys)

/-- The node, with the rest of the system. -/
def PoolSys.put (m : UInt32) (n : PoolNode) : PoolSys :=
  { s with nodes := Function.update s.nodes m (some n) }

/-- A fileid that `mds_cat_alloc_fileid` may return. -/
def PoolSys.fresh (f : Fileid) : Bool := f != 0 && !s.allocated.contains f

/-- One step. The insert of an inode fails while there is one with its fileid. -/
def poolStep : PoolEvent → Option PoolSys
  | .start m poolSize ringCount scanned deleteOk =>
    if (s.nodes m).isNone && (scanned.isPerm (s.rows.filter (poolScans m)) || scanned.isEmpty) then
      let r := recoverPool (preallocRings poolSize ringCount) s.rows scanned deleteOk
      let node := { ctx := { rings := r.rings, popRr := 0 }, staged := [], handed := [] }
      some ({ s with rows := r.rows }.put m node)
    else none
  | .produce m ring slot insertOk =>
    (s.nodes m).bind fun n =>
    if s.fresh slot.fileid then
      some ({ s with
        rows := poolInsert s.rows (slot.row m) insertOk
        allocated := slot.fileid :: s.allocated }.put m
          { n with staged := (ring, slot) :: n.staged })
    else none
  | .push m ring slot =>
    (s.nodes m).bind fun n =>
    if (ring, slot) ∈ n.staged then
      some (s.put m { n with
        ctx := { n.ctx with rings := ringPush n.ctx.rings ring slot }
        staged := n.staged.erase (ring, slot) })
    else none
  | .pop m deferred deleteOk fallback =>
    (s.nodes m).bind fun n =>
    let p := dsPreallocPopEx n.ctx s.rows deferred deleteOk
    match p.slot, fallback with
    | some slot, _ =>
      some ({ s with rows := p.rows }.put m
        { n with ctx := p.ctx, handed := ⟨slot.fileid, p.hasPoolRow⟩ :: n.handed })
    | none, none => some ({ s with rows := p.rows }.put m { n with ctx := p.ctx })
    | none, some fallback =>
      if s.fresh fallback then
        some ({ s with rows := p.rows, allocated := fallback :: s.allocated }.put m
          { n with ctx := p.ctx, handed := ⟨fallback, false⟩ :: n.handed })
      else none
  | .commit m h deleteOk =>
    (s.nodes m).bind fun n =>
    if h ∈ n.handed ∧ h.fileid ∉ s.inodes then
      some { s with
        nodes := Function.update s.nodes m (some { n with handed := n.handed.erase h })
        rows := if h.hasPoolRow then poolDelete s.rows h.fileid deleteOk else s.rows
        inodes := h.fileid :: s.inodes
        committed := h.fileid :: s.committed }
    else none
  | .abort m h =>
    (s.nodes m).bind fun n =>
    if h ∈ n.handed then some (s.put m { n with handed := n.handed.erase h }) else none
  | .plain f =>
    if s.fresh f then
      some { s with
        allocated := f :: s.allocated, inodes := f :: s.inodes, committed := f :: s.committed }
    else none
  | .remove f => some { s with inodes := s.inodes.filter fun g => g ≠ f }
  | .crash m => some { s with nodes := Function.update s.nodes m none }

/-- The fileid that a pop hands out. -/
def poppedFileid : PoolEvent → Option Fileid
  | .pop m deferred deleteOk fallback =>
    (s.nodes m).bind fun n =>
      ((dsPreallocPopEx n.ctx s.rows deferred deleteOk).slot.map PreallocSlot.fileid).or fallback
  | _ => none

/-- Before any MDS has started: the fileids there are have been allocated. -/
def PoolStart : Prop :=
  (∀ m, s.nodes m = none) ∧ s.rows = [] ∧ s.committed.Nodup ∧ ∀ f ∈ s.committed, f ∈ s.allocated

end PnfsLattice
