import PnfsLattice.Open.Table

/-!
# The delegation table

Grant, return, conflict probe and recall of `delegation.c`. The table is one list of
grants, newest first; a bucket chain is this list filtered. A recall detaches the grants
first and sends CB_RECALL afterwards, whatever comes of it; only the detaching touches the
table.
-/

namespace PnfsLattice

open Lib

/-- `OPEN_DELEGATE_READ` and `OPEN_DELEGATE_WRITE`. -/
inductive DelegType
  | read
  | write
deriving DecidableEq

/-- `struct deleg_entry`. -/
structure DelegEntry where
  stateid : Stateid
  clientid : Clientid
  fileid : Fileid
  delegType : DelegType
deriving DecidableEq

/-- `struct deleg_revoked_entry`. -/
structure RevokedDeleg where
  other : Other
  clientid : Clientid
deriving DecidableEq

/-- `struct deleg_pending_recall`: a recall whose answer has not been seen. -/
structure PendingRecall where
  stateid : Stateid
  clientid : Clientid
  fileid : Fileid
deriving DecidableEq

/-- `struct deleg_table`. -/
structure DelegTable where
  entries : List DelegEntry
  sidCounter : ℕ
  mdsId : UInt32
  revoked : List RevokedDeleg
  pending : List PendingRecall
deriving DecidableEq

def delegTableInit (mdsId : UInt32) : DelegTable :=
  { entries := [], sidCounter := 1, mdsId, revoked := [], pending := [] }

def makeDelegStateid (dt : DelegTable) : Stateid :=
  { seqid := 1, other := { mdsId := dt.mdsId, tail := dt.sidCounter } }

/-- `deleg_grant`; `alloc` is the outcome of the allocation. -/
def delegGrant (dt : DelegTable) (alloc : Bool) (clientid : Clientid) (fileid : Fileid)
    (delegType : DelegType) : DelegTable × Option Stateid :=
  if !alloc then (dt, none)
  else
    let stateid := makeDelegStateid dt
    ({ dt with
        entries := { stateid, clientid, fileid, delegType } :: dt.entries
        sidCounter := dt.sidCounter + 1 }, some stateid)

/-- `deleg_return`: the pending recall of the stateid is settled even if the grant is
already gone. -/
def delegReturn (dt : DelegTable) (stateid : Stateid) (clientid : Clientid) : DelegTable :=
  { dt with
    entries := dt.entries.eraseP fun e =>
      e.stateid.other == stateid.other && e.clientid == clientid
    pending := dt.pending.filter fun p => p.stateid.other != stateid.other }

/-- A grant on the file that another client holds. -/
def heldByOther (fileid : Fileid) (clientid : Clientid) (e : DelegEntry) : Bool :=
  e.fileid == fileid && e.clientid != clientid

/-- `deleg_check_conflict`: any grant of another client conflicts, whatever its type. -/
def delegCheckConflict (dt : DelegTable) (fileid : Fileid) (clientid : Clientid) : Bool :=
  dt.entries.any (heldByOther fileid clientid)

def delegRecallMaxPerFile : ℕ := 64

/-- The walk of `deleg_recall_detach`: the grants that stay and those it detaches, of
which there are at most `cap`. -/
def delegRecallDetach (fileid : Fileid) (clientid : Clientid) :
    ℕ → List DelegEntry → List DelegEntry × List DelegEntry
  | _, [] => ([], [])
  | cap, e :: es =>
    if heldByOther fileid clientid e then
      match cap with
      | 0 => (e :: es, [])
      | cap + 1 =>
        let (kept, targets) := delegRecallDetach fileid clientid cap es
        (kept, e :: targets)
    else
      let (kept, targets) := delegRecallDetach fileid clientid cap es
      (e :: kept, targets)

/-- `deleg_recall_file`: detached grants are noted as revoked and as pending recalls,
unless the allocation of the note fails, which `lost` lists. -/
def delegRecallFile (dt : DelegTable) (fileid : Fileid) (clientid : Clientid)
    (lostRevoked lostPending : List Other) : DelegTable :=
  let (kept, targets) := delegRecallDetach fileid clientid delegRecallMaxPerFile dt.entries
  { dt with
    entries := kept
    revoked := ((targets.filter fun e => !lostRevoked.contains e.stateid.other).reverse.map
      fun e => ⟨e.stateid.other, e.clientid⟩) ++ dt.revoked
    pending := ((targets.filter fun e => !lostPending.contains e.stateid.other).reverse.map
      fun e => ⟨e.stateid, e.clientid, e.fileid⟩) ++ dt.pending }

/-! ## What the calls keep -/

theorem delegRecallDetach_sublist (fileid : Fileid) (clientid : Clientid) (cap : ℕ)
    (es : List DelegEntry) : (delegRecallDetach fileid clientid cap es).1.Sublist es := by
  fun_induction delegRecallDetach fileid clientid cap es with
  | case1 => exact .slnil
  | case2 => exact .refl _
  | case3 e _ _ _ _ _ heq ih =>
    rw [heq] at ih
    exact ih.cons e
  | case4 _ e _ _ _ _ heq ih =>
    rw [heq] at ih
    exact ih.cons_cons e

theorem delegRecallFile_entries (dt : DelegTable) (fileid : Fileid) (clientid : Clientid)
    (lostRevoked lostPending : List Other) :
    (delegRecallFile dt fileid clientid lostRevoked lostPending).entries.Sublist dt.entries :=
  delegRecallDetach_sublist fileid clientid delegRecallMaxPerFile dt.entries

end PnfsLattice
