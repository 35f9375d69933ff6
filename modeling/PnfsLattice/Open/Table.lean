import PnfsLattice.Lib.Mask
import PnfsLattice.Lock.Table

/-!
# The open-state table

OPEN, CLOSE and OPEN_DOWNGRADE of `open_state.c`. The table is one list of open states,
newest first; the per-file chains and the stateid chains are this list filtered.

With a catalogue attached an OPEN is not atomic. It publishes its state marked
`persist_pending`, drops the locks for the durable write, and relocks to commit or
unwind. `openPublish` and `openCommit` are those two critical sections; what the thread
carries between them is a `PendingOpen`.
-/

namespace PnfsLattice

open Lib

/-- `struct nfs4_open_state`. -/
structure OpenState where
  stateid : Stateid
  clientid : Clientid
  fileid : Fileid
  shareAccess : UInt32
  shareDeny : UInt32
  openOwner : List UInt8
  persistPending : Bool
deriving DecidableEq

/-- `struct open_state_table`; `cat` says whether a catalogue is attached. -/
structure OpenTable where
  opens : List OpenState
  nextOtherSeq : ℕ
  mdsId : UInt32
  cat : Bool
  bootEpoch : UInt64
  skipNdbPersist : Bool
deriving DecidableEq

/-- `struct mds_coord_open_row`: one durable open, with `stateidOther` as primary key. -/
structure OpenRow where
  stateidOther : Other
  seqid : UInt32
  clientid : Clientid
  fileid : Fileid
  shareAccess : UInt32
  shareDeny : UInt32
  openOwner : List UInt8
  ownerMdsId : UInt32
  ownerBootEpoch : UInt64
deriving DecidableEq

/-- Whether opens are written through to the catalogue. -/
def OpenTable.durable (ot : OpenTable) : Bool := ot.cat && !ot.skipNdbPersist

/-- `OPEN4_SHARE_ACCESS_WRITE`. -/
def shareAccessWrite : UInt32 := 2

/-- `OPEN4_SHARE_ACCESS_BOTH`. -/
def shareAccessBoth : UInt32 := 3

/-- `NFS4_OPEN_OWNER_MAX`. -/
def openOwnerMax : ℕ := 128

/-! ## Lookups -/

/-- The opens of one file, in chain order. -/
def opensOf (ot : OpenTable) (fileid : Fileid) : List OpenState :=
  ot.opens.filter fun os => os.fileid == fileid

/-- The entries `find_by_other` walks for. -/
def hasOther (other : Other) (os : OpenState) : Bool := os.stateid.other == other

def findByOther (ot : OpenTable) (other : Other) : Option OpenState :=
  ot.opens.find? (hasOther other)

/-- The entries `find_owner_open` walks for, on the chain of the file. -/
def isOwnerOpen (fileid : Fileid) (clientid : Clientid) (openOwner : List UInt8)
    (os : OpenState) : Bool :=
  os.fileid == fileid && (os.clientid == clientid && os.openOwner == openOwner)

def findOwnerOpen (ot : OpenTable) (fileid : Fileid) (clientid : Clientid)
    (openOwner : List UInt8) : Option OpenState :=
  ot.opens.find? (isOwnerOpen fileid clientid openOwner)

/-- `make_stateid_other`: the next value of the counter. -/
def makeStateidOther (ot : OpenTable) : Other := { mdsId := ot.mdsId, tail := ot.nextOtherSeq }

/-- `share_conflict`, over a chain of opens. -/
def shareConflict (chain : List OpenState) (newAccess newDeny : UInt32) : Bool :=
  chain.any fun os => newAccess &&& os.shareDeny != 0 || os.shareAccess &&& newDeny != 0

def openStateHasOtherWriter (ot : OpenTable) (fileid : Fileid) (clientid : Clientid) : Bool :=
  (opensOf ot fileid).any fun os =>
    os.clientid != clientid && os.shareAccess &&& shareAccessWrite != 0

/-! ## OPEN -/

/-- The arguments of `open_state_open`. -/
structure OpenArgs where
  clientid : Clientid
  openOwner : List UInt8
  fileid : Fileid
  shareAccess : UInt32
  shareDeny : UInt32
deriving DecidableEq

/-- The failures of the open-state entry points, as NFS statuses. -/
inductive OpenErr
  | shareDenied
  | resource
  | inval
  | badStateid
  | oldStateid
  | delay
deriving DecidableEq

/-- The outcomes of `mds_coord_open_put` that `open_state_open` tells apart: `MDS_OK`,
`MDS_ERR_NOSUPPORT` (a backend without the table), and any other status. -/
inductive PutStatus
  | ok
  | nosupport
  | failed
deriving DecidableEq

/-- Which of the two write-through paths an OPEN is on, with the values the upgrade path
keeps for its roll-back. -/
inductive OpenPath
  | fresh
  | upgrade (prevSeqid prevAccess prevDeny newSeqid : UInt32)
deriving DecidableEq

/-- What an OPEN carries across its unlocked window. -/
structure PendingOpen where
  row : OpenRow
  path : OpenPath
deriving DecidableEq

def openRowFill (ot : OpenTable) (stateid : Stateid) (a : OpenArgs)
    (shareAccess shareDeny : UInt32) : OpenRow :=
  { stateidOther := stateid.other, seqid := stateid.seqid, clientid := a.clientid
    fileid := a.fileid, shareAccess, shareDeny, openOwner := a.openOwner
    ownerMdsId := ot.mdsId, ownerBootEpoch := ot.bootEpoch }

/-- The seqid bump of an upgrade: zero is reserved, so `UINT32_MAX` wraps to one. -/
def bumpSeqid (seqid : UInt32) : UInt32 := if seqid = 0xFFFFFFFF then 1 else seqid + 1

variable (ot : OpenTable)

/-- The state an upgrade publishes in place of `existing`. -/
def upgradedState (existing : OpenState) (a : OpenArgs) : OpenState :=
  { existing with
    stateid := { existing.stateid with seqid := bumpSeqid existing.stateid.seqid }
    shareAccess := existing.shareAccess ||| a.shareAccess
    shareDeny := existing.shareDeny ||| a.shareDeny
    persistPending := ot.durable }

/-- What an upgrade carries across its window. -/
def upgradeWrite (existing : OpenState) (a : OpenArgs) : PendingOpen :=
  let os' := upgradedState ot existing a
  { row := openRowFill ot os'.stateid a os'.shareAccess os'.shareDeny
    path := .upgrade existing.stateid.seqid existing.shareAccess existing.shareDeny
      os'.stateid.seqid }

/-- The durable write that follows a publish, if opens are written through. -/
def OpenTable.window (w : PendingOpen) : Option PendingOpen :=
  if ot.durable then some w else none

/-- What the first critical section leaves: the table, the status, and the durable write
that is to follow. -/
structure PublishResult where
  table : OpenTable
  status : Except OpenErr Stateid
  window : Option PendingOpen

def PublishResult.fail (e : OpenErr) : PublishResult :=
  { table := ot, status := .error e, window := none }

/-- The first half of `open_state_upgrade_existing`. The other opens of the file are its
chain without `existing`, the first entry the owner lookup matches. -/
def upgradeExisting (existing : OpenState) (a : OpenArgs) : PublishResult :=
  let key := isOwnerOpen a.fileid a.clientid a.openOwner
  let os' := upgradedState ot existing a
  if shareConflict ((opensOf ot a.fileid).eraseP key) os'.shareAccess os'.shareDeny then
    .fail ot .shareDenied
  else
    { table := { ot with opens := modifyFirst key (fun _ => os') ot.opens }
      status := .ok os'.stateid
      window := ot.window (upgradeWrite ot existing a) }

def freshState (a : OpenArgs) : OpenState :=
  { stateid := { seqid := 1, other := makeStateidOther ot }
    clientid := a.clientid, fileid := a.fileid, shareAccess := a.shareAccess
    shareDeny := a.shareDeny, openOwner := a.openOwner, persistPending := ot.durable }

/-- What a fresh OPEN carries across its window. -/
def freshWrite (a : OpenArgs) : PendingOpen :=
  { row := openRowFill ot (freshState ot a).stateid a a.shareAccess a.shareDeny
    path := .fresh }

/-- The fresh half of `open_state_open`. The stateid is minted before the conflict check,
so a denied OPEN consumes a counter value. -/
def openFresh (alloc : Bool) (a : OpenArgs) : PublishResult :=
  if !alloc then .fail ot .resource
  else
    let os := freshState ot a
    let ot' := { ot with nextOtherSeq := ot.nextOtherSeq + 1 }
    if shareConflict (opensOf ot a.fileid) a.shareAccess a.shareDeny then
      .fail ot' .shareDenied
    else
      { table := { ot' with opens := os :: ot.opens }
        status := .ok os.stateid
        window := ot.window (freshWrite ot a) }

/-- The first critical section of `open_state_open`: everything up to the durable write,
which is all of it when nothing is written through. -/
def openPublish (alloc : Bool) (a : OpenArgs) : PublishResult :=
  if a.shareAccess &&& shareAccessBoth = 0 ∨ openOwnerMax < a.openOwner.length then
    .fail ot .inval
  else match findOwnerOpen ot a.fileid a.clientid a.openOwner with
    | some existing =>
      if existing.persistPending then .fail ot .delay
      else upgradeExisting ot existing a
    | none => openFresh ot alloc a

/-- The roll-back of a failed upgrade; the seqid test is the source's. -/
def rollBack (cur : OpenState) (prevSeqid prevAccess prevDeny newSeqid : UInt32) : OpenState :=
  if cur.stateid.seqid = newSeqid then
    { cur with
      stateid := { cur.stateid with seqid := prevSeqid }
      shareAccess := prevAccess, shareDeny := prevDeny, persistPending := false }
  else { cur with persistPending := false }

/-- What a commit leaves: the table, the status, and whether the row is to be deleted. -/
structure CommitResult where
  table : OpenTable
  status : Except OpenErr Unit
  dropRow : Bool

variable (ot : OpenTable)

/-- The relocked half of `open_state_upgrade_existing` and
`open_state_fresh_persist_commit`: find the published state again by its primary key,
then commit or unwind. -/
def openCommit (w : PendingOpen) (pst : PutStatus) : CommitResult :=
  let key := hasOther w.row.stateidOther
  match findByOther ot w.row.stateidOther with
  | none =>
    -- Revoked while unlocked: only the fresh path deletes the row it wrote.
    { table := ot, status := .error .delay, dropRow := w.path = .fresh ∧ pst = .ok }
  | some cur =>
    if pst = .failed then
      match w.path with
      | .fresh =>
        { table := { ot with opens := ot.opens.eraseP key }
          status := .error .delay, dropRow := false }
      | .upgrade prevSeqid prevAccess prevDeny newSeqid =>
        let os' := rollBack cur prevSeqid prevAccess prevDeny newSeqid
        { table := { ot with opens := modifyFirst key (fun _ => os') ot.opens }
          status := .error .delay, dropRow := false }
    else
      let os' := { cur with persistPending := false }
      { table := { ot with opens := modifyFirst key (fun _ => os') ot.opens }
        status := .ok (), dropRow := false }

/-! ## CLOSE and OPEN_DOWNGRADE -/

/-- The checks CLOSE and OPEN_DOWNGRADE share: the stateid names an open of the client, no
durable write is in flight, and the seqid is the current one or zero. The two calls
number their failures apart; these are the statuses the compound layer maps them to. -/
def checkOpenStateid (clientid : Clientid) (stateid : Stateid) : Except OpenErr OpenState :=
  match findByOther ot stateid.other with
  | none => .error .badStateid
  | some os =>
    if os.clientid ≠ clientid then .error .badStateid
    else if os.persistPending then .error .delay
    else if stateid.seqid ≠ 0 ∧ stateid.seqid ≠ os.stateid.seqid then
      if stateid.seqid < os.stateid.seqid then .error .oldStateid else .error .badStateid
    else .ok os

def openStateClose (clientid : Clientid) (stateid : Stateid) : OpenTable × Except OpenErr Stateid :=
  match checkOpenStateid ot clientid stateid with
  | .error e => (ot, .error e)
  | .ok os =>
    ({ ot with opens := ot.opens.eraseP (hasOther stateid.other) },
      .ok { os.stateid with seqid := os.stateid.seqid + 1 })

/-- `open_state_downgrade`: the access bits may only shrink; the deny bits are replaced
unchecked. -/
def openStateDowngrade (clientid : Clientid) (stateid : Stateid)
    (newShareAccess newShareDeny : UInt32) : OpenTable × Except OpenErr Stateid :=
  match checkOpenStateid ot clientid stateid with
  | .error e => (ot, .error e)
  | .ok os =>
    if newShareAccess &&& ~~~os.shareAccess ≠ 0 then (ot, .error .inval)
    else
      let os' := { os with
        shareAccess := newShareAccess, shareDeny := newShareDeny
        stateid := { os.stateid with seqid := os.stateid.seqid + 1 } }
      ({ ot with opens := modifyFirst (hasOther stateid.other) (fun _ => os') ot.opens },
        .ok os'.stateid)

def openStateFind (stateid : Stateid) : Option OpenState :=
  findByOther ot stateid.other

/-! ## Revocation -/

/-- `open_state_close_all_for_client`, under every stripe lock. -/
def openStateCloseAllForClient (clientid : Clientid) : OpenTable :=
  { ot with opens := ot.opens.filter fun os => os.clientid != clientid }

def revokeMaxClients : ℕ := 64

/-- `revoke_remove_expired_locked`, phase 3 of a courtesy revocation. -/
def revokeRemoveExpired (ot : OpenTable) (fileid : Fileid) (expired : List Clientid) : OpenTable :=
  { ot with opens := ot.opens.filter fun os =>
      !(os.fileid == fileid && expired.contains os.clientid) }

variable (ot : OpenTable) (leaseExpired : Clientid → Bool) (fileid : Fileid)

/-- The clients phases 1 and 2 of a courtesy revocation find expired; `leaseExpired` is
`session_client_lease_expired` at that time. -/
def revokeExpiredClients : List Clientid :=
  (collectClients revokeMaxClients ((opensOf ot fileid).map OpenState.clientid)).filter
    leaseExpired

def openStateRevokeExpiredForFile : OpenTable :=
  revokeRemoveExpired ot fileid (revokeExpiredClients ot leaseExpired fileid)

/-- `open_state_table_init_ex` with the two setters: an empty table. -/
def openTableInit (mdsId : UInt32) (seed : ℕ) (cat : Bool) (bootEpoch : UInt64)
    (skipNdbPersist : Bool) : OpenTable :=
  { opens := [], nextOtherSeq := seed, mdsId, cat, bootEpoch, skipNdbPersist }

end PnfsLattice
