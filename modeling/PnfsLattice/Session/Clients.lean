import PnfsLattice.Lib.FirstMatch
import PnfsLattice.Lib.Machine
import PnfsLattice.Stateid

/-!
# The client table

Client records and their sessions (`session.c`): EXCHANGE_ID, CREATE_SESSION,
DESTROY_SESSION, DESTROY_CLIENTID and the lease reaper. All of them run under every
stripe lock, so each is one step; the reaper's clean-up of a record it unlinked is a
later step of its own.

The client hash is one list of records, newest first. The owner hash is the part of it
whose records are `ownerHashed`: a record that EXCHANGE_ID supersedes leaves the owner
hash and stays in the client hash until its replacement is confirmed. `rid` names the
record itself, where the source has a pointer.
-/

namespace PnfsLattice

open Lib

/-! ## The table -/

/-- The credential a client record was created under; flavor zero is not matched. -/
structure Principal where
  authFlavor : UInt32
  credUid : UInt32
  credGid : UInt32
deriving DecidableEq

/-- `struct nfs4_client`. -/
structure ClientRec where
  rid : ℕ
  clientid : Clientid
  coOwnerid : List UInt8
  verifier : List UInt8
  confirmed : Bool
  createSeq : UInt32
  lastRenewed : ℕ
  principal : Principal
  /-- The client's sessions, by session id. -/
  sessions : List ℕ
  /-- The session the last CREATE_SESSION returned, for its replay. -/
  lastCs : Option ℕ
  supersededClientid : Clientid
  ownerHashed : Bool
deriving DecidableEq

/-- `struct nfs4_session`, with the counter part of its id and the back-link `owner`. -/
structure SessionRec where
  sessionId : ℕ
  clientid : Clientid
  owner : ℕ
deriving DecidableEq

structure RecoveryRow where
  clientid : Clientid
  coOwnerid : List UInt8
  verifier : List UInt8
deriving DecidableEq

/-- `struct session_table`, with the recovery rows of the catalogue. `persists` says that
a commit queue or a catalogue is attached, `cat` that a catalogue is. -/
structure SessionTable where
  clients : List ClientRec
  sessions : List SessionRec
  nextClientid : ℕ
  nextSessionSeq : ℕ
  nextRid : ℕ
  mdsId : UInt32
  restartNonce : UInt64
  leaseTimeSec : ℕ
  persists : Bool
  cat : Bool
  rows : List RecoveryRow
  /-- Confirmed clients the reaper has unlinked and not yet cleaned up. -/
  orphans : List Clientid
deriving DecidableEq

variable (st : SessionTable)

def findClientById (clientid : Clientid) : Option ClientRec :=
  st.clients.find? fun c => c.clientid == clientid

def findClientByOwner (coOwnerid : List UInt8) : Option ClientRec :=
  st.clients.find? fun c => c.ownerHashed && c.coOwnerid == coOwnerid

/-- A write through a pointer to the record `rid`. -/
def SessionTable.write (rid : ℕ) (f : ClientRec → ClientRec) : SessionTable :=
  { st with clients := st.clients.map fun c => if c.rid == rid then f c else c }

/-- `client_principal_matches`. -/
def principalMatches (p q : Principal) : Bool :=
  p.authFlavor == 0 || q.authFlavor == 0 || p == q

/-- `mds_coord_recovery_put`: upsert by clientid. -/
def recoveryPut (rows : List RecoveryRow) (row : RecoveryRow) : List RecoveryRow :=
  row :: rows.filter fun r => r.clientid != row.clientid

/-- `mds_coord_recovery_del`. -/
def recoveryDel (rows : List RecoveryRow) (clientid : Clientid) : List RecoveryRow :=
  rows.filter fun r => r.clientid != clientid

/-- `unhash_client` and `free_client`: the record goes with its sessions, and a confirmed
one with its recovery row, if the delete succeeds. -/
def dropClient (st : SessionTable) (c : ClientRec) (delOk : Bool) : SessionTable :=
  { st with
    clients := st.clients.filter fun x => x.rid != c.rid
    sessions := st.sessions.filter fun s => !c.sessions.contains s.sessionId
    rows := if c.confirmed && st.persists && delOk then recoveryDel st.rows c.clientid
      else st.rows }

/-! ## EXCHANGE_ID -/

/-- The arguments of `session_exchange_id`; `update` is the flag
`EXCHGID4_FLAG_UPD_CONFIRMED_REC_A`. -/
structure EidArgs where
  coOwnerid : List UInt8
  verifier : List UInt8
  update : Bool
  principal : Principal
deriving DecidableEq

/-- What an EXCHANGE_ID meets: the clock, the grace period, the recovery row the scan
stops at (if it stops at one), and the outcomes of the allocation and of a delete. -/
structure EidEnv where
  now : ℕ
  grace : Bool
  scan : Option Clientid
  alloc : Bool
  delOk : Bool
deriving DecidableEq

/-- The failures of `session_exchange_id`. -/
inductive EidErr
  | resource
  | noent
  | notSame
  | perm
deriving DecidableEq

def coOwneridMax : ℕ := 1024

variable (st : SessionTable)

/-- The id of the recovery row that the grace-period scan finds: a row that matches owner
and verifier, if the scan reaches one and can read it. -/
def recoveredId (a : EidArgs) (env : EidEnv) : Option Clientid :=
  if st.cat && env.grace then
    env.scan.filter fun id => st.rows.contains ⟨id, a.coOwnerid, a.verifier⟩
  else none

/-- The upper half of the ids this table mints: 16 bits of `mds_id`, 16 of the nonce. -/
def SessionTable.tag : ℕ :=
  st.mdsId.toNat % 2 ^ 16 * 2 ^ 16 + st.restartNonce.toNat % 2 ^ 16

/-- `[mds_id:16][restart_nonce:16][counter:32]`. -/
def mintClientid : Clientid :=
  UInt64.ofNat (st.tag * 2 ^ 32 + st.nextClientid % 2 ^ 32)

/-- The mint counter after a recovered id was taken: past it, when the id has the
`mds_id` and the nonce bits of this table. -/
def counterPast (id : Clientid) : ℕ :=
  if id.toNat / 2 ^ 48 = st.mdsId.toNat ∧
      id.toNat / 2 ^ 32 % 2 ^ 16 = st.restartNonce.toNat % 2 ^ 16 then
    max st.nextClientid (id.toNat % 2 ^ 32 + 1)
  else st.nextClientid

/-- The record `session_alloc_new_client` links in. -/
def newClient (a : EidArgs) (env : EidEnv) (clientid superseded : Clientid) : ClientRec :=
  { rid := st.nextRid, clientid, coOwnerid := a.coOwnerid, verifier := a.verifier
    confirmed := false, createSeq := 1, lastRenewed := env.now, principal := a.principal
    sessions := [], lastCs := none, supersededClientid := superseded, ownerHashed := true }

/-- `session_alloc_new_client`; `superseded` is what EXCHANGE_ID then writes to the new
record, which is the first one with its id. -/
def sessionAllocNewClient (a : EidArgs) (env : EidEnv) (superseded : Clientid) :
    SessionTable × Except EidErr Clientid :=
  if !env.alloc then (st, .error .resource)
  else
    let (id, next) := match recoveredId st a env with
      | some id => (id, counterPast st id)
      | none => (mintClientid st, st.nextClientid + 1)
    ({ st with
        clients := newClient st a env id superseded :: st.clients
        nextClientid := next
        nextRid := st.nextRid + 1 }, .ok id)

/-- What `session_exchange_id` decides on a request. -/
inductive EidCase
  | fail (err : EidErr)
  | renew (c : ClientRec)
  | fresh
  /-- The old record only leaves the owner hash. -/
  | defer (c : ClientRec)
  | replace (c : ClientRec)
deriving DecidableEq

/-- The decision of `session_exchange_id`. -/
def eidCase (a : EidArgs) : EidCase :=
  if a.coOwnerid = [] ∨ coOwneridMax < a.coOwnerid.length then .fail .resource
  else match findClientByOwner st a.coOwnerid with
    | none => if a.update then .fail .noent else .fresh
    | some c =>
      let verfMatch := c.verifier == a.verifier
      let princMatch := principalMatches c.principal a.principal
      if a.update then
        if !c.confirmed then .fail .noent
        else if !verfMatch then .fail .notSame
        else if !princMatch then .fail .perm
        else .renew c
      else if c.confirmed && verfMatch && princMatch then .renew c
      else if c.confirmed && princMatch then .defer c
      else .replace c

def sessionExchangeId (a : EidArgs) (env : EidEnv) : SessionTable × Except EidErr Clientid :=
  match eidCase st a with
  | .fail err => (st, .error err)
  | .renew c => (st.write c.rid fun c => { c with lastRenewed := env.now }, .ok c.clientid)
  | .fresh => sessionAllocNewClient st a env 0
  | .defer c =>
    sessionAllocNewClient (st.write c.rid fun c => { c with ownerHashed := false }) a env
      c.clientid
  | .replace c => sessionAllocNewClient (dropClient st c env.delOk) a env 0

/-! ## Sessions -/

/-- What a CREATE_SESSION meets: the clock, and the outcomes of the allocation and of the
recovery-row writes. -/
structure CsEnv where
  now : ℕ
  alloc : Bool
  putOk : Bool
  delOk : Bool
deriving DecidableEq

/-- The failures of `session_create_session`. -/
inductive CsErr
  | staleClientid
  | clidInuse
  | seqMisordered
  | nomem
deriving DecidableEq

/-- The age of a record's lease, in 32 bits. -/
def leaseAge (c : ClientRec) (now : ℕ) : ℕ := (now - c.lastRenewed) % 2 ^ 32

/-- The on-demand expiry test, which the reaper also applies to unconfirmed records. -/
def leaseOver (st : SessionTable) (c : ClientRec) (now : ℕ) : Bool :=
  c.lastRenewed < now && st.leaseTimeSec ≤ leaseAge c now

/-- The destroy of the record that a newly confirmed one supersedes. -/
def destroySuperseded (st : SessionTable) (clientid : Clientid) (delOk : Bool) : SessionTable :=
  if clientid = 0 then st
  else match findClientById st clientid with
    | some old => dropClient st old delOk
    | none => st

/-- What a CREATE_SESSION first writes to the record: the new session, the confirmation,
the next sequence id and the renewal. -/
def confirmRec (sessionId now : ℕ) (c : ClientRec) : ClientRec :=
  { c with
    sessions := sessionId :: c.sessions, confirmed := true, createSeq := c.createSeq + 1
    lastRenewed := now }

/-- What it writes once the superseded record is gone: the result is cached. -/
def settleRec (sessionId : ℕ) (c : ClientRec) : ClientRec :=
  { c with supersededClientid := 0, lastCs := some sessionId }

variable (st : SessionTable)

/-- The table with a new session, linked to the record `c`, which is thereby confirmed. -/
def linkSession (c : ClientRec) (now : ℕ) : SessionTable :=
  { st.write c.rid (confirmRec st.nextSessionSeq now) with
    sessions := ⟨st.nextSessionSeq, c.clientid, c.rid⟩ :: st.sessions
    nextSessionSeq := st.nextSessionSeq + 1 }

/-- The success path of `session_create_session`: link a session, confirm the record,
destroy the one it supersedes, cache the result, persist the recovery row. -/
def confirmClient (c : ClientRec) (env : CsEnv) : SessionTable :=
  let st' := destroySuperseded (linkSession st c env.now) c.supersededClientid env.delOk
  { st'.write c.rid (settleRec st.nextSessionSeq) with
    rows := if st'.persists && env.putOk then
      recoveryPut st'.rows ⟨c.clientid, c.coOwnerid, c.verifier⟩ else st'.rows }

/-- `session_create_session`; the channel attributes do not matter here. -/
def sessionCreateSession (clientid : Clientid) (seqid : UInt32) (principal : Principal)
    (env : CsEnv) : SessionTable × Except CsErr ℕ :=
  match findClientById st clientid with
  | none => (st, .error .staleClientid)
  | some c =>
    if !c.confirmed && leaseOver st c env.now then
      (dropClient st c env.delOk, .error .staleClientid)
    else if !c.confirmed && !principalMatches c.principal principal then
      (st, .error .clidInuse)
    else if seqid = c.createSeq then
      if !env.alloc then (st, .error .nomem)
      else (confirmClient st c env, .ok st.nextSessionSeq)
    else match c.lastCs with
      | some sid => if seqid = c.createSeq - 1 then (st, .ok sid) else (st, .error .seqMisordered)
      | none => (st, .error .seqMisordered)

/-- `session_destroy_session`: the session is unlinked from the record its clientid
names. -/
def sessionDestroySession (sessionId : ℕ) : SessionTable :=
  match st.sessions.find? fun s => s.sessionId == sessionId with
  | none => st
  | some s =>
    let st' := match findClientById st s.clientid with
      | some c => st.write c.rid fun c => { c with sessions := c.sessions.erase sessionId }
      | none => st
    { st' with sessions := st'.sessions.filter fun s => s.sessionId != sessionId }

/-- `session_destroy_client`: refused while a confirmed client has sessions. -/
def sessionDestroyClient (clientid : Clientid) (delOk : Bool) : SessionTable :=
  match findClientById st clientid with
  | none => st
  | some c => if c.confirmed && c.sessions ≠ [] then st else dropClient st c delOk

/-- The lease renewal of an accepted SEQUENCE, through the session's owner link. -/
def sequenceRenew (sessionId : ℕ) (now : ℕ) : SessionTable :=
  match st.sessions.find? fun s => s.sessionId == sessionId with
  | none => st
  | some s => st.write s.owner fun c => { c with lastRenewed := now }

/-! ## The lease reaper -/

def SessionTable.reaperLease : ℕ :=
  if 0 < st.leaseTimeSec then st.leaseTimeSec else 90

/-- The records one pass of the reaper expires: an unconfirmed one after a lease, a
confirmed one after two. -/
def reaperExpired (now : ℕ) (c : ClientRec) : Bool :=
  c.lastRenewed < now &&
    if c.confirmed then st.reaperLease * 2 % 2 ^ 32 < leaseAge c now
    else st.reaperLease ≤ leaseAge c now

/-- One pass of `lease_reaper_thread` under the locks. -/
def leaseReaper (now : ℕ) : SessionTable :=
  let expired := st.clients.filter (reaperExpired st now)
  { st with
    clients := st.clients.filter fun c => !reaperExpired st now c
    sessions := st.sessions.filter fun s => !expired.any fun c => c.sessions.contains s.sessionId
    orphans := st.orphans ++ (expired.filter ClientRec.confirmed).map ClientRec.clientid }

/-- `session_finish_expired_client`, after the locks are dropped: the recovery row of an
unlinked client goes. -/
def sessionFinishExpiredClient (clientid : Clientid) (delOk : Bool) : SessionTable :=
  { st with
    orphans := st.orphans.erase clientid
    rows := if st.persists && delOk then recoveryDel st.rows clientid else st.rows }

/-! ## The table as a machine -/

/-- One action on the table. -/
inductive ClientOp
  | exchangeId (args : EidArgs) (env : EidEnv)
  | createSession (clientid : Clientid) (seqid : UInt32) (principal : Principal) (env : CsEnv)
  | destroySession (sessionId : ℕ)
  | destroyClient (clientid : Clientid) (delOk : Bool)
  | sequence (sessionId : ℕ) (now : ℕ)
  | reap (now : ℕ)
  | finishExpired (clientid : Clientid) (delOk : Bool)
deriving DecidableEq

/-- The table after an action. -/
def clientNext : ClientOp → SessionTable
  | .exchangeId a env => (sessionExchangeId st a env).1
  | .createSession clientid seqid principal env =>
    (sessionCreateSession st clientid seqid principal env).1
  | .destroySession sessionId => sessionDestroySession st sessionId
  | .destroyClient clientid delOk => sessionDestroyClient st clientid delOk
  | .sequence sessionId now => sequenceRenew st sessionId now
  | .reap now => leaseReaper st now
  | .finishExpired clientid delOk => sessionFinishExpiredClient st clientid delOk

/-- One step. Only clients the reaper unlinked are finished. -/
def clientStep (op : ClientOp) : Option SessionTable :=
  match op with
  | .finishExpired clientid _ => if clientid ∈ st.orphans then some (clientNext st op) else none
  | _ => some (clientNext st op)

/-- `session_table_init_ex`: no records; the catalogue may hold recovery rows of earlier
boots. -/
def sessionTableInit (mdsId : UInt32) (restartNonce : UInt64) (leaseTimeSec : ℕ)
    (persists cat : Bool) (rows : List RecoveryRow) : SessionTable :=
  { clients := [], sessions := [], nextClientid := 1, nextSessionSeq := 1, nextRid := 0, mdsId
    restartNonce, leaseTimeSec, persists, cat, rows, orphans := [] }

/-- The tables a server with a 16-bit `mds_id` starts with. -/
def ClientInit (st : SessionTable) : Prop :=
  ∃ mdsId nonce lease persists cat rows, mdsId.toNat < 2 ^ 16 ∧
    st = sessionTableInit mdsId nonce lease persists cat rows

end PnfsLattice
