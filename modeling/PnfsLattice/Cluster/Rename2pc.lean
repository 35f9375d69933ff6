import Mathlib.Data.List.Sort
import PnfsLattice.Catalogue.Names

/-!
# The cross-shard rename

`rename_2pc.c` in shared-authority mode: the inode stays in place, the participant binds the
destination name, and then the coordinator removes the source name. All nodes work on one
catalogue, and a transaction of the in-memory store is no more than its calls, so every
catalogue call is a step of its own.

A message or reply that was sent stays in the network: it may be delivered late, twice or
never. A reply that the sender does not wait for is a transport error.
-/

namespace PnfsLattice

open Lib

/-! ## The journal -/

/-- `enum rename_2pc_state`. -/
inductive R2pcState
  | idle
  | prepared
  | committed
  | aborted
  deriving DecidableEq

/-- `enum rename_2pc_role`. -/
inductive R2pcRole
  | coordinator
  | participant
  deriving DecidableEq

/-- `struct mds_coord_journal_record`. Of the payload only the fileid is used in this mode. -/
structure JournalRec where
  txnId : ℕ
  state : R2pcState
  role : R2pcRole
  src : NameKey
  dst : NameKey
  srcChildFileid : CatFileid
  createdAtNs : ℕ
  deriving DecidableEq

def JournalRec.key (r : JournalRec) : ℕ × R2pcRole := (r.txnId, r.role)

def memdbMaxJournal : ℕ := 64

/-- `mem_journal_put`; nothing if the table is full. -/
def memJournalPut (r : JournalRec) (journal : List JournalRec) : Option (List JournalRec) :=
  if (findKey JournalRec.key r.key journal).isNone && memdbMaxJournal ≤ journal.length then none
  else some (upsert JournalRec.key r journal)

/-- `mem_journal_del`; no row is left as no row. -/
def memJournalDel (txnId : ℕ) (role : R2pcRole) (journal : List JournalRec) : List JournalRec :=
  eraseKey JournalRec.key (txnId, role) journal

/-- `mem_journal_scan`: a snapshot, oldest first. -/
def memJournalScan (journal : List JournalRec) : List JournalRec :=
  journal.insertionSort fun a b => a.createdAtNs ≤ b.createdAtNs

/-! ## Transactions -/

/-- One rename: its transaction, the two names and the file. -/
structure RenameTxn where
  id : ℕ
  src : NameKey
  dst : NameKey
  child : CatFileid
  deriving DecidableEq

/-- The coordinator's record. -/
def RenameTxn.coordinator (t : RenameTxn) (state : R2pcState) (now : ℕ) : JournalRec :=
  { txnId := t.id, state, role := .coordinator, src := t.src, dst := t.dst
    srcChildFileid := t.child, createdAtNs := now }

/-- The participant's record: it is not told the source name. -/
def RenameTxn.participant (t : RenameTxn) (now : ℕ) : JournalRec :=
  { txnId := t.id, state := .prepared, role := .participant, src := (0, []), dst := t.dst
    srcChildFileid := t.child, createdAtNs := now }

/-- The transaction of a coordinator's record. -/
def JournalRec.txn (r : JournalRec) : RenameTxn :=
  { id := r.txnId, src := r.src, dst := r.dst, child := r.srcChildFileid }

/-! ## Jobs -/

/-- The next catalogue call of a job, with what it has read. `rest` are the records that a
recovery pass has still to look at; `rename_2pc_initiate` has none. -/
inductive R2pcJob
  -- `rename_2pc_initiate`
  | sourceGet (src dst : NameKey)
  | childGetattr (src dst : NameKey) (child : CatFileid)
  | allocTxn (src dst : NameKey) (child : CatFileid)
  | putPrepared (t : RenameTxn)
  | awaitVote (t : RenameTxn)
  | putCommitted (t : RenameTxn)
  | putAborted (t : RenameTxn) (notify : Bool)
  | delAborted (t : RenameTxn)
  -- the end of a commit, for the coordinator and for recovery
  | awaitCommit (t : RenameTxn) (rest : List JournalRec)
  | cleanupDel (t : RenameTxn) (rest : List JournalRec)
  | cleanupGetattr (t : RenameTxn) (rest : List JournalRec)
  | cleanupPut (t : RenameTxn) (parent : MdsInode) (rest : List JournalRec)
  | delCommitted (t : RenameTxn) (rest : List JournalRec)
  -- `rename_2pc_on_prepare`
  | prepareGetattr (t : RenameTxn)
  | prepareGet (t : RenameTxn)
  | preparePut (t : RenameTxn)
  -- `rename_2pc_on_commit`
  | commitJournal (id : ℕ)
  | commitGet (r : JournalRec)
  | commitGetattr (r : JournalRec)
  | commitInode (r : JournalRec) (moved : MdsInode)
  | commitDirent (r : JournalRec) (type : FileType)
  | commitParent (r : JournalRec)
  | commitTouch (r : JournalRec) (parent : MdsInode)
  | commitDel (r : JournalRec)
  -- `rename_2pc_on_abort`
  | abortDel (id : ℕ)
  -- `rename_2pc_recover_rondb`
  | recover (rows : List JournalRec)
  | destMatches (r : JournalRec) (rest : List JournalRec)
  | recoverDel (r : JournalRec) (rest : List JournalRec)
  | returned
  deriving DecidableEq

/-- What recovery does with a record. -/
def recoverRecord (r : JournalRec) (rest : List JournalRec) : R2pcJob :=
  match r.state, r.role with
  | .aborted, _ | .prepared, .coordinator => .recoverDel r rest
  | .prepared, .participant => .destMatches r rest
  | .committed, .participant => .recoverDel r rest
  | .committed, .coordinator => .destMatches r rest
  | .idle, _ => .recover rest

/-! ## The system -/

/-- A transaction that has a record, for the statement only. -/
structure Begun where
  txn : RenameTxn
  /-- Another operation has bound or freed one of its names. -/
  left : Bool
  /-- The coordinator has recorded the commit. -/
  decided : Bool
  deriving DecidableEq

def Memdb.names (m : Memdb) (k : NameKey) (f : CatFileid) : Bool := m.binding k = some f

/-- One of the two names gets or loses the file. -/
def RenameTxn.disturbed (t : RenameTxn) (m m' : Memdb) : Bool :=
  m.names t.src t.child != m'.names t.src t.child ||
    m.names t.dst t.child != m'.names t.dst t.child

/-- The transaction after a write by `actor`, or by another operation. -/
def Begun.written (b : Begun) (actor : Option ℕ) (m m' : Memdb) : Begun :=
  if actor = some b.txn.id then b else { b with left := b.left || b.txn.disturbed m m' }

/-- The transaction after the commit of `id` is recorded. -/
def Begun.decidedIf (b : Begun) (id : ℕ) : Begun :=
  if b.txn.id = id then { b with decided := true } else b

/-- The catalogue, the journal, the jobs of all nodes and what was sent. -/
structure R2pcSys where
  cat : Memdb
  journal : List JournalRec
  jobs : List R2pcJob
  prepares : List RenameTxn
  votes : List (ℕ × Bool)
  commits : List ℕ
  acks : List ℕ
  aborts : List ℕ
  begun : List Begun

/-- What the clock and the transport say. -/
structure R2pcEnv where
  now : ℕ
  /-- The reply to a prepare, if it comes. -/
  vote : Option Bool
  /-- Whether the commit is acknowledged. -/
  acked : Bool

namespace R2pcSys

variable (s : R2pcSys)

/-- The job has come to another call. -/
def goto (j : ℕ) (job : R2pcJob) : R2pcSys := { s with jobs := s.jobs.set j job }

/-- The catalogue is written, by a transaction or by another operation. -/
def write (actor : Option ℕ) (cat : Memdb) : R2pcSys :=
  { s with cat, begun := s.begun.map fun b => b.written actor s.cat cat }

/-- `rename_2pc_on_prepare` returns its vote. -/
def answer (j id : ℕ) (vote : Bool) : R2pcSys :=
  ({ s with votes := (id, vote) :: s.votes } : R2pcSys).goto j .returned

/-- The transaction has its first record. It stands apart from the start if the two names
are not one with the file and one without. -/
def begin (t : RenameTxn) : R2pcSys :=
  { s with
    begun := { txn := t, left := !(s.cat.names t.src t.child && !s.cat.names t.dst t.child)
               decided := false } :: s.begun }

/-- The commit is recorded. -/
def decide (id : ℕ) : R2pcSys :=
  { s with begun := s.begun.map fun b => b.decidedIf id }

end R2pcSys

variable (s : R2pcSys) (j : ℕ)

/-- `rename_2pc_initiate` up to the commit record. -/
def initiateStep (env : R2pcEnv) : R2pcJob → Option R2pcSys
  | .sourceGet src dst =>
    match s.cat.direntFind src.1 src.2 with
    | none => some (s.goto j .returned)
    | some d =>
      if d.childType = .dir then some (s.goto j .returned)
      else some (s.goto j (.childGetattr src dst d.childFileid))
  | .childGetattr src dst child =>
    match s.cat.inodeFind child with
    | none => some (s.goto j .returned)
    | some _ => some (s.goto j (.allocTxn src dst child))
  | .allocTxn src dst child =>
    some ((s.write none (memAllocFileid s.cat).2).goto j
      (.putPrepared ⟨(memAllocFileid s.cat).1, src, dst, child⟩))
  | .putPrepared t =>
    match memJournalPut (t.coordinator .prepared env.now) s.journal with
    | none => some (s.goto j .returned)
    | some journal =>
      some ((({ s with journal, prepares := t :: s.prepares } : R2pcSys).begin t).goto j
        (.awaitVote t))
  | .awaitVote t =>
    match env.vote with
    | none => some (s.goto j (.putAborted t false))
    | some vote =>
      if (t.id, vote) ∈ s.votes then
        some (s.goto j (if vote then .putCommitted t else .putAborted t true))
      else none
  | .putCommitted t =>
    match memJournalPut (t.coordinator .committed env.now) s.journal with
    | none => some (s.goto j .returned)
    | some journal =>
      some ((({ s with journal, commits := t.id :: s.commits } : R2pcSys).decide t.id).goto j
        (.awaitCommit t []))
  | .putAborted t notify =>
    match memJournalPut (t.coordinator .aborted env.now) s.journal with
    | none => some (s.goto j .returned)
    | some journal =>
      some (({ s with journal, aborts := if notify then t.id :: s.aborts else s.aborts } :
        R2pcSys).goto j (.delAborted t))
  | .delAborted t =>
    some (({ s with journal := memJournalDel t.id .coordinator s.journal } : R2pcSys).goto j
      .returned)
  | _ => none

/-- The end of a commit: the reply, `rename_2pc_rondb_cleanup_source` and the record. -/
def cleanupSourceStep (env : R2pcEnv) : R2pcJob → Option R2pcSys
  | .awaitCommit t rest =>
    if !env.acked then some (s.goto j (.recover rest))
    else if t.id ∈ s.acks then some (s.goto j (.cleanupDel t rest))
    else none
  | .cleanupDel t rest =>
    match memDirentDel t.src s.cat with
    | .ok cat => some ((s.write (some t.id) cat).goto j (.cleanupGetattr t rest))
    | .error .notfound => some (s.goto j (.cleanupGetattr t rest))
    | .error _ => some (s.goto j (.recover rest))
  | .cleanupGetattr t rest =>
    match s.cat.inodeFind t.src.1 with
    | none => some (s.goto j (.recover rest))
    | some parent => some (s.goto j (.cleanupPut t (parentTouch env.now parent) rest))
  | .cleanupPut t parent rest =>
    match memInodePut parent s.cat with
    | .ok cat => some ((s.write (some t.id) cat).goto j (.delCommitted t rest))
    | .error _ => some (s.goto j (.recover rest))
  | .delCommitted t rest =>
    some (({ s with journal := memJournalDel t.id .coordinator s.journal } : R2pcSys).goto j
      (.recover rest))
  | _ => none

/-- `rename_2pc_on_prepare`. -/
def onPrepareStep (env : R2pcEnv) : R2pcJob → Option R2pcSys
  | .prepareGetattr t =>
    if (s.cat.inodeFind t.dst.1).any fun parent => parent.type = .dir then
      some (s.goto j (.prepareGet t))
    else some (s.answer j t.id false)
  | .prepareGet t =>
    if (s.cat.direntFind t.dst.1 t.dst.2).isSome then some (s.answer j t.id false)
    else some (s.goto j (.preparePut t))
  | .preparePut t =>
    match memJournalPut (t.participant env.now) s.journal with
    | none => some (s.answer j t.id false)
    | some journal => some (({ s with journal } : R2pcSys).answer j t.id true)
  | _ => none

/-- `rename_2pc_on_commit` and `rename_2pc_on_abort`. -/
def onCommitStep (env : R2pcEnv) : R2pcJob → Option R2pcSys
  | .commitJournal id =>
    match findKey JournalRec.key (id, .participant) s.journal with
    | none => some (s.goto j .returned)
    | some r =>
      if r.srcChildFileid = 0 then some (s.goto j .returned) else some (s.goto j (.commitGet r))
  | .commitGet r =>
    match s.cat.direntFind r.dst.1 r.dst.2 with
    | some d =>
      if d.childFileid = r.srcChildFileid then some (s.goto j (.commitDel r))
      else some (s.goto j .returned)
    | none => some (s.goto j (.commitGetattr r))
  | .commitGetattr r =>
    match s.cat.inodeFind r.srcChildFileid with
    | none => some (s.goto j .returned)
    | some ino =>
      some (s.goto j (.commitInode r
        { ino with parentFileid := r.dst.1, ctime := env.now, change := ino.change + 1 }))
  | .commitInode r moved =>
    match memInodePut moved s.cat with
    | .ok cat => some ((s.write (some r.txnId) cat).goto j (.commitDirent r moved.type))
    | .error _ => some (s.goto j .returned)
  | .commitDirent r type =>
    match memDirentPut r.dst r.srcChildFileid type s.cat with
    | .ok cat => some ((s.write (some r.txnId) cat).goto j (.commitParent r))
    | .error _ => some (s.goto j .returned)
  | .commitParent r =>
    match s.cat.inodeFind r.dst.1 with
    | none => some (s.goto j (.commitDel r))
    | some parent => some (s.goto j (.commitTouch r (parentTouch env.now parent)))
  | .commitTouch r parent =>
    match memInodePut parent s.cat with
    | .ok cat => some ((s.write (some r.txnId) cat).goto j (.commitDel r))
    | .error _ => some (s.goto j (.commitDel r))
  | .commitDel r =>
    some (({ s with journal := memJournalDel r.txnId .participant s.journal
                    acks := r.txnId :: s.acks } : R2pcSys).goto j .returned)
  | .abortDel id =>
    some (({ s with journal := memJournalDel id .participant s.journal } : R2pcSys).goto j
      .returned)
  | _ => none

/-- `rename_2pc_recover_rondb_scan_cb` on the records of the snapshot, in turn. -/
def recoverStep : R2pcJob → Option R2pcSys
  | .recover [] => some (s.goto j .returned)
  | .recover (r :: rest) => some (s.goto j (recoverRecord r rest))
  | .destMatches r rest =>
    if r.srcChildFileid = 0 then some (s.goto j (.recover rest))
    else if s.cat.names r.dst r.srcChildFileid then
      match r.role with
      | .coordinator => some (s.goto j (.cleanupDel r.txn rest))
      | .participant => some (s.goto j (.recoverDel r rest))
    else
      match r.role with
      | .coordinator =>
        some (({ s with commits := r.txnId :: s.commits } : R2pcSys).goto j
          (.awaitCommit r.txn rest))
      | .participant => some (s.goto j (.recover rest))
  | .recoverDel r rest =>
    some (({ s with journal := memJournalDel r.txnId r.role s.journal } : R2pcSys).goto j
      (.recover rest))
  | _ => none

/-- The next catalogue call of a job. -/
def r2pcJobStep (env : R2pcEnv) (job : R2pcJob) : Option R2pcSys :=
  (initiateStep s j env job).or <| (cleanupSourceStep s j env job).or <|
    (onPrepareStep s j env job).or <| (onCommitStep s j env job).or (recoverStep s j job)

/-- What happens next. -/
inductive R2pcOp
  /-- Another operation on the namespace. -/
  | call (now : ℕ) (c : NsCall)
  /-- A node starts a rename. -/
  | initiate (src dst : NameKey)
  /-- A message arrives. -/
  | onPrepare (t : RenameTxn)
  | onCommit (id : ℕ)
  | onAbort (id : ℕ)
  /-- A node starts recovery. -/
  | recover
  /-- A job makes its next call. -/
  | job (j : ℕ) (env : R2pcEnv)
  /-- The job's node crashes. -/
  | crash (j : ℕ)

/-- One step of the nodes over the shared catalogue. -/
def r2pcStep (s : R2pcSys) : R2pcOp → Option R2pcSys
  | .call now c => (nsStep s.cat (now, c)).map (s.write none)
  | .initiate src dst => some { s with jobs := s.jobs ++ [.sourceGet src dst] }
  | .onPrepare t =>
    if t ∈ s.prepares then some { s with jobs := s.jobs ++ [.prepareGetattr t] } else none
  | .onCommit id =>
    if id ∈ s.commits then some { s with jobs := s.jobs ++ [.commitJournal id] } else none
  | .onAbort id => if id ∈ s.aborts then some { s with jobs := s.jobs ++ [.abortDel id] } else none
  | .recover => some { s with jobs := s.jobs ++ [.recover (memJournalScan s.journal)] }
  | .job j env => s.jobs[j]?.bind (r2pcJobStep s j env)
  | .crash j => some (s.goto j .returned)

/-- A new catalogue, and no rename yet. -/
def R2pcStart (s : R2pcSys) : Prop :=
  MemdbStart s.cat ∧ s.journal = [] ∧ s.jobs = [] ∧ s.prepares = [] ∧ s.votes = [] ∧
    s.commits = [] ∧ s.acks = [] ∧ s.aborts = [] ∧ s.begun = []

end PnfsLattice
