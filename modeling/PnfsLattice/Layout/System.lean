import PnfsLattice.Layout.Grant
import PnfsLattice.Layout.Recall

/-!
# Layouts in persistent mode

LAYOUTGETs, LAYOUTRETURNs and LAYOUTCOMMITs of any number of clients, recalls, and
restarts of the server, over the catalogue's layout table and the in-memory seqid tracker.
A LAYOUTGET is a job with one step for each critical section of `op_layoutget`: the recall
scan and each act of the recall, the advance in the tracker, the catalogue probe, the
record after the probe, a fresh stateid, the persist, and the revoke on an error exit.
Jobs interleave freely. The reply of a LAYOUTGET that succeeds is taken to leave with its
persist.

The catalogue's calls succeed: a persist without room in the table is not a step. The
issued stateids and the windows clients hold are a record of what happened that no step
reads.
-/

namespace PnfsLattice

open Lib

/-- A LAYOUTGET in flight: who asks, for which file, with which stateid, and the window. -/
structure GetReq where
  clientid : Clientid
  fileid : Fileid
  sid : Stateid
  plan : GetPlan
deriving DecidableEq

/-- Where a LAYOUTGET or a recall stands. `renewal` is `is_renewal`: the presented stateid
was tracked at entry. -/
inductive LayoutJob
  /-- Before the recall scan. -/
  | scan (r : GetReq) (renewal : Bool)
  /-- The acts of a recall, and the LAYOUTGET that goes on afterwards. -/
  | recalling (acts : List RecallAct) (next : Option (GetReq × Bool))
  /-- The stripe lease check and everything else up to the pick. -/
  | lease (r : GetReq) (renewal : Bool)
  /-- `layout_pick_stateid`, step 1. -/
  | advance (r : GetReq) (renewal : Bool)
  /-- `layout_pick_stateid`, step 2. -/
  | probe (r : GetReq) (renewal : Bool)
  /-- `layout_seqid_record_new` at the end of step 2. -/
  | record (r : GetReq) (renewal : Bool) (sid : Stateid)
  /-- `layout_pick_stateid`, step 3. -/
  | make (r : GetReq) (renewal : Bool)
  /-- `layout_persist_grant` of the picked stateid. -/
  | persist (r : GetReq) (renewal : Bool) (sid : Stateid)
  /-- `layout_revoke_grant_entries` on an error exit. -/
  | undo (r : GetReq) (sid : Stateid)
  | done
deriving DecidableEq

/-! ## The record -/

/-- What became of an issued seqid: its LAYOUTGET is under way, it reached the client, or
the LAYOUTGET failed. -/
inductive IssueState
  | pending
  | handed
  | dropped
deriving DecidableEq

/-- A seqid issued for a stateid, by job `job` for LAYOUTGET or in a CB_LAYOUTRECALL. -/
structure Issue where
  other : Other
  seqid : UInt32
  clientid : Clientid
  fileid : Fileid
  callback : Bool
  job : ℕ
  state : IssueState
deriving DecidableEq

/-- A window that a LAYOUTGET gave to a client. -/
structure Window where
  clientid : Clientid
  fileid : Fileid
  other : Other
  offset : ℕ
  length : ℕ
deriving DecidableEq

/-- The row that has to cover the window. -/
def Window.key (w : Window) : Fileid × Other := (w.fileid, w.other)

/-- The client and the file a stateid was first issued to and for; the list is newest
first. -/
def ownerOf (other : Other) : List Issue → Option (Clientid × Fileid)
  | [] => none
  | i :: issued =>
    (ownerOf other issued).or (if i.other = other then some (i.clientid, i.fileid) else none)

/-- Settle the pending issue of a job. -/
def settle (j : ℕ) (st : IssueState) (issued : List Issue) : List Issue :=
  issued.map fun i => if i.job = j ∧ i.state = .pending then { i with state := st } else i

/-- A restart ends every LAYOUTGET that is under way. -/
def dropPending (issued : List Issue) : List Issue :=
  issued.map fun i => if i.state = .pending then { i with state := .dropped } else i

/-! ## The machine -/

/-- The server's layout state, and the record. -/
structure LayoutSys where
  rows : LayoutTable
  tracker : SeqidTable
  counter : ℕ
  jobs : List LayoutJob
  /-- Newest first. -/
  issued : List Issue
  held : List Window
deriving DecidableEq

/-- How a LAYOUTGET ends after its pick. -/
inductive GetOutcome
  /-- It succeeds. -/
  | granted
  /-- The DS list cannot be built: nothing is persisted. -/
  | unlisted
  /-- An error exit that revokes the persisted grant. -/
  | revoked
  /-- An error exit that does not. -/
  | kept
deriving DecidableEq

/-- What a step of a job meets outside the layout state. -/
structure LayoutEnv where
  /-- The request fails here. -/
  fail : Bool
  /-- The recall scan runs: there is a recall coordinator, and the file is not new. -/
  recalls : Bool
  /-- The holder has a live backchannel. -/
  backchannel : Bool
  /-- Allocations succeed. -/
  alloc : Bool
  /-- The prefix without a stripe lease conflict, where leases are in use. -/
  leasePrefix : Option ℕ
  /-- The data servers of the grant. -/
  dsIds : List UInt32
  outcome : GetOutcome
deriving DecidableEq

/-- The kinds of LAYOUTRETURN. -/
inductive ReturnType
  | file
  | fsid
  | all
deriving DecidableEq

inductive LayoutOp
  | layoutget (clientid : Clientid) (fileid : Fileid) (sid : Stateid) (a : LayoutgetArgs)
      (inode : Option MdsInode)
  | job (j : ℕ) (env : LayoutEnv)
  | layoutreturn (clientid : Clientid) (fileid : Fileid) (sid : Stateid) (layoutType : UInt32)
      (returnType : ReturnType)
  /-- LAYOUTCOMMIT reads the row of its stateid and changes no layout state. -/
  | layoutcommit (clientid : Clientid) (fileid : Fileid) (sid : Stateid)
  /-- The recall of a SETATTR that changes the size. -/
  | resize (clientid : Clientid) (fileid : Fileid)
  /-- The revoke of a final unlink. -/
  | unlink (fileid : Fileid)
  /-- The recall of a lost data server. -/
  | dsLost (dsId : UInt32)
  /-- The catalogue survives, the memory does not. The new counter is seeded from the
  clock, past every stateid of the previous life. -/
  | restart (seed : ℕ)
deriving DecidableEq

/-- The job `j` is replaced. -/
def LayoutSys.setJob (s : LayoutSys) (j : ℕ) (job : LayoutJob) : LayoutSys :=
  { s with jobs := s.jobs.set j job }

/-- The issue of a stateid by job `j` to the client of its request. -/
def GetReq.issues (r : GetReq) (j : ℕ) (sid : Stateid) : Issue :=
  { other := sid.other, seqid := sid.seqid, clientid := r.clientid, fileid := r.fileid
    callback := false, job := j, state := .pending }

/-- The job `j` issues a stateid. -/
def LayoutSys.issue (s : LayoutSys) (j : ℕ) (r : GetReq) (sid : Stateid) : LayoutSys :=
  { s with issued := r.issues j sid :: s.issued }

/-- The issue of a seqid to a holder in CB_LAYOUTRECALL. -/
def Holder.issues (h : Holder) (j : ℕ) (seqid : UInt32) : Issue :=
  { other := h.stateid.other, seqid, clientid := h.clientid, fileid := h.fileid
    callback := true, job := j, state := .handed }

/-- A seqid is sent to a holder in CB_LAYOUTRECALL. -/
def LayoutSys.callBack (s : LayoutSys) (j : ℕ) (h : Holder) (seqid : UInt32) : LayoutSys :=
  { s with issued := h.issues j seqid :: s.issued }

/-- The row of the key is revoked, and with it the windows under it. -/
def LayoutSys.revoke (s : LayoutSys) (fileid : Fileid) (other : Other) : LayoutSys :=
  { s with
    rows := layoutReturned s.rows other fileid
    held := s.held.filter fun w =>
      (layoutReturnTarget s.rows other fileid).map LayoutRow.key ≠ some w.key }

def GetReq.row (r : GetReq) (sid : Stateid) (dsIds : List UInt32) : LayoutRow :=
  { clientid := r.clientid, fileid := r.fileid, iomode := .rw, offset := r.plan.offset
    length := r.plan.length, stateid := sid, dsIds }

/-- The window a LAYOUTGET gives. -/
def GetReq.window (r : GetReq) (sid : Stateid) : Window :=
  { clientid := r.clientid, fileid := r.fileid, other := sid.other, offset := r.plan.offset
    length := r.plan.length }

def layoutPersistGrant (rows : LayoutTable) (renewal : Bool) (row : LayoutRow) :
    Except MdsStatus LayoutTable :=
  if renewal then memLayoutGrantUnion rows row else memLayoutGrant rows row

/-- One act of a recall by job `j`; the acts left are returned with the state. -/
def recallStep (s : LayoutSys) (j : ℕ) (env : LayoutEnv) (acts : List RecallAct) :
    RecallAct → LayoutSys × List RecallAct
  | .note h =>
    if env.backchannel then
      ({ s with
          tracker := layoutSeqidRecordAt env.alloc s.tracker h.stateid.other h.stateid.seqid },
        .call h :: acts)
    else (s, acts)
  | .call h =>
    match layoutSeqidAdvance s.tracker h.stateid.other with
    | some (seqid, tracker) => ({ s with tracker }.callBack j h seqid, acts)
    | none =>
      let seqid := bumpSeqid h.stateid.seqid
      ({ s with
          tracker := layoutSeqidRecordAt env.alloc s.tracker h.stateid.other seqid }.callBack
        j h seqid, acts)
  | .revoke fileid other => (s.revoke fileid other, acts)
  | .untrack other => ({ s with tracker := layoutSeqidRemove s.tracker other }, acts)

/-- One step of job `j`. -/
def layoutJobStep (cfg : LayoutCfg) (s : LayoutSys) (j : ℕ) (env : LayoutEnv) :
    LayoutJob → Option LayoutSys
  | .scan r renewal =>
    if env.fail then some (s.setJob j .done)
    else if env.recalls then
      some (s.setJob j (.recalling (layoutRecallByteRange s.rows s.tracker r.fileid r.clientid .rw
        r.plan.offset r.plan.leaseLength) (some (r, renewal))))
    else some (s.setJob j (.lease r renewal))
  | .recalling [] none => some (s.setJob j .done)
  | .recalling [] (some (r, renewal)) => some (s.setJob j (.lease r renewal))
  | .recalling (act :: acts) next =>
    let (s', acts') := recallStep s j env acts act
    some (s'.setJob j (.recalling acts' next))
  | .lease r renewal =>
    if env.fail then some (s.setJob j .done)
    else
      match env.leasePrefix with
      | none => some (s.setJob j (.advance r renewal))
      | some n =>
        match narrowGrant r.plan n with
        | .error _ => some (s.setJob j .done)
        | .ok plan => some (s.setJob j (.advance { r with plan } renewal))
  | .advance r renewal =>
    if r.sid.seqid = 0 then some (s.setJob j (.make r renewal))
    else
      match layoutSeqidAdvance s.tracker r.sid.other with
      | some (seqid, tracker) =>
        let sid : Stateid := { seqid, other := r.sid.other }
        some (({ s with tracker }.issue j r sid).setJob j (.persist r renewal sid))
      | none => some (s.setJob j (.probe r renewal))
  | .probe r renewal =>
    match memLayoutGetByStateid s.rows r.sid.other with
    | some row =>
      if row.fileid = r.fileid then
        let sid : Stateid := { seqid := bumpSeqid row.stateid.seqid, other := r.sid.other }
        some ((s.issue j r sid).setJob j (.record r renewal sid))
      else some (s.setJob j (.make r renewal))
    | none => some (s.setJob j (.make r renewal))
  | .record r renewal sid =>
    some ({ s with tracker := layoutSeqidRecordNew env.alloc s.tracker sid.other }.setJob j
      (.persist r renewal sid))
  | .make r renewal =>
    let sid : Stateid := { seqid := 1, other := { mdsId := cfg.mdsId, tail := s.counter } }
    some (({ s with
        counter := s.counter + 1
        tracker := layoutSeqidRecordNew env.alloc s.tracker sid.other }.issue j r sid).setJob j
      (.persist r renewal sid))
  | .persist r renewal sid =>
    if env.outcome = .unlisted then
      some ({ s with issued := settle j .dropped s.issued }.setJob j .done)
    else
      match layoutPersistGrant s.rows renewal (r.row sid env.dsIds) with
      | .error _ => none
      | .ok rows =>
        if env.outcome = .granted then
          some ({ s with
            rows
            issued := settle j .handed s.issued
            held := r.window sid :: s.held }.setJob j .done)
        else
          some ({ s with rows, issued := settle j .dropped s.issued }.setJob j
            (if env.outcome = GetOutcome.revoked then .undo r sid else .done))
  | .undo r sid => some ({ s with rows := layoutReturned s.rows sid.other r.fileid }.setJob j .done)
  | .done => none

/-- The seqid check of `op_layoutreturn`; an unknown stateid is accepted. -/
def layoutreturnCheck (tracker : SeqidTable) (sid : Stateid) : Except LayoutErr Unit :=
  match layoutSeqidPeek tracker sid.other with
  | none => .ok ()
  | some cur =>
    if sid.seqid < cur then .error .oldStateid
    else if cur < sid.seqid then .error .badStateid
    else .ok ()

def opLayoutreturn (s : LayoutSys) (clientid : Clientid) (fileid : Fileid) (sid : Stateid)
    (layoutType : UInt32) (returnType : ReturnType) : Except LayoutErr LayoutSys :=
  if layoutType ≠ layout4Nfsv41Files ∧ layoutType ≠ layout4FlexFiles then .error .notsupp
  else if returnType = .file then
    match layoutreturnCheck s.tracker sid with
    | .error e => .error e
    | .ok () =>
      .ok { s with
        rows := layoutReturned s.rows sid.other fileid
        tracker := layoutSeqidRemove s.tracker sid.other
        held := s.held.filter fun w => ¬ (w.clientid = clientid ∧ w.other = sid.other) }
  else .ok s

def layoutStep (cfg : LayoutCfg) (s : LayoutSys) : LayoutOp → Option LayoutSys
  | .layoutget clientid fileid sid a inode =>
    let renewal : Bool := sid.seqid ≠ 0 && (layoutSeqidPeek s.tracker sid.other).isSome
    match layoutgetPlan cfg a inode s.tracker renewal with
    | .error _ => some s
    | .ok plan => some { s with jobs := s.jobs ++ [.scan { clientid, fileid, sid, plan } renewal] }
  | .job j env =>
    match s.jobs[j]? with
    | none => none
    | some job => layoutJobStep cfg s j env job
  | .layoutreturn clientid fileid sid layoutType returnType =>
    match opLayoutreturn s clientid fileid sid layoutType returnType with
    | .error _ => some s
    | .ok t => some t
  | .layoutcommit _ _ _ => some s
  | .resize clientid fileid =>
    some { s with
      jobs := s.jobs ++
        [.recalling (layoutRecallByteRange s.rows s.tracker fileid clientid .rw 0 uint64MaxNat)
          none] }
  | .unlink fileid =>
    some { s with jobs := s.jobs ++ [.recalling (layoutRecallUnlink s.rows s.tracker fileid) none] }
  | .dsLost dsId =>
    some { s with jobs := s.jobs ++ [.recalling (layoutRecallForDs s.rows dsId) none] }
  | .restart seed =>
    if s.counter ≤ seed then
      some { s with
        tracker := [], counter := seed, jobs := [], issued := dropPending s.issued }
    else none

/-- A server that has not issued a layout yet. -/
def LayoutStart (s : LayoutSys) : Prop :=
  s.rows = [] ∧ s.tracker = [] ∧ s.jobs = [] ∧ s.issued = [] ∧ s.held = []

/-! ## A small server -/

/-- A server that grants one stripe of 64 KiB at a time. -/
def plainCfg : LayoutCfg :=
  { mdsId := 1, stripeUnit := 65536, grantMaxLength := 65536, grantMax_ge := LayoutCfg.grantMin_le
    serveLayouts := true, hpcServeLayouts := false, autoWidenLeaseOn4k := false }

/-- It has issued nothing. -/
def newLayoutServer : LayoutSys :=
  { rows := [], tracker := [], counter := 1, jobs := [], issued := [], held := [] }

theorem layoutStart_newLayoutServer : LayoutStart newLayoutServer :=
  ⟨rfl, rfl, rfl, rfl, rfl⟩

/-- An empty regular file. -/
def plainFile : MdsInode :=
  { fileid := 5, type := .reg, mode := 0o644, nlink := 1, uid := 0, gid := 0, size := 0
    atime := 0, mtime := 0, ctime := 0, change := 1, generation := 1, flags := 0
    parentFileid := 2, inlineDsId := 0, inlineFh := [] }

/-- The first stateid the server mints, with a seqid. -/
def firstSid (seqid : UInt32) : Stateid := { seqid, other := { mdsId := 1, tail := 1 } }

/-- A LAYOUTGET of a page of file 5. -/
def getPage (clientid : Clientid) (sid : Stateid) (offset : ℕ) : LayoutOp :=
  .layoutget clientid 5 sid
    { layoutType := layout4FlexFiles, offset, length := 4096, minlength := 4096 } (some plainFile)

/-- `n` steps of job `j` with everything going well; `recalls` says whether it recalls. -/
def runLayoutJob (j n : ℕ) (recalls : Bool) (outcome : GetOutcome) : List LayoutOp :=
  List.replicate n <| .job j
    { fail := false, recalls, backchannel := true, alloc := true, leasePrefix := none
      dsIds := [7], outcome }

end PnfsLattice
