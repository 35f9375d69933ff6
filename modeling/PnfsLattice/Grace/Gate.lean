import PnfsLattice.Access.Effects
import PnfsLattice.Grace.Period

/-!
# Operations during grace

What stands between an operation and the state while the grace period lasts: the allow-list
of `dispatch_op`, and behind it the checks of OPEN, LOCK and RECLAIM_COMPLETE, each at its
own depth of the handler. The handlers themselves are those of the access model; an
operation that the allow-list refuses and that is not modelled there has any effect at all
when it is let through.

Each operation has a clock of its own, from which its calls of `grace_is_active` read in
turn.
-/

namespace PnfsLattice

open Lib

/-! ## The allow-list -/

/-- The operations that `dispatch_op` knows. -/
inductive Opcode
  | sequence | exchangeId | createSession | destroySession | destroyClientid | bindConnToSession
  | backchannelCtl | reclaimComplete | putrootfh | putfh | getfh | savefh | restorefh | lookup
  | lookupp | getattr | access | readlink | secinfo | secinfoNoName | verify | nverify | testStateid
  | freeStateid | openFile | close | openDowngrade | openattr | delegreturn | lock | lockt | locku
  | setattr | create | remove | rename | link | readdir | read | write | commit | layoutget
  | getdeviceinfo | layoutreturn | layoutcommit | layouterror | layoutstats | allocate | deallocate
  | copy | copyNotify | clone | ioAdvise | offloadCancel | offloadStatus | readPlus | seek
  | writeSame | getxattr | setxattr | listxattrs | removexattr | getDirDelegation
deriving DecidableEq

/-- The switch of `dispatch_op` during grace. -/
def graceAllows : Opcode → Bool
  | .sequence | .exchangeId | .createSession | .destroySession | .putrootfh | .putfh | .getfh
  | .getattr | .savefh | .restorefh | .openFile | .destroyClientid | .testStateid | .freeStateid
  | .bindConnToSession | .backchannelCtl | .lock | .lockt | .locku | .openDowngrade | .access
  | .lookup | .lookupp | .readlink | .commit | .secinfo | .delegreturn | .reclaimComplete
  | .getxattr | .listxattrs => true
  | _ => false

/-- The opcode of an operation of the access model. -/
def AccOp.opcode : AccOp → Opcode
  | .putfh _ => .putfh
  | .savefh => .savefh
  | .restorefh => .restorefh
  | .lookup _ => .lookup
  | .lookupp => .lookupp
  | .openattr => .openattr
  | .create _ _ _ => .create
  | .remove _ => .remove
  | .rename _ _ _ => .rename
  | .link _ => .link
  | .readdir _ _ => .readdir
  | .setattr _ _ _ => .setattr
  | .setxattr _ _ _ _ => .setxattr
  | .removexattr _ => .removexattr
  | .getxattr _ => .getxattr
  | .listxattrs _ _ => .listxattrs
  | .layoutcommit _ _ _ => .layoutcommit
  | .write _ _ _ _ => .write
  | .writeSame _ _ _ _ _ => .writeSame
  | .allocate _ _ _ _ => .allocate
  | .deallocate _ _ _ _ => .deallocate
  | .copy _ _ _ _ _ _ => .copy
  | .clone _ _ _ _ _ _ => .clone
  | .read _ _ _ _ => .read
  | .seek _ _ _ _ => .seek
  | .readPlus _ _ _ _ _ => .readPlus
  | .openFile _ => .openFile
  | .close _ => .close
  | .openDowngrade _ _ _ => .openDowngrade
  | .delegreturn _ => .delegreturn
  | .lock _ _ _ _ => .lock
  | .locku _ _ _ _ => .locku

/-- The allowed operations that only read the state modelled here. -/
def Opcode.reads : Opcode → Bool
  | .putrootfh | .getfh | .getattr | .access | .readlink | .lockt | .testStateid | .commit
  | .secinfo => true
  | _ => false

/-- The operations on sessions and connections. -/
def Opcode.ofSession : Opcode → Bool
  | .sequence | .exchangeId | .createSession | .destroySession | .destroyClientid
  | .bindConnToSession | .backchannelCtl => true
  | _ => false

/-! ## The server -/

/-- A record of the session table: the client and its `reclaim_complete_done`. -/
structure SessionClient where
  clientid : Clientid
  reclaimCompleteDone : Bool
deriving DecidableEq

/-- The server. `recorded` lists the clients with which the period was entered, `completed` those
whose RECLAIM_COMPLETE was answered `NFS4_OK` since, and `deadline` is when its time is up. -/
structure GraceSys where
  store : AccStore
  clients : List SessionClient
  grace : GraceState
  recorded : List Clientid
  completed : List Clientid
  deadline : ℤ

/-- The answers told apart here. -/
inductive GraceAnswer
  | grace
  | noGrace
  | reclaimBad
  | completeAlready
  | staleClientid
  | notsupp
  | ok
  | acc (res : Except NfsErr AccReply)
  | lock (res : Except LockOpErr Stateid)

/-- An operation. For those the allow-list refuses, `rest` takes any effect; an operation on
sessions leaves any session table. -/
inductive GraceOp
  | acc (op : AccOp)
  | openPrevious
  | openUnsupported
  | reading (code : {c : Opcode // c.reads = true})
  | session (code : {c : Opcode // c.ofSession = true}) (clients : List SessionClient)
  | freeStateid (sid : Stateid)
  | reclaimComplete (oneFs : Bool)
  | rest (code : {c : Opcode // graceAllows c = false}) (effect : AccStore → AccStore)

/-- The opcode that the allow-list looks at. -/
def GraceOp.opcode : GraceOp → Opcode
  | .acc op => op.opcode
  | .openPrevious | .openUnsupported => .openFile
  | .reading code | .session code _ => code
  | .freeStateid _ => .freeStateid
  | .reclaimComplete _ => .reclaimComplete
  | .rest code _ => code

/-- `session_client_has_reclaimed`: an unknown client counts as one that has. -/
def GraceSys.hasReclaimed (s : GraceSys) (clientid : Clientid) : Bool :=
  (s.clients.find? fun c => c.clientid == clientid).all SessionClient.reclaimCompleteDone

/-! ## Handlers -/

/-- `op_open` of a claim other than `CLAIM_PREVIOUS`: the grace check comes after the create. -/
def openInGrace (now : ℕ) (s : AccStore) (cd : AccCompound) (a : OpenReq) (hasReclaimed : Bool)
    (g : GraceState) (time : ℤ) : AccStore × GraceState × GraceAnswer :=
  match cd.currentFh with
  | none => (s, g, .acc (.error .nofilehandle))
  | some fh =>
    if cd.clientid ≠ 0 ∧ !hasReclaimed then (s, g, .grace)
    else match openTarget now s cd fh a with
      | .error e => (s, g, .acc (.error e))
      | .ok t =>
        if t.ino.type ≠ .reg then (s, g, .acc (.error .isdir))
        else if (graceIsActive g time).2 then
          ((t.created.toList.map fun c => .ns (.create c)).foldl (applyAct now) s,
            (graceIsActive g time).1, .grace)
        else ((planOpen now s cd a).run (applyAct now) s, (graceIsActive g time).1,
          .acc (planOpen now s cd a).res)

/-- The LOCK case, with its two readings of the clock. -/
def lockInGrace (s : AccStore) (cd : AccCompound) (alloc retry : LockAlloc)
    (leaseExpired : Clientid → Bool) (a : ArgLock) (g : GraceState) (time time' : ℤ) :
    AccStore × GraceState × GraceAnswer :=
  match cd.currentFh with
  | none => (s, g, .lock (.error .nofilehandle))
  | some _ =>
    if (graceIsActive g time).2 && !a.reclaim then (s, (graceIsActive g time).1, .grace)
    else
      let second := graceIsActive (graceIsActive g time).1 time'
      let r := opLock s.lt { s.lockCompound cd leaseExpired with graceActive := second.2 }
        alloc retry a
      ({ s with lt := r.1 }, second.1, .lock r.2)

def delegFreeRevoked (dt : DelegTable) (other : Other) : Option DelegTable :=
  if dt.revoked.any fun e => e.other == other then
    some { dt with
      revoked := dt.revoked.eraseP fun e => e.other == other
      pending := dt.pending.filter fun p => p.stateid.other != other }
  else none

/-- The FREE_STATEID case, by stateid alone. -/
def freeStateid (s : AccStore) (cd : AccCompound) (sid : Stateid) : AccStore × GraceAnswer :=
  match compoundResolveStateid (s.lockCompound cd fun _ => false) sid with
  | .error e => (s, .lock (.error e))
  | .ok sid =>
    freeStateidProbes ((openStateFind s.ot sid).map fun _ => (s, .lock (.error .locksHeld)))
      (match lockFreeStateid s.lt sid.other with
        | (lt, .ok ()) => some ({ s with lt }, .ok)
        | (_, .error .locksHeld) => some (s, .lock (.error .locksHeld))
        | (_, .error _) => none)
      ((delegFreeRevoked s.dt sid.other).map fun dt => ({ s with dt }, .ok))
      ((s.layouts.find? fun row => row.other == sid.other).map fun _ =>
        ({ s with layouts := s.layouts.eraseP fun row => row.other == sid.other }, .ok))
      (s, .lock (.error .badStateid))

variable (b : Bsearch) (s : GraceSys) (cd : AccCompound)

/-- `op_reclaim_complete`, with `session_client_reclaim_complete`. -/
def reclaimComplete (oneFs : Bool) (time : ℤ) : GraceSys × GraceAnswer :=
  if oneFs then (s, .ok)
  else match s.clients.find? fun c => c.clientid == cd.clientid with
    | none => (s, .staleClientid)
    | some c =>
      if c.reclaimCompleteDone then (s, .completeAlready)
      else
        let active := graceIsActive s.grace time
        ({ s with
            clients := modifyFirst (fun c => c.clientid == cd.clientid)
              (fun c => { c with reclaimCompleteDone := true }) s.clients
            grace := if active.2 then (graceClientReclaimed b active.1 cd.clientid).1 else active.1
            completed := cd.clientid :: s.completed }, .ok)

/-- The handlers; `clk` is the operation's clock, whose reading 0 is the allow-list's. -/
def graceHandle (now : ℕ) (clk : ℕ → ℤ) : GraceOp → GraceSys × GraceAnswer
  | .acc (.openFile a) =>
    let (store, grace, r) :=
      openInGrace now s.store cd a (s.hasReclaimed cd.clientid) s.grace (clk 1)
    ({ s with store, grace }, r)
  | .acc (.lock alloc retry leaseExpired a) =>
    let (store, grace, r) :=
      lockInGrace s.store cd alloc retry leaseExpired a s.grace (clk 1) (clk 2)
    ({ s with store, grace }, r)
  | .acc op => ({ s with store := accStep now s.store cd op }, .acc (accPlan now s.store cd op).res)
  | .openPrevious =>
    match cd.currentFh with
    | none => (s, .acc (.error .nofilehandle))
    | some _ =>
      ({ s with grace := (graceIsActive s.grace (clk 1)).1 },
        if (graceIsActive s.grace (clk 1)).2 then .reclaimBad else .noGrace)
  | .openUnsupported =>
    match cd.currentFh with
    | none => (s, .acc (.error .nofilehandle))
    | some _ => (s, if cd.clientid ≠ 0 ∧ !s.hasReclaimed cd.clientid then .grace else .notsupp)
  | .reading _ => (s, .ok)
  | .session _ clients => ({ s with clients }, .ok)
  | .freeStateid sid =>
    let (store, r) := freeStateid s.store cd sid
    ({ s with store }, r)
  | .reclaimComplete oneFs => reclaimComplete b s cd oneFs (clk 1)
  | .rest _ effect => ({ s with store := effect s.store }, .ok)

def dispatchOp (now : ℕ) (clk : ℕ → ℤ) (op : GraceOp) : GraceSys × GraceAnswer :=
  let gate := graceIsActive s.grace (clk 0)
  if gate.2 && !graceAllows op.opcode then ({ s with grace := gate.1 }, .grace)
  else graceHandle b { s with grace := gate.1 } cd now clk op

/-! ## The machine -/

/-- What happens: a period is entered, an operation is dispatched, or something in the
background changes the state or the session table. -/
inductive GraceEvent
  | enter (durationSec : UInt32) (now : ℤ)
  | enterWithClients (durationSec : UInt32) (recs : List Clientid) (alloc : Bool) (now : ℤ)
  | op (cd : AccCompound) (now : ℕ) (clk : ℕ → ℤ) (op : GraceOp)
  | background (store : AccStore) (clients : List SessionClient)

/-- A period entered while another lasts does not take from what was promised to the clients of
the first. -/
def GraceSys.entered (s : GraceSys) (g : GraceState) (recs : List Clientid) : GraceSys :=
  let stop := g.startTime + g.durationSec.toNat
  if (graceIsActive s.grace g.startTime).2 then
    { s with grace := g, recorded := s.recorded ++ recs, deadline := max s.deadline stop }
  else { s with grace := g, recorded := recs, completed := [], deadline := stop }

def graceStep (b : Bsearch) (s : GraceSys) : GraceEvent → Option GraceSys
  | .enter durationSec now => some (s.entered (graceEnter durationSec now) [])
  | .enterWithClients durationSec recs alloc now =>
    some (s.entered (graceEnterWithClients durationSec recs alloc now) recs)
  | .op cd now clk op => some (dispatchOp b s cd now clk op).1
  | .background store clients => some { s with store, clients }

/-- The server after `grace_init`. -/
def GraceStart (s : GraceSys) : Prop := s.grace = graceInit

end PnfsLattice
