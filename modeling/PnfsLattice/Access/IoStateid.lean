import PnfsLattice.Deleg.System
import PnfsLattice.Lock.Dispatch

/-!
# Which stateids admit I/O

`validate_io_stateid` and the operations that go through it. A stateid is looked up among
the opens, then among the lock owners, then among the delegations; each arm decides on
its own what it checks. The open arm compares the client, the file and the share mode.
The other two only ask whether the stateid is in the table.

COPY and CLONE call the validator twice, the first time with the saved filehandle put in
the place of the current one.
-/

namespace PnfsLattice

open Lib

/-! ## The validator -/

/-- The `required_access` of a call: `OPEN4_SHARE_ACCESS_READ` or `_WRITE`. -/
inductive IoAccess
  | read
  | write
deriving DecidableEq

/-- The share bit of an access. -/
def IoAccess.mask : IoAccess → UInt32
  | .read => shareAccessRead
  | .write => shareAccessWrite

/-- What `validate_io_stateid` reads of `struct compound_data`. Each table may be
missing. -/
structure IoCompound where
  clientid : Clientid
  currentFh : Fileid
  currentStateid : Option Stateid
  ot : Option OpenTable
  lt : Option LockTable
  dt : Option DelegTable

/-- The statuses of `validate_io_stateid` besides `NFS4_OK`. -/
inductive IoErr
  | badStateid
  | delegRevoked
  | openmode
deriving DecidableEq

/-- `compound_resolve_stateid`. -/
def IoCompound.resolve (cd : IoCompound) (sid : Stateid) : Except IoErr Stateid :=
  if compoundIsCurrentStateid sid then
    match cd.currentStateid with
    | none => .error .badStateid
    | some cur => .ok cur
  else .ok sid

def isAnonymousStateid (sid : Stateid) : Bool :=
  sid.seqid == 0 && sid.other == { mdsId := 0, tail := 0 }

def isReadBypassStateid (sid : Stateid) : Bool :=
  sid.seqid == 0xFFFFFFFF && sid.other == { mdsId := 0xFFFFFFFF, tail := 2 ^ 64 - 1 }

/-- The two special stateids. -/
def isSpecialStateid (sid : Stateid) : Bool := isAnonymousStateid sid || isReadBypassStateid sid

section

variable (dt : DelegTable) (other : Other)

/-- The walk of `deleg_stateid_exists`. -/
def delegByOther : Option DelegEntry :=
  dt.entries.find? fun e => e.stateid.other == other

def delegStateidExists : Bool := (delegByOther dt other).isSome

def delegIsRevoked : Bool :=
  dt.revoked.any fun r => r.other == other

end

def checkIoOpen (cd : IoCompound) (sid : Stateid) (access : IoAccess) (os : OpenState) :
    Except IoErr Unit :=
  if sid.seqid ≠ 0 ∧ sid.seqid ≠ os.stateid.seqid then .error .badStateid
  else if os.clientid ≠ cd.clientid then .error .badStateid
  else if os.fileid ≠ cd.currentFh then .error .badStateid
  else if os.shareAccess &&& access.mask = 0 then .error .openmode
  else .ok ()

/-- The arms for a stateid that names no open. -/
def checkIoOther (cd : IoCompound) (sid : Stateid) (access : IoAccess) : Except IoErr Unit :=
  if cd.lt.any (lockStateExists · sid.other) then .ok ()
  else if access = .read ∧ cd.dt.any (delegStateidExists · sid.other) then .ok ()
  else if cd.dt.any (delegIsRevoked · sid.other) then .error .delegRevoked
  else .error .badStateid

def validateIoStateid (cd : IoCompound) (stateid : Stateid) (access : IoAccess) :
    Except IoErr Unit :=
  match cd.resolve stateid with
  | .error e => .error e
  | .ok sid =>
    match cd.ot with
    | none => .ok ()
    | some ot =>
      if isSpecialStateid sid then .ok ()
      else match openStateFind ot sid with
        | none => checkIoOther cd sid access
        | some os => checkIoOpen cd sid access os

/-! ## The operations -/

/-- The operations that validate a stateid before they touch data. SETATTR does so when
the request carries one. -/
inductive IoReq
  | read (sid : Stateid)
  | write (sid : Stateid)
  | setattrSize (sid : Stateid)
  | allocate (sid : Stateid)
  | deallocate (sid : Stateid)
  | seek (sid : Stateid)
  | readPlus (sid : Stateid)
  | writeSame (sid : Stateid)
  | copy (src dst : Stateid)
  | clone (src dst : Stateid)
deriving DecidableEq

/-- A call of the validator: the filehandle it finds, the stateid and the access. -/
structure IoCheck where
  fh : Fileid
  sid : Stateid
  access : IoAccess

/-- The validator calls of an operation, in order. `savedFh` is the saved filehandle,
which `copy_validate_stateids` and `op_clone` swap in for the source. -/
def IoReq.checks (cd : IoCompound) (savedFh : Fileid) : IoReq → List IoCheck
  | .read sid | .seek sid | .readPlus sid => [⟨cd.currentFh, sid, .read⟩]
  | .write sid | .setattrSize sid | .allocate sid | .deallocate sid | .writeSame sid =>
    [⟨cd.currentFh, sid, .write⟩]
  | .copy src dst | .clone src dst => [⟨savedFh, src, .read⟩, ⟨cd.currentFh, dst, .write⟩]

/-- A call with its filehandle as the current one. -/
def IoCheck.run (cd : IoCompound) (k : IoCheck) : Except IoErr Unit :=
  validateIoStateid { cd with currentFh := k.fh } k.sid k.access

/-- The operation goes on to the data if every call answers `NFS4_OK`. -/
def ioReqAdmitted (cd : IoCompound) (savedFh : Fileid) (r : IoReq) : Except IoErr Unit :=
  (r.checks cd savedFh).forM (IoCheck.run cd)

/-! ## The state a stateid names -/

/-- An unrevoked open, lock or delegation. -/
inductive NamedState
  | opened (os : OpenState)
  | locked (ls : LockOwnerState)
  | delegated (e : DelegEntry)
deriving DecidableEq

namespace NamedState

def clientid : NamedState → Clientid
  | opened os => os.clientid
  | locked ls => ls.clientid
  | delegated e => e.clientid

def fileid : NamedState → Fileid
  | opened os => os.fileid
  | locked ls => ls.fileid
  | delegated e => e.fileid

/-- The access a state grants. A lock owner state keeps no link to the open it was made
from; the lock grants what some open of its client on its file does. -/
def Grants (ot : OpenTable) (access : IoAccess) : NamedState → Prop
  | opened os => os.shareAccess &&& access.mask ≠ 0
  | locked ls => ∃ os ∈ ot.opens,
      os.clientid = ls.clientid ∧ os.fileid = ls.fileid ∧ os.shareAccess &&& access.mask ≠ 0
  | delegated e => access = .read ∨ e.delegType = .write

instance (ot : OpenTable) (access : IoAccess) : DecidablePred (Grants ot access)
  | opened os => inferInstanceAs (Decidable (os.shareAccess &&& access.mask ≠ 0))
  | locked ls => inferInstanceAs (Decidable (∃ os ∈ ot.opens,
      os.clientid = ls.clientid ∧ os.fileid = ls.fileid ∧ os.shareAccess &&& access.mask ≠ 0))
  | delegated e => inferInstanceAs (Decidable (access = .read ∨ e.delegType = .write))

end NamedState

namespace IoCompound

variable (cd : IoCompound) (ot : OpenTable)

def lockNamed (other : Other) : Option LockOwnerState :=
  cd.lt.bind fun lt => findBySid lt (stateidStripe other) other

def delegNamed (other : Other) : Option DelegEntry := cd.dt.bind (delegByOther · other)

/-- The state a stateid names, in the order in which the tables are searched. -/
def named (other : Other) : Option NamedState :=
  match findByOther ot other, cd.lockNamed other with
  | some os, _ => some (.opened os)
  | none, some ls => some (.locked ls)
  | none, none => (cd.delegNamed other).map .delegated

/-- A state is the compound's client's, on its current file. -/
def Own (st : NamedState) : Prop := st.clientid = cd.clientid ∧ st.fileid = cd.currentFh
deriving Decidable

/-- The stateid names a state of the client on the current file that grants the access. -/
def Admissible (other : Other) (access : IoAccess) : Prop :=
  ∃ st ∈ cd.named ot other, cd.Own st ∧ st.Grants ot access
deriving Decidable

/-- What the lock and the delegation arm leave to the caller: a lock is the client's own on
the current file and comes with an open that grants the access, and so for a delegation
that is used to read. -/
def Vouched (access : IoAccess) : NamedState → Prop
  | .opened _ => True
  | .locked ls => cd.Own (.locked ls) ∧ (NamedState.locked ls).Grants ot access
  | .delegated e => access = .read → cd.Own (.delegated e)

instance (access : IoAccess) : DecidablePred (cd.Vouched ot access)
  | .opened _ => .isTrue trivial
  | .locked ls => inferInstanceAs (Decidable (cd.Own (.locked ls) ∧
      (NamedState.locked ls).Grants ot access))
  | .delegated e => inferInstanceAs (Decidable (access = .read → cd.Own (.delegated e)))

variable {cd ot} {other : Other}

theorem named_of_open {os} (h : findByOther ot other = some os) :
    cd.named ot other = some (.opened os) := by
  simp [named, h]

theorem named_of_deleg (ho : findByOther ot other = none) (hl : cd.lockNamed other = none) :
    cd.named ot other = (cd.delegNamed other).map .delegated := by
  simp [named, ho, hl]

theorem any_lockStateExists :
    cd.lt.any (lockStateExists · other) = (cd.lockNamed other).isSome := by
  cases h : cd.lt <;> simp [lockNamed, lockStateExists, h]

theorem any_delegStateidExists :
    cd.dt.any (delegStateidExists · other) = (cd.delegNamed other).isSome := by
  cases h : cd.dt <;> simp [delegNamed, delegStateidExists, h]

end IoCompound

/-! ## The arms -/

section Arms

variable {cd : IoCompound} {ot : OpenTable} {sid : Stateid} {access : IoAccess}

theorem checkIoOpen_eq_ok {os} : checkIoOpen cd sid access os = .ok () ↔
      (sid.seqid = 0 ∨ sid.seqid = os.stateid.seqid) ∧ cd.Own (.opened os) ∧
        (NamedState.opened os).Grants ot access := by
  unfold checkIoOpen IoCompound.Own NamedState.Grants NamedState.clientid NamedState.fileid
  split_ifs <;> grind

theorem checkIoOther_eq_ok : checkIoOther cd sid access = .ok () ↔
      (cd.lockNamed sid.other).isSome ∨ access = .read ∧ (cd.delegNamed sid.other).isSome := by
  unfold checkIoOther
  rw [IoCompound.any_lockStateExists, IoCompound.any_delegStateidExists]
  split_ifs <;> grind

/-- Without an open, the stateid is admitted exactly on the presence of its state, so the
admission is sound exactly when that state is vouched for. -/
theorem checkIoOther_sound_iff (hos : findByOther ot sid.other = none) :
    (checkIoOther cd sid access = .ok () → cd.Admissible ot sid.other access) ↔
      ∀ st ∈ cd.named ot sid.other, cd.Vouched ot access st := by
  rw [checkIoOther_eq_ok]
  cases hl : cd.lockNamed sid.other with
  | some => simp [IoCompound.Admissible, IoCompound.Vouched, IoCompound.named, hos, hl]
  | none =>
    cases hd : cd.delegNamed sid.other with
    | none => simp [IoCompound.named_of_deleg hos hl, hd]
    | some e =>
      have hn : cd.named ot sid.other = some (.delegated e) := by
        rw [IoCompound.named_of_deleg hos hl, hd, Option.map_some]
      constructor
      · intro h st hst
        cases hn.symm.trans hst
        intro hread
        obtain ⟨_, hst, hown, -⟩ := h (.inr ⟨hread, rfl⟩)
        cases hn.symm.trans hst
        exact hown
      · rintro h (hsome | ⟨hread, -⟩)
        · cases hsome
        · exact ⟨_, hn, h _ hn hread, .inl hread⟩

end Arms

/-! ## Soundness of the validator -/

/-- What is left to the caller of one validator call, with its filehandle as the current
one. -/
def IoCheck.Vouched (cd : IoCompound) (ot : OpenTable) (k : IoCheck) : Prop :=
  ∀ sid, cd.resolve k.sid = .ok sid →
    ∀ st ∈ cd.named ot sid.other,
      ({ cd with currentFh := k.fh } : IoCompound).Vouched ot k.access st

/-- A call that was admitted on an ordinary stateid rests on state of the client on the
file of the call. -/
def IoCheck.Sound (cd : IoCompound) (ot : OpenTable) (k : IoCheck) : Prop :=
  ∀ sid, cd.resolve k.sid = .ok sid → isSpecialStateid sid = false → k.run cd = .ok () →
    ({ cd with currentFh := k.fh } : IoCompound).Admissible ot sid.other k.access

variable {cd : IoCompound} {ot : OpenTable}

theorem validate_sound_iff {stateid sid access} (hot : cd.ot = some ot)
    (hsid : cd.resolve stateid = .ok sid) (hord : isSpecialStateid sid = false) :
    (validateIoStateid cd stateid access = .ok () → cd.Admissible ot sid.other access) ↔
      ∀ st ∈ cd.named ot sid.other, cd.Vouched ot access st := by
  simp only [validateIoStateid, hsid, hot, hord, Bool.false_eq_true, if_false, openStateFind]
  cases hos : findByOther ot sid.other with
  | none => exact checkIoOther_sound_iff hos
  | some os =>
    refine iff_of_true (fun h => ⟨.opened os, IoCompound.named_of_open hos,
      (checkIoOpen_eq_ok.mp h).2⟩) fun _ hst => ?_
    rw [IoCompound.named_of_open hos] at hst
    cases hst
    trivial

/-- The current filehandle plays no part in what a stateid stands for. -/
theorem IoCheck.sound_of_vouched {k : IoCheck} (hot : cd.ot = some ot) (h : k.Vouched cd ot) :
    k.Sound cd ot := by
  intro sid hsid hord hrun
  have hiff := @validate_sound_iff { cd with currentFh := k.fh } ot k.sid sid k.access hot hsid hord
  exact hiff.mpr (h sid hsid) hrun

theorem run_of_ioReqAdmitted {savedFh r} (h : ioReqAdmitted cd savedFh r = .ok ()) :
    ∀ k ∈ r.checks cd savedFh, k.run cd = .ok () := by
  have key : ∀ ks : List IoCheck, ks.forM (IoCheck.run cd) = .ok () →
      ∀ k ∈ ks, k.run cd = .ok () := by
    intro ks
    induction ks with
    | nil => simp
    | cons k _ ih =>
      intro hks
      rw [List.forM_eq_forM, List.forM_cons] at hks
      cases hk : k.run cd with
      | error => rw [hk] at hks; cases hks
      | ok =>
        rw [hk] at hks
        exact List.forall_mem_cons.mpr ⟨hk, ih hks⟩
  exact key _ h

/-- The validator admits an ordinary stateid only on an open, lock or delegation of the
client on the current file that grants the access, exactly when a lock or delegation that
the stateid names is such a one; and an operation whose stateids are so vouched for acts
on no other state. -/
theorem io_admitted_iff (cd : IoCompound) (ot : OpenTable) (hot : cd.ot = some ot) :
    (∀ stateid sid access, cd.resolve stateid = .ok sid → isSpecialStateid sid = false →
      ((validateIoStateid cd stateid access = .ok () → cd.Admissible ot sid.other access) ↔
        ∀ st ∈ cd.named ot sid.other, cd.Vouched ot access st)) ∧
    ∀ savedFh r, ioReqAdmitted cd savedFh r = .ok () →
      (∀ k ∈ r.checks cd savedFh, k.Vouched cd ot) →
      ∀ k ∈ r.checks cd savedFh, ∀ sid, cd.resolve k.sid = .ok sid →
        isSpecialStateid sid = false →
        ({ cd with currentFh := k.fh } : IoCompound).Admissible ot sid.other k.access := by
  refine ⟨fun _ _ _ => validate_sound_iff hot, ?_⟩
  intro _ r hadm hvouched k hk sid hsid hord
  exact IoCheck.sound_of_vouched hot (hvouched k hk) sid hsid hord
    (run_of_ioReqAdmitted hadm k hk)

/-- The open of client 12 on file 5, for reading and writing. -/
def lockedOpens : OpenTable :=
  (openPublish (openTableInit 1 7 false 0 false) true
    { clientid := 12, openOwner := [1], fileid := 5, shareAccess := shareAccessBoth,
      shareDeny := 0 }).table

/-- Client 12 locks the first bytes of file 5. -/
def lockedOwners : LockTable :=
  (lockAcquire (lockTableInit 1 40 false 0) {}
    { fileid := 5, lockType := 2, offset := 0, length := 10, clientid := 12, owner := [1],
      openStateid := none, newLockOwner := true, lockStateid := ⟨0, ⟨0, 0⟩⟩ }).1

/-- Client 12 holds a delegation on file 5. -/
def lockedDelegs : DelegTable := (delegGrant (delegTableInit 1) true 12 5 .read).1

def lockedSid : Stateid := ⟨1, ⟨1, 5 * 2 ^ 56 + 40⟩⟩

/-- A compound of a client on a file over these tables. -/
def lockedCompound (clientid : Clientid) (currentFh : Fileid) : IoCompound :=
  { clientid, currentFh, currentStateid := none, ot := some lockedOpens, lt := some lockedOwners
    dt := some lockedDelegs }

/-- The lock of client 12 admits its own WRITE to file 5. -/
theorem io_admitted_own_lock : (lockedCompound 12 5).ot = some lockedOpens ∧
      validateIoStateid (lockedCompound 12 5) lockedSid .write = .ok () ∧
      (lockedCompound 12 5).Admissible lockedOpens lockedSid.other .write := by
  have hadm : validateIoStateid (lockedCompound 12 5) lockedSid .write = .ok () := by decide +kernel
  refine ⟨rfl, hadm, ?_⟩
  exact ((io_admitted_iff (lockedCompound 12 5) lockedOpens rfl).1 lockedSid lockedSid .write
    (by decide +kernel) (by decide +kernel)).mpr (by decide +kernel) hadm

/-- The lock that client 12 holds on file 5 admits client 99's WRITE to file 8, and its
delegation admits client 99's READ, with no open of client 99 anywhere. -/
theorem foreign_lock_admits_write : (lockedCompound 99 8).ot = some lockedOpens ∧
      validateIoStateid (lockedCompound 99 8) lockedSid .write = .ok () ∧
      ¬(lockedCompound 99 8).Admissible lockedOpens lockedSid.other .write ∧
      validateIoStateid (lockedCompound 99 8) ⟨1, ⟨1, 1⟩⟩ .read = .ok () ∧
      ¬(lockedCompound 99 8).Admissible lockedOpens ⟨1, 1⟩ .read := by
  refine ⟨rfl, ?_, ?_, ?_, ?_⟩ <;> decide +kernel

end PnfsLattice
