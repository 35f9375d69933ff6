import PnfsLattice.Deleg.Table
import PnfsLattice.Open.Window

/-!
# Concurrent OPENs and delegations

The delegation section of `op_open`. An OPEN runs through critical sections of the open
table and of the delegation table, and other threads run between them: `open_state_open`
(on a share conflict once more, after the opens of expired clients were revoked),
`deleg_recall_file`, `open_state_has_other_writer`, `deleg_check_conflict` and
`deleg_grant`. Each is one step of a thread here, except that `open_state_open` keeps the
unlocked persist window it has in `OpenSys`. DELEGRETURN, and the other actions on the open
table, are steps of their own.

For each grant the ghost list `grants` keeps which opens of other clients had WRITE access
to the file when the delegation was granted.
-/

namespace PnfsLattice

open Lib List Option

/-! ## Hints -/

/-- `OPEN4_SHARE_ACCESS_READ`. -/
def shareAccessRead : UInt32 := 1

/-- `OPEN4_SHARE_ACCESS_WANT_DELEG_MASK`. -/
def wantDelegMask : UInt32 := 0xFF00

/-- `OPEN4_SHARE_ACCESS_WANT_READ_DELEG`. -/
def wantReadDeleg : UInt32 := 0x0100

/-- `OPEN4_SHARE_ACCESS_WANT_WRITE_DELEG`. -/
def wantWriteDeleg : UInt32 := 0x0200

/-- `OPEN4_SHARE_ACCESS_WANT_NO_DELEG`. -/
def wantNoDeleg : UInt32 := 0x0400

/-- `OPEN4_SHARE_ACCESS_WANT_CANCEL`. -/
def wantCancel : UInt32 := 0x0500

/-- The client asked for no delegation. -/
def declinesDeleg (shareAccess : UInt32) : Bool :=
  let hint := shareAccess &&& wantDelegMask
  hint == wantNoDeleg || hint == wantCancel

/-- The type of delegation `op_open` picks from the hint and the access bits. -/
def delegTypeFor (shareAccess : UInt32) : Option DelegType :=
  let hint := shareAccess &&& wantDelegMask
  let wantRead := shareAccess &&& shareAccessBoth &&& shareAccessRead != 0
  let wantWrite := shareAccess &&& shareAccessBoth &&& shareAccessWrite != 0
  if hint = wantReadDeleg then if wantRead then some .read else none
  else if hint = wantWriteDeleg then if wantWrite then some .write else none
  else if wantWrite then some .write
  else if wantRead then some .read
  else none

/-! ## The system -/

/-- The section an OPEN is about to enter. `retry` marks the second try of
`open_state_open`; in the window it waits for its durable write. -/
inductive OpenPc
  | openState (retry : Bool)
  | revokeExpired
  | window (other : Other)
  | recallFile
  | probeWriter
  | probeConflict
  | grant (delegType : DelegType)
deriving DecidableEq

structure OpenThread where
  tid : ℕ
  args : OpenArgs
  pc : OpenPc
deriving DecidableEq

/-- What is remembered of a grant: its stateid, and the opens of other clients that then
had WRITE access to the file. -/
structure Grant where
  other : Other
  writersBefore : List Other
deriving DecidableEq

/-- The open table with its windows, the delegation table, whether a session table is
wired, the OPENs in progress, and the ghost list of grants. -/
structure DelegSys where
  opens : OpenSys
  dt : DelegTable
  st : Bool
  threads : List OpenThread
  grants : List Grant
deriving DecidableEq

def DelegSys.leave (s : DelegSys) (t : OpenThread) : DelegSys :=
  { s with threads := s.threads.filter fun u => u.tid != t.tid }

/-- An OPEN moves on to another section. -/
def DelegSys.goto (s : DelegSys) (t : OpenThread) (pc : OpenPc) : DelegSys :=
  { s with threads := { t with pc } :: s.threads.filter fun u => u.tid != t.tid }

/-- The OPEN `tid`. -/
def DelegSys.thread (s : DelegSys) (tid : ℕ) : Option OpenThread :=
  s.threads.find? fun t => t.tid == tid

def OpenState.writes (os : OpenState) : Bool := os.shareAccess &&& shareAccessWrite != 0

/-- The opens of other clients with WRITE access to the file. -/
def otherWriters (ot : OpenTable) (fileid : Fileid) (clientid : Clientid) : List OpenState :=
  ot.opens.filter fun os => os.fileid == fileid && os.clientid != clientid && os.writes

/-! ## The sections of an OPEN -/

section

variable (s : DelegSys) (t : OpenThread)

/-- The first critical section of `open_state_open`. -/
def publishSection (retry alloc : Bool) : Option DelegSys :=
  let r := openPublish s.opens.ot alloc t.args
  (openStep s.opens (.publish alloc t.args)).map fun opens =>
    match r.status, r.window with
    | .ok _, none => { s with opens }.goto t .recallFile
    | .ok _, some w => { s with opens }.goto t (.window w.row.stateidOther)
    | .error .shareDenied, _ =>
      if s.st && !retry then { s with opens }.goto t .revokeExpired else { s with opens }.leave t
    | .error _, _ => { s with opens }.leave t

/-- The second critical section of `open_state_open`, after the durable write. -/
def commitSection (other : Other) (delOk : Bool) : Option DelegSys :=
  (s.opens.inflight.find? (hasKey other)).bind fun f => f.put.bind fun pst =>
    (openStep s.opens (.commit other delOk)).map fun opens =>
      match (openCommit s.opens.ot f.write pst).status with
      | .ok _ => { s with opens }.goto t .recallFile
      | .error _ => { s with opens }.leave t

/-- `open_state_revoke_expired_for_file`; the OPEN is tried again if it removed any. -/
def revokeSection (leaseExpired : Clientid → Bool) : Option DelegSys :=
  (openStep s.opens (.revokeExpiredForFile leaseExpired t.args.fileid)).map fun opens =>
    if opens.ot.opens.length < s.opens.ot.opens.length then
      { s with opens }.goto t (.openState true)
    else { s with opens }.leave t

/-- `deleg_recall_file`. Without a session table, or if the client wants no delegation,
the OPEN is done. -/
def recallSection (lostRevoked lostPending : List Other) : DelegSys :=
  let dt := delegRecallFile s.dt t.args.fileid t.args.clientid lostRevoked lostPending
  if s.st && !declinesDeleg t.args.shareAccess then { s with dt }.goto t .probeWriter
  else { s with dt }.leave t

/-- `open_state_has_other_writer`. -/
def writerSection : DelegSys :=
  if openStateHasOtherWriter s.opens.ot t.args.fileid t.args.clientid then s.leave t
  else s.goto t .probeConflict

/-- `deleg_check_conflict`, and the choice of the type. -/
def conflictSection : DelegSys :=
  if delegCheckConflict s.dt t.args.fileid t.args.clientid then s.leave t
  else match delegTypeFor t.args.shareAccess with
    | none => s.leave t
    | some delegType => s.goto t (.grant delegType)

/-- `deleg_grant`. -/
def grantSection (delegType : DelegType) (alloc : Bool) : DelegSys :=
  match delegGrant s.dt alloc t.args.clientid t.args.fileid delegType with
  | (dt, none) => { s with dt }.leave t
  | (dt, some stateid) =>
    let writersBefore := (otherWriters s.opens.ot t.args.fileid t.args.clientid).map
      fun os => os.stateid.other
    { s with dt, grants := ⟨stateid.other, writersBefore⟩ :: s.grants }.leave t

end

/-! ## Steps -/

/-- One action: an OPEN arrives or passes a section, a DELEGRETURN, or another action on
the open table. -/
inductive DelegOp
  | arrive (tid : ℕ) (args : OpenArgs)
  | publish (tid : ℕ) (alloc : Bool)
  | commit (tid : ℕ) (delOk : Bool)
  | revoke (tid : ℕ) (leaseExpired : Clientid → Bool)
  | recallFile (tid : ℕ) (lostRevoked lostPending : List Other)
  | probeWriter (tid : ℕ)
  | probeConflict (tid : ℕ)
  | grant (tid : ℕ) (alloc : Bool)
  | delegreturn (stateid : Stateid) (clientid : Clientid)
  | table (op : OpenOp)

/-- The actions on the open table that are not sections of an OPEN. -/
def OpenOp.standsAlone : OpenOp → Bool
  | .publish _ _ | .commit _ _ => false
  | _ => true

/-- One step; a section is only entered by an OPEN that is about to. -/
def delegStep (s : DelegSys) : DelegOp → Option DelegSys
  | .arrive tid args =>
    if (s.thread tid).isSome then none
    else some { s with threads := ⟨tid, args, .openState false⟩ :: s.threads }
  | .publish tid alloc => (s.thread tid).bind fun t =>
    match t.pc with
    | .openState retry => publishSection s t retry alloc
    | _ => none
  | .commit tid delOk => (s.thread tid).bind fun t =>
    match t.pc with
    | .window other => commitSection s t other delOk
    | _ => none
  | .revoke tid leaseExpired => (s.thread tid).bind fun t =>
    if t.pc = .revokeExpired then revokeSection s t leaseExpired else none
  | .recallFile tid lostRevoked lostPending => (s.thread tid).bind fun t =>
    if t.pc = .recallFile then some (recallSection s t lostRevoked lostPending) else none
  | .probeWriter tid => (s.thread tid).bind fun t =>
    if t.pc = .probeWriter then some (writerSection s t) else none
  | .probeConflict tid => (s.thread tid).bind fun t =>
    if t.pc = .probeConflict then some (conflictSection s t) else none
  | .grant tid alloc => (s.thread tid).bind fun t =>
    match t.pc with
    | .grant delegType => some (grantSection s t delegType alloc)
    | _ => none
  | .delegreturn stateid clientid => some { s with dt := delegReturn s.dt stateid clientid }
  | .table op =>
    if op.standsAlone then (openStep s.opens op).map fun opens => { s with opens } else none

/-- Empty tables and no OPEN in progress. -/
def delegSysInit (ot : OpenTable) (st : Bool) : DelegSys :=
  { opens := openSysInit ot, dt := delegTableInit ot.mdsId, st, threads := [], grants := [] }

/-- The states a server starts in. -/
def DelegInit (s : DelegSys) : Prop :=
  ∃ mdsId seed cat bootEpoch skip st,
    s = delegSysInit (openTableInit mdsId seed cat bootEpoch skip) st

/-! ## What one step does -/

/-- The OPEN has passed `open_state_has_other_writer`. -/
def OpenThread.probed (t : OpenThread) : Bool :=
  match t.pc with
  | .probeConflict | .grant _ => true
  | _ => false

/-- No OPEN among `threads` has passed the probe since `s`. -/
def NoneProbed (s : DelegSys) (threads : List OpenThread) : Prop :=
  ∀ u ∈ threads, u ∈ s.threads ∨ u.probed = false

inductive DelegEffect (s : DelegSys) : DelegOp → DelegSys → Prop
  | publish {tid alloc th opens threads} (hth : s.thread tid = some th)
      (hstep : openStep s.opens (.publish alloc th.args) = some opens)
      (hthreads : NoneProbed s threads) :
      DelegEffect s (.publish tid alloc) { s with opens, threads }
  | opens {op oop opens threads} (hno : ∀ alloc a, oop ≠ .publish alloc a)
      (hstep : openStep s.opens oop = some opens) (hthreads : NoneProbed s threads) :
      DelegEffect s op { s with opens, threads }
  | quiet {op dt threads} (hsub : dt.entries.Sublist s.dt.entries)
      (hthreads : NoneProbed s threads) : DelegEffect s op { s with dt, threads }
  | probeWriter {tid th} (hth : s.thread tid = some th)
      (hnone : openStateHasOtherWriter s.opens.ot th.args.fileid th.args.clientid = false) :
      DelegEffect s (.probeWriter tid) (s.goto th .probeConflict)
  | probeConflict {tid th delegType} (hth : s.thread tid = some th) (hpc : th.pc = .probeConflict)
      (hnone : delegCheckConflict s.dt th.args.fileid th.args.clientid = false) :
      DelegEffect s (.probeConflict tid) (s.goto th (.grant delegType))
  | grant {tid alloc th delegType} (hth : s.thread tid = some th) (hpc : th.pc = .grant delegType) :
      DelegEffect s (.grant tid alloc)
        ({ s with
          dt := { s.dt with
            entries := ⟨makeDelegStateid s.dt, th.args.clientid, th.args.fileid, delegType⟩ ::
              s.dt.entries
            sidCounter := s.dt.sidCounter + 1 }
          grants := ⟨(makeDelegStateid s.dt).other,
            (otherWriters s.opens.ot th.args.fileid th.args.clientid).map
              fun os : OpenState => os.stateid.other⟩ :: s.grants }.leave th)

theorem noneProbed_leave (s : DelegSys) (t : OpenThread) :
    NoneProbed s (s.threads.filter fun u => u.tid != t.tid) :=
  fun _ hu => .inl (mem_of_mem_filter hu)

theorem noneProbed_goto (s : DelegSys) (t : OpenThread) {pc}
    (hpc : OpenThread.probed { t with pc } = false) :
    NoneProbed s ({ t with pc } :: s.threads.filter fun u => u.tid != t.tid) := by
  intro u hu
  rcases mem_cons.mp hu with rfl | hu'
  · exact .inr hpc
  · exact .inl (mem_of_mem_filter hu')

variable {s t : DelegSys} {tid : ℕ} {th : OpenThread} {op : DelegOp}

theorem publishSection_effect {retry alloc} (hth : s.thread tid = some th)
    (h : publishSection s th retry alloc = some t) : DelegEffect s (.publish tid alloc) t := by
  unfold publishSection at h
  obtain ⟨_, hstep, rfl⟩ := map_eq_some_iff.mp h
  split
  · exact .publish hth hstep (noneProbed_goto s th rfl)
  · exact .publish hth hstep (noneProbed_goto s th rfl)
  · split
    · exact .publish hth hstep (noneProbed_goto s th rfl)
    · exact .publish hth hstep (noneProbed_leave s th)
  · exact .publish hth hstep (noneProbed_leave s th)

theorem commitSection_effect {other delOk} (h : commitSection s th other delOk = some t) :
    DelegEffect s op t := by
  obtain ⟨f, -, h⟩ := bind_eq_some_iff.mp h
  obtain ⟨_, -, h⟩ := bind_eq_some_iff.mp h
  obtain ⟨_, hstep, rfl⟩ := map_eq_some_iff.mp h
  split
  · exact .opens (by simp) hstep (noneProbed_goto s th rfl)
  · exact .opens (by simp) hstep (noneProbed_leave s th)

theorem revokeSection_effect {leaseExpired} (h : revokeSection s th leaseExpired = some t) :
    DelegEffect s op t := by
  obtain ⟨_, hstep, rfl⟩ := map_eq_some_iff.mp h
  split
  · exact .opens (by simp) hstep (noneProbed_goto s th rfl)
  · exact .opens (by simp) hstep (noneProbed_leave s th)

theorem recallSection_effect (s : DelegSys) (th : OpenThread)
    (lostRevoked lostPending : List Other) :
    DelegEffect s op (recallSection s th lostRevoked lostPending) := by
  unfold recallSection
  split
  · exact .quiet (delegRecallFile_entries _ _ _ _ _) (noneProbed_goto s th rfl)
  · exact .quiet (delegRecallFile_entries _ _ _ _ _) (noneProbed_leave s th)

theorem conflictSection_effect (hth : s.thread tid = some th) (hpc : th.pc = .probeConflict) :
    DelegEffect s (.probeConflict tid) (conflictSection s th) := by
  unfold conflictSection
  split
  · exact .quiet (.refl _) (noneProbed_leave s th)
  · next hno =>
      split
      · exact .quiet (.refl _) (noneProbed_leave s th)
      · exact .probeConflict hth hpc (by simpa using hno)

theorem delegStep_effect (h : delegStep s op = some t) : DelegEffect s op t := by
  cases op with
  | arrive =>
    simp only [delegStep] at h
    split at h
    · simp at h
    cases h
    exact .quiet (.refl _) (forall_mem_cons.mpr ⟨.inr rfl, fun _ => .inl⟩)
  | publish =>
    obtain ⟨th, hth, h⟩ := bind_eq_some_iff.mp h
    split at h
    · exact publishSection_effect hth h
    · simp at h
  | commit =>
    obtain ⟨th, hth, h⟩ := bind_eq_some_iff.mp h
    split at h
    · exact commitSection_effect h
    · simp at h
  | revoke =>
    obtain ⟨th, hth, h⟩ := bind_eq_some_iff.mp h
    split at h
    · exact revokeSection_effect h
    · simp at h
  | recallFile =>
    obtain ⟨th, hth, h⟩ := bind_eq_some_iff.mp h
    split at h
    · exact some.inj h ▸ recallSection_effect s th _ _
    · simp at h
  | probeWriter =>
    obtain ⟨th, hth, h⟩ := bind_eq_some_iff.mp h
    split at h
    · cases h
      unfold writerSection
      split
      · exact .quiet (.refl _) (noneProbed_leave s th)
      · next hno => exact .probeWriter hth (by simpa using hno)
    · simp at h
  | probeConflict =>
    obtain ⟨th, hth, h⟩ := bind_eq_some_iff.mp h
    split at h
    · next hpc => exact some.inj h ▸ conflictSection_effect hth hpc
    · simp at h
  | grant _ alloc =>
    obtain ⟨_, hth, h⟩ := bind_eq_some_iff.mp h
    split at h
    · next hpc =>
        cases h
        cases alloc with
        | false => exact .quiet (.refl _) (noneProbed_leave s _)
        | true => exact .grant hth hpc
    · simp at h
  | delegreturn =>
    cases h
    exact .quiet eraseP_sublist fun u hu => .inl hu
  | table =>
    simp only [delegStep] at h
    split at h
    · next halone =>
        obtain ⟨_, hstep, rfl⟩ := map_eq_some_iff.mp h
        refine .opens ?_ hstep fun u hu => .inl hu
        rintro _ a rfl
        simp [OpenOp.standsAlone] at halone
    · simp at h

end PnfsLattice
