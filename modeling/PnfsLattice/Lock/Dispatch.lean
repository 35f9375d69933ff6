import PnfsLattice.Lock.Exclusion
import PnfsLattice.Open.Table

/-!
# The lock operations of a compound

The LOCK, LOCKU and FREE_STATEID cases of `dispatch_op`, over the lock table: what
each checks before it calls the lock manager, the resolution of the current-stateid
marker, and the courtesy revocation after a denied LOCK.

The SEQUENCE of a compound fixes `clientid`. Of the three cases only LOCK passes it on,
and only its new-owner arm looks an owner state up by it; every other lookup is by the
stateid of the request alone. The results say which requests reach a state of another
client.
-/

namespace PnfsLattice

open Lib List Option

/-! ## Dispatch -/

/-- What the lock operations read of `struct compound_data`. `leaseExpired` is
`session_client_lease_expired` on `cd->st`, which may be missing. -/
structure LockCompound where
  clientid : Clientid
  currentFh : Option Fileid
  currentStateid : Option Stateid
  hasSt : Bool
  leaseExpired : Clientid → Bool
  graceActive : Bool
  ot : Option OpenTable

/-- `struct nfs4_arg_lock`, without the `lock_seqid` nothing reads. -/
structure ArgLock where
  lockType : UInt32
  reclaim : Bool
  offset : UInt64
  length : UInt64
  newLockOwner : Bool
  openStateid : Stateid
  lockOwner : List UInt8
  lockStateid : Stateid

/-- The failures of the three cases: their own, and those of the lock manager. -/
inductive LockOpErr
  | nofilehandle
  | grace
  | noGrace
  | badStateid
  | locksHeld
  | lock (e : LockErr)
deriving DecidableEq

/-- `compound_is_current_stateid`: seqid 1 over an all-zero `other`. -/
def compoundIsCurrentStateid (sid : Stateid) : Bool :=
  sid.seqid == 1 && sid.other == { mdsId := 0, tail := 0 }

def compoundResolveStateid (cd : LockCompound) (sid : Stateid) : Except LockOpErr Stateid :=
  if compoundIsCurrentStateid sid then
    match cd.currentStateid with
    | none => .error .badStateid
    | some cur => .ok cur
  else .ok sid

/-- The head of the LOCK case, up to the arguments of `lock_acquire`. -/
def ArgLock.lockArgs (a : ArgLock) (cd : LockCompound) : Except LockOpErr LockArgs :=
  match cd.currentFh with
  | none => .error .nofilehandle
  | some fileid =>
    if cd.graceActive && !a.reclaim then .error .grace
    else if !cd.graceActive && a.reclaim then .error .noGrace
    else do
      let openSid ← compoundResolveStateid cd a.openStateid
      let lockSid ← compoundResolveStateid cd a.lockStateid
      return { fileid, lockType := a.lockType, offset := a.offset, length := a.length
               clientid := cd.clientid, owner := a.lockOwner, openStateid := some openSid
               newLockOwner := a.newLockOwner, lockStateid := lockSid }

/-- The LOCK case: `alloc` and `retry` are the allocations of the two attempts. -/
def opLock (lt : LockTable) (cd : LockCompound) (alloc retry : LockAlloc) (a : ArgLock) :
    LockTable × Except LockOpErr Stateid :=
  match a.lockArgs cd with
  | .error e => (lt, .error e)
  | .ok args =>
    match lockAcquire lt alloc args with
    | (lt, .ok sid) => (lt, .ok sid)
    | (lt, .error (.denied conf)) =>
      -- Courtesy: drop the states of expired clients on this file and try once more.
      if cd.hasSt then
        match lockRevokeExpiredForFile lt cd.leaseExpired args.fileid with
        | (lt, 0) => (lt, .error (.lock (.denied conf)))
        | (lt, _ + 1) =>
          let (lt, r) := lockAcquire lt retry args
          (lt, r.mapError .lock)
      else (lt, .error (.lock (.denied conf)))
    | (lt, .error e) => (lt, .error (.lock e))

/-- The LOCKU case; it needs no filehandle, and its lock type is ignored. -/
def opLocku (lt : LockTable) (cd : LockCompound) (alloc : Bool) (lockStateid : Stateid)
    (offset length : UInt64) : LockTable × Except LockOpErr Stateid :=
  match compoundResolveStateid cd lockStateid with
  | .error e => (lt, .error e)
  | .ok sid =>
    let (lt, r) := lockRelease lt alloc sid offset length
    (lt, r.mapError .lock)

/-- The FREE_STATEID case, as far as the lock table settles it: `none` says that the
stateid goes on to the delegation and layout probes. -/
def opFreeStateid (lt : LockTable) (cd : LockCompound) (stateid : Stateid) :
    LockTable × Option (Except LockOpErr Unit) :=
  match compoundResolveStateid cd stateid with
  | .error e => (lt, some (.error e))
  | .ok sid =>
    freeStateidProbes
      ((cd.ot.bind fun ot => openStateFind ot sid).map fun _ => (lt, some (.error .locksHeld)))
      (match lockFreeStateid lt sid.other with
        | (lt, .ok ()) => some (lt, some (.ok ()))
        | (lt, .error .locksHeld) => some (lt, some (.error .locksHeld))
        | (_, .error _) => none)
      none none (lt, none)

/-- A lock request of a compound, with the outcome of the allocations it makes. -/
inductive LockReq
  | lock (alloc retry : LockAlloc) (a : ArgLock)
  | locku (alloc : Bool) (lockStateid : Stateid) (offset length : UInt64)
  | freeStateid (stateid : Stateid)

/-- The lock table after one request. -/
def lockDispatch (lt : LockTable) (cd : LockCompound) : LockReq → LockTable
  | .lock alloc retry a => (opLock lt cd alloc retry a).1
  | .locku alloc sid offset length => (opLocku lt cd alloc sid offset length).1
  | .freeStateid sid => (opFreeStateid lt cd sid).1

/-! ## What a request reaches -/

/-- The owner state a LOCK rewrites: one that passes the checks on the table as it is, or,
if a conflict stopped the first attempt, on the table without the expired clients. -/
def lockTarget (lt : LockTable) (cd : LockCompound) (alloc retry : LockAlloc)
    (args : LockArgs) : Option LockOwnerState :=
  match args.admission lt alloc with
  | .ok (_, found) => found
  | .error (.denied _) =>
    let (lt', revoked) := lockRevokeExpiredForFile lt cd.leaseExpired args.fileid
    if cd.hasSt && 0 < revoked then (args.admission lt' retry).toOption.bind Prod.snd else none
  | .error _ => none

def lockuTarget (lt : LockTable) (alloc : Bool) (sid : Stateid) : Option LockOwnerState :=
  if alloc then
    (findBySid lt (stateidStripe sid.other) sid.other).filter fun os =>
      (seqidCheck os sid.seqid).isOk
  else none

/-- The owner state a FREE_STATEID frees: a rangeless one, if no open has the stateid. -/
def freeTarget (lt : LockTable) (cd : LockCompound) (sid : Stateid) : Option LockOwnerState :=
  if (cd.ot.bind fun ot => openStateFind ot sid).isSome then none
  else (findBySid lt (stateidStripe sid.other) sid.other).filter fun os => os.ranges.isEmpty

/-- The owner state that a request rewrites or frees, if there is one. -/
def LockReq.target (lt : LockTable) (cd : LockCompound) : LockReq → Option LockOwnerState
  | .lock alloc retry a => (a.lockArgs cd).toOption.bind (lockTarget lt cd alloc retry)
  | .locku alloc sid _ _ => (compoundResolveStateid cd sid).toOption.bind (lockuTarget lt alloc)
  | .freeStateid sid => (compoundResolveStateid cd sid).toOption.bind (freeTarget lt cd)

/-! ## The states of one client -/

/-- The owner states of one client, in table order. -/
def statesOf (d : Clientid) (l : List LockOwnerState) : List LockOwnerState :=
  l.filter fun os => os.clientid = d

/-- A client the compound has no business with: another one, its lease still good. -/
def LockCompound.Foreign (cd : LockCompound) (d : Clientid) : Prop :=
  d ≠ cd.clientid ∧ cd.leaseExpired d = false

/-- Two tables agree on every foreign client. -/
def LockCompound.Untouched (cd : LockCompound) (l l' : List LockOwnerState) : Prop :=
  ∀ d, cd.Foreign d → statesOf d l' = statesOf d l

theorem statesOf_append (d : Clientid) (l l' : List LockOwnerState) :
    statesOf d (l ++ l') = statesOf d l ++ statesOf d l' := filter_append ..

theorem statesOf_cons_self (os : LockOwnerState) (l : List LockOwnerState) :
    statesOf os.clientid (os :: l) = os :: statesOf os.clientid l := by simp [statesOf]

variable {os : LockOwnerState} {cd : LockCompound} {lt : LockTable} {alloc : LockAlloc}
  {a : LockArgs}

theorem statesOf_cons_ne {d} (h : os.clientid ≠ d) (l : List LockOwnerState) :
    statesOf d (os :: l) = statesOf d l := by simp [statesOf, h]

variable {l₁ l₂ : List LockOwnerState}

/-- Rewriting one state in place touches its client, and nobody else. -/
theorem untouched_write_iff {os'} (hc : os'.clientid = os.clientid) (hne : os' ≠ os) :
    cd.Untouched (l₁ ++ os :: l₂) (l₁ ++ os' :: l₂) ↔ ¬ cd.Foreign os.clientid := by
  constructor
  · intro h hf
    have heq := h _ hf
    rw [statesOf_append, statesOf_append, statesOf_cons_self, ← hc, statesOf_cons_self,
      append_cancel_left_eq, List.cons.injEq] at heq
    exact hne heq.1
  · intro hnf d hd
    have hne' : os.clientid ≠ d := fun he => hnf (he ▸ hd)
    rw [statesOf_append, statesOf_append, statesOf_cons_ne hne', statesOf_cons_ne (hc ▸ hne')]

/-- Unlinking one state touches its client, and nobody else. -/
theorem untouched_unlink_iff :
    cd.Untouched (l₁ ++ os :: l₂) (l₁ ++ l₂) ↔ ¬ cd.Foreign os.clientid := by
  constructor
  · intro h hf
    have heq := h _ hf
    rw [statesOf_append, statesOf_append, statesOf_cons_self, append_cancel_left_eq] at heq
    exact cons_ne_self _ _ heq.symm
  · intro hnf d hd
    have hne : os.clientid ≠ d := fun he => hnf (he ▸ hd)
    rw [statesOf_append, statesOf_append, statesOf_cons_ne hne]

@[simp] theorem untouched_refl (cd : LockCompound) (l : List LockOwnerState) :
    cd.Untouched l l := fun _ _ => rfl

/-! ## The lock manager's writes -/

theorem seqid_succ_ne (s : UInt32) : s + 1 ≠ s := by
  intro h
  have h0 : (1 : UInt32) = 0 := by simp at h
  exact absurd h0 (by decide)

theorem ne_of_seqid_succ (os os' : LockOwnerState)
    (h : os'.stateid.seqid = os.stateid.seqid + 1) : os' ≠ os := by
  intro he
  rw [he] at h
  exact seqid_succ_ne _ h.symm

theorem lockAcquire_not_denied {r : LockType × Option LockOwnerState}
    (h : a.admission lt alloc = .ok r) (conf : LockConflict) :
    (lockAcquire lt alloc a).2 ≠ .error (.denied conf) := by
  rw [lockAcquire_eq, h]
  obtain ⟨_, _ | _⟩ := r
  · cases alloc.ownerState <;> simp
  · simp

/-- A LOCK touches exactly the client of the owner state that passes its checks. -/
theorem untouched_lockAcquire_iff (hc : a.clientid = cd.clientid) :
    cd.Untouched lt.owners (lockAcquire lt alloc a).1.owners ↔
      ∀ os, (a.admission lt alloc).toOption.bind Prod.snd = some os → ¬ cd.Foreign os.clientid := by
  rw [lockAcquire_eq]
  cases hadm : a.admission lt alloc with
  | error => simp [Except.toOption]
  | ok r =>
    obtain ⟨eff, _ | os⟩ := r
    · cases alloc.ownerState with
      | false => simp [Except.toOption]
      | true => 
        simp only [Except.toOption, bind_some]
        exact iff_of_true (fun d hd => statesOf_cons_ne (fun he => hd.1 (he.symm.trans hc)) _) nofun
    · have hfind := (resolve_some (LockArgs.resolve_of_admission hadm)).1
      obtain ⟨_, _, hl, -, hmod, -⟩ := split_of_find? hfind
      have hne := ne_of_seqid_succ os
        (grantRange lt os eff a.offset (effLength a.length) a.openStateid).1 rfl
      simp only [hmod, Except.toOption, bind_some, Option.some.injEq, forall_eq']
      rw [hl]
      exact untouched_write_iff rfl hne

/-- A LOCKU touches exactly the client of the owner state it releases from. -/
theorem untouched_lockRelease_iff {alloc sid offset length} :
    cd.Untouched lt.owners (lockRelease lt alloc sid offset length).1.owners ↔
      ∀ os, lockuTarget lt alloc sid = some os → ¬ cd.Foreign os.clientid := by
  cases alloc with
  | false => simp [lockRelease, lockuTarget]
  | true =>
    unfold lockRelease lockuTarget findBySid
    cases hf : lt.owners.find? (hasSid (stateidStripe sid.other) sid.other) with
    | none => simp [hf]
    | some os =>
      cases hs : seqidCheck os sid.seqid with
      | error => simp [hf, hs, Except.isOk, Except.toBool]
      | ok =>
        obtain ⟨_, _, hl, -, hmod, -⟩ := split_of_find? hf
        simp only [Bool.not_true, Bool.false_eq_true, if_false, if_true, hf, hs, hmod,
          Except.isOk, Except.toBool, filter_some, Option.some.injEq, forall_eq']
        rw [hl]
        exact untouched_write_iff rfl (ne_of_seqid_succ os _ rfl)

/-- A FREE_STATEID touches exactly the client of the rangeless state it frees. -/
theorem untouched_lockFreeStateid_iff {other} :
    cd.Untouched lt.owners (lockFreeStateid lt other).1.owners ↔
      ∀ os, (findBySid lt (stateidStripe other) other).filter (fun os => os.ranges.isEmpty)
        = some os → ¬ cd.Foreign os.clientid := by
  unfold lockFreeStateid findBySid
  cases hf : lt.owners.find? (hasSid (stateidStripe other) other) with
  | none => simp [hf]
  | some os =>
    by_cases hr : os.ranges = []
    · obtain ⟨_, _, hl, -, -, herase⟩ := split_of_find? hf
      simp only [hf, hr, ne_eq, not_true_eq_false, if_false, herase, filter_some,
        isEmpty_nil, if_true, Option.some.injEq, forall_eq']
      rw [hl]
      exact untouched_unlink_iff
    · simp [hf, hr]

/-- The courtesy revocation touches expired clients only. -/
theorem untouched_lockRevokeExpiredForFile (cd : LockCompound) (lt : LockTable) (fileid : Fileid) :
    cd.Untouched lt.owners (lockRevokeExpiredForFile lt cd.leaseExpired fileid).1.owners := by
  intro d hd
  have hlive : (expiredOnFile lt cd.leaseExpired fileid).contains d = false := by
    simp [expiredOnFile, hd.2]
  have howners : (lockRevokeExpiredForFile lt cd.leaseExpired fileid).1.owners =
      (revokeStates lt fileid (expiredOnFile lt cd.leaseExpired fileid)).1.owners := by
    rw [lockRevokeExpiredForFile_eq]
    dsimp only
    split
    · exact reapClients_owners _ _
    · rfl
  rw [howners]
  unfold statesOf revokeStates
  rw [List.filter_filter]
  refine List.filter_congr fun os _ => ?_
  by_cases hos : os.clientid = d
  · simp only [hos, hlive, Bool.and_false, Bool.not_false, Bool.and_true]
  · simp [hos]

/-! ## The frame -/

theorem clientid_of_lockArgs {a : ArgLock} {args : LockArgs} (h : a.lockArgs cd = .ok args) :
    args.clientid = cd.clientid := by
  unfold ArgLock.lockArgs at h
  cases hfh : cd.currentFh with
  | none => simp [hfh] at h
  | some =>
    rw [hfh] at h
    split_ifs at h
    cases ho : compoundResolveStateid cd a.openStateid with
    | error => rw [ho] at h; cases h
    | ok =>
      cases hl : compoundResolveStateid cd a.lockStateid with
      | error => rw [ho, hl] at h; cases h
      | ok =>
        rw [ho, hl] at h
        cases h
        rfl

/-- A LOCK touches exactly the client of its target, on either attempt. -/
theorem untouched_opLock_iff {retry : LockAlloc} {a : ArgLock} :
    cd.Untouched lt.owners (opLock lt cd alloc retry a).1.owners ↔
      ∀ os, (a.lockArgs cd).toOption.bind (lockTarget lt cd alloc retry) = some os →
        ¬ cd.Foreign os.clientid := by
  unfold opLock
  cases hargs : a.lockArgs cd with
  | error => simp [Except.toOption]
  | ok args =>
    have hc := clientid_of_lockArgs hargs
    simp only [Except.toOption, bind_some]
    cases hadm : args.admission lt alloc with
    | ok =>
      -- The checks pass, so there is no second attempt.
      have hone := @untouched_lockAcquire_iff cd lt alloc args hc
      have hnd := lockAcquire_not_denied hadm
      simp only [hadm, Except.toOption, bind_some] at hone
      simp only [lockTarget, hadm, ← hone]
      generalize lockAcquire lt alloc args = out at hnd ⊢
      obtain ⟨lt', e | _⟩ := out
      · cases e with
        | denied conf => exact absurd rfl (hnd conf)
        | inval | badStateid | oldStateid | locksHeld | nomem => rfl
      · rfl
    | error e =>
      rw [lockAcquire_eq]
      cases e with
      | denied =>
        have hrev := untouched_lockRevokeExpiredForFile cd lt args.fileid
        simp only [lockTarget, hadm]
        cases cd.hasSt with
        | false => simp
        | true =>
          generalize lockRevokeExpiredForFile lt cd.leaseExpired args.fileid = out
            at hrev ⊢
          obtain ⟨_, _ | n⟩ := out
          · simpa using hrev
          · refine Iff.trans ?_ (untouched_lockAcquire_iff hc)
            exact forall₂_congr fun d hd => by rw [hrev d hd]; rfl
      | inval | badStateid | oldStateid | locksHeld | nomem => simp [lockTarget, hadm]

/-- **The frame of the lock operations.**  A request leaves the owner states, ranges and
seqids of every other client with a good lease as they were, exactly when the owner state
its stateid leads it to, and on which it passes its checks, is not of such a client. -/
theorem lock_frame_iff (lt : LockTable) (cd : LockCompound) (req : LockReq) :
    (∀ d, d ≠ cd.clientid → cd.leaseExpired d = false →
      statesOf d (lockDispatch lt cd req).owners = statesOf d lt.owners) ↔
    ∀ os, req.target lt cd = some os →
      os.clientid = cd.clientid ∨ cd.leaseExpired os.clientid = true := by
  have hview : (∀ d, d ≠ cd.clientid → cd.leaseExpired d = false →
      statesOf d (lockDispatch lt cd req).owners = statesOf d lt.owners) ↔
      cd.Untouched lt.owners (lockDispatch lt cd req).owners :=
    ⟨fun h d hd => h d hd.1 hd.2, fun h d hne hlive => h d ⟨hne, hlive⟩⟩
  have hforeign : ∀ c, (c = cd.clientid ∨ cd.leaseExpired c = true) ↔ ¬ cd.Foreign c := by
    intro c
    rw [LockCompound.Foreign, not_and_or, not_not, Bool.not_eq_false]
  simp only [hview, hforeign]
  cases req with
  | lock => exact untouched_opLock_iff
  | locku _ sid =>
    simp only [lockDispatch, opLocku, LockReq.target]
    cases compoundResolveStateid cd sid with
    | error => simp [Except.toOption]
    | ok => exact untouched_lockRelease_iff
  | freeStateid sid =>
    simp only [lockDispatch, opFreeStateid, LockReq.target]
    cases compoundResolveStateid cd sid with
    | error => simp [Except.toOption]
    | ok sid =>
      simp only [Except.toOption, bind_some, freeTarget]
      cases cd.ot.bind fun ot => openStateFind ot sid with
      | some => simp [freeStateidProbes]
      | none =>
        rw [isSome_none, if_neg Bool.false_ne_true, ← untouched_lockFreeStateid_iff]
        unfold lockFreeStateid
        dsimp only
        cases lt.owners.find? (hasSid (stateidStripe sid.other) sid.other) with
        | none => rfl
        | some os =>
          by_cases hranges : os.ranges ≠ []
          · simp only [if_pos hranges]
            rfl
          · simp only [if_neg hranges]
            rfl

/-- A first write LOCK of client 11 on ten bytes of file 16. -/
def victimLock : LockArgs :=
  { fileid := 16, lockType := 2, offset := 0, length := 10, clientid := 11, owner := [1]
    openStateid := none, newLockOwner := true
    lockStateid := { seqid := 0, other := { mdsId := 0, tail := 0 } } }

/-- A compound of client 12, every lease good. -/
def intruder : LockCompound :=
  { clientid := 12, currentFh := none, currentStateid := none, hasSt := true
    leaseExpired := fun _ => false, graceActive := false, ot := none }

/-- Client 12 gives client 11's lock up: LOCKU takes the range away and moves the seqid of
an owner state on, whoever presents the stateid. -/
theorem locku_unlocks_other_client :
    ∃ lt sid, Reachable LockInit lockStep anyStep lt ∧ intruder.clientid ≠ 11 ∧
      intruder.leaseExpired 11 = false ∧
      (statesOf 11 lt.owners).map LockOwnerState.ranges =
        [[{ offset := 0, length := 10, lockType := .writeLt, lockId := 2 }]] ∧
      (statesOf 11 (lockDispatch lt intruder (.locku true sid 0 0)).owners).map
        LockOwnerState.ranges = [[]] := by
  refine ⟨_, { seqid := 1, other := { mdsId := 1, tail := 1 } },
    .run (lockTableInit 1 1 true 0) [.acquire {} victimLock] ⟨1, 1, true, 0, rfl⟩,
    by decide, rfl, by decide, by decide⟩

end PnfsLattice
