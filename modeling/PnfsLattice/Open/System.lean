import Mathlib.Tactic
import PnfsLattice.Open.Table

/-!
# The open-state system

The open-state table together with the durable rows and the OPENs that are between their
two critical sections. An action is one critical section, or one durable write, so a run
is an arbitrary interleaving of OPENs in their unlocked window with closes, downgrades
and revocations.

Three fields of the system are not in the source: `before` of an OPEN in flight (the state
its client and owner had on the file when it published), and the stateids that revocations
removed, respectively that OPEN_DOWNGRADE touched since their last OPEN.
-/

namespace PnfsLattice

open Lib List Option

/-! ## The system -/

/-- An OPEN in its unlocked window. -/
structure InflightOpen where
  write : PendingOpen
  /-- The outcome of the durable write, once it has returned. -/
  put : Option PutStatus
  /-- The open the same client and owner had on the file when this OPEN published. -/
  before : Option OpenState
deriving DecidableEq

/-- The primary key of the row, which is the `other` of the published state. -/
def InflightOpen.other (f : InflightOpen) : Other := f.write.row.stateidOther

/-- The table, the durable rows, and the OPENs in flight. -/
structure OpenSys where
  ot : OpenTable
  rows : List OpenRow
  inflight : List InflightOpen
  /-- Stateids whose open a revocation removed. -/
  revoked : List Other
  /-- Stateids downgraded since their last OPEN. -/
  downgraded : List Other
deriving DecidableEq

/-- `mds_coord_open_put`: upsert by primary key. -/
def putRow (rows : List OpenRow) (row : OpenRow) : List OpenRow :=
  row :: rows.filter fun r => r.stateidOther != row.stateidOther

/-- `mds_coord_open_del`. -/
def delRow (rows : List OpenRow) (other : Other) : List OpenRow :=
  rows.filter fun r => r.stateidOther != other

/-- One action. `delOk` is the outcome of a best-effort delete of a row. -/
inductive OpenOp
  | publish (alloc : Bool) (args : OpenArgs)
  | put (other : Other) (pst : PutStatus)
  | commit (other : Other) (delOk : Bool)
  | close (clientid : Clientid) (stateid : Stateid) (delOk : Bool)
  | downgrade (clientid : Clientid) (stateid : Stateid) (shareAccess shareDeny : UInt32)
  | closeAllForClient (clientid : Clientid)
  | revokeExpiredForFile (leaseExpired : Clientid → Bool) (fileid : Fileid)
  | revokeRemoveExpired (fileid : Fileid) (expired : List Clientid)

/-- The actions that revoke opens: lease expiry and courtesy revocation. -/
def OpenOp.isRevocation : OpenOp → Bool
  | .closeAllForClient _ | .revokeExpiredForFile _ _ | .revokeRemoveExpired _ _ => true
  | _ => false

/-- The stateids of the opens that are in `ot` and no longer in `ot'`. -/
def removedOthers (ot ot' : OpenTable) : List Other :=
  (ot.opens.filter fun os => !(ot'.opens.contains os)).map fun os => os.stateid.other

/-- The table after a revocation, with the removed stateids noted. -/
def OpenSys.revoke (s : OpenSys) (ot' : OpenTable) : OpenSys :=
  { s with ot := ot', revoked := removedOthers s.ot ot' ++ s.revoked }

/-- The OPENs in flight whose row has this primary key. -/
def hasKey (other : Other) (f : InflightOpen) : Bool := f.other == other

/-- The entry a publish adds to the OPENs in flight, when a durable write follows. -/
def launch (window : Option PendingOpen) (before : Option OpenState) : List InflightOpen :=
  (window.map fun w => { write := w, put := none, before }).toList

/-- One step. The durable write is enabled once for each OPEN in flight, its commit only
after it. -/
def openStep (s : OpenSys) : OpenOp → Option OpenSys
  | .publish alloc a =>
    let res := openPublish s.ot alloc a
    some { s with
      ot := res.table
      inflight := launch res.window (findOwnerOpen s.ot a.fileid a.clientid a.openOwner) ++
        s.inflight
      downgraded := match res.status with
        | .ok sid => s.downgraded.filter fun o => o != sid.other
        | .error _ => s.downgraded }
  | .put other pst =>
    match s.inflight.find? (hasKey other) with
    | some f =>
      if f.put = none then
        some { s with
          inflight := modifyFirst (hasKey other) (fun f => { f with put := some pst }) s.inflight
          rows := if pst = .ok then putRow s.rows f.write.row else s.rows }
      else none
    | none => none
  | .commit other delOk =>
    match s.inflight.find? (hasKey other) with
    | some f =>
      f.put.map fun pst =>
        let res := openCommit s.ot f.write pst
        { s with
          ot := res.table
          inflight := s.inflight.eraseP (hasKey other)
          rows := if res.dropRow && delOk then delRow s.rows other else s.rows }
    | none => none
  | .close clientid sid delOk =>
    match openStateClose s.ot clientid sid with
    | (ot', .ok _) =>
      some { s with
        ot := ot'
        rows := if s.ot.durable && delOk then delRow s.rows sid.other else s.rows }
    | (_, .error _) => some s
  | .downgrade clientid sid access deny =>
    match openStateDowngrade s.ot clientid sid access deny with
    | (ot', .ok _) => some { s with ot := ot', downgraded := sid.other :: s.downgraded }
    | (_, .error _) => some s
  | .closeAllForClient clientid => some (s.revoke (openStateCloseAllForClient s.ot clientid))
  | .revokeExpiredForFile leaseExpired fileid =>
    some (s.revoke (openStateRevokeExpiredForFile s.ot leaseExpired fileid))
  | .revokeRemoveExpired fileid expired => some (s.revoke (revokeRemoveExpired s.ot fileid expired))

/-- No rows of this server, nothing in flight. -/
def openSysInit (ot : OpenTable) : OpenSys :=
  { ot, rows := [], inflight := [], revoked := [], downgraded := [] }

/-- The systems a server starts with: an empty table. -/
def OpenInit (s : OpenSys) : Prop :=
  ∃ mdsId seed cat bootEpoch skip,
    s = openSysInit (openTableInit mdsId seed cat bootEpoch skip)

/-! ## What one step can do

Every invariant below is proved by cases on `OpenEffect`, which lists the changes a step
can make with the list of opens split at the entry the code found. -/

inductive OpenEffect (s : OpenSys) : OpenOp → OpenSys → Prop
  | reject {op} (n : ℕ) (hn : s.ot.nextOtherSeq ≤ n) (hcommit : ∀ other d, op ≠ .commit other d)
      (hrej : ∀ c sid a d r, op = .downgrade c sid a d →
        (openStateDowngrade s.ot c sid a d).2 ≠ .ok r) :
      OpenEffect s op { s with ot := { s.ot with nextOtherSeq := n } }
  | upgrade {alloc a existing l₁ l₂} (hsplit : s.ot.opens = l₁ ++ existing :: l₂)
      (hfind : findOwnerOpen s.ot a.fileid a.clientid a.openOwner = some existing)
      (hidle : existing.persistPending = false)
      (hshare : shareConflict ((l₁ ++ l₂).filter fun os => os.fileid == a.fileid)
        (existing.shareAccess ||| a.shareAccess) (existing.shareDeny ||| a.shareDeny) = false) :
      OpenEffect s (.publish alloc a) { s with
        ot := { s.ot with opens := l₁ ++ upgradedState s.ot existing a :: l₂ }
        inflight :=
          launch (s.ot.window (upgradeWrite s.ot existing a)) (some existing) ++ s.inflight
        downgraded := s.downgraded.filter fun o => o != existing.stateid.other }
  | fresh {alloc a} (hfind : findOwnerOpen s.ot a.fileid a.clientid a.openOwner = none)
      (hshare : shareConflict (opensOf s.ot a.fileid) a.shareAccess a.shareDeny = false) :
      OpenEffect s (.publish alloc a) { s with
        ot := { s.ot with
          opens := freshState s.ot a :: s.ot.opens, nextOtherSeq := s.ot.nextOtherSeq + 1 }
        inflight := launch (s.ot.window (freshWrite s.ot a)) none ++ s.inflight
        downgraded := s.downgraded.filter fun o => o != makeStateidOther s.ot }
  | put {pst f k₁ k₂} (hinfl : s.inflight = k₁ ++ f :: k₂) (hput : f.put = none) :
      OpenEffect s (.put f.other pst) { s with
        inflight := k₁ ++ { f with put := some pst } :: k₂
        rows := if pst = .ok then putRow s.rows f.write.row else s.rows }
  | commitGone {delOk pst f k₁ k₂} (hinfl : s.inflight = k₁ ++ f :: k₂) (hput : f.put = some pst)
      (hgone : ∀ o ∈ s.ot.opens, o.stateid.other ≠ f.other) :
      OpenEffect s (.commit f.other delOk) { s with
        inflight := k₁ ++ k₂
        rows := if (f.write.path = .fresh ∧ pst = .ok) ∧ delOk = true then
          delRow s.rows f.other else s.rows }
  | commitDone {delOk pst f k₁ k₂ cur l₁ l₂} (hinfl : s.inflight = k₁ ++ f :: k₂)
      (hput : f.put = some pst) (hpst : pst ≠ .failed) (hsplit : s.ot.opens = l₁ ++ cur :: l₂)
      (hcur : cur.stateid.other = f.other) :
      OpenEffect s (.commit f.other delOk) { s with
        ot := { s.ot with opens := l₁ ++ { cur with persistPending := false } :: l₂ }
        inflight := k₁ ++ k₂ }
  | unwindFresh {delOk f k₁ k₂ cur l₁ l₂} (hinfl : s.inflight = k₁ ++ f :: k₂)
      (hput : f.put = some .failed) (hpath : f.write.path = .fresh)
      (hsplit : s.ot.opens = l₁ ++ cur :: l₂) (hcur : cur.stateid.other = f.other) :
      OpenEffect s (.commit f.other delOk) { s with
        ot := { s.ot with opens := l₁ ++ l₂ }, inflight := k₁ ++ k₂ }
  | unwindUpgrade {delOk f k₁ k₂ cur l₁ l₂ ps pa pd ns} (hinfl : s.inflight = k₁ ++ f :: k₂)
      (hput : f.put = some .failed) (hpath : f.write.path = .upgrade ps pa pd ns)
      (hsplit : s.ot.opens = l₁ ++ cur :: l₂) (hcur : cur.stateid.other = f.other) :
      OpenEffect s (.commit f.other delOk) { s with
        ot := { s.ot with opens := l₁ ++ rollBack cur ps pa pd ns :: l₂ }
        inflight := k₁ ++ k₂ }
  | close {clientid sid delOk os l₁ l₂} (hsplit : s.ot.opens = l₁ ++ os :: l₂)
      (hother : os.stateid.other = sid.other) (hidle : os.persistPending = false) :
      OpenEffect s (.close clientid sid delOk) { s with
        ot := { s.ot with opens := l₁ ++ l₂ }
        rows := if s.ot.durable && delOk then delRow s.rows sid.other else s.rows }
  | downgrade {clientid sid access deny os l₁ l₂} (hsplit : s.ot.opens = l₁ ++ os :: l₂)
      (hother : os.stateid.other = sid.other) (hidle : os.persistPending = false)
      (haccess : Within access os.shareAccess)
      (hok : ∃ r, (openStateDowngrade s.ot clientid sid access deny).2 = .ok r) :
      OpenEffect s (.downgrade clientid sid access deny) { s with
        ot := { s.ot with opens := l₁ ++ { os with
          shareAccess := access, shareDeny := deny
          stateid := { os.stateid with seqid := os.stateid.seqid + 1 } } :: l₂ }
        downgraded := sid.other :: s.downgraded }
  | revoke {op} (keep : OpenState → Bool) (hop : op.isRevocation = true) :
      OpenEffect s op (s.revoke { s.ot with opens := s.ot.opens.filter keep })

variable {clientid : Clientid} {os : OpenState} {other : Other} {s t : OpenSys} {sid : Stateid}

theorem isOwnerOpen_iff {fileid openOwner} :
    isOwnerOpen fileid clientid openOwner os = true ↔
      os.fileid = fileid ∧ os.clientid = clientid ∧ os.openOwner = openOwner := by
  simp [isOwnerOpen]

theorem hasOther_iff : hasOther other os = true ↔ os.stateid.other = other := by
  simp [hasOther]

variable {ot : OpenTable} {a : OpenArgs} {delOk : Bool}

theorem opensOf_eraseP {existing l₁ l₂} (hsplit : ot.opens = l₁ ++ existing :: l₂)
    (hno : ∀ b ∈ l₁, isOwnerOpen a.fileid a.clientid a.openOwner b = false)
    (hkey : isOwnerOpen a.fileid a.clientid a.openOwner existing = true) :
    (opensOf ot a.fileid).eraseP (isOwnerOpen a.fileid a.clientid a.openOwner) =
      (l₁ ++ l₂).filter fun os => os.fileid == a.fileid := by
  have hfile : existing.fileid = a.fileid := (isOwnerOpen_iff.mp hkey).1
  rw [opensOf, hsplit, filter_append, filter_cons_of_pos (by simp [hfile]),
    eraseP_append_right, eraseP_cons_of_pos hkey, filter_append]
  intro b hb
  simp [hno b (mem_of_mem_filter hb)]

theorem publish_effect {alloc} (h : openStep s (.publish alloc a) = some t) :
    OpenEffect s (.publish alloc a) t := by
  have hrej : ∀ n, s.ot.nextOtherSeq ≤ n →
      OpenEffect s (.publish alloc a) { s with ot := { s.ot with nextOtherSeq := n } } :=
    fun n hn => .reject n hn (by simp) (by simp)
  simp only [openStep, Option.some.injEq, openPublish] at h
  subst h
  split_ifs with hargs
  · exact hrej _ le_rfl
  cases hfind : findOwnerOpen s.ot a.fileid a.clientid a.openOwner with
  | some existing =>
    dsimp only
    by_cases hpend : existing.persistPending = true
    · rw [if_pos hpend]
      exact hrej _ le_rfl
    obtain ⟨_, _, hsplit, hno, hmod, -⟩ := split_of_find? hfind
    have hkey := List.find?_some hfind
    simp only [if_neg hpend, upgradeExisting, opensOf_eraseP hsplit hno hkey, hmod]
    split_ifs with hshare
    · exact hrej _ le_rfl
    · exact .upgrade hsplit hfind (by simpa using hpend)
        (Bool.eq_false_iff.mpr hshare)
  | none =>
    simp only [openFresh]
    split_ifs with halloc hshare
    · exact hrej _ le_rfl
    · exact hrej _ (Nat.le_succ _)
    · exact .fresh hfind (Bool.eq_false_iff.mpr hshare)

theorem hasKey_iff {f} : hasKey other f = true ↔ f.other = other := by
  simp [hasKey]

theorem commit_effect (h : openStep s (.commit other delOk) = some t) :
    OpenEffect s (.commit other delOk) t := by
  simp only [openStep] at h
  cases hf : s.inflight.find? (hasKey other) with
  | none => simp [hf] at h
  | some f =>
    obtain ⟨_, _, hinfl, -, -, herase⟩ := split_of_find? hf
    obtain rfl : f.other = other := hasKey_iff.mp (List.find?_some hf)
    simp only [hf, map_eq_some_iff, herase] at h
    obtain ⟨pst, hput, rfl⟩ := h
    cases hcur : findByOther s.ot f.write.row.stateidOther with
    | none =>
      have hgone : ∀ o ∈ s.ot.opens, o.stateid.other ≠ f.other := fun o ho heq =>
        List.find?_eq_none.mp hcur o ho (hasOther_iff.mpr heq)
      have heff : OpenEffect s (.commit f.other delOk) _ := .commitGone hinfl hput hgone
      simpa [openCommit, hcur] using heff
    | some cur =>
      obtain ⟨_, _, hsplit, -, hmod, hdel⟩ := split_of_find? hcur
      have hother : cur.stateid.other = f.other := hasOther_iff.mp (List.find?_some hcur)
      by_cases hpst : pst = .failed
      · subst hpst
        cases hpath : f.write.path with
        | fresh =>
          simp only [openCommit, hcur, hpath, if_true, Bool.false_and, hdel]
          exact .unwindFresh hinfl hput hpath hsplit hother
        | upgrade =>
          simp only [openCommit, hcur, hpath, if_true, Bool.false_and, hmod]
          exact .unwindUpgrade hinfl hput hpath hsplit hother
      · simp only [openCommit, hcur, if_neg hpst, Bool.false_and, hmod]
        exact .commitDone hinfl hput hpst hsplit hother

/-- What the shared checks of CLOSE and OPEN_DOWNGRADE establish. -/
theorem checkOpenStateid_ok (h : checkOpenStateid ot clientid sid = .ok os) :
    findByOther ot sid.other = some os ∧ os.persistPending = false := by
  unfold checkOpenStateid at h
  cases hf : findByOther ot sid.other with
  | none => simp [hf] at h
  | some =>
    simp only [hf] at h
    split_ifs at h with hc hp hs
    simp only [Except.ok.injEq] at h
    subst h
    exact ⟨rfl, by simpa using hp⟩

theorem close_effect (h : openStep s (.close clientid sid delOk) = some t) :
    OpenEffect s (.close clientid sid delOk) t := by
  simp only [openStep, openStateClose] at h
  cases hc : checkOpenStateid s.ot clientid sid with
  | error =>
    simp only [hc, Option.some.injEq] at h
    exact h ▸ .reject _ le_rfl (by simp) (by simp)
  | ok =>
    obtain ⟨hfind, hidle⟩ := checkOpenStateid_ok hc
    obtain ⟨_, _, hsplit, -, -, hdel⟩ := split_of_find? hfind
    simp only [hc, Option.some.injEq, hdel] at h
    exact h ▸ .close hsplit (hasOther_iff.mp (List.find?_some hfind)) hidle

theorem downgrade_effect {access deny}
    (h : openStep s (.downgrade clientid sid access deny) = some t) :
    OpenEffect s (.downgrade clientid sid access deny) t := by
  have hrej : ∀ e, (openStateDowngrade s.ot clientid sid access deny).2 = .error e →
      OpenEffect s (.downgrade clientid sid access deny) s := fun e he =>
    .reject _ le_rfl (by simp) (by rintro _ _ _ _ r ⟨⟩; simp [he])
  simp only [openStep] at h
  cases hc : checkOpenStateid s.ot clientid sid with
  | error e =>
    have hdg : openStateDowngrade s.ot clientid sid access deny = (s.ot, .error e) := by
      simp [openStateDowngrade, hc]
    simp only [hdg, Option.some.injEq] at h
    exact h ▸ hrej e (by rw [hdg])
  | ok os =>
    obtain ⟨hfind, hidle⟩ := checkOpenStateid_ok hc
    obtain ⟨_, _, hsplit, -, hmod, -⟩ := split_of_find? hfind
    by_cases hacc : access &&& ~~~os.shareAccess = 0
    · have hdg := show openStateDowngrade s.ot clientid sid access deny = _ by
        simp only [openStateDowngrade, hc, hacc, ne_eq, not_true_eq_false, if_false, hmod]
        rfl
      simp only [hdg, Option.some.injEq] at h
      exact h ▸ .downgrade hsplit (hasOther_iff.mp (List.find?_some hfind)) hidle hacc
        ⟨_, by rw [hdg]⟩
    · have hdg : openStateDowngrade s.ot clientid sid access deny = (s.ot, .error .inval) := by
        simp [openStateDowngrade, hc, hacc]
      simp only [hdg, Option.some.injEq] at h
      exact h ▸ hrej .inval (by rw [hdg])

/-- **Every step is one of the effects.** -/
theorem openStep_effect {op} (h : openStep s op = some t) : OpenEffect s op t := by
  cases op with
  | publish => exact publish_effect h
  | put other =>
    simp only [openStep] at h
    cases hf : s.inflight.find? (hasKey other) with
    | none => simp [hf] at h
    | some f =>
      obtain ⟨_, _, hinfl, -, hmod, -⟩ := split_of_find? hf
      obtain rfl : f.other = other := hasKey_iff.mp (List.find?_some hf)
      simp only [hf, hmod] at h
      by_cases hput : f.put = none
      · rw [if_pos hput, Option.some.injEq] at h
        exact h ▸ .put hinfl hput
      · simp [hput] at h
  | commit => exact commit_effect h
  | close => exact close_effect h
  | downgrade => exact downgrade_effect h
  | closeAllForClient | revokeExpiredForFile
  | revokeRemoveExpired =>
    simp only [openStep, Option.some.injEq] at h
    exact h ▸ .revoke _ rfl

end PnfsLattice
