import PnfsLattice.Grace.Gate

/-!
# During grace nothing changes except by reclaim

While `grace_is_active()` holds throughout an operation, the operation may release state of
its own client, and a client that was recorded for the period and has not completed reclaim
may reclaim; nothing else may change. The period lasts until all recorded clients have
completed reclaim or its time is up, and ends with the last of them.

The checks leave gaps. OPEN creates the file before it looks at the grace period; LOCK takes
a reclaim from anybody; LOCKU, FREE_STATEID and the deny bits of OPEN_DOWNGRADE are not tied to
the caller's state; a list that names a client twice, or that is too long, is never completed;
and a second period forgets the first.
-/

namespace PnfsLattice

open Lib List Option Plan

/-! ## The law -/

/-- The period is active at every reading of the operation's clock. -/
def Throughout (g : GraceState) (clk : ℕ → ℤ) : Prop := ∀ k, (graceIsActive g (clk k)).2 = true

/-- An open with fewer share bits. -/
def OpenState.Narrower (o o' : OpenState) : Prop :=
  o.stateid.other = o'.stateid.other ∧ o.fileid = o'.fileid ∧
    Within o.shareAccess o'.shareAccess ∧ Within o.shareDeny o'.shareDeny

/-- An owner state that holds fewer bytes. -/
def LockOwnerState.Narrower (o o' : LockOwnerState) : Prop :=
  o.stateid.other = o'.stateid.other ∧ o.fileid = o'.fileid ∧
    ∀ t b, HeldAt o.ranges t b → HeldAt o'.ranges t b

/-- Opens of the client were closed or downgraded. -/
abbrev OpensShrink (c : Clientid) : List OpenState → List OpenState → Prop :=
  Shrinks (fun o => o.clientid = c) OpenState.Narrower

/-- Locks of the client were released. -/
abbrev LocksShrink (c : Clientid) : List LockOwnerState → List LockOwnerState → Prop :=
  Shrinks (fun o => o.clientid = c) LockOwnerState.Narrower

/-- State of the client was released, and nothing else happened. -/
structure Released (c : Clientid) (s t : AccStore) : Prop where
  cat : t.cat = s.cat
  data : t.data = s.data
  xattrs : t.xattrs = s.xattrs
  opens : OpensShrink c s.ot.opens t.ot.opens
  locks : LocksShrink c s.lt.owners t.lt.owners
  delegs : Shrinks (fun d : DelegEntry => d.clientid = c)
      (fun _ _ => False) s.dt.entries t.dt.entries
  layouts : Shrinks (fun l : LayoutOwner => l.clientid = c) (fun _ _ => False) s.layouts t.layouts

/-- The reclaim of a client that was recorded and has not completed reclaim. -/
def Reclaims (s : GraceSys) (cd : AccCompound) (op : GraceOp) : Prop :=
  ∃ alloc retry leaseExpired a, op = .acc (.lock alloc retry leaseExpired a) ∧ a.reclaim = true ∧
    cd.clientid ∈ s.recorded ∧ cd.clientid ∉ s.completed

/-- What an operation may do. -/
structure OpLaw (b : Bsearch) (s : GraceSys) (cd : AccCompound) (now : ℕ) (clk : ℕ → ℤ)
    (op : GraceOp) : Prop where
  quiet : Throughout s.grace clk →
    Reclaims s cd op ∨ Released cd.clientid s.store (dispatchOp b s cd now clk op).1.store
  refused : (dispatchOp b s cd now clk op).2 = .grace →
    (dispatchOp b s cd now clk op).1.store = s.store
  /-- The period ends when all recorded clients have completed, or at a reading past its time. -/
  ends : s.grace.inGrace = true → (dispatchOp b s cd now clk op).1.grace.inGrace = false →
    (∃ k, s.deadline ≤ clk k) ∨
      s.recorded ≠ [] ∧ ∀ c ∈ s.recorded, c ∈ (dispatchOp b s cd now clk op).1.completed

/-- What a step may do: the law for operations, and no step leaves a period that all recorded
clients have completed. -/
structure GraceLaw (b : Bsearch) (s : GraceSys) (e : GraceEvent) (t : GraceSys) : Prop where
  op : ∀ cd now clk o, e = .op cd now clk o → OpLaw b s cd now clk o
  pending : t.grace.inGrace = true → t.recorded ≠ [] → ∃ c ∈ t.recorded, c ∉ t.completed

/-! ## The condition -/

/-- All lock states and layouts with the stateid are the caller's. -/
def OwnStates (s : AccStore) (cd : AccCompound) (sid : Stateid) : Prop :=
  ∀ sid', compoundResolveStateid (s.lockCompound cd fun _ => false) sid = .ok sid' →
    (∀ os ∈ s.lt.owners, os.stateid.other = sid'.other → os.clientid = cd.clientid) ∧
      ∀ row ∈ s.layouts, row.other = sid'.other → row.clientid = cd.clientid

/-- The open that a stateid names denies these bits already. -/
def KeepsDeny (s : AccStore) (cd : AccCompound) (sid : Stateid) (shareDeny : UInt32) : Prop :=
  ∀ sid' o, (s.io cd 0).resolve sid = .ok sid' → openStateFind s.ot sid' = some o →
    Within shareDeny o.shareDeny

/-- The condition on an operation during grace. -/
def OpOk (b : Bsearch) (s : GraceSys) (cd : AccCompound) : GraceOp → Prop
  -- An OPEN that may create finds its name taken.
  | .acc (.openFile a) => ∀ fh name, cd.currentFh = some fh → a.claim = .null name →
      a.create.isSome → (s.store.cat.direntFind fh.toNat name).isSome
  -- Reclaims come from clients that are recovering.
  | .acc (.lock _ _ _ a) => a.reclaim = true → graceClientIsRecovering b s.grace cd.clientid = true
  -- The caller's own state is released.
  | .acc (.locku _ sid _ _) | .freeStateid sid => OwnStates s.store cd sid
  -- The open that the stateid names gets no more deny bits.
  | .acc (.openDowngrade sid _ shareDeny) => KeepsDeny s.store cd sid shareDeny
  | _ => True

/-- The condition on a step. Periods do not overlap, every client is recorded once and the
list is tracked, and during a period the clock neither goes back behind its start nor jumps
by 2³² seconds. -/
def GraceOk (b : Bsearch) (s : GraceSys) : GraceEvent → Prop
  | .enter _ now => (graceIsActive s.grace now).2 = false
  | .enterWithClients _ recs alloc now =>
    (graceIsActive s.grace now).2 = false ∧ recs.Nodup ∧ graceTracks recs alloc = true
  | .op cd _ clk op => s.grace.inGrace = true →
      (∀ k, s.grace.startTime ≤ clk k ∧ clk k < s.grace.startTime + 2 ^ 32) ∧ OpOk b s cd op
  | .background _ _ => True

/-! ## Releases -/

section Stores

variable {now : ℕ} {s : AccStore} {cd : AccCompound} {op : AccOp} {a : OpenReq} {g : GraceState}
  {time : ℤ} {b : Bsearch} {c : Clientid} {other : Other} {sid : Stateid} {ot : OpenTable}
  {lt : LockTable} {alloc : Bool} {offset length : UInt64} {shareAccess shareDeny : UInt32}

theorem released_refl (c : Clientid) (s : AccStore) : Released c s s :=
  ⟨rfl, rfl, rfl, .refl _, .refl _, .refl _, .refl _⟩

theorem released_of_locks (h : LocksShrink c s.lt.owners lt.owners) : Released c s { s with lt } :=
  ⟨rfl, rfl, rfl, .refl _, h, .refl _, .refl _⟩

theorem other_of_find_hasSid {l : List LockOwnerState} {n : ℕ} {os : LockOwnerState}
    (h : l.find? (hasSid n other) = some os) : os ∈ l ∧ os.stateid.other = other := by
  have hp := List.find?_some h
  simp only [hasSid, Bool.and_eq_true, beq_iff_eq] at hp
  exact ⟨mem_of_find?_eq_some h, hp.2⟩

theorem shrinks_lockRelease
    (hown : ∀ os ∈ lt.owners, os.stateid.other = sid.other → os.clientid = c) :
    LocksShrink c lt.owners (lockRelease lt alloc sid offset length).1.owners := by
  unfold lockRelease
  dsimp only
  split
  · exact .refl _
  split
  · exact .refl _
  next os hf =>
    split
    · exact .refl _
    obtain ⟨hmem, hother⟩ := other_of_find_hasSid hf
    have hc := hown os hmem hother
    refine .modifyFirst fun a ha => ?_
    obtain rfl := mem_unique ha hf
    exact ⟨hc, hc, rfl, rfl, fun t b => heldAt_of_carveRange _ _ _ _ _⟩

theorem shrinks_lockFreeStateid
    (hown : ∀ os ∈ lt.owners, os.stateid.other = other → os.clientid = c) :
    LocksShrink c lt.owners (lockFreeStateid lt other).1.owners := by
  unfold lockFreeStateid
  dsimp only
  split
  · exact .refl _
  next os hf =>
    split
    · exact .refl _
    · refine .eraseP fun a ha => ?_
      obtain ⟨hmem, hother⟩ := other_of_find_hasSid ha
      exact hown a hmem hother

theorem clientid_of_checkOpenStateid {os} (h : checkOpenStateid ot c sid = .ok os) :
    os.clientid = c := by
  unfold checkOpenStateid at h
  split at h
  · cases h
  · split_ifs at h with hc
    cases h
    exact not_not.mp hc

theorem shrinks_openStateDowngrade
    (hdeny : ∀ o, openStateFind ot sid = some o → Within shareDeny o.shareDeny) :
    OpensShrink c ot.opens (openStateDowngrade ot c sid shareAccess shareDeny).1.opens := by
  unfold openStateDowngrade
  split
  · exact .refl _
  next hcheck =>
    split
    · exact .refl _
    next hacc =>
      have hfind := (checkOpenStateid_ok hcheck).1
      have hc := clientid_of_checkOpenStateid hcheck
      refine .modifyFirst fun a ha => ?_
      obtain rfl := mem_unique ha hfind
      exact ⟨hc, hc, rfl, rfl, not_not.mp hacc, hdeny a ha⟩

theorem released_planDowngrade (hdeny : KeepsDeny s cd sid shareDeny) (now : ℕ) :
    Released cd.clientid s ((planDowngrade s cd sid shareAccess shareDeny).run
        (applyAct now) s) := by
  let P (p : AccPlan) : Prop := Released cd.clientid s (p.run (applyAct now) s)
  have hrefuse (e : NfsErr) : P (.fail cd e) := released_refl _ _
  refine of_get (P := P) hrefuse fun _ _ => ?_
  refine of_need (P := P) hrefuse ?_
  refine of_check (P := P) hrefuse fun sid hsid => ?_
  have hot : OpensShrink cd.clientid s.ot.opens
      (openStateDowngrade s.ot cd.clientid sid shareAccess shareDeny).1.opens :=
    shrinks_openStateDowngrade (hdeny sid · (ok_of_mapError hsid))
  split
  · exact hrefuse _
  next heq =>
    rw [heq] at hot
    exact ⟨rfl, rfl, rfl, hot, .refl _, .refl _, .refl _⟩

theorem released_planDelegreturn (s : AccStore) (cd : AccCompound) (sid : Stateid) (now : ℕ) :
    Released cd.clientid s ((planDelegreturn s cd sid).run (applyAct now) s) := by
  refine of_check (P := fun p => Released _ s (p.run _ s))
    (fun _ => released_refl _ _) fun _ _ => ?_
  refine ⟨rfl, rfl, rfl, .refl _, .refl _, .eraseP fun d hd => ?_, .refl _⟩
  have hp := List.find?_some hd
  simp only [Bool.and_eq_true, beq_iff_eq] at hp
  exact hp.2

theorem released_lockAnswer {r} (h : LocksShrink c s.lt.owners r.1.owners) (now : ℕ) :
    Released c s ((lockAnswer s cd r).run (applyAct now) s) := by
  unfold lockAnswer
  split <;> exact released_of_locks h

theorem shrinks_opLocku (hown : OwnStates s cd sid) : LocksShrink cd.clientid s.lt.owners
      (opLocku s.lt (s.lockCompound cd fun _ => false) alloc sid offset length).1.owners := by
  unfold opLocku
  split
  · exact .refl _
  next sid' hsid => exact shrinks_lockRelease (hown sid' hsid).1

theorem entries_delegFreeRevoked {dt dt'} (h : delegFreeRevoked dt other = some dt') :
    dt'.entries = dt.entries := by
  unfold delegFreeRevoked at h
  split_ifs at h
  cases h
  rfl

theorem released_freeStateid (hown : OwnStates s cd sid) :
    Released cd.clientid s (freeStateid s cd sid).1 := by
  unfold freeStateid
  split
  · exact released_refl _ _
  next sid' hsid =>
    obtain ⟨hownLocks, hownRows⟩ := hown sid' hsid
    have hlocks := shrinks_lockFreeStateid hownLocks
    refine freeStateidProbes_of (P := fun r : AccStore × _ => Released cd.clientid s r.1)
      ?_ ?_ ?_ ?_ (released_refl _ _)
    · intro r hr
      obtain ⟨_, -, rfl⟩ := map_eq_some_iff.mp hr
      exact released_refl _ _
    · intro r hr
      split at hr <;> cases hr
      next heq =>
        rw [heq] at hlocks
        exact released_of_locks hlocks
      · exact released_refl _ _
    · intro r hr
      obtain ⟨_, hdt, rfl⟩ := map_eq_some_iff.mp hr
      exact ⟨rfl, rfl, rfl, .refl _, .refl _, entries_delegFreeRevoked hdt ▸ .refl _, .refl _⟩
    · intro r hr
      obtain ⟨_, -, rfl⟩ := map_eq_some_iff.mp hr
      refine ⟨rfl, rfl, rfl, .refl _, .refl _, .refl _, .eraseP fun row hrow => ?_⟩
      exact hownRows row (mem_of_find?_eq_some hrow) (by simpa using List.find?_some hrow)

/-! ## What passes the allow-list -/

/-- The allowed operations on opens, locks and delegations. -/
def AccOp.onState : AccOp → Bool
  | .openFile _ | .lock _ _ _ _ | .locku _ _ _ _ | .openDowngrade _ _ _ | .delegreturn _ => true
  | _ => false

theorem acts_of_graceAllows (hallow : graceAllows op.opcode = true) (hstate : op.onState = false) :
    (accPlan now s cd op).acts = [] := by
  cases op with
  | putfh | savefh | restorefh | lookup | lookupp | getxattr | listxattrs =>
  exact acts_of_reading rfl
  | openFile | lock | locku | openDowngrade | delegreturn => cases hstate
  | _ => cases hallow

theorem free_of_created {fh t} (h : openTarget now s cd fh a = .ok t) (hc : t.created.isSome) :
    ∃ name, a.claim = .null name ∧ a.create.isSome ∧ s.cat.direntFind fh.toNat name = none := by
  have hnew {name : Name} {hw : OpenCreate} (hf : openCreateFile now s cd fh name hw = .ok t) :
      s.cat.direntFind fh.toNat name = none := by
    unfold openCreateFile at hf
    split_ifs at hf
    split at hf
    next hok => exact (memNsCreate_ok hok).2.1
    · split_ifs at hf
      split at hf
      · cases hf
        cases hc
      all_goals cases hf
  unfold openTarget at h
  split at h
  next name hclaim =>
    refine ⟨name, hclaim, ?_⟩
    unfold openByName at h
    split at h
    · cases h
    split_ifs at h
    split at h
    next hf => exact ⟨by rw [(filter_eq_some_iff.mp hf).1]; rfl, hnew h⟩
    · split at h
      · cases h
        cases hc
      · split_ifs at h
        cases h
        cases hc
      · cases h
      next hcr => exact ⟨by rw [hcr]; rfl, hnew h⟩
      · cases h
  · split at h <;> cases h
    cases hc

/-- What an OPEN does: it stops before the create, or at the grace check, or it goes through. -/
theorem openInGrace_cases (now : ℕ) (s : AccStore) (cd : AccCompound) (a : OpenReq)
    (hasReclaimed : Bool) (g : GraceState) (time : ℤ) :
    (∃ r, openInGrace now s cd a hasReclaimed g time = (s, g, r)) ∨
      (∃ fh t, cd.currentFh = some fh ∧ openTarget now s cd fh a = .ok t ∧
        (graceIsActive g time).2 = true ∧ openInGrace now s cd a hasReclaimed g time =
          ((t.created.toList.map fun c => .ns (.create c)).foldl (applyAct now) s,
            (graceIsActive g time).1, .grace)) ∨
      (graceIsActive g time).2 = false ∧ openInGrace now s cd a hasReclaimed g time =
        ((planOpen now s cd a).run (applyAct now) s, (graceIsActive g time).1,
          .acc (planOpen now s cd a).res) := by
  unfold openInGrace
  split
  · exact .inl ⟨_, rfl⟩
  next fh hfh =>
    by_cases hreq : cd.clientid ≠ 0 ∧ (!hasReclaimed) = true
    · rw [if_pos hreq]
      exact .inl ⟨_, rfl⟩
    rw [if_neg hreq]
    split
    · exact .inl ⟨_, rfl⟩
    next t ht =>
      by_cases hreg : t.ino.type ≠ .reg
      · rw [if_pos hreg]
        exact .inl ⟨_, rfl⟩
      rw [if_neg hreg]
      cases hact : (graceIsActive g time).2 with
      | true => exact .inr (.inl ⟨fh, t, hfh, ht, rfl, rfl⟩)
      | false => exact .inr (.inr ⟨rfl, rfl⟩)

/-- An OPEN that finds its name taken changes nothing as long as grace lasts. -/
theorem store_openInGrace {hasReclaimed}
    (hname : ∀ fh name, cd.currentFh = some fh → a.claim = .null name → a.create.isSome →
      (s.cat.direntFind fh.toNat name).isSome)
    (h : (graceIsActive g time).2 = true ∨ (openInGrace now s cd a hasReclaimed g time).2.2 =
      .grace) :
    (openInGrace now s cd a hasReclaimed g time).1 = s := by
  rcases openInGrace_cases now s cd a _ g time with
    ⟨r, heq⟩ | ⟨fh, t, hfh, ht, -, heq⟩ | ⟨hact, heq⟩
  · rw [heq]
  · rw [heq]
    cases hc : t.created with
    | none => rfl
    | some =>
      obtain ⟨name, hclaim, hcreate, hfree⟩ := free_of_created ht (by rw [hc]; rfl)
      have htaken := hname fh name hfh hclaim hcreate
      rw [hfree] at htaken
      cases htaken
  · rw [heq, hact] at h
    rcases h with h | h <;> cases h

/-- A LOCK answered `NFS4ERR_GRACE`, or one that is no reclaim during grace, changes nothing. -/
theorem store_lockInGrace {alloc retry leaseExpired a time'}
    (h : (graceIsActive g time).2 = true ∧ a.reclaim = false ∨
      (lockInGrace s cd alloc retry leaseExpired a g time time').2.2 = .grace) :
    (lockInGrace s cd alloc retry leaseExpired a g time time').1 = s := by
  unfold lockInGrace at h ⊢
  split
  · rfl
  next hfh =>
    simp only [hfh] at h
    cases hgate : (graceIsActive g time).2 && !a.reclaim with
    | true => rfl
    | false =>
      rw [hgate] at h
      rcases h with ⟨hact, hrec⟩ | h
      · rw [hact, hrec] at hgate
        cases hgate
      · cases h

end Stores

/-! ## One operation -/

variable {b : Bsearch} {s t : GraceSys} {cd : AccCompound} {now : ℕ} {clk : ℕ → ℤ} {op : GraceOp}
  {g : GraceState} {time : ℤ}

theorem graceIsActive_of_active (h : (graceIsActive g time).2 = true) :
    graceIsActive g time = (g, true) := by
  rcases graceIsActive_cases g time with ⟨heq, -⟩ | ⟨-, -, heq⟩
  · rw [heq] at h ⊢
    exact congrArg _ h
  · rw [heq] at h
    cases h

section

variable (b s cd)

theorem reclaimComplete_cases (oneFs : Bool) (time : ℤ) :
    (reclaimComplete b s cd oneFs time).2 ≠ .grace ∧
      ((reclaimComplete b s cd oneFs time).1 = s ∨
        ∃ clients, (reclaimComplete b s cd oneFs time).1 = { s with
          clients
          grace := if (graceIsActive s.grace time).2 then
              (graceClientReclaimed b (graceIsActive s.grace time).1 cd.clientid).1
            else (graceIsActive s.grace time).1
          completed := cd.clientid :: s.completed }) := by
  unfold reclaimComplete
  split
  · exact ⟨nofun, .inl rfl⟩
  split
  · exact ⟨nofun, .inl rfl⟩
  split
  · exact ⟨nofun, .inl rfl⟩
  · exact ⟨nofun, .inr ⟨_, rfl⟩⟩

theorem store_reclaimComplete (oneFs : Bool) (time : ℤ) :
    (reclaimComplete b s cd oneFs time).1.store = s.store := by
  rcases (reclaimComplete_cases b s cd oneFs time).2 with heq | ⟨_, heq⟩ <;> rw [heq]

theorem store_openPrevious (now clk) :
    (graceHandle b s cd now clk .openPrevious).1.store = s.store := by
  rw [graceHandle]
  cases cd.currentFh <;> rfl

theorem store_openUnsupported (now clk) :
    (graceHandle b s cd now clk .openUnsupported).1.store = s.store := by
  rw [graceHandle]
  cases cd.currentFh <;> rfl

end

/-- What the handlers of the allowed operations change while the period is active. -/
theorem released_graceHandle (hth : Throughout s.grace clk) (hallow : graceAllows op.opcode = true)
    (hok : OpOk b s cd op) (hrec : graceClientIsRecovering b s.grace cd.clientid = true →
      cd.clientid ∈ s.recorded ∧ cd.clientid ∉ s.completed) :
    Reclaims s cd op ∨ Released cd.clientid s.store (graceHandle b s cd now clk op).1.store := by
  cases op with
  | acc op =>
    have hread : op.onState = false → Released cd.clientid s.store (accStep now s.store cd op) := by
      intro hstate
      rw [accStep, Plan.run, acts_of_graceAllows hallow hstate]
      exact released_refl _ _
    cases op with
    | openFile a =>
      have hsame : (graceHandle b s cd now clk (.acc (.openFile a))).1.store = s.store :=
        store_openInGrace hok (.inl (hth 1))
      rw [hsame]
      exact .inr (released_refl _ _)
    | lock alloc retry leaseExpired a =>
      cases ha : a.reclaim with
      | true => exact .inl ⟨alloc, retry, leaseExpired, a, rfl, ha, hrec (hok ha)⟩
      | false =>
        have hsame : (graceHandle b s cd now clk (.acc (.lock alloc retry leaseExpired a))).1.store
            = s.store := store_lockInGrace (.inl ⟨hth 1, ha⟩)
        rw [hsame]
        exact .inr (released_refl _ _)
    | locku => exact .inr (released_lockAnswer (shrinks_opLocku hok) now)
    | openDowngrade => exact .inr (released_planDowngrade hok now)
    | delegreturn sid => exact .inr (released_planDelegreturn _ cd sid now)
    | _ => exact .inr (hread rfl)
  | freeStateid => exact .inr (released_freeStateid hok)
  | rest code => exact absurd hallow (by rw [GraceOp.opcode, code.2]; nofun)
  | reclaimComplete oneFs => exact .inr (store_reclaimComplete b s cd oneFs _ ▸ released_refl _ _)
  | openPrevious => exact .inr (store_openPrevious b s cd now clk ▸ released_refl _ _)
  | openUnsupported => exact .inr (store_openUnsupported b s cd now clk ▸ released_refl _ _)
  | reading | session => exact .inr (released_refl _ _)

@[simp] theorem inGrace_graceIsActive (g : GraceState) (time : ℤ) :
    (graceIsActive g time).1.inGrace = (graceIsActive g time).2 := by
  rcases graceIsActive_cases g time with ⟨heq, -⟩ | ⟨-, -, heq⟩ <;> rw [heq]
  rfl

theorem graceIsActive_of_over (h : g.inGrace = false) (time : ℤ) :
    graceIsActive g time = (g, false) := by
  unfold graceIsActive
  rw [h]
  rfl

theorem inGrace_of_active (h : (graceIsActive g time).2 = true) : g.inGrace = true := by
  rw [← h, ← inGrace_graceIsActive, graceIsActive_of_active h]

theorem dispatchOp_of_active (h : (graceIsActive s.grace (clk 0)).2 = true) :
    dispatchOp b s cd now clk op =
      if graceAllows op.opcode then graceHandle b s cd now clk op else (s, .grace) := by
  unfold dispatchOp
  rw [graceIsActive_of_active h]
  cases graceAllows op.opcode <;> rfl

theorem dispatchOp_of_inactive (h : (graceIsActive s.grace (clk 0)).2 = false) :
    dispatchOp b s cd now clk op =
      graceHandle b { s with grace := (graceIsActive s.grace (clk 0)).1 } cd now clk op := by
  unfold dispatchOp
  dsimp only
  rw [h]
  rfl

/-- No other handler answers `NFS4ERR_GRACE`. -/
theorem freeStateid_ne_grace (s : AccStore) (cd : AccCompound) (sid : Stateid) :
    (freeStateid s cd sid).2 ≠ .grace := by
  unfold freeStateid
  split
  · exact nofun
  refine freeStateidProbes_of (P := fun r : _ × GraceAnswer => r.2 ≠ .grace) ?_ ?_ ?_ ?_ nofun
  case refine_2 =>
    intro r hr
    split at hr <;> cases hr <;> nofun
  all_goals
    intro r hr
    obtain ⟨_, -, rfl⟩ := map_eq_some_iff.mp hr
    nofun

theorem store_of_refused (hok : s.grace.inGrace = true → OpOk b s cd op)
    (h : (graceHandle b s cd now clk op).2 = .grace) :
    (graceHandle b s cd now clk op).1.store = s.store := by
  cases op with
  | acc op =>
    cases op with
    | openFile a =>
      rcases openInGrace_cases now s.store cd a (s.hasReclaimed cd.clientid) s.grace (clk 1) with
        ⟨r, heq⟩ | ⟨_, t, -, -, hact, -⟩ | ⟨-, heq⟩
      · simp [graceHandle, heq]
      · exact store_openInGrace (hok (inGrace_of_active hact)) (.inl hact)
      · simp only [graceHandle, heq] at h
        cases h
    | lock => exact store_lockInGrace (.inr h)
    | _ => cases h
  | freeStateid sid => exact absurd h (freeStateid_ne_grace _ cd sid)
  | reclaimComplete oneFs => exact absurd h (reclaimComplete_cases b s cd oneFs _).1
  | openPrevious => exact store_openPrevious b s cd now clk
  | openUnsupported => exact store_openUnsupported b s cd now clk
  | reading | session => rfl
  | rest => cases h

/-- What an operation does to the period: it reads the clock, or completes a reclaim. -/
inductive PeriodTo (b : Bsearch) (s : GraceSys) (c : Clientid) (clk : ℕ → ℤ) :
    GraceState → List Clientid → Prop
  | same : PeriodTo b s c clk s.grace s.completed
  | read (k : ℕ) : PeriodTo b s c clk (graceIsActive s.grace (clk k)).1 s.completed
  | completed (k : ℕ) : PeriodTo b s c clk
      (if (graceIsActive s.grace (clk k)).2 then (graceClientReclaimed b s.grace c).1
        else (graceIsActive s.grace (clk k)).1) (c :: s.completed)

section

variable (b s cd now clk)

theorem periodTo_openInGrace (a : OpenReq) : PeriodTo b s cd.clientid clk
      (openInGrace now s.store cd a (s.hasReclaimed cd.clientid) s.grace (clk 1)).2.1
      s.completed := by
  rcases openInGrace_cases now _ cd a _ _ _ with
    ⟨r, heq⟩ | ⟨_, t, -, -, -, heq⟩ | ⟨-, heq⟩ <;> rw [heq]
  · exact .same
  · exact .read 1
  · exact .read 1

theorem periodTo_lockInGrace (alloc retry : LockAlloc) (leaseExpired : Clientid → Bool)
    (a : ArgLock) : PeriodTo b s cd.clientid clk
      (lockInGrace s.store cd alloc retry leaseExpired a s.grace (clk 1) (clk 2)).2.1
      s.completed := by
  unfold lockInGrace
  split
  · exact .same
  cases hact : (graceIsActive s.grace (clk 1)).2 with
  | true =>
    rw [graceIsActive_of_active hact]
    cases a.reclaim with
    | true => exact .read 2
    | false => exact .same
  | false =>
    have hover : (graceIsActive s.grace (clk 1)).1.inGrace = false := by simp [hact]
    rw [graceIsActive_of_over hover]
    exact .read 1

/-- What an operation leaves of the period and of what is recorded with it. -/
structure Handled (b : Bsearch) (s : GraceSys) (c : Clientid) (clk : ℕ → ℤ) (t : GraceSys) :
    Prop where
  recorded : t.recorded = s.recorded
  deadline : t.deadline = s.deadline
  period : PeriodTo b s c clk t.grace t.completed

theorem handled_reclaimComplete (oneFs : Bool) :
    Handled b s cd.clientid clk (reclaimComplete b s cd oneFs (clk 1)).1 := by
  rcases (reclaimComplete_cases b s cd oneFs _).2 with heq | ⟨_, heq⟩ <;> rw [heq]
  · exact ⟨rfl, rfl, .same⟩
  refine ⟨rfl, rfl, ?_⟩
  have hdone : PeriodTo b s cd.clientid clk _ _ := .completed 1
  cases hact : (graceIsActive s.grace (clk 1)).2 with
  | true =>
    rw [graceIsActive_of_active hact] at hdone ⊢
    exact hdone
  | false =>
    rw [hact] at hdone
    exact hdone

theorem handled_graceHandle (op : GraceOp) :
    Handled b s cd.clientid clk (graceHandle b s cd now clk op).1 := by
  cases op with
  | acc op =>
    cases op with
    | openFile a => exact ⟨rfl, rfl, periodTo_openInGrace b s cd now clk a⟩
    | lock alloc retry _ a => exact ⟨rfl, rfl, periodTo_lockInGrace b s cd clk alloc retry _ a⟩
    | _ => exact ⟨rfl, rfl, .same⟩
  | openPrevious =>
    rw [graceHandle]
    cases cd.currentFh with
    | none => exact ⟨rfl, rfl, .same⟩
    | some => exact ⟨rfl, rfl, .read 1⟩
  | openUnsupported =>
    rw [graceHandle]
    cases cd.currentFh <;> exact ⟨rfl, rfl, .same⟩
  | reclaimComplete oneFs => exact handled_reclaimComplete b s cd clk oneFs
  | _ => exact ⟨rfl, rfl, .same⟩

theorem handled_dispatchOp (op : GraceOp) :
    Handled b s cd.clientid clk (dispatchOp b s cd now clk op).1 := by
  cases hact : (graceIsActive s.grace (clk 0)).2 with
  | true =>
    rw [dispatchOp_of_active hact]
    split
    · exact handled_graceHandle b s cd now clk op
    · exact ⟨rfl, rfl, .same⟩
  | false =>
    rw [dispatchOp_of_inactive hact]
    obtain ⟨hr, hd, hto⟩ := handled_graceHandle b
      { s with grace := (graceIsActive _ _).1 } cd now clk op
    refine ⟨hr, hd, ?_⟩
    generalize (graceHandle b _ cd now clk op).1.grace = g,
      (graceHandle b _ cd now clk op).1.completed = done at hto ⊢
    -- The period is over, so every further reading leaves it as the first did.
    have hover : (graceIsActive s.grace (clk 0)).1.inGrace = false := by simp [hact]
    have hdone : PeriodTo b s cd.clientid clk _ _ := .completed 0
    rw [hact] at hdone
    cases hto with
    | same => exact .read 0
    | read =>
      rw [graceIsActive_of_over hover]
      exact .read 0
    | completed =>
      rw [graceIsActive_of_over hover]
      exact hdone

end

/-! ## The period -/

/-- A period that lasts: its deadline, and an array with one entry for each recorded client,
marked if the client has completed reclaim. -/
structure Lasting (s : GraceSys) : Prop where
  deadline : s.deadline = s.grace.startTime + s.grace.durationSec.toNat
  keys : ∀ c, c ∈ s.grace.keys ↔ c ∈ s.recorded
  nodup : s.grace.keys.Nodup
  marked : ∀ e ∈ s.grace.clients, e.reclaimed = true ↔ e.clientid ∈ s.completed

structure GraceInv (s : GraceSys) : Prop where
  wf : s.grace.Wf
  lasting : s.grace.inGrace = true → Lasting s

theorem GraceInv.pending (h : GraceInv s) (hin : s.grace.inGrace = true) (hne : s.recorded ≠ []) :
    ∃ c ∈ s.recorded, c ∉ s.completed := by
  have hl := h.lasting hin
  obtain ⟨c, hc⟩ := exists_mem_of_ne_nil _ hne
  have hclients : s.grace.clients ≠ [] := by
    intro hnil
    have hkey := (hl.keys c).mpr hc
    rw [GraceState.keys, hnil] at hkey
    cases hkey
  have hlt := h.wf.pending hin hclients
  rw [h.wf.counted, countP_lt_length_iff] at hlt
  obtain ⟨e, he, hopen⟩ := hlt
  refine ⟨e.clientid, (hl.keys _).mp (mem_map_of_mem he), fun hdone => ?_⟩
  rw [(hl.marked e he).mpr hdone] at hopen
  cases hopen

variable {c : Clientid} {recs : List Clientid}

theorem GraceInv.recovering (h : GraceInv s) (hrec : graceClientIsRecovering b s.grace c = true) :
    c ∈ s.recorded ∧ c ∉ s.completed := by
  obtain ⟨hin, hany⟩ := Bool.and_eq_true_iff.mp hrec
  cases hf : findClient b s.grace c with
  | none =>
    rw [hf] at hany
    cases hany
  | some found =>
    obtain ⟨i, e⟩ := found
    rw [hf, any_some] at hany
    obtain ⟨hget, rfl⟩ := findClient_some hf
    have he := mem_of_getElem? hget
    have hl := h.lasting hin
    refine ⟨(hl.keys _).mp (mem_map_of_mem he), fun hdone => ?_⟩
    rw [(hl.marked e he).mpr hdone] at hany
    cases hany

/-- With a clock that stays within 2³² seconds, a period is over only when its time is up. -/
theorem deadline_le_of_over (hl : Lasting s) (hin : s.grace.inGrace = true)
    (hclk : s.grace.startTime ≤ time ∧ time < s.grace.startTime + 2 ^ 32)
    (hover : (graceIsActive s.grace time).2 = false) : s.deadline ≤ time := by
  rcases graceIsActive_cases _ time with ⟨heq, -⟩ | ⟨-, hup, -⟩
  · rw [heq] at hover
    exact absurd (hin.symm.trans hover) nofun
  have helapsed : (s.grace.elapsed time : ℤ) = time - s.grace.startTime := by
    unfold GraceState.elapsed
    rw [Int.emod_eq_of_lt (by omega) (by omega), Int.toNat_of_nonneg (by omega)]
  rw [hl.deadline]
  omega

theorem graceInv_of_over {s} (h : s.grace = graceInit ∨ ∃ g, s.grace = graceExit g) :
    GraceInv s := by
  rcases h with h | ⟨g, h⟩ <;>
    exact ⟨h ▸ wf_of_clients_nil rfl rfl, fun hin => absurd hin (by rw [h]; nofun)⟩

theorem GraceInv.congr (h : GraceInv s) (hg : t.grace = s.grace) (hr : t.recorded = s.recorded)
    (hc : t.completed = s.completed) (hd : t.deadline = s.deadline) : GraceInv t := by
  refine ⟨hg ▸ h.wf, fun hin => ?_⟩
  have hl := h.lasting (hg ▸ hin)
  exact ⟨by rw [hd, hg, hl.deadline], by rw [hg, hr]; exact hl.keys, by rw [hg]; exact hl.nodup,
    by rw [hg, hc]; exact hl.marked⟩

theorem lasting_graceClientReclaimed (h : GraceInv s) (hin : s.grace.inGrace = true)
    (hg : t.grace = (graceClientReclaimed b s.grace c).1) (hr : t.recorded = s.recorded)
    (hc : t.completed = c :: s.completed) (hd : t.deadline = s.deadline)
    (hstill : t.grace.inGrace = true) : Lasting t := by
  have hl := h.lasting hin
  rw [hg] at hstill
  obtain ⟨hkeys, hold⟩ := graceClientReclaimed_frame hstill
  refine ⟨?_, ?_, ?_, fun e he => ?_⟩
  · rw [hd, hl.deadline, hg]
    have hcase := graceClientReclaimed_cases b s.grace c
    generalize (graceClientReclaimed b s.grace c).1 = g at hcase
    cases hcase <;> rfl
  · rw [hg, hkeys, hr]
    exact hl.keys
  · rw [hg, hkeys]
    exact hl.nodup
  · rw [hg] at he
    rw [hc, mem_cons]
    by_cases hec : e.clientid = c
    · exact iff_of_true (reclaimed_graceClientReclaimed h.wf hl.nodup hstill he hec) (.inl hec)
    · rcases hold e he with he | ⟨hec', -⟩
      · rw [hl.marked e he, or_iff_right hec]
      · exact absurd hec' hec

theorem graceInv_dispatchOp (h : GraceInv s) : GraceInv (dispatchOp b s cd now clk op).1 := by
  obtain ⟨hr, hd, hto⟩ := handled_dispatchOp b s cd now clk op
  generalize hg : (dispatchOp b s cd now clk op).1.grace = g,
    hc : (dispatchOp b s cd now clk op).1.completed = done at hto
  have hread (k : ℕ) : (graceIsActive s.grace (clk k)).1 = s.grace ∨
      ∃ g, (graceIsActive s.grace (clk k)).1 = graceExit g := by
    rcases graceIsActive_cases _ _ with ⟨heq, -⟩ | ⟨-, -, heq⟩ <;> rw [heq]
    · exact .inl rfl
    · exact .inr ⟨_, rfl⟩
  cases hto with
  | same => exact h.congr hg hr hc hd
  | read k =>
    rcases hread k with heq | ⟨g, heq⟩ <;> rw [heq] at hg
    · exact h.congr hg hr hc hd
    · exact graceInv_of_over (.inr ⟨g, hg⟩)
  | completed k =>
    cases hact : (graceIsActive s.grace (clk k)).2 with
    | true =>
      rw [if_pos hact] at hg
      refine ⟨hg ▸ wf_graceClientReclaimed h.wf _, fun hin => ?_⟩
      exact lasting_graceClientReclaimed h (inGrace_of_active hact) hg hr hc hd hin
    | false =>
      rw [if_neg (by rw [hact]; nofun)] at hg
      refine ⟨hg ▸ wf_graceIsActive h.wf _, fun hin => ?_⟩
      rw [hg, inGrace_graceIsActive, hact] at hin
      cases hin

theorem graceInv_entered {g} (hwf : g.Wf) (hkeys : ∀ c, c ∈ g.keys ↔ c ∈ recs)
    (hnodup : g.keys.Nodup) (hfresh : ∀ e ∈ g.clients, e.reclaimed = false)
    (hidle : (graceIsActive s.grace g.startTime).2 = false) : GraceInv (s.entered g recs) := by
  have heq : s.entered g recs = { s with
      grace := g, recorded := recs, completed := []
      deadline := g.startTime + g.durationSec.toNat } := by
    unfold GraceSys.entered
    rw [hidle]
    rfl
  rw [heq]
  exact ⟨hwf, fun _ => ⟨rfl, hkeys, hnodup, fun e he => by simp [hfresh e he]⟩⟩

theorem graceInv_step {e} (h : GraceInv s) (hok : GraceOk b s e)
    (hstep : graceStep b s e = some t) : GraceInv t := by
  cases e with
  | enter =>
    cases hstep
    exact graceInv_entered (wf_of_clients_nil rfl rfl) (fun _ => Iff.rfl) nodup_nil nofun hok
  | enterWithClients durationSec recs alloc time =>
    obtain ⟨hidle, hnodup, htracks⟩ := hok
    cases hstep
    have hclients : (graceEnterWithClients durationSec recs alloc time).clients =
        (recs.insertionSort cmpClientid).map fun c => ⟨c, false⟩ := by
      rw [graceEnterWithClients, if_pos htracks]
    have hkeys : (graceEnterWithClients durationSec recs alloc time).keys =
        recs.insertionSort cmpClientid := by
      rw [GraceState.keys, hclients, List.map_map]
      exact List.map_id _
    have hperm := perm_insertionSort cmpClientid recs
    refine graceInv_entered (wf_graceEnterWithClients _ _ _ _) (fun c => ?_) ?_ ?_ hidle
    · rw [hkeys]
      exact hperm.mem_iff
    · rw [hkeys]
      exact hperm.nodup_iff.mpr hnodup
    · rw [hclients]
      simp
  | op =>
    cases hstep
    exact graceInv_dispatchOp h
  | background =>
    cases hstep
    exact h.congr rfl rfl rfl rfl

/-! ## The result -/

theorem graceInv_reachable {s} (hs : Reachable GraceStart (graceStep b) (GraceOk b) s) :
    GraceInv s :=
  hs.invariant (fun _ h0 => graceInv_of_over (.inl h0)) fun _ _ _ h hok hstep =>
    graceInv_step h hok hstep

theorem opLaw_of_ok {s clk op} (h : GraceInv s) (hok : GraceOk b s (.op cd now clk op)) :
    OpLaw b s cd now clk op where
  quiet hth := by
    rw [dispatchOp_of_active (hth 0)]
    split
    next hallow =>
      exact released_graceHandle hth hallow (hok (inGrace_of_active (hth 0))).2 h.recovering
    · exact .inr (released_refl _ _)
  refused := by
    cases hact : (graceIsActive s.grace (clk 0)).2 with
    | true =>
      rw [dispatchOp_of_active hact]
      split
      · exact store_of_refused fun hin => (hok hin).2
      · exact fun _ => rfl
    | false =>
      rw [dispatchOp_of_inactive hact]
      refine store_of_refused fun hin => ?_
      rw [inGrace_graceIsActive, hact] at hin
      cases hin
  ends hin hend := by
    have hl := h.lasting hin
    have hto := (handled_dispatchOp b s cd now clk op).period
    generalize (dispatchOp b s cd now clk op).1.grace = g,
      (dispatchOp b s cd now clk op).1.completed = done at hto hend ⊢
    cases hto with
    | same => exact absurd (hin.symm.trans hend) nofun
    | read k =>
      rw [inGrace_graceIsActive] at hend
      exact .inl ⟨k, deadline_le_of_over hl hin ((hok hin).1 k) hend⟩
    | completed k =>
      cases hact : (graceIsActive s.grace (clk k)).2 with
      | false => exact .inl ⟨k, deadline_le_of_over hl hin ((hok hin).1 k) hact⟩
      | true =>
        rw [if_pos hact] at hend
        obtain ⟨hne, hall⟩ := graceClientReclaimed_ends h.wf hin hend
        refine .inr ⟨fun hnil => ?_, fun c hc => ?_⟩
        · obtain ⟨e, he⟩ := exists_mem_of_ne_nil _ hne
          have hmem := (hl.keys _).mp (mem_map_of_mem he)
          rw [hnil] at hmem
          cases hmem
        · obtain ⟨e, he, rfl⟩ := mem_map.mp ((hl.keys c).mpr hc)
          rcases hall e he with hrec | hec
          · exact mem_cons_of_mem _ ((hl.marked e he).mp hrec)
          · exact hec ▸ mem_cons_self

/-- **During grace nothing changes except by reclaim**, and the period lasts as long as it
should, in every run whose steps meet the condition. -/
theorem nothing_changes_in_grace {b : Bsearch} {s t : GraceSys} {e : GraceEvent}
    (hs : Reachable GraceStart (graceStep b) (GraceOk b) s) (hok : GraceOk b s e)
    (hstep : graceStep b s e = some t) : GraceLaw b s e t where
  op _ _ _ _ he := opLaw_of_ok (graceInv_reachable hs) (he ▸ hok)
  pending := (graceInv_step (graceInv_reachable hs) hok hstep).pending

/-- A search from the left. -/
def linearSearch : Bsearch where
  find l c := l.idxOf? c
  found {l c i} h := by
    obtain ⟨hi, hkey, -⟩ := List.findIdx?_eq_some_iff_getElem.mp h
    rw [List.getElem?_eq_getElem hi, beq_iff_eq.mp hkey]
  missed _ h := List.idxOf?_eq_none_iff.mp h

/-- A server that has been running for client 2 and takes over from one that served client 7. -/
def survivor : GraceSys :=
  { store := newAccServer, clients := [⟨2, true⟩, ⟨7, false⟩], grace := graceInit, recorded := []
    completed := [], deadline := 0 }

/-- The server in the grace period after the take-over. -/
def survivorInGrace : GraceSys := survivor.entered (graceEnterWithClients 90 [7] true 0) [7]

theorem reachable_survivorInGrace :
    Reachable GraceStart (graceStep linearSearch) (GraceOk linearSearch) survivorInGrace := by
  refine .next (a := .enterWithClients 90 [7] true 0) (.start (s := survivor) rfl) ?_ rfl
  exact ⟨rfl, by decide, by decide⟩

/-- A compound of a client in the root directory, with root's credentials. -/
def rootCompoundOf (clientid : Clientid) : AccCompound :=
  { compoundOf 0 fileidRoot.toUInt64 with clientid }

/-- Client 7 completes reclaim, and the period is over. -/
theorem last_reclaim_ends_grace :
    let e : GraceEvent := .op (rootCompoundOf 7) 1 (fun _ => 10) (.reclaimComplete false)
    let t := (dispatchOp linearSearch survivorInGrace (rootCompoundOf 7) 1 (fun _ => 10)
      (.reclaimComplete false)).1
    t.grace.inGrace = false ∧ GraceLaw linearSearch survivorInGrace e t := by
  have hclk : survivorInGrace.grace.startTime ≤ 10 ∧
      10 < survivorInGrace.grace.startTime + 2 ^ 32 := by decide +kernel
  refine ⟨by decide +kernel, nothing_changes_in_grace reachable_survivorInGrace ?_ rfl⟩
  exact fun _ => ⟨fun _ => hclk, trivial⟩

-- A client recorded twice completes reclaim once, and the period goes on.
example : (graceClientReclaimed linearSearch (graceEnterWithClients 90 [7, 7] true 0) 7).1.inGrace =
    true := by decide +kernel

/-- Client 2, which is not recovering, opens a new file: it is told `NFS4ERR_GRACE`, and the file
is there. -/
theorem refused_open_creates : let cd := rootCompoundOf 2
    let op : GraceOp := .acc (openCreating [97] ⟨0o644, 0, 0⟩)
    let r := dispatchOp linearSearch survivorInGrace cd 1 (fun _ => 10) op
    Reachable GraceStart (graceStep linearSearch) anyStep survivorInGrace ∧
      graceStep linearSearch survivorInGrace (.op cd 1 (fun _ => 10) op) = some r.1 ∧
      Throughout survivorInGrace.grace (fun _ => 10) ∧ r.2 = .grace ∧
      survivorInGrace.store.cat.direntFind fileidRoot [97] = none ∧
      (r.1.store.cat.direntFind fileidRoot [97]).isSome ∧
      ¬GraceLaw linearSearch survivorInGrace (.op cd 1 (fun _ => 10) op) r.1 := by
  intro cd op r
  have hthere : (r.1.store.cat.direntFind fileidRoot [97]).isSome := by decide +kernel
  have hfree : survivorInGrace.store.cat.direntFind fileidRoot [97] = none := by decide +kernel
  refine ⟨reachable_survivorInGrace.mono (fun _ h => h) fun _ _ _ => trivial, rfl, fun _ => rfl,
      rfl, hfree, hthere, fun hlaw => ?_⟩
  have hsame := (hlaw.op cd 1 (fun _ => 10) op rfl).refused rfl
  rw [show r.1.store = survivorInGrace.store from hsame] at hthere
  cases hthere

end PnfsLattice
