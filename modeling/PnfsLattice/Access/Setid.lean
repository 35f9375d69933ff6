import PnfsLattice.Access.Policy

/-!
# Owners, groups and the set-id bits

Nobody but root is to give files away or to forge privilege bits. An object belongs to the
caller that made it; only root changes owners; a group is changed by root, or by the owner to
one of the owner's groups; `S_ISGID` is set only by members of the group; and a regular file
that an unprivileged caller has changed carries neither `S_ISUID` nor an effective `S_ISGID`
until the mode is set again.

The last of these speaks of the past, so the server is run with a record of the files that
were changed since their mode was set.
-/

namespace PnfsLattice

open Lib List Option Plan Function

/-! ## The bits -/

/-- `S_ISUID`, or `S_ISGID` on a file that the group may execute. -/
def Privileged (mode : UInt32) : Prop :=
  mode &&& sIsuid ≠ 0 ∨ mode &&& sIsgid ≠ 0 ∧ mode &&& sIxgrp ≠ 0
deriving Decidable

section Bits

variable {mode : UInt32}

theorem clearSetid_eq : clearSetid mode =
    if mode &&& ~~~sIsuid &&& sIxgrp ≠ 0 then mode &&& ~~~sIsuid &&& ~~~sIsgid
    else mode &&& ~~~sIsuid := rfl

theorem not_privileged_clearSetid : ¬Privileged (clearSetid mode) := by
  have huid : mode &&& ~~~sIsuid &&& sIsuid = 0 := and_not_and_self mode sIsuid
  rw [clearSetid_eq]
  split
  next hx =>
    have huid' : mode &&& ~~~sIsuid &&& ~~~sIsgid &&& sIsuid = 0 := by
      rw [and_not_and_of_disjoint (by decide), huid]
    have hgid : mode &&& ~~~sIsuid &&& ~~~sIsgid &&& sIsgid = 0 := and_not_and_self _ _
    simp [Privileged, huid', hgid]
  next hx =>
    simp only [Privileged, huid, ne_eq, not_true_eq_false, false_or, not_and]
    exact fun _ => hx

theorem sgid_of_clearSetid (h : clearSetid mode &&& sIsgid ≠ 0) : mode &&& sIsgid ≠ 0 := by
  rw [clearSetid_eq] at h
  split at h
  · exact absurd (and_not_and_self _ _) h
  · rwa [and_not_and_of_disjoint (by decide)] at h

variable {mode' : UInt32} {c : Cred} {ino : MdsInode}

/-- A mode that is kept or cleared has no new privilege bits. -/
theorem not_privileged_of_kept (h : mode' = mode ∨ mode' = clearSetid mode)
    (hp : ¬Privileged mode) : ¬Privileged mode' := by
  rcases h with rfl | rfl
  · exact hp
  · exact not_privileged_clearSetid

theorem sgid_of_kept (h : mode' = mode ∨ mode' = clearSetid mode) (hbit : mode' &&& sIsgid ≠ 0) :
    mode &&& sIsgid ≠ 0 := by
  rcases h with rfl | rfl
  · exact hbit
  · exact sgid_of_clearSetid hbit

theorem not_privileged_of_writeClearsSetid (hdac : c.dacActive) (huser : c.uid ≠ 0)
    (hreg : ino.type = .reg) : ¬Privileged ((writeClearsSetid c ino).getD ino.mode) := by
  simp only [writeClearsSetid, hdac, Bool.not_true, Bool.false_or, huser, decide_false, hreg,
    ne_eq, not_true_eq_false, if_false, Bool.false_eq_true]
  split
  next hbits =>
    rw [and_or_distrib, UInt32.or_eq_zero_iff] at hbits
    simp [Privileged, hbits.1, hbits.2]
  · split
    next heq =>
      rw [← heq]
      exact not_privileged_clearSetid
    next => exact not_privileged_clearSetid

theorem writeClearsSetid_eq_some {mode} (h : writeClearsSetid c ino = some mode) :
    mode = clearSetid ino.mode := by
  unfold writeClearsSetid at h
  split_ifs at h
  exact (some.inj h).symm

end Bits

/-! ## The contract -/

/-- What a step of an unprivileged caller does to owners, groups and `S_ISGID`. New objects
are made in the current directory. -/
structure Fair (s : AccStore) (cd : AccCompound) (s' : AccStore) : Prop where
  created : ∀ f ino', s.getattr f = none → s'.getattr f = some ino' →
    cd.cred.OwnsId ino'.uid ∧ (cd.cred.InGroup ino'.gid ∨
      ∃ fh dir, cd.currentFh = some fh ∧ s.getattr fh = some dir ∧ ino'.gid = dir.gid)
  owner : ∀ f ino ino', s.getattr f = some ino → s'.getattr f = some ino' → ino'.uid = ino.uid
  group : ∀ f ino ino', s.getattr f = some ino → s'.getattr f = some ino' →
    ino'.gid = ino.gid ∨ cd.cred.OwnsId ino.uid ∧ cd.cred.InGroup ino'.gid
  sgid : ∀ f ino', s'.getattr f = some ino' → ino'.mode &&& sIsgid ≠ 0 →
    (∀ ino, s.getattr f = some ino → ino.mode &&& sIsgid = 0) → cd.cred.InGroup ino'.gid

/-- The data or the size of a file that was there has changed. -/
def ContentChanged (s s' : AccStore) (f : Fileid) : Prop :=
  s'.data f ≠ s.data f ∨
    ∃ ino ino', s.getattr f = some ino ∧ s'.getattr f = some ino' ∧ ino'.size ≠ ino.size

def AccOp.Chmods (cd : AccCompound) (f : Fileid) : AccOp → Prop
  | .setattr _ _ mask => cd.currentFh = some f ∧ selects mask attrMode = true
  | _ => False

def AccOp.isSetattr : AccOp → Bool
  | .setattr _ _ _ => true
  | _ => false

theorem AccOp.setattr_or (op : AccOp) :
    (∃ sid attrs mask, op = .setattr sid attrs mask) ∨ op.isSetattr = false := by
  cases op with
  | setattr sid attrs mask => exact .inl ⟨sid, attrs, mask, rfl⟩
  | _ => exact .inr rfl

/-- The server, and the files whose data or size a caller other than root has changed since
their mode was last set. -/
structure Tracked where
  store : AccStore
  touched : Fileid → Prop

/-- A request: the clock, the compound and the operation. -/
structure AccRequest where
  now : ℕ
  cd : AccCompound
  op : AccOp

/-- The mode of a file is set when it is made and by a chmod that is answered with success. -/
def SetsMode (s : AccStore) (l : AccRequest) (f : Fileid) : Prop :=
  s.getattr f = none ∨ l.op.Chmods l.cd f ∧ (accPlan l.now s l.cd l.op).res.isOk = true

/-- An operation with its entry in the record. -/
def trackStep (s : Tracked) (l : AccRequest) : Option Tracked :=
  some
    { store := accStep l.now s.store l.cd l.op
      touched := fun f => ¬SetsMode s.store l f ∧ (s.touched f ∨
        l.cd.cred.uid ≠ 0 ∧ ContentChanged s.store (accStep l.now s.store l.cd l.op) f) }

/-- The record is empty at first. -/
def TrackStart (s : Tracked) : Prop :=
  Reachable AccStart accMachine AccLegal s.store ∧ ∀ f, ¬s.touched f

/-! ## The conditions -/

/-- A WRITE that the data servers carry out. -/
def AccOp.CleanWrite : AccOp → Prop
  | .write _ offset bytes io => io.status = none ∧ offset.toNat + bytes.length < 2 ^ 64
  | _ => False

/-- The conditions on an operation of an unprivileged caller. A create asks for no other
owner, for no foreign group, and not for `S_ISGID` in one; ids are not cut when they are
compared in 32 bits; and a file with privilege bits is changed by a successful WRITE only. -/
structure PrivOk (s : AccStore) (cd : AccCompound) (op : AccOp) : Prop where
  create : ∀ a fh dir, op.createReq = some a → cd.currentFh = some fh → s.getattr fh = some dir →
    (a.uid = 0 ∨ cd.cred.OwnsId a.uid) ∧
      (a.gid = 0 ∨ cd.cred.InGroup a.gid ∨ a.gid = dir.gid ∧ a.mode &&& sIsgid = 0)
  setattr : ∀ sid attrs mask fh pre, op = .setattr sid attrs mask → cd.currentFh = some fh →
    s.getattr fh = some pre → pre.Narrow ∧ (selects mask attrGid = true → NarrowId attrs.gid)
  write : ∀ sid fh ino, op.writeSid = some sid → cd.currentFh = some fh →
    s.getattr fh = some ino → ino.type = .reg → Privileged ino.mode → op.CleanWrite

/-- A request under AUTH_SYS with `posix_dac` on that meets the conditions, while the 64-bit
counter of fileids has not wrapped. -/
structure PrivStep (s : Tracked) (l : AccRequest) : Prop where
  dac : l.cd.cred.dacActive = true
  wire : l.op.Wire
  counter : s.store.cat.nextFileid ≤ 2 ^ 64
  user : l.cd.cred.uid ≠ 0 → PrivOk s.store l.cd l.op

/-! ## Files that are there -/

/-- Owner, group and type are kept, and the mode at most loses its privilege bits. -/
structure Calm (ino ino' : MdsInode) : Prop where
  type : ino'.type = ino.type
  uid : ino'.uid = ino.uid
  gid : ino'.gid = ino.gid
  mode : ino'.mode = ino.mode ∨ ino'.mode = clearSetid ino.mode

theorem Calm.of_sameAttrs {ino ino₁ ino'} (h : Calm ino ino₁) (hs : ino'.SameAttrs ino₁) :
    Calm ino ino' :=
  ⟨hs.type.trans h.type, hs.uid.trans h.uid, hs.gid.trans h.gid, by rw [hs.mode]; exact h.mode⟩

/-- A call of SETATTR that only clears. -/
structure ClearsOnly (s : AccStore) (g : Fileid) (attrs : MdsInode) (mask : UInt32) : Prop where
  uid : selects mask attrUid = false
  gid : selects mask attrGid = false
  mode : ∃ ino, s.getattr g = some ino ∧
    (selects mask attrMode = true → attrs.mode = clearSetid ino.mode)

variable {now : ℕ} {s : AccStore} {cd : AccCompound} {op : AccOp} {f fh g : Fileid} {sid : Stateid}
  {ino ino' attrs pre : MdsInode} {mask : UInt32}

section

variable (hino : s.getattr g = some ino)

include hino

/-- The masks of the writers: the mode is added if there is something to clear. -/
theorem clearsOnly_of {m cleared}
    (hm : selects m attrMode = false ∧ selects m attrUid = false ∧ selects m attrGid = false)
    (hcl : ∀ mode, cleared = some mode → mode = clearSetid ino.mode)
    (hmode : attrs.mode = cleared.getD ino.mode) :
    ClearsOnly s g attrs (m ||| if cleared.isSome then attrMode else 0) := by
  cases cleared with
  | none =>
    simp only [isSome_none, Bool.false_eq_true, if_false, UInt32.or_zero]
    exact ⟨hm.2.1, hm.2.2, ino, hino, fun hsel => absurd (hm.1.symm.trans hsel) (by decide)⟩
  | some mode =>
    rw [isSome_some]
    refine ⟨?_, ?_, ino, hino, fun _ => hmode.trans (hcl mode rfl)⟩
    · rw [selects_or_left, hm.2.1]
      decide
    · rw [selects_or_left, hm.2.2]
      decide

theorem clearsOnly_writeAttrs (c : Cred) (stop : UInt64) :
    ClearsOnly s g (writeAttrs c ino stop).1 (writeAttrs c ino stop).2 := by
  refine clearsOnly_of hino ?_ (fun _ => writeClearsSetid_eq_some) rfl
  split <;> decide

end

theorem clearsOnly_of_planned (hg : (s.cat.graph false).Good) (hcount : s.cat.nextFileid ≤ 2 ^ 64)
    (hns : op.isSetattr = false) (hp : Planned now s cd op (.setattr g attrs mask)) :
    ClearsOnly s g attrs mask := by
  cases hp with
  | wrote _ _ _ hino => exact clearsOnly_writeAttrs hino _ _
  | grow _ _ _ _ hino
  | hpcShared _ hino => exact ⟨rfl, rfl, _, hino, fun h => absurd h (by decide)⟩
  | setattr hop =>
    subst hop
    cases hns
  | layoutcommit _ _ hino =>
    refine clearsOnly_of hino ?_ (fun _ hmode => ?_) rfl
    · split_ifs <;> decide
    · split_ifs at hmode
      exact writeClearsSetid_eq_some hmode
  | openClears _ hino _ hclear =>
    refine ⟨rfl, rfl, _, getattr_fh hg hcount hino, fun _ => writeClearsSetid_eq_some hclear⟩

theorem calm_setattrInode {ino₁} (hcl : ClearsOnly s f attrs mask) (hino : s.getattr f = some ino)
    (h : Calm ino ino₁) : Calm ino (setattrInode now attrs mask ino₁) := by
  obtain ⟨_, hino₀, hmode⟩ := hcl.mode
  cases hino.symm.trans hino₀
  refine ⟨h.type, ?_, ?_, ?_⟩
  · simp [setattrInode, hcl.uid, h.uid]
  · simp [setattrInode, hcl.gid, h.gid]
  · by_cases hsel : selects mask attrMode = true
    · exact .inr (by simp [setattrInode, hsel, hmode])
    · simpa [setattrInode, hsel] using h.mode

theorem calm_accStep (hg : (s.cat.graph false).Good) (hcount : s.cat.nextFileid ≤ 2 ^ 64)
    (hns : op.isSetattr = false) (hino : s.getattr f = some ino)
    (hino' : (accStep now s cd op).getattr f = some ino') : Calm ino ino' := by
  refine inode_accStep (fun ino₁ hino₁ => ?_) (fun _ _ h hs => h.of_sameAttrs hs)
    (fun _ _ _ ha h => ?_) (fun _ _ _ _ hle _ => ?_) hino'
  · cases hino.symm.trans hino₁
    exact ⟨rfl, rfl, rfl, .inl rfl⟩
  · exact calm_setattrInode (clearsOnly_of_planned hg hcount hns (planned_of_mem ha)) hino h
  · exact absurd hle (lt_nextFileid_of_getattr hg hino).not_ge

/-! ## New files -/

/-- An object with the attributes that the request asks for. -/
def MadeBy (s : AccStore) (cd : AccCompound) (op : AccOp) (ino' : MdsInode) : Prop :=
  ∃ req fh dir name type n now, op.createReq = some req ∧ cd.currentFh = some fh ∧
    s.getattr fh = some dir ∧ ino'.SameAttrs ((req.args cd.cred fh.toNat name type).child n now)

theorem exists_of_planned_setattr (hg : (s.cat.graph false).Good)
    (hcount : s.cat.nextFileid ≤ 2 ^ 64) (hp : Planned now s cd op (.setattr g attrs mask)) :
    ∃ ino, s.getattr g = some ino := by
  cases hp with
  | setattr _ _ _ hino | wrote _ _ _ hino | grow _ _ _ _ hino | hpcShared _ hino
  | layoutcommit _ _ hino => exact ⟨_, hino⟩
  | openClears _ hino => exact ⟨_, getattr_fh hg hcount hino⟩

theorem madeBy_accStep (hg : (s.cat.graph false).Good) (hcount : s.cat.nextFileid ≤ 2 ^ 64)
    (hf : s.getattr f = none) (hino' : (accStep now s cd op).getattr f = some ino') :
    MadeBy s cd op ino' := by
  refine inode_accStep (fun ino hino => ?_) ?_ (fun _ _ _ ha _ => ?_)
    (fun _ n _ ha _ hsame => ?_) hino'
  · cases hf.symm.trans hino
  · rintro _ _ ⟨req, fh, dir, name, type, n, now', hreq, hfh, hdir, hold⟩ hsame
    exact ⟨req, fh, dir, name, type, n, now', hreq, hfh, hdir, hsame.trans hold⟩
  · obtain ⟨_, hino⟩ := exists_of_planned_setattr hg hcount (planned_of_mem ha)
    cases hf.symm.trans hino
  · cases planned_of_mem ha with
    | create hreq hfh hpar => exact ⟨_, _, _, _, _, n, now, hreq, hfh, hpar, hsame⟩

/-- What a request that meets the conditions makes is the caller's. -/
theorem owned_of_madeBy (huser : cd.cred.uid ≠ 0) (hok : PrivOk s cd op) (h : MadeBy s cd op ino') :
    cd.cred.OwnsId ino'.uid ∧
      (cd.cred.InGroup ino'.gid ∨ ino'.mode &&& sIsgid = 0 ∧
        ∃ fh dir, cd.currentFh = some fh ∧ s.getattr fh = some dir ∧ ino'.gid = dir.gid) := by
  obtain ⟨req, fh, dir, _, _, n, _, hreq, hfh, hdir, hsame⟩ := h
  obtain ⟨huid, hgid⟩ := hok.create req fh dir hreq hfh hdir
  have hmine : cd.cred.InGroup cd.cred.gid.toUInt64 :=
    mem_map_of_mem mem_cons_self
  obtain ⟨-, hmode, hown, hgroup, -⟩ := hsame
  dsimp only [CreateReq.args, CreateArgs.child] at hmode hown hgroup
  constructor
  · rw [hown]
    split
    · rfl
    next hne => exact huid.resolve_left fun h0 => hne ⟨h0, huser⟩
  · rw [hgroup, hmode]
    split
    · exact .inl hmine
    next hne =>
      rcases hgid with h0 | hin | ⟨hpar, hnobit⟩
      · have hzero : cd.cred.gid = 0 := by_contra fun hne' => hne ⟨h0, hne'⟩
        rw [hzero] at hmine
        exact .inl (h0 ▸ hmine)
      · exact .inl hin
      · exact .inr ⟨hnobit, fh, dir, hfh, hdir, hpar⟩

/-! ## SETATTR -/

section Adjust

variable {c : Cred} {a : SetattrArgs} {mode : UInt32}

def storedMode (c : Cred) (pre : MdsInode) (a : SetattrArgs) : UInt32 :=
  if selects (setattrAdjust c pre a).2 attrMode then (setattrAdjust c pre a).1 else pre.mode

theorem selects_or_mode (mask : UInt32) : selects (mask ||| attrMode) attrMode = true := by
  rw [selects_or_left, show selects attrMode attrMode = true from rfl, Bool.or_true]

theorem chownClears_cases (pre : MdsInode) (mask mode : UInt32) :
    chownClears pre mask mode = (mode, mask) ∨
      chownClears pre mask mode =
        (clearSetid (if selects mask attrMode then mode else pre.mode), mask ||| attrMode) := by
  unfold chownClears
  generalize (if selects mask attrMode = true then mode else pre.mode) = base
  split
  · dsimp only
    split
    · exact .inr rfl
    · exact .inl rfl
  · exact .inl rfl

theorem truncateClears_cases (c : Cred) (pre : MdsInode) (size : UInt64) (mode mask : UInt32) :
    truncateClears c pre size mode mask = (mode, mask) ∨
      selects mask attrMode = false ∧
        truncateClears c pre size mode mask = (clearSetid pre.mode, mask ||| attrMode) := by
  unfold truncateClears
  split
  next hc =>
    split
    · exact .inl rfl
    next hcl =>
      rw [writeClearsSetid_eq_some hcl]
      exact .inr ⟨by simpa using hc.2.2.2.2, rfl⟩
  · exact .inl rfl

theorem truncateClears_of_mode {size} :
    truncateClears c pre size mode (mask ||| attrMode) = (mode, mask ||| attrMode) := by
  simp [truncateClears, selects_or_mode]

/-- A SETATTR of the mode stores the requested mode, without `S_ISGID` for a caller outside
the group and perhaps without the privilege bits. Another one stores none, or the mode
without the privilege bits. -/
theorem storedMode_cases (c : Cred) (pre : MdsInode) (a : SetattrArgs) :
    (selects a.mask attrMode = true ∧ (storedMode c pre a = dropForeignSgid c pre a ∨
        storedMode c pre a = clearSetid (dropForeignSgid c pre a))) ∨
      selects a.mask attrMode = false ∧
        (storedMode c pre a = pre.mode ∨ storedMode c pre a = clearSetid pre.mode) := by
  rw [storedMode, setattrAdjust]
  rcases chownClears_cases pre a.mask (dropForeignSgid c pre a) with hch | hch <;>
    simp only [hch]
  · rcases truncateClears_cases c pre a.attrs.size (dropForeignSgid c pre a) a.mask with
      htr | ⟨hm, htr⟩
    · cases hm : selects a.mask attrMode <;> simp [htr, hm]
    · simp [htr, hm, selects_or_mode]
  · simp only [truncateClears_of_mode, selects_or_mode, if_true]
    cases selects a.mask attrMode <;> simp

/-- A change of the size of a regular file by an unprivileged caller clears the bits. -/
theorem not_privileged_of_truncate (hdac : c.dacActive) (huser : c.uid ≠ 0) (hreg : pre.type = .reg)
    (hsel : selects a.mask attrSize = true) (hsize : a.attrs.size ≠ pre.size)
    (hmode : selects a.mask attrMode = false) : ¬Privileged (storedMode c pre a) := by
  rw [storedMode, setattrAdjust]
  rcases chownClears_cases pre a.mask (dropForeignSgid c pre a) with hch | hch <;>
    simp only [hch]
  · have hcl := not_privileged_of_writeClearsSetid hdac huser hreg
    simp only [truncateClears, hsel, huser, hsize, hreg, hmode, ne_eq, not_false_eq_true,
      Bool.not_false, and_self, if_true]
    cases hwc : writeClearsSetid c pre with
    | none =>
      rw [hwc] at hcl
      simpa [hmode] using hcl
    | some =>
      rw [hwc] at hcl
      simpa [selects_or_mode] using hcl
  · simp [truncateClears_of_mode, selects_or_mode, not_privileged_clearSetid]

end Adjust

/-- The inode after a SETATTR that the matrix has let through. -/
def SetattrArgs.result (a : SetattrArgs) (now : ℕ) (c : Cred) (ino : MdsInode) : MdsInode :=
  setattrInode now { a.attrs with mode := (setattrAdjust c ino a).1 } (setattrAdjust c ino a).2 ino

theorem setattrGates_ok {c pre a} (h : setattrGates c pre a = .ok ()) :
    (selects a.mask attrUid = true → a.attrs.uid = pre.uid) ∧
      (selects a.mask attrGid = true → c.uid = pre.uid.toUInt32 ∧
        (a.attrs.gid = pre.gid ∨ c.inGroup a.attrs.gid.toUInt32 = true)) := by
  simp only [setattrGates] at h
  split_ifs at h with h₁ h₂ h₃ h₄ h₅
  refine ⟨fun hu => ?_, fun hg => ⟨?_, ?_⟩⟩
  · by_contra hne
    exact h₂ ⟨hu, hne⟩
  · by_contra hne
    exact h₄ ⟨hg, hne⟩
  · by_contra hne
    rw [not_or, Bool.not_eq_true] at hne
    exact h₅ ⟨hg, hne.1, by rw [hne.2]; rfl⟩

section Setattr

variable {a : SetattrArgs}

theorem setattrDacCheck_ok {new} (hdac : cd.cred.dacActive)
    (h : setattrDacCheck cd.cred pre a = .ok new) :
    new = ({ a.attrs with mode := (setattrAdjust cd.cred pre a).1 },
        (setattrAdjust cd.cred pre a).2) ∧
      (cd.cred.uid ≠ 0 → setattrGates cd.cred pre a = .ok ()) := by
  unfold setattrDacCheck at h
  rw [hdac] at h
  simp only [Bool.not_true, Bool.false_eq_true, if_false] at h
  split at h
  next hroot =>
    cases h
    exact ⟨rfl, fun hne => absurd hroot hne⟩
  · split at h <;> cases h
    next hgate => exact ⟨rfl, fun _ => hgate⟩

theorem accStep_setattr (now : ℕ) (s : AccStore) (cd : AccCompound) (sid : Stateid)
    (attrs : MdsInode) (mask : UInt32) :
    let P (p : AccPlan) : Prop := p.run (applyAct now) s = s ∨
      ∃ fh pre new, cd.currentFh = some fh ∧ s.getattr fh = some pre ∧
        setattrDacCheck cd.cred pre ⟨attrs, mask, hasStateid sid⟩ = .ok new ∧
        p.res.isOk = true ∧ p.run (applyAct now) s = applyAct now s (.setattr fh new.1 new.2)
    P (accPlan now s cd (.setattr sid attrs mask)) := by
  intro P
  have hrefuse (e : NfsErr) : P (.fail cd e) := .inl rfl
  refine of_get (P := P) hrefuse fun fh hfh => ?_
  refine of_check (P := P) hrefuse fun _ _ => ?_
  refine of_get (P := P) hrefuse fun pre hpre => ?_
  refine of_check (P := P) hrefuse fun new hnew => ?_
  split
  · exact .inl rfl
  · exact .inr ⟨fh, pre, new, hfh, hpre, ok_of_mapError hnew, rfl, rfl⟩

theorem setattr_effect (hdac : cd.cred.dacActive) (hino : s.getattr f = some ino)
    (hino' : (accStep now s cd (.setattr sid attrs mask)).getattr f = some ino') : ino' = ino ∨
      cd.currentFh = some f ∧ (accPlan now s cd (.setattr sid attrs mask)).res.isOk = true ∧
        (cd.cred.uid ≠ 0 → setattrGates cd.cred ino ⟨attrs, mask, hasStateid sid⟩ = .ok ()) ∧
        ino' = SetattrArgs.result ⟨attrs, mask, hasStateid sid⟩ now cd.cred ino := by
  rcases accStep_setattr now s cd sid attrs mask with heq | ⟨_, _, _, hfh, hpre, hck, hres, heq⟩
  · rw [accStep, heq, hino] at hino'
    cases hino'
    exact .inl rfl
  · obtain ⟨rfl, hgates⟩ := setattrDacCheck_ok hdac hck
    rw [accStep, heq, getattr_setattr] at hino'
    split at hino'
    next hf =>
      obtain rfl := hf
      cases hpre.symm.trans hino
      rw [hpre] at hino'
      cases hino'
      exact .inr ⟨hfh, hres, hgates, rfl⟩
    next =>
      cases hino.symm.trans hino'
      exact .inl rfl

theorem getattr_setattr_of_none (hf : s.getattr f = none) :
    (accStep now s cd (.setattr sid attrs mask)).getattr f = none := by
  rcases accStep_setattr now s cd sid attrs mask with heq | ⟨_, _, _, -, -, -, -, heq⟩
  · rw [accStep, heq, hf]
  · rw [accStep, heq, getattr_setattr, hf]
    split <;> rfl

section Result

variable (now : ℕ) (c : Cred) (ino : MdsInode) (a : SetattrArgs)

theorem gid_result :
    (a.result now c ino).gid = if selects a.mask attrGid then a.attrs.gid else ino.gid := by
  rw [← @selects_setattrAdjust c ino _ _ (by decide)]
  rfl

theorem uid_result :
    (a.result now c ino).uid = if selects a.mask attrUid then a.attrs.uid else ino.uid := by
  rw [← @selects_setattrAdjust c ino _ _ (by decide)]
  rfl

theorem size_result (hext : selects a.mask attrSizeExtend = false) :
    (a.result now c ino).size = if selects a.mask attrSize then a.attrs.size else ino.size := by
  have hsel : selects (setattrAdjust c ino a).2 attrSize = selects a.mask attrSize :=
    selects_setattrAdjust (by decide)
  have hsel' : selects (setattrAdjust c ino a).2 attrSizeExtend = false := by
    rw [selects_setattrAdjust (by decide), hext]
  rw [← hsel]
  simp [SetattrArgs.result, setattrInode, setattrSize, hsel']

end Result

theorem inGroup_of_storedMode {c} (huser : c.uid ≠ 0) (hnew : storedMode c pre a &&& sIsgid ≠ 0)
    (hold : pre.mode &&& sIsgid = 0) :
    c.inGroup (if selects a.mask attrGid then a.attrs.gid else pre.gid).toUInt32 = true := by
  rcases storedMode_cases c pre a with ⟨hsel, hmode⟩ | ⟨-, hmode⟩
  · have hdrop := sgid_of_kept hmode hnew
    by_contra hno
    rw [Bool.not_eq_true] at hno
    simp only [dropForeignSgid, hsel, huser, hno, ne_eq, not_false_eq_true, Bool.not_false,
      and_self, if_true, and_not_and_self, not_true_eq_false] at hdrop
  · exact absurd hold (sgid_of_kept hmode hnew)

theorem fair_setattr (hdac : cd.cred.dacActive) (huser : cd.cred.uid ≠ 0)
    (hok : PrivOk s cd (.setattr sid attrs mask)) :
    Fair s cd (accStep now s cd (.setattr sid attrs mask)) := by
  constructor
  · intro f ino' hnone hino'
    rw [getattr_setattr_of_none hnone] at hino'
    cases hino'
  · intro f ino ino' hino hino'
    rcases setattr_effect hdac hino hino' with rfl | ⟨-, -, hgates, rfl⟩
    · rfl
    have hu := (setattrGates_ok (hgates huser)).1
    rw [uid_result]
    split
    next hsel => exact hu hsel
    next => rfl
  · intro f ino ino' hino hino'
    rcases setattr_effect hdac hino hino' with rfl | ⟨hfh, -, hgates, rfl⟩
    · exact .inl rfl
    have hg := (setattrGates_ok (hgates huser)).2
    obtain ⟨hnarrow, hgid⟩ := hok.setattr sid attrs mask f ino rfl hfh hino
    rw [gid_result]
    split
    next hsel =>
      obtain ⟨howner, hsame | hin⟩ := hg hsel
      · exact .inl hsame
      · exact .inr ⟨(Cred.eq_toUInt32_iff hnarrow.1 _).mp howner,
          (Cred.inGroup_iff (hgid hsel)).mp hin⟩
    next => exact .inl rfl
  · intro f _ hino' hbit hold
    cases hino : s.getattr f with
    | none =>
      rw [getattr_setattr_of_none hino] at hino'
      cases hino'
    | some ino =>
      rcases setattr_effect hdac hino hino' with rfl | ⟨hfh, -, -, rfl⟩
      · exact absurd (hold _ hino) hbit
      obtain ⟨hnarrow, hgid⟩ := hok.setattr sid attrs mask f ino rfl hfh hino
      have hin := inGroup_of_storedMode huser hbit (hold ino hino)
      rw [gid_result]
      refine (Cred.inGroup_iff ?_).mp hin
      split
      next hsel => exact hgid hsel
      next => exact hnarrow.2

end Setattr

/-! ## Changed files -/

section Changed

theorem not_contentChanged_self : ¬ContentChanged s s f := by
  rintro (h | ⟨_, _, hino, hino', hne⟩)
  · exact h rfl
  · cases hino.symm.trans hino'
    exact hne rfl

theorem exists_writesData (hg : (s.cat.graph false).Good)
    (h : ContentChanged s (accStep now s cd op) f) :
    ∃ a ∈ (accPlan now s cd op).acts, a.WritesData f := by
  by_contra hno
  push Not at hno
  rcases h with hdata | ⟨_, _, hino, hino', hne⟩
  · exact hdata (data_accStep hno)
  · obtain ⟨_, hino₀, hsize⟩ := size_accStep hno (lt_nextFileid_of_getattr hg hino) hino'
    cases hino.symm.trans hino₀
    exact hne hsize

variable {a : AccAct}

/-- The operations that write data or change a size, of callers other than root. -/
theorem source_of_writesData (huser : cd.cred.uid ≠ 0) (hp : Planned now s cd op a)
    (hw : a.WritesData f) :
    cd.currentFh = some f ∧ ((∃ sid, op.writeSid = some sid) ∨ op.isSetattr = true ∨
      ∃ sid lastWrite timeModify, op = .layoutcommit sid lastWrite timeModify) := by
  cases hp with
  | edit hsid hfh =>
    obtain rfl := hw
    exact ⟨hfh, .inl ⟨_, hsid⟩⟩
  | wrote hsid hfh | grow hsid _ hfh =>
    obtain ⟨rfl, -⟩ := hw
    exact ⟨hfh, .inl ⟨_, hsid⟩⟩
  | hpcShared hroot => exact absurd hroot huser
  | setattr hop hfh =>
    obtain ⟨rfl, -⟩ := hw
    exact ⟨hfh, .inr (.inl (by rw [hop]; rfl))⟩
  | layoutcommit hop hfh =>
    obtain ⟨rfl, -⟩ := hw
    exact ⟨hfh, .inr (.inr ⟨_, _, _, hop⟩)⟩
  | openClears => exact absurd hw.2 (by decide)
  | create | remove | rename | link | tables | xattrPut | xattrDel => exact hw.elim

variable {offset : UInt64} {bytes : List UInt8} {io : IoChoice} {lastWrite : Option UInt64}
  {timeModify : Option ℕ}

theorem acts_planWrite (hclean : (AccOp.write sid offset bytes io).CleanWrite)
    (hx : cd.xattrObj = none) (hfh : cd.currentFh = some fh) (hfile : isXattrFh fh = false)
    (hio : ioCheck s cd fh sid .write = .ok ()) (hino : s.getattr fh = some ino) :
    (planWrite s cd sid offset bytes io).acts =
      .edit fh (.put offset.toNat (bytes.take io.moved)) ::
        if (bytes.take io.moved).isEmpty then [] else
          [.setattr fh
            (writeAttrs cd.cred ino (offset + UInt64.ofNat (bytes.take io.moved).length)).1
            (writeAttrs cd.cred ino (offset + UInt64.ofNat (bytes.take io.moved).length)).2] := by
  obtain ⟨hst, hlen⟩ := hclean
  have hshort : (bytes.take io.moved).length ≤ bytes.length := length_take_le' ..
  have hfits : ¬2 ^ 64 ≤ offset.toNat + (bytes.take io.moved).length := by omega
  simp only [planWrite, hx, hfh, Plan.get, hfile, Bool.not_false, Plan.need, if_true, hio,
    Plan.check, hfits, and_false, if_false, ioResult, hst, hino, toList_some, map_cons,
    map_nil, singleton_append]

theorem data_put_nil (d : FileData) (offset : ℕ) : (DataEdit.put offset []).apply d = d := by
  funext i
  simp only [DataEdit.apply, length_nil, Nat.add_zero]
  rw [if_neg (by omega)]

section

variable (hdac : cd.cred.dacActive) (huser : cd.cred.uid ≠ 0)

include hdac huser

theorem not_privileged_of_cleared (hreg : ino.type = .reg) {m : UInt32}
    (hm : selects m attrMode = false)
    (hmode : attrs.mode = (writeClearsSetid cd.cred ino).getD ino.mode) :
    ¬Privileged (setattrInode now attrs
      (m ||| if (writeClearsSetid cd.cred ino).isSome then attrMode else 0) ino).mode := by
  have hclear := not_privileged_of_writeClearsSetid hdac huser hreg
  cases hw : writeClearsSetid cd.cred ino <;> rw [hw] at hmode hclear
  · simpa [setattrInode, hm] using hclear
  · simpa [setattrInode, selects_or_mode, hmode] using hclear

/-- A LAYOUTCOMMIT that changes the size has a last written offset, and clears the bits. -/
theorem not_privileged_layoutCommitAttrs (hreg : ino.type = .reg)
    (hsel : selects (layoutCommitAttrs now cd.cred ino lastWrite timeModify).2
      (attrSize ||| attrSizeExtend) = true) :
    ¬Privileged (setattrInode now (layoutCommitAttrs now cd.cred ino lastWrite timeModify).1
      (layoutCommitAttrs now cd.cred ino lastWrite timeModify).2 ino).mode := by
  cases lastWrite with
  | none =>
    -- The size stays, so the mask does not name it.
    have hirrefl : ¬ino.size < ino.size := UInt64.lt_irrefl _
    have hno : selects (layoutCommitAttrs now cd.cred ino none timeModify).2
        (attrSize ||| attrSizeExtend) = false := by
      simp only [layoutCommitAttrs, map_none, getD_none, hirrefl, if_false]
      split_ifs <;> decide
    cases hno.symm.trans hsel
  | some =>
    refine not_privileged_of_cleared hdac huser hreg ?_ rfl
    split_ifs <;> decide

theorem not_privileged_of_write (hclean : (AccOp.write sid offset bytes io).CleanWrite)
    (ha : a ∈ (planWrite s cd sid offset bytes io).acts) (hw : a.WritesData f)
    (hfh : cd.currentFh = some f) (hino : s.getattr f = some ino) (hreg : ino.type = .reg)
    (hchange : ContentChanged s (accStep now s cd (.write sid offset bytes io)) f)
    (hino' : (accStep now s cd (.write sid offset bytes io)).getattr f = some ino') :
    ¬Privileged ino'.mode := by
  have hx : cd.xattrObj = none := by
    unfold planWrite at ha
    split at ha
    · simp only [mem_need, mem_check, mem_singleton] at ha
      obtain ⟨-, _, -, rfl⟩ := ha
      exact hw.elim
    next hx => exact hx
  have hguards : isXattrFh f = false ∧ ioCheck s cd f sid .write = .ok () := by
    simp only [planWrite, hx, mem_get, mem_need, mem_check, hfh] at ha
    obtain ⟨_, hf, hfile, _, hio, -⟩ := ha
    cases hf
    exact ⟨by simpa using hfile, hio⟩
  have hacts := acts_planWrite hclean hx hfh hguards.1 hguards.2 hino
  have hstep : accStep now s cd (.write sid offset bytes io) =
      (planWrite s cd sid offset bytes io).acts.foldl (applyAct now) s := rfl
  rw [hstep, hacts] at hchange hino'
  split at hino'
  next hempty =>
    -- Nothing was written, so nothing has changed.
    rw [if_pos hempty, isEmpty_iff.mp hempty, foldl_cons, foldl_nil] at hchange
    refine absurd ?_ (not_contentChanged_self (s := s) (f := f))
    simpa only [applyAct, data_put_nil, update_eq_self] using hchange
  next =>
    rw [foldl_cons, foldl_cons, foldl_nil, getattr_setattr, if_pos rfl] at hino'
    have hsame : (applyAct now s (.edit f (.put offset.toNat (bytes.take io.moved)))).getattr f =
        some ino := hino
    rw [hsame] at hino'
    cases hino'
    exact not_privileged_of_cleared hdac huser hreg (by split <;> decide) rfl

theorem not_privileged_of_layoutcommit
    (ha : a ∈ (planLayoutcommit now s cd sid lastWrite timeModify).acts) (hw : a.WritesData f)
    (hino : s.getattr f = some ino) (hreg : ino.type = .reg)
    (hino' : (accStep now s cd (.layoutcommit sid lastWrite timeModify)).getattr f = some ino') :
    ¬Privileged ino'.mode := by
  simp only [planLayoutcommit, mem_get, mem_check, mem_need] at ha
  obtain ⟨fh, hfh, _, hck, _, hpre, hlast, ha⟩ := ha
  split at ha
  · cases ha
  next hne =>
    rw [mem_singleton.mp ha] at hw
    obtain ⟨rfl, hsel⟩ := hw
    cases hino.symm.trans hpre
    have hplan : (planLayoutcommit now s cd sid lastWrite timeModify).acts =
        [.setattr fh (layoutCommitAttrs now cd.cred ino lastWrite timeModify).1
          (layoutCommitAttrs now cd.cred ino lastWrite timeModify).2] := by
      simp [planLayoutcommit, Plan.get, hfh, Plan.check, hck, hino, Plan.need, hlast, if_neg hne]
    have hstep : accStep now s cd (.layoutcommit sid lastWrite timeModify) =
        (planLayoutcommit now s cd sid lastWrite timeModify).acts.foldl (applyAct now) s := rfl
    rw [hstep, hplan, foldl_cons, foldl_nil, getattr_setattr, if_pos rfl, hino] at hino'
    cases hino'
    exact not_privileged_layoutCommitAttrs hdac huser hreg hsel

theorem not_privileged_of_setattr {mask} (hwire : Within mask wireMask)
    (hmode : ¬SetsMode s ⟨now, cd, .setattr sid attrs mask⟩ f) (hino : s.getattr f = some ino)
    (hreg : ino.type = .reg)
    (hchange : ContentChanged s (accStep now s cd (.setattr sid attrs mask)) f)
    (hino' : (accStep now s cd (.setattr sid attrs mask)).getattr f = some ino') :
    ¬Privileged ino'.mode := by
  have hdata : (accStep now s cd (.setattr sid attrs mask)).data f = s.data f := by
    rcases accStep_setattr now s cd sid attrs mask with heq | ⟨_, _, _, -, -, -, -, heq⟩
    · rw [accStep, heq]
    · rw [accStep, heq]
      rfl
  obtain hbad | ⟨_, _, hino₀, hino₁, hsize⟩ := hchange
  · exact absurd hdata hbad
  rw [hino] at hino₀
  rw [hino'] at hino₁
  cases hino₀
  cases hino₁
  rcases setattr_effect hdac hino hino' with rfl | ⟨hfh, hres, -, rfl⟩
  · exact absurd rfl hsize
  have hnomode : selects mask attrMode = false :=
    Bool.eq_false_iff.mpr fun hsel => hmode (.inr ⟨⟨hfh, hsel⟩, hres⟩)
  have hext : selects mask attrSizeExtend = false := by
    rw [selects, hwire.and_eq_zero (by decide)]
    rfl
  rw [size_result _ _ _ _ hext] at hsize
  split at hsize
  next hsel => exact not_privileged_of_truncate hdac huser hreg hsel hsize hnomode
  next => exact absurd rfl hsize

end

end Changed

/-! ## Runs -/

section

variable (hg : (s.cat.graph false).Good) (hcount : s.cat.nextFileid ≤ 2 ^ 64)
  (hdac : cd.cred.dacActive)

include hg hcount hdac

theorem fair_accStep (huser : cd.cred.uid ≠ 0) (hok : PrivOk s cd op) :
    Fair s cd (accStep now s cd op) := by
  obtain ⟨_, _, _, rfl⟩ | hns := op.setattr_or
  · exact fair_setattr hdac huser hok
  have hmade : ∀ f ino', s.getattr f = none → (accStep now s cd op).getattr f = some ino' → _ :=
    fun f _ hf hino' => owned_of_madeBy huser hok (madeBy_accStep hg hcount hf hino')
  constructor
  · intro f ino' hf hino'
    obtain ⟨hown, hgroup | ⟨-, hdir⟩⟩ := hmade f ino' hf hino'
    · exact ⟨hown, .inl hgroup⟩
    · exact ⟨hown, .inr hdir⟩
  · intro f ino ino' hino hino'
    exact (calm_accStep hg hcount hns hino hino').uid
  · intro f ino ino' hino hino'
    exact .inl (calm_accStep hg hcount hns hino hino').gid
  · intro f ino' hino' hbit hold
    cases hino : s.getattr f with
    | none =>
      obtain ⟨-, hgroup | ⟨hnobit, -⟩⟩ := hmade f ino' hino hino'
      · exact hgroup
      · exact absurd hnobit hbit
    | some ino =>
      have hkept := (calm_accStep hg hcount hns hino hino').mode
      exact absurd (hold ino hino) (sgid_of_kept hkept hbit)

/-- An operation that does not set the mode of a file adds no privilege bits to it, and keeps
its type. -/
theorem mode_accStep (hmode : ¬SetsMode s ⟨now, cd, op⟩ f) (hino : s.getattr f = some ino)
    (hino' : (accStep now s cd op).getattr f = some ino') :
    ino'.type = ino.type ∧ (ino'.mode = ino.mode ∨ ino'.mode = clearSetid ino.mode) := by
  obtain ⟨sid, attrs, mask, rfl⟩ | hns := op.setattr_or
  · rcases setattr_effect hdac hino hino' with rfl | ⟨hfh, hres, -, rfl⟩
    · exact ⟨rfl, .inl rfl⟩
    refine ⟨rfl, ?_⟩
    rcases storedMode_cases _ ino ⟨attrs, mask, hasStateid sid⟩ with ⟨hsel, -⟩ | ⟨-, hst⟩
    · exact absurd (.inr ⟨⟨hfh, hsel⟩, hres⟩) hmode
    · exact hst
  · have hcalm := calm_accStep hg hcount hns hino hino'
    exact ⟨hcalm.type, hcalm.mode⟩

/-- A regular file that an unprivileged caller has changed carries no privilege bits, unless
its mode was set in the same operation. -/
theorem not_privileged_of_changed (huser : cd.cred.uid ≠ 0) (hwire : op.Wire) (hok : PrivOk s cd op)
    (hmode : ¬SetsMode s ⟨now, cd, op⟩ f) (hino : s.getattr f = some ino) (hreg : ino.type = .reg)
    (hino' : (accStep now s cd op).getattr f = some ino')
    (hchange : ContentChanged s (accStep now s cd op) f) : ¬Privileged ino'.mode := by
  obtain ⟨a, ha, hw⟩ := exists_writesData hg hchange
  obtain ⟨hfh, ⟨sid, hsid⟩ | hset | ⟨sid, _, _, rfl⟩⟩ :=
    source_of_writesData huser (planned_of_mem ha) hw
  · by_cases hpriv : Privileged ino.mode
    · have hclean := hok.write sid f ino hsid hfh hino hreg hpriv
      cases op with
      | write => exact not_privileged_of_write hdac huser hclean ha hw hfh hino hreg hchange hino'
      | _ => exact hclean.elim
    · exact not_privileged_of_kept (mode_accStep hg hcount hdac hmode hino hino').2 hpriv
  · cases op with
    | setattr => exact not_privileged_of_setattr hdac huser hwire hmode hino hreg hchange hino'
    | _ => cases hset
  · exact not_privileged_of_layoutcommit hdac huser ha hw hino hreg hino'

end

structure TrackInv (s : Tracked) : Prop where
  good : (s.store.cat.graph false).Good
  clean : ∀ f ino, s.store.getattr f = some ino → ino.type = .reg → s.touched f →
    ¬Privileged ino.mode

theorem trackInv_step {s t l} (hs : TrackInv s) (hok : PrivStep s l)
    (hst : trackStep s l = some t) : TrackInv t := by
  cases hst
  constructor
  · exact run_induction (P := fun t : AccStore => (t.cat.graph false).Good) hs.good
      fun a ha t ht => good_applyAct ((planned_of_mem ha).wideFromAllocator t.cat) ht
  rintro f _ hino' hreg' ⟨hmode, htouched⟩
  obtain ⟨ino, hino⟩ : ∃ ino, s.store.getattr f = some ino :=
    ne_none_iff_exists'.mp fun hnone => hmode (.inl hnone)
  have hstep := mode_accStep hs.good hok.counter hok.dac hmode hino hino'
  have hreg : ino.type = .reg := hstep.1.symm.trans hreg'
  rcases htouched with hold | ⟨huser, hchange⟩
  · exact not_privileged_of_kept hstep.2 (hs.clean f ino hino hreg hold)
  · exact not_privileged_of_changed hs.good hok.counter hok.dac huser hok.wire (hok.user huser)
      hmode hino hreg hino' hchange

/-- **Nobody but root gives files away or forges privilege bits**, in runs whose steps meet
the conditions. -/
theorem privileges_kept {s : Tracked} (hs : Reachable TrackStart trackStep PrivStep s) :
    (∀ f ino, s.store.getattr f = some ino → ino.type = .reg → Privileged ino.mode →
      ¬s.touched f) ∧ ∀ l, PrivStep s l → l.cd.cred.uid ≠ 0 →
      Fair s.store l.cd (accStep l.now s.store l.cd l.op) := by
  have hinv : TrackInv s := hs.invariant
    (fun t ht => ⟨good_reachable ht.1, fun f _ _ _ htouched => absurd htouched (ht.2 f)⟩)
    fun t l _ ht hok hst => trackInv_step ht hok hst
  refine ⟨fun f ino hino hreg hpriv htouched => hinv.clean f ino hino hreg htouched hpriv, ?_⟩
  intro l hl huser
  exact fair_accStep hinv.good hl.counter hl.dac huser (hl.user huser)

/-- A server on which root has made file 3, nothing recorded. -/
def trackedFile (uid : UInt64) (mode : UInt32) : Tracked :=
  { store := serverWithFile uid mode, touched := fun _ => False }

theorem trackStart_trackedFile (uid : UInt64) (mode : UInt32) : TrackStart (trackedFile uid mode) :=
  ⟨reachable_serverWithFile uid mode, fun _ h => h⟩

/-- User 1000 writes a byte to file 3, under the anonymous stateid. -/
def plainWrite : AccRequest := ⟨2, compoundOf 1000 3, .write ⟨0, ⟨0, 0⟩⟩ 0 [7] ⟨1, none⟩⟩

/-- User 1000 writes a pattern to file 3. -/
def patternWrite : AccRequest :=
  ⟨2, compoundOf 1000 3, .writeSame ⟨0, ⟨0, 0⟩⟩ 0 1 [7] ⟨1, none⟩⟩

theorem privStep_plainWrite : PrivStep (trackedFile 1000 0o4755) plainWrite := by
  refine ⟨by decide, trivial, by decide +kernel, fun _ => ⟨nofun, nofun, ?_⟩⟩
  intro _ _ _ _ _ _ _ _
  exact ⟨rfl, by decide⟩

theorem touched_of_byte {s t l f} (hst : trackStep s l = some t) (hns : l.op.isSetattr = false)
    (huser : l.cd.cred.uid ≠ 0) (hsome : (s.store.getattr f).isSome = true)
    (hbyte : t.store.data f 0 ≠ s.store.data f 0) : t.touched f := by
  cases hst
  refine ⟨?_, .inr ⟨huser, .inl fun h => hbyte (congrFun h 0)⟩⟩
  rintro (hnone | ⟨hch, -⟩)
  · rw [hnone] at hsome
    cases hsome
  · obtain ⟨_, _, op⟩ := l
    cases op with
    | setattr => cases hns
    | _ => exact hch

/-- A WRITE takes `S_ISUID` from file 3, and the record shows it. -/
theorem write_clears_setid : Fair (trackedFile 1000 0o4755).store plainWrite.cd
        (accStep 2 (trackedFile 1000 0o4755).store plainWrite.cd plainWrite.op) ∧
      ∃ t, trackStep (trackedFile 1000 0o4755) plainWrite = some t ∧ t.touched 3 ∧
        ∀ ino, t.store.getattr 3 = some ino → ¬Privileged ino.mode := by
  have hstart : Reachable TrackStart trackStep PrivStep (trackedFile 1000 0o4755) :=
    .start (trackStart_trackedFile 1000 0o4755)
  refine ⟨(privileges_kept hstart).2 plainWrite privStep_plainWrite (by decide), _, rfl, ?_⟩
  have htouched := touched_of_byte (s := trackedFile 1000 0o4755) (l := plainWrite) (f := 3) rfl rfl
    (by decide) (by decide +kernel) (by decide +kernel)
  refine ⟨htouched, fun ino hino hpriv => ?_⟩
  have hreg : ((accStep 2 (trackedFile 1000 0o4755).store plainWrite.cd
      plainWrite.op).getattr 3).all (fun ino => ino.type = .reg) = true := by decide +kernel
  have hino₀ : (accStep 2 (trackedFile 1000 0o4755).store plainWrite.cd
      plainWrite.op).getattr 3 = some ino := hino
  rw [hino₀, all_some, decide_eq_true_eq] at hreg
  exact (privileges_kept (hstart.next privStep_plainWrite rfl)).1 3 ino hino hreg hpriv htouched

/-- A server on which root has made directory 3 for user 1000. -/
def serverWithDir : AccStore :=
  accStep 1 newAccServer (compoundOf 0 fileidRoot.toUInt64) (.create [97] .dir ⟨0o700, 1000, 1000⟩)

/-- User 1000 makes a file there that belongs to user 5. -/
def createForOther : AccOp := openCreating [98] ⟨0o4755, 5, 0⟩

/-- **Files are given away at creation, and pattern writes keep the bits.**  User 1000 creates
a file with `S_ISUID` for user 5; and a file of root with `S_ISUID` keeps the bit when user
1000 has changed its data with WRITE_SAME. -/
theorem create_gives_file_away : (Reachable AccStart accMachine AccLegal serverWithDir ∧
      ¬Fair serverWithDir (compoundOf 1000 3)
        (accStep 2 serverWithDir (compoundOf 1000 3) createForOther)) ∧
    ∃ t, trackStep (trackedFile 0 0o4777) patternWrite = some t ∧ t.touched 3 ∧
      ∃ ino, t.store.getattr 3 = some ino ∧ ino.type = .reg ∧ Privileged ino.mode := by
  refine ⟨⟨?_, fun hfair => ?_⟩, _, rfl, ?_, ?_⟩
  · exact .next (a := .op 1 (compoundOf 0 fileidRoot.toUInt64)
      (.create [97] .dir ⟨0o700, 1000, 1000⟩)) (.start accStart_newAccServer) trivial rfl
  · obtain ⟨ino, hino, huid⟩ : ∃ ino, (accStep 2 serverWithDir (compoundOf 1000 3)
        createForOther).getattr 4 = some ino ∧ ino.uid = 5 := by
      decide +kernel
    have hown := (hfair.created 4 ino (by decide +kernel) hino).1
    rw [huid] at hown
    revert hown
    decide
  · exact touched_of_byte (s := trackedFile 0 0o4777) (l := patternWrite) (f := 3) rfl rfl
      (by decide) (by decide +kernel) (by decide +kernel)
  · refine ⟨_, rfl, ?_, ?_⟩
    · decide +kernel
    · decide +kernel

end PnfsLattice
