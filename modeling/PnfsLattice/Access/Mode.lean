import PnfsLattice.Catalogue.Memdb
import PnfsLattice.Lib.Mask

/-!
# Mode bits

The helpers of `compound_access.c`: what an AUTH_SYS caller may do to an inode by its mode
bits, the sticky rule, the permission matrix of SETATTR and the clearing of the set-id bits.

A credential has 32-bit ids, an inode 64-bit ones. The helpers narrow the inode's id
before they compare. The rule they stand for compares the ids themselves; the two agree
on inodes whose ids fit.
-/

namespace PnfsLattice

open Lib

theorem selects_or (mask a b : UInt32) :
    selects mask (a ||| b) = (selects mask a || selects mask b) := by
  unfold selects
  rw [and_or_distrib, Bool.eq_iff_iff]
  simp only [bne_iff_ne, ne_eq, Bool.or_eq_true, UInt32.or_eq_zero_iff, not_and_or]

/-! ## Credentials -/

/-- The credential in `struct compound_data`, with the knob `cfg_posix_dac`. -/
structure Cred where
  uid : UInt32
  gid : UInt32
  auxGids : List UInt32
  authSys : Bool
  posixDac : Bool
deriving DecidableEq

/-- The size of `aux_gids`. -/
def auxGidMax : ℕ := 16

/-- `COMPOUND_MAY_EXEC`. -/
def mayExec : UInt32 := 1

/-- `COMPOUND_MAY_WRITE`. -/
def mayWrite : UInt32 := 2

/-- `COMPOUND_MAY_READ`. -/
def mayRead : UInt32 := 4

def sIsuid : UInt32 := 0o4000

def sIsgid : UInt32 := 0o2000

def sIsvtx : UInt32 := 0o1000

def sIxgrp : UInt32 := 0o010

namespace Cred

variable (c : Cred)

/-- `compound_dac_active`. -/
def dacActive : Bool := c.posixDac && c.authSys

/-- The caller's groups, as far as they are looked at. -/
def groups : List UInt32 := c.gid :: c.auxGids.take auxGidMax

/-- `compound_cred_in_group`. -/
def inGroup (gid : UInt32) : Bool := c.groups.contains gid

end Cred

/-- The permission bits of the class whose shift is 6 for the owner, 3 for the group and 0
for others. -/
def permBits (mode shift : UInt32) : UInt32 := (mode >>> shift) &&& 7

section

variable (c : Cred) (ino : MdsInode) (may : UInt32)

def accessModeEval : Bool :=
  if c.uid = 0 then true
  else
    let perm :=
      if c.uid = ino.uid.toUInt32 then permBits ino.mode 6
      else if c.inGroup ino.gid.toUInt32 then permBits ino.mode 3
      else permBits ino.mode 0
    perm &&& may = may

/-- `compound_access_mode_check`. -/
def accessModeCheck : Bool :=
  !c.dacActive || accessModeEval c ino may

/-- `compound_open_mode_check`: on for AUTH_SYS, whatever the knob says. -/
def openModeCheck : Bool :=
  !c.authSys || accessModeEval c ino may

end

/-- `compound_dir_mutate_check`. -/
def dirMutateCheck (c : Cred) (dir : MdsInode) : Bool :=
  accessModeCheck c dir (mayWrite ||| mayExec)

/-- `compound_dir_search_check`. -/
def dirSearchCheck (c : Cred) (dir : MdsInode) : Bool := accessModeCheck c dir mayExec

/-- `compound_sticky_delete_check`. -/
def stickyDeleteCheck (c : Cred) (dir victim : MdsInode) : Bool :=
  if !c.dacActive || c.uid = 0 then true
  else if dir.mode &&& sIsvtx = 0 then true
  else c.uid = victim.uid.toUInt32 || c.uid = dir.uid.toUInt32

/-! ## Set-id bits -/

/-- A mode without `S_ISUID`, and without `S_ISGID` if the group may execute. -/
def clearSetid (mode : UInt32) : UInt32 :=
  let mode := mode &&& ~~~sIsuid
  if mode &&& sIxgrp ≠ 0 then mode &&& ~~~sIsgid else mode

/-- `compound_write_clears_setid`: the mode to be stored, if there is one. -/
def writeClearsSetid (c : Cred) (ino : MdsInode) : Option UInt32 :=
  if !c.dacActive || c.uid = 0 then none
  else if ino.type ≠ .reg then none
  else if ino.mode &&& (sIsuid ||| sIsgid) = 0 then none
  else if clearSetid ino.mode = ino.mode then none
  else some (clearSetid ino.mode)

/-! ## SETATTR -/

/-- The attributes a client can ask for: `xdr_nfs4_fattr_decode` sets no other bit. -/
def wireMask : UInt32 :=
  attrMode ||| attrUid ||| attrGid ||| attrSize ||| attrAtime ||| attrMtime ||| attrAtimeNow |||
    attrMtimeNow

/-- The arguments of SETATTR: the new attributes and which of them are meant. -/
structure SetattrArgs where
  attrs : MdsInode
  mask : UInt32
  hasStateid : Bool

/-- The statuses of the checks in this file. -/
inductive DacErr
  | access
  | perm
deriving DecidableEq

/-- The permission gates of `compound_setattr_dac_check`, for a caller other than root. -/
def setattrGates (c : Cred) (pre : MdsInode) (a : SetattrArgs) : Except DacErr Unit :=
  let owner := c.uid = pre.uid.toUInt32
  if selects a.mask attrMode ∧ ¬owner then .error .perm
  else if selects a.mask attrUid ∧ a.attrs.uid ≠ pre.uid then .error .perm
  else if selects a.mask attrUid ∧ ¬owner then .error .perm
  else if selects a.mask attrGid ∧ ¬owner then .error .perm
  else if selects a.mask attrGid ∧ a.attrs.gid ≠ pre.gid ∧ !c.inGroup a.attrs.gid.toUInt32 then
    .error .perm
  else if selects a.mask attrSize ∧ !a.hasStateid ∧ !accessModeCheck c pre mayWrite then
    .error .access
  else if selects a.mask (attrAtime ||| attrMtime) ∧ ¬owner then .error .perm
  else if selects a.mask (attrAtimeNow ||| attrMtimeNow) ∧ ¬owner ∧
      !accessModeCheck c pre mayWrite then .error .access
  else .ok ()

/-- The first adjustment: a chmod by a caller outside the file's final group loses
`S_ISGID`. -/
def dropForeignSgid (c : Cred) (pre : MdsInode) (a : SetattrArgs) : UInt32 :=
  let gid := if selects a.mask attrGid then a.attrs.gid else pre.gid
  if selects a.mask attrMode ∧ c.uid ≠ 0 ∧ !c.inGroup gid.toUInt32 then
    a.attrs.mode &&& ~~~sIsgid
  else a.attrs.mode

/-- The second one: a chown or chgrp of anything but a directory clears the set-id bits, of
the requested mode if there is one. The result is the mode and the mask to be stored. -/
def chownClears (pre : MdsInode) (mask mode : UInt32) : UInt32 × UInt32 :=
  if selects mask (attrUid ||| attrGid) ∧ pre.type ≠ .dir then
    let base := if selects mask attrMode then mode else pre.mode
    if clearSetid base ≠ base then (clearSetid base, mask ||| attrMode) else (mode, mask)
  else (mode, mask)

/-- The third one: a change of the size of a regular file clears them, unless the mode is
stored anyway. -/
def truncateClears (c : Cred) (pre : MdsInode) (size : UInt64) (mode mask : UInt32) :
    UInt32 × UInt32 :=
  if selects mask attrSize ∧ c.uid ≠ 0 ∧ size ≠ pre.size ∧ pre.type = .reg ∧
      !selects mask attrMode then
    match writeClearsSetid c pre with
    | none => (mode, mask)
    | some cleared => (cleared, mask ||| attrMode)
  else (mode, mask)

/-- The mode and the mask that a SETATTR stores. -/
def setattrAdjust (c : Cred) (pre : MdsInode) (a : SetattrArgs) : UInt32 × UInt32 :=
  let (mode, mask) := chownClears pre a.mask (dropForeignSgid c pre a)
  truncateClears c pre a.attrs.size mode mask

/-- `compound_setattr_dac_check`: the attributes and the mask to be stored. -/
def setattrDacCheck (c : Cred) (pre : MdsInode) (a : SetattrArgs) :
    Except DacErr (MdsInode × UInt32) :=
  if !c.dacActive then .ok (a.attrs, a.mask)
  else if c.uid = 0 then
    let (mode, mask) := setattrAdjust c pre a
    .ok ({ a.attrs with mode }, mask)
  else match setattrGates c pre a with
    | .error e => .error e
    | .ok () =>
      let (mode, mask) := setattrAdjust c pre a
      .ok ({ a.attrs with mode }, mask)

def setattrIsNoop (cur : MdsInode) (a : SetattrArgs) : Bool :=
  !selects a.mask (attrAtimeNow ||| attrMtimeNow) &&
    (!selects a.mask attrMode || a.attrs.mode = cur.mode) &&
    (!selects a.mask attrUid || a.attrs.uid = cur.uid) &&
    (!selects a.mask attrGid || a.attrs.gid = cur.gid) &&
    (!selects a.mask attrSize || a.attrs.size = cur.size) &&
    (!selects a.mask attrAtime || a.attrs.atime = cur.atime) &&
    (!selects a.mask attrMtime || a.attrs.mtime = cur.mtime) &&
    (!selects a.mask attrFlags || a.attrs.flags = cur.flags)

/-! ## The rule -/

/-- An id that fits in 32 bits. -/
def NarrowId (id : UInt64) : Prop := id.toUInt32.toUInt64 = id
deriving Decidable

/-- An inode whose ids fit in 32 bits. -/
def MdsInode.Narrow (ino : MdsInode) : Prop := NarrowId ino.uid ∧ NarrowId ino.gid
deriving Decidable

namespace Cred

variable (c : Cred)

/-- The id is the caller's. -/
def OwnsId (uid : UInt64) : Prop := uid = c.uid.toUInt64
deriving Decidable

/-- The group is one of the caller's. -/
def InGroup (gid : UInt64) : Prop := gid ∈ c.groups.map UInt32.toUInt64
deriving Decidable

variable {c}

theorem eq_toUInt32_iff {id} (h : NarrowId id) (u : UInt32) :
    u = id.toUInt32 ↔ id = u.toUInt64 := by
  constructor
  · intro hu
    rw [hu]
    exact h.symm
  · intro hid
    rw [hid, UInt32.toUInt32_toUInt64]

theorem inGroup_iff {gid} (h : NarrowId gid) : c.inGroup gid.toUInt32 ↔ c.InGroup gid := by
  rw [inGroup, InGroup, List.contains_iff_mem, List.mem_map]
  constructor
  · intro hmem
    exact ⟨_, hmem, h⟩
  · rintro ⟨g, hg, rfl⟩
    rwa [UInt32.toUInt32_toUInt64]

end Cred

/-- The permission bits of the caller's class. -/
def classBits (c : Cred) (ino : MdsInode) : UInt32 :=
  if c.OwnsId ino.uid then permBits ino.mode 6
  else if c.InGroup ino.gid then permBits ino.mode 3
  else permBits ino.mode 0

/-- The mode bits grant the caller a set of permissions. -/
def ModeGrants (c : Cred) (ino : MdsInode) (may : UInt32) : Prop :=
  c.uid = 0 ∨ classBits c ino &&& may = may
deriving Decidable

/-- The caller may take the entry of `victim` out of the directory as far as the sticky bit
goes. -/
def StickyAllows (c : Cred) (dir victim : MdsInode) : Prop :=
  dir.mode &&& sIsvtx ≠ 0 → c.uid = 0 ∨ c.OwnsId victim.uid ∨ c.OwnsId dir.uid
deriving Decidable

section Rule

variable {c : Cred} {ino dir victim : MdsInode} {may : UInt32}

theorem accessModeEval_iff (h : ino.Narrow) : accessModeEval c ino may ↔ ModeGrants c ino may := by
  have howner : c.uid = ino.uid.toUInt32 ↔ c.OwnsId ino.uid := Cred.eq_toUInt32_iff h.1 c.uid
  have hgroup : c.inGroup ino.gid.toUInt32 ↔ c.InGroup ino.gid := Cred.inGroup_iff h.2
  rw [accessModeEval, ModeGrants, classBits]
  by_cases hroot : c.uid = 0
  · simp [hroot]
  · by_cases ho : c.OwnsId ino.uid <;> by_cases hg : c.InGroup ino.gid <;>
      simp [hroot, howner, hgroup, ho, hg]

theorem modeGrants_of_check (hdac : c.dacActive) (h : ino.Narrow)
    (hck : accessModeCheck c ino may) : ModeGrants c ino may := by
  rw [accessModeCheck, hdac] at hck
  exact (accessModeEval_iff h).mp hck

theorem stickyAllows_of_check (hdac : c.dacActive) (hd : NarrowId dir.uid)
    (hv : NarrowId victim.uid) (hck : stickyDeleteCheck c dir victim) :
    StickyAllows c dir victim := by
  intro hsticky
  simp only [stickyDeleteCheck, hdac, Bool.not_true, Bool.false_or, decide_eq_true_eq, hsticky,
    if_false] at hck
  by_cases hroot : c.uid = 0
  · exact .inl hroot
  · rw [if_neg hroot, Bool.or_eq_true, decide_eq_true_eq, decide_eq_true_eq,
      Cred.eq_toUInt32_iff hv, Cred.eq_toUInt32_iff hd] at hck
    exact .inr hck

end Rule

end PnfsLattice
