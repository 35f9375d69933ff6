import PnfsLattice.Access.Effects

/-!
# What an unprivileged caller may change

The contract of `compound_access.c`: with `posix_dac` on, a caller other than root changes
the contents of a file only if the mode bits grant it write access or its client has the file
open for writing, and the entries of a directory only if the bits grant it write and search
and the sticky bit does not forbid it.

The directory handlers keep to it. The handlers of data take a stateid as proof of an
earlier check, and only one that names an open is one; those of extended attributes and
LAYOUTCOMMIT check nothing.
-/

namespace PnfsLattice

open Lib

/-! ## The contract -/

section Contract

variable (s : AccStore) (cd : AccCompound)

def HoldsWriteOpen (f : Fileid) : Prop :=
  ∃ os ∈ s.ot.opens, os.clientid = cd.clientid ∧ os.fileid = f ∧
    os.shareAccess &&& shareAccessWrite ≠ 0
deriving Decidable

/-- The caller may change the contents of a file. -/
def MayWrite (f : Fileid) : Prop :=
  (∃ ino, s.getattr f = some ino ∧ ModeGrants cd.cred ino mayWrite) ∨ HoldsWriteOpen s cd f
deriving Decidable

/-- The caller may bind a name, or take it from the child that has it. -/
def MayRebind (k : NameKey) : Prop :=
  ∃ dir, s.cat.inodeFind k.1 = some dir ∧ ModeGrants cd.cred dir (mayWrite ||| mayExec) ∧
    ∀ child, memNsLookup s.cat k.1 k.2 = .ok child → StickyAllows cd.cred dir child

end Contract

/-- A file has the same data, and unless it is gone the same extended attributes and size. -/
structure SameContents (s s' : AccStore) (f : Fileid) : Prop where
  data : s'.data f = s.data f
  kept : ∀ ino ino', s.getattr f = some ino → s'.getattr f = some ino' →
    s'.xattrsOf f = s.xattrsOf f ∧ ino'.size = ino.size

/-- Only what the caller may change has changed. -/
structure Lawful (s : AccStore) (cd : AccCompound) (s' : AccStore) : Prop where
  contents : ∀ f, ¬SameContents s s' f → MayWrite s cd f
  entries : ∀ k, s'.cat.binding k ≠ s.cat.binding k → MayRebind s cd k

/-! ## The conditions -/

/-- The stateid with which an operation asks to change the data or the size of the current
file. -/
def AccOp.contentSid : AccOp → Option Stateid
  | .setattr sid _ mask => if hasStateid sid && selects mask attrSize then some sid else none
  | op => op.writeSid

/-- A SETATTR carries only bits that its decoder sets. -/
def AccOp.Wire : AccOp → Prop
  | .setattr _ _ mask => Within mask wireMask
  | _ => True

section Conditions

variable (s : AccStore) (cd : AccCompound)

/-- The stateid is an ordinary one and names an open. -/
def NamesOpen (sid : Stateid) : Prop :=
  ∃ sid', (s.io cd 0).resolve sid = .ok sid' ∧ isSpecialStateid sid' = false ∧
    (openStateFind s.ot sid').isSome = true

/-- The write would pass the mode check of an OPEN, or the client has an open for it. -/
def WriteVouched (f : Fileid) : Prop :=
  (s.getattr f).any (accessModeCheck cd.cred · mayWrite) = true ∨ HoldsWriteOpen s cd f

/-- The conditions on an operation. Writers of data show the stateid of an open; what the
handlers of extended attributes and LAYOUTCOMMIT do not check holds anyway; the names of a
RENAME lead to children that a client can see; and the ids are not cut when they are compared
in 32 bits. -/
structure PolicyOk (op : AccOp) : Prop where
  data : ∀ sid fh, op.contentSid = some sid → cd.currentFh = some fh →
    NamesOpen s cd sid ∨ WriteVouched s cd fh
  xattr : ∀ f, op.xattrTarget cd = some f → WriteVouched s cd f
  commit : ∀ sid lastWrite timeModify fh, op = .layoutcommit sid lastWrite timeModify →
    cd.currentFh = some fh → WriteVouched s cd fh
  shown : ∀ srcName dstName nsFlags fh name child, op = .rename srcName dstName nsFlags →
    (cd.savedFh = some fh ∧ name = srcName ∨ cd.currentFh = some fh ∧ name = dstName) →
    memNsLookup s.cat fh.toNat name = .ok child → child.visible = true
  narrow : ∀ ino ∈ s.cat.inodes, ino.Narrow

end Conditions

/-! ## Contents -/

section Contents

variable {now : ℕ} {s : AccStore} {cd : AccCompound} {op : AccOp} {a : AccAct} {f fh : Fileid}
  {sid : Stateid}

theorem open_of_ioCheck {access} (hio : ioCheck s cd fh sid access = .ok ())
    (hn : NamesOpen s cd sid) : ∃ os ∈ s.ot.opens, os.clientid = cd.clientid ∧ os.fileid = fh ∧
      os.shareAccess &&& access.mask ≠ 0 := by
  obtain ⟨sid', hres, hspec, hopen⟩ := hn
  obtain ⟨os, hos⟩ := Option.isSome_iff_exists.mp hopen
  have hval : validateIoStateid (s.io cd fh) sid access = .ok () := ok_of_mapError hio
  have hres' : (s.io cd fh).resolve sid = .ok sid' := hres
  have hot : (s.io cd fh).ot = some s.ot := rfl
  simp only [validateIoStateid, hres', hot, hspec, Bool.false_eq_true, if_false, hos] at hval
  obtain ⟨-, ⟨hclient, hfile⟩, hshare⟩ := (@checkIoOpen_eq_ok _ s.ot _ _ _).mp hval
  exact ⟨os, List.mem_of_find?_eq_some hos, hclient, hfile, hshare⟩

theorem mayWrite_of_vouched (hdac : cd.cred.dacActive)
    (hn : ∀ ino ∈ s.cat.inodes, ino.Narrow) (h : WriteVouched s cd f) : MayWrite s cd f := by
  rcases h with h | h
  · cases hino : s.getattr f with
    | none => rw [hino] at h; cases h
    | some ino =>
      rw [hino] at h
      exact .inl ⟨ino, hino, modeGrants_of_check hdac (hn _ (mem_of_findKey hino)) h⟩
  · exact .inr h

theorem selects_or_left (a b attr : UInt32) :
    selects (a ||| b) attr = (selects a attr || selects b attr) := by
  rw [selects, UInt32.and_comm, ← selects, selects_or, selects, selects, UInt32.and_comm,
    UInt32.and_comm attr, ← selects, ← selects]

/-- What the matrix adds to the mask is the mode. -/
theorem selects_setattrAdjust {c pre r attr} (h : selects attrMode attr = false) :
    selects (setattrAdjust c pre r).2 attr = selects r.mask attr := by
  have hchown : ∀ mode, selects (chownClears pre r.mask mode).2 attr = selects r.mask attr := by
    intro mode
    unfold chownClears
    split
    · generalize (if selects r.mask attrMode = true then mode else pre.mode) = base
      dsimp only
      split <;> simp [selects_or_left, h]
    · rfl
  have htrunc : ∀ size mode mask, selects (truncateClears c pre size mode mask).2 attr =
      selects mask attr := by
    intro _ _ _
    unfold truncateClears
    split_ifs
    · split <;> simp [selects_or_left, h]
    · rfl
  rw [setattrAdjust, htrunc, hchown]

/-- A SETATTR that changes the size was asked to, and has passed the check of the size. -/
theorem writeVouched_or_sid_of_setattr {attrs pre mask new} (hdac : cd.cred.dacActive)
    (huser : cd.cred.uid ≠ 0) (hwire : Within mask wireMask) (hpre : s.getattr fh = some pre)
    (hck : setattrDacCheck cd.cred pre ⟨attrs, mask, hasStateid sid⟩ = .ok new)
    (hsel : selects new.2 (attrSize ||| attrSizeExtend) = true) :
    WriteVouched s cd fh ∨ (AccOp.setattr sid attrs mask).contentSid = some sid ∧
        hasStateid sid := by
  simp only [setattrDacCheck, hdac, Bool.not_true, Bool.false_eq_true, if_false,
      if_neg huser] at hck
  split at hck <;> cases hck
  next hgate =>
    rw [selects_setattrAdjust (by decide)] at hsel
    have hext : selects mask attrSizeExtend = false := by
      rw [selects, hwire.and_eq_zero (by decide)]
      rfl
    rw [selects_or, hext, Bool.or_false] at hsel
    cases hsid : hasStateid sid with
    | true => exact .inr ⟨by simp [AccOp.contentSid, hsid, hsel], rfl⟩
    | false =>
      refine .inl (.inl ?_)
      by_contra hno
      simp only [setattrGates, hsid, show selects mask attrSize = true from hsel] at hgate
      split_ifs at hgate
      simp_all

theorem contentSid_of_writeSid (h : op.writeSid = some sid) : op.contentSid = some sid := by
  cases op with
  | setattr => cases h
  | _ => exact h

theorem mayWrite_of_planned (hdac : cd.cred.dacActive) (huser : cd.cred.uid ≠ 0)
    (hwire : op.Wire) (hok : PolicyOk s cd op) (hp : Planned now s cd op a) (hw : a.Writes f) :
    MayWrite s cd f := by
  have hvouched : ∀ {f}, WriteVouched s cd f → MayWrite s cd f := fun h =>
    mayWrite_of_vouched hdac hok.narrow h
  -- The data handlers: the stateid names an open, or the write is vouched for.
  have hdata : ∀ {fh sid}, op.contentSid = some sid → cd.currentFh = some fh →
      ioCheck s cd fh sid .write = .ok () → MayWrite s cd fh := by
    intro fh sid hsid hfh hio
    rcases hok.data sid fh hsid hfh with hn | hv
    · exact .inr (open_of_ioCheck hio hn)
    · exact hvouched hv
  cases hp with
  | edit hsid hfh hio =>
    obtain rfl := hw
    exact hdata (contentSid_of_writeSid hsid) hfh hio
  | wrote hsid hfh hio | grow hsid _ hfh hio =>
    obtain ⟨rfl, -⟩ := hw
    exact hdata (contentSid_of_writeSid hsid) hfh hio
  | xattrPut hf | xattrDel hf =>
    obtain rfl := hw
    exact hvouched (hok.xattr _ hf)
  | hpcShared hroot => exact absurd hroot huser
  | setattr hop hfh hio hpre hck =>
    obtain ⟨rfl, hsel⟩ := hw
    subst hop
    rcases writeVouched_or_sid_of_setattr hdac huser hwire hpre hck hsel with hv | ⟨hsid, hhas⟩
    · exact hvouched hv
    · exact hdata hsid hfh (hio hhas)
  | layoutcommit hop hfh =>
    obtain ⟨rfl, -⟩ := hw
    exact hvouched (hok.commit _ _ _ _ hop hfh)
  | openClears => exact absurd hw.2 (by decide)
  | create | remove | rename | link | tables => exact hw.elim

end Contents

/-! ## Entries -/

section Entries

variable {now : ℕ} {s : AccStore} {cd : AccCompound} {op : AccOp} {a : AccAct} {k : NameKey}
  {src dst fh : Fileid} {srcName dstName name : Name} {dir child : MdsInode}

theorem renameDacCheck_ok {c} (hdac : c.dacActive)
    (h : renameDacCheck s c src dst srcName dstName = .ok ()) :
    ∃ srcDir dstDir, s.getattr src = some srcDir ∧ s.getattr dst = some dstDir ∧
      dirMutateCheck c srcDir = true ∧ dirMutateCheck c dstDir = true ∧
      stickyOk c srcDir (lookupLocalChild s.cat src.toNat srcName).toOption = true ∧
      stickyOk c dstDir (lookupLocalChild s.cat dst.toNat dstName).toOption = true := by
  simp only [renameDacCheck, hdac, Bool.not_true, Bool.false_eq_true, if_false] at h
  split at h
  · cases h
  next srcDir hsrc =>
    split at h
    · cases h
    split at h
    · cases h
    next dstDir hdst =>
      split_ifs at h
      simp_all

theorem lookupLocalChild_eq {m p} (hdir : m.inodeFind p = some dir) (htype : dir.type = .dir)
    (hl : memNsLookup m p name = .ok child) (hv : child.visible = true) :
    lookupLocalChild m p name = .ok child := by
  have hfilter : lookupVisible m p name = some child := by
    simp [lookupVisible, hl, Except.toOption, Option.filter, hv]
  simp [lookupLocalChild, hdir, htype, hfilter]

theorem mayRebind_of_free (hdac : cd.cred.dacActive) (hdir : s.getattr fh = some dir)
    (hn : dir.Narrow) (hmut : dirMutateCheck cd.cred dir = true)
    (hfree : s.cat.direntFind fh.toNat name = none) : MayRebind s cd (fh.toNat, name) := by
  refine ⟨dir, hdir, modeGrants_of_check hdac hn hmut, fun _ hl => ?_⟩
  obtain ⟨d, hd, -⟩ := memNsLookup_ok hl
  cases hfree.symm.trans hd

theorem mayRebind_of_checks (hdac : cd.cred.dacActive)
    (hn : ∀ ino ∈ s.cat.inodes, ino.Narrow) (hdir : s.getattr fh = some dir)
    (hmut : dirMutateCheck cd.cred dir = true)
    (hsticky : ∀ child, memNsLookup s.cat fh.toNat name = .ok child →
      stickyDeleteCheck cd.cred dir child = true) : MayRebind s cd (fh.toNat, name) := by
  refine ⟨dir, hdir, modeGrants_of_check hdac (hn _ (mem_of_findKey hdir)) hmut, fun child hl => ?_⟩
  obtain ⟨d, -, hchild⟩ := memNsLookup_ok hl
  exact stickyAllows_of_check hdac (hn _ (mem_of_findKey hdir)).1
      (hn _ (mem_of_findKey hchild)).1 (hsticky child hl)

theorem mayRebind_of_rename (hg : (s.cat.graph false).Good) (hdac : cd.cred.dacActive)
    (hn : ∀ ino ∈ s.cat.inodes, ino.Narrow)
    (hv : ∀ child, memNsLookup s.cat fh.toNat name = .ok child → child.visible = true)
    (hdir : s.getattr fh = some dir) (hmut : dirMutateCheck cd.cred dir = true)
    (hsticky : stickyOk cd.cred dir (lookupLocalChild s.cat fh.toNat name).toOption = true) :
    MayRebind s cd (fh.toNat, name) := by
  refine mayRebind_of_checks hdac hn hdir hmut fun _ hl => ?_
  obtain ⟨d, hd, -⟩ := memNsLookup_ok hl
  obtain ⟨_, hdir', htype⟩ := dir_of_direntFind hg hd
  rw [lookupLocalChild_eq hdir' htype hl (hv _ hl)] at hsticky
  exact hsticky

theorem mayRebind_of_planned (hg : (s.cat.graph false).Good) (hdac : cd.cred.dacActive)
    (hok : PolicyOk s cd op) (hp : Planned now s cd op a) (hk : k ∈ a.names) :
    MayRebind s cd k := by
  cases hp with
  | create _ _ hpar hmut hfree =>
    obtain rfl := List.mem_singleton.mp hk
    exact mayRebind_of_free hdac hpar (hok.narrow _ (mem_of_findKey hpar)) hmut hfree
  | link _ _ hdir hmut hfree =>
    obtain rfl := List.mem_singleton.mp hk
    exact mayRebind_of_free hdac hdir (hok.narrow _ (mem_of_findKey hdir)) hmut hfree
  | remove _ _ hd hmut hsticky =>
    obtain rfl := List.mem_singleton.mp hk
    obtain ⟨_, hdir, -⟩ := dir_of_direntFind hg hd
    rw [AccStore.getattr, hdir] at hmut hsticky
    refine mayRebind_of_checks hdac hok.narrow hdir hmut fun _ hl => ?_
    rw [hl] at hsticky
    exact hsticky
  | rename hop hsrc hdst hck =>
    obtain ⟨_, _, hsd, hdd, hsm, hdm, hss, hds⟩ := renameDacCheck_ok hdac hck
    rcases List.mem_pair.mp hk with rfl | rfl
    · have hshown := (hok.shown _ _ _ _ _ · hop (.inl ⟨hsrc, rfl⟩))
      exact mayRebind_of_rename hg hdac hok.narrow hshown hsd hsm hss
    · have hshown := (hok.shown _ _ _ _ _ · hop (.inr ⟨hdst, rfl⟩))
      exact mayRebind_of_rename hg hdac hok.narrow hshown hdd hdm hds
  | _ => cases hk

end Entries

/-! ## The result -/

/-- **Unprivileged callers change only what the mode bits let them**, as long as the
operation meets the conditions. -/
theorem changes_lawful {s : AccStore} (hs : Reachable AccStart accMachine AccLegal s)
    {cd : AccCompound} (hdac : cd.cred.dacActive) (huser : cd.cred.uid ≠ 0) {op : AccOp}
    (hwire : op.Wire) (hok : PolicyOk s cd op) (now : ℕ) : Lawful s cd (accStep now s cd op) := by
  have hg := good_reachable hs
  constructor
  · intro f hchange
    by_contra hmay
    have hno : ∀ a ∈ (accPlan now s cd op).acts, ¬a.Writes f := fun a ha hw =>
      hmay (mayWrite_of_planned hdac huser hwire hok (planned_of_mem ha) hw)
    have hnoData : ∀ a ∈ (accPlan now s cd op).acts, ¬a.WritesData f := fun a ha hw =>
      hno a ha hw.writes
    refine hchange ⟨data_accStep hnoData, fun _ _ hino hino' => ?_⟩
    have hlt := lt_nextFileid_of_getattr hg hino
    obtain ⟨_, hino₀, hsize⟩ := size_accStep hnoData hlt hino'
    cases hino.symm.trans hino₀
    exact ⟨xattrsOf_accStep hno hlt hino', hsize⟩
  · intro k hchange
    by_contra hmay
    exact hchange (binding_accStep fun a ha hk =>
      hmay (mayRebind_of_planned hg hdac hok (planned_of_mem ha) hk))

/-- A server on which root has made a file, with the owner and the mode given. -/
def serverWithFile (uid : UInt64) (mode : UInt32) : AccStore :=
  accStep 1 newAccServer (compoundOf 0 fileidRoot.toUInt64) (openCreating [97] ⟨mode, uid, 0⟩)

theorem reachable_serverWithFile (uid : UInt64) (mode : UInt32) :
    Reachable AccStart accMachine AccLegal (serverWithFile uid mode) :=
  .next (a := .op 1 (compoundOf 0 fileidRoot.toUInt64) (openCreating [97] ⟨mode, uid, 0⟩))
    (.start accStart_newAccServer) trivial rfl

/-- A WRITE with the stateid of the open below. -/
def ownWrite : AccOp := .write ⟨1, ⟨1, 41⟩⟩ 0 [7] ⟨1, none⟩

/-- The owner's open of file 3. -/
def ownerOpen : AccOp :=
  .openFile
    { claim := .fh
      create := none
      shareAccess := shareAccessBoth
      shareDeny := 0
      openOwner := []
      leaseExpired := fun _ => false
      alloc := true }

/-- The server after that open. -/
def serverWithOpen : AccStore := accStep 2 (serverWithFile 1000 0o600) (compoundOf 1000 3) ownerOpen

theorem reachable_serverWithOpen : Reachable AccStart accMachine AccLegal serverWithOpen :=
  .next (a := .op 2 (compoundOf 1000 3) ownerOpen) (reachable_serverWithFile 1000 0o600) trivial rfl

/-- The owner writes through its open. -/
theorem owner_write_lawful : PolicyOk serverWithOpen (compoundOf 1000 3) ownWrite ∧
      Lawful serverWithOpen (compoundOf 1000 3)
        (accStep 3 serverWithOpen (compoundOf 1000 3) ownWrite) ∧
      (accStep 3 serverWithOpen (compoundOf 1000 3) ownWrite).data 3 0 = some 7 := by
  have hnarrow : ∀ ino ∈ serverWithOpen.cat.inodes, ino.Narrow := by decide +kernel
  have hok : PolicyOk serverWithOpen (compoundOf 1000 3) ownWrite := by
    refine ⟨fun _ _ hsid _ => .inl ?_, nofun, nofun, nofun, hnarrow⟩
    cases hsid
    exact ⟨_, rfl, by decide, by decide +kernel⟩
  have hwire : ownWrite.Wire := trivial
  exact ⟨hok, changes_lawful reachable_serverWithOpen (by decide) (by decide) hwire hok 3,
    by decide +kernel⟩

/-- **The anonymous stateid writes any file.**  Root has made a file with mode 0600; user
1000, who has no open, writes to it. -/
theorem anonymous_write_changes_root_file :
    Reachable AccStart accMachine AccLegal (serverWithFile 0 0o600) ∧
      (compoundOf 1000 3).cred.dacActive = true ∧ (compoundOf 1000 3).cred.uid ≠ 0 ∧
      ¬Lawful (serverWithFile 0 0o600) (compoundOf 1000 3)
        (accStep 2 (serverWithFile 0 0o600) (compoundOf 1000 3)
          (.write ⟨0, ⟨0, 0⟩⟩ 0 [7] ⟨1, none⟩)) := by
  refine ⟨reachable_serverWithFile 0 0o600, by decide, by decide, fun h => ?_⟩
  have hmay : ¬MayWrite (serverWithFile 0 0o600) (compoundOf 1000 3) 3 := by decide +kernel
  refine hmay (h.contents 3 fun hsame => ?_)
  have hbyte := congrFun hsame.data 0
  revert hbyte
  decide +kernel

end PnfsLattice
