import PnfsLattice.Access.Setid
import PnfsLattice.Catalogue.Veil
import PnfsLattice.Lib.TwoRuns

/-!
# What reaches the caller

Two servers agree on all that a caller may read: everything but the data and the extended
attributes of some files that its mode bits do not let it read, and the entries of some
directories that they do not let it search. The same operations of the caller are then
answered alike, as long as it stays off the paths on which the handlers do not look at the
mode bits.

What the caller may know of a server is the server behind a veil, where hidden data and entries
are empty, and the attributes of the other files. The files share one table of attributes; its
slots show only in the order in which the attributes of a file are listed.
-/

namespace PnfsLattice

open Lib List Option Plan Memdb Function

/-! ## The veil -/

/-- Hidden things: files by their data and extended attributes, directories by their
entries. -/
structure Veil where
  files : Fileid → Bool
  dirs : CatFileid → Bool

/-- The server without them, and with these slots of attributes. -/
def AccStore.veil (V : Veil) (xs : List (Option XattrRow)) (s : AccStore) : AccStore :=
  { s with
    cat := s.cat.veil V.dirs
    data := fun f => if V.files f then fun _ => none else s.data f
    xattrs := xs }

/-- Two servers differ in hidden things only. -/
structure SameView (V : Veil) (s t : AccStore) : Prop where
  rest : s.veil V [] = t.veil V []
  xattrs : ∀ f, V.files f = false → s.xattrsOf f = t.xattrsOf f

/-- The slots list the attributes of the files that are not hidden as the server does, and one
of them is free. -/
structure StandsFor (V : Veil) (s : AccStore) (xs : List (Option XattrRow)) : Prop where
  rows : ∀ f, V.files f = false → (used xs).filterMap (xattrOf f) = s.xattrsOf f
  room : (used xs).length < memdbMaxXattrs

section View

variable {V : Veil} {s : AccStore} {xs : List (Option XattrRow)} {f : Fileid}

@[simp] theorem getattr_veil : (s.veil V xs).getattr f = s.getattr f := rfl

theorem cat_veil : (s.veil V xs).cat = s.cat.veil V.dirs := rfl

theorem data_veil (h : V.files f = false) : (s.veil V xs).data f = s.data f := by
  simp [AccStore.veil, h]

theorem xattrsOf_veil (hx : StandsFor V s xs) (h : V.files f = false) :
    (s.veil V xs).xattrsOf f = s.xattrsOf f := hx.rows f h

theorem xattr_veil (hx : StandsFor V s xs) (h : V.files f = false) (name : Name) :
    (s.veil V xs).xattr f name = s.xattr f name := by
  simp [AccStore.xattr, xattrsOf_veil hx h]

/-- While there is a free slot a put does not depend on the others. -/
theorem memXattrPutCheck_veil (hx : StandsFor V s xs) (hroom : s.xattrRoom = true) {name val} :
    memXattrPutCheck (s.veil V xs) f name val = memXattrPutCheck s f name val := by
  have hroom' : (s.veil V xs).xattrRoom = true := decide_eq_true hx.room
  rw [memXattrPutCheck, memXattrPutCheck, hroom, hroom', Bool.or_true, Bool.or_true]

end View

/-! ## Opens for reading -/

def HasReadOpen (ot : OpenTable) (k : Clientid) (f : Fileid) : Prop :=
  ∃ os ∈ ot.opens, os.clientid = k ∧ os.fileid = f ∧ os.shareAccess &&& shareAccessRead ≠ 0

section Opens

variable {ot : OpenTable} {k : Clientid} {f : Fileid} {alloc : Bool} {a : OpenArgs}

theorem HasReadOpen.of_subset {ot'} (hsub : ∀ os ∈ ot'.opens, os ∈ ot.opens)
    (h : HasReadOpen ot' k f) : HasReadOpen ot k f := by
  obtain ⟨os, hos, hrest⟩ := h
  exact ⟨os, hsub os hos, hrest⟩

theorem hasReadOpen_openPublish (h : HasReadOpen (openPublish ot alloc a).table k f) :
    HasReadOpen ot k f ∨
      k = a.clientid ∧ f = a.fileid ∧ a.shareAccess &&& shareAccessRead ≠ 0 := by
  unfold openPublish at h
  split at h
  · exact .inl h
  split at h
  next existing hex =>
    split at h
    · exact .inl h
    unfold upgradeExisting at h
    dsimp only at h
    split at h
    · exact .inl h
    obtain ⟨os, hos, rfl, rfl, hread⟩ := h
    rcases mem_modifyFirst hos with hmem | ⟨-, -, rfl⟩
    · exact .inl ⟨os, hmem, rfl, rfl, hread⟩
    have hmem := mem_of_find?_eq_some hex
    obtain ⟨hfile, hclient, -⟩ := isOwnerOpen_iff.mp (List.find?_some hex)
    by_cases hold : existing.shareAccess &&& shareAccessRead = 0
    · refine .inr ⟨hclient, hfile, fun hnew => hread ?_⟩
      exact or_and_eq_zero hold hnew
    · exact .inl ⟨existing, hmem, rfl, rfl, hold⟩
  next =>
    unfold openFresh at h
    split at h
    · exact .inl h
    split at h
    · exact .inl h
    obtain ⟨os, hos, rfl, rfl, hread⟩ := h
    rcases mem_cons.mp hos with rfl | hmem
    · exact .inr ⟨rfl, rfl, hread⟩
    · exact .inl ⟨os, hmem, rfl, rfl, hread⟩

theorem hasReadOpen_openStateOpen {leaseExpired}
    (h : HasReadOpen (openStateOpen ot alloc leaseExpired a).1 k f) : HasReadOpen ot k f ∨
      k = a.clientid ∧ f = a.fileid ∧ a.shareAccess &&& shareAccessRead ≠ 0 := by
  unfold openStateOpen at h
  dsimp only at h
  split at h
  · split at h
    · rcases hasReadOpen_openPublish h with hold | hnew
      · exact hasReadOpen_openPublish (hold.of_subset fun _ hos => mem_of_mem_filter hos)
      · exact .inr hnew
    · exact hasReadOpen_openPublish h
  · exact hasReadOpen_openPublish h

variable {clientid : Clientid} {sid : Stateid}

theorem hasReadOpen_openStateClose (h : HasReadOpen (openStateClose ot clientid sid).1 k f) :
    HasReadOpen ot k f := by
  unfold openStateClose at h
  split at h
  · exact h
  · exact h.of_subset fun _ hos => mem_of_mem_eraseP hos

theorem hasReadOpen_openStateDowngrade {access deny}
    (h : HasReadOpen (openStateDowngrade ot clientid sid access deny).1 k f) :
    HasReadOpen ot k f := by
  unfold openStateDowngrade at h
  split at h
  · exact h
  next os hck =>
    split at h
    · exact h
    next hwithin =>
      rw [not_not] at hwithin
      obtain ⟨os', hos', rfl, rfl, hread⟩ := h
      rcases mem_modifyFirst hos' with hmem | ⟨-, -, rfl⟩
      · exact ⟨os', hmem, rfl, rfl, hread⟩
      · have hfound := (checkOpenStateid_ok hck).1
        refine ⟨os, mem_of_find?_eq_some hfound, rfl, rfl, fun hzero => hread ?_⟩
        exact Within.and_eq_zero hwithin hzero

end Opens

/-! ## The mode bits stay -/

section Deny

variable {c : Cred} {ino ino' : MdsInode} {may : UInt32}

theorem permBits_congr {m m' k} (hk : (0o777 : UInt32) >>> k &&& 7 = 7)
    (h : m &&& 0o777 = m' &&& 0o777) : permBits m k = permBits m' k := by
  have hlow : ∀ x : UInt32, permBits x k = (x &&& 0o777) >>> k &&& 7 := by
    intro x
    rw [permBits, UInt32.shiftRight_and, UInt32.and_assoc, hk]
  rw [hlow, hlow, h]

theorem accessModeEval_congr (huid : ino'.uid = ino.uid)
    (hgid : ino'.gid = ino.gid ∨ c.uid = ino.uid.toUInt32)
    (hmode : ino'.mode &&& 0o777 = ino.mode &&& 0o777) :
    accessModeEval c ino' may = accessModeEval c ino may := by
  have hbits : ∀ k, (0o777 : UInt32) >>> k &&& 7 = 7 → permBits ino'.mode k = permBits ino.mode k :=
    fun k hk => permBits_congr hk hmode
  unfold accessModeEval
  rw [huid, hbits 6 (by decide), hbits 3 (by decide), hbits 0 (by decide)]
  rcases hgid with hgid | howner
  · rw [hgid]
  · simp [howner]

theorem clearSetid_perms (mode : UInt32) : clearSetid mode &&& 0o777 = mode &&& 0o777 := by
  rw [clearSetid_eq]
  split
  · rw [and_not_and_of_disjoint (by decide), and_not_and_of_disjoint (by decide)]
  · rw [and_not_and_of_disjoint (by decide)]

theorem accessModeEval_of_or {may'} (h : accessModeEval c ino (may ||| may') = true) :
    accessModeEval c ino may = true := by
  unfold accessModeEval at h ⊢
  split
  · rfl
  next hroot =>
    rw [if_neg hroot] at h
    simp only [decide_eq_true_eq] at h ⊢
    have hone := congrArg (· &&& may) h
    rwa [UInt32.and_assoc, or_and_cancel] at hone

variable {now : ℕ} {s : AccStore} {cd : AccCompound} {op : AccOp} {f : Fileid}

/-- What the mode bits grant the caller on a file changes only by its own chmod. -/
theorem accessModeEval_accStep (hg : (s.cat.graph false).Good) (hcount : s.cat.nextFileid ≤ 2 ^ 64)
    (hdac : cd.cred.dacActive) (huser : cd.cred.uid ≠ 0) (hch : ¬op.Chmods cd f)
    (hino : s.getattr f = some ino) (hino' : (accStep now s cd op).getattr f = some ino') :
    accessModeEval cd.cred ino' may = accessModeEval cd.cred ino may := by
  have hmode : ino'.mode = ino.mode ∨ ino'.mode = clearSetid ino.mode → ino'.mode &&& 0o777 =
      ino.mode &&& 0o777 := by
    rintro (heq | heq)
    · rw [heq]
    · rw [heq, clearSetid_perms]
  obtain ⟨sid, attrs, mask, rfl⟩ | hns := op.setattr_or
  · rcases setattr_effect hdac hino hino' with rfl | ⟨hfh, -, hgates, rfl⟩
    · rfl
    obtain ⟨hu, hgr⟩ := setattrGates_ok (hgates huser)
    refine accessModeEval_congr ?_ ?_ (hmode ?_)
    · rw [uid_result]
      split
      next hsel => exact hu hsel
      next => rfl
    · rw [gid_result]
      split
      next hsel => exact .inr (hgr hsel).1
      next => exact .inl rfl
    · rcases storedMode_cases _ ino ⟨attrs, mask, hasStateid sid⟩ with ⟨hsel, -⟩ | ⟨-, hst⟩
      · exact absurd ⟨hfh, hsel⟩ hch
      · exact hst
  · have hcalm := calm_accStep hg hcount hns hino hino'
    exact accessModeEval_congr hcalm.uid (.inl hcalm.gid) (hmode hcalm.mode)

end Deny

/-! ## Sealed servers and discreet operations -/

/-- The caller `c` of client `k` may not read hidden files or search hidden directories, and
has no open that lets it read a hidden file. -/
structure Sealed (V : Veil) (c : Cred) (k : Clientid) (s : AccStore) : Prop where
  good : (s.cat.graph false).Good
  files : ∀ f, V.files f = true → f.toNat < s.cat.nextFileid ∧
    ∀ ino, s.getattr f = some ino → accessModeEval c ino mayRead = false
  dirs : ∀ d, V.dirs d = true → d < s.cat.nextFileid ∧
    ∀ ino, s.cat.inodeFind d = some ino → accessModeEval c ino mayExec = false
  opens : ∀ f, V.files f = true → ¬HasReadOpen s.ot k f

/-- The file whose extended attributes an operation reads. -/
def AccOp.xattrSource (cd : AccCompound) : AccOp → Option Fileid
  | .lookup _ | .remove _ | .readdir _ _ => (cd.currentFh.filter isXattrFh).map xattrBaseFileid
  | .setxattr _ _ _ _ | .removexattr _ | .getxattr _ | .listxattrs _ _ => cd.currentFh
  | .read _ _ _ _ =>
    if cd.xattrObj.isSome then some (xattrBaseFileid (cd.currentFh.getD 0)) else none
  | _ => none

/-- The file whose data an operation reads, and the stateid it shows for it. -/
def AccOp.dataSource (cd : AccCompound) : AccOp → Option (Fileid × Stateid)
  | .read sid _ _ _ | .seek sid _ _ _ | .readPlus sid _ _ _ _ => cd.currentFh.map (·, sid)
  | .copy srcSid _ _ _ _ _ | .clone srcSid _ _ _ _ _ => cd.savedFh.map (·, srcSid)
  | _ => none

/-- The directory whose entries an operation reads without a check: READDIR, and an OPEN by
name. -/
def AccOp.entrySource (cd : AccCompound) : AccOp → Option Fileid
  | .readdir _ _ => cd.currentFh
  | .openFile a => match a.claim with
    | .null _ => cd.currentFh
    | .fh => none
  | _ => none

/-- The name whose child an operation removes or replaces. -/
def AccOp.victimName (cd : AccCompound) : AccOp → Option NameKey
  | .remove name => cd.currentFh.map fun fh => (fh.toNat, name)
  | .rename _ dstName _ => cd.currentFh.map fun fh => (fh.toNat, dstName)
  | _ => none

/-- A discreet operation: it shows an open for hidden data, does not ask for hidden extended
attributes or entries, makes no chmod of hidden things, removes no hidden directory, is not
told about a full table, and adds no attribute in a slot between those of its file. -/
structure Discreet (V : Veil) (s : AccStore) (cd : AccCompound) (op : AccOp) : Prop where
  data : ∀ fh sid, op.dataSource cd = some (fh, sid) → V.files fh = false ∨ NamesOpen s cd sid
  xattrs : ∀ f, op.xattrSource cd = some f → V.files f = false
  entries : ∀ fh, op.entrySource cd = some fh → V.dirs fh.toNat = false
  victim : ∀ k d, op.victimName cd = some k → s.cat.direntFind k.1 k.2 = some d →
    V.dirs d.childFileid = false
  chmod : ∀ f, op.Chmods cd f → V.files f = false ∧ V.dirs f.toNat = false
  room : s.cat.direntRoom = true
  xattrRoom : s.xattrRoom = true
  slots : ∀ f name, op.xattrTarget cd = some f → op.xattrPutName cd = some name →
    V.files f = false → s.xattr f name = none → s.AppendsXattr f

/-! ## Behind the veil -/

section Plans

variable {V : Veil} {s : AccStore} {cd : AccCompound} {now : ℕ} {fh : Fileid} {name : Name}
  {xs : List (Option XattrRow)} {dir : MdsInode} {srcName dstName : Name} {cookie fits count : ℕ}
  {srcSid : Stateid}

theorem lookupLocalChild_veil {m D p} (h : D p = false ∨ m.inodeFind p = none) :
    lookupLocalChild (m.veil D) p name = lookupLocalChild m p name := by
  unfold lookupLocalChild lookupVisible
  rcases h with hvis | hnone
  · rw [memNsLookup_veil hvis]
    rfl
  · rw [inodeFind_veil, hnone]

theorem direntFind_of_gone (hg : (s.cat.graph false).Good) (hnone : s.getattr fh = none) :
    s.cat.direntFind fh.toNat name = none := by
  cases hd : s.cat.direntFind fh.toNat name with
  | none => rfl
  | some =>
    obtain ⟨_, hdir, -⟩ := dir_of_direntFind hg hd
    rw [show s.cat.inodeFind fh.toNat = none from hnone] at hdir
    cases hdir

section

variable (h : Sealed V cd.cred cd.clientid s) (hdac : cd.cred.dacActive)

include h hdac

/-- A directory with a successful search check is not hidden, or is gone. -/
theorem Sealed.dir_apart (hdir : s.getattr fh = some dir)
    (hck : dirSearchCheck cd.cred dir = true) :
    V.dirs fh.toNat = false := by
  by_contra hhid
  rw [Bool.not_eq_false] at hhid
  have hdeny := (h.dirs _ hhid).2 dir hdir
  rw [dirSearchCheck, accessModeCheck, hdac, hdeny] at hck
  cases hck

theorem Sealed.dir_apart_of_mutate (hdir : s.getattr fh = some dir)
    (hck : dirMutateCheck cd.cred dir = true) :
    V.dirs fh.toNat = false := by
  refine h.dir_apart hdac hdir ?_
  rw [dirMutateCheck, accessModeCheck, hdac] at hck
  rw [UInt32.or_comm] at hck
  rw [dirSearchCheck, accessModeCheck, accessModeEval_of_or hck, Bool.or_true]

theorem planLookup_veil (hx : StandsFor V s xs) (hd : Discreet V s cd (.lookup name)) :
    planLookup (s.veil V xs) cd name = planLookup s cd name := by
  refine get_congr fun fh hfh => need_congr fun _ => ?_
  split
  next hdir =>
    have hbase := hd.xattrs (xattrBaseFileid fh) (by simp [AccOp.xattrSource, hfh, hdir])
    rw [xattr_veil hx hbase]
  next =>
    refine need_congr fun hck => ?_
    have hapart : V.dirs fh.toNat = false ∨ s.cat.inodeFind fh.toNat = none := by
      cases hdir : s.getattr fh with
      | none => exact .inr hdir
      | some =>
        rw [getattr_veil, hdir] at hck
        exact .inl (h.dir_apart hdac hdir hck)
    rw [cat_veil, lookupLocalChild_veil hapart]

theorem planCreate_veil {type : FileType} {a} (hx : StandsFor V s xs)
    (hd : Discreet V s cd (.create name type a)) :
    planCreate now (s.veil V xs) cd name type a = planCreate now s cd name type a := by
  refine get_congr fun _ _ => need_congr fun _ => need_congr fun _ => ?_
  split
  · rw [memXattrPutCheck_veil hx hd.xattrRoom]
  refine get_congr fun _ hpar => need_congr fun _ => need_congr fun hmut => ?_
  rw [cat_veil, memNsCreate_veil (h.dir_apart_of_mutate hdac hpar hmut) hd.room]
  exact check_map fun _ => rfl

theorem planRemove_veil (hx : StandsFor V s xs) (hd : Discreet V s cd (.remove name)) :
    planRemove now (s.veil V xs) cd name = planRemove now s cd name := by
  refine get_congr fun fh hfh => need_congr fun _ => ?_
  split
  next hdir =>
    have hbase := hd.xattrs (xattrBaseFileid fh) (by simp [AccOp.xattrSource, hfh, hdir])
    rw [xattr_veil hx hbase]
  next =>
    refine need_congr fun hmut => ?_
    rw [getattr_veil] at hmut ⊢
    cases hdir : s.getattr fh with
    | none =>
      -- The directory is gone, and with it its entries.
      have hfree := (direntFind_of_gone h.good hdir : s.cat.direntFind _ name = none)
      have hveil : (s.cat.veil V.dirs).direntFind fh.toNat name = none := by
        rw [Memdb.direntFind, findKey_eq_none] at hfree ⊢
        exact fun d hmem => hfree d (mem_of_mem_filter hmem)
      refine need_congr fun _ => ?_
      have hrm : ∀ m : Memdb, m.direntFind fh.toNat name = none →
          memNsRemove now fh.toNat name m = .error .notfound := by
        intro m hm
        simp [memNsRemove, unlinkLocked, hm]
      rw [hrm _ hfree, hrm (s.veil V xs).cat hveil]
    | some =>
      rw [hdir] at hmut
      have hapart := h.dir_apart_of_mutate hdac hdir hmut
      rw [cat_veil, memNsLookup_veil hapart]
      refine need_congr fun _ => ?_
      rw [memNsRemove_veil hapart fun d hfind =>
        hd.victim (fh.toNat, name) d (by simp [AccOp.victimName, hfh]) hfind]
      exact check_map fun _ => rfl

theorem planLink_veil (hd : Discreet V s cd (.link name)) :
    planLink now (s.veil V xs) cd name = planLink now s cd name := by
  refine get_congr fun _ _ => get_congr fun _ _ => need_congr fun _ =>
    need_congr fun hsome => need_congr fun hmut => ?_
  rw [hdac] at hsome
  obtain ⟨_, hdir⟩ := isSome_iff_exists.mp hsome
  rw [hdir] at hmut
  rw [cat_veil, memNsLink_veil (h.dir_apart_of_mutate hdac hdir hmut) hd.room]
  exact check_map fun _ => rfl

theorem renameDacCheck_veil {src dst} :
    renameDacCheck (s.veil V xs) cd.cred src dst srcName dstName =
      renameDacCheck s cd.cred src dst srcName dstName := by
  unfold renameDacCheck
  rw [hdac, getattr_veil, getattr_veil]
  simp only [Bool.not_true, Bool.false_eq_true, if_false]
  split
  · rfl
  next hsrc =>
    split
    · rfl
    next hsm =>
      split
      · rfl
      next hdst =>
        split
        · rfl
        next hdm =>
          rw [Bool.not_eq_true', Bool.not_eq_false] at hsm hdm
          rw [cat_veil, lookupLocalChild_veil (.inl (h.dir_apart_of_mutate hdac hsrc hsm)),
            lookupLocalChild_veil (.inl (h.dir_apart_of_mutate hdac hdst hdm))]

theorem planRename_veil {nsFlags} (hd : Discreet V s cd (.rename srcName dstName nsFlags)) :
    planRename now (s.veil V xs) cd srcName dstName nsFlags =
      planRename now s cd srcName dstName nsFlags := by
  refine get_congr fun src _ => get_congr fun dst hdst => need_congr fun _ =>
    need_congr fun _ => ?_
  rw [renameDacCheck_veil h hdac]
  refine check_congr fun _ hck => ?_
  obtain ⟨_, _, hsd, hdd, hsm, hdm, -, -⟩ := renameDacCheck_ok hdac hck
  have hsa := h.dir_apart_of_mutate hdac hsd hsm
  have hda := h.dir_apart_of_mutate hdac hdd hdm
  have hnoop : renameIsNoop (s.veil V xs) src dst srcName dstName =
      renameIsNoop s src dst srcName dstName := by
    unfold renameIsNoop
    rw [cat_veil, lookupLocalChild_veil (.inl hsa), lookupLocalChild_veil (.inl hda)]
  rw [hnoop]
  split
  · rfl
  rw [cat_veil, memNsRenameFlags_veil hsa hda fun d hfind =>
    hd.victim (dst.toNat, dstName) d (by simp [AccOp.victimName, hdst]) hfind]
  exact check_map fun _ => rfl

end

theorem planReaddir_veil (hx : StandsFor V s xs) (hd : Discreet V s cd (.readdir cookie fits)) :
    planReaddir (s.veil V xs) cd cookie fits = planReaddir s cd cookie fits := by
  refine get_congr fun fh hfh => ?_
  split
  next hdir =>
    have hbase := hd.xattrs (xattrBaseFileid fh) (by simp [AccOp.xattrSource, hfh, hdir])
    rw [xattrsOf_veil hx hbase]
  next =>
    have hapart := hd.entries fh (by simp [AccOp.entrySource, hfh])
    have hentries :
        ((s.veil V xs).cat.dirents.filter fun d => d.parent = fh.toNat ∧ cookie < d.cookie) =
        s.cat.dirents.filter fun d => d.parent = fh.toNat ∧ cookie < d.cookie := by
      show (s.cat.dirents.filter _).filter _ = _
      rw [List.filter_filter]
      refine List.filter_congr fun d _ => ?_
      by_cases hp : d.parent = fh.toNat
      · simp [hp, hapart]
      · simp [hp]
    rw [hentries]
    rfl

theorem Sealed.file_apart (h : Sealed V cd.cred cd.clientid s)
    (hsrc : V.files fh = false ∨ NamesOpen s cd sid) (hio : ioCheck s cd fh sid .read = .ok ()) :
    V.files fh = false := by
  rcases hsrc with hvis | hopen
  · exact hvis
  · by_contra hhid
    rw [Bool.not_eq_false] at hhid
    obtain ⟨os, hos, hclient, hfile, hshare⟩ := open_of_ioCheck hio hopen
    exact h.opens fh hhid ⟨os, hos, hclient, hfile, hshare⟩

theorem planRead_veil (h : Sealed V cd.cred cd.clientid s) (hx : StandsFor V s xs)
    (hd : Discreet V s cd (.read sid offset count io)) :
    planRead (s.veil V xs) cd sid offset count io = planRead s cd sid offset count io := by
  unfold planRead
  split
  next hobj => rw [xattr_veil hx (hd.xattrs _ (by simp [AccOp.xattrSource, hobj]))]
  next =>
    refine get_congr fun fh hfh => need_congr fun _ => check_congr fun _ hio => ?_
    have hvis := h.file_apart (hd.data fh sid (by simp [AccOp.dataSource, hfh])) hio
    rw [data_veil hvis]
    rfl

theorem openByName_veil {create} (hapart : V.dirs fh.toNat = false)
    (hroom : s.cat.direntRoom = true) :
    openByName now (s.veil V xs) cd fh name create = openByName now s cd fh name create := by
  have hlook := @lookupLocalChild_veil name s.cat V.dirs _ (.inl hapart)
  have hcreate : ∀ hw : OpenCreate, openCreateFile now (s.veil V xs) cd fh name hw =
      openCreateFile now s cd fh name hw := by
    intro hw
    unfold openCreateFile
    rw [cat_veil, hlook, memNsCreate_veil hapart hroom]
    cases memNsCreate now (hw.args cd.cred fh.toNat name) s.cat <;> rfl
  simp [openByName, cat_veil, hlook, hcreate]

theorem planOpen_veil {a} (hd : Discreet V s cd (.openFile a)) :
    planOpen now (s.veil V xs) cd a = planOpen now s cd a := by
  refine get_congr fun fh hfh => ?_
  have htarget : openTarget now (s.veil V xs) cd fh a = openTarget now s cd fh a := by
    unfold openTarget
    cases hc : a.claim with
    | fh => rfl
    | null => exact openByName_veil (hd.entries fh (by simp [AccOp.entrySource, hc, hfh])) hd.room
  rw [htarget]
  rfl

/-- **A discreet operation does the same behind the veil.** -/
theorem accPlan_veil {op} (h : Sealed V cd.cred cd.clientid s) (hdac : cd.cred.dacActive)
    (hx : StandsFor V s xs) (hd : Discreet V s cd op) :
    accPlan now (s.veil V xs) cd op = accPlan now s cd op := by
  cases op with
  | lookup => exact planLookup_veil h hdac hx hd
  | create => exact planCreate_veil h hdac hx hd
  | remove => exact planRemove_veil h hdac hx hd
  | rename => exact planRename_veil h hdac hd
  | link => exact planLink_veil h hdac hd
  | readdir => exact planReaddir_veil hx hd
  | openFile => exact planOpen_veil hd
  | read => exact planRead_veil h hx hd
  -- The attributes are those of the current file.
  | setxattr =>
    refine get_congr fun fh hfh => ?_
    rw [memXattrPutCheck_veil hx hd.xattrRoom, xattr_veil hx (hd.xattrs fh hfh)]
    rfl
  | removexattr | getxattr =>
    refine get_congr fun fh hfh => ?_
    rw [xattr_veil hx (hd.xattrs fh hfh)]
    rfl
  | listxattrs =>
    refine get_congr fun fh hfh => ?_
    rw [xattrsOf_veil hx (hd.xattrs fh hfh)]
  | write =>
    unfold accPlan planWrite
    simp only [memXattrPutCheck_veil hx hd.xattrRoom]
    rfl
  -- Data is read past the check of its stateid.
  | seek sid | readPlus sid =>
    refine get_congr fun fh hfh => check_congr fun _ hio => ?_
    have hvis := h.file_apart (hd.data fh sid (by simp [AccOp.dataSource, hfh])) hio
    rw [data_veil hvis]
    rfl
  | copy srcSid =>
    refine get_congr fun src hsrc => get_congr fun dst _ => check_congr fun _ hio => ?_
    have hvis := h.file_apart (hd.data src srcSid (by simp [AccOp.dataSource, hsrc])) hio
    rw [data_veil hvis]
    rfl
  | clone srcSid =>
    refine get_congr fun src hsrc => get_congr fun _ _ => get_congr fun _ _ =>
      get_congr fun _ _ => need_congr fun _ => check_congr fun _ hio => ?_
    have hvis := h.file_apart (hd.data src srcSid (by simp [AccOp.dataSource, hsrc])) hio
    rw [data_veil hvis]
    rfl
  -- The others read neither data nor extended attributes nor entries.
  | _ => rfl

end Plans

/-! ## The next view -/

/-- A call that comes first in its plan, if at all: one of the namespace, or the put of an
attribute. -/
def AccAct.leads : AccAct → Bool
  | .ns _ | .xattrPut _ _ _ => true
  | _ => false

/-- A call that does the same to two servers that look alike: its names are not in hidden
directories, and an attribute that it adds comes last. -/
structure ActApart (V : Veil) (s : AccStore) (a : AccAct) : Prop where
  names : ∀ c, a = .ns c → CallApart V.dirs s.cat c
  slots : ∀ f name val, a = .xattrPut f name val → V.files f = false → s.xattr f name = none →
    s.AppendsXattr f

theorem actApart_of_not_leads {V s a} (h : AccAct.leads a = false) : ActApart V s a := by
  constructor
  · rintro _ rfl
    cases h
  · rintro _ _ _ rfl
    cases h

section Views

variable {V : Veil} {s t : AccStore} {cd : AccCompound} {now : ℕ} {op : AccOp} {a : AccAct}

theorem veil_congr {xs} (hcat : s.cat.veil V.dirs = t.cat.veil V.dirs)
    (hdata : ∀ f, V.files f = false → s.data f = t.data f)
    (hrest : (s.ot, s.lt, s.dt, s.layouts, s.skipTransientNdb) =
      (t.ot, t.lt, t.dt, t.layouts, t.skipTransientNdb)) : s.veil V xs = t.veil V xs := by
  have hd : (s.veil V xs).data = (t.veil V xs).data := by
    funext f
    by_cases hf : V.files f <;> simp_all [AccStore.veil]
  simp only [Prod.mk.injEq] at hrest
  simp only [AccStore.veil, AccStore.mk.injEq] at hd ⊢
  exact ⟨hcat, hd, trivial, hrest⟩

theorem veil_applyAct (ha : ∀ c, a = .ns c → CallApart V.dirs s.cat c) :
    (applyAct now s a).veil V [] = (applyAct now (s.veil V []) a).veil V [] := by
  have hseen : ∀ f, V.files f = false → s.data f = (s.veil V []).data f := fun f hf =>
    (data_veil hf).symm
  cases a with
  | edit g =>
    refine veil_congr veil_veil.symm (fun f hf => ?_) rfl
    rcases eq_or_ne f g with rfl | hfg <;> simp [applyAct, hseen f hf, *]
  | setattr g =>
    refine veil_congr ?_ hseen rfl
    simp only [applyAct, memNsSetattr]
    rw [show (s.veil V []).cat.inodeFind g.toNat = s.cat.inodeFind g.toNat from rfl]
    split <;> exact veil_veil.symm
  | ns c =>
    refine veil_congr ?_ hseen rfl
    simp only [applyAct, cat_veil, nsCall_veil now (ha c rfl)]
    cases nsCall now s.cat c with
    | error | ok => exact veil_veil.symm
  | xattrPut | xattrDel | tables => exact veil_congr veil_veil.symm hseen rfl

theorem SameView.getattr (h : SameView V s t) (f : Fileid) : s.getattr f = t.getattr f := by
  rw [← @getattr_veil V s [], h.rest, getattr_veil]

theorem sameView_applyAct (h : SameView V s t) (hs : ActApart V s a) (ht : ActApart V t a) :
    SameView V (applyAct now s a) (applyAct now t a) := by
  have hrest : (applyAct now s a).veil V [] = (applyAct now t a).veil V [] := by
    rw [veil_applyAct hs.names, veil_applyAct ht.names, h.rest]
  refine ⟨hrest, fun f hf => ?_⟩
  have hx := h.xattrs f hf
  cases a with
  | xattrPut g name val =>
    by_cases hg : g = f
    · subst hg
      have hname : s.xattr g name = t.xattr g name := by rw [AccStore.xattr, hx, AccStore.xattr]
      refine (xattrsOf_putXattr (hs.slots g name val rfl hf)).trans
        (.trans ?_ (xattrsOf_putXattr (ht.slots g name val rfl hf)).symm)
      rw [hname, hx]
    · exact (xattrsOf_putXattr_of_ne hg).trans (hx.trans (xattrsOf_putXattr_of_ne hg).symm)
  | xattrDel => rw [xattrsOf_xattrDel, xattrsOf_xattrDel, hx]
  | ns c =>
    have hafter : (applyAct now s (.ns c)).getattr f = (applyAct now t (.ns c)).getattr f := by
      rw [← @getattr_veil V _ [], hrest, getattr_veil]
    refine (xattrsOf_purgeXattrs _).trans (.trans ?_ (xattrsOf_purgeXattrs _).symm)
    rw [h.getattr f, hx]
    exact congrArg (fun i : Option MdsInode =>
      if (t.getattr f).isNone || i.isSome then t.xattrsOf f else []) hafter
  | edit | setattr | tables => exact hx

variable {as : List AccAct} {c : NsCall} {p : AccPlan} {e : NfsErr}

theorem sameView_foldl_of_not_leads (h : SameView V s t) (has : ∀ a ∈ as, a.leads = false) :
    SameView V (as.foldl (applyAct now) s) (as.foldl (applyAct now) t) := by
  induction as generalizing s t with
  | nil => exact h
  | cons a _ ih =>
    have ha := has a mem_cons_self
    exact ih (sameView_applyAct h (actApart_of_not_leads ha) (actApart_of_not_leads ha))
      fun b hb => has b (mem_cons_of_mem a hb)

theorem sameView_foldl (h : SameView V s t) (htail : ∀ a ∈ as.tail, a.leads = false)
    (hs : ∀ a ∈ as, ActApart V s a) (ht : ∀ a ∈ as, ActApart V t a) :
    SameView V (as.foldl (applyAct now) s) (as.foldl (applyAct now) t) := by
  cases as with
  | nil => exact h
  | cons a =>
    rw [foldl_cons, foldl_cons]
    refine sameView_foldl_of_not_leads ?_ htail
    exact sameView_applyAct h (hs a mem_cons_self) (ht a mem_cons_self)

theorem callApart_of_planned (h : Sealed V cd.cred cd.clientid s) (hdac : cd.cred.dacActive)
    (hd : Discreet V s cd op) (hp : Planned now s cd op (.ns c)) : CallApart V.dirs s.cat c := by
  cases hp with
  | create _ _ hpar hmut => exact ⟨h.dir_apart_of_mutate hdac hpar hmut, hd.room⟩
  | link _ _ hdir hmut => exact ⟨h.dir_apart_of_mutate hdac hdir hmut, hd.room⟩
  | @remove fh name d hop hfh hfind hmut =>
    obtain ⟨_, hdir, -⟩ := dir_of_direntFind h.good hfind
    rw [AccStore.getattr, hdir] at hmut
    refine ⟨h.dir_apart_of_mutate hdac hdir hmut, fun d hfind => ?_⟩
    exact hd.victim (fh.toNat, name) d (by simp [hop, AccOp.victimName, hfh]) hfind
  | @rename _ dst _ dstName _ hop _ hdst hck =>
    obtain ⟨_, _, hsd, hdd, hsm, hdm, -, -⟩ := renameDacCheck_ok hdac hck
    refine ⟨h.dir_apart_of_mutate hdac hsd hsm, h.dir_apart_of_mutate hdac hdd hdm, ?_⟩
    intro d hfind
    exact hd.victim (dst.toNat, dstName) d (by simp [hop, AccOp.victimName, hdst]) hfind

theorem actApart_of_planned (h : Sealed V cd.cred cd.clientid s) (hdac : cd.cred.dacActive)
    (hd : Discreet V s cd op) (hp : Planned now s cd op a) : ActApart V s a := by
  constructor
  · rintro c rfl
    exact callApart_of_planned h hdac hd hp
  · rintro f name val rfl hf hnone
    cases hp with
    | xattrPut htarget hname => exact hd.slots f name htarget hname hf hnone

/-- The operations with a call that leads. -/
def AccOp.leads : AccOp → Bool
  | .create _ _ _ | .remove _ | .rename _ _ _ | .link _ | .openFile _ | .setxattr _ _ _ _
  | .write _ _ _ _ => true
  | _ => false

theorem leads_of_planned (ha : a.leads = true) (hp : Planned now s cd op a) : op.leads = true := by
  cases hp with
  | create hreq =>
    cases op with
    | create | openFile => rfl
    | _ => cases hreq
  | xattrPut _ hname =>
    cases op with
    | create | setxattr | write => rfl
    | _ => cases hname
  | remove hop | rename hop | link hop =>
    rw [hop]
    rfl
  | _ => cases ha

/-- A plan in which only the first call may be one that leads. -/
def LeadFirst (p : AccPlan) : Prop := ∀ a ∈ p.acts.tail, a.leads = false

@[simp] theorem leadFirst_reply {r} : LeadFirst (Plan.reply cd r) := forall_mem_nil _

@[simp] theorem leadFirst_single {a ctx res} : LeadFirst ⟨[a], ctx, res⟩ := by
  simp [LeadFirst]

@[simp] theorem leadFirst_need {test} :
    LeadFirst (Plan.need cd test e p) ↔ (test = true → LeadFirst p) := by
  cases test <;> simp [LeadFirst, Plan.need]

@[simp] theorem leadFirst_get {β : Type} {found : Option β} {k : β → AccPlan} :
    LeadFirst (Plan.get cd found e k) ↔ ∀ b, found = some b → LeadFirst (k b) := by
  cases found <;> simp [LeadFirst, Plan.get]

@[simp] theorem leadFirst_check {β : Type} {r : Except NfsErr β} {k : β → AccPlan} :
    LeadFirst (Plan.check cd r k) ↔ ∀ b, r = .ok b → LeadFirst (k b) := by
  cases r <;> simp [LeadFirst, Plan.check]

theorem leadFirst_openFinish (a : OpenReq) (t : OpenTarget) : LeadFirst (openFinish s cd a t) := by
  have hclears : ∀ b ∈ openClears cd.cred t a.shareAccess, b.leads = false := by
    intro b hb
    unfold openClears at hb
    split at hb
    · obtain ⟨_, -, rfl⟩ := mem_map.mp hb
      rfl
    · cases hb
  have hrest : ∀ (tables : AccAct), tables.leads = false →
      ∀ b ∈ (t.created.toList.map (fun c => AccAct.ns (.create c)) ++
        openClears cd.cred t a.shareAccess ++ [tables]).tail, b.leads = false := by
    intro tables _ b hb
    have hb' : b ∈ openClears cd.cred t a.shareAccess ++ [tables] := by
      cases hc : t.created with
      | none => simpa [hc] using mem_of_mem_tail hb
      | some => simpa [hc] using hb
    rcases mem_append.mp hb' with hb' | hb'
    · exact hclears b hb'
    · rwa [mem_singleton.mp hb']
  unfold openFinish
  split
  · exact hrest _ rfl
  · exact hrest _ rfl

theorem leadFirst_accPlan : LeadFirst (accPlan now s cd op) := by
  cases hb : op.leads with
  | false =>
    intro a ha
    refine Bool.eq_false_iff.mpr fun hlead => ?_
    have hp : Planned now s cd op a := planned_of_mem (mem_of_mem_tail ha)
    rw [leads_of_planned hlead hp] at hb
    cases hb
  | true =>
    -- One call each, but for OPEN.
    cases op with
    | openFile r =>
      simp only [accPlan, planOpen, leadFirst_get, leadFirst_check, leadFirst_need]
      exact fun _ _ t _ _ _ => leadFirst_openFinish r t
    | create =>
      simp only [accPlan, planCreate, leadFirst_get, leadFirst_need]
      intros
      split <;> simp
    | remove =>
      simp only [accPlan, planRemove, leadFirst_get, leadFirst_need]
      intros
      split <;> simp
    | rename =>
      simp only [accPlan, planRename, leadFirst_get, leadFirst_need, leadFirst_check]
      intros
      split
      · simp [AccCompound.done]
      · simp
    | link => simp [accPlan, planLink]
    | setxattr =>
      simp only [accPlan, planSetxattr, planHpcShared, leadFirst_get, leadFirst_need]
      intros
      split
      · simp only [leadFirst_need]
        intros
        split <;> split <;> simp [AccCompound.done]
      · simp
    | write =>
      simp only [accPlan, planWrite]
      split
      · simp
      simp only [leadFirst_get, leadFirst_need, leadFirst_check]
      intros
      split
      · simp
      intro a ha
      rcases mem_ioResult (mem_of_mem_tail ha) with ha | ha
      · rw [mem_singleton.mp ha]
        rfl
      · split at ha
        · cases ha
        · obtain ⟨_, -, rfl⟩ := mem_map.mp ha
          rfl
    | _ => cases hb

theorem sameView_accStep (h : SameView V s t) (hs : Sealed V cd.cred cd.clientid s)
    (ht : Sealed V cd.cred cd.clientid t) (hdac : cd.cred.dacActive) (hds : Discreet V s cd op)
    (hdt : Discreet V t cd op) : accPlan now s cd op = accPlan now t cd op ∧
      SameView V (accStep now s cd op) (accStep now t cd op) := by
  have hplan : accPlan now s cd op = accPlan now t cd op := by
    have hroom := of_decide_eq_true hds.xattrRoom
    have hself : StandsFor V s s.xattrs := ⟨fun _ _ => rfl, hroom⟩
    have hother : StandsFor V t s.xattrs := ⟨h.xattrs, hroom⟩
    have hveil : s.veil V s.xattrs = t.veil V s.xattrs :=
      congrArg (fun u : AccStore => { u with xattrs := s.xattrs }) h.rest
    rw [← accPlan_veil hs hdac hself hds, hveil, accPlan_veil ht hdac hother hdt]
  refine ⟨hplan, ?_⟩
  unfold accStep Plan.run
  rw [← hplan]
  refine sameView_foldl h leadFirst_accPlan (fun a ha => ?_) (fun a ha => ?_)
  · exact actApart_of_planned hs hdac hds (planned_of_mem ha)
  · rw [hplan] at ha
    exact actApart_of_planned ht hdac hdt (planned_of_mem ha)

end Views

/-! ## Sealed servers stay sealed -/

section Stay

variable {V : Veil} {s : AccStore} {cd : AccCompound} {now : ℕ} {op : AccOp}

theorem opens_of_opensFrom (h : Sealed V cd.cred cd.clientid s) (hdac : cd.cred.dacActive)
    (hcount : s.cat.nextFileid < 2 ^ 64) {ot} (hot : OpensFrom now s cd op ot) {f}
    (hf : V.files f = true) : ¬HasReadOpen ot cd.clientid f := by
  intro hopen
  cases hot with
  | same => exact h.opens f hf hopen
  | closed => exact h.opens f hf (hasReadOpen_openStateClose hopen)
  | downgraded => exact h.opens f hf (hasReadOpen_openStateDowngrade hopen)
  | @opened a _ t _ _ htarget hmay =>
    rcases hasReadOpen_openStateOpen hopen with hold | ⟨-, hfile, hread⟩
    · exact h.opens f hf hold
    obtain ⟨hlt, hdeny⟩ := h.files f hf
    cases openTarget_ok htarget with
    | created _ _ _ _ hnew =>
      -- A new file has a fileid that no hidden one has.
      rw [hfile, MdsInode.fh, hnew, UInt64.toNat_ofNat_of_lt' hcount] at hlt
      exact lt_irrefl _ hlt
    | @existing _ ino hino =>
      have hget : s.getattr f = some ino := by
        rw [hfile]
        exact getattr_fh h.good hcount.le hino
      have hno := hdeny _ hget
      have hauth : cd.cred.authSys = true := (Bool.and_eq_true_iff.mp hdac).2
      rw [openModeCheck, hauth, openMay, if_pos hread] at hmay
      rw [accessModeEval_of_or hmay] at hno
      cases hno

theorem ot_accStep (h : ∀ ot lt dt, .tables ot lt dt ∈ (accPlan now s cd op).acts →
      OpensFrom now s cd op ot) : OpensFrom now s cd op (accStep now s cd op).ot := by
  refine run_induction (P := fun t : AccStore => OpensFrom now s cd op t.ot) .same ?_
  intro a ha t ht
  cases a with
  | tables ot lt dt => exact h ot lt dt ha
  | _ => exact ht

theorem sealed_accStep (h : Sealed V cd.cred cd.clientid s) (hdac : cd.cred.dacActive)
    (huser : cd.cred.uid ≠ 0) (hcount : s.cat.nextFileid < 2 ^ 64) (hd : Discreet V s cd op) :
    Sealed V cd.cred cd.clientid (accStep now s cd op) := by
  -- A hidden inode that is still there grants no more than before.
  have hdeny : ∀ {f : Fileid} {may : UInt32}, f.toNat < s.cat.nextFileid →
      (V.files f = true ∨ V.dirs f.toNat = true) →
      (∀ ino, s.getattr f = some ino → accessModeEval cd.cred ino may = false) →
      ∀ ino', (accStep now s cd op).getattr f = some ino' →
        accessModeEval cd.cred ino' may = false := by
    intro f _ hlt hhid hold ino' hino'
    cases hino : s.getattr f with
    | none =>
      rw [getattr_accStep_of_none hlt hino] at hino'
      cases hino'
    | some ino =>
      have hch : ¬op.Chmods cd f := by
        intro hch
        obtain ⟨hfile, hdir⟩ := hd.chmod f hch
        rw [hfile, hdir] at hhid
        rcases hhid with hbad | hbad <;> cases hbad
      rw [accessModeEval_accStep h.good hcount.le hdac huser hch hino hino']
      exact hold ino hino
  refine ⟨?_, fun f hf => ?_, fun d hdir => ?_, fun f hf => ?_⟩
  · exact run_induction (P := fun t : AccStore => (t.cat.graph false).Good) h.good
      fun a ha t ht => good_applyAct ((planned_of_mem ha).wideFromAllocator t.cat) ht
  · obtain ⟨hlt, hold⟩ := h.files f hf
    exact ⟨hlt.trans_le nextFileid_accStep, hdeny hlt (.inl hf) hold⟩
  · obtain ⟨hlt, hold⟩ := h.dirs d hdir
    have hfd : (UInt64.ofNat d).toNat = d := UInt64.toNat_ofNat_of_lt' (hlt.trans hcount)
    refine ⟨hlt.trans_le nextFileid_accStep, fun ino' _ => ?_⟩
    have hold' : ∀ ino, s.getattr (UInt64.ofNat d) = some ino →
        accessModeEval cd.cred ino mayExec = false := by
      intro ino hino
      rw [AccStore.getattr, hfd] at hino
      exact hold ino hino
    refine hdeny (by rwa [hfd]) (.inr (by rwa [hfd])) hold' ino' ?_
    rwa [AccStore.getattr, hfd]
  · have hot : OpensFrom now s cd op (accStep now s cd op).ot := by
      refine ot_accStep fun _ _ _ ha => ?_
      cases planned_of_mem ha with
      | tables hot => exact hot
    exact opens_of_opensFrom h hdac hcount hot hf

end Stay

/-! ## Two runs -/

/-- The server after a request. -/
def requestStep (s : AccStore) (l : AccRequest) : AccStore := accStep l.now s l.cd l.op

/-- The answer to a request, and the compound's state after it. -/
def requestReply (s : AccStore) (l : AccRequest) : Except NfsErr AccReply × AccCompound :=
  ((accPlan l.now s l.cd l.op).res, (accPlan l.now s l.cd l.op).ctx)

/-- A discreet request of the caller, while the 64-bit counter of fileids has not wrapped. -/
structure DiscreetRequest (V : Veil) (c : Cred) (k : Clientid) (s : AccStore) (l : AccRequest) :
    Prop where
  cred : l.cd.cred = c
  clientid : l.cd.clientid = k
  counter : s.cat.nextFileid < 2 ^ 64
  discreet : Discreet V s l.cd l.op

/-- The mode bits deny the caller to read the hidden files, and to read or search the hidden
directories. -/
structure Hides (V : Veil) (c : Cred) (s : AccStore) : Prop where
  files : ∀ f, V.files f = true →
    ∃ ino, s.getattr f = some ino ∧ accessModeEval c ino mayRead = false
  dirs : ∀ d, V.dirs d = true → ∃ ino, s.cat.inodeFind d = some ino ∧
    accessModeEval c ino mayRead = false ∧ accessModeEval c ino mayExec = false

theorem sealed_of_hides {V c k s} (hg : (s.cat.graph false).Good) (h : Hides V c s)
    (hno : ∀ os ∈ s.ot.opens, os.clientid ≠ k) : Sealed V c k s := by
  refine ⟨hg, fun f hf => ?_, fun d hd => ?_, fun f _ ⟨os, hos, hk, _⟩ => hno os hos hk⟩
  · obtain ⟨ino, hino, hdeny⟩ := h.files f hf
    refine ⟨lt_nextFileid_of_getattr hg hino, fun ino' hino' => ?_⟩
    cases hino.symm.trans hino'
    exact hdeny
  · obtain ⟨_, hino, -, hdeny⟩ := h.dirs d hd
    refine ⟨lt_nextFileid_of_inodeFind hg hino, fun _ hino' => ?_⟩
    cases hino.symm.trans hino'
    exact hdeny

/-- **Unreadable content does not reach the caller**, as long as it is discreet: two servers
that differ only in hidden data, extended attributes and entries give the same answers. -/
theorem replies_agree {V : Veil} {c : Cred} {k : Clientid} (hdac : c.dacActive) (huser : c.uid ≠ 0)
    {s t : AccStore} (hs : Reachable AccStart accMachine AccLegal s)
    (ht : Reachable AccStart accMachine AccLegal t) (hhides : Hides V c s)
    (hno : ∀ os ∈ s.ot.opens, os.clientid ≠ k) (hview : SameView V s t)
    {run : List AccRequest} (hrun : EveryInput requestStep (DiscreetRequest V c k) s run)
    (hrun' : EveryInput requestStep (DiscreetRequest V c k) t run) :
    answers requestStep requestReply s run = answers requestStep requestReply t run := by
  have hcat : ∀ d, t.cat.inodeFind d = s.cat.inodeFind d :=
    fun d => (congrArg (fun u : AccStore => u.cat.inodeFind d) hview.rest).symm
  have hot : t.ot = s.ot := (congrArg AccStore.ot hview.rest).symm
  have hseal : Sealed V c k s := sealed_of_hides (good_reachable hs) hhides hno
  have hseal' : Sealed V c k t := by
    refine sealed_of_hides (good_reachable ht) ⟨fun f hf => ?_, fun d hd => ?_⟩ (by rwa [hot])
    · rw [AccStore.getattr, hcat]
      exact hhides.files f hf
    · rw [hcat]
      exact hhides.dirs d hd
  refine answers_eq_of_alike (R := SameView V) (I := Sealed V c k) ?_ ?_ ?_ hseal hseal'
    hrun hrun' hview
  · rintro u l hu ⟨rfl, rfl, hcount, hd⟩
    exact sealed_accStep hu hdac huser hcount hd
  · rintro u v l hu hv ⟨rfl, rfl, -, hd⟩ ⟨-, -, -, hd'⟩ huv
    simp [requestReply, (sameView_accStep huv hu hv hdac hd hd').1]
  · rintro u v l hu hv ⟨rfl, rfl, -, hd⟩ ⟨-, -, -, hd'⟩ huv
    exact (sameView_accStep huv hu hv hdac hd hd').2

/-- Root has made file 3 with mode 0600 and written a byte to it. -/
def serverWithSecret (b : UInt8) : AccStore :=
  accStep 2 (serverWithFile 0 0o600) (compoundOf 0 3) (.write ⟨0, ⟨0, 0⟩⟩ 0 [b] ⟨1, none⟩)

theorem reachable_serverWithSecret (b : UInt8) :
    Reachable AccStart accMachine AccLegal (serverWithSecret b) :=
  .next (a := .op 2 (compoundOf 0 3) (.write ⟨0, ⟨0, 0⟩⟩ 0 [b] ⟨1, none⟩))
    (reachable_serverWithFile 0 0o600) trivial rfl

/-- File 3 is hidden. -/
def veilThree : Veil := { files := fun f => f = 3, dirs := fun _ => false }

theorem sameView_serverWithSecret :
    SameView veilThree (serverWithSecret 7) (serverWithSecret 8) := by
  have hdata : ∀ b, (serverWithSecret b).data = Function.update (serverWithFile 0 0o600).data 3
      ((DataEdit.put 0 [b]).apply ((serverWithFile 0 0o600).data 3)) := fun b => rfl
  refine ⟨veil_congr ?_ (fun f hf => ?_) ?_, fun _ _ => rfl⟩
  · decide +kernel
  · have hne : f ≠ 3 := by simpa [veilThree] using hf
    rw [hdata, hdata, update_of_ne hne, update_of_ne hne]
  · decide +kernel

/-- User 1000 opens file 3 by its filehandle. -/
def openThree : AccRequest := ⟨3, compoundOf 1000 3, ownerOpen⟩

theorem hides_serverWithSecret : Hides veilThree (compoundOf 1000 3).cred (serverWithSecret 7) := by
  refine ⟨fun f hf => ?_, nofun⟩
  obtain rfl : f = 3 := by simpa [veilThree] using hf
  have hany : ((serverWithSecret 7).getattr 3).any
      (fun ino => !accessModeEval (compoundOf 1000 3).cred ino mayRead) = true := by decide +kernel
  cases hino : (serverWithSecret 7).getattr 3 with
  | none =>
    rw [hino] at hany
    cases hany
  | some ino =>
    rw [hino, any_some, Bool.not_eq_true'] at hany
    exact ⟨ino, rfl, hany⟩

/-- A user that is refused an open learns nothing from it. -/
theorem refused_open_tells_nothing :
    answers requestStep requestReply (serverWithSecret 7) [openThree] =
        answers requestStep requestReply (serverWithSecret 8) [openThree] ∧
      requestReply (serverWithSecret 7) openThree = (.error .access, compoundOf 1000 3) := by
  have hok : ∀ b, (serverWithSecret b).cat.nextFileid < 2 ^ 64 ∧
      (serverWithSecret b).cat.direntRoom = true ∧ (serverWithSecret b).xattrRoom = true →
      EveryInput requestStep (DiscreetRequest veilThree (compoundOf 1000 3).cred 1000)
        (serverWithSecret b) [openThree] := fun b hb =>
    ⟨⟨rfl, rfl, hb.1, ⟨nofun, nofun, nofun, nofun, nofun, hb.2.1, hb.2.2, nofun⟩⟩, trivial⟩
  refine ⟨replies_agree (by decide) (by decide) (reachable_serverWithSecret 7)
    (reachable_serverWithSecret 8) hides_serverWithSecret (by decide +kernel)
    sameView_serverWithSecret (hok 7 (by decide +kernel)) (hok 8 (by decide +kernel)), ?_⟩
  decide +kernel

/-- **The anonymous stateid reads any file.**  Two servers differ in the byte of a file of root
with mode 0600; user 1000, whose client has no open, is told which. -/
theorem anonymous_read_tells : Reachable AccStart accMachine AccLegal (serverWithSecret 7) ∧
      Reachable AccStart accMachine AccLegal (serverWithSecret 8) ∧
      Hides veilThree (compoundOf 1000 3).cred (serverWithSecret 7) ∧
      (∀ os ∈ (serverWithSecret 7).ot.opens, os.clientid ≠ 1000) ∧
      SameView veilThree (serverWithSecret 7) (serverWithSecret 8) ∧
      answers requestStep requestReply (serverWithSecret 7)
          [⟨3, compoundOf 1000 3, .read ⟨0, ⟨0, 0⟩⟩ 0 1 ⟨1, none⟩⟩] ≠
        answers requestStep requestReply (serverWithSecret 8)
          [⟨3, compoundOf 1000 3, .read ⟨0, ⟨0, 0⟩⟩ 0 1 ⟨1, none⟩⟩] := by
  refine ⟨reachable_serverWithSecret 7, reachable_serverWithSecret 8, hides_serverWithSecret,
    by decide +kernel, sameView_serverWithSecret, ?_⟩
  decide +kernel

end PnfsLattice
