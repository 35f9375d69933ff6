import PnfsLattice.Cluster.SubtreeMap
import PnfsLattice.Lib.Xdr
import PnfsLattice.Namespace.System

/-!
# One object, one filehandle

A filehandle is put together from the fileid, an owner and a generation. The operations of a
compound stamp owner and generation into the current filehandle, GETFH writes it to the wire, and
the callbacks look the two up again. What is modelled is an operation that succeeds: one that
is refused ends its compound.

The handles agree where the stamps do. They do not if the attribute FILEHANDLE is asked for,
which is always written in the legacy form; if a LOOKUP goes through a cross-shard link, which
has no generation at hand, or into a subtree of another server, whose id it stamps; and if the
inode cannot be read.
-/

namespace PnfsLattice

open Lib List Option

/-! ## Wire forms -/

/-- `struct nfs4_fh_desc`. -/
structure FhDesc where
  fileid : Fileid
  ownerMdsId : UInt32
  generation : UInt32
deriving DecidableEq

def nfs4FhV1Tag : UInt8 := 0x01

/-- The handle of `xdr_nfs4_fh_encode`. -/
def fhEncode (fileid : Fileid) : List UInt8 := be64 fileid

/-- The handle of `xdr_nfs4_fh_encode_v1`. -/
def fhEncodeV1 (fh : FhDesc) : List UInt8 :=
  nfs4FhV1Tag :: (be32 fh.ownerMdsId ++ (be64 fh.fileid ++ be32 fh.generation))

/-- `xdr_nfs4_fh_encode_desc`. -/
def fhEncodeDesc (fh : FhDesc) : List UInt8 :=
  if fh.ownerMdsId ≠ 0 then fhEncodeV1 fh else fhEncode fh.fileid

/-- The fields of a handle after its tag. -/
def Dec.fhV1 : Dec FhDesc := do
  let ownerMdsId ← Dec.uint32
  let fileid ← Dec.uint64
  let generation ← Dec.uint32
  return { fileid, ownerMdsId, generation }

/-- `xdr_nfs4_fh_decode_full`; a handle of no known form gets fileid 0. -/
def fhDecodeFull (bs : List UInt8) : FhDesc :=
  let bad : FhDesc := ⟨0, 0, 0⟩
  if bs.length = 8 then (Dec.uint64.run bs).elim bad fun r => ⟨r.1, 0, 0⟩
  else if 17 ≤ bs.length ∧ bs.head? = some nfs4FhV1Tag then
    (Dec.fhV1.run bs.tail).elim bad Prod.fst
  else bad

/-- A handle that the server wrote is read back, the legacy form without owner and generation. -/
theorem fhDecodeFull_fhEncodeDesc (fh : FhDesc) :
    fhDecodeFull (fhEncodeDesc fh) = if fh.ownerMdsId ≠ 0 then fh else ⟨fh.fileid, 0, 0⟩ := by
  unfold fhEncodeDesc
  split
  · have hread : Reads Dec.fhV1 _ fh :=
      (Reads.uint32 _).bind ((Reads.uint64 _).bind ((Reads.uint32 _).map _))
    have hrun := hread []
    rw [append_nil] at hrun
    simp [fhDecodeFull, fhEncodeV1, hrun]
  · have hrun := Reads.uint64 fh.fileid []
    rw [append_nil] at hrun
    simp [fhDecodeFull, fhEncode, hrun]

/-! ## Stamps -/

/-- The fields of an inode that the stamps read. -/
structure FhInode where
  fileid : Fileid
  parentFileid : Fileid
  generation : UInt64

/-- What the catalogue and its caches answer during an operation: `compound_inode_get` or
`mds_cat_ns_getattr`, `compound_lookup_local_child`, and the target of a cross-shard link. -/
structure FhCat where
  inodeGet : Fileid → Option FhInode
  lookupLocalChild : Fileid → Name → Option FhInode
  extDirent : Fileid → Name → Option Fileid

/-- The id of the server, `referral_strict`, and the subtree map. -/
structure FhConfig where
  mdsId : UInt32
  referralStrict : Bool
  smap : Option (List SubtreeEntry)

/-- The filehandles of a compound and their paths. -/
structure FhCompound where
  current : Option FhDesc
  saved : Option FhDesc
  path : Name
  savedPath : Name

/-- The operations that set the current filehandle. OPEN comes with the inode it has opened
and, for `CLAIM_NULL`, the name; CREATE with the inode it has made. -/
inductive StampOp
  | putrootfh
  | putfh (wire : List UInt8)
  | savefh
  | restorefh
  | lookup (name : Name)
  | lookupp
  | openFile (target : FhInode) (name : Option Name)
  | create (made : FhInode)

section Stamp

variable (cfg : FhConfig) (cat : FhCat)

/-- The stamp of an inode that was read. -/
def FhInode.stamp (ino : FhInode) : FhDesc := ⟨ino.fileid, cfg.mdsId, ino.generation.toUInt32⟩

/-- The owner that `op_lookup` stamps: under `referral_strict` that of the subtree around the
path, unless it is the root's. -/
def lookupOwner (path : Name) : UInt32 :=
  match if cfg.referralStrict then cfg.smap.bind fun m => subtreeMapLookup m path else none with
  | none => cfg.mdsId
  | some se => if se.path = rootPath then cfg.mdsId else se.ownerMdsId.toUInt32

/-- The path without its last component, as far as it is known. -/
def parentPath (path : Name) : Name :=
  let dir := ((path.reverse.dropWhile (· ≠ slash)).drop 1).reverse
  if slash ∉ path then path else if dir.isEmpty then [slash] else dir

/-- The operations, each as far as it concerns the filehandles. -/
def FhCompound.step (cd : FhCompound) : StampOp → Option FhCompound
  | .putrootfh =>
    let generation := (cat.inodeGet fileidRoot.toUInt64).elim 0 fun ino => ino.generation.toUInt32
    some { cd with current := some ⟨fileidRoot.toUInt64, cfg.mdsId, generation⟩, path := [slash] }
  | .putfh wire =>
    if (fhDecodeFull wire).fileid = 0 then none
    else (cat.inodeGet (fhDecodeFull wire).fileid).map fun _ =>
      { cd with current := some (fhDecodeFull wire), path := [] }
  | .savefh => cd.current.map fun _ => { cd with saved := cd.current, savedPath := cd.path }
  | .restorefh => cd.saved.map fun _ => { cd with current := cd.saved, path := cd.savedPath }
  | .lookup name => cd.current.bind fun fh =>
    let path := PathFh.child ⟨0, cd.path⟩ name
    match cat.lookupLocalChild fh.fileid name with
    | some child =>
      let current := { child.stamp cfg with ownerMdsId := lookupOwner cfg path }
      some { cd with current := some current, path }
    | none => (cat.extDirent fh.fileid name).map fun fileid =>
      { cd with current := some ⟨fileid, cfg.mdsId, 0⟩, path }
  | .lookupp => cd.current.bind fun fh => (cat.inodeGet fh.fileid).bind fun ino =>
    (cat.inodeGet ino.parentFileid).map fun parent =>
      { cd with current := some (parent.stamp cfg), path := parentPath cd.path }
  | .openFile target name => cd.current.map fun _ =>
    { cd with
      current := some (target.stamp cfg)
      path := name.elim cd.path fun name => PathFh.child ⟨0, cd.path⟩ name }
  | .create made => cd.current.map fun _ => { cd with current := some (made.stamp cfg) }

/-- `deleg_fh_identity`, `ddt_fh_identity`, and what `byte_range_collect_holders` finds out: the
handle of a callback. -/
def fhIdentity (fileid : Fileid) : FhDesc :=
  match cat.inodeGet fileid with
  | none => ⟨fileid, 0, 0⟩
  | some ino =>
    if cfg.mdsId = 0 then ⟨fileid, 0, 0⟩ else ⟨fileid, cfg.mdsId, ino.generation.toUInt32⟩

end Stamp

/-! ## The server -/

/-- The compounds that are being executed, and for the statement the handles that were emitted,
with the objects they were emitted for. -/
structure FhSys where
  compounds : ℕ → FhCompound
  emitted : List (Fileid × List UInt8)

/-- What happens: a compound begins or goes on, GETFH, the attribute FILEHANDLE of GETATTR or
READDIR, or CB_RECALL, CB_NOTIFY or CB_LAYOUTRECALL. -/
inductive FhEvent
  | begin (i : ℕ)
  | op (i : ℕ) (cat : FhCat) (op : StampOp)
  | getfh (i : ℕ)
  | fattrFilehandle (ino : FhInode)
  | callback (cat : FhCat) (fileid : Fileid)

/-- A handle is written for an object. -/
def FhSys.emit (s : FhSys) (fileid : Fileid) (handle : List UInt8) : FhSys :=
  { s with emitted := (fileid, handle) :: s.emitted }

def handleStep (cfg : FhConfig) (s : FhSys) : FhEvent → Option FhSys
  | .begin i => some { s with compounds := Function.update s.compounds i ⟨none, none, [], []⟩ }
  | .op i cat op => ((s.compounds i).step cfg cat op).map fun cd =>
    { s with compounds := Function.update s.compounds i cd }
  | .getfh i => (s.compounds i).current.map fun fh => s.emit fh.fileid (fhEncodeDesc fh)
  | .fattrFilehandle ino => some (s.emit ino.fileid (fhEncode ino.fileid))
  | .callback cat fileid => some (s.emit fileid (fhEncodeDesc (fhIdentity cfg cat fileid)))

/-- Nothing was emitted yet, and no compound has a filehandle. -/
def FhStart (s : FhSys) : Prop :=
  s.emitted = [] ∧ ∀ i, (s.compounds i).current = none ∧ (s.compounds i).saved = none

variable {cfg : FhConfig} {gen : Fileid → UInt64} {s t : FhSys} {e : FhEvent}

/-- Different objects have different handles, because the fileid can be read off. -/
theorem fileid_of_emitted (hs : Reachable FhStart (handleStep cfg) anyStep s) :
    ∀ h ∈ s.emitted, (fhDecodeFull h.2).fileid = h.1 := by
  have hdesc (fh : FhDesc) : (fhDecodeFull (fhEncodeDesc fh)).fileid = fh.fileid := by
    rw [fhDecodeFull_fhEncodeDesc]
    split <;> rfl
  refine hs.invariant (P := fun s => ∀ h ∈ s.emitted, (fhDecodeFull h.2).fileid = h.1)
    (fun s h0 => by rw [h0.1]; exact forall_mem_nil _) fun s e t ih _ hst => ?_
  cases e with
  | begin =>
    cases hst
    exact ih
  | op =>
    obtain ⟨_, -, rfl⟩ := map_eq_some_iff.mp hst
    exact ih
  | getfh =>
    obtain ⟨fh, -, rfl⟩ := map_eq_some_iff.mp hst
    exact forall_mem_cons.mpr ⟨hdesc fh, ih⟩
  | fattrFilehandle ino =>
    cases hst
    exact forall_mem_cons.mpr ⟨hdesc ⟨ino.fileid, 0, 0⟩, ih⟩
  | callback =>
    cases hst
    refine forall_mem_cons.mpr ⟨(hdesc _).trans ?_, ih⟩
    unfold fhIdentity
    split
    · rfl
    · split <;> rfl

/-! ## The condition -/

/-- What is read has the generation of its object. -/
structure FhCat.Agrees (gen : Fileid → UInt64) (cat : FhCat) : Prop where
  get : ∀ f ino, cat.inodeGet f = some ino → ino.fileid = f ∧ ino.generation = gen f
  child : ∀ f name ino, cat.lookupLocalChild f name = some ino → ino.generation = gen ino.fileid

/-- Generations do not change, and a PUTFH has a handle that was emitted. -/
def FhLegal (gen : Fileid → UInt64) (s : FhSys) : FhEvent → Prop
  | .op _ cat op => cat.Agrees gen ∧ match op with
    | .putfh wire => wire ∈ s.emitted.map Prod.snd
    | .openFile ino _ | .create ino => ino.generation = gen ino.fileid
    | _ => True
  | .callback cat _ => cat.Agrees gen
  | _ => True

/-- The condition: the root and the objects of callbacks can be read, a LOOKUP finds its name in
the directory itself and stays out of other servers' subtrees, and nobody asks for the
attribute. -/
def StampOk (cfg : FhConfig) (s : FhSys) : FhEvent → Prop
  | .op _ cat .putrootfh => (cat.inodeGet fileidRoot.toUInt64).isSome
  | .op i cat (.lookup name) =>
    (∀ fh ∈ (s.compounds i).current, (cat.lookupLocalChild fh.fileid name).isSome) ∧
      lookupOwner cfg (PathFh.child ⟨0, (s.compounds i).path⟩ name) = cfg.mdsId
  | .fattrFilehandle _ => False
  | .callback cat fileid => (cat.inodeGet fileid).isSome
  | _ => True

/-- The handle of an object. -/
def canonical (cfg : FhConfig) (gen : Fileid → UInt64) (f : Fileid) : FhDesc :=
  ⟨f, cfg.mdsId, (gen f).toUInt32⟩

/-- A filehandle, if there is one, is that of its object. -/
def Own (cfg : FhConfig) (gen : Fileid → UInt64) (o : Option FhDesc) : Prop :=
  ∀ fh ∈ o, fh = canonical cfg gen fh.fileid

/-- All filehandles are those of their objects. -/
structure FhInv (cfg : FhConfig) (gen : Fileid → UInt64) (s : FhSys) : Prop where
  current : ∀ i, Own cfg gen (s.compounds i).current
  saved : ∀ i, Own cfg gen (s.compounds i).saved
  emitted : ∀ h ∈ s.emitted, h.2 = fhEncodeDesc (canonical cfg gen h.1)

theorem own_none : Own cfg gen none := nofun

theorem own_canonical (f : Fileid) : Own cfg gen (some (canonical cfg gen f)) := by
  rintro _ ⟨⟩
  rfl

theorem own_stamp {ino : FhInode} (h : ino.generation = gen ino.fileid) :
    Own cfg gen (some (ino.stamp cfg)) := by
  rw [FhInode.stamp, h]
  exact own_canonical _

variable {cd : FhCompound}

theorem FhInv.step {i : ℕ} {cat : FhCat} {op : StampOp} (hid : cfg.mdsId ≠ 0)
    (h : FhInv cfg gen s) (hl : FhLegal gen s (.op i cat op)) (hok : StampOk cfg s (.op i cat op))
    (hst : (s.compounds i).step cfg cat op = some cd) :
    Own cfg gen cd.current ∧ Own cfg gen cd.saved := by
  obtain ⟨hcat, hl⟩ := hl
  cases op with
  | putrootfh =>
    obtain ⟨ino, hino⟩ := isSome_iff_exists.mp hok
    cases hst
    rw [hino, elim_some, (hcat.get _ _ hino).2]
    exact ⟨own_canonical _, h.saved i⟩
  | putfh =>
    obtain ⟨e, he, rfl⟩ := mem_map.mp hl
    have hwire : fhDecodeFull e.2 = canonical cfg gen e.1 := by
      rw [h.emitted e he, fhDecodeFull_fhEncodeDesc]
      exact if_pos hid
    simp only [FhCompound.step, hwire, ite_none_left_eq_some, map_eq_some_iff] at hst
    obtain ⟨-, ino, -, rfl⟩ := hst
    exact ⟨own_canonical _, h.saved i⟩
  | savefh =>
    obtain ⟨fh, -, rfl⟩ := map_eq_some_iff.mp hst
    exact ⟨h.current i, h.current i⟩
  | restorefh =>
    obtain ⟨fh, -, rfl⟩ := map_eq_some_iff.mp hst
    exact ⟨h.saved i, h.saved i⟩
  | lookup =>
    obtain ⟨fh, hfh, hst⟩ := bind_eq_some_iff.mp hst
    obtain ⟨_, hchild⟩ := isSome_iff_exists.mp (hok.1 fh hfh)
    simp only [hchild, hok.2, Option.some.injEq] at hst
    subst hst
    exact ⟨own_stamp (hcat.child _ _ _ hchild), h.saved i⟩
  | lookupp =>
    obtain ⟨fh, -, hst⟩ := bind_eq_some_iff.mp hst
    obtain ⟨_, -, hst⟩ := bind_eq_some_iff.mp hst
    obtain ⟨_, hparent, rfl⟩ := map_eq_some_iff.mp hst
    obtain ⟨hf, hgen⟩ := hcat.get _ _ hparent
    exact ⟨own_stamp (hgen.trans (congrArg gen hf.symm)), h.saved i⟩
  | openFile | create =>
    obtain ⟨_, -, rfl⟩ := map_eq_some_iff.mp hst
    exact ⟨own_stamp hl, h.saved i⟩

theorem FhInv.setCompound (h : FhInv cfg gen s) (i : ℕ)
    (hcd : Own cfg gen cd.current ∧ Own cfg gen cd.saved) :
    FhInv cfg gen { s with compounds := Function.update s.compounds i cd } := by
  refine ⟨fun k => ?_, fun k => ?_, h.emitted⟩ <;> rcases eq_or_ne k i with rfl | hk
  · simpa using hcd.1
  · simpa [hk] using h.current k
  · simpa using hcd.2
  · simpa [hk] using h.saved k

theorem FhInv.emit (h : FhInv cfg gen s) {f handle}
    (hf : handle = fhEncodeDesc (canonical cfg gen f)) : FhInv cfg gen (s.emit f handle) :=
  ⟨h.current, h.saved, forall_mem_cons.mpr ⟨hf, h.emitted⟩⟩

theorem FhInv.handleStep (hid : cfg.mdsId ≠ 0) (h : FhInv cfg gen s) (hl : FhLegal gen s e)
    (hok : StampOk cfg s e) (hst : handleStep cfg s e = some t) : FhInv cfg gen t := by
  cases e with
  | begin i =>
    cases hst
    exact h.setCompound i ⟨own_none, own_none⟩
  | op i =>
    obtain ⟨_, hcd, rfl⟩ := map_eq_some_iff.mp hst
    exact h.setCompound i (h.step hid hl hok hcd)
  | getfh i =>
    obtain ⟨fh, hfh, rfl⟩ := map_eq_some_iff.mp hst
    exact h.emit (congrArg _ (h.current i fh hfh))
  | fattrFilehandle => exact hok.elim
  | callback =>
    obtain ⟨_, hino⟩ := isSome_iff_exists.mp hok
    cases hst
    refine h.emit ?_
    simp [fhIdentity, hino, hid, canonical, (hl.get _ _ hino).2]

/-- **One object, one filehandle.**  Handles of different objects differ in every run, and in
runs that meet the condition all handles of an object are the same. -/
theorem one_object_one_filehandle (hid : cfg.mdsId ≠ 0) :
    (Reachable FhStart (handleStep cfg) anyStep s →
      ∀ h ∈ s.emitted, ∀ h' ∈ s.emitted, h.2 = h'.2 → h.1 = h'.1) ∧
    (Reachable FhStart (handleStep cfg) (fun s e => FhLegal gen s e ∧ StampOk cfg s e) s →
      ∀ h ∈ s.emitted, ∀ h' ∈ s.emitted, h.1 = h'.1 → h.2 = h'.2) := by
  refine ⟨fun hs h hh h' hh' heq => ?_, fun hs h hh h' hh' heq => ?_⟩
  · have hread := fileid_of_emitted hs
    rw [← hread h hh, ← hread h' hh', heq]
  have hstart : ∀ s, FhStart s → FhInv cfg gen s := by
    rintro s ⟨hnone, hfh⟩
    refine ⟨fun i => (hfh i).1 ▸ own_none, fun i => (hfh i).2 ▸ own_none, ?_⟩
    rw [hnone]
    exact forall_mem_nil _
  have hinv := hs.invariant hstart fun s e t h hok hst => h.handleStep hid hok.1 hok.2 hst
  rw [hinv.emitted h hh, hinv.emitted h' hh', heq]

/-- Server 1, alone. -/
def serverOne : FhConfig := { mdsId := 1, referralStrict := true, smap := none }

/-- A catalogue with the root only, whose generation is 1. -/
def rootFhCat : FhCat where
  inodeGet f := if f = 2 then some ⟨2, 0, 1⟩ else none
  lookupLocalChild _ _ := none
  extDirent _ _ := none

theorem agrees_rootFhCat : rootFhCat.Agrees fun _ => 1 := by
  refine ⟨fun f _ hino => ?_, nofun⟩
  obtain ⟨rfl, h⟩ := ite_none_right_eq_some.mp hino
  cases h
  exact ⟨rfl, rfl⟩

/-- A server that has answered PUTROOTFH and GETFH. -/
def rootFhSys : FhSys where
  compounds := Function.update (fun _ => ⟨none, none, [], []⟩) 0 ⟨some ⟨2, 1, 1⟩, none, [slash], []⟩
  emitted := [(2, [1, 0, 0, 0, 1, 0, 0, 0, 0, 0, 0, 0, 2, 0, 0, 0, 1])]

theorem reachable_rootFhSys {ok}
    (hok : ∀ s e, FhLegal (fun _ => 1) s e ∧ StampOk serverOne s e → ok s e) :
    Reachable FhStart (handleStep serverOne) ok rootFhSys := by
  have hstart : FhStart ⟨fun _ => ⟨none, none, [], []⟩, []⟩ := ⟨rfl, fun _ => ⟨rfl, rfl⟩⟩
  refine .next (a := .getfh 0)
    (.next (a := .op 0 rootFhCat .putrootfh) (.start hstart) ?_ rfl) ?_ rfl
  · exact hok _ _ ⟨⟨agrees_rootFhCat, trivial⟩, rfl⟩
  · exact hok _ _ ⟨trivial, trivial⟩

/-- The handle of the root in a callback. -/
theorem one_object_one_filehandle_root : fhEncodeDesc (fhIdentity serverOne rootFhCat 2) =
      [1, 0, 0, 0, 1, 0, 0, 0, 0, 0, 0, 0, 2, 0, 0, 0, 1] :=
  (one_object_one_filehandle (by decide)).2
    ((reachable_rootFhSys fun _ _ => id).next (a := .callback rootFhCat 2)
      ⟨agrees_rootFhCat, rfl⟩ rfl) _ mem_cons_self _
    (mem_cons_of_mem _ mem_cons_self) rfl

/-- **GETFH and GETATTR disagree**: the handle of the root has 17 bytes, and the attribute
FILEHANDLE has eight. -/
theorem filehandle_attribute_differs :
    ∃ s, Reachable FhStart (handleStep serverOne) (FhLegal fun _ => 1) s ∧
      ∃ h ∈ s.emitted, ∃ h' ∈ s.emitted, h.1 = h'.1 ∧ h.2 ≠ h'.2 := by
  refine ⟨_, (reachable_rootFhSys fun _ _ h => h.1).next
    (a := .fattrFilehandle ⟨2, 0, 1⟩) trivial rfl, _, mem_cons_self, _,
    mem_cons_of_mem _ mem_cons_self, rfl, ?_⟩
  decide

end PnfsLattice
