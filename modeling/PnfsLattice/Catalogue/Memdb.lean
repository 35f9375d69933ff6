import PnfsLattice.Catalogue.Inode
import PnfsLattice.Lib.Keyed

/-!
# The in-memory catalogue

The namespace half of the reference backend `catalogue_memdb.c`: inodes, directory
entries, stripe maps, the garbage queue of data-server files and the manifest of
asynchronous removes. Every call runs under one lock and checks everything before it
changes anything, so a call is a function from a catalogue to a status or the new
catalogue.

A table of slots is a list of its used rows. Slot positions are not seen by these calls,
which find rows by key; a free slot is room under the table's bound.
-/

namespace PnfsLattice

open Lib

/-! ## Rows -/

/-- The values of `enum mds_status` that these calls return besides `MDS_OK`. -/
inductive MdsStatus
  | nomem
  | io
  | notfound
  | exists
  | inval
  | perm
  | stale
  | notempty
  | isdir
  | notdir
  | nospc
  | nosupport
  | indoubt
deriving DecidableEq

/-- `MDS_FILEID_ROOT`. -/
def fileidRoot : CatFileid := 2

def mdsMaxPath : ℕ := 4096

def memdbMaxInodes : ℕ := 4096

def memdbMaxDirents : ℕ := 4096

def memdbMaxStripeMaps : ℕ := 256

def memdbMaxGc : ℕ := 256

def memdbMaxRemovePending : ℕ := 256

def memdbMaxXattrs : ℕ := 1024

def mdsXattrNameMax : ℕ := 255

/-- `MDS_XATTR_VAL_MAX`, which also bounds the bytes of one READ. -/
def mdsXattrValMax : ℕ := 65536

def memdbCookieFirst : ℕ := 3

def mdsMaxName : ℕ := 255

def mdsMaxMirrors : ℕ := 4

def mdsNfsFhMax : ℕ := 128

/-- `MDS_CAT_RNF_KEEP_DST_ORPHAN`. -/
def rnfKeepDstOrphan : UInt32 := 1

/-- `struct memdb_dirent`. -/
structure MemdbDirent where
  parent : CatFileid
  name : Name
  childFileid : CatFileid
  childType : FileType
  cookie : ℕ
deriving DecidableEq

def MemdbDirent.key (d : MemdbDirent) : CatFileid × Name := (d.parent, d.name)

/-- `struct mds_ds_map_entry`: a data-server file. -/
structure DsMapEntry where
  dsId : UInt32
  nfsFh : List UInt8
deriving DecidableEq

/-- `struct memdb_stripe`. -/
structure MemdbStripe where
  fileid : CatFileid
  stripeCount : ℕ
  stripeUnit : ℕ
  mirrorCount : ℕ
  entries : List DsMapEntry
deriving DecidableEq

/-- `struct mds_gc_entry`: a data-server file to be deleted. -/
structure GcEntry where
  gcSeq : ℕ
  fileid : CatFileid
  dsId : UInt32
  nfsFh : List UInt8
  sweepHint : UInt32
deriving DecidableEq

/-- `struct mds_remove_pending_entry`: a remove that was acknowledged and is to be
carried out. -/
structure RemovePendingEntry where
  removeSeq : ℕ
  dirFileid : CatFileid
  name : Name
  childFileid : CatFileid
  childGeneration : UInt64
deriving DecidableEq

/-- `struct memdb`, the namespace tables. -/
structure Memdb where
  inodes : List MdsInode
  dirents : List MemdbDirent
  stripes : List MemdbStripe
  gc : List GcEntry
  removePending : List RemovePendingEntry
  nextFileid : CatFileid
  nextCookie : ℕ
  nextGcSeq : ℕ
  nextRemoveSeq : ℕ
deriving DecidableEq

/-- The root directory of a new instance. -/
def rootInode (now : ℕ) : MdsInode where
  fileid := fileidRoot
  type := .dir
  mode := 0o755
  nlink := 2
  uid := 0
  gid := 0
  size := 0
  atime := now
  mtime := now
  ctime := now
  change := 1
  generation := 1
  flags := 0
  parentFileid := 0
  inlineDsId := 0
  inlineFh := []

/-- `memdb_instance_new`. -/
def memdbNew (now : ℕ) : Memdb where
  inodes := [rootInode now]
  dirents := []
  stripes := []
  gc := []
  removePending := []
  nextFileid := fileidRoot + 1
  nextCookie := memdbCookieFirst
  nextGcSeq := 1
  nextRemoveSeq := 1

/-! ## Helpers -/

def memdbNameOk (name : Name) : Bool := !name.isEmpty && name.length ≤ mdsMaxName

/-- `memdb_parent_touch`. -/
def parentTouch (now : ℕ) (parent : MdsInode) : MdsInode :=
  { parent with mtime := now, ctime := now, change := parent.change + 1 }

/-- `nlink++`. -/
def nlinkInc (ino : MdsInode) : MdsInode := { ino with nlink := ino.nlink + 1 }

/-- `if (nlink > 0) nlink--`. -/
def nlinkDec (ino : MdsInode) : MdsInode := { ino with nlink := ino.nlink - 1 }

/-- `flags |= flag`. -/
def setFlag (flag : UInt32) (ino : MdsInode) : MdsInode := { ino with flags := ino.flags ||| flag }

/-- `parent_fileid = parent`. -/
def setParent (parent : CatFileid) (ino : MdsInode) : MdsInode :=
  { ino with parentFileid := parent }

/-- The change of an inode that gains or loses a link. -/
def linkTouch (now : ℕ) (ino : MdsInode) : MdsInode :=
  { ino with ctime := now, change := ino.change + 1 }

namespace Memdb

variable (m : Memdb)

/-- `memdb_inode_find`. -/
def inodeFind (fileid : CatFileid) : Option MdsInode :=
  findKey MdsInode.fileid fileid m.inodes

/-- `memdb_inode_store` into a free slot. -/
def inodeStore (ino : MdsInode) : Memdb := { m with inodes := ino :: m.inodes }

/-- A change of the inode in its slot. -/
def inodeModify (fileid : CatFileid) (g : MdsInode → MdsInode) : Memdb :=
  { m with inodes := modifyKey MdsInode.fileid fileid g m.inodes }

/-- The inode's slot is freed. -/
def inodeDrop (fileid : CatFileid) : Memdb :=
  { m with inodes := eraseKey MdsInode.fileid fileid m.inodes }

/-- `memdb_dirent_find`. -/
def direntFind (parent : CatFileid) (name : Name) : Option MemdbDirent :=
  findKey MemdbDirent.key (parent, name) m.dirents

/-- `memdb_dir_has_entries`. -/
def dirHasEntries (dir : CatFileid) : Bool := m.dirents.any fun d => d.parent = dir

/-- `memdb_dirent_set` into a free slot, with a fresh cookie. -/
def direntSet (parent : CatFileid) (name : Name) (childFileid : CatFileid) (childType : FileType) :
    Memdb :=
  { m with
    dirents := { parent, name, childFileid, childType, cookie := m.nextCookie } :: m.dirents
    nextCookie := m.nextCookie + 1 }

/-- The entry's slot is freed. -/
def direntDrop (parent : CatFileid) (name : Name) : Memdb :=
  { m with dirents := eraseKey MemdbDirent.key (parent, name) m.dirents }

/-- `memdb_stripe_find`. -/
def stripeFind (fileid : CatFileid) : Option MemdbStripe :=
  findKey MemdbStripe.fileid fileid m.stripes

/-- `memdb_stripe_clear` of the file's row. -/
def stripeDrop (fileid : CatFileid) : Memdb :=
  { m with stripes := eraseKey MemdbStripe.fileid fileid m.stripes }

/-- `memdb_gc_free_count`. -/
def gcFreeCount : ℕ := memdbMaxGc - m.gc.length

/-- `memdb_gc_insert`. -/
def gcInsert (fileid : CatFileid) (sweepHint : UInt32) (e : DsMapEntry) : Memdb :=
  { m with
    gc := { gcSeq := m.nextGcSeq, fileid, dsId := e.dsId, nfsFh := e.nfsFh.take mdsNfsFhMax,
            sweepHint } :: m.gc
    nextGcSeq := m.nextGcSeq + 1 }

/-- Whether the inode table has a free slot. -/
def inodeRoom : Bool := m.inodes.length < memdbMaxInodes

/-- Whether the dirent table has a free slot. -/
def direntRoom : Bool := m.dirents.length < memdbMaxDirents

/-- Whether the stripe table has a free slot. -/
def stripeRoom : Bool := m.stripes.length < memdbMaxStripeMaps

end Memdb

/-! ## New entries -/

def memAllocFileid (m : Memdb) : CatFileid × Memdb :=
  (m.nextFileid, { m with nextFileid := m.nextFileid + 1 })

/-- The arguments of `mem_ns_create`. -/
structure CreateArgs where
  parent : CatFileid
  name : Name
  type : FileType
  mode : UInt32
  uid : UInt64
  gid : UInt64

def CreateArgs.child (a : CreateArgs) (fileid : CatFileid) (now : ℕ) : MdsInode where
  fileid := fileid
  type := a.type
  mode := a.mode
  nlink := if a.type = .dir then 2 else 1
  uid := a.uid
  gid := a.gid
  size := 0
  atime := now
  mtime := now
  ctime := now
  change := 1
  generation := 1
  flags := if a.type = .reg then iflagInline else 0
  parentFileid := a.parent
  inlineDsId := 0
  inlineFh := []

def memNsCreate (now : ℕ) (a : CreateArgs) (m : Memdb) : Except MdsStatus (MdsInode × Memdb) :=
  if !memdbNameOk a.name then .error .inval
  else match m.inodeFind a.parent with
  | none => .error .notfound
  | some parent =>
    if parent.type ≠ .dir then .error .notdir
    else if (m.direntFind a.parent a.name).isSome then .error .exists
    else if !(m.inodeRoom && m.direntRoom) then .error .nospc
    else
      let child := a.child m.nextFileid now
      let m := { m with nextFileid := m.nextFileid + 1 }
      let m := (m.inodeStore child).direntSet a.parent a.name child.fileid a.type
      let m := if a.type = .dir then m.inodeModify a.parent nlinkInc else m
      .ok (child, m.inodeModify a.parent (parentTouch now))

/-- The arguments of `mem_ns_create_wide`. -/
structure CreateWideArgs where
  parentFileid : CatFileid
  name : Name
  child : MdsInode
  stripeCount : ℕ
  stripeUnit : ℕ
  mirrorCount : ℕ
  entries : List DsMapEntry

/-- The argument check of `mem_ns_create_wide`. -/
def CreateWideArgs.ok (a : CreateWideArgs) : Bool :=
  memdbNameOk a.name && a.child.fileid ≠ 0 && a.child.parentFileid = a.parentFileid &&
    a.child.type = .reg && a.stripeCount ≠ 0 && a.stripeCount ≤ mdsMaxStripes &&
    a.stripeUnit ≠ 0 && a.mirrorCount ≠ 0 && a.mirrorCount ≤ mdsMaxMirrors &&
    !a.child.has iflagHpcCreatePending

/-- The stripe map that a wide create writes. -/
def CreateWideArgs.stripe (a : CreateWideArgs) : MemdbStripe where
  fileid := a.child.fileid
  stripeCount := a.stripeCount
  stripeUnit := a.stripeUnit
  mirrorCount := a.mirrorCount
  entries := a.entries.take (a.stripeCount * a.mirrorCount)

/-- `mem_ns_create_wide`; `alloc` is its allocation. -/
def memNsCreateWide (now : ℕ) (alloc : Bool) (a : CreateWideArgs) (m : Memdb) :
    Except MdsStatus Memdb :=
  if !a.ok then .error .inval
  else if !alloc then .error .nomem
  else match m.inodeFind a.parentFileid with
  | none => .error .notfound
  | some parent =>
    if parent.type ≠ .dir then .error .notdir
    else if (m.direntFind a.parentFileid a.name).isSome || (m.inodeFind a.child.fileid).isSome then
      .error .exists
    else if !(m.inodeRoom && m.direntRoom && m.stripeRoom) then .error .nospc
    else
      let m := (m.inodeStore a.child).direntSet a.parentFileid a.name a.child.fileid a.child.type
      let m := { m with stripes := a.stripe :: m.stripes }
      .ok (m.inodeModify a.parentFileid (parentTouch now))

def memNsLink (now : ℕ) (parent : CatFileid) (name : Name) (target : CatFileid) (m : Memdb) :
    Except MdsStatus Memdb :=
  if !memdbNameOk name then .error .inval
  else match m.inodeFind parent, m.inodeFind target with
  | some p, some t =>
    if p.type ≠ .dir then .error .notdir
    else if t.type = .dir then .error .isdir
    else if (m.direntFind parent name).isSome then .error .exists
    else if !m.direntRoom then .error .nospc
    else
      let m := m.direntSet parent name target t.type
      let m := m.inodeModify target fun t => linkTouch now (nlinkInc t)
      .ok (m.inodeModify parent (parentTouch now))
  | _, _ => .error .notfound

def memNsLookup (m : Memdb) (parent : CatFileid) (name : Name) : Except MdsStatus MdsInode :=
  match (m.direntFind parent name).bind fun d => m.inodeFind d.childFileid with
  | none => .error .notfound
  | some child => .ok child

/-! ## SETATTR -/

/-- `MDS_ATTR_MODE`. -/
def attrMode : UInt32 := 0x001

/-- `MDS_ATTR_UID`. -/
def attrUid : UInt32 := 0x002

/-- `MDS_ATTR_GID`. -/
def attrGid : UInt32 := 0x004

/-- `MDS_ATTR_SIZE`. -/
def attrSize : UInt32 := 0x008

/-- `MDS_ATTR_ATIME`. -/
def attrAtime : UInt32 := 0x010

/-- `MDS_ATTR_MTIME`. -/
def attrMtime : UInt32 := 0x020

/-- `MDS_ATTR_ATIME_NOW`. -/
def attrAtimeNow : UInt32 := 0x040

/-- `MDS_ATTR_MTIME_NOW`. -/
def attrMtimeNow : UInt32 := 0x080

/-- `MDS_ATTR_FLAGS`. -/
def attrFlags : UInt32 := 0x100

/-- `MDS_ATTR_SIZE_EXTEND`: the size only grows. -/
def attrSizeExtend : UInt32 := 0x200

/-- Whether a mask selects a field. -/
def selects (mask attr : UInt32) : Bool := mask &&& attr != 0

def setattrSize (attrs : MdsInode) (mask : UInt32) (ino : MdsInode) : UInt64 :=
  let size := if selects mask attrSize then attrs.size else ino.size
  if selects mask attrSizeExtend && size < attrs.size then attrs.size else size

/-- The masked write of `mem_ns_setattr`. -/
def setattrInode (now : ℕ) (attrs : MdsInode) (mask : UInt32) (ino : MdsInode) : MdsInode :=
  { ino with
    mode := if selects mask attrMode then attrs.mode else ino.mode
    uid := if selects mask attrUid then attrs.uid else ino.uid
    gid := if selects mask attrGid then attrs.gid else ino.gid
    size := setattrSize attrs mask ino
    atime :=
      if selects mask attrAtimeNow then now
      else if selects mask attrAtime then attrs.atime else ino.atime
    mtime :=
      if selects mask attrMtimeNow then now
      else if selects mask attrMtime then attrs.mtime else ino.mtime
    flags := if selects mask attrFlags then attrs.flags else ino.flags
    ctime := now
    change := ino.change + 1 }

def memNsSetattr (now : ℕ) (fileid : CatFileid) (attrs : MdsInode) (mask : UInt32) (m : Memdb) :
    Except MdsStatus Memdb :=
  if (m.inodeFind fileid).isNone then .error .notfound
  else .ok (m.inodeModify fileid (setattrInode now attrs mask))

/-! ## RENAME -/

/-- `struct memdb_rename_plan`: the operands as validated. `dst` is the entry that the
destination name has, `srcIsDir` and `dstIsDir` the kinds of the two children. -/
structure RenamePlan where
  src : MemdbDirent
  dst : Option MemdbDirent
  srcIsDir : Bool
  dstIsDir : Bool
  noop : Bool

/-- `memdb_child_is_dir`: the type of the inode, or without one the recorded type. -/
def Memdb.childIsDir (m : Memdb) (d : MemdbDirent) : Bool :=
  match m.inodeFind d.childFileid with
  | some ino => ino.type = .dir
  | none => d.childType = .dir

/-- A parent that exists and is no directory. -/
def Memdb.parentNotDir (m : Memdb) (parent : CatFileid) : Bool :=
  (m.inodeFind parent).any fun p => p.type ≠ .dir

/-- `memdb_rename_check_locked`. -/
def renameCheck (m : Memdb) (srcParent : CatFileid) (srcName : Name) (dstParent : CatFileid)
    (dstName : Name) : Except MdsStatus RenamePlan :=
  if m.parentNotDir srcParent || m.parentNotDir dstParent then .error .notdir
  else match m.direntFind srcParent srcName with
  | none => .error .notfound
  | some src =>
    if (m.inodeFind dstParent).isNone then .error .notfound
    else match m.direntFind dstParent dstName with
    | none =>
      .ok { src, dst := none, srcIsDir := m.childIsDir src, dstIsDir := false, noop := false }
    | some dst =>
      let plan : RenamePlan :=
        { src, dst := some dst, srcIsDir := m.childIsDir src, dstIsDir := m.childIsDir dst
          noop := false }
      if dst.childFileid = src.childFileid then .ok { plan with dstIsDir := false, noop := true }
      else if plan.dstIsDir then
        if !plan.srcIsDir then .error .isdir
        else if m.dirHasEntries dst.childFileid then .error .notempty
        else .ok plan
      else if plan.srcIsDir then .error .notdir
      else .ok plan

variable (now : ℕ)

/-- `memdb_rename_drop_victim_locked` for the destination's entry. -/
def renameDropVictim (nsFlags : UInt32) (dstIsDir : Bool) (dst : MemdbDirent) (m : Memdb) : Memdb :=
  match m.inodeFind dst.childFileid with
  | none => m
  | some victim =>
    if dstIsDir then
      (m.inodeDrop victim.fileid).inodeModify dst.parent nlinkDec
    else if victim.nlink - 1 > 0 then
      m.inodeModify victim.fileid fun v => linkTouch now (nlinkDec v)
    else if victim.type = .reg && nsFlags &&& rnfKeepDstOrphan != 0 then
      m.inodeModify victim.fileid fun v =>
        linkTouch now (setFlag iflagUnlinkOrphan (nlinkDec v))
    else m.inodeDrop victim.fileid

/-- The second half of `memdb_rename_locked`: the source row is bound to the new name, and
a move between directories carries the link of `..` and the parent. -/
def renameMove (src : MemdbDirent) (srcIsDir : Bool) (dstParent : CatFileid) (dstName : Name)
    (m : Memdb) : Memdb :=
  let m := (m.direntDrop src.parent src.name).direntSet dstParent dstName src.childFileid
    src.childType
  if src.parent ≠ dstParent then
    let m := if srcIsDir then
        (m.inodeModify src.parent nlinkDec).inodeModify dstParent nlinkInc
      else m
    let m := m.inodeModify src.childFileid (setParent dstParent)
    (m.inodeModify src.parent (parentTouch now)).inodeModify dstParent (parentTouch now)
  else m.inodeModify dstParent (parentTouch now)

/-- `memdb_rename_locked`. -/
def renameLocked (srcParent : CatFileid) (srcName : Name) (dstParent : CatFileid) (dstName : Name)
    (nsFlags : UInt32) (m : Memdb) : Except MdsStatus Memdb :=
  match renameCheck m srcParent srcName dstParent dstName with
  | .error st => .error st
  | .ok plan =>
    if plan.noop then .ok m
    else
      let m := match plan.dst with
        | none => m
        | some dst =>
          (renameDropVictim now nsFlags plan.dstIsDir dst m).direntDrop dstParent dstName
      .ok (renameMove now plan.src plan.srcIsDir dstParent dstName m)

def memNsRenameFlags (srcParent : CatFileid) (srcName : Name) (dstParent : CatFileid)
    (dstName : Name) (nsFlags : UInt32) (m : Memdb) : Except MdsStatus Memdb :=
  if !(memdbNameOk srcName && memdbNameOk dstName) then .error .inval
  else renameLocked now srcParent srcName dstParent dstName nsFlags m

def memNsRename (srcParent : CatFileid) (srcName : Name) (dstParent : CatFileid) (dstName : Name)
    (m : Memdb) : Except MdsStatus Memdb :=
  memNsRenameFlags now srcParent srcName dstParent dstName 0 m

/-! ## REMOVE -/

/-- The rows a fused remove is to leave in the garbage queue. -/
structure GcPlan where
  entries : List DsMapEntry
  sweepHint : UInt32

/-- `memdb_unlink_child_locked`. -/
def unlinkChild (child : CatFileid) (final : Bool) (gc : GcPlan) (m : Memdb) : Memdb :=
  if !final then m.inodeModify child fun c => linkTouch now (nlinkDec c)
  else gc.entries.foldl (fun m e => m.gcInsert child gc.sweepHint e)
    ((m.inodeDrop child).stripeDrop child)

/-- `memdb_unlink_locked`; the flag tells whether the child inode was deleted. -/
def unlinkLocked (parent : CatFileid) (name : Name) (guard : Option MdsInode) (gc : GcPlan)
    (m : Memdb) : Except MdsStatus (Bool × Memdb) :=
  match m.direntFind parent name with
  | none => .error .notfound
  | some d =>
    if guard.any fun g => d.childFileid ≠ g.fileid then .error .stale
    else match m.inodeFind d.childFileid with
    | none =>
      -- A dangling entry: there is no inode to unlink.
      .ok (false, (m.direntDrop parent name).inodeModify parent (parentTouch now))
    | some c =>
      let isDir : Bool := c.type = .dir
      let final : Bool := isDir || c.nlink ≤ 1
      if isDir && m.dirHasEntries d.childFileid then .error .notempty
      else if !isDir && guard.any fun g => decide (g.nlink ≤ 1) ≠ final then .error .stale
      else if final && m.gcFreeCount < gc.entries.length then .error .nospc
      else
        let m := unlinkChild now d.childFileid final gc (m.direntDrop parent name)
        let m := if isDir then m.inodeModify parent nlinkDec else m
        .ok (final, m.inodeModify parent (parentTouch now))

def memNsRemove (parent : CatFileid) (name : Name) (m : Memdb) : Except MdsStatus (Bool × Memdb) :=
  unlinkLocked now parent name none ⟨[], 0⟩ m

/-- `mem_ns_remove_known_gc`: the flag is `gc_folded`. -/
def memNsRemoveKnownGc (parent : CatFileid) (name : Name) (child : MdsInode) (gc : GcPlan)
    (m : Memdb) : Except MdsStatus (Bool × Memdb) :=
  unlinkLocked now parent name (some child) gc m

/-! ## The asynchronous remove and the clean-up -/

/-- `memdb_remove_pending_insert`. -/
def Memdb.removePendingInsert (m : Memdb) (dirFileid : CatFileid) (name : Name)
    (childFileid : CatFileid) (childGeneration : UInt64) : Memdb :=
  { m with
    removePending :=
      { removeSeq := m.nextRemoveSeq, dirFileid, name, childFileid, childGeneration } ::
        m.removePending
    nextRemoveSeq := m.nextRemoveSeq + 1 }

def memRemovePendingEnqueueUnlink (dirFileid : CatFileid) (name : Name) (childFileid : CatFileid)
    (childGeneration : UInt64) (m : Memdb) : Except MdsStatus Memdb :=
  if !memdbNameOk name then .error .inval
  else if (m.direntFind dirFileid name).all fun d => d.childFileid ≠ childFileid then
    .error .stale
  else if (m.inodeFind childFileid).all fun c => c.generation ≠ childGeneration then .error .stale
  else if memdbMaxRemovePending ≤ m.removePending.length then .error .nospc
  else
    let m := m.inodeModify childFileid (setFlag iflagDeletePending)
    .ok ((m.direntDrop dirFileid name).removePendingInsert dirFileid name childFileid
      childGeneration)

def memRemovePendingComplete (removeSeq : ℕ) (m : Memdb) : Memdb :=
  { m with removePending := eraseKey RemovePendingEntry.removeSeq removeSeq m.removePending }

variable (fileid : CatFileid)

def memStripeMapDel (m : Memdb) : Memdb := m.stripeDrop fileid

def memGcEnqueue (e : DsMapEntry) (sweepHint : UInt32) (m : Memdb) : Except MdsStatus Memdb :=
  if mdsNfsFhMax < e.nfsFh.length then .error .inval
  else if m.gcFreeCount = 0 then .error .nospc
  else .ok (m.gcInsert fileid sweepHint e)

def memInodeDel (m : Memdb) : Except MdsStatus Memdb :=
  if (m.inodeFind fileid).isNone then .error .notfound else .ok (m.inodeDrop fileid)

end PnfsLattice
