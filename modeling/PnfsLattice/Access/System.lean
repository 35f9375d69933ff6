import PnfsLattice.Access.IoStateid
import PnfsLattice.Access.Mode
import PnfsLattice.Catalogue.Names
import PnfsLattice.Lib.Plan
import PnfsLattice.Lib.Slots
import PnfsLattice.Namespace.System

/-!
# The handlers of a compound, as far as access goes

The operations that read or change files, extended attributes and directories, over the
in-memory catalogue, the data servers' files and the tables of open, lock and delegation
state. Each handler decides for itself what it checks; the guards are here in the order
of the source.

A handler is a plan: a chain of guards, then the calls it makes. What the data servers do
with a request is a choice in its arguments: how many bytes they move, and the status.
-/

namespace PnfsLattice

open Lib

/-! ## State -/

/-- The contents of a file, as its data servers have them; holes are `none`. -/
abbrev FileData := ℕ → Option UInt8

/-- A change of contents: bytes written, a hole punched, holes filled with zeros. -/
inductive DataEdit
  | put (offset : ℕ) (bytes : List UInt8)
  | punch (offset length : ℕ)
  | fill (offset length : ℕ)
deriving DecidableEq

/-- The contents after a change. -/
def DataEdit.apply (d : FileData) : DataEdit → FileData
  | .put offset bytes => fun i =>
    if offset ≤ i ∧ i < offset + bytes.length then bytes[i - offset]? else d i
  | .punch offset length => fun i => if offset ≤ i ∧ i < offset + length then none else d i
  | .fill offset length => fun i =>
    if offset ≤ i ∧ i < offset + length ∧ (d i).isNone then some 0 else d i

/-- A run of bytes as a READ returns it: holes read as zeros. -/
def FileData.bytes (d : FileData) (offset count : ℕ) : List UInt8 :=
  (List.range count).map fun i => (d (offset + i)).getD 0

/-- The first offset below the size with data, or with a hole. -/
def FileData.seek (d : FileData) (size offset : ℕ) (wantData : Bool) : Option ℕ :=
  ((List.range (size - offset)).map (offset + ·)).find? fun i => (d i).isSome == wantData

/-- The layout rows that LAYOUTCOMMIT looks up by stateid. -/
structure LayoutOwner where
  other : Other
  clientid : Clientid
  fileid : Fileid
deriving DecidableEq

/-- `struct memdb_xattr`, under the fileid and the name. -/
abbrev XattrRow := (Fileid × Name) × List UInt8

/-- The server. All files share the slots of `xattrs`; those past the end are free. -/
structure AccStore where
  cat : Memdb
  data : Fileid → FileData
  xattrs : List (Option XattrRow)
  ot : OpenTable
  lt : LockTable
  dt : DelegTable
  layouts : List LayoutOwner
  skipTransientNdb : Bool

/-- What the handlers read and write of `struct compound_data`. `xattrObj` is `xattr_name`
while `xattr_obj_set` holds. -/
structure AccCompound where
  cred : Cred
  clientid : Clientid
  currentFh : Option Fileid
  savedFh : Option Fileid
  currentStateid : Option Stateid
  savedStateid : Option Stateid
  xattrObj : Option Name
deriving DecidableEq

def xattrFhFlag : UInt64 := 0x8000000000000000

def isXattrFh (fh : Fileid) : Bool := fh &&& xattrFhFlag != 0

def xattrBaseFileid (fh : Fileid) : Fileid := fh &&& ~~~xattrFhFlag

/-- `cat_getattr`. -/
def AccStore.getattr (s : AccStore) (fh : Fileid) : Option MdsInode := s.cat.inodeFind fh.toNat

def xattrOf (f : Fileid) (r : XattrRow) : Option (Name × List UInt8) :=
  if r.1.1 = f then some (r.1.2, r.2) else none

/-- `mem_xattr_list`: the attributes of a file in the order of their slots. -/
def AccStore.xattrsOf (s : AccStore) (f : Fileid) : List (Name × List UInt8) :=
  (used s.xattrs).filterMap (xattrOf f)

/-- `mem_xattr_get`. -/
def AccStore.xattr (s : AccStore) (f : Fileid) (name : Name) : Option (List UInt8) :=
  (s.xattrsOf f).lookup name

/-- There is a free slot for an attribute. -/
def AccStore.xattrRoom (s : AccStore) : Bool := (used s.xattrs).length < memdbMaxXattrs

/-! ## Calls -/

/-- `memdb_inode_touch_locked`. -/
def inodeTouch (now : ℕ) (ino : MdsInode) : MdsInode :=
  { ino with ctime := now, change := ino.change + 1 }

/-- The calls that change the server's state. -/
inductive AccAct
  | edit (f : Fileid) (e : DataEdit)
  | xattrPut (f : Fileid) (name : Name) (val : List UInt8)
  | xattrDel (f : Fileid) (name : Name)
  | setattr (f : Fileid) (attrs : MdsInode) (mask : UInt32)
  | ns (c : NsCall)
  | tables (ot : OpenTable) (lt : LockTable) (dt : DelegTable)

/-- The slots after `mem_xattr_put`: the attribute's own slot is written, or the first free
one. -/
def AccStore.putXattr (s : AccStore) (f : Fileid) (name : Name) (val : List UInt8) :
    List (Option XattrRow) :=
  if (s.xattr f name).isSome then
    slotWrite (fun r => r.1 = (f, name)) (fun r => (r.1, val)) s.xattrs
  else slotPut ((f, name), val) s.xattrs

/-- `memdb_inode_purge_side_tables` of the inodes that a call has deleted. -/
def AccStore.purgeXattrs (s : AccStore) (cat : Memdb) : List (Option XattrRow) :=
  s.xattrs.map (Option.filter fun r =>
    (s.getattr r.1.1).isNone || (cat.inodeFind r.1.1.toNat).isSome)

/-- The state after a call. A catalogue call that fails changes nothing. -/
def applyAct (now : ℕ) (s : AccStore) : AccAct → AccStore
  | .edit f e => { s with data := Function.update s.data f (e.apply (s.data f)) }
  | .xattrPut f name val =>
    { s with
      xattrs := s.putXattr f name val
      cat := s.cat.inodeModify f.toNat (inodeTouch now) }
  | .xattrDel f name =>
    { s with
      xattrs := slotClear (fun r => r.1 = (f, name)) s.xattrs
      cat := s.cat.inodeModify f.toNat (inodeTouch now) }
  | .setattr f attrs mask =>
    { s with cat := (memNsSetattr now f.toNat attrs mask s.cat).toOption.getD s.cat }
  | .ns c =>
    let cat := (nsCall now s.cat c).toOption.getD s.cat
    { s with cat, xattrs := s.purgeXattrs cat }
  | .tables ot lt dt => { s with ot, lt, dt }

/-! ## Answers -/

/-- The statuses of these operations besides `NFS4_OK`. -/
inductive NfsErr
  | nofilehandle
  | badhandle
  | stale
  | access
  | perm
  | notdir
  | isdir
  | symlink
  | noent
  | exist
  | inval
  | badname
  | badStateid
  | delegRevoked
  | openmode
  | shareDenied
  | oldStateid
  | locks
  | resource
  | delay
  | io
  | nospc
  | notempty
  | noxattr
  | xattr2big
  | serverfault
deriving DecidableEq

def mdsStatusToNfs4 : MdsStatus → NfsErr
  | .nomem => .resource
  | .io => .io
  | .notfound => .noent
  | .exists => .exist
  | .inval => .inval
  | .perm => .access
  | .stale => .stale
  | .notempty => .notempty
  | .isdir => .isdir
  | .notdir => .notdir
  | .nospc => .nospc
  | .nosupport => .serverfault
  | .indoubt => .io

/-- The status of a failed check of `validate_io_stateid`. -/
def IoErr.nfs : IoErr → NfsErr
  | .badStateid => .badStateid
  | .delegRevoked => .delegRevoked
  | .openmode => .openmode

/-- The status of a failed mode check. -/
def DacErr.nfs : DacErr → NfsErr
  | .access => .access
  | .perm => .perm

/-- The status of a failed open-state call. -/
def OpenErr.nfs : OpenErr → NfsErr
  | .shareDenied => .shareDenied
  | .resource => .resource
  | .inval => .serverfault
  | .delay => .delay
  | .badStateid => .badStateid
  | .oldStateid => .oldStateid

/-- What a READDIR lists of an entry. -/
structure DirEntry where
  name : Name
  cookie : ℕ
  child : MdsInode
deriving DecidableEq

inductive AccReply
  | done
  | bytes (data : List UInt8) (eof : Bool)
  | hole (length : ℕ) (eof : Bool)
  | offset (found : Option ℕ)
  | entries (es : List DirEntry) (eof : Bool)
  | names (ns : List Name) (eof : Bool)
  | value (val : List UInt8)
  | created (child : MdsInode)
  | state (sid : Stateid)
  | count (n : ℕ)
deriving DecidableEq

abbrev AccPlan := Plan AccAct AccCompound NfsErr AccReply

/-- `NFS4_OK` without more. -/
def AccCompound.done (cd : AccCompound) : AccPlan := Plan.reply cd .done

/-! ## Checks that several handlers share -/

/-- The outcome of a data-server call: how many bytes were moved, and the status. -/
structure IoChoice where
  moved : ℕ
  status : Option NfsErr
deriving DecidableEq

variable (now : ℕ) (s : AccStore) (cd : AccCompound)

/-- What `validate_io_stateid` sees, on a file. -/
def AccStore.io (fh : Fileid) : IoCompound where
  clientid := cd.clientid
  currentFh := fh
  currentStateid := cd.currentStateid
  ot := some s.ot
  lt := some s.lt
  dt := some s.dt

/-- `validate_io_stateid` on a file. -/
def ioCheck (fh : Fileid) (sid : Stateid) (access : IoAccess) : Except NfsErr Unit :=
  (validateIoStateid (s.io cd fh) sid access).mapError IoErr.nfs

/-- The status of a name that `compound_validate_name` refuses. -/
def nameErr (name : Name) : NfsErr := if name = [46] ∨ name = [46, 46] then .badname else .inval

/-- The checks of `mem_xattr_put`. -/
def memXattrPutCheck (f : Fileid) (name : Name) (val : List UInt8) : Except NfsErr Unit :=
  if name.isEmpty || mdsXattrNameMax < name.length || mdsXattrValMax < val.length then
    .error .inval
  else if (s.xattr f name).isSome || s.xattrRoom then .ok ()
  else .error .nospc

/-- `compound_lookup_local_child`. -/
def lookupLocalChild (m : Memdb) (parent : CatFileid) (name : Name) : Except MdsStatus MdsInode :=
  match m.inodeFind parent with
  | none => .error .notfound
  | some p =>
    if p.type ≠ .dir then .error .notdir
    else match lookupVisible m parent name with
      | none => .error .notfound
      | some child => .ok child

/-- The sticky check against the child that a lookup has found, if it has. -/
def stickyOk (c : Cred) (dir : MdsInode) (child : Option MdsInode) : Bool :=
  child.all (stickyDeleteCheck c dir)

def MdsInode.fh (ino : MdsInode) : Fileid := UInt64.ofNat ino.fileid

/-- The compound at a new current file: the current stateid is gone. -/
def AccCompound.goto (fh : Fileid) : AccCompound :=
  { cd with currentFh := some fh, currentStateid := none }

/-! ## Filehandles and names -/

/-- `op_putfh`. -/
def planPutfh (fh : Fileid) : AccPlan :=
  .need cd (fh != 0) .badhandle <|
  .get cd (s.getattr fh) .stale fun _ => (cd.goto fh).done

/-- `op_savefh`. -/
def planSavefh : AccPlan :=
  .get cd cd.currentFh .nofilehandle fun fh =>
  { cd with savedFh := some fh, savedStateid := cd.currentStateid }.done

/-- `op_restorefh`. -/
def planRestorefh : AccPlan :=
  .get cd cd.savedFh .nofilehandle fun fh =>
  { cd with currentFh := some fh, currentStateid := cd.savedStateid }.done

/-- `op_lookup`: in the attribute directory of a file it selects an attribute. -/
def planLookup (name : Name) : AccPlan :=
  .get cd cd.currentFh .nofilehandle fun fh =>
  .need cd (validateName name) (nameErr name) <|
  if isXattrFh fh then
    .need cd (s.xattr (xattrBaseFileid fh) name).isSome .noent <|
    { cd with xattrObj := some name, currentStateid := none }.done
  else
    .need cd ((s.getattr fh).all (dirSearchCheck cd.cred)) .access <|
    .check cd ((lookupLocalChild s.cat fh.toNat name).mapError mdsStatusToNfs4) fun child =>
    (cd.goto child.fh).done

/-- `op_lookupp`. -/
def planLookupp : AccPlan :=
  .get cd cd.currentFh .nofilehandle fun fh =>
  .get cd (s.getattr fh) .noent fun ino =>
  .need cd (ino.type = .dir) (if ino.type = .symlink then .symlink else .notdir) <|
  .need cd (ino.parentFileid ≠ 0 ∧ ino.parentFileid ≠ ino.fileid) .noent <|
  .get cd (s.cat.inodeFind ino.parentFileid) .noent fun parent => (cd.goto parent.fh).done

/-- `op_openattr`. -/
def planOpenattr : AccPlan :=
  .get cd cd.currentFh .nofilehandle fun fh =>
  .need cd (!isXattrFh fh) .inval <|
  .get cd (s.getattr fh) .noent fun ino =>
  .need cd (ino.type = .reg) .inval <|
  { cd with currentFh := some (fh ||| xattrFhFlag), xattrObj := none }.done

/-! ## Directories -/

/-- The arguments of CREATE, and the attributes of an OPEN that creates. -/
structure CreateReq where
  mode : UInt32
  uid : UInt64
  gid : UInt64
deriving DecidableEq

/-- The owner and group of a new object: the caller's where the request has none. -/
def CreateReq.args (a : CreateReq) (c : Cred) (parent : CatFileid) (name : Name)
    (type : FileType) : CreateArgs where
  parent := parent
  name := name
  type := type
  mode := a.mode
  uid := if a.uid = 0 ∧ c.uid ≠ 0 then c.uid.toUInt64 else a.uid
  gid := if a.gid = 0 ∧ c.gid ≠ 0 then c.gid.toUInt64 else a.gid

/-- `op_create`. -/
def planCreate (name : Name) (type : FileType) (a : CreateReq) : AccPlan :=
  .get cd cd.currentFh .nofilehandle fun fh =>
  .need cd (validateName name) (nameErr name) <|
  .need cd (!((type = .blkdev || type = .chrdev) && cd.cred.dacActive && cd.cred.uid != 0)) .perm <|
  if isXattrFh fh then
    .check cd (memXattrPutCheck s (xattrBaseFileid fh) name []) fun _ =>
    { acts := [.xattrPut (xattrBaseFileid fh) name []]
      ctx := { cd with xattrObj := some name }
      res := .ok .done }
  else
    .get cd (s.getattr fh) .noent fun parent =>
    .need cd (parent.type = .dir) .notdir <|
    .need cd (dirMutateCheck cd.cred parent) .access <|
    .check cd ((memNsCreate now (a.args cd.cred fh.toNat name type) s.cat).mapError mdsStatusToNfs4)
      fun child =>
    { acts := [.ns (.create (a.args cd.cred fh.toNat name type))]
      ctx := { cd with currentFh := some child.1.fh }
      res := .ok (.created child.1) }

/-- `op_remove`. -/
def planRemove (name : Name) : AccPlan :=
  .get cd cd.currentFh .nofilehandle fun fh =>
  .need cd (validateName name) (nameErr name) <|
  if isXattrFh fh then
    .need cd (s.xattr (xattrBaseFileid fh) name).isSome .noent
    { acts := [.xattrDel (xattrBaseFileid fh) name]
      ctx := { cd with xattrObj := none }
      res := .ok .done }
  else
    .need cd ((s.getattr fh).all (dirMutateCheck cd.cred)) .access <|
    .need cd ((s.getattr fh).all fun dir =>
      stickyOk cd.cred dir (memNsLookup s.cat fh.toNat name).toOption) .perm <|
    .check cd ((memNsRemove now fh.toNat name s.cat).mapError mdsStatusToNfs4) fun _ =>
    { acts := [.ns (.remove fh.toNat name)], ctx := cd, res := .ok .done }

/-- The checks of RENAME on its two directories and the children with the two names. -/
def renameDacCheck (c : Cred) (src dst : Fileid) (srcName dstName : Name) : Except NfsErr Unit :=
  if !c.dacActive then .ok ()
  else match s.getattr src with
  | none => .error .noent
  | some srcDir =>
    if !dirMutateCheck c srcDir then .error .access
    else match s.getattr dst with
    | none => .error .noent
    | some dstDir =>
      if !dirMutateCheck c dstDir then .error .access
      else if !stickyOk c srcDir (lookupLocalChild s.cat src.toNat srcName).toOption then
        .error .perm
      else if !stickyOk c dstDir (lookupLocalChild s.cat dst.toNat dstName).toOption then
        .error .perm
      else .ok ()

/-- The two names of a RENAME are one, or links of one file. -/
def renameIsNoop (src dst : Fileid) (srcName dstName : Name) : Bool :=
  (src == dst && srcName == dstName) ||
    match lookupLocalChild s.cat src.toNat srcName, lookupLocalChild s.cat dst.toNat dstName with
    | .ok a, .ok b => a.fileid == b.fileid
    | _, _ => false

/-- `op_rename`. The flags say whether a replaced file is kept for its open holders. -/
def planRename (srcName dstName : Name) (nsFlags : UInt32) : AccPlan :=
  .get cd cd.savedFh .nofilehandle fun src =>
  .get cd cd.currentFh .nofilehandle fun dst =>
  .need cd (validateName srcName) (nameErr srcName) <|
  .need cd (validateName dstName) (nameErr dstName) <|
  .check cd (renameDacCheck s cd.cred src dst srcName dstName) fun _ =>
  if renameIsNoop s src dst srcName dstName then cd.done
  else
    .check cd ((memNsRenameFlags now src.toNat srcName dst.toNat dstName nsFlags s.cat).mapError
      mdsStatusToNfs4) fun _ =>
    { acts := [.ns (.renameFlags src.toNat srcName dst.toNat dstName nsFlags)]
      ctx := cd
      res := .ok .done }

/-- `op_link`. -/
def planLink (name : Name) : AccPlan :=
  .get cd cd.savedFh .nofilehandle fun target =>
  .get cd cd.currentFh .nofilehandle fun fh =>
  .need cd (validateName name) (nameErr name) <|
  .need cd (!cd.cred.dacActive || (s.getattr fh).isSome) .noent <|
  .need cd ((s.getattr fh).all (dirMutateCheck cd.cred)) .access <|
  .check cd ((memNsLink now fh.toNat name target.toNat s.cat).mapError mdsStatusToNfs4) fun _ =>
  { acts := [.ns (.link fh.toNat name target.toNat)], ctx := cd, res := .ok .done }

/-- `op_readdir` of a directory: the visible entries after the cookie, as many as fit. The
attribute directory of a file lists the attributes' names. -/
def planReaddir (cookie fits : ℕ) : AccPlan :=
  .get cd cd.currentFh .nofilehandle fun fh =>
  if isXattrFh fh then
    let names := (s.xattrsOf (xattrBaseFileid fh)).map Prod.fst
    .reply cd (.names (names.take fits) (names.length ≤ fits))
  else
    .get cd (s.getattr fh) .noent fun dir =>
    .need cd (dir.type = .dir) .notdir <|
    let es := (s.cat.dirents.filter fun d => d.parent = fh.toNat ∧ cookie < d.cookie).filterMap
      fun d => ((s.cat.inodeFind d.childFileid).filter MdsInode.visible).map fun child =>
        ({ name := d.name, cookie := d.cookie, child } : DirEntry)
    let es := es.mergeSort fun a b => a.cookie ≤ b.cookie
    .reply cd (.entries (es.take fits) (es.length ≤ fits))

/-! ## Attributes -/

/-- `has_stateid`: the decoder sets it unless `other` is all zeros or all ones. -/
def hasStateid (sid : Stateid) : Bool :=
  sid.other ≠ { mdsId := 0, tail := 0 } && sid.other ≠ { mdsId := 0xFFFFFFFF, tail := 2 ^ 64 - 1 }

/-- `op_setattr`. -/
def planSetattr (sid : Stateid) (attrs : MdsInode) (mask : UInt32) : AccPlan :=
  let a : SetattrArgs := { attrs, mask, hasStateid := hasStateid sid }
  .get cd cd.currentFh .nofilehandle fun fh =>
  .check cd (if a.hasStateid then ioCheck s cd fh sid .write else .ok ()) fun _ =>
  .get cd (s.getattr fh) .noent fun pre =>
  .check cd ((setattrDacCheck cd.cred pre a).mapError DacErr.nfs) fun new =>
  if new.2 = mask ∧ new.1.mode = attrs.mode ∧ setattrIsNoop pre a then cd.done
  else { acts := [.setattr fh new.1 new.2], ctx := cd, res := .ok .done }

/-- The names of `HPC_SHARED_XATTR_NAME`, with and without the prefix that is not sent. -/
def hpcXattrName (name : Name) : Bool :=
  name == "user.pnfs.hpc_shared".toUTF8.toList || name == "pnfs.hpc_shared".toUTF8.toList

/-- `hpc_shared_xattr_apply`: the attribute is a flag of the inode, and root's to set. -/
def planHpcShared (fh : Fileid) (ino : MdsInode) (wantSet : Bool) : AccPlan :=
  .need cd (cd.cred.uid = 0) .perm <|
  let flags := if wantSet then ino.flags ||| iflagHpcShared else ino.flags &&& ~~~iflagHpcShared
  if flags = ino.flags then cd.done
  else { acts := [.setattr fh { ino with flags } attrFlags], ctx := cd, res := .ok .done }

/-- `SETXATTR4_EITHER`, `_CREATE` and `_REPLACE`. -/
inductive XattrOption
  | either
  | create
  | replace
deriving DecidableEq

/-- The test that the option of SETXATTR makes. -/
def XattrOption.test (present : Bool) : XattrOption → Except NfsErr Unit
  | .either => .ok ()
  | .create => if present then .error .exist else .ok ()
  | .replace => if present then .ok () else .error .noxattr

/-- `op_setxattr`; `truthy` is `hpc_shared_value_is_truthy` of the value. -/
def planSetxattr (name : Name) (val : List UInt8) (option : XattrOption) (truthy : Bool) :
    AccPlan :=
  .get cd cd.currentFh .nofilehandle fun fh =>
  .need cd (val.length ≤ mdsXattrValMax) .xattr2big <|
  .get cd (s.getattr fh) .noent fun ino =>
  if hpcXattrName name then
    .need cd (option ≠ .create) .exist <| planHpcShared cd fh ino truthy
  else
    .check cd (option.test (s.xattr fh name).isSome) fun _ =>
    .check cd (memXattrPutCheck s fh name val) fun _ =>
    { acts := [.xattrPut fh name val], ctx := cd, res := .ok .done }

/-- `op_removexattr`. -/
def planRemovexattr (name : Name) : AccPlan :=
  .get cd cd.currentFh .nofilehandle fun fh =>
  .get cd (s.getattr fh) .noent fun ino =>
  if hpcXattrName name then planHpcShared cd fh ino false
  else
    .need cd (s.xattr fh name).isSome .noxattr
    { acts := [.xattrDel fh name], ctx := cd, res := .ok .done }

/-- `op_getxattr`. -/
def planGetxattr (name : Name) : AccPlan :=
  .get cd cd.currentFh .nofilehandle fun fh =>
  if hpcXattrName name then
    .get cd (s.getattr fh) .noent fun ino =>
    .reply cd (.value [if ino.has iflagHpcShared then 49 else 48])
  else
    .get cd (s.xattr fh name) .noxattr fun val =>
    .need cd (val.length ≤ mdsXattrValMax) .xattr2big <| .reply cd (.value val)

/-- `op_listxattrs`: the names after the cookie, as many as fit. -/
def planListxattrs (cookie fits : ℕ) : AccPlan :=
  .get cd cd.currentFh .nofilehandle fun fh =>
  let names := ((s.xattrsOf fh).map Prod.fst).drop cookie
  .reply cd (.names (names.take fits) (names.length ≤ fits))

/-- The stateid check of `op_layoutcommit`: a row must be the client's on this file, but
there need not be one. -/
def layoutCommitCheck (fh : Fileid) (sid : Stateid) : Except NfsErr Unit :=
  match (s.io cd fh).resolve sid with
  | .error e => .error e.nfs
  | .ok sid =>
    if s.skipTransientNdb then .ok ()
    else match s.layouts.find? fun l => l.other == sid.other with
      | none => .ok ()
      | some l => if l.clientid = cd.clientid ∧ l.fileid = fh then .ok () else .error .badStateid

/-- The attributes and the mask that LAYOUTCOMMIT stores. -/
def layoutCommitAttrs (c : Cred) (ino : MdsInode) (lastWrite : Option UInt64)
    (timeModify : Option ℕ) : MdsInode × UInt32 :=
  let size := (lastWrite.map (· + 1)).getD ino.size
  let grow := if ino.size < size then attrSizeExtend else 0
  let flags := if ino.has iflagDsPending then attrFlags else 0
  let touched := lastWrite.isSome || timeModify.isSome
  let cleared := if touched then writeClearsSetid c ino else none
  ({ ino with
      size := if ino.size < size then size else ino.size
      flags := ino.flags &&& ~~~iflagDsPending
      mtime := timeModify.getD (if lastWrite.isSome then now else ino.mtime)
      mode := cleared.getD ino.mode }, grow ||| flags ||| (if touched then attrMtime else 0) |||
      (if cleared.isSome then attrMode else 0))

/-- `op_layoutcommit`, without the aggregator. -/
def planLayoutcommit (sid : Stateid) (lastWrite : Option UInt64) (timeModify : Option ℕ) :
    AccPlan :=
  .get cd cd.currentFh .nofilehandle fun fh =>
  .check cd (layoutCommitCheck s cd fh sid) fun _ =>
  .get cd (s.getattr fh) .io fun ino =>
  .need cd (lastWrite ≠ some 0xFFFFFFFFFFFFFFFF) .inval <|
  let new := layoutCommitAttrs now cd.cred ino lastWrite timeModify
  if new.2 = 0 then cd.done
  else { acts := [.setattr fh new.1 new.2], ctx := cd, res := .ok .done }

/-! ## Data -/

/-- The end of a data-server call that changed data: its status, then the follow-up. -/
def ioResult (edits follow : List AccAct) (io : IoChoice) (r : AccReply) : AccPlan :=
  match io.status with
  | some e => { acts := edits, ctx := cd, res := .error e }
  | none => { acts := edits ++ follow, ctx := cd, res := .ok r }

/-- The setattr after a WRITE of some bytes that end at `stop`. -/
def writeAttrs (c : Cred) (ino : MdsInode) (stop : UInt64) : MdsInode × UInt32 :=
  let cleared := writeClearsSetid c ino
  ({ ino with
      size := if ino.size < stop then stop else ino.size
      mode := cleared.getD ino.mode },
    attrMtimeNow ||| (if ino.size < stop then attrSizeExtend else 0) |||
      (if cleared.isSome then attrMode else 0))

/-- `op_write`. With an attribute selected it is the attribute that is written. -/
def planWrite (sid : Stateid) (offset : UInt64) (bytes : List UInt8) (io : IoChoice) : AccPlan :=
  match cd.xattrObj with
  | some name =>
    let base := xattrBaseFileid (cd.currentFh.getD 0)
    .need cd (offset = 0) .inval <|
    .check cd (memXattrPutCheck s base name bytes) fun _ =>
    { acts := [.xattrPut base name bytes], ctx := cd, res := .ok (.count bytes.length) }
  | none =>
    .get cd cd.currentFh .nofilehandle fun fh =>
    .need cd (!isXattrFh fh) .inval <|
    .check cd (ioCheck s cd fh sid .write) fun _ =>
    let written := bytes.take io.moved
    let edits : List AccAct := [.edit fh (.put offset.toNat written)]
    let stop := offset + UInt64.ofNat written.length
    let follow : List AccAct := if written.isEmpty then [] else
      (s.getattr fh).toList.map fun ino =>
        .setattr fh (writeAttrs cd.cred ino stop).1 (writeAttrs cd.cred ino stop).2
    if io.status = none ∧ 2 ^ 64 ≤ offset.toNat + written.length then
      { acts := edits, ctx := cd, res := .error .inval }
    else ioResult cd edits follow io (.count written.length)

/-- `copy_update_dst_size`, and the like of CLONE and ALLOCATE: a file that has become
longer gets its new size. -/
def growActs (fh : Fileid) (stop : UInt64) : List AccAct :=
  ((s.getattr fh).filter fun ino => ino.size < stop).toList.map fun ino =>
    .setattr fh { ino with size := stop } attrSize

/-- `op_write_same`: a pattern over a range. -/
def planWriteSame (sid : Stateid) (offset length : UInt64) (pattern : List UInt8)
    (io : IoChoice) : AccPlan :=
  .get cd cd.currentFh .nofilehandle fun fh =>
  .need cd (!pattern.isEmpty) .inval <|
  .check cd (ioCheck s cd fh sid .write) fun _ =>
  .need cd (offset.toNat + length.toNat < 2 ^ 64) .inval <|
  let bytes := (List.range (min io.moved length.toNat)).map fun i =>
    pattern.getD (i % pattern.length) 0
  ioResult cd [.edit fh (.put offset.toNat bytes)] (growActs s fh (offset + length)) io .done

/-- `op_allocate`. -/
def planAllocate (sid : Stateid) (offset length : UInt64) (io : IoChoice) : AccPlan :=
  .get cd cd.currentFh .nofilehandle fun fh =>
  .get cd (s.getattr fh) .noent fun ino =>
  .need cd (ino.type = .reg) .inval <|
  .check cd (ioCheck s cd fh sid .write) fun _ =>
  .need cd (offset.toNat + length.toNat < 2 ^ 64) .inval <|
  ioResult cd [.edit fh (.fill offset.toNat (min io.moved length.toNat))]
    (growActs s fh (offset + length)) io .done

/-- `op_deallocate`. -/
def planDeallocate (sid : Stateid) (offset length : UInt64) (io : IoChoice) : AccPlan :=
  .get cd cd.currentFh .nofilehandle fun fh =>
  .get cd (s.getattr fh) .noent fun ino =>
  .need cd (ino.type = .reg) .inval <|
  .check cd (ioCheck s cd fh sid .write) fun _ =>
  ioResult cd [.edit fh (.punch offset.toNat (min io.moved length.toNat))] [] io .done

/-- The effective count of COPY: all that is left of the source if the request says 0. -/
def copyCount (src : Fileid) (srcOffset count : UInt64) : Except NfsErr UInt64 :=
  if count ≠ 0 then .ok count
  else match s.getattr src with
    | none => .error .noent
    | some ino => if ino.size < srcOffset then .error .inval else .ok (ino.size - srcOffset)

/-- `op_copy`, with the stateid checks of `copy_validate_stateids`. -/
def planCopy (srcSid dstSid : Stateid) (srcOffset dstOffset count : UInt64) (io : IoChoice) :
    AccPlan :=
  .get cd cd.savedFh .nofilehandle fun src =>
  .get cd cd.currentFh .nofilehandle fun dst =>
  .check cd (ioCheck s cd src srcSid .read) fun _ =>
  .check cd (ioCheck s cd dst dstSid .write) fun _ =>
  .check cd (copyCount s src srcOffset count) fun count =>
  .need cd (dstOffset.toNat + count.toNat < 2 ^ 64) .inval <|
  let copied := min io.moved count.toNat
  let edits : List AccAct :=
    [.edit dst (.put dstOffset.toNat ((s.data src).bytes srcOffset.toNat copied))]
  let follow := if copied = 0 then [] else growActs s dst (dstOffset + UInt64.ofNat copied)
  if io.status = none ∧ copied ≠ 0 ∧ (s.getattr dst).isNone then
    { acts := edits, ctx := cd, res := .error .noent }
  else ioResult cd edits follow io (.count copied)

/-- `op_clone`. -/
def planClone (srcSid dstSid : Stateid) (srcOffset dstOffset count : UInt64) (io : IoChoice) :
    AccPlan :=
  .get cd cd.savedFh .nofilehandle fun src =>
  .get cd cd.currentFh .nofilehandle fun dst =>
  .get cd (s.getattr src) .noent fun srcIno =>
  .get cd (s.getattr dst) .noent fun dstIno =>
  .need cd (srcIno.type = .reg ∧ dstIno.type = .reg) .inval <|
  .check cd (ioCheck s cd src srcSid .read) fun _ =>
  .check cd (ioCheck s cd dst dstSid .write) fun _ =>
  if count = 0 ∧ srcIno.size ≤ srcOffset then cd.done
  else
    let count := if count = 0 then srcIno.size - srcOffset else count
    .need cd (dstOffset.toNat + count.toNat < 2 ^ 64) .inval <|
    ioResult cd
      [.edit dst (.put dstOffset.toNat
        ((s.data src).bytes srcOffset.toNat (min io.moved count.toNat)))]
      (growActs s dst (dstOffset + count)) io .done

/-- What `mds_proxy_read` returns of a file of this size. -/
def readReply (d : FileData) (size offset count : ℕ) (io : IoChoice) : AccReply :=
  let n := min (min io.moved (min count mdsXattrValMax)) (size - offset)
  .bytes (d.bytes offset n) (size ≤ offset + n)

/-- The answer of a data-server call that only reads. -/
def ioReply (io : IoChoice) (r : AccReply) : AccPlan :=
  match io.status with
  | some e => .fail cd e
  | none => .reply cd r

/-- `op_read`. With an attribute selected it is the attribute that is read. -/
def planRead (sid : Stateid) (offset : UInt64) (count : ℕ) (io : IoChoice) : AccPlan :=
  match cd.xattrObj with
  | some name =>
    .need cd (offset = 0) .inval <|
    .get cd (s.xattr (xattrBaseFileid (cd.currentFh.getD 0)) name) .noent fun val =>
    let avail := val.take mdsXattrValMax
    .reply cd (.bytes (avail.take count) (avail.length ≤ count))
  | none =>
    .get cd cd.currentFh .nofilehandle fun fh =>
    .need cd (!isXattrFh fh) .inval <|
    .check cd (ioCheck s cd fh sid .read) fun _ =>
    .get cd (s.getattr fh) .noent fun ino =>
    ioReply cd io (readReply (s.data fh) ino.size.toNat offset.toNat count io)

/-- `op_seek`. -/
def planSeek (sid : Stateid) (offset : UInt64) (wantData : Bool) (io : IoChoice) : AccPlan :=
  .get cd cd.currentFh .nofilehandle fun fh =>
  .check cd (ioCheck s cd fh sid .read) fun _ =>
  .get cd (s.getattr fh) .noent fun ino =>
  ioReply cd io (.offset ((s.data fh).seek ino.size.toNat offset.toNat wantData))

/-- `op_read_plus`: a hole up to the next data, or the data. A SEEK that fails other than
with an I/O error is answered with a hole. -/
def planReadPlus (sid : Stateid) (offset : UInt64) (count : ℕ) (seekStatus : Option NfsErr)
    (io : IoChoice) : AccPlan :=
  .get cd cd.currentFh .nofilehandle fun fh =>
  .check cd (ioCheck s cd fh sid .read) fun _ =>
  .get cd (s.getattr fh) .noent fun ino =>
  let size := ino.size.toNat
  let n := min (size - offset.toNat) count
  if size ≤ offset.toNat then .reply cd (.bytes [] true)
  else match seekStatus, (s.data fh).seek size offset.toNat true with
    | some .io, _ => ioReply cd io (readReply (s.data fh) size offset.toNat n io)
    | some _, _ | none, none => .reply cd (.hole n (size ≤ offset.toNat + n))
    | none, some i =>
      if offset.toNat < i then .reply cd (.hole (min (i - offset.toNat) n) false)
      else ioReply cd io (readReply (s.data fh) size offset.toNat n io)

/-! ## OPEN and the state operations -/

/-- `enum nfs4_createmode`; the two exclusive modes are one here. -/
inductive CreateMode
  | unchecked
  | guarded
  | exclusive
deriving DecidableEq

/-- What an OPEN that may create asks for. `verfMatch` says whether the verifier is that of
an existing file. -/
structure OpenCreate where
  createmode : CreateMode
  attrs : CreateReq
  verfMatch : Bool
deriving DecidableEq

/-- `CLAIM_NULL` with a name, or `CLAIM_FH`. -/
inductive OpenClaim
  | null (name : Name)
  | fh
deriving DecidableEq

/-- `struct nfs4_arg_open`, with the leases that have expired and the allocation. -/
structure OpenReq where
  claim : OpenClaim
  create : Option OpenCreate
  shareAccess : UInt32
  shareDeny : UInt32
  openOwner : List UInt8
  leaseExpired : Clientid → Bool
  alloc : Bool

/-- The file an OPEN is about, and the create that made it. -/
structure OpenTarget where
  ino : MdsInode
  created : Option CreateArgs

/-- The arguments of the create of an OPEN: an exclusive one without a mode gets 0600. -/
def OpenCreate.args (h : OpenCreate) (c : Cred) (parent : CatFileid) (name : Name) : CreateArgs :=
  let mode := if h.createmode = .exclusive ∧ h.attrs.mode = 0 then 0o600 else h.attrs.mode
  { h.attrs with mode }.args c parent name .reg

/-- The create branch of `op_open`. An UNCHECKED create that finds the name taken opens
what is there. -/
def openCreateFile (fh : Fileid) (name : Name) (h : OpenCreate) : Except NfsErr OpenTarget :=
  if !(s.getattr fh).all (dirMutateCheck cd.cred) then .error .access
  else match memNsCreate now (h.args cd.cred fh.toNat name) s.cat with
    | .ok (child, _) => .ok ⟨child, some (h.args cd.cred fh.toNat name)⟩
    | .error st =>
      if st = .exists ∧ h.createmode = .unchecked then
        match lookupLocalChild s.cat fh.toNat name with
        | .ok ino => .ok ⟨ino, none⟩
        | .error .notfound => .error .delay
        | .error st => .error (mdsStatusToNfs4 st)
      else .error (mdsStatusToNfs4 st)

/-- `CLAIM_NULL`: an UNCHECKED create skips the lookup. -/
def openByName (fh : Fileid) (name : Name) (create : Option OpenCreate) :
    Except NfsErr OpenTarget :=
  match s.getattr fh with
  | none => .error .noent
  | some parent =>
    if parent.type ≠ .dir then .error .notdir
    else match create.filter fun h => h.createmode = .unchecked with
      | some h => openCreateFile now s cd fh name h
      | none =>
        match lookupLocalChild s.cat fh.toNat name, create with
        | .ok ino, none => .ok ⟨ino, none⟩
        | .ok ino, some h =>
          if h.createmode = .exclusive ∧ h.verfMatch then .ok ⟨ino, none⟩ else .error .exist
        | .error .notfound, none => .error .noent
        | .error .notfound, some h => openCreateFile now s cd fh name h
        | .error st, _ => .error (mdsStatusToNfs4 st)

def openTarget (fh : Fileid) (a : OpenReq) : Except NfsErr OpenTarget :=
  match a.claim with
  | .null name => openByName now s cd fh name a.create
  | .fh =>
    match s.getattr fh with
    | none => .error .noent
    | some ino => .ok ⟨ino, none⟩

/-- The permissions that the share bits ask for. -/
def openMay (shareAccess : UInt32) : UInt32 :=
  (if shareAccess &&& shareAccessRead ≠ 0 then mayRead else 0) |||
    (if shareAccess &&& shareAccessWrite ≠ 0 then mayWrite else 0)

/-- An OPEN for writing clears the set-id bits of an existing file. -/
def openClears (c : Cred) (t : OpenTarget) (shareAccess : UInt32) : List AccAct :=
  if t.created.isNone ∧ shareAccess &&& shareAccessWrite ≠ 0 then
    (writeClearsSetid c t.ino).toList.map fun mode =>
      .setattr t.ino.fh { t.ino with mode } attrMode
  else []

/-- `open_state_open`, tried again after expired clients' opens were revoked. -/
def openStateOpen (ot : OpenTable) (alloc : Bool) (leaseExpired : Clientid → Bool)
    (a : OpenArgs) : OpenTable × Except OpenErr Stateid :=
  let r := openPublish ot alloc a
  match r.status with
  | .error .shareDenied =>
    let ot := openStateRevokeExpiredForFile r.table leaseExpired a.fileid
    if ot.opens.length < r.table.opens.length then
      ((openPublish ot alloc a).table, (openPublish ot alloc a).status)
    else (r.table, r.status)
  | st => (r.table, st)

/-- The delegation part of `op_open`: others' grants are recalled, and one is granted if
nobody is in the way. -/
def openDelegs (ot : OpenTable) (dt : DelegTable) (clientid : Clientid) (fileid : Fileid)
    (shareAccess : UInt32) (alloc : Bool) : DelegTable :=
  let dt := delegRecallFile dt fileid clientid [] []
  if declinesDeleg shareAccess || openStateHasOtherWriter ot fileid clientid ||
      delegCheckConflict dt fileid clientid then dt
  else match delegTypeFor shareAccess with
    | none => dt
    | some delegType => (delegGrant dt alloc clientid fileid delegType).1

/-- The end of `op_open`: the open state and the delegations. -/
def openFinish (a : OpenReq) (t : OpenTarget) : AccPlan :=
  let acts : List AccAct := t.created.toList.map (fun c => .ns (.create c)) ++
    openClears cd.cred t a.shareAccess
  match openStateOpen s.ot a.alloc a.leaseExpired
      { clientid := cd.clientid, openOwner := a.openOwner, fileid := t.ino.fh
        shareAccess := a.shareAccess, shareDeny := a.shareDeny } with
  | (ot, .error e) => { acts := acts ++ [.tables ot s.lt s.dt], ctx := cd, res := .error e.nfs }
  | (ot, .ok sid) =>
    { acts := acts ++ [.tables ot s.lt
        (openDelegs ot s.dt cd.clientid t.ino.fh a.shareAccess a.alloc)]
      ctx := { cd with currentFh := some t.ino.fh, currentStateid := some sid }
      res := .ok (.state sid) }

/-- `op_open`, past the grace checks. -/
def planOpen (a : OpenReq) : AccPlan :=
  .get cd cd.currentFh .nofilehandle fun fh =>
  .check cd (openTarget now s cd fh a) fun t =>
  .need cd (t.ino.type = .reg) .isdir <|
  .need cd (t.created.isSome || openModeCheck cd.cred t.ino (openMay a.shareAccess)) .access <|
  openFinish s cd a t

/-- `op_close`, without the finalization of an orphan. -/
def planClose (sid : Stateid) : AccPlan :=
  .get cd cd.currentFh .nofilehandle fun fh =>
  .check cd (((s.io cd fh).resolve sid).mapError IoErr.nfs) fun sid =>
  match openStateClose s.ot cd.clientid sid with
  | (_, .error e) => .fail cd e.nfs
  | (ot, .ok sid) =>
    { acts := [.tables ot s.lt s.dt], ctx := { cd with currentStateid := some sid }
      res := .ok (.state sid) }

/-- `op_open_downgrade`. -/
def planDowngrade (sid : Stateid) (shareAccess shareDeny : UInt32) : AccPlan :=
  .get cd cd.currentFh .nofilehandle fun fh =>
  .need cd (shareAccess ≠ 0) .inval <|
  .check cd (((s.io cd fh).resolve sid).mapError IoErr.nfs) fun sid =>
  match openStateDowngrade s.ot cd.clientid sid shareAccess shareDeny with
  | (_, .error e) => .fail cd e.nfs
  | (ot, .ok sid) =>
    { acts := [.tables ot s.lt s.dt], ctx := { cd with currentStateid := some sid }
      res := .ok (.state sid) }

/-- `op_delegreturn`. -/
def planDelegreturn (sid : Stateid) : AccPlan :=
  .check cd (((s.io cd (cd.currentFh.getD 0)).resolve sid).mapError IoErr.nfs) fun sid =>
  { acts := [.tables s.ot s.lt (delegReturn s.dt sid cd.clientid)], ctx := cd, res := .ok .done }

/-- What the lock operations see of the compound. -/
def AccStore.lockCompound (leaseExpired : Clientid → Bool) : LockCompound where
  clientid := cd.clientid
  currentFh := cd.currentFh
  currentStateid := cd.currentStateid
  hasSt := true
  leaseExpired := leaseExpired
  graceActive := false
  ot := some s.ot

/-- The answer of LOCK and LOCKU over the lock table they leave. -/
def lockAnswer (r : LockTable × Except LockOpErr Stateid) : AccPlan :=
  match r with
  | (lt, .error _) => { acts := [.tables s.ot lt s.dt], ctx := cd, res := .error .locks }
  | (lt, .ok sid) =>
    { acts := [.tables s.ot lt s.dt], ctx := { cd with currentStateid := some sid }
      res := .ok (.state sid) }

/-! ## Operations -/

/-- The operations, with the choices of the data servers. -/
inductive AccOp
  | putfh (fh : Fileid)
  | savefh
  | restorefh
  | lookup (name : Name)
  | lookupp
  | openattr
  | create (name : Name) (type : FileType) (a : CreateReq)
  | remove (name : Name)
  | rename (srcName dstName : Name) (nsFlags : UInt32)
  | link (name : Name)
  | readdir (cookie fits : ℕ)
  | setattr (sid : Stateid) (attrs : MdsInode) (mask : UInt32)
  | setxattr (name : Name) (val : List UInt8) (option : XattrOption) (truthy : Bool)
  | removexattr (name : Name)
  | getxattr (name : Name)
  | listxattrs (cookie fits : ℕ)
  | layoutcommit (sid : Stateid) (lastWrite : Option UInt64) (timeModify : Option ℕ)
  | write (sid : Stateid) (offset : UInt64) (bytes : List UInt8) (io : IoChoice)
  | writeSame (sid : Stateid) (offset length : UInt64) (pattern : List UInt8) (io : IoChoice)
  | allocate (sid : Stateid) (offset length : UInt64) (io : IoChoice)
  | deallocate (sid : Stateid) (offset length : UInt64) (io : IoChoice)
  | copy (srcSid dstSid : Stateid) (srcOffset dstOffset count : UInt64) (io : IoChoice)
  | clone (srcSid dstSid : Stateid) (srcOffset dstOffset count : UInt64) (io : IoChoice)
  | read (sid : Stateid) (offset : UInt64) (count : ℕ) (io : IoChoice)
  | seek (sid : Stateid) (offset : UInt64) (wantData : Bool) (io : IoChoice)
  | readPlus (sid : Stateid) (offset : UInt64) (count : ℕ) (seekStatus : Option NfsErr)
      (io : IoChoice)
  | openFile (a : OpenReq)
  | close (sid : Stateid)
  | openDowngrade (sid : Stateid) (shareAccess shareDeny : UInt32)
  | delegreturn (sid : Stateid)
  | lock (alloc retry : LockAlloc) (leaseExpired : Clientid → Bool) (a : ArgLock)
  | locku (alloc : Bool) (sid : Stateid) (offset length : UInt64)

/-- `dispatch_op`. -/
def accPlan : AccOp → AccPlan
  | .putfh fh => planPutfh s cd fh
  | .savefh => planSavefh cd
  | .restorefh => planRestorefh cd
  | .lookup name => planLookup s cd name
  | .lookupp => planLookupp s cd
  | .openattr => planOpenattr s cd
  | .create name type a => planCreate now s cd name type a
  | .remove name => planRemove now s cd name
  | .rename srcName dstName nsFlags => planRename now s cd srcName dstName nsFlags
  | .link name => planLink now s cd name
  | .readdir cookie fits => planReaddir s cd cookie fits
  | .setattr sid attrs mask => planSetattr s cd sid attrs mask
  | .setxattr name val option truthy => planSetxattr s cd name val option truthy
  | .removexattr name => planRemovexattr s cd name
  | .getxattr name => planGetxattr s cd name
  | .listxattrs cookie fits => planListxattrs s cd cookie fits
  | .layoutcommit sid lastWrite timeModify => planLayoutcommit now s cd sid lastWrite timeModify
  | .write sid offset bytes io => planWrite s cd sid offset bytes io
  | .writeSame sid offset length pattern io => planWriteSame s cd sid offset length pattern io
  | .allocate sid offset length io => planAllocate s cd sid offset length io
  | .deallocate sid offset length io => planDeallocate s cd sid offset length io
  | .copy srcSid dstSid srcOffset dstOffset count io =>
    planCopy s cd srcSid dstSid srcOffset dstOffset count io
  | .clone srcSid dstSid srcOffset dstOffset count io =>
    planClone s cd srcSid dstSid srcOffset dstOffset count io
  | .read sid offset count io => planRead s cd sid offset count io
  | .seek sid offset wantData io => planSeek s cd sid offset wantData io
  | .readPlus sid offset count seekStatus io => planReadPlus s cd sid offset count seekStatus io
  | .openFile a => planOpen now s cd a
  | .close sid => planClose s cd sid
  | .openDowngrade sid shareAccess shareDeny => planDowngrade s cd sid shareAccess shareDeny
  | .delegreturn sid => planDelegreturn s cd sid
  | .lock alloc retry leaseExpired a =>
    lockAnswer s cd (opLock s.lt (s.lockCompound cd leaseExpired) alloc retry a)
  | .locku alloc sid offset length =>
    lockAnswer s cd (opLocku s.lt (s.lockCompound cd fun _ => false) alloc sid offset length)

/-- The server after an operation. -/
def accStep (op : AccOp) : AccStore :=
  (accPlan now s cd op).run (applyAct now) s

end PnfsLattice
