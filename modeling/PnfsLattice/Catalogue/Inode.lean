import PnfsLattice.Stateid

/-!
# Inodes and names

The record of a file that the catalogue stores and the caches copy, and the names of
directory entries. Names are the bytes of a C string.
-/

namespace PnfsLattice

/-- The name of a directory entry, or a path component. -/
abbrev Name := List UInt8

/-- A fileid as the catalogue hands it out. Its counter has 64 bits; a natural number
stands for one that does not come round. -/
abbrev CatFileid := ℕ

def mdsMaxStripes : ℕ := 1024

/-- `enum mds_file_type`. -/
inductive FileType
  | reg
  | dir
  | symlink
  | blkdev
  | chrdev
  | fifo
  | sock
deriving DecidableEq

/-- `MDS_IFLAG_INLINE`. -/
def iflagInline : UInt32 := 0x01

/-- `MDS_IFLAG_DS_PENDING`: the stripe map is assigned, the DS files are not there yet. -/
def iflagDsPending : UInt32 := 0x04

/-- `MDS_IFLAG_HPC_SHARED`. -/
def iflagHpcShared : UInt32 := 0x08

/-- `MDS_IFLAG_HPC_CREATE_PENDING`: a wide create whose stripe map is not yet there. -/
def iflagHpcCreatePending : UInt32 := 0x10

/-- `MDS_IFLAG_INLINE_STRIPE`: the one stripe is recorded on the inode. -/
def iflagInlineStripe : UInt32 := 0x20

/-- `MDS_IFLAG_DELETE_PENDING`: removed at the acknowledgement, awaiting the drainer. -/
def iflagDeletePending : UInt32 := 0x40

/-- `MDS_IFLAG_UNLINK_ORPHAN`: kept without a name for its open holders. -/
def iflagUnlinkOrphan : UInt32 := 0x80

/-- `struct mds_inode`, without the fields no modelled function reads. Times are
nanoseconds. -/
structure MdsInode where
  fileid : CatFileid
  type : FileType
  mode : UInt32
  nlink : ℕ
  uid : UInt64
  gid : UInt64
  size : UInt64
  atime : ℕ
  mtime : ℕ
  ctime : ℕ
  change : UInt64
  generation : UInt64
  flags : UInt32
  parentFileid : CatFileid
  inlineDsId : UInt32
  inlineFh : List UInt8
deriving DecidableEq

/-- Whether a flag is set on an inode. -/
def MdsInode.has (ino : MdsInode) (flag : UInt32) : Bool := ino.flags &&& flag != 0

/-- An inode that clients may see: `MDS_IFLAG_HPC_CREATE_PENDING` is not set. -/
def MdsInode.visible (ino : MdsInode) : Bool := !ino.has iflagHpcCreatePending

end PnfsLattice
