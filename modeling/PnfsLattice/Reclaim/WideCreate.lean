import PnfsLattice.Reclaim.DsGc

/-!
# The wide create and its backing files

`hpc_shared_create_wide_layout` has the backing files of a file made first, and then publishes
the inode, its name and its stripe map in one catalogue call. Whether the backing files may go
when that call fails is what the call says of itself: memdb publishes nothing when it fails,
while a transaction of FoundationDB may be in doubt. What the client and the store do is given:
the ids, the batch, what each attempt of `fdb_run_txn` meets, and which rows the queue takes.
-/

namespace PnfsLattice

open List

/-- A status other than `MDS_OK`. -/
inductive CatError
  | status (st : MdsStatus)
  | delay
  deriving DecidableEq

/-! ## The runner -/

/-- How the commit of an attempt ends. One that is `unknown` has landed or not, and may still be
flying; it is `resolved` if the witness or the fence tells before the deadline. -/
inductive CommitEnd
  | noSlot
  | aborted (retry : Bool)
  | committed
  | unknown (landed flying resolved : Bool)

/-- An attempt at `create_body`: an error of the client, or what `create_check` reads and the end
of the commit. -/
inductive CreateTry
  | failed (retry : Bool)
  | body (parent : Option FileType) (dirent child : Bool) (commit : CommitEnd)

/-- The refusal of `create_check`. -/
def createCheck (parent : Option FileType) (dirent child : Bool) : Option MdsStatus :=
  match parent with
  | none => some .notfound
  | some type =>
    if type ≠ .dir then some .notdir else if dirent || child then some .exists else none

/-- The body is run again: after an abort that may be retried, and after a commit that is known
not to have landed, which then never lands. -/
def CreateTry.again : CreateTry → Bool
  | .failed retry => retry
  | .body parent dirent child commit =>
    (createCheck parent dirent child).isNone && match commit with
      | .aborted retry => retry
      | .unknown landed _ resolved => resolved && !landed
      | _ => false

/-- A backend with all that it meets; `cookie` is the failure of the id for the name. -/
inductive WideBackend
  | memdb (m : Memdb) (now : ℕ) (alloc : Bool)
  | fdb (cookie : Option CatError) (tries : List CreateTry)

/-- What is committed under the new fileid for the captured `entries`; the child of the request
has the mode, the owner and the times. -/
def CreateWideArgs.prepared (a : CreateWideArgs) (fileid : CatFileid)
    (entries : List DsMapEntry) : CreateWideArgs :=
  { a with
    child := { a.child with
      fileid := fileid, parentFileid := a.parentFileid, type := .reg, nlink := 1, size := 0
      change := 1, generation := 1, flags := iflagHpcShared }
    stripeUnit := if a.stripeUnit = 0 then 65536 else a.stripeUnit
    entries := entries }

/-- The rows of `hpc_enqueue_cleanup_entries`, one for each captured backing file. -/
def CreateWideArgs.rows (a : CreateWideArgs) : List (CatFileid × DsMapEntry × ℕ) :=
  ((a.entries.take (a.stripeCount * a.mirrorCount)).filter fun e =>
    0 < e.nfsFh.length ∧ e.nfsFh.length ≤ mdsNfsFhMax).map fun e =>
      (a.child.fileid, e, gcSweepGeom a.stripeCount a.mirrorCount)

/-- What a create leaves: its status, whether the child is published or may yet be, the rows of
its captured backing files, and those of them that are queued. -/
structure WideEnd where
  status : Option CatError
  live : Bool
  captured : List (CatFileid × DsMapEntry × ℕ)
  queued : List (CatFileid × DsMapEntry × ℕ)

/-- The create ends before there is a batch. -/
def WideEnd.early (e : CatError) : WideEnd := ⟨some e, false, [], []⟩

/-- No inode has the fileid that was allocated. -/
def WideBackend.Fresh (f : CatFileid) : WideBackend → Prop
  | .memdb m _ _ => m.inodeFind f = none
  | .fdb _ tries => ∀ p d c e, .body p d c e ∈ tries → c = false

end PnfsLattice
