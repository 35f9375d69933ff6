import PnfsLattice.Catalogue.Inode
import PnfsLattice.Lib.Machine
import PnfsLattice.Lib.Stamped

/-!
# The dirent and inode caches

Lookups (`compound_lookup_local_child`), inode reads (`compound_cat_inode_get`) and
mutations of one metadata server over a catalogue, with the dirent cache and the inode
cache in front of it. Each step is one critical section or one catalogue call: a cache
probe, the read of the invalidation generation, a catalogue read, one insertion, a commit,
the two halves of a dirent invalidation (`dirent_cache_invalidate` bumps the generation
before it takes the stripe lock), an inode invalidation.

The catalogue's history is kept, one state for each commit, and a time is a place in it.
The stamps of the cache entries, the times in the requests and the clocks are ghost
state: no branch reads them. Both caches may lose any entry at any time, which covers
their least-recently-used eviction.
-/

namespace PnfsLattice

open Lib

/-! ## The catalogue -/

/-- A directory entry's key: the parent and the name. -/
abbrev DirentKey := CatFileid × Name

/-- What lookups and inode reads see of the catalogue: entries with the child and its
recorded type, and inode rows, each under its own fileid. -/
structure NsCatalogue where
  dirents : DirentKey → Option (CatFileid × FileType)
  inodes : CatFileid → Option MdsInode
  keyed : ∀ f ino, inodes f = some ino → ino.fileid = f

inductive RowChange
  | setDirent (key : DirentKey) (child : CatFileid) (type : FileType)
  | delDirent (key : DirentKey)
  | setInode (ino : MdsInode)
  | delInode (fileid : CatFileid)
deriving DecidableEq

def NsCatalogue.apply (cat : NsCatalogue) : RowChange → NsCatalogue
  | .setDirent key child type =>
    { cat with dirents := Function.update cat.dirents key (some (child, type)) }
  | .delDirent key => { cat with dirents := Function.update cat.dirents key none }
  | .setInode ino =>
    { cat with
      inodes := Function.update cat.inodes ino.fileid (some ino)
      keyed := by
        intro f ino' h
        rw [Function.update_apply] at h
        split at h
        next hf => cases h; exact hf.symm
        next => exact cat.keyed f ino' h }
  | .delInode fileid =>
    { cat with
      inodes := Function.update cat.inodes fileid none
      keyed := by
        intro f ino h
        rw [Function.update_apply] at h
        split at h
        · cases h
        · exact cat.keyed f ino h }

/-- `mds_cat_ns_lookup`: the entry and its inode in one read. -/
def NsCatalogue.lookup (cat : NsCatalogue) (key : DirentKey) : Option MdsInode :=
  (cat.dirents key).bind fun child => cat.inodes child.1

/-! ## Requests -/

/-- What a lookup returns, with the times it holds of. -/
inductive LookupResult
  | notFound (time : ℕ)
  | found (direntTime inodeTime : ℕ) (child : MdsInode)
deriving DecidableEq

inductive LookupPc
  | probeDirent
  | probeInode (direntTime : ℕ) (child : CatFileid)
  | readGen
  | readCat (gen : ℕ)
  | putNegative (gen time : ℕ)
  | putDirent (time : ℕ) (child : MdsInode)
  | putInode (time : ℕ) (child : MdsInode)
  | done (result : LookupResult)
deriving DecidableEq

/-- A lookup. `floorD` and `floorI` are the clocks of finished mutations when it began. -/
structure LookupReq where
  key : DirentKey
  floorD : ℕ
  floorI : CatFileid → ℕ
  pc : LookupPc

/-- What an inode read returns. -/
inductive InodeResult
  | notFound (time : ℕ)
  | found (time : ℕ) (ino : MdsInode)
deriving DecidableEq

/-- Where an inode read is. -/
inductive InodePc
  | probe
  | readCat
  | putInode (time : ℕ) (ino : MdsInode)
  | done (result : InodeResult)
deriving DecidableEq

structure InodeReq where
  fileid : CatFileid
  floor : ℕ
  pc : InodePc

/-- An invalidation still to do: of a dirent, in two halves, or of an inode. -/
inductive Inval
  | dirent (key : DirentKey) (bumped : Bool)
  | inode (fileid : CatFileid)
deriving DecidableEq

/-- The invalidation of what a row write changed. -/
def RowChange.inval : RowChange → Inval
  | .setDirent key _ _ | .delDirent key => .dirent key false
  | .setInode ino => .inode ino.fileid
  | .delInode fileid => .inode fileid

/-- A mutation that has committed, with the invalidations it has still to do. -/
structure Mutation where
  time : ℕ
  changes : List RowChange
  todo : List Inval
deriving DecidableEq

/-! ## The system -/

/-- The dirent cache's value: a child with its type, or nothing for a negative entry. -/
abbrev DirentVal := Option (CatFileid × FileType)

/-- The server. `hist t` is the catalogue after the first `t` commits and `hist now` the
current one. `bumped` is the latest commit whose bump for the name has been made,
`finD` and `finI` the latest finished mutation of a name or inode. -/
structure CacheSys where
  now : ℕ
  hist : ℕ → NsCatalogue
  dcache : Stamped DirentKey DirentVal
  invalGen : ℕ
  icache : Stamped CatFileid MdsInode
  bumped : DirentKey → ℕ
  finD : DirentKey → ℕ
  finI : CatFileid → ℕ
  lookups : List LookupReq
  reads : List InodeReq
  muts : List Mutation

/-- `dirent_cache_put`, which refuses fileid 0; `alloc` is its allocation. -/
def direntCachePut (c : Stamped DirentKey DirentVal) (alloc : Bool) (key : DirentKey)
    (time : ℕ) (child : MdsInode) : Stamped DirentKey DirentVal :=
  if alloc && child.fileid != 0 then c.put key time (some (child.fileid, child.type)) else c

def inodeCachePut (c : Stamped CatFileid MdsInode) (alloc : Bool) (time : ℕ) (ino : MdsInode) :
    Stamped CatFileid MdsInode :=
  if alloc then c.put ino.fileid time ino else c

variable (s : CacheSys) (alloc : Bool)

/-- `dirent_cache_put_negative_if_unchanged`. -/
def putNegativeIfUnchanged (key : DirentKey) (gen time : ℕ) : Stamped DirentKey DirentVal :=
  if s.invalGen = gen ∧ alloc = true then s.dcache.put key time none else s.dcache

def lookupStep (r : LookupReq) : CacheSys × LookupReq :=
  match r.pc with
  | .probeDirent =>
    match s.dcache.entry r.key with
    | some (time, none) => (s, { r with pc := .done (.notFound time) })
    | some (time, some (child, _)) => (s, { r with pc := .probeInode time child })
    | none => (s, { r with pc := .readGen })
  | .probeInode direntTime child =>
    match s.icache.entry child with
    | some (time, ino) =>
      if ino.visible then (s, { r with pc := .done (.found direntTime time ino) })
      else ({ s with icache := s.icache.evict child }, { r with pc := .readGen })
    | none => (s, { r with pc := .readGen })
  | .readGen => (s, { r with pc := .readCat s.invalGen })
  | .readCat gen =>
    match (s.hist s.now).lookup r.key with
    | none => (s, { r with pc := .putNegative gen s.now })
    | some child =>
      if child.visible then (s, { r with pc := .putDirent s.now child })
      else (s, { r with pc := .done (.notFound s.now) })
  | .putNegative gen time =>
    ({ s with dcache := putNegativeIfUnchanged s alloc r.key gen time },
      { r with pc := .done (.notFound time) })
  | .putDirent time child =>
    ({ s with dcache := direntCachePut s.dcache alloc r.key time child },
      { r with pc := .putInode time child })
  | .putInode time child =>
    ({ s with icache := inodeCachePut s.icache alloc time child },
      { r with pc := .done (.found time time child) })
  | .done _ => (s, r)

def inodeReadStep (r : InodeReq) : CacheSys × InodeReq :=
  match r.pc with
  | .probe =>
    match s.icache.entry r.fileid with
    | some (time, ino) =>
      if ino.visible then (s, { r with pc := .done (.found time ino) })
      else ({ s with icache := s.icache.evict r.fileid }, { r with pc := .readCat })
    | none => (s, { r with pc := .readCat })
  | .readCat =>
    match (s.hist s.now).inodes r.fileid with
    | none => (s, { r with pc := .done (.notFound s.now) })
    | some ino =>
      if ino.visible then (s, { r with pc := .putInode s.now ino })
      else (s, { r with pc := .done (.notFound s.now) })
  | .putInode time ino =>
    ({ s with icache := inodeCachePut s.icache alloc time ino },
      { r with pc := .done (.found time ino) })
  | .done _ => (s, r)

def commitMutation (s : CacheSys) (changes : List RowChange) : CacheSys :=
  { s with
    now := s.now + 1
    hist := Function.update s.hist (s.now + 1)
      (changes.foldl NsCatalogue.apply (s.hist s.now))
    muts := { time := s.now + 1, changes, todo := changes.map RowChange.inval } :: s.muts }

/-- One change of a finished mutation: readers that begin from now on must see it. -/
def finishChange (time : ℕ) (s : CacheSys) (c : RowChange) : CacheSys :=
  match c.inval with
  | .dirent key _ => { s with finD := raise s.finD key time }
  | .inode fileid => { s with finI := raise s.finI fileid time }

/-- The next invalidation of a mutation, or its end. -/
def mutationStep (s : CacheSys) (m : Mutation) : CacheSys × Mutation :=
  match m.todo with
  | .dirent key false :: rest =>
    ({ s with invalGen := s.invalGen + 1, bumped := raise s.bumped key m.time },
      { m with todo := .dirent key true :: rest })
  | .dirent key true :: rest =>
    ({ s with dcache := s.dcache.drop key m.time }, { m with todo := rest })
  | .inode fileid :: rest =>
    ({ s with icache := s.icache.drop fileid m.time }, { m with todo := rest })
  | [] => (m.changes.foldl (finishChange m.time) s, m)

/-- The labels: beginning a request, a step of one, a commit, a step of a mutation, and the
loss of a cache entry. -/
inductive CacheOp
  | beginLookup (key : DirentKey)
  | beginRead (fileid : CatFileid)
  | lookup (alloc : Bool) (i : ℕ)
  | read (alloc : Bool) (i : ℕ)
  | commit (changes : List RowChange)
  | mutation (i : ℕ)
  | evictDirent (key : DirentKey)
  | evictInode (fileid : CatFileid)

def cacheStep (s : CacheSys) : CacheOp → Option CacheSys
  | .beginLookup key =>
    some { s with lookups :=
      { key, floorD := s.finD key, floorI := s.finI, pc := .probeDirent } :: s.lookups }
  | .beginRead fileid =>
    some { s with reads := { fileid, floor := s.finI fileid, pc := .probe } :: s.reads }
  | .lookup alloc i => do
    let r ← s.lookups[i]?
    let (s', r') := lookupStep s alloc r
    return { s' with lookups := s.lookups.set i r' }
  | .read alloc i => do
    let r ← s.reads[i]?
    let (s', r') := inodeReadStep s alloc r
    return { s' with reads := s.reads.set i r' }
  | .commit changes => some (commitMutation s changes)
  | .mutation i => do
    let m ← s.muts[i]?
    let (s', m') := mutationStep s m
    return { s' with muts := s.muts.set i m' }
  | .evictDirent key => some { s with dcache := s.dcache.evict key }
  | .evictInode fileid => some { s with icache := s.icache.evict fileid }

/-- A start: any catalogue, empty caches, no request. -/
def CacheStart (s : CacheSys) : Prop :=
  ∃ cat, s = { now := 0, hist := fun _ => cat, dcache := .empty, invalGen := 0
               icache := .empty, bumped := fun _ => 0, finD := fun _ => 0
               finI := fun _ => 0, lookups := [], reads := [], muts := [] }

end PnfsLattice
