import PnfsLattice.Cluster.Chunk
import PnfsLattice.Cluster.SubtreeMap
import PnfsLattice.Lib.Worklist

/-!
# A migration and the mutations beside it

`migration_initiate` sets the subtree to MIGRATING, collects the fileids below its root,
registers them as frozen, streams every inode to the destination and hands the subtree over.
A client operation looks once whether its handles are frozen and changes the catalogue later.
Nothing holds the two together: an operation may have looked before the freeze, may use a
handle outside the subtree for a file inside, or may not look at all.
-/

namespace PnfsLattice

open Lib List Option

/-! ## Mutations -/

/-- What an operation does to the catalogue in the end. -/
inductive MigCall
  | ns (c : NsCall)
  | setattr (f : CatFileid) (attrs : MdsInode) (mask : UInt32)
  | inlineWrite (f : CatFileid) (data : List UInt8) (attrs : MdsInode) (mask : UInt32)
  /-- CREATE and REMOVE in the directory of named attributes. -/
  | createXattr (f : CatFileid) (name : Name)
  | removeXattr (f : CatFileid) (name : Name)
  | setXattr (f : CatFileid) (name : Name) (val : List UInt8)
  /-- REMOVEXATTR. -/
  | dropXattr (f : CatFileid) (name : Name)
  /-- LAYOUTCOMMIT, and the setattr of ALLOCATE, WRITE_SAME, COPY and CLONE. -/
  | layoutCommit (f : CatFileid) (attrs : MdsInode) (mask : UInt32)
  /-- A put of the flag `PROMOTING` by `promote_inline_to_ds`, for a WRITE, which has checked
  its handle, or for an operation that has not. -/
  | putInode (checked : Bool) (ino : MdsInode)
  /-- The transaction that ends a promotion. -/
  | promote (checked : Bool) (row : MemdbStripe) (ino : MdsInode)

/-- A call that fails leaves the catalogue as it was. -/
def orKeep (cat : MigCat) : Except MdsStatus MigCat → MigCat
  | .ok cat' => cat'
  | .error _ => cat

/-- The catalogue after a masked write of an inode. -/
def MigCat.setattr (cat : MigCat) (now : ℕ) (f : CatFileid) (attrs : MdsInode) (mask : UInt32) :
    MigCat :=
  orKeep cat ((memNsSetattr now f attrs mask cat.db).map fun db => { cat with db })

/-- The commit of an operation. -/
def MigCall.run (now : ℕ) (cat : MigCat) : MigCall → MigCat
  | .ns c => orKeep cat ((nsCall now cat.db c).map fun db => { cat with db })
  | .setattr f attrs mask => cat.setattr now f attrs mask
  | .inlineWrite f data attrs mask =>
    match memInlinePut f data cat with
    | .error _ => cat
    | .ok cat => cat.setattr now f attrs mask
  | .createXattr f name => orKeep cat (memXattrPut now (f, name) [] cat)
  | .removeXattr f name => orKeep cat (memXattrDel now (f, name) cat)
  | .setXattr f name val => orKeep cat (memXattrPut now (f, name) val cat)
  | .dropXattr f name => orKeep cat (memXattrDel now (f, name) cat)
  | .layoutCommit f attrs mask => cat.setattr now f attrs mask
  | .putInode _ ino => orKeep cat ((memInodePut ino cat.db).map fun db => { cat with db })
  | .promote _ row ino => orKeep cat do
    let db ← memStripeMapPut row cat.db
    let db ← memInodePut ino db
    return { cat with db, inlines := eraseKey Prod.fst row.fileid cat.inlines }

/-- An operation and the paths of its current and saved filehandle, where they are known. -/
structure ClientMutation where
  call : MigCall
  currentPath : Option SubtreePath
  savedPath : Option SubtreePath

/-- The handles that an operation checks. LINK checks its directory and not the saved
handle of the file, SETXATTR, REMOVEXATTR and LAYOUTCOMMIT check nothing. -/
def ClientMutation.handles (m : ClientMutation) : List (CatFileid × Option SubtreePath) :=
  match m.call with
  | .ns .allocFileid => []
  | .ns (.create a) => [(a.parent, m.currentPath)]
  | .ns (.createWide _ a) => [(a.parentFileid, m.currentPath)]
  | .ns (.link parent _ _) => [(parent, m.currentPath)]
  | .ns (.rename sp _ dp _)
  | .ns (.renameFlags sp _ dp _ _) => [(dp, m.currentPath), (sp, m.savedPath)]
  | .ns (.remove parent _) | .ns (.removeKnownGc parent _ _ _) => [(parent, m.currentPath)]
  | .setattr f _ _ | .inlineWrite f _ _ _ => [(f, m.currentPath)]
  | .createXattr f _ | .removeXattr f _ => [(f, none)]
  | .setXattr _ _ _ | .dropXattr _ _ | .layoutCommit _ _ _ => []
  | .putInode checked ino | .promote checked _ ino =>
    if checked then [(ino.fileid, m.currentPath)] else []

/-- Whether a path leads to an entry that is MIGRATING or FROZEN. -/
def pathFrozen (map : List SubtreeEntry) (path : SubtreePath) : Bool :=
  (subtreeMapLookup map path).any fun e => e.state = .migrating || e.state = .frozen

/-- `check_fh_frozen`, and whether the answer is NFS4ERR_DELAY. -/
def checkFhFrozen (map : List SubtreeEntry) (frozen : List CatFileid)
    (h : CatFileid × Option SubtreePath) : Bool :=
  match h.2 with
  | none => h.1 ∈ frozen
  | some path => pathFrozen map path

/-! ## The traversal -/

def catSubtreeMaxDepth : ℕ := 256

/-- The files that a traversal has still to visit, with their depths. -/
abbrev Todo := List (CatFileid × ℕ)

/-- What `cat_subtree_dfs` comes to next. -/
inductive Visit
  | done
  | failed
  | file (c : MigChunk) (kids rest : Todo)

/-- The next file; its entries come before its siblings. -/
def nextVisit (cat : MigCat) (room : VisitRoom) : Todo → Visit
  | [] => .done
  | (f, depth) :: rest =>
    if catSubtreeMaxDepth < depth then .failed
    else match (cat.rowsOf f).chunk room with
      | none => .failed
      | some c => .file c (c.dirents.map fun d => (d.2.1, depth + 1)) rest

/-! ## The system -/

/-- Where `migration_initiate` stands; `fids` are the fileids it has collected. -/
inductive StreamJob
  | lookup
  | freeze
  | collect (todo : Todo) (fids : List CatFileid)
  | freezeFileids (fids : List CatFileid)
  | sendBegin (fids : List CatFileid)
  | stream (fids : List CatFileid) (todo : Todo) (failed : Bool)
  | sendFinish (fids : List CatFileid)
  | commitLookup (fids : List CatFileid)
  | transfer (fids : List CatFileid)
  | activeLookup (fids : List CatFileid)
  | activeSet (fids : List CatFileid)
  | junction (fids : List CatFileid)
  | unfreeze (fids : List CatFileid) (ok : Bool)
  | rollback (fids : List CatFileid)
  | rollbackLookup
  | rollbackSet
  | returned (ok : Bool)

/-- The fileids that are registered as frozen until the subtree is handed over. -/
def StreamJob.guards : StreamJob → Option (List CatFileid)
  | .sendBegin fids | .stream fids _ _ | .sendFinish fids | .commitLookup fids
  | .transfer fids => some fids
  | _ => none

/-- The same from the first file streamed on. -/
def StreamJob.copies : StreamJob → Option (List CatFileid)
  | .stream fids _ _ | .sendFinish fids | .commitLookup fids | .transfer fids => some fids
  | _ => none

/-- The fileids of a migration that is about to stream. -/
def StreamJob.begins : StreamJob → Option (List CatFileid)
  | .sendBegin fids => some fids
  | _ => none

/-- A mutation that has passed its check, and the frozen fileids that a migration had
registered then; these are for the statement only. -/
structure InFlight where
  mutation : ClientMutation
  seen : Option (List CatFileid)

/-- The arguments of `migration_initiate`, and the id of the node it runs on. -/
structure MigArgs where
  selfId : MdsId
  path : SubtreePath
  root : CatFileid
  destId : MdsId

/-- The source node with its map and catalogue, and the catalogue of the destination.
`version` is the local `entry.version`. For the statement, `handedOver` holds both catalogues
as they were at the transfer of the ownership. -/
structure StreamSys where
  args : MigArgs
  map : List SubtreeEntry
  frozen : List CatFileid
  src : MigCat
  dest : MigCat
  job : StreamJob
  version : ℕ
  muts : List InFlight
  handedOver : Option (MigCat × MigCat)

/-- What the transport, the allocators and the membership answer. -/
structure StreamEnv where
  ok : Bool
  roleOk : Bool
  visitOk : Bool
  room : VisitRoom
  now : ℕ

/-- The attributes of the junction: mode 01755. -/
def junctionAttrs : MdsInode where
  fileid := 0
  type := .reg
  mode := 0o1755
  nlink := 0
  uid := 0
  gid := 0
  size := 0
  atime := 0
  mtime := 0
  ctime := 0
  change := 0
  generation := 0
  flags := 0
  parentFileid := 0
  inlineDsId := 0
  inlineFh := []

/-- `subtree_map_unfreeze_fileids`: one registration of each. -/
def unfreezeFileids (fids frozen : List CatFileid) : List CatFileid :=
  fids.foldl List.erase frozen

/-- One step of `migration_initiate`. -/
def migrateStep (s : StreamSys) (env : StreamEnv) : StreamJob → Option StreamSys
  | .lookup =>
    match subtreeMapLookup s.map s.args.path with
    | none => some { s with job := .returned false }
    | some e =>
      if e.ownerMdsId ≠ s.args.selfId || e.state ≠ .active then
        some { s with job := .returned false }
      else some { s with job := .freeze, version := e.version }
  | .freeze =>
    match subtreeMapSetState s.args.path .migrating s.version s.map with
    | .error _ => some { s with job := .returned false }
    | .ok map => some { s with map, job := .collect [(s.args.root, 0)] [] }
  | .collect todo fids =>
    if !env.visitOk then some { s with job := .rollbackLookup }
    else match nextVisit s.src env.room todo with
      | .failed => some { s with job := .rollbackLookup }
      | .done =>
        if fids.isEmpty then some { s with job := .rollbackLookup }
        else some { s with job := .freezeFileids fids }
      | .file c kids rest =>
        -- without memory the callback stops the descent, and nothing else
        if env.ok then some { s with job := .collect (kids ++ rest) (fids ++ [c.inode.fileid]) }
        else some { s with job := .collect rest fids }
  | .freezeFileids fids =>
    if env.ok then some { s with frozen := s.frozen ++ fids, job := .sendBegin fids }
    else some { s with job := .rollbackLookup }
  | .sendBegin fids =>
    if env.ok then some { s with job := .stream fids [(s.args.root, 0)] false }
    else some { s with job := .rollback fids }
  | .stream fids todo failed =>
    if !env.visitOk then some { s with job := .rollback fids }
    else match nextVisit s.src env.room todo with
      | .failed => some { s with job := .rollback fids }
      | .done =>
        if failed then some { s with job := .rollback fids }
        else some { s with job := .sendFinish fids }
      | .file c kids rest =>
        if !env.ok then some { s with job := .stream fids rest true }
        else
          let r := migrationApplyChunk env.now c.wired s.dest
          some { s with
            dest := r.1
            job := if r.2 then .stream fids (kids ++ rest) failed else .stream fids rest true }
  | .sendFinish fids =>
    if env.ok then some { s with job := .commitLookup fids }
    else some { s with job := .rollback fids }
  | .commitLookup fids =>
    match subtreeMapLookup s.map s.args.path with
    | none => some { s with job := .unfreeze fids false }
    | some e => some { s with job := .transfer fids, version := e.version }
  | .transfer fids =>
    match transferOwnerIfMigrating env.roleOk s.args.path s.args.destId s.version s.map with
    | .error _ => some { s with job := .unfreeze fids false }
    | .ok map => some { s with map, job := .activeLookup fids, handedOver := some (s.src, s.dest) }
  | .activeLookup fids =>
    match subtreeMapLookup s.map s.args.path with
    | none => some { s with job := .unfreeze fids false }
    | some e => some { s with job := .activeSet fids, version := e.version }
  | .activeSet fids =>
    match subtreeMapSetState s.args.path .active s.version s.map with
    | .error _ => some { s with job := .unfreeze fids false }
    | .ok map => some { s with map, job := .junction fids }
  | .junction fids =>
    some { s with
      src := s.src.setattr env.now s.args.root junctionAttrs attrMode
      job := .unfreeze fids true }
  | .unfreeze fids ok =>
    some { s with frozen := unfreezeFileids fids s.frozen, job := .returned ok }
  | .rollback fids =>
    some { s with frozen := unfreezeFileids fids s.frozen, job := .rollbackLookup }
  | .rollbackLookup =>
    match subtreeMapLookup s.map s.args.path with
    | none => some { s with job := .rollbackSet }
    | some e => some { s with job := .rollbackSet, version := e.version }
  | .rollbackSet =>
    match subtreeMapSetState s.args.path .active s.version s.map with
    | .error _ => some { s with job := .returned false }
    | .ok map => some { s with map, job := .returned false }
  | .returned _ => none

/-- The steps of the system. -/
inductive StreamOp
  | migrate (env : StreamEnv)
  /-- A mutation checks its handles; one that is refused has no effect. -/
  | check (m : ClientMutation)
  /-- A mutation that has passed commits and is acknowledged. -/
  | commit (i : ℕ) (now : ℕ)

def streamStep (s : StreamSys) : StreamOp → Option StreamSys
  | .migrate env => migrateStep s env s.job
  | .check m =>
    if m.handles.any (checkFhFrozen s.map s.frozen) then some s
    else some { s with muts := s.muts ++ [⟨m, s.job.guards⟩] }
  | .commit i now =>
    match s.muts[i]? with
    | none => none
    | some j => some { s with src := j.mutation.call.run now s.src, muts := s.muts.eraseIdx i }

/-- A node before the call, with any catalogues. -/
def StreamStart (s : StreamSys) : Prop := s.job = .lookup ∧ s.muts = [] ∧ s.handedOver = none

/-! ## The property -/

/-- A file is listed in a directory. -/
def ChildOf (cat : MigCat) (a b : CatFileid) : Prop :=
  ∃ n type, (cat.contentOf a).entry n = some (b, type)

/-- A file is the root or below it. -/
def InSubtree (cat : MigCat) (root f : CatFileid) : Prop :=
  Relation.ReflTransGen (ChildOf cat) root f

/-- The destination has the subtree of the source, but for the fields of the inodes that are
not on the wire. -/
def Arrived (root : CatFileid) (src dest : MigCat) : Prop :=
  ∀ f, InSubtree src root f → dest.contentOf f = (src.contentOf f).wired

/-- The collected fileids are all of a subtree of plain files, and the destination has no
rows for them. -/
def ReadyToStream (s : StreamSys) (fids : List CatFileid) : Prop :=
  s.args.root ∈ fids ∧ ∀ f ∈ fids, (s.src.rowsOf f).plain = true ∧
    (∀ d ∈ (s.src.rowsOf f).entries, d.childFileid ∈ fids) ∧ (s.dest.rowsOf f).blank = true
deriving Decidable

/-- A commit beside the stream changes no row of a frozen file, unless the check has seen the
frozen set and one of its handles in it (it has refused the operation then). -/
def KeepsFrozenRows (s : StreamSys) (now : ℕ) (fids : List CatFileid) (j : InFlight) : Prop :=
  (j.seen = some fids ∧ ∃ h ∈ j.mutation.handles, h.1 ∈ fids) ∨
    ∀ f ∈ fids, (j.mutation.call.run now s.src).rowsOf f = s.src.rowsOf f
deriving Decidable

/-- When the stream begins the frozen set is the whole subtree and all of it fits into chunks;
the reads of the stream find memory; a handle to a frozen file comes without a path or with
one into the subtree; and commits beside the stream spare the frozen files. -/
def StreamQuiet (s : StreamSys) : StreamOp → Prop
  | .migrate env => (∀ fids ∈ s.job.begins, ReadyToStream s fids) ∧
      (s.job.copies.isSome → env.room = fullRoom)
  | .check m => ∀ fids ∈ s.job.guards, ∀ h ∈ m.handles, h.1 ∈ fids →
      ∀ path ∈ h.2, pathFrozen s.map path = true
  | .commit i now => ∀ fids ∈ s.job.copies, ∀ j ∈ s.muts[i]?, KeepsFrozenRows s now fids j

/-! ## The stream -/

section Copying

variable {root f : CatFileid} {fids : List CatFileid} {todo rest : Todo}
  {src src' dest dest' : MigCat} {now depth : ℕ}

/-- What holds while a subtree is streamed. The files that were seen are not recorded in the
state; they are those whose content has arrived. -/
structure Copying (root : CatFileid) (fids : List CatFileid) (todo : Todo) (src dest : MigCat) :
    Prop where
  plain : ∀ f ∈ fids, (src.rowsOf f).plain = true
  kids : ∀ f ∈ fids, ∀ d ∈ (src.rowsOf f).entries, d.childFileid ∈ fids
  either : ∀ f ∈ fids, (dest.contentOf f).Blank ∨ dest.contentOf f = (src.contentOf f).wired
  listed : ∀ x ∈ todo, x.1 ∈ fids
  explored : ∃ seen : CatFileid → Prop,
    (∀ f, seen f → f ∈ fids ∧ dest.contentOf f = (src.contentOf f).wired) ∧
      Explored (ChildOf src) root seen (todo.map Prod.fst)

theorem Copying.start {s} (h : ReadyToStream s fids) :
    Copying s.args.root fids [(s.args.root, 0)] s.src s.dest where
  plain := fun f hf => (h.2 f hf).1
  kids := fun f hf => (h.2 f hf).2.1
  either := fun f hf => .inl (blank_contentOf (h.2 f hf).2.2)
  listed := by
    intro x hx
    rw [mem_singleton.mp hx]
    exact h.1
  explored := ⟨fun _ => False, fun _ hf => hf.elim, Explored.start⟩

theorem ChildOf.entry {a b} (h : ChildOf src a b) :
    ∃ d ∈ (src.rowsOf a).entries, d.childFileid = b := by
  obtain ⟨n, _, hn⟩ := h
  obtain ⟨d, hd, htgt⟩ := map_eq_some_iff.mp hn
  rw [direntFind_eq_rowsOf] at hd
  exact ⟨d, mem_of_findKey hd, congrArg Prod.fst htgt⟩

theorem Copying.visit {c} (h : Copying root fids ((f, depth) :: rest) src dest)
    (hc : (src.rowsOf f).chunk fullRoom = some c)
    (happly : migrationApplyChunk now c.wired dest = (dest', true)) :
    Copying root fids ((c.dirents.map fun d => (d.2.1, depth + 1)) ++ rest) src dest' := by
  have hf : f ∈ fids := h.listed _ mem_cons_self
  have hcontent := contentOf_migrationApplyChunk (h.plain f hf) hc (h.either f hf) happly
  have hself : dest'.contentOf f = (src.contentOf f).wired := (hcontent f).trans (if_pos rfl)
  have hdirents := dirents_of_plain (h.plain f hf) hc
  obtain ⟨seen, hseen, hexp⟩ := h.explored
  refine ⟨h.plain, h.kids, fun g hg => ?_, fun x hx => ?_, fun x => seen x ∨ x = f, ?_, ?_⟩
  · by_cases hgf : g = f
    · exact .inr (hgf ▸ hself)
    · rw [hcontent g, if_neg hgf]
      exact h.either g hg
  · rcases List.mem_append.mp hx with hx | hx
    · rw [hdirents, List.map_map] at hx
      obtain ⟨d, hd, rfl⟩ := List.mem_map.mp hx
      exact h.kids f hf d hd
    · exact h.listed x (mem_cons_of_mem _ hx)
  · rintro g (hg | rfl)
    · refine ⟨(hseen g hg).1, ?_⟩
      by_cases hgf : g = f
      · exact hgf ▸ hself
      · rw [hcontent g, if_neg hgf]
        exact (hseen g hg).2
    · exact ⟨hf, hself⟩
  · rw [map_append]
    refine hexp.visit fun b hb => ?_
    obtain ⟨d, hd, rfl⟩ := hb.entry
    rw [hdirents, List.map_map, List.map_map]
    exact List.mem_map.mpr ⟨d, hd, rfl⟩

theorem Copying.congr (h : Copying root fids todo src dest)
    (hrows : ∀ f ∈ fids, src'.rowsOf f = src.rowsOf f) : Copying root fids todo src' dest := by
  have hcontent : ∀ f ∈ fids, src'.contentOf f = src.contentOf f :=
    fun f hf => contentOf_congr_rows (hrows f hf)
  obtain ⟨seen, hseen, hexp⟩ := h.explored
  refine ⟨fun f hf => ?_, fun f hf => ?_, fun f hf => ?_, h.listed, seen, fun f hf => ?_, ?_⟩
  · rw [hrows f hf]
    exact h.plain f hf
  · rw [hrows f hf]
    exact h.kids f hf
  · rw [hcontent f hf]
    exact h.either f hf
  · rw [hcontent f (hseen f hf).1]
    exact hseen f hf
  · refine hexp.congr fun a b ha hab => ?_
    rw [ChildOf, hcontent a (hseen a ha).1] at hab
    exact hab

theorem Copying.arrived (h : Copying root fids [] src dest) : Arrived root src dest := by
  obtain ⟨_, hseen, hexp⟩ := h.explored
  intro f hf
  exact (hseen f (hexp.complete hf)).2

end Copying

/-! ## The invariant -/

/-- The files still to be streamed. -/
def StreamJob.todo : StreamJob → Todo
  | .stream _ todo _ => todo
  | _ => []

/-- Whether a file could not be streamed. -/
def StreamJob.failed : StreamJob → Bool
  | .stream _ _ failed => failed
  | _ => false

/-- The invariant of a migration and the mutations beside it. -/
structure StreamInv (s : StreamSys) : Prop where
  /-- The collected fileids are registered. -/
  guarded : ∀ fids ∈ s.job.guards, ∀ f ∈ fids, f ∈ s.frozen
  /-- A check that has seen them has passed no handle to one of them. -/
  seen : ∀ j ∈ s.muts, ∀ fids ∈ j.seen, ∀ h ∈ j.mutation.handles, h.1 ∉ fids
  copying : ∀ fids ∈ s.job.copies, s.job.failed = false →
    Copying s.args.root fids s.job.todo s.src s.dest
  arrived : ∀ p ∈ s.handedOver, Arrived s.args.root p.1 p.2

section Steps

variable {s t : StreamSys}

variable {job : StreamJob} {cat : MigCat} {room : VisitRoom} {todo kids rest : Todo} {c : MigChunk}
  {fids : List CatFileid} {now : ℕ} {m : ClientMutation}

theorem StreamJob.copies_of_guards (h : job.guards = none) : job.copies = none := by
  cases job <;> first | rfl | cases h

/-- The migration goes to a place where it holds no frozen set. -/
theorem StreamInv.quiet (h : StreamInv s) (hjob : t.job.guards = none) (hmuts : t.muts = s.muts)
    (hargs : t.args = s.args) (hover : t.handedOver = s.handedOver) : StreamInv t where
  guarded := by simp [hjob]
  seen := hmuts ▸ h.seen
  copying := by simp [StreamJob.copies_of_guards hjob]
  arrived := by
    rw [hargs, hover]
    exact h.arrived

theorem StreamInv.moves (h : StreamInv s) {version} (hguards : job.guards = s.job.guards)
    (hcopying : ∀ fids ∈ job.copies, job.failed = false →
      Copying s.args.root fids job.todo s.src s.dest) : StreamInv { s with job, version } where
  guarded := by
    rw [hguards]
    exact h.guarded
  seen := h.seen
  copying := hcopying
  arrived := h.arrived

theorem nextVisit_file (h : nextVisit cat room todo = .file c kids rest) :
    ∃ f depth, todo = (f, depth) :: rest ∧ (cat.rowsOf f).chunk room = some c ∧
      kids = c.dirents.map fun d => (d.2.1, depth + 1) := by
  match todo, h with
  | (f, depth) :: todo, h =>
    rw [nextVisit] at h
    split at h
    · cases h
    · split at h <;> cases h
      next hc => exact ⟨f, depth, rfl, hc, rfl⟩

theorem nextVisit_done (h : nextVisit cat room todo = .done) : todo = [] := by
  match todo, h with
  | [], _ => rfl
  | (f, depth) :: todo, h =>
    rw [nextVisit] at h
    split at h
    · cases h
    · split at h <;> cases h

theorem StreamInv.streamed (h : StreamInv s) {failed} (hjob : s.job = .stream fids todo failed)
    (hvisit : nextVisit s.src fullRoom todo = .file c kids rest) : StreamInv { s with
      dest := (migrationApplyChunk now c.wired s.dest).1
      job := if (migrationApplyChunk now c.wired s.dest).2 then .stream fids (kids ++ rest) failed
        else .stream fids rest true } := by
  have hguarded : ∀ f ∈ fids, f ∈ s.frozen := h.guarded fids (by rw [hjob]; rfl)
  obtain ⟨f, _, rfl, hc, rfl⟩ := nextVisit_file hvisit
  cases hok : (migrationApplyChunk now c.wired s.dest).2 with
  | false =>
    refine ⟨?_, h.seen, fun _ _ hfailed => absurd hfailed (by simp [StreamJob.failed]), h.arrived⟩
    rintro _ ⟨⟩
    exact hguarded
  | true =>
    refine ⟨?_, h.seen, ?_, h.arrived⟩
    · rintro _ ⟨⟩
      exact hguarded
    · rintro _ ⟨⟩ hfailed
      have hbefore := h.copying fids (by rw [hjob]; rfl) (by rw [hjob]; exact hfailed)
      rw [hjob] at hbefore
      exact hbefore.visit hc (Prod.ext rfl hok)

theorem StreamInv.migrate (h : StreamInv s) {env} (hq : StreamQuiet s (.migrate env))
    (hst : streamStep s (.migrate env) = some t) : StreamInv t := by
  obtain ⟨hbegin, hroom⟩ := hq
  have hcopying := h.copying
  simp only [streamStep] at hst
  generalize hjob : s.job = job at hst hbegin hroom hcopying
  cases job <;> simp only [migrateStep] at hst
  case freezeFileids fids =>
    split at hst <;> cases hst
    · refine ⟨?_, h.seen, nofun, h.arrived⟩
      rintro _ ⟨⟩ f hf
      exact mem_append_right _ hf
    · exact h.quiet rfl rfl rfl rfl
  case sendBegin fids =>
    split at hst <;> cases hst
    · refine h.moves (by rw [hjob]; rfl) ?_
      rintro _ ⟨⟩ -
      exact .start (hbegin fids rfl)
    · exact h.quiet rfl rfl rfl rfl
  case stream fids todo failed =>
    rw [hroom rfl] at hst
    split at hst
    · cases hst
      exact h.quiet rfl rfl rfl rfl
    split at hst
    · cases hst
      exact h.quiet rfl rfl rfl rfl
    next hdone =>
      obtain rfl := nextVisit_done hdone
      split at hst <;> cases hst
      · exact h.quiet rfl rfl rfl rfl
      next hfailed =>
        refine h.moves (by rw [hjob]; rfl) ?_
        rintro _ ⟨⟩ -
        exact hcopying fids rfl (Bool.eq_false_iff.mpr hfailed)
    next hvisit =>
      split at hst <;> cases hst
      · exact h.moves (by rw [hjob]; rfl) fun _ _ hfailed =>
          absurd hfailed (by simp [StreamJob.failed])
      · exact h.streamed hjob hvisit
  case sendFinish fids =>
    split at hst <;> cases hst
    · exact h.moves (by rw [hjob]; rfl) hcopying
    · exact h.quiet rfl rfl rfl rfl
  case commitLookup fids =>
    split at hst <;> cases hst
    · exact h.quiet rfl rfl rfl rfl
    · exact h.moves (by rw [hjob]; rfl) hcopying
  case transfer fids =>
    split at hst <;> cases hst
    · exact h.quiet rfl rfl rfl rfl
    -- the hand-over, where the stream is complete
    refine ⟨nofun, h.seen, nofun, ?_⟩
    rintro _ ⟨⟩
    exact (hcopying fids rfl rfl).arrived
  -- The other accesses neither stream nor hand over.
  all_goals
    repeat' split at hst
    all_goals cases hst <;> exact h.quiet rfl rfl rfl rfl

theorem StreamInv.check (h : StreamInv s) (hq : StreamQuiet s (.check m))
    (hst : streamStep s (.check m) = some t) : StreamInv t := by
  simp only [streamStep] at hst
  split at hst <;> cases hst
  · exact h
  next hpass =>
    refine ⟨h.guarded, fun j hj => ?_, h.copying, h.arrived⟩
    rcases mem_append.mp hj with hj | hj
    · exact h.seen j hj
    · obtain rfl := mem_singleton.mp hj
      intro fids hfids fh hh hf
      refine hpass (any_eq_true.mpr ⟨fh, hh, ?_⟩)
      obtain ⟨f, _ | path⟩ := fh
      · exact decide_eq_true (h.guarded fids hfids f hf)
      · exact hq fids hfids _ hh hf path rfl

theorem StreamInv.commit (h : StreamInv s) {i} (hq : StreamQuiet s (.commit i now))
    (hst : streamStep s (.commit i now) = some t) : StreamInv t := by
  simp only [streamStep] at hst
  split at hst <;> cases hst
  next j hj =>
    have hmem : j ∈ s.muts := mem_of_getElem? hj
    refine ⟨h.guarded, fun j' hj' => h.seen j' (mem_of_mem_eraseIdx hj'), ?_, h.arrived⟩
    intro fids hfids hfailed
    refine (h.copying fids hfids hfailed).congr ?_
    rcases hq fids hfids j hj with ⟨hseen, hd, hhd, hin⟩ | hrows
    · exact absurd hin (h.seen j hmem fids hseen hd hhd)
    · exact hrows

theorem StreamInv.step (h : StreamInv s) {op} (hq : StreamQuiet s op)
    (hst : streamStep s op = some t) : StreamInv t := by
  cases op with
  | migrate => exact h.migrate hq hst
  | check => exact h.check hq hst
  | commit => exact h.commit hq hst

theorem streamInv_reachable (h : Reachable StreamStart streamStep StreamQuiet s) : StreamInv s := by
  refine h.invariant (P := StreamInv) ?_ fun s _ t hs hq hst => hs.step hq hst
  rintro s ⟨hjob, hmuts, hover⟩
  refine ⟨?_, ?_, ?_, ?_⟩
  · rw [hjob]
    nofun
  · rw [hmuts]
    nofun
  · rw [hjob]
    nofun
  · rw [hover]
    nofun

end Steps

/-! ## What the destination has -/

section Arrived

variable {root f : CatFileid} {src dest : MigCat}

theorem wired_eq_self_iff :
    (src.contentOf f).wired = src.contentOf f ↔ ∀ ino ∈ src.db.inodeFind f, ino.wired = ino := by
  constructor
  · intro h ino hino
    have heq : (src.db.inodeFind f).map MdsInode.wired = src.db.inodeFind f :=
      congrArg FileContent.inode h
    rw [mem_def.mp hino] at heq
    exact some.inj heq
  · intro h
    refine FileContent.ext ?_ rfl rfl rfl rfl
    show (src.db.inodeFind f).map MdsInode.wired = src.db.inodeFind f
    cases hino : src.db.inodeFind f with
    | none => rfl
    | some ino => exact congrArg some (h ino hino)

theorem Arrived.inSubtree_iff (h : Arrived root src dest) :
    InSubtree dest root f ↔ InSubtree src root f := by
  have hchild : ∀ a b, InSubtree src root a → (ChildOf dest a b ↔ ChildOf src a b) := by
    intro a b ha
    rw [ChildOf, h a ha]
    rfl
  constructor
  · intro hf
    induction hf with
    | refl => exact .refl
    | tail _ hstep ih => exact ih.tail ((hchild _ _ ih).mp hstep)
  · intro hf
    induction hf with
    | refl => exact .refl
    | tail hpath hstep ih => exact ih.tail ((hchild _ _ hpath).mpr hstep)

end Arrived

/-- In every run that keeps to the condition, the destination has the same files as the source
had at the hand-over, with the same entries, stripe maps, inline data and attributes; the
inodes are the same exactly where the fields that are not on the wire are zero. -/
theorem migration_arrives {s : StreamSys} {src dest : MigCat}
    (h : Reachable StreamStart streamStep StreamQuiet s) (hover : s.handedOver = some (src, dest)) :
    (∀ f, InSubtree dest s.args.root f ↔ InSubtree src s.args.root f) ∧
      (∀ f, InSubtree src s.args.root f → dest.contentOf f = (src.contentOf f).wired) ∧
      ((∀ f, InSubtree src s.args.root f → dest.contentOf f = src.contentOf f) ↔
        ∀ f, InSubtree src s.args.root f → ∀ ino ∈ src.db.inodeFind f, ino.wired = ino) := by
  have harr : Arrived s.args.root src dest := (streamInv_reachable h).arrived (src, dest) hover
  refine ⟨fun f => harr.inSubtree_iff, harr, ?_⟩
  constructor
  · intro heq f hf
    refine wired_eq_self_iff.mp ?_
    rw [← harr f hf]
    exact heq f hf
  · intro heq f hf
    rw [harr f hf]
    exact wired_eq_self_iff.mpr (heq f hf)

instance (s : StreamSys) (op : StreamOp) : Decidable (StreamQuiet s op) := by
  cases op <;> unfold StreamQuiet <;> infer_instance

/-- Node 1 owns everything and is about to hand it to node 2, which has nothing yet. -/
def streamExample : StreamSys where
  args := { selfId := 1, path := rootPath, root := fileidRoot, destId := 2 }
  map := [{ path := rootPath, ownerMdsId := 1, version := 1, state := .active, partitionId := 0,
            pmBacked := false }]
  frozen := []
  src := { db := memdbNew 0, inlines := [], xattrs := [] }
  dest := { db := { memdbNew 0 with inodes := [] }, inlines := [], xattrs := [] }
  job := .lookup
  version := 0
  muts := []
  handedOver := none

/-- A migration that meets no failure. -/
def smooth : StreamOp :=
  .migrate { ok := true, roleOk := true, visitOk := true, room := fullRoom, now := 1 }

/-- A CREATE in the root directory by a client that has only the handle. -/
def createByHandle : ClientMutation where
  call := .ns (.create
    { parent := fileidRoot, name := [97], type := .reg, mode := 0, uid := 0, gid := 0 })
  currentPath := none
  savedPath := none

/-- The same node with a file in the root directory. -/
def oneFileExample : StreamSys :=
  { streamExample with src := createByHandle.call.run 1 streamExample.src }

/-- A run in which another CREATE comes after the freeze and is refused. -/
def streamQuietRun : List StreamOp :=
  [smooth, smooth, smooth, smooth, smooth, smooth, .check createByHandle, smooth, smooth, smooth,
    smooth, smooth, smooth, smooth]

theorem migration_arrives_refusing : ∃ s src dest, exec streamStep oneFileExample streamQuietRun =
    some s ∧ s.handedOver = some (src, dest) ∧ dest.contentOf 3 = (src.contentOf 3).wired ∧
      ((∀ f, InSubtree src fileidRoot f → dest.contentOf f = src.contentOf f) ↔
        ∀ f, InSubtree src fileidRoot f → ∀ ino ∈ src.db.inodeFind f, ino.wired = ino) := by
  have hreach : Reachable StreamStart streamStep StreamQuiet _ :=
    .run oneFileExample streamQuietRun ⟨rfl, rfl, rfl⟩
  obtain ⟨-, hwired, hequal⟩ := migration_arrives hreach rfl
  exact ⟨_, _, _, rfl, rfl, hwired 3 (.single ⟨[97], .reg, rfl⟩), hequal⟩

/-- The CREATE has looked before the freeze and commits after its directory was streamed. -/
def lostCreateRun : List StreamOp :=
  [.check createByHandle, smooth, smooth, smooth, smooth, smooth, smooth, smooth, .commit 0 1,
    smooth, smooth, smooth, smooth, smooth, smooth, smooth, smooth]

/-- The migration returns MDS_OK, and the file that was created and acknowledged before the
hand-over is not at the destination. -/
theorem migration_loses_create : ∃ s src dest,
    exec streamStep streamExample lostCreateRun = some s ∧ s.job = .returned true ∧
      s.handedOver = some (src, dest) ∧
      (src.contentOf fileidRoot).entry [97] = some (3, .reg) ∧
      (dest.contentOf fileidRoot).entry [97] = none :=
  ⟨_, _, _, rfl, rfl, rfl, rfl, rfl⟩

end PnfsLattice
