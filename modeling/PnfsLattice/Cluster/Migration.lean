import Mathlib.Order.Nat
import PnfsLattice.Cluster.SubtreeMap
import PnfsLattice.Lib.Machine

/-!
# Migrations and refreshes of the subtree map

A migration freezes its subtree and hands it over in the map of the source node only, guarded
by the version of the entry. A refresh writes owner, state and version of every entry from
the partition table. The one knows nothing of the other.
-/

namespace PnfsLattice

open Lib List Option

/-- A version that was read, and whether the entry's owner or state has changed since; the
flag is for the statement only. -/
structure ReadVersion where
  version : ℕ
  changed : Bool
  deriving DecidableEq

/-- The part of `migration_initiate` between freeze and commit that does not touch the map. -/
inductive MigStage
  | collect
  | freezeFileids
  | sendBegin
  | stream
  | sendFinish
  deriving DecidableEq

/-- The stage after this one; the last one is followed by the commit. -/
def MigStage.next : MigStage → Option MigStage
  | .collect => some .freezeFileids
  | .freezeFileids => some .sendBegin
  | .sendBegin => some .stream
  | .stream => some .sendFinish
  | .sendFinish => none

/-- The next access of a job to the map. -/
inductive MapJob
  /-- A caller has looked the entry up and is about to write it. -/
  | held (path : SubtreePath) (v : ReadVersion)
  -- `migration_initiate`
  | lookup (path : SubtreePath) (dest : MdsId)
  | freeze (path : SubtreePath) (dest : MdsId) (v : ReadVersion)
  | frozen (path : SubtreePath) (dest : MdsId) (stage : MigStage) (v : ReadVersion)
  | rollbackLookup (path : SubtreePath) (v : ReadVersion)
  | rollbackSet (path : SubtreePath) (v : ReadVersion)
  | commitLookup (path : SubtreePath) (dest : MdsId)
  | precheck (path : SubtreePath) (dest : MdsId) (v : ReadVersion)
  | transfer (path : SubtreePath) (dest : MdsId) (v : ReadVersion)
  | activeLookup (path : SubtreePath)
  | activeSet (path : SubtreePath) (v : ReadVersion)
  -- `subtree_map_refresh_from_catalogue`
  | list (cursor : ℕ)
  | load (page : List PartitionRow) (cursor : ℕ)
  | returned
  deriving DecidableEq

/-- The version that a job has read, and of which path. -/
def MapJob.reads : MapJob → Option (SubtreePath × ReadVersion)
  | .held path v | .freeze path _ v | .frozen path _ _ v | .rollbackLookup path v
  | .rollbackSet path v | .precheck path _ v | .transfer path _ v
  | .activeSet path v => some (path, v)
  | _ => none

def MapJob.raise : MapJob → MapJob
  | .held path v => .held path { v with changed := true }
  | .freeze path dest v => .freeze path dest { v with changed := true }
  | .frozen path dest stage v => .frozen path dest stage { v with changed := true }
  | .rollbackLookup path v => .rollbackLookup path { v with changed := true }
  | .rollbackSet path v => .rollbackSet path { v with changed := true }
  | .precheck path dest v => .precheck path dest { v with changed := true }
  | .transfer path dest v => .transfer path dest { v with changed := true }
  | .activeSet path v => .activeSet path { v with changed := true }
  | job => job

/-- The path that a migration has frozen and has neither handed over nor thawed. -/
def MapJob.freezes : MapJob → Option SubtreePath
  | .frozen path _ _ _ | .rollbackLookup path _ | .rollbackSet path _ | .commitLookup path _
  | .precheck path _ _ | .transfer path _ _ => some path
  | _ => none

/-- Owner and state as a lookup sees them. -/
def ownerState (map : List SubtreeEntry) (path : SubtreePath) : Option (MdsId × SubtreeState) :=
  (subtreeMapLookup map path).map fun e => (e.ownerMdsId, e.state)

/-- The job after the map has changed. -/
def MapJob.note (old new : List SubtreeEntry) (job : MapJob) : MapJob :=
  if job.reads.any fun r => ownerState old r.1 ≠ ownerState new r.1 then job.raise else job

/-- The map of a node with id `selfId`, the table behind it and the jobs. For the statement:
`committed` are the hand-overs that no explicit change of the owner has followed, `reused`
tells that a write has succeeded with the version of an entry that had changed since. -/
structure MapSys where
  selfId : MdsId
  rows : List PartitionRow
  map : List SubtreeEntry
  jobs : List MapJob
  committed : List (SubtreePath × MdsId)
  reused : Bool

/-- What the membership, the allocator and the transport answer. -/
structure MapEnv where
  roleOk : Bool
  grow : Bool
  ok : Bool

namespace MapSys

/-- The job has come to another access. -/
def goto (s : MapSys) (j : ℕ) (job : MapJob) : MapSys := { s with jobs := s.jobs.set j job }

def store (s : MapSys) (map : List SubtreeEntry) : MapSys :=
  { s with map, jobs := s.jobs.map (MapJob.note s.map map) }

/-- A write with a version has succeeded. -/
def spend (s : MapSys) (v : ReadVersion) : MapSys := { s with reused := s.reused || v.changed }

/-- The owner of a path is changed explicitly. -/
def release (s : MapSys) (path : SubtreePath) : MapSys :=
  { s with committed := eraseKey Prod.fst path s.committed }

/-- A migration hands a path over. -/
def commit (s : MapSys) (path : SubtreePath) (dest : MdsId) : MapSys :=
  { s with committed := upsert Prod.fst (path, dest) s.committed }

end MapSys

/-- The next access of `migration_initiate` or of a refresh. -/
def mapJobStep (s : MapSys) (j : ℕ) (env : MapEnv) : MapJob → Option MapSys
  | .held _ _ => none
  | .lookup path dest =>
    match subtreeMapLookup s.map path with
    | none => some (s.goto j .returned)
    | some e =>
      if e.ownerMdsId ≠ s.selfId || e.state ≠ .active then some (s.goto j .returned)
      else some (s.goto j (.freeze path dest ⟨e.version, false⟩))
  | .freeze path dest v =>
    match subtreeMapSetState path .migrating v.version s.map with
    | .error _ => some (s.goto j .returned)
    | .ok map => some (((s.store map).spend v).goto j (.frozen path dest .collect v))
  | .frozen path dest stage v =>
    if !env.ok then some (s.goto j (.rollbackLookup path v))
    else match stage.next with
      | some stage => some (s.goto j (.frozen path dest stage v))
      | none => some (s.goto j (.commitLookup path dest))
  | .rollbackLookup path v =>
    match subtreeMapLookup s.map path with
    | none => some (s.goto j (.rollbackSet path v))
    | some e => some (s.goto j (.rollbackSet path ⟨e.version, false⟩))
  | .rollbackSet path v =>
    match subtreeMapSetState path .active v.version s.map with
    | .error _ => some (s.goto j .returned)
    | .ok map => some (((s.store map).spend v).goto j .returned)
  | .commitLookup path dest =>
    match subtreeMapLookup s.map path with
    | none => some (s.goto j .returned)
    | some e => some (s.goto j (.precheck path dest ⟨e.version, false⟩))
  | .precheck path dest v =>
    if transferPrecheck path s.map then some (s.goto j (.transfer path dest v))
    else some (s.goto j .returned)
  | .transfer path dest v =>
    match transferOwnerIfMigrating env.roleOk path dest v.version s.map with
    | .error _ => some (s.goto j .returned)
    | .ok map => some ((((s.store map).spend v).commit path dest).goto j (.activeLookup path))
  | .activeLookup path =>
    match subtreeMapLookup s.map path with
    | none => some (s.goto j .returned)
    | some e => some (s.goto j (.activeSet path ⟨e.version, false⟩))
  | .activeSet path v =>
    match subtreeMapSetState path .active v.version s.map with
    | .error _ => some (s.goto j .returned)
    | .ok map => some (((s.store map).spend v).goto j .returned)
  | .list cursor =>
    if memdbMaxPartitions ≤ cursor then some (s.goto j .returned)
    else
      let page := memPartitionPage cursor s.rows
      some (s.goto j (.load page.1 page.2))
  | .load [] cursor => some (s.goto j (.list cursor))
  | .load (row :: page) cursor =>
    some ((s.store (pmLoad row env.grow s.map)).goto j (.load page cursor))
  | .returned => none

/-- What happens next. -/
inductive MapOp
  /-- `migration_initiate` is called. -/
  | migrate (path : SubtreePath) (dest : MdsId)
  /-- `subtree_map_refresh_from_catalogue` is called. -/
  | refresh
  /-- A caller looks an entry up. -/
  | read (path : SubtreePath)
  /-- A caller that has looked an entry up writes it. -/
  | setOwner (j : ℕ) (new : MdsId) (roleOk : Bool)
  | setState (j : ℕ) (state : SubtreeState)
  | transferOwner (j : ℕ) (new : MdsId) (roleOk : Bool)
  /-- A job goes on. -/
  | job (j : ℕ) (env : MapEnv)

/-- A caller's write; it is done whether or not it succeeds. -/
def callerWrite (s : MapSys) (j : ℕ) (owner : Bool)
    (write : SubtreePath → ℕ → Except MdsStatus (List SubtreeEntry)) : Option MapSys :=
  match s.jobs[j]? with
  | some (.held path v) =>
    match write path v.version with
    | .error _ => some (s.goto j .returned)
    | .ok map =>
      let s := (s.store map).spend v
      some ((if owner then s.release path else s).goto j .returned)
  | _ => none

def mapStep (s : MapSys) : MapOp → Option MapSys
  | .migrate path dest => some { s with jobs := s.jobs ++ [.lookup path dest] }
  | .refresh => some { s with jobs := s.jobs ++ [.list 0] }
  | .read path =>
    (findExact s.map path).map fun e =>
      { s with jobs := s.jobs ++ [.held path ⟨e.version, false⟩] }
  | .setOwner j new roleOk =>
    callerWrite s j true fun path v => subtreeMapSetOwner roleOk path new v s.map
  | .setState j state => callerWrite s j false fun path v => subtreeMapSetState path state v s.map
  | .transferOwner j new roleOk => callerWrite s j true fun path v =>
    if transferPrecheck path s.map then transferOwnerIfMigrating roleOk path new v s.map
    else .error .inval
  | .job j env => s.jobs[j]?.bind (mapJobStep s j env)

/-- No job yet; the map and the table are whatever they are. -/
def MapStart (s : MapSys) : Prop := s.jobs = [] ∧ s.committed = [] ∧ s.reused = false

/-! ## The property -/

/-- A lookup of a frozen subtree returns that it is migrating. -/
def FrozenMigrating (s : MapSys) : Prop :=
  ∀ job ∈ s.jobs, ∀ path, job.freezes = some path →
    (subtreeMapLookup s.map path).map SubtreeEntry.state = some .migrating

/-- A lookup of a subtree that was handed over returns the destination. -/
def CommittedStays (s : MapSys) : Prop :=
  ∀ c ∈ s.committed, (subtreeMapLookup s.map c.1).map SubtreeEntry.ownerMdsId = some c.2

/-- No write succeeds with a version read before the entry changed. -/
def NoVersionReuse (s : MapSys) : Prop := s.reused = false

/-! ## The condition -/

/-- A write of the state by job `j` thaws nothing that another job has frozen. -/
def MapSys.sparesFrozen (s : MapSys) (j : ℕ) (path : SubtreePath) (state : SubtreeState) : Prop :=
  state = .migrating ∨
    ∀ i < s.jobs.length, i ≠ j → ∀ job ∈ s.jobs[i]?, job.freezes ≠ some path

instance (s : MapSys) (j : ℕ) (path : SubtreePath) (state : SubtreeState) :
    Decidable (s.sparesFrozen j path state) :=
  inferInstanceAs (Decidable (_ ∨ ∀ i < s.jobs.length, i ≠ j → ∀ job ∈ s.jobs[i]?, _ ≠ _))

/-- If the entry has the expected version, it can be counted up. -/
def versionRoom (map : List SubtreeEntry) (path : SubtreePath) (expected : ℕ) : Prop :=
  ∀ e ∈ findExact map path, e.version = expected → e.version + 1 < 18446744073709551616
deriving Decidable

/-- Loading the row leaves the entry as it is, or nobody has read its version or frozen it and
it has not been handed over to another node. -/
def MapSys.loadsSafely (s : MapSys) (row : PartitionRow) : Prop :=
  (∃ e ∈ findExact s.map row.subtreePath,
    e.ownerMdsId = row.ownerMdsId ∧ e.state = row.state ∧ e.version = 1) ∨
  (∀ job ∈ s.jobs, (∀ r ∈ job.reads, r.1 ≠ row.subtreePath) ∧ job.freezes ≠ some row.subtreePath) ∧
  ∀ c ∈ s.committed, c.1 = row.subtreePath → c.2 = row.ownerMdsId
deriving Decidable

/-- The row that a refresh is about to load. -/
def MapJob.loads : MapJob → Option PartitionRow
  | .load (row :: _) _ => some row
  | _ => none

/-- The state that a migration is about to set, and where. -/
def MapJob.sets : MapJob → Option (SubtreePath × SubtreeState)
  | .freeze path _ _ => some (path, .migrating)
  | .rollbackSet path _ | .activeSet path _ => some (path, .active)
  | _ => none

/-- The condition on a job's step. -/
def MapJob.undisturbed (s : MapSys) (j : ℕ) (job : MapJob) : Prop :=
  (∀ row ∈ job.loads, s.loadsSafely row) ∧ (∀ w ∈ job.sets, s.sparesFrozen j w.1 w.2) ∧
    ∀ r ∈ job.reads, versionRoom s.map r.1 r.2.version
deriving Decidable

/-- Refreshes load safely, nobody thaws a subtree that a migration has frozen, versions do not
wrap, and subtrees have absolute paths. -/
def Undisturbed (s : MapSys) : MapOp → Prop
  | .migrate path _ => path.head? = some 47
  | .refresh => True
  | .read path => path.head? = some 47
  | .setOwner j _ _ => ∀ job ∈ s.jobs[j]?, ∀ r ∈ job.reads, versionRoom s.map r.1 r.2.version
  | .setState j state => ∀ job ∈ s.jobs[j]?, ∀ r ∈ job.reads,
      versionRoom s.map r.1 r.2.version ∧ s.sparesFrozen j r.1 state
  | .transferOwner j _ _ => ∀ job ∈ s.jobs[j]?, ∀ r ∈ job.reads, versionRoom s.map r.1 r.2.version
  | .job j _ => ∀ job ∈ s.jobs[j]?, job.undisturbed s j

instance (s : MapSys) (op : MapOp) : Decidable (Undisturbed s op) := by
  cases op <;> unfold Undisturbed <;> infer_instance

/-! ## The invariant -/

def MapJob.path : MapJob → Option SubtreePath
  | .held path _ | .lookup path _ | .freeze path _ _ | .frozen path _ _ _ | .rollbackLookup path _
  | .rollbackSet path _ | .commitLookup path _ | .precheck path _ _ | .transfer path _ _
  | .activeLookup path | .activeSet path _ => some path
  | .list _ | .load _ _ | .returned => none

/-- A version that was read is not ahead of the entry, and behind it if the entry changed. -/
def VersionOk (map : List SubtreeEntry) (path : SubtreePath) (v : ReadVersion) : Prop :=
  ∀ e, findExact map path = some e →
    v.version ≤ e.version ∧ (v.changed = true → v.version < e.version)

structure MapJobOk (map : List SubtreeEntry) (job : MapJob) : Prop where
  absolute : ∀ path, job.path = some path → path.head? = some 47
  reads : ∀ path v, job.reads = some (path, v) → VersionOk map path v
  frozen : ∀ path, job.freezes = some path →
    ∃ e, findExact map path = some e ∧ e.state = .migrating

/-- The invariant of migrations. -/
structure MapInv (s : MapSys) : Prop where
  jobs : ∀ job ∈ s.jobs, MapJobOk s.map job
  committed : ∀ c ∈ s.committed, c.1.head? = some 47 ∧
    ∃ e, findExact s.map c.1 = some e ∧ e.ownerMdsId = c.2
  fresh : s.reused = false

section Note

variable {old new : List SubtreeEntry}

theorem MapJob.path_note (job : MapJob) : (job.note old new).path = job.path := by
  unfold MapJob.note
  split
  · cases job <;> rfl
  · rfl

theorem MapJob.freezes_note (job : MapJob) : (job.note old new).freezes = job.freezes := by
  unfold MapJob.note
  split
  · cases job <;> rfl
  · rfl

theorem MapJob.reads_note {job : MapJob} {path : SubtreePath} {v : ReadVersion}
    (h : (job.note old new).reads = some (path, v)) :
    ∃ w, job.reads = some (path, w) ∧ v.version = w.version ∧
      (v.changed = true → w.changed = true ∨ ownerState old path ≠ ownerState new path) := by
  unfold MapJob.note at h
  split at h
  next hdiff =>
    have hread : ∃ w, job.reads = some (path, w) ∧ v.version = w.version := by
      cases job <;> cases h <;> exact ⟨_, rfl, rfl⟩
    obtain ⟨w, hw, hv⟩ := hread
    refine ⟨w, hw, hv, fun _ => .inr ?_⟩
    rw [hw] at hdiff
    simpa using hdiff
  next => exact ⟨v, h, rfl, .inl⟩

end Note

section Inv

variable {s : MapSys} {j : ℕ} {job : MapJob} {path : SubtreePath} {v : ReadVersion}

theorem MapInv.goto (h : MapInv s) (hjob : MapJobOk s.map job) : MapInv (s.goto j job) :=
  { h with jobs := forall_mem_set h.jobs hjob }

theorem MapJobOk.returned (map : List SubtreeEntry) : MapJobOk map .returned :=
  ⟨nofun, nofun, nofun⟩

theorem MapInv.returned (h : MapInv s) (j : ℕ) : MapInv (s.goto j .returned) :=
  h.goto (.returned s.map)

theorem MapInv.spawn (h : MapInv s) (hjob : MapJobOk s.map job) :
    MapInv { s with jobs := s.jobs ++ [job] } :=
  { h with jobs := forall_mem_append.mpr ⟨h.jobs, forall_mem_singleton.mpr hjob⟩ }

variable {map : List SubtreeEntry} {e e' : SubtreeEntry}

/-- A change of the map that counts up where owner or state of an entry change that a job has
read. -/
theorem MapInv.store (h : MapInv s) (hreads : ∀ job ∈ s.jobs, ∀ path v, job.reads = some (path, v) →
      ∀ e', findExact map path = some e' → ∃ e, findExact s.map path = some e ∧
        e.version ≤ e'.version ∧
        ((e'.ownerMdsId, e'.state) ≠ (e.ownerMdsId, e.state) → e.version < e'.version))
    (hfrozen : ∀ job ∈ s.jobs, ∀ path, job.freezes = some path →
      ∃ e, findExact map path = some e ∧ e.state = .migrating)
    (hcommitted : ∀ c ∈ s.committed, ∃ e, findExact map c.1 = some e ∧ e.ownerMdsId = c.2) :
    MapInv (s.store map) := by
  refine ⟨fun a ha => ?_, fun c hc => ⟨(h.committed c hc).1, hcommitted c hc⟩, h.fresh⟩
  obtain ⟨job, hjob, rfl⟩ := mem_map.mp ha
  have hold := h.jobs job hjob
  refine ⟨?_, ?_, ?_⟩
  · rw [job.path_note]
    exact hold.absolute
  · intro path v hv e' he'
    replace he' : findExact map path = some e' := he'
    obtain ⟨w, hw, hversion, hchanged⟩ := MapJob.reads_note hv
    have habs : path.head? = some 47 := by
      refine hold.absolute path ?_
      cases job <;> cases hw <;> rfl
    obtain ⟨e, he, hle, hlt⟩ := hreads job hjob path w hw e' he'
    obtain ⟨hwle, hwlt⟩ := hold.reads path w hw e he
    rw [hversion]
    refine ⟨hwle.trans hle, fun hraised => ?_⟩
    rcases hchanged hraised with hw' | hdiff
    · exact (hwlt hw').trans_le hle
    · refine hwle.trans_lt (hlt fun heq => hdiff ?_)
      unfold ownerState
      rw [subtreeMapLookup_of_findExact habs he, subtreeMapLookup_of_findExact habs he',
        map_some, map_some, heq]
  · intro path hp
    rw [job.freezes_note] at hp
    exact hfrozen job hjob path hp

theorem MapInv.write (h : MapInv s) {expected} (hw : VersionedWrite path expected s.map map e e')
    (hroom : versionRoom s.map path expected)
    (hfrozen : ∀ job ∈ s.jobs, job.freezes = some path → e'.state = .migrating)
    (hcommitted : ∀ c ∈ s.committed, c.1 = path → e'.ownerMdsId = c.2) : MapInv (s.store map) := by
  have hlt : e.version < e'.version := by
    have hroom' := hroom e hw.found hw.version
    rw [hw.next, nextVersion, Nat.mod_eq_of_lt hroom']
    exact Nat.lt_succ_self _
  refine h.store ?_ ?_ ?_
  · intro job _ k v _ d hd
    rw [hw.written k] at hd
    by_cases hk : k = path
    · rw [if_pos hk] at hd
      cases hd
      exact ⟨e, hk ▸ hw.found, hlt.le, fun _ => hlt⟩
    · rw [if_neg hk] at hd
      exact ⟨d, hd, le_rfl, fun hne => absurd rfl hne⟩
  · intro job hjob k hk
    rw [hw.written k]
    by_cases hkp : k = path
    · rw [if_pos hkp]
      exact ⟨e', rfl, hfrozen job hjob (hkp ▸ hk)⟩
    · rw [if_neg hkp]
      exact (h.jobs job hjob).frozen k hk
  · intro c hc
    rw [hw.written c.1]
    by_cases hcp : c.1 = path
    · rw [if_pos hcp]
      exact ⟨e', rfl, hcommitted c hc hcp⟩
    · rw [if_neg hcp]
      exact (h.committed c hc).2

theorem MapInv.load (h : MapInv s) {row} (grow : Bool) (hok : s.loadsSafely row) :
    MapInv (s.store (pmLoad row grow s.map)) := by
  have hload := fun k => findExact_pmLoad row grow s.map k
  refine h.store (fun job hjob k v hv e' he' => ?_) (fun job hjob k hk => ?_) (fun c hc => ?_)
  · rcases hload k with hsame | ⟨rfl, d, hd, howner, hstate, hversion, -⟩
    · exact ⟨e', hsame.symm.trans he', le_rfl, fun hne => absurd rfl hne⟩
    · cases mem_unique hd he'
      rcases hok with ⟨e, he, ho, hs, h1⟩ | ⟨hidle, -⟩
      · refine ⟨e, he, (h1.trans hversion.symm).le, fun hne => absurd ?_ hne⟩
        rw [howner, hstate, ho, hs]
      · exact absurd rfl ((hidle job hjob).1 (_, v) hv)
  · obtain ⟨e, he, hst⟩ := (h.jobs job hjob).frozen k hk
    rcases hload k with hsame | ⟨rfl, d, hd, -, hstate, -⟩
    · exact ⟨e, hsame.trans he, hst⟩
    · rcases hok with ⟨e', he', -, hs, -⟩ | ⟨hidle, -⟩
      · cases mem_unique he' he
        exact ⟨d, hd, (hstate.trans hs.symm).trans hst⟩
      · exact absurd hk (hidle job hjob).2
  · obtain ⟨e, he, hown⟩ := (h.committed c hc).2
    rcases hload c.1 with hsame | ⟨hk, d, hd, howner, -⟩
    · exact ⟨e, hsame.trans he, hown⟩
    rcases hok with ⟨_, he', ho, -⟩ | ⟨-, hcommitted⟩
    · rw [← hk] at he'
      cases mem_unique he' he
      exact ⟨d, hd, (howner.trans ho.symm).trans hown⟩
    · exact ⟨d, hd, howner.trans (hcommitted c hc hk).symm⟩

/-- A version that was accepted is that of an unchanged entry. -/
theorem MapInv.spend (h : MapInv s) (hv : v.changed = false) : MapInv (s.spend v) := by
  refine ⟨h.jobs, h.committed, ?_⟩
  rw [MapSys.spend, h.fresh, hv]
  rfl

theorem VersionOk.unchanged {map'} (h : VersionOk map path v)
    (hw : VersionedWrite path v.version map map' e e') : v.changed = false := by
  cases hc : v.changed with
  | false => rfl
  | true =>
    have hlt := (h e hw.found).2 hc
    rw [hw.version] at hlt
    exact absurd hlt (lt_irrefl _)

theorem MapInv.release (h : MapInv s) (path : SubtreePath) : MapInv (s.release path) :=
  ⟨h.jobs, fun c hc => h.committed c (mem_eraseKey.mp hc).1, h.fresh⟩

/-- A job's write of the map, after which it is at `new`. Only the other jobs' subtrees must
stay frozen. -/
theorem MapInv.writeGoto (h : MapInv s) {new} (hw : VersionedWrite path v.version s.map map e e')
    (hok : VersionOk s.map path v) (hroom : versionRoom s.map path v.version)
    (hfrozen : ∀ a ∈ (s.goto j .returned).jobs, a.freezes = some path → e'.state = .migrating)
    (hcommitted : ∀ c ∈ s.committed, c.1 = path → e'.ownerMdsId = c.2) (hnew : MapJobOk map new) :
    MapInv (((s.store map).spend v).goto j new) := by
  have hwritten := ((h.returned j).write hw hroom hfrozen hcommitted).spend (hok.unchanged hw)
  have hgoto := hwritten.goto (j := j) hnew
  simpa only [MapSys.spend, MapSys.store, MapSys.goto, map_set, set_set] using hgoto

theorem MapInv.committed_owner (h : MapInv s) (he : findExact s.map path = some e) :
    ∀ c ∈ s.committed, c.1 = path → e.ownerMdsId = c.2 := by
  rintro c hc rfl
  obtain ⟨-, d, hd, hown⟩ := h.committed c hc
  cases mem_unique hd he
  exact hown

theorem MapSys.sparesFrozen.state {state} (h : s.sparesFrozen j path state) (a : MapJob)
    (ha : a ∈ (s.goto j .returned).jobs) (hp : a.freezes = some path) : state = .migrating := by
  rcases h with h | h
  · exact h
  obtain ⟨i, hget⟩ := mem_iff_getElem?.mp ha
  rw [MapSys.goto, List.getElem?_set] at hget
  split at hget
  · split at hget <;> cases hget
    cases hp
  next hij =>
    have hlt : i < s.jobs.length := (List.getElem?_eq_some_iff.mp hget).1
    exact absurd hp (h i hlt (fun he => hij he.symm) a hget)

end Inv

/-! ## Every step keeps the invariant -/

section Step

variable {s t : MapSys} {j : ℕ} {env : MapEnv} {job : MapJob} {path : SubtreePath}
  {v : ReadVersion}

variable {e : SubtreeEntry}

theorem VersionOk.of_lookup {map} (habs : path.head? = some 47)
    (h : subtreeMapLookup map path = some e) : VersionOk map path ⟨e.version, false⟩ := by
  intro d hd
  cases some.inj ((subtreeMapLookup_of_findExact habs hd).symm.trans h)
  exact ⟨le_rfl, nofun⟩

theorem VersionedWrite.versionOk {map map' e' n} (hw : VersionedWrite path n map map' e e')
    (hroom : versionRoom map path n) (hn : v.version = n) : VersionOk map' path v := by
  intro d hd
  rw [hw.written, if_pos rfl] at hd
  cases hd
  have hlt : v.version < e'.version := by
    rw [hw.next, nextVersion, Nat.mod_eq_of_lt (hroom e hw.found hw.version), hn, hw.version]
    exact Nat.lt_succ_self _
  exact ⟨hlt.le, fun _ => hlt⟩

theorem MapInv.frozen_of_goto (h : MapInv s) (he : findExact s.map path = some e) (a : MapJob)
    (ha : a ∈ (s.goto j .returned).jobs) (hp : a.freezes = some path) : e.state = .migrating := by
  rcases mem_or_eq_of_mem_set ha with ha | rfl
  · obtain ⟨d, hd, hst⟩ := (h.jobs a ha).frozen path hp
    cases mem_unique hd he
    exact hst
  · cases hp

theorem MapInv.jobStep (h : MapInv s) (hj : s.jobs[j]? = some job) (hok : job.undisturbed s j)
    (hst : mapJobStep s j env job = some t) : MapInv t := by
  have hjob := h.jobs job (mem_of_getElem? hj)
  cases job <;> simp only [mapJobStep] at hst
  case held path v => cases hst
  case lookup path dest =>
    have habs := hjob.absolute path rfl
    split at hst
    next =>
      cases hst
      exact h.returned j
    next he =>
      split at hst <;> cases hst
      · exact h.returned j
      · refine h.goto ⟨hjob.absolute, ?_, nofun⟩
        rintro path v ⟨⟩
        exact .of_lookup habs he
  case freeze path dest v =>
    split at hst <;> cases hst
    · exact h.returned j
    next hset =>
      obtain ⟨e, hw⟩ := subtreeMapSetState_ok hset
      have hroom := hok.2.2 _ rfl
      refine h.writeGoto hw (hjob.reads path v rfl) hroom (fun _ _ _ => rfl)
        (h.committed_owner (e := e) hw.found) ⟨hjob.absolute, ?_, ?_⟩
      · rintro _ _ ⟨⟩
        exact hw.versionOk hroom rfl
      · rintro _ ⟨⟩
        exact ⟨_, (hw.written path).trans (if_pos rfl), rfl⟩
  case frozen path dest stage v =>
    split at hst
    · cases hst
      exact h.goto { hjob with }
    · split at hst <;> cases hst
      · exact h.goto { hjob with }
      · exact h.goto { hjob with reads := nofun }
  case rollbackLookup path v =>
    have habs := hjob.absolute path rfl
    split at hst <;> cases hst
    · exact h.goto { hjob with }
    next he =>
      refine h.goto { hjob with reads := ?_ }
      rintro path v ⟨⟩
      exact .of_lookup habs he
  case rollbackSet path v | activeSet path v =>
    split at hst <;> cases hst
    · exact h.returned j
    next map hset =>
      obtain ⟨e, hw⟩ := subtreeMapSetState_ok hset
      exact h.writeGoto hw (hjob.reads path v rfl) (hok.2.2 _ rfl)
        (hok.2.1 _ rfl).state (h.committed_owner (e := e) hw.found) (.returned map)
  case commitLookup path dest | activeLookup path =>
    have habs := hjob.absolute path rfl
    split at hst <;> cases hst
    · exact h.returned j
    next he =>
      refine h.goto { hjob with reads := ?_ }
      rintro path v ⟨⟩
      exact .of_lookup habs he
  case precheck path dest v =>
    split at hst <;> cases hst
    · exact h.goto { hjob with }
    · exact h.returned j
  case transfer path dest v =>
    split at hst <;> cases hst
    · exact h.returned j
    next map hset =>
      obtain ⟨e, -, hw⟩ := transferOwnerIfMigrating_ok hset
      have hreleased : MapInv ((((s.release path).store map).spend v).goto j
          (.activeLookup path)) := by
        exact (h.release path).writeGoto hw (hjob.reads path v rfl) (hok.2.2 _ rfl)
          (h.frozen_of_goto (e := e) hw.found) (fun c hc hcp => absurd hcp (mem_eraseKey.mp hc).2)
          ⟨hjob.absolute, nofun, nofun⟩
      refine ⟨hreleased.jobs, fun c hc => ?_, hreleased.fresh⟩
      rcases mem_upsert.mp hc with rfl | ⟨hc, hne⟩
      · exact ⟨hjob.absolute path rfl, _, (hw.written path).trans (if_pos rfl), rfl⟩
      · exact hreleased.committed c (mem_eraseKey.mpr ⟨hc, hne⟩)
  case list cursor =>
    split at hst <;> cases hst
    · exact h.returned j
    · exact h.goto ⟨nofun, nofun, nofun⟩
  case load page cursor =>
    cases page with
    | nil =>
      cases hst
      exact h.goto ⟨nofun, nofun, nofun⟩
    | cons row =>
      cases hst
      exact (h.load _ (hok.1 row rfl)).goto ⟨nofun, nofun, nofun⟩
  case returned => cases hst

theorem MapInv.callerWrite (h : MapInv s) {owner write}
    (hst : callerWrite s j owner write = some t)
    (hroom : ∀ job ∈ s.jobs[j]?, ∀ r ∈ job.reads, versionRoom s.map r.1 r.2.version)
    (hwrite : ∀ job ∈ s.jobs[j]?, ∀ path v, job.reads = some (path, v) → ∀ map,
      write path v.version = .ok map → ∃ e e', VersionedWrite path v.version s.map map e e' ∧
      (∀ a ∈ (s.goto j .returned).jobs, a.freezes = some path → e'.state = .migrating) ∧
      (owner = false → e'.ownerMdsId = e.ownerMdsId)) : MapInv t := by
  unfold PnfsLattice.callerWrite at hst
  split at hst
  next path v hj =>
    have hjob := h.jobs _ (mem_of_getElem? hj)
    split at hst <;> cases hst
    · exact h.returned j
    next map hset =>
      obtain ⟨e, _, hw, hfrozen, howner⟩ := hwrite _ hj path v rfl map hset
      have hversion := hjob.reads path v rfl
      have hr := hroom _ hj _ rfl
      cases owner with
      | true =>
        exact (h.release path).writeGoto hw hversion hr hfrozen
          (fun c hc hcp => absurd hcp (mem_eraseKey.mp hc).2) (.returned map)
      | false =>
        refine h.writeGoto hw hversion hr hfrozen (fun c hc hcp => ?_) (.returned map)
        exact (howner rfl).trans (h.committed_owner hw.found c hc hcp)
  next => cases hst

theorem MapInv.step {op} (h : MapInv s) (hok : Undisturbed s op) (hst : mapStep s op = some t) :
    MapInv t := by
  cases op with
  | migrate =>
    cases hst
    refine h.spawn ⟨?_, nofun, nofun⟩
    rintro _ ⟨⟩
    exact hok
  | refresh =>
    cases hst
    exact h.spawn ⟨nofun, nofun, nofun⟩
  | read =>
    simp only [mapStep, map_eq_some_iff] at hst
    obtain ⟨e, he, rfl⟩ := hst
    refine h.spawn ⟨?_, ?_, nofun⟩
    · rintro _ ⟨⟩
      exact hok
    · rintro _ _ ⟨⟩ d hd
      cases mem_unique hd he
      exact ⟨le_rfl, nofun⟩
  | setOwner =>
    simp only [mapStep] at hst
    refine h.callerWrite hst hok fun job _ path v _ map hset => ?_
    obtain ⟨e, hw⟩ := subtreeMapSetOwner_ok hset
    exact ⟨e, _, hw, h.frozen_of_goto (e := e) hw.found, nofun⟩
  | setState =>
    simp only [mapStep] at hst
    refine h.callerWrite hst (fun job hj r hr => (hok job hj r hr).1)
      fun job hj path v hr map hset => ?_
    obtain ⟨e, hw⟩ := subtreeMapSetState_ok hset
    exact ⟨e, _, hw, (hok job hj _ hr).2.state, fun _ => rfl⟩
  | transferOwner =>
    simp only [mapStep] at hst
    refine h.callerWrite hst hok fun job _ _ v _ _ hset => ?_
    split at hset
    · obtain ⟨e, -, hw⟩ := transferOwnerIfMigrating_ok hset
      exact ⟨e, _, hw, h.frozen_of_goto (e := e) hw.found, nofun⟩
    · cases hset
  | job =>
    simp only [mapStep, bind_eq_some_iff] at hst
    obtain ⟨job, hj, hst⟩ := hst
    exact h.jobStep hj (hok job hj) hst

theorem MapInv.start (h : MapStart s) : MapInv s := by
  obtain ⟨hjobs, hcommitted, hreused⟩ := h
  exact ⟨by simp [hjobs], by simp [hcommitted], hreused⟩

end Step

/-- **A refresh undoes no migration** in a run in which refreshes load safely and nobody
else thaws what a migration has frozen: frozen subtrees are migrating, subtrees that were
handed over stay with the destination, and a version is accepted only for an entry that has
not changed since it was read. -/
theorem migration_undisturbed {s : MapSys} (h : Reachable MapStart mapStep Undisturbed s) :
    FrozenMigrating s ∧ CommittedStays s ∧ NoVersionReuse s := by
  have hinv : MapInv s :=
    h.invariant (P := MapInv) (fun _ h => .start h) fun _ _ _ h hok hst => h.step hok hst
  refine ⟨fun job hjob path hp => ?_, fun c hc => ?_, hinv.fresh⟩
  · have hok := hinv.jobs job hjob
    obtain ⟨e, he, hst⟩ := hok.frozen path hp
    have habs : path.head? = some 47 := by
      refine hok.absolute path ?_
      cases job <;> cases hp <;> rfl
    rw [subtreeMapLookup_of_findExact habs he, map_some, hst]
  · obtain ⟨habs, e, he, hown⟩ := hinv.committed c hc
    rw [subtreeMapLookup_of_findExact habs he, map_some, hown]

/-- Node 1 with one subtree in its table and its map. -/
def oneShard : MapSys :=
  { selfId := 1, rows := [⟨1, 1, .active, [47, 97]⟩]
    map := [⟨[47, 97], 1, 1, .active, 1, true⟩], jobs := [], committed := [], reused := false }

/-- A step of job `j` that goes well. -/
def mapJobAt (j : ℕ) : MapOp := .job j { roleOk := true, grow := true, ok := true }

/-- A migration of the subtree to node 2 up to its freeze, as job `j`. -/
def migrateFrozen (j : ℕ) : List MapOp := [.migrate [47, 97] 2, mapJobAt j, mapJobAt j]

/-- Its stages, its commit and its last write of the state. -/
def migrateRest (j : ℕ) : List MapOp := List.replicate 10 (mapJobAt j)

/-- A refresh up to the load of the subtree's row, as job `j`. -/
def refreshRow (j : ℕ) : List MapOp := [.refresh, mapJobAt j, mapJobAt j]

/-- A migration after a refresh. -/
theorem migration_undisturbed_after_refresh : ∃ s, Reachable MapStart mapStep Undisturbed s ∧
      s.committed = [([47, 97], 2)] ∧ s.jobs[1]? = some .returned ∧
      FrozenMigrating s ∧ CommittedStays s ∧ NoVersionReuse s := by
  have hs : Reachable MapStart mapStep Undisturbed _ :=
    .run oneShard (refreshRow 0 ++ migrateFrozen 1 ++ migrateRest 1) ⟨rfl, rfl, rfl⟩
  exact ⟨_, hs, rfl, rfl, migration_undisturbed hs⟩

/-- A refresh thaws a subtree under its migration; it gives a subtree that was handed over back
to the source; and it takes the version back, so that a write from before another owner was set
succeeds. -/
theorem refresh_undoes_migration :
    (∃ s, exec mapStep oneShard (migrateFrozen 0 ++ refreshRow 1) = some s ∧
      s.jobs.head?.bind MapJob.freezes = some [47, 97] ∧
      (subtreeMapLookup s.map [47, 97]).map SubtreeEntry.state = some .active) ∧
    (∃ s, exec mapStep oneShard (migrateFrozen 0 ++ migrateRest 0 ++ refreshRow 1) = some s ∧
      s.committed = [([47, 97], 2)] ∧
      (subtreeMapLookup s.map [47, 97]).map SubtreeEntry.ownerMdsId = some 1) ∧
    ∃ s, exec mapStep oneShard ([.read [47, 97], .read [47, 97], .setOwner 1 2 true] ++
      refreshRow 2 ++ [.setOwner 0 3 true]) = some s ∧ s.reused = true :=
  ⟨⟨_, rfl, by decide⟩, ⟨_, rfl, by decide⟩, ⟨_, rfl, by decide⟩⟩

end PnfsLattice
