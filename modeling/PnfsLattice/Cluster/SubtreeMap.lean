import Mathlib.Data.List.MinMax
import PnfsLattice.Catalogue.Memdb

/-!
# Partition rows and the subtree map

The partition table of the in-memory store, and the map that every node keeps of it
(`subtree_map.c`, local backend). Rows are never deleted and slots are filled in order, so
the table is a list and a row's slot is its place in it.
-/

namespace PnfsLattice

open Lib List Option

/-- The id of a metadata server. -/
abbrev MdsId := ℕ

abbrev SubtreePath := List UInt8

def rootPath : SubtreePath := [47]

/-- `enum subtree_state`, and the partition states with the same numbers. -/
inductive SubtreeState
  | active
  | migrating
  | frozen
  deriving DecidableEq

/-! ## The partition table -/

/-- `struct memdb_partition`. -/
structure PartitionRow where
  partitionId : ℕ
  ownerMdsId : MdsId
  state : SubtreeState
  subtreePath : SubtreePath
  deriving DecidableEq

def memdbMaxPartitions : ℕ := 256

def memdbScanPage : ℕ := 64

def memdbPartitionFind (rows : List PartitionRow) (id : ℕ) : Option PartitionRow :=
  findKey PartitionRow.partitionId id rows

/-- The owner that the store records. -/
def partitionOwner (rows : List PartitionRow) (id : ℕ) : Option MdsId :=
  (memdbPartitionFind rows id).map PartitionRow.ownerMdsId

def memPartitionPut (row : PartitionRow) (insertOnly : Bool) (rows : List PartitionRow) :
    Except MdsStatus (List PartitionRow) :=
  if mdsMaxPath ≤ row.subtreePath.length then .error .inval
  else if (memdbPartitionFind rows row.partitionId).isSome then
    if insertOnly then .error .exists
    else .ok (modifyKey PartitionRow.partitionId row.partitionId (fun _ => row) rows)
  else if memdbMaxPartitions ≤ rows.length then .error .nospc
  else .ok (rows ++ [row])

def memPartitionCas (id : ℕ) (expected new : MdsId) (state : SubtreeState)
    (rows : List PartitionRow) : Except MdsStatus (List PartitionRow) :=
  match memdbPartitionFind rows id with
  | none => .error .notfound
  | some row =>
    if row.ownerMdsId ≠ expected then .error .stale
    else .ok (modifyKey PartitionRow.partitionId id
      (fun r => { r with ownerMdsId := new, state }) rows)

/-- One page of `mem_partition_list`, and where the next one begins. -/
def memPartitionPage (cursor : ℕ) (rows : List PartitionRow) : List PartitionRow × ℕ :=
  let page := (rows.drop cursor).take memdbScanPage
  (page, if page.length = memdbScanPage then cursor + memdbScanPage else memdbMaxPartitions)

/-! ## The map of a node -/

/-- `struct subtree_entry`. -/
structure SubtreeEntry where
  path : SubtreePath
  ownerMdsId : MdsId
  version : ℕ
  state : SubtreeState
  partitionId : ℕ
  pmBacked : Bool
  deriving DecidableEq

def findExact (map : List SubtreeEntry) (path : SubtreePath) : Option SubtreeEntry :=
  findKey SubtreeEntry.path path map

/-- An entry with this path covers it: the root, the path itself, or a path below. -/
def SubtreeEntry.covers (e : SubtreeEntry) (path : SubtreePath) : Bool :=
  e.path = rootPath || (e.path.isPrefixOf path && (path.drop e.path.length).head?.all (· = 47))

/-- The loop of `longest_prefix_match`: the length of the best match so far comes along. -/
def longestPrefixMatch (path : SubtreePath) :
    List SubtreeEntry → Option SubtreeEntry → Option SubtreeEntry
  | [], best => best
  | e :: map, best =>
    if e.covers path && (best.elim 0 fun b => b.path.length) < e.path.length then
      longestPrefixMatch path map (some e)
    else longestPrefixMatch path map best

def subtreeMapLookup (map : List SubtreeEntry) (path : SubtreePath) : Option SubtreeEntry :=
  longestPrefixMatch path map none

/-- The successor of a 64-bit version. -/
def nextVersion (v : ℕ) : ℕ := (v + 1) % 18446744073709551616

/-- A change of the entry at a path. -/
def setEntry (path : SubtreePath) (g : SubtreeEntry → SubtreeEntry) (map : List SubtreeEntry) :
    List SubtreeEntry :=
  modifyKey SubtreeEntry.path path g map

/-- `apply_subtree_upsert`; `grow` tells whether memory for a new entry is found. -/
def applySubtreeUpsert (path : SubtreePath) (id : ℕ) (owner : MdsId) (state : SubtreeState)
    (version : ℕ) (grow : Bool) (map : List SubtreeEntry) : List SubtreeEntry :=
  match findExact map path with
  | some _ => setEntry path (fun e =>
    { e with ownerMdsId := owner, state, version, partitionId := id, pmBacked := true }) map
  | none =>
    if grow then
      map ++ [{ path, ownerMdsId := owner, version, state, partitionId := id, pmBacked := true }]
    else map

/-- `pm_load_cb`: a row without a path is skipped, and versions start at one. -/
def pmLoad (row : PartitionRow) (grow : Bool) (map : List SubtreeEntry) : List SubtreeEntry :=
  if row.subtreePath = [] then map
  else applySubtreeUpsert row.subtreePath row.partitionId row.ownerMdsId row.state 1 grow map

def markPmBacked (path : SubtreePath) (id : ℕ) (map : List SubtreeEntry) : List SubtreeEntry :=
  setEntry path (fun e => { e with partitionId := id, pmBacked := true }) map

/-- `subtree_map_add` to a map without membership: a memory-only entry. -/
def subtreeMapAdd (path : SubtreePath) (owner : MdsId) (state : SubtreeState) (version : ℕ)
    (grow : Bool) (map : List SubtreeEntry) : Except MdsStatus (List SubtreeEntry) :=
  if (findExact map path).isSome then .error .exists
  else if !grow then .error .nomem
  else .ok (map ++
    [{ path, ownerMdsId := owner, version, state, partitionId := 0, pmBacked := false }])

def transferInMemory (path : SubtreePath) (expected new : MdsId) (map : List SubtreeEntry) :
    Except MdsStatus (List SubtreeEntry) :=
  match findExact map path with
  | none => .error .notfound
  | some e =>
    if e.ownerMdsId ≠ expected then .error .stale
    else .ok (setEntry path
      (fun e => { e with ownerMdsId := new, version := nextVersion e.version }) map)

/-- `subtree_map_set_owner`; `roleOk` is the membership's answer. -/
def subtreeMapSetOwner (roleOk : Bool) (path : SubtreePath) (new : MdsId) (expected : ℕ)
    (map : List SubtreeEntry) : Except MdsStatus (List SubtreeEntry) :=
  if !roleOk then .error .perm
  else match findExact map path with
    | none => .error .notfound
    | some e =>
      if e.version ≠ expected then .error .stale
      else .ok (setEntry path
        (fun e => { e with ownerMdsId := new, version := nextVersion e.version }) map)

def subtreeMapSetState (path : SubtreePath) (state : SubtreeState) (expected : ℕ)
    (map : List SubtreeEntry) : Except MdsStatus (List SubtreeEntry) :=
  match findExact map path with
  | none => .error .notfound
  | some e =>
    if e.version ≠ expected then .error .stale
    else .ok (setEntry path (fun e => { e with state, version := nextVersion e.version }) map)

/-- The first half of `subtree_map_transfer_owner_if_migrating`, under the read lock. -/
def transferPrecheck (path : SubtreePath) (map : List SubtreeEntry) : Bool :=
  (findExact map path).any fun e => e.state = .migrating

/-- The second half, under the write lock. -/
def transferOwnerIfMigrating (roleOk : Bool) (path : SubtreePath) (new : MdsId) (expected : ℕ)
    (map : List SubtreeEntry) : Except MdsStatus (List SubtreeEntry) :=
  if !roleOk then .error .perm
  else match findExact map path with
    | none => .error .notfound
    | some e =>
      if e.state ≠ .migrating then .error .inval
      else if e.version ≠ expected then .error .stale
      else .ok (setEntry path
        (fun e => { e with ownerMdsId := new, version := nextVersion e.version }) map)

/-! ## What the writes do -/

section Rows

variable {rows rows' : List PartitionRow} {row : PartitionRow} {id : ℕ}

variable {insertOnly : Bool} {expected new : MdsId} {state : SubtreeState}

theorem memPartitionPut_ok (h : memPartitionPut row insertOnly rows = .ok rows') :
    (insertOnly = false ∧ (∃ r, memdbPartitionFind rows row.partitionId = some r) ∧
      rows' = modifyKey PartitionRow.partitionId row.partitionId (fun _ => row) rows) ∨
    (memdbPartitionFind rows row.partitionId = none ∧ rows' = rows ++ [row]) := by
  unfold memPartitionPut at h
  split at h
  · cases h
  split at h
  next hsome =>
    split at h <;> cases h
    next hins => exact .inl ⟨by simpa using hins, isSome_iff_exists.mp hsome, rfl⟩
  next hnone =>
    split at h <;> cases h
    exact .inr ⟨by simpa using hnone, rfl⟩

theorem memPartitionCas_ok (h : memPartitionCas id expected new state rows = .ok rows') :
    (∃ r, memdbPartitionFind rows id = some r ∧ r.ownerMdsId = expected) ∧
      rows' = modifyKey PartitionRow.partitionId id
        (fun r => { r with ownerMdsId := new, state }) rows := by
  unfold memPartitionCas at h
  split at h
  · cases h
  next r hr =>
    split at h <;> cases h
    next hown => exact ⟨⟨r, hr, not_not.mp hown⟩, rfl⟩

theorem partitionOwner_memPartitionCas
    (h : memPartitionCas id expected new state rows = .ok rows') (k : ℕ) :
    partitionOwner rows id = some expected ∧
      partitionOwner rows' k = if k = id then some new else partitionOwner rows k := by
  obtain ⟨⟨r, hr, hown⟩, rfl⟩ := memPartitionCas_ok h
  refine ⟨by rw [partitionOwner, hr, map_some, hown], ?_⟩
  rw [partitionOwner, memdbPartitionFind,
    findKey_modifyKey (g := fun r : PartitionRow => { r with ownerMdsId := new, state })
      fun _ => rfl]
  by_cases hk : k = id
  · rw [if_pos hk, if_pos hk, hk, show findKey PartitionRow.partitionId id rows = some r from hr]
    rfl
  · rw [if_neg hk, if_neg hk]
    rfl

theorem partitionOwner_memPartitionPut (h : memPartitionPut row insertOnly rows = .ok rows')
    (k : ℕ) : partitionOwner rows' k =
      if k = row.partitionId then some row.ownerMdsId else partitionOwner rows k := by
  rcases memPartitionPut_ok h with ⟨-, ⟨r, hr⟩, rfl⟩ | ⟨hnone, rfl⟩
  · have hself : modifyKey PartitionRow.partitionId row.partitionId (fun _ => row) rows =
        modifyKey PartitionRow.partitionId row.partitionId
          (fun r => { row with partitionId := r.partitionId }) rows := by
      refine map_congr_left fun a _ => ?_
      by_cases ha : a.partitionId = row.partitionId
      · dsimp only
        rw [ha]
      · rw [if_neg ha, if_neg ha]
    rw [hself, partitionOwner, memdbPartitionFind,
      findKey_modifyKey (g := fun r : PartitionRow => { row with partitionId := r.partitionId })
        fun _ => rfl]
    by_cases hk : k = row.partitionId
    · rw [if_pos hk, if_pos hk, hk,
        show findKey PartitionRow.partitionId row.partitionId rows = some r from hr]
      rfl
    · rw [if_neg hk, if_neg hk]
      rfl
  · rw [partitionOwner, memdbPartitionFind, findKey_concat hnone]
    exact apply_ite _ _ _ _

end Rows

/-! ## Lookups and changes of the map -/

section Map

variable {map map' : List SubtreeEntry} {path : SubtreePath} {e : SubtreeEntry}

section

variable (hpath : path.head? = some 47)

include hpath

theorem SubtreeEntry.length_of_covers (h : e.covers path = true) :
    e.path.length ≤ path.length ∧ (e.path.length = path.length → e.path = path) := by
  unfold SubtreeEntry.covers at h
  rw [Bool.or_eq_true, decide_eq_true_eq, Bool.and_eq_true, isPrefixOf_iff_prefix] at h
  rcases h with hroot | ⟨hpre, -⟩
  · rw [hroot]
    cases path with
    | nil => cases hpath
    | cons =>
      cases hpath
      refine ⟨Nat.succ_le_succ (Nat.zero_le _), fun hlen => ?_⟩
      rw [length_eq_zero_iff.mp (Nat.succ.inj hlen).symm]
      rfl
  · exact ⟨hpre.length_le, hpre.eq_of_length⟩

theorem longestPrefixMatch_of_path (he : e.path = path) (map : List SubtreeEntry) :
    longestPrefixMatch path map (some e) = some e := by
  induction map with
  | nil => rfl
  | cons d _ ih =>
    rw [longestPrefixMatch, if_neg, ih]
    intro h
    rw [Bool.and_eq_true, decide_eq_true_eq] at h
    have hle := (SubtreeEntry.length_of_covers hpath h.1).1
    have hlt : e.path.length < d.path.length := h.2
    rw [he] at hlt
    exact absurd hlt (by omega)

theorem longestPrefixMatch_of_findExact {best}
    (hbest : (best.elim 0 fun b => b.path.length) < path.length) (h : findExact map path = some e) :
    longestPrefixMatch path map best = some e := by
  induction map generalizing best with
  | nil => cases h
  | cons d map ih =>
    rw [findExact, findKey_cons] at h
    by_cases hd : d.path = path
    · rw [if_pos hd] at h
      obtain rfl : d = e := some.inj h
      have hcov : d.covers path = true := by
        rw [SubtreeEntry.covers, hd]
        simp
      rw [longestPrefixMatch, hcov, hd, Bool.true_and, if_pos (decide_eq_true hbest)]
      exact longestPrefixMatch_of_path hpath hd map
    · rw [if_neg hd] at h
      rw [longestPrefixMatch]
      split
      next hcond =>
        rw [Bool.and_eq_true] at hcond
        obtain ⟨hle, heq⟩ := SubtreeEntry.length_of_covers hpath hcond.1
        exact ih (Nat.lt_of_le_of_ne hle fun hlen => hd (heq hlen)) h
      next => exact ih hbest h

theorem subtreeMapLookup_of_findExact (h : findExact map path = some e) :
    subtreeMapLookup map path = some e := by
  refine longestPrefixMatch_of_findExact hpath ?_ h
  cases path with
  | nil => cases hpath
  | cons => exact Nat.succ_pos _

end

/-- **A path is routed to the deepest subtree that covers it**, the first one of equal depth. -/
theorem subtreeMapLookup_eq_argmax (map : List SubtreeEntry) (path : SubtreePath) :
    subtreeMapLookup map path =
      (map.filter fun e => e.covers path && 0 < e.path.length).argmax fun e => e.path.length := by
  rw [subtreeMapLookup, argmax]
  generalize none = best
  induction map generalizing best with
  | nil => rfl
  | cons e _ ih =>
    rw [filter_cons, longestPrefixMatch, ih, ih]
    simp only [Bool.and_eq_true, decide_eq_true_eq]
    by_cases hcov : e.covers path ∧ 0 < e.path.length
    · cases best with
      | none => simp [argAux, hcov]
      | some c => by_cases hlt : c.path.length < e.path.length <;> simp [argAux, hcov, hlt]
    · rw [if_neg hcov, if_neg fun h => hcov ⟨h.1, Nat.zero_lt_of_lt h.2⟩]

variable {g : SubtreeEntry → SubtreeEntry} {roleOk : Bool} {new : MdsId}

theorem findExact_of_set (hg : ∀ e, (g e).path = e.path) (he : findExact map path = some e)
    (k : SubtreePath) :
    findExact (setEntry path g map) k = if k = path then some (g e) else findExact map k := by
  unfold findExact at *
  rw [setEntry, findKey_modifyKey hg]
  by_cases hk : k = path
  · rw [if_pos hk, if_pos hk, hk, he]
    rfl
  · rw [if_neg hk, if_neg hk]

/-- The entry at a path after a write that names the version it expects. -/
structure VersionedWrite (path : SubtreePath) (expected : ℕ) (map map' : List SubtreeEntry)
    (e e' : SubtreeEntry) : Prop where
  found : findExact map path = some e
  version : e.version = expected
  next : e'.version = nextVersion e.version
  written : ∀ k, findExact map' k = if k = path then some e' else findExact map k

variable {v : ℕ}

theorem subtreeMapSetOwner_ok (h : subtreeMapSetOwner roleOk path new v map = .ok map') :
    ∃ e, VersionedWrite path v map map' e
      { e with ownerMdsId := new, version := nextVersion e.version } := by
  unfold subtreeMapSetOwner at h
  split at h
  · cases h
  split at h
  · cases h
  next e he =>
    split at h <;> cases h
    next hv =>
      exact ⟨e, he, not_not.mp hv, rfl, findExact_of_set (by intro; rfl) he⟩

theorem subtreeMapSetState_ok {state} (h : subtreeMapSetState path state v map = .ok map') :
    ∃ e, VersionedWrite path v map map' e { e with state, version := nextVersion e.version } := by
  unfold subtreeMapSetState at h
  split at h
  · cases h
  next e he =>
    split at h <;> cases h
    next hv =>
      exact ⟨e, he, not_not.mp hv, rfl, findExact_of_set (by intro; rfl) he⟩

theorem transferOwnerIfMigrating_ok
    (h : transferOwnerIfMigrating roleOk path new v map = .ok map') :
    ∃ e, e.state = .migrating ∧ VersionedWrite path v map map' e
      { e with ownerMdsId := new, version := nextVersion e.version } := by
  unfold transferOwnerIfMigrating at h
  split at h
  · cases h
  split at h
  · cases h
  next e he =>
    split at h
    · cases h
    next hst =>
      split at h <;> cases h
      next hv =>
        exact ⟨e, not_not.mp hst, he, not_not.mp hv, rfl, findExact_of_set (by intro; rfl) he⟩

theorem findExact_pmLoad (row : PartitionRow) (grow : Bool) (map : List SubtreeEntry)
    (k : SubtreePath) : findExact (pmLoad row grow map) k = findExact map k ∨
      k = row.subtreePath ∧ ∃ e, findExact (pmLoad row grow map) k = some e ∧
        e.ownerMdsId = row.ownerMdsId ∧ e.state = row.state ∧ e.version = 1 ∧
        e.partitionId = row.partitionId ∧ e.pmBacked = true := by
  unfold pmLoad
  split
  · exact .inl rfl
  unfold applySubtreeUpsert
  split
  next e he =>
    have hset := findExact_of_set (g := fun e => { e with
      ownerMdsId := row.ownerMdsId, state := row.state, version := 1
      partitionId := row.partitionId, pmBacked := true }) (fun _ => rfl) he k
    by_cases hk : k = row.subtreePath
    · exact .inr ⟨hk, _, hset.trans (if_pos hk), rfl, rfl, rfl, rfl, rfl⟩
    · exact .inl (hset.trans (if_neg hk))
  next hnone =>
    split
    · have hadd := findKey_concat
        (r := (⟨row.subtreePath, row.ownerMdsId, 1, row.state, row.partitionId, true⟩ :
          SubtreeEntry)) hnone k
      by_cases hk : k = row.subtreePath
      · exact .inr ⟨hk, _, hadd.trans (if_pos hk), rfl, rfl, rfl, rfl, rfl⟩
      · exact .inl (hadd.trans (if_neg hk))
    · exact .inl rfl

end Map

end PnfsLattice
