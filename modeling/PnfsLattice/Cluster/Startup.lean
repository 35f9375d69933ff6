import PnfsLattice.Cluster.SubtreeMap
import PnfsLattice.Lib.Machine

/-!
# Who owns a partition

Nodes start over one partition table: they list it, claim the root if they find none, and seed
the shards if they found nothing else. Takeovers move rows by compare-and-swap. The root is
claimed once, by an insert. A shard is seeded by an upsert, on the argument that every node
writes the same rows and there is no owner to protect; a node that listed an empty table and
was then held up puts back the owner of a shard that was taken over since.
-/

namespace PnfsLattice

open Lib List Option

/-! ## Starting nodes -/

def shardPath (k : ℕ) : SubtreePath :=
  [47, 115, 104, 97, 114, 100] ++ (Nat.toDigits 10 k).map fun c => c.toNat.toUInt8

def pmInitAttempts : ℕ := 3

/-- Where a starting node stands, with the map it has built. Nobody else sees the map yet. -/
inductive StartupJob
  /-- `pm_init_attempt` is about to read a page. -/
  | list (attempt cursor : ℕ) (map : List SubtreeEntry)
  /-- It has found no root and is about to claim it. -/
  | claim (attempt : ℕ) (map : List SubtreeEntry)
  /-- `subtree_map_seed_shards` is about to seed the shard after `si`. -/
  | seed (si : ℕ) (map : List SubtreeEntry)
  | returned (ok : Bool)
  deriving DecidableEq

structure StartupNode where
  selfId : MdsId
  clusterSize : ℕ
  job : StartupJob
  deriving DecidableEq

/-- Whether memory is found: for the page, and for a new entry. -/
structure StartupEnv where
  page : Bool
  grow : SubtreePath → Bool

/-- The loop of `pm_init_load`. -/
def pmInitRetry (attempt : ℕ) (map : List SubtreeEntry) : StartupJob :=
  if pmInitAttempts ≤ attempt then .returned false else .list (attempt + 1) 0 map

/-- The map is loaded; shards are seeded if there is only the root. -/
def seedShards (clusterSize : ℕ) (map : List SubtreeEntry) : StartupJob :=
  if clusterSize ≤ 1 || map.length > 1 then .returned true else .seed 0 map

/-- The whole table is listed. -/
def pmListed (clusterSize attempt : ℕ) (map : List SubtreeEntry) : StartupJob :=
  if (findExact map rootPath).isSome then seedShards clusterSize map else .claim attempt map

/-- `subtree_map_add` allows the shard to be persisted. -/
def seedAdd (k : ℕ) (grow : Bool) (map : List SubtreeEntry) : Option (List SubtreeEntry) :=
  match subtreeMapAdd (shardPath k) k .active 1 grow map with
  | .ok map | .error .exists => some map
  | .error _ => none

def shardRow (k : ℕ) : PartitionRow :=
  { partitionId := k, ownerMdsId := k, state := .active, subtreePath := shardPath k }

def rootRow (self : MdsId) : PartitionRow :=
  { partitionId := 0, ownerMdsId := self, state := .active, subtreePath := rootPath }

/-! ## The system -/

/-- The table, the nodes, and for the statement the claims of the root and the last takeover
of each partition. -/
structure PartSys where
  rows : List PartitionRow
  nodes : List StartupNode
  claims : List MdsId
  moved : List (ℕ × MdsId)

/-- The node of the last successful takeover of a partition. -/
def PartSys.movedTo (s : PartSys) (k : ℕ) : Option MdsId :=
  (findKey Prod.fst k s.moved).map Prod.snd

def PartSys.goto (s : PartSys) (j : ℕ) (node : StartupNode) (job : StartupJob) : PartSys :=
  { s with nodes := s.nodes.set j { node with job } }

def startupJobStep (s : PartSys) (j : ℕ) (env : StartupEnv) (node : StartupNode) : Option PartSys :=
  match node.job with
  | .list attempt cursor map =>
    if cursor = 0 && !env.page then some (s.goto j node (pmInitRetry attempt map))
    else
      let page := memPartitionPage cursor s.rows
      let map := page.1.foldl (fun map row => pmLoad row (env.grow row.subtreePath) map) map
      if page.2 < memdbMaxPartitions then some (s.goto j node (.list attempt page.2 map))
      else some (s.goto j node (pmListed node.clusterSize attempt map))
  | .claim attempt map =>
    match memPartitionPut (rootRow node.selfId) true s.rows with
    | .ok rows =>
      some (({ s with rows, claims := node.selfId :: s.claims } : PartSys).goto j node
        (seedShards node.clusterSize
          (applySubtreeUpsert rootPath 0 node.selfId .active 1 (env.grow rootPath) map)))
    | .error _ => some (s.goto j node (pmInitRetry attempt map))
  | .seed si map =>
    if node.clusterSize ≤ si then some (s.goto j node (.returned true))
    else match seedAdd (si + 1) (env.grow (shardPath (si + 1))) map with
      | none => some (s.goto j node (.seed (si + 1) map))
      | some map =>
        match memPartitionPut (shardRow (si + 1)) false s.rows with
        | .ok rows =>
          some (({ s with rows } : PartSys).goto j node
            (.seed (si + 1) (markPmBacked (shardPath (si + 1)) (si + 1) map)))
        | .error _ => some (s.goto j node (.seed (si + 1) map))
  | .returned _ => none

/-- What happens next. -/
inductive PartOp
  /-- A node starts. -/
  | start (selfId : MdsId) (clusterSize : ℕ)
  /-- A starting node makes its next step. -/
  | node (j : ℕ) (env : StartupEnv)
  /-- A takeover, or its rollback. -/
  | cas (id : ℕ) (expected new : MdsId)

def partStep (s : PartSys) : PartOp → Option PartSys
  | .start selfId clusterSize =>
    some { s with nodes := s.nodes ++ [{ selfId, clusterSize, job := .list 1 0 [] }] }
  | .node j env => s.nodes[j]?.bind (startupJobStep s j env)
  | .cas id expected new =>
    match memPartitionCas id expected new .active s.rows with
    | .ok rows => some { s with rows, moved := upsert Prod.fst (id, new) s.moved }
    | .error _ => some s

/-- An empty table. -/
def partNew : PartSys := { rows := [], nodes := [], claims := [], moved := [] }

/-! ## The property -/

/-- The node has a map, and with it a root. -/
def StartupJob.loaded : StartupJob → Bool
  | .list _ _ _ | .claim _ _ => false
  | .seed _ _ => true
  | .returned ok => ok

/-- The root is claimed by one node at most, and by one if any node has started. -/
def RootClaimedOnce (s : PartSys) : Prop :=
  s.claims.length ≤ 1 ∧
    ∀ node ∈ s.nodes, node.job.loaded = true → s.claims.length = 1 ∧
        (partitionOwner s.rows 0).isSome

/-- The row of a partition names the node that the last takeover has moved it to. -/
def CasHolds (s : PartSys) : Prop :=
  ∀ k n, s.movedTo k = some n → partitionOwner s.rows k = some n

/-- The shard whose row the node is about to write. -/
def StartupNode.seeds (node : StartupNode) (env : StartupEnv) : Option ℕ :=
  match node.job with
  | .seed si map =>
    if node.clusterSize ≤ si || mdsMaxPath ≤ (shardPath (si + 1)).length then none
    else (seedAdd (si + 1) (env.grow (shardPath (si + 1))) map).map fun _ => si + 1
  | _ => none

/-- A shard is seeded only if its row is missing or still names the shard's own node. -/
def SeedsOwn (s : PartSys) : PartOp → Prop
  | .node j env => ∀ node ∈ s.nodes[j]?, ∀ k ∈ node.seeds env, ∀ n ∈ partitionOwner s.rows k, n = k
  | _ => True

instance (s : PartSys) (op : PartOp) : Decidable (SeedsOwn s op) := by
  cases op <;> unfold SeedsOwn <;> infer_instance

/-! ## The invariant -/

/-- A map with a root comes from a table with one. -/
def StartupJob.MapOk (claimed : Bool) : StartupJob → Prop
  | .list _ _ map | .claim _ map => ∀ e ∈ map, e.path = rootPath → claimed = true
  | .seed _ _ => claimed = true
  | .returned ok => ok = true → claimed = true

/-- The table has a root row. -/
def PartSys.claimed (s : PartSys) : Bool := (partitionOwner s.rows 0).isSome

/-- The invariant of starting nodes and takeovers. -/
structure PartInv (s : PartSys) : Prop where
  once : s.claims.length = if s.claimed then 1 else 0
  root : ∀ r ∈ s.rows, r.subtreePath = rootPath → s.claimed = true
  maps : ∀ node ∈ s.nodes, node.job.MapOk s.claimed
  /-- A shard that no takeover has moved belongs to its own node. -/
  seeded : ∀ k n, partitionOwner s.rows k = some n → s.movedTo k = none → k ≠ 0 → n = k

theorem shardPath_ne_rootPath (k : ℕ) : shardPath k ≠ rootPath := by
  simp [shardPath, rootPath]

variable {map : List SubtreeEntry} {e : SubtreeEntry}

theorem path_of_mem_setEntry {path g} (hg : ∀ e, (g e).path = e.path)
    (he : e ∈ setEntry path g map) : ∃ d ∈ map, d.path = e.path := by
  obtain ⟨d, hd, rfl⟩ := mem_map.mp he
  refine ⟨d, hd, ?_⟩
  split
  · exact (hg d).symm
  · rfl

theorem path_of_mem_upsert {path id version owner state grow}
    (he : e ∈ applySubtreeUpsert path id owner state version grow map) :
    (∃ d ∈ map, d.path = e.path) ∨ e.path = path := by
  unfold applySubtreeUpsert at he
  split at he
  · refine .inl (path_of_mem_setEntry ?_ he)
    intro e
    rfl
  · split at he
    · rcases mem_append.mp he with he | he
      · exact .inl ⟨e, he, rfl⟩
      · rw [mem_singleton.mp he]
        exact .inr rfl
    · exact .inl ⟨e, he, rfl⟩

theorem path_of_mem_pmLoads {grow : SubtreePath → Bool} (page : List PartitionRow)
    (he : e ∈ page.foldl (fun map row => pmLoad row (grow row.subtreePath) map) map) :
    (∃ d ∈ map, d.path = e.path) ∨ ∃ r ∈ page, r.subtreePath = e.path := by
  induction page generalizing map with
  | nil => exact .inl ⟨e, he, rfl⟩
  | cons r _ ih =>
    rcases ih he with ⟨d, hd, hpath⟩ | ⟨q, hq, hpath⟩
    · have hload : d ∈ pmLoad r (grow r.subtreePath) map := hd
      unfold pmLoad at hload
      split at hload
      · exact .inl ⟨d, hload, hpath⟩
      · rcases path_of_mem_upsert hload with ⟨c, hc, hcd⟩ | hdr
        · exact .inl ⟨c, hc, hcd.trans hpath⟩
        · exact .inr ⟨r, mem_cons_self, hdr.symm.trans hpath⟩
    · exact .inr ⟨q, mem_cons_of_mem _ hq, hpath⟩

section Inv

variable {s t : PartSys} {j : ℕ} {env : StartupEnv} {node : StartupNode} {claimed : Bool}

theorem StartupJob.MapOk.mono {job : StartupJob} (h : job.MapOk claimed) {claimed' : Bool}
    (hc : claimed = true → claimed' = true) : job.MapOk claimed' := by
  cases job with
  | list | claim => exact fun e he hp => hc (h e he hp)
  | seed => exact hc h
  | returned => exact fun hok => hc (h hok)

variable {map : List SubtreeEntry} {rows : List PartitionRow}

theorem mapOk_pmInitRetry {attempt} (h : ∀ e ∈ map, e.path = rootPath → claimed = true) :
    (pmInitRetry attempt map).MapOk claimed := by
  unfold pmInitRetry
  split
  · exact nofun
  · exact h

theorem mapOk_seedShards {size} (h : claimed = true) : (seedShards size map).MapOk claimed := by
  unfold seedShards
  split
  · exact fun _ => h
  · exact h

theorem mapOk_pmListed {size attempt} (h : ∀ e ∈ map, e.path = rootPath → claimed = true) :
    (pmListed size attempt map).MapOk claimed := by
  unfold pmListed
  split
  next hroot =>
    obtain ⟨e, he⟩ := isSome_iff_exists.mp hroot
    exact mapOk_seedShards (h e (mem_of_findKey he) (key_of_findKey he))
  next => exact h

theorem PartInv.goto (h : PartInv s) {job} (hjob : job.MapOk s.claimed) :
    PartInv (s.goto j node job) :=
  { h with maps := forall_mem_set h.maps hjob }

theorem claimed_of_partitionOwner
    (h : ∀ k, k = 0 → partitionOwner rows k = partitionOwner s.rows k) :
    ({ s with rows } : PartSys).claimed = s.claimed := by
  unfold PartSys.claimed
  rw [h 0 rfl]

theorem path_of_mem_put {row insertOnly rows'}
    (h : memPartitionPut row insertOnly rows = .ok rows') {r} (hr : r ∈ rows') :
    r ∈ rows ∨ r = row := by
  rcases memPartitionPut_ok h with ⟨-, -, rfl⟩ | ⟨-, rfl⟩
  · obtain ⟨d, hd, rfl⟩ := mem_map.mp hr
    split
    · exact .inr rfl
    · exact .inl hd
  · exact (mem_append.mp hr).imp_right mem_singleton.mp

theorem PartInv.seed (h : PartInv s) {k} (hk : k ≠ 0)
    (hput : memPartitionPut (shardRow k) false s.rows = .ok rows) : PartInv { s with rows } := by
  have hown := partitionOwner_memPartitionPut hput
  have hclaimed : ({ s with rows } : PartSys).claimed = s.claimed :=
    claimed_of_partitionOwner fun i hi => (hown i).trans (if_neg fun he => hk (he.symm.trans hi))
  refine ⟨?_, fun r hr hp => ?_, ?_, fun i n hi hm hne => ?_⟩
  · rw [hclaimed]
    exact h.once
  · rw [hclaimed]
    rcases path_of_mem_put hput hr with hr | rfl
    · exact h.root r hr hp
    · exact absurd hp (shardPath_ne_rootPath k)
  · rw [hclaimed]
    exact h.maps
  · rw [hown] at hi
    split at hi
    next he => exact (some.inj hi).symm.trans he.symm
    next => exact h.seeded i n hi hm hne

theorem PartInv.claim (h : PartInv s) {self : MdsId}
    (hput : memPartitionPut (rootRow self) true s.rows = .ok rows) :
    PartInv { s with rows, claims := self :: s.claims } ∧
      ({ s with rows, claims := self :: s.claims } : PartSys).claimed = true := by
  have hown : ∀ k, partitionOwner rows k = if k = 0 then some self else partitionOwner s.rows k :=
    partitionOwner_memPartitionPut hput
  have hclaimed : ({ s with rows, claims := self :: s.claims } : PartSys).claimed = true := by
    unfold PartSys.claimed
    rw [hown 0]
    rfl
  have hfree : s.claimed = false := by
    rcases memPartitionPut_ok hput with ⟨hins, -⟩ | ⟨hnone, -⟩
    · cases hins
    · unfold PartSys.claimed partitionOwner
      rw [show memdbPartitionFind s.rows 0 = none from hnone]
      rfl
  refine ⟨⟨?_, fun _ _ _ => hclaimed, fun n hn => ?_, fun i n hi hm hne => ?_⟩, hclaimed⟩
  · rw [hclaimed, length_cons, h.once, hfree]
    rfl
  · exact (h.maps n hn).mono fun _ => hclaimed
  · rw [hown, if_neg hne] at hi
    exact h.seeded i n hi hm hne

theorem movedTo_cas (s : PartSys) (rows : List PartitionRow) (id : ℕ) (new : MdsId) (k : ℕ) :
    ({ s with rows, moved := upsert Prod.fst (id, new) s.moved } : PartSys).movedTo k =
      if k = id then some new else s.movedTo k := by
  unfold PartSys.movedTo
  rw [findKey_upsert]
  split <;> rfl

theorem PartInv.cas (h : PartInv s) {id expected new}
    (hcas : memPartitionCas id expected new .active s.rows = .ok rows) :
    PartInv { s with rows, moved := upsert Prod.fst (id, new) s.moved } := by
  have hown := partitionOwner_memPartitionCas hcas
  have hclaimed : ({ s with rows, moved := upsert Prod.fst (id, new) s.moved } : PartSys).claimed =
      s.claimed := by
    unfold PartSys.claimed
    rw [(hown 0).2]
    split
    next he => rw [he, (hown 0).1]; rfl
    next => rfl
  refine ⟨?_, fun r hr hp => ?_, ?_, fun i n hi hm hne => ?_⟩
  · rw [hclaimed]
    exact h.once
  · rw [hclaimed]
    obtain ⟨-, rfl⟩ := memPartitionCas_ok hcas
    obtain ⟨d, hd, rfl⟩ := mem_map.mp hr
    refine h.root d hd ?_
    split at hp
    · exact hp
    · exact hp
  · rw [hclaimed]
    exact h.maps
  · rw [movedTo_cas] at hm
    split at hm
    next => cases hm
    next hi' =>
      rw [(hown i).2, if_neg hi'] at hi
      exact h.seeded i n hi hm hne

/-- The effect of a starting node on the table. -/
inductive StartupMove (s : PartSys) (j : ℕ) (env : StartupEnv) (node : StartupNode) :
    PartSys → Prop
  | idle {job} (hseeds : node.seeds env = none) (hok : job.MapOk s.claimed) :
      StartupMove s j env node (s.goto j node job)
  | claim {rows job} (hseeds : node.seeds env = none)
      (hput : memPartitionPut (rootRow node.selfId) true s.rows = .ok rows) (hok : job.MapOk true) :
      StartupMove s j env node
        (({ s with rows, claims := node.selfId :: s.claims } : PartSys).goto j node job)
  | seed {k rows job} (hk : k ≠ 0) (hseeds : node.seeds env = some k)
      (hput : memPartitionPut (shardRow k) false s.rows = .ok rows) (hok : job.MapOk s.claimed) :
      StartupMove s j env node (({ s with rows } : PartSys).goto j node job)
  /-- There is no room for the row. -/
  | full {k job} (hseeds : node.seeds env = some k) (hfree : partitionOwner s.rows k = none)
      (hok : job.MapOk s.claimed) : StartupMove s j env node (s.goto j node job)

theorem startupMove_of_step (h : PartInv s) (hj : s.nodes[j]? = some node)
    (hst : startupJobStep s j env node = some t) : StartupMove s j env node t := by
  have hok := h.maps node (mem_of_getElem? hj)
  unfold startupJobStep at hst
  cases hjob : node.job with
  | list _ cursor map =>
    have hseeds : node.seeds env = none := by
      unfold StartupNode.seeds
      rw [hjob]
    rw [hjob] at hst hok
    dsimp only at hst
    have hmap : ∀ e ∈ (memPartitionPage cursor s.rows).1.foldl
        (fun map row => pmLoad row (env.grow row.subtreePath) map) map,
        e.path = rootPath → s.claimed = true := by
      intro e he hp
      rcases path_of_mem_pmLoads _ he with ⟨d, hd, hde⟩ | ⟨r, hr, hre⟩
      · exact hok d hd (hde.trans hp)
      · exact h.root r (mem_of_mem_drop (mem_of_mem_take hr)) (hre.trans hp)
    split at hst
    · cases hst
      exact .idle hseeds (mapOk_pmInitRetry hok)
    · split at hst <;> cases hst
      · exact .idle hseeds hmap
      · exact .idle hseeds (mapOk_pmListed hmap)
  | claim =>
    have hseeds : node.seeds env = none := by
      unfold StartupNode.seeds
      rw [hjob]
    rw [hjob] at hst hok
    dsimp only at hst
    split at hst <;> cases hst
    next hput => exact .claim hseeds hput (mapOk_seedShards rfl)
    · exact .idle hseeds (mapOk_pmInitRetry hok)
  | seed si =>
    rw [hjob] at hst hok
    dsimp only at hst
    have hclaimed : s.claimed = true := hok
    split at hst
    next hsize =>
      cases hst
      refine .idle ?_ fun _ => hclaimed
      unfold StartupNode.seeds
      rw [hjob]
      simp [hsize]
    next hsize =>
      split at hst
      next hadd =>
        cases hst
        refine .idle ?_ hclaimed
        unfold StartupNode.seeds
        rw [hjob]
        simp [hadd]
      next hadd =>
        by_cases hlong : mdsMaxPath ≤ (shardPath (si + 1)).length
        · have hput : memPartitionPut (shardRow (si + 1)) false s.rows = .error .inval :=
            if_pos hlong
          rw [hput] at hst
          cases hst
          refine .idle ?_ hclaimed
          unfold StartupNode.seeds
          rw [hjob]
          simp [hlong]
        · have hseeds : node.seeds env = some (si + 1) := by
            unfold StartupNode.seeds
            rw [hjob]
            simp [hsize, hlong, hadd]
          split at hst <;> cases hst
          next hput => exact .seed (Nat.succ_ne_zero si) hseeds hput hclaimed
          next hput =>
            refine .full hseeds ?_ hclaimed
            unfold memPartitionPut at hput
            rw [if_neg (show ¬ mdsMaxPath ≤ (shardRow (si + 1)).subtreePath.length from hlong)]
              at hput
            split at hput
            · cases hput
            next hnone =>
              have hfree : memdbPartitionFind s.rows (si + 1) = none :=
                not_isSome_iff_eq_none.mp hnone
              rw [partitionOwner, hfree]
              rfl
  | returned =>
    rw [hjob] at hst
    cases hst

theorem PartInv.step {op : PartOp} (h : PartInv s) (hst : partStep s op = some t) : PartInv t := by
  cases op with
  | start =>
    cases hst
    exact { h with
      maps := forall_mem_append.mpr ⟨h.maps, forall_mem_singleton.mpr fun e he => nomatch he⟩ }
  | node =>
    simp only [partStep, bind_eq_some_iff] at hst
    obtain ⟨_, hj, hst⟩ := hst
    cases startupMove_of_step h hj hst with
    | idle _ hok => exact h.goto hok
    | claim _ hput hok => exact (h.claim hput).1.goto (hok.mono fun _ => (h.claim hput).2)
    | seed hk _ hput hok =>
      have hclaimed := claimed_of_partitionOwner (s := s) fun i hi =>
        (partitionOwner_memPartitionPut hput i).trans (if_neg fun he => hk (he.symm.trans hi))
      exact (h.seed hk hput).goto (hok.mono fun hc => hclaimed.trans hc)
    | full _ _ hok => exact h.goto hok
  | cas =>
    simp only [partStep] at hst
    split at hst <;> cases hst
    next hcas => exact h.cas hcas
    · exact h

theorem PartInv.start : PartInv partNew :=
  ⟨rfl, (fun _ hr => nomatch hr), (fun _ hn => nomatch hn), fun _ _ h => nomatch h⟩

theorem PartInv.rootClaimedOnce (h : PartInv s) : RootClaimedOnce s := by
  refine ⟨?_, fun node hnode hloaded => ?_⟩
  · rw [h.once]
    split <;> omega
  have hok := h.maps node hnode
  have hclaimed : s.claimed = true := by
    cases hjob : node.job with
    | list | claim =>
      rw [hjob] at hloaded
      cases hloaded
    | seed =>
      rw [hjob] at hok
      exact hok
    | returned =>
      rw [hjob] at hok hloaded
      exact hok hloaded
  rw [h.once, hclaimed]
  exact ⟨rfl, hclaimed⟩

/-- A step keeps rows where takeovers put them exactly if it seeds no shard that was moved. -/
theorem casHolds_iff {op} (h : PartInv s) (hc : CasHolds s) (hst : partStep s op = some t) :
    CasHolds t ↔ SeedsOwn s op := by
  cases op with
  | start =>
    cases hst
    exact ⟨fun _ => trivial, fun _ => hc⟩
  | node j env =>
    simp only [partStep, bind_eq_some_iff] at hst
    obtain ⟨node, hj, hst⟩ := hst
    have hcond : SeedsOwn s (.node j env) ↔
        ∀ k, node.seeds env = some k → ∀ n, partitionOwner s.rows k = some n → n = k := by
      simp [SeedsOwn, hj]
    rw [hcond]
    cases startupMove_of_step h hj hst with
    | idle hseeds =>
      refine ⟨fun _ k hk => ?_, fun _ => hc⟩
      cases hseeds.symm.trans hk
    | claim hseeds hput =>
      refine ⟨fun _ k hk => ?_, fun _ k n hm => ?_⟩
      · cases hseeds.symm.trans hk
      have hown := hc k n hm
      refine (partitionOwner_memPartitionPut hput k).trans ?_
      split
      next hk =>
        -- The claim found no root row.
        have hfree : partitionOwner s.rows k = none := by
          rcases memPartitionPut_ok hput with ⟨hins, -⟩ | ⟨hnone, -⟩
          · cases hins
          · rw [hk, partitionOwner, hnone]
            rfl
        cases hfree.symm.trans hown
      next => exact hown
    | @seed k rows _ hk hseeds hput =>
      have hown : ∀ i, partitionOwner rows i = if i = k then some k else partitionOwner s.rows i :=
        partitionOwner_memPartitionPut hput
      constructor
      · intro ht i hi n hn
        cases mem_unique hseeds hi
        cases hm : s.movedTo k with
        | none => exact h.seeded k n hn hm hk
        | some o =>
          have hto : partitionOwner rows k = some o := ht k o hm
          rw [hown, if_pos rfl] at hto
          rw [hc k o hm] at hn
          exact (some.inj hn).symm.trans (some.inj hto).symm
      · intro hcond i n hm
        have hold := hc i n hm
        refine (hown i).trans ?_
        split
        next hi =>
          rw [hi] at hold
          exact congrArg some (hcond k hseeds n hold).symm
        next => exact hold
    | full hseeds hfree =>
      refine ⟨fun _ k hk n hn => ?_, fun _ => hc⟩
      cases mem_unique hseeds hk
      cases hfree.symm.trans hn
  | cas =>
    refine ⟨fun _ => trivial, fun _ => ?_⟩
    simp only [partStep] at hst
    split at hst <;> cases hst
    next hcas =>
      intro k n hm
      rw [movedTo_cas] at hm
      refine (partitionOwner_memPartitionCas hcas k).2.trans ?_
      split
      next hk =>
        rw [if_pos hk] at hm
        exact hm
      next hk =>
        rw [if_neg hk] at hm
        exact hc k n hm
    · exact hc

end Inv

/-- **Ownership changes hands only by compare-and-swap.**  From an empty table, and however
starting nodes and takeovers interleave: the root is claimed once, and rows stay with the node
of their last takeover exactly if shards are seeded only where no takeover has moved them. -/
theorem ownership_by_cas (run : List PartOp) : AllStates partStep RootClaimedOnce partNew run ∧
      (AllStates partStep CasHolds partNew run ↔ AllSteps partStep SeedsOwn partNew run) := by
  constructor
  · have hall : AllStates partStep RootClaimedOnce partNew run ↔
        AllSteps partStep anyStep partNew run :=
      allStates_iff_allSteps (I := PartInv) (fun s a t h hst => h.step hst)
        (fun s a t h _ hst => ⟨fun _ => trivial, fun _ => (h.step hst).rootClaimedOnce⟩) run
        PartInv.start PartInv.start.rootClaimedOnce
    exact hall.mpr (allSteps_anyStep partNew run)
  · exact allStates_iff_allSteps (I := PartInv) (fun s a t h hst => h.step hst)
      (fun s a t h hc hst => casHolds_iff h hc hst) run PartInv.start fun _ _ h => nomatch h

/-- A step of node `j` that finds memory. -/
def nodeAt (j : ℕ) : PartOp := .node j { page := true, grow := fun _ => true }

/-- Node 1 claims the root. Node 2 lists the table, which has only the root, and is held up.
Node 1 seeds both shards, and node 2 takes over the shard of node 1. -/
def takeoverBeforeSeed : List PartOp :=
  [.start 1 2, .start 2 2, nodeAt 0, nodeAt 0, nodeAt 1, nodeAt 0, nodeAt 0, .cas 1 1 2]

/-- Node 2 then seeds the shards, and the row is with node 1 again. -/
theorem delayed_seed_undoes_takeover :
    ∃ s t, exec partStep partNew takeoverBeforeSeed = some s ∧ partitionOwner s.rows 1 = some 2 ∧
      partStep s (nodeAt 1) = some t ∧ t.movedTo 1 = some 2 ∧ partitionOwner t.rows 1 = some 1 ∧
      ¬CasHolds t := by
  refine ⟨_, _, rfl, rfl, rfl, rfl, rfl, fun h => ?_⟩
  exact absurd (h 1 2 rfl) (by decide)

end PnfsLattice
