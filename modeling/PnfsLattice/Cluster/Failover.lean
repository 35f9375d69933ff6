import Mathlib.Order.Nat
import PnfsLattice.Cluster.SubtreeMap
import PnfsLattice.Lib.Machine

/-!
# Promotion of a standby

`failover_promote` takes the partitions of a dead partner over: path by path a CAS on the
partition row and then a change of the entry in memory. If the recovery rows cannot be loaded,
it gives back what it took. It finds out what it took from the entries in memory, which a
refresh of the map writes as well.
-/

namespace PnfsLattice

open Lib List Option

/-- `enum failover_role`, without the stages of a demotion. -/
inductive FailoverRole
  | standby
  | promoting
  | primary
  deriving DecidableEq

/-! ## One transfer -/

/-- The next access of `subtree_map_failover_transfer`. -/
inductive TransferAt
  | lookup
  | cas (id : ℕ)
  | mem
  deriving DecidableEq

/-- What an access leaves: the partition that a CAS has moved, and either the next access or the
status, where `none` is `MDS_OK`. -/
structure TransferOut where
  rows : List PartitionRow
  map : List SubtreeEntry
  moved : Option ℕ
  next : TransferAt ⊕ Option MdsStatus

/-- One access of `subtree_map_failover_transfer`. -/
def failoverTransferStep (path : SubtreePath) (expected new : MdsId) (rows : List PartitionRow)
    (map : List SubtreeEntry) : TransferAt → TransferOut
  | .lookup =>
    match findExact map path with
    | none => ⟨rows, map, none, .inr (some .notfound)⟩
    | some e =>
      if e.ownerMdsId ≠ expected then ⟨rows, map, none, .inr (some .stale)⟩
      else if e.pmBacked then ⟨rows, map, none, .inl (.cas e.partitionId)⟩
      else ⟨rows, map, none, .inl .mem⟩
  | .cas id =>
    match memPartitionCas id expected new .active rows with
    | .error st => ⟨rows, map, none, .inr (some st)⟩
    | .ok rows => ⟨rows, map, some id, .inl .mem⟩
  | .mem =>
    match transferInMemory path expected new map with
    | .error st => ⟨rows, map, none, .inr (some st)⟩
    | .ok map => ⟨rows, map, none, .inr none⟩

/-! ## The promotion -/

/-- The next access of `failover_promote`; `paths` is `taken_paths`. -/
inductive PromoteAt
  | idle
  | precheck
  | count
  | snapshot (i mapN : ℕ) (paths : List SubtreePath)
  | getOwned (paths : List SubtreePath)
  /-- The loop of `subtree_map_failover_take_over`: whether the partner owned nothing, what is
  left, how many were taken, whether the store failed, and where the transfer stands. -/
  | takeOver (paths : List SubtreePath) (ownedNone : Bool) (todo : List SubtreePath)
      (taken : ℕ) (storeFailed : Bool) (x : TransferAt)
  | loadRecovery (paths : List SubtreePath)
  | rollback (st : MdsStatus) (todo : List SubtreePath) (x : TransferAt)
  | publish
  deriving DecidableEq

/-- The next access of `subtree_map_refresh_from_catalogue`. -/
inductive RefreshAt
  | list (cursor : ℕ)
  | load (page : List PartitionRow) (cursor : ℕ)
  | done
  deriving DecidableEq

/-- A node. For the statement: the partition table when the call of `failover_promote` began,
the rows that its CASes have won, and whether its recovery rows were loaded. -/
structure FoNode where
  selfId : MdsId
  role : FailoverRole
  map : List SubtreeEntry
  promote : PromoteAt
  refreshes : List RefreshAt
  before : List PartitionRow
  won : List ℕ
  loaded : Bool

/-- A call of `failover_promote` that has returned; `none` is `MDS_OK`. -/
structure Outcome where
  node : MdsId
  status : Option MdsStatus
  role : FailoverRole
  before : List PartitionRow
  after : List PartitionRow
  won : List ℕ
  loaded : Bool

/-- What the prechecks, the allocator and the recovery load answer. -/
structure FoEnv where
  precheck : Bool
  mem : Bool
  load : Option MdsStatus

/-- What an access of `failover_promote` leaves; `moved` is the partition that a CAS has moved,
and its owner by that. -/
structure PromoteOut where
  rows : List PartitionRow
  node : FoNode
  moved : Option (ℕ × MdsId)
  outcome : Option Outcome

/-- The call goes on. -/
def FoNode.goOn (node : FoNode) (rows : List PartitionRow) (promote : PromoteAt) : PromoteOut :=
  { rows, node := { node with promote }, moved := none, outcome := none }

/-- The call returns. -/
def FoNode.finish (node : FoNode) (rows : List PartitionRow) (status : Option MdsStatus)
    (role : FailoverRole) : PromoteOut :=
  { rows, node := { node with promote := .idle, role }, moved := none
    outcome := some ⟨node.selfId, status, role, node.before, rows, node.won, node.loaded⟩ }

/-- The loop of `subtree_map_failover_take_over` after an access of its transfer. -/
def FoNode.tookOver (node : FoNode) (paths : List SubtreePath) (ownedNone : Bool)
    (path : SubtreePath) (todo : List SubtreePath) (taken : ℕ) (storeFailed : Bool)
    (out : TransferOut) : PromoteOut :=
  let promote := match out.next with
    | .inl x => .takeOver paths ownedNone (path :: todo) taken storeFailed x
    | .inr none => .takeOver paths ownedNone todo (taken + 1) storeFailed .lookup
    | .inr (some st) =>
      -- `take_over_note_failure`
      .takeOver paths ownedNone todo taken (storeFailed || (st ≠ .stale && st ≠ .notfound))
        .lookup
  { rows := out.rows, moved := out.moved.map fun id => (id, node.selfId), outcome := none
    node := { node with map := out.map, promote, won := out.moved.toList ++ node.won } }

/-- The loop of `rollback_taken_paths` after an access of its transfer. -/
def FoNode.gaveBack (node : FoNode) (partner : MdsId) (st : MdsStatus) (path : SubtreePath)
    (todo : List SubtreePath) (out : TransferOut) : PromoteOut :=
  let promote := match out.next with
    | .inl x => .rollback st (path :: todo) x
    | .inr _ => .rollback st todo .lookup
  { rows := out.rows, moved := out.moved.map fun id => (id, partner), outcome := none
    node := { node with map := out.map, promote } }

/-- One access of `failover_promote`. -/
def promoteStep (partner : MdsId) (rows : List PartitionRow) (node : FoNode) (env : FoEnv) :
    PromoteAt → Option PromoteOut
  | .idle => none
  | .precheck =>
    if env.precheck then some (node.goOn rows .count)
    else some (node.finish rows (some .perm) .standby)
  | .count =>
    if node.map.length = 0 then some (node.goOn rows (.getOwned []))
    else if !env.mem then some (node.finish rows (some .nomem) .standby)
    else some (node.goOn rows (.snapshot 0 node.map.length []))
  | .snapshot i mapN paths =>
    if mapN ≤ i then some (node.goOn rows (.getOwned paths))
    else
      let found := (node.map[i]?.filter fun e => e.ownerMdsId = partner).map SubtreeEntry.path
      some (node.goOn rows (.snapshot (i + 1) mapN (paths ++ found.toList)))
  | .getOwned paths =>
    let owned := (node.map.filter fun e => e.ownerMdsId = partner).map SubtreeEntry.path
    if !owned.isEmpty && !env.mem then some (node.finish rows (some .io) .standby)
    else some (node.goOn rows (.takeOver paths owned.isEmpty owned 0 false .lookup))
  | .takeOver paths ownedNone [] taken storeFailed _ =>
    if 0 < taken || ownedNone then some (node.goOn rows (.loadRecovery paths))
    else if storeFailed then some (node.finish rows (some .io) .standby)
    else some (node.finish rows (some .stale) .standby)
  | .takeOver paths ownedNone (path :: todo) taken storeFailed x =>
    some (node.tookOver paths ownedNone path todo taken storeFailed
      (failoverTransferStep path partner node.selfId rows node.map x))
  | .loadRecovery paths =>
    match env.load with
    | some st => some (node.goOn rows (.rollback st paths .lookup))
    | none => some ({ node with loaded := true }.goOn rows .publish)
  | .rollback st [] _ => some (node.finish rows (some st) .standby)
  | .rollback st (path :: todo) x =>
    some (node.gaveBack partner st path todo
      (failoverTransferStep path node.selfId partner rows node.map x))
  | .publish => some (node.finish rows none .primary)

/-! ## The system -/

/-- Nodes with one partner on one partition table. For the statement: `takers` are the rows
that were taken from the partner and not given back, with their takers, and `outcomes` the calls
that have returned. -/
structure FoSys where
  partner : MdsId
  rows : List PartitionRow
  nodes : List FoNode
  takers : List (ℕ × MdsId)
  outcomes : List Outcome

/-- The takers after a partition has moved. -/
def noteMoved (partner : MdsId) (takers : List (ℕ × MdsId)) : Option (ℕ × MdsId) → List (ℕ × MdsId)
  | none => takers
  | some (id, owner) =>
    if owner = partner then eraseKey Prod.fst id takers else (id, owner) :: takers

/-- The access of one node becomes one of the system. -/
def FoSys.commit (s : FoSys) (n : ℕ) (out : PromoteOut) : FoSys :=
  { s with
    rows := out.rows
    nodes := s.nodes.set n out.node
    takers := noteMoved s.partner s.takers out.moved
    outcomes := out.outcome.toList ++ s.outcomes }

/-- What happens next. -/
inductive FoOp
  /-- `failover_promote` is called on a node. -/
  | promote (n : ℕ)
  /-- Its call goes on. -/
  | promoteStep (n : ℕ) (env : FoEnv)
  /-- `subtree_map_refresh_from_catalogue` is called on a node. -/
  | refresh (n : ℕ)
  /-- A refresh goes on. -/
  | refreshStep (n k : ℕ) (grow : Bool)

/-- `failover_promote` is called: only a standby begins. -/
def promoteCall (rows : List PartitionRow) (node : FoNode) : PromoteOut :=
  if node.role ≠ .standby then
    { rows, node, moved := none
      outcome := some ⟨node.selfId, some .perm, node.role, rows, rows, [], false⟩ }
  else
    { node with role := .promoting, before := rows, won := [], loaded := false }.goOn rows
      .precheck

def refreshStep (rows : List PartitionRow) (grow : Bool) (map : List SubtreeEntry) :
    RefreshAt → Option (List SubtreeEntry × RefreshAt)
  | .list cursor =>
    if memdbMaxPartitions ≤ cursor then some (map, .done)
    else
      let page := memPartitionPage cursor rows
      some (map, .load page.1 page.2)
  | .load [] cursor => some (map, .list cursor)
  | .load (row :: page) cursor => some (pmLoad row grow map, .load page cursor)
  | .done => none

/-- One access to the table or to a node's map. -/
def foStep (s : FoSys) : FoOp → Option FoSys
  | .promote n => s.nodes[n]?.map fun node => s.commit n (promoteCall s.rows node)
  | .promoteStep n env => s.nodes[n]?.bind fun node =>
    (promoteStep s.partner s.rows node env node.promote).map (s.commit n)
  | .refresh n => s.nodes[n]?.map fun node =>
    { s with nodes := s.nodes.set n { node with refreshes := node.refreshes ++ [.list 0] } }
  | .refreshStep n k grow => s.nodes[n]?.bind fun node => node.refreshes[k]?.bind fun x =>
    (refreshStep s.rows grow node.map x).map fun r =>
      { s with nodes := s.nodes.set n
                 { node with map := r.1, refreshes := node.refreshes.set k r.2 } }

/-- Different nodes, none of them the partner, and no call under way; the table and the maps
are whatever they are. -/
def FoStart (s : FoSys) : Prop :=
  (s.nodes.map FoNode.selfId).Nodup ∧
  (∀ node ∈ s.nodes, node.selfId ≠ s.partner ∧ node.promote = .idle) ∧
  s.takers = [] ∧ s.outcomes = []

/-! ## The property -/

/-- A row that has left the partner for a node is that node's, and it leaves for no other node
before it was given back. -/
def LeavesOnce (s : FoSys) : Prop :=
  (s.takers.map Prod.fst).Nodup ∧ ∀ t ∈ s.takers, partitionOwner s.rows t.1 = some t.2

/-- A call that failed has left no row with the node that was not its own before, and one that
won a row and loaded the recovery rows has made it primary. -/
def Outcome.agrees (o : Outcome) : Prop :=
  (o.status ≠ none → ∀ id, partitionOwner o.after id = some o.node →
    partitionOwner o.before id = some o.node) ∧
  (o.won ≠ [] → o.loaded = true → o.status = none ∧ o.role = .primary)

/-- Outcomes agree with the store, and a call that has loaded the recovery rows has nothing left
to do but to publish. -/
def OutcomesAgree (s : FoSys) : Prop :=
  (∀ o ∈ s.outcomes, o.agrees) ∧
  ∀ node ∈ s.nodes, node.promote ≠ .idle → node.loaded = true → node.promote = .publish

/-! ## The condition -/

/-- Loading the row changes no entry of the partner or of the node itself and gives none to the
partner. -/
def FoNode.loadsApart (node : FoNode) (partner : MdsId) (row : PartitionRow) : Prop :=
  (∀ e ∈ node.map, e.path = row.subtreePath →
    (e.ownerMdsId = row.ownerMdsId ∧ e.partitionId = row.partitionId ∧ e.pmBacked = true) ∨
    (e.ownerMdsId ≠ partner ∧ e.ownerMdsId ≠ node.selfId ∧ row.ownerMdsId ≠ partner)) ∧
  ((∀ e ∈ node.map, e.path ≠ row.subtreePath) → row.ownerMdsId ≠ partner)
deriving Decidable

def RefreshAt.loads : RefreshAt → Option PartitionRow
  | .load (row :: _) _ => some row
  | _ => none

/-- While a node is promoting, its refreshes load apart. -/
def RefreshApart (s : FoSys) : FoOp → Prop
  | .refreshStep n k _ => ∀ node ∈ s.nodes[n]?, node.promote ≠ .idle →
      ∀ x ∈ node.refreshes[k]?, ∀ row ∈ x.loads, node.loadsApart s.partner row
  | _ => True

instance (s : FoSys) (op : FoOp) : Decidable (RefreshApart s op) := by
  cases op <;> unfold RefreshApart <;> infer_instance

/-! ## What a transfer does -/

/-- Everything that an access of a transfer can do. -/
inductive TransferDoes (path : SubtreePath) (expected new : MdsId) (rows : List PartitionRow)
    (map : List SubtreeEntry) : TransferAt → TransferOut → Prop
  | missed (st : MdsStatus)
      (hno : ∀ e, findExact map path = some e → e.ownerMdsId ≠ expected) :
      TransferDoes path expected new rows map .lookup ⟨rows, map, none, .inr (some st)⟩
  | backed (e : SubtreeEntry) (he : findExact map path = some e)
      (ho : e.ownerMdsId = expected) (hb : e.pmBacked = true) :
      TransferDoes path expected new rows map .lookup
        ⟨rows, map, none, .inl (.cas e.partitionId)⟩
  | memory (e : SubtreeEntry) (he : findExact map path = some e)
      (ho : e.ownerMdsId = expected) (hb : e.pmBacked = false) :
      TransferDoes path expected new rows map .lookup ⟨rows, map, none, .inl .mem⟩
  | refused (id : ℕ) (st : MdsStatus) (hno : partitionOwner rows id ≠ some expected) :
      TransferDoes path expected new rows map (.cas id) ⟨rows, map, none, .inr (some st)⟩
  | won (id : ℕ) (rows' : List PartitionRow) (hwas : partitionOwner rows id = some expected)
      (hrows : ∀ k, partitionOwner rows' k =
        if k = id then some new else partitionOwner rows k) :
      TransferDoes path expected new rows map (.cas id) ⟨rows', map, some id, .inl .mem⟩
  | lost (st : MdsStatus)
      (hno : ∀ e, findExact map path = some e → e.ownerMdsId ≠ expected) :
      TransferDoes path expected new rows map .mem ⟨rows, map, none, .inr (some st)⟩
  | flipped (e e' : SubtreeEntry) (map' : List SubtreeEntry)
      (he : findExact map path = some e) (ho : e.ownerMdsId = expected)
      (hnew : e'.ownerMdsId = new ∧ e'.partitionId = e.partitionId ∧ e'.pmBacked = e.pmBacked)
      (hmap : ∀ k, findExact map' k = if k = path then some e' else findExact map k) :
      TransferDoes path expected new rows map .mem ⟨rows, map', none, .inr none⟩

section Transfer

variable {path : SubtreePath} {expected new : MdsId} {rows : List PartitionRow}
  {map : List SubtreeEntry} {x : TransferAt}

theorem partitionOwner_of_cas_error {id state st}
    (h : memPartitionCas id expected new state rows = .error st) :
    partitionOwner rows id ≠ some expected := by
  unfold memPartitionCas at h
  unfold partitionOwner
  split at h
  next hnone =>
    rw [hnone]
    exact nofun
  next hrow =>
    split at h
    next hne =>
      rw [hrow]
      exact fun heq => hne (some.inj heq)
    · cases h

theorem failoverTransferStep_does : TransferDoes path expected new rows map x
      (failoverTransferStep path expected new rows map x) := by
  cases x with
  | lookup =>
    simp only [failoverTransferStep]
    split
    next hnone => exact .missed _ fun e he => nomatch hnone.symm.trans he
    next e he =>
      split
      next hne =>
        refine .missed _ fun d hd => ?_
        cases mem_unique hd he
        exact hne
      next heq =>
        split
        next hb => exact .backed e he (not_not.mp heq) hb
        next hb => exact .memory e he (not_not.mp heq) (Bool.eq_false_iff.mpr hb)
  | cas id =>
    simp only [failoverTransferStep]
    split
    next st herr => exact .refused id st (partitionOwner_of_cas_error herr)
    next rows' hcas =>
      have howner := partitionOwner_memPartitionCas hcas
      exact .won id rows' (howner id).1 fun k => (howner k).2
  | mem =>
    simp only [failoverTransferStep, transferInMemory]
    cases he : findExact map path with
    | none => exact .lost _ fun e h => nomatch he.symm.trans h
    | some e =>
      by_cases ho : e.ownerMdsId = expected
      · have hset := findExact_of_set
          (g := fun e => { e with ownerMdsId := new, version := nextVersion e.version })
          (fun _ => rfl) he
        simp only [ho, ne_eq, not_true_eq_false, if_false]
        refine .flipped e _ _ he ho ?_ hset
        exact ⟨rfl, rfl, rfl⟩
      · simp only [ne_eq, ho, not_false_eq_true, if_true]
        refine .lost _ fun d hd => ?_
        cases mem_unique hd he
        exact ho

end Transfer

/-! ## The invariant of a call -/

/-- The entry at a path is of a partition row, with this owner. -/
def Holds (map : List SubtreeEntry) (path : SubtreePath) (owner : MdsId) (id : ℕ) : Prop :=
  ∃ e, findExact map path = some e ∧ e.ownerMdsId = owner ∧ e.partitionId = id ∧
    e.pmBacked = true

/-- The call knows that it has taken the row: it will give it back, or need not. -/
def PromoteAt.covers (partner selfId : MdsId) (map : List SubtreeEntry) (id : ℕ) : PromoteAt → Prop
  | .takeOver paths _ todo taken _ x => (0 < taken ∧ ∃ p ∈ paths, Holds map p selfId id) ∨
      x = .mem ∧ ∃ p ∈ todo.head?, Holds map p partner id
  | .loadRecovery paths => ∃ p ∈ paths, Holds map p selfId id
  | .rollback _ todo _ => ∃ p ∈ todo, Holds map p selfId id
  | .publish | .idle => True
  | _ => False

/-- What a call relies on at each of its accesses. -/
def PromoteAt.ok (partner selfId : MdsId) (rows : List PartitionRow) (map : List SubtreeEntry)
    (won : List ℕ) : PromoteAt → Prop
  | .precheck | .count => won = []
  | .snapshot i mapN paths => won = [] ∧
      ∀ (k : ℕ) (e : SubtreeEntry), map[k]? = some e → e.ownerMdsId = partner →
        k < mapN ∧ (k < i → e.path ∈ paths)
  | .getOwned paths => won = [] ∧
      ∀ (k : ℕ) (e : SubtreeEntry), map[k]? = some e → e.ownerMdsId = partner → e.path ∈ paths
  | .takeOver paths _ todo taken _ x => (∀ p ∈ todo, p ∈ paths) ∧
      (won ≠ [] → 0 < taken ∨ x = .mem) ∧
      (∀ id, x = .cas id → ∃ p ∈ todo.head?, Holds map p partner id) ∧
      (x = .mem → ∃ p ∈ todo.head?, ∃ e, findExact map p = some e ∧ e.ownerMdsId = partner)
  | .rollback _ todo x => (∀ id, x = .cas id → ∃ p ∈ todo.head?, Holds map p selfId id) ∧
      (x = .mem → ∃ p ∈ todo.head?, ∃ e, findExact map p = some e ∧ e.ownerMdsId = selfId ∧
        (e.pmBacked = true → partitionOwner rows e.partitionId ≠ some selfId))
  | _ => True

/-- A node while it promotes, and otherwise. -/
structure NodeOk (partner : MdsId) (rows : List PartitionRow) (node : FoNode) : Prop where
  role : node.promote ≠ .idle → node.role = .promoting
  loaded : node.promote ≠ .idle → node.loaded = true → node.promote = .publish
  stage : node.promote.ok partner node.selfId rows node.map node.won
  owned : ∀ id, partitionOwner rows id = some node.selfId →
    partitionOwner node.before id = some node.selfId ∨
      node.promote.covers partner node.selfId node.map id

/-- A change of the map that leaves the partner's and the node's entries where they are. -/
structure MapFrame (partner selfId : MdsId) (map map' : List SubtreeEntry) : Prop where
  found : ∀ p e, findExact map p = some e → e.ownerMdsId = partner ∨ e.ownerMdsId = selfId →
    ∃ e', findExact map' p = some e' ∧ e'.ownerMdsId = e.ownerMdsId ∧
      e'.partitionId = e.partitionId ∧ e'.pmBacked = e.pmBacked
  partners : ∀ (k : ℕ) (e' : SubtreeEntry), map'[k]? = some e' → e'.ownerMdsId = partner →
    ∃ e, map[k]? = some e ∧ e.ownerMdsId = partner ∧ e.path = e'.path

section Frame

variable {partner selfId : MdsId} {rows rows' : List PartitionRow} {map map' : List SubtreeEntry}
  {node : FoNode} {row : PartitionRow}

theorem NodeOk.rowsFrame (h : NodeOk partner rows node)
    (hrows : ∀ id, partitionOwner rows' id = some node.selfId →
      partitionOwner rows id = some node.selfId) : NodeOk partner rows' node := by
  refine ⟨h.role, h.loaded, ?_, fun id hid => h.owned id (hrows id hid)⟩
  have hstage := h.stage
  cases hp : node.promote with
  | rollback =>
    rw [hp] at hstage
    refine ⟨hstage.1, fun hx => ?_⟩
    obtain ⟨p, hhead, e, he, ho, hrow⟩ := hstage.2 hx
    exact ⟨p, hhead, e, he, ho, fun hb heq => hrow hb (hrows _ heq)⟩
  | _ =>
    rw [hp] at hstage
    exact hstage

variable {id : ℕ} {x : PromoteAt}

theorem Holds.frame {p owner} (h : Holds map p owner id) (hf : MapFrame partner selfId map map')
    (howner : owner = partner ∨ owner = selfId) : Holds map' p owner id := by
  obtain ⟨e, he, ho, hid, hb⟩ := h
  obtain ⟨e', he', ho', hid', hb'⟩ := hf.found p e he (by rwa [ho])
  exact ⟨e', he', ho'.trans ho, hid'.trans hid, hb'.trans hb⟩

theorem PromoteAt.covers_frame (h : x.covers partner selfId map id)
    (hf : MapFrame partner selfId map map') : x.covers partner selfId map' id := by
  cases x with
  | takeOver =>
    rcases h with ⟨htaken, p, hp, hh⟩ | ⟨hx, p, hp, hh⟩
    · exact .inl ⟨htaken, p, hp, hh.frame hf (.inr rfl)⟩
    · exact .inr ⟨hx, p, hp, hh.frame hf (.inl rfl)⟩
  | loadRecovery | rollback =>
    obtain ⟨p, hp, hh⟩ := h
    exact ⟨p, hp, hh.frame hf (.inr rfl)⟩
  | _ => exact h

theorem PromoteAt.ok_frame {won} (h : x.ok partner selfId rows map won)
    (hf : MapFrame partner selfId map map') : x.ok partner selfId rows map' won := by
  cases x with
  | snapshot | getOwned =>
    refine ⟨h.1, fun k e' he' ho' => ?_⟩
    obtain ⟨e, he, ho, hpath⟩ := hf.partners k e' he' ho'
    rw [← hpath]
    exact h.2 k e he ho
  | takeOver =>
    obtain ⟨hsub, hwon, hcas, hmem⟩ := h
    refine ⟨hsub, hwon, fun id hx => ?_, fun hx => ?_⟩
    · obtain ⟨p, hp, hh⟩ := hcas id hx
      exact ⟨p, hp, hh.frame hf (.inl rfl)⟩
    · obtain ⟨p, hp, e, he, ho⟩ := hmem hx
      obtain ⟨e', he', ho', -⟩ := hf.found p e he (.inl ho)
      exact ⟨p, hp, e', he', ho'.trans ho⟩
  | rollback =>
    refine ⟨fun id hx => ?_, fun hx => ?_⟩
    · obtain ⟨p, hp, hh⟩ := h.1 id hx
      exact ⟨p, hp, hh.frame hf (.inr rfl)⟩
    · obtain ⟨p, hp, e, he, ho, hrow⟩ := h.2 hx
      obtain ⟨e', he', ho', hid', hb'⟩ := hf.found p e he (.inr ho)
      refine ⟨p, hp, e', he', ho'.trans ho, ?_⟩
      rwa [hid', hb']
  | _ => exact h

def loadEntry (row : PartitionRow) (e : SubtreeEntry) : SubtreeEntry :=
  if e.path = row.subtreePath then
    { e with
      ownerMdsId := row.ownerMdsId, state := row.state, version := 1
      partitionId := row.partitionId, pmBacked := true }
  else e

/-- A load writes entries in place or adds one at the end. -/
theorem getElem?_pmLoad {grow : Bool} {k : ℕ} {e' : SubtreeEntry}
    (h : (pmLoad row grow map)[k]? = some e') :
    (∃ e, map[k]? = some e ∧ (e' = e ∨ e' = loadEntry row e)) ∨
      (∀ e ∈ map, e.path ≠ row.subtreePath) ∧ e'.ownerMdsId = row.ownerMdsId := by
  unfold pmLoad applySubtreeUpsert at h
  split at h
  · exact .inl ⟨e', h, .inl rfl⟩
  split at h
  next =>
    simp only [setEntry, modifyKey, List.getElem?_map, map_eq_some_iff] at h
    obtain ⟨e, he, rfl⟩ := h
    exact .inl ⟨e, he, .inr rfl⟩
  next hnone =>
    split at h
    · rw [List.getElem?_append] at h
      split at h
      · exact .inl ⟨e', h, .inl rfl⟩
      · have hlast := mem_of_getElem? h
        rw [mem_singleton] at hlast
        refine .inr ⟨fun e he hpath => ?_, by rw [hlast]⟩
        exact findKey_eq_none.mp hnone e he hpath
    · exact .inl ⟨e', h, .inl rfl⟩

/-- A load that keeps apart. -/
theorem FoNode.loadsApart.frame (h : node.loadsApart partner row) (grow : Bool) :
    MapFrame partner node.selfId node.map (pmLoad row grow node.map) := by
  refine ⟨fun p e he ho => ?_, fun k e' he' ho' => ?_⟩
  · rcases findExact_pmLoad row grow _ p with hsame | ⟨rfl, e', he', ho', -, -, hid', hb'⟩
    · exact ⟨e, hsame.trans he, rfl, rfl, rfl⟩
    · refine ⟨e', he', ?_⟩
      rcases h.1 e (mem_of_findKey he) (key_of_findKey he) with ⟨howner, hid, hb⟩ | ⟨hnp, hns, -⟩
      · exact ⟨ho'.trans howner.symm, hid'.trans hid.symm, hb'.trans hb.symm⟩
      · rcases ho with ho | ho
        · exact absurd ho hnp
        · exact absurd ho hns
  · rcases getElem?_pmLoad he' with ⟨e, he, rfl | rfl⟩ | ⟨hnew, hrow⟩
    · exact ⟨e', he, ho', rfl⟩
    · refine ⟨e, he, ?_⟩
      unfold loadEntry at ho' ⊢
      split at ho'
      next hpath =>
        rw [if_pos hpath]
        rcases h.1 e (mem_of_getElem? he) hpath with ⟨howner, -⟩ | ⟨-, -, hnp⟩
        · exact ⟨howner.trans ho', rfl⟩
        · exact absurd ho' hnp
      next hpath =>
        rw [if_neg hpath]
        exact ⟨ho', rfl⟩
    · exact absurd (hrow.symm.trans ho') (h.2 hnew)

end Frame

/-! ## The call keeps its invariant -/

section Call

variable {partner : MdsId} {rows : List PartitionRow} {node : FoNode} {env : FoEnv}
  {out : PromoteOut}

theorem NodeOk.of_idle (h : node.promote = .idle) : NodeOk partner rows node := by
  refine ⟨fun hne => absurd h hne, fun hne => absurd h hne, ?_, fun _ _ => .inr ?_⟩
  · rw [h]
    trivial
  · rw [h]
    trivial

variable {x : PromoteAt} {st : MdsStatus} {map : List SubtreeEntry} {p q : SubtreePath} {m : MdsId}
  {id : ℕ} {todo : List SubtreePath} {path : SubtreePath} {t : TransferOut}

theorem NodeOk.finish_failed (h : NodeOk partner rows node) (hp : node.promote = x)
    (hcovers : ∀ id, ¬ x.covers partner node.selfId node.map id)
    (hnone : node.won = [] ∨ node.loaded = false) :
    NodeOk partner rows (node.finish rows (some st) .standby).node ∧
      ∀ o ∈ (node.finish rows (some st) .standby).outcome, o.agrees := by
  subst hp
  refine ⟨.of_idle rfl, ?_⟩
  rintro o ⟨⟩
  refine ⟨fun _ id hid => (h.owned id hid).resolve_right (hcovers id), fun hwon hloaded => ?_⟩
  rcases hnone with hw | hl
  · exact absurd hw hwon
  · exact nomatch hl.symm.trans hloaded

theorem NodeOk.goOn {y} (h : NodeOk partner rows node) (hp : node.promote = x)
    (hok : y.ok partner node.selfId rows node.map node.won)
    (hcovers : ∀ id, x.covers partner node.selfId node.map id →
      y.covers partner node.selfId node.map id := by exact fun _ hc => hc)
    (hat : x ≠ .idle ∧ x ≠ .publish := by exact ⟨nofun, nofun⟩) :
    NodeOk partner rows (node.goOn rows y).node ∧
      ∀ o ∈ (node.goOn rows y).outcome, o.agrees := by
  subst hp
  refine ⟨⟨fun _ => h.role hat.1, fun _ hl => absurd (h.loaded hat.1 hl) hat.2, hok, ?_⟩, nofun⟩
  exact fun id hid => (h.owned id hid).imp_right (hcovers id)

theorem Holds.ne_path {e} (h : Holds map p m id) (he : findExact map q = some e)
    (hne : e.ownerMdsId ≠ m) : p ≠ q := by
  rintro rfl
  obtain ⟨d, hd, ho, -⟩ := h
  cases mem_unique hd he
  exact hne ho

theorem Holds.flip {map' e'} (h : Holds map p m id)
    (hmap : ∀ k, findExact map' k = if k = q then some e' else findExact map k) (hne : p ≠ q) :
    Holds map' p m id := by
  obtain ⟨e, he, hrest⟩ := h
  exact ⟨e, ((hmap p).trans (if_neg hne)).trans he, hrest⟩

section

variable (hne : node.selfId ≠ partner)

include hne

theorem NodeOk.tookOver {paths ownedNone storeFailed taken x} (h : NodeOk partner rows node)
    (hp : node.promote = .takeOver paths ownedNone (path :: todo) taken storeFailed x)
    (hdoes : TransferDoes path partner node.selfId rows node.map x t) :
    NodeOk partner (node.tookOver paths ownedNone path todo taken storeFailed t).rows
      (node.tookOver paths ownedNone path todo taken storeFailed t).node := by
  obtain ⟨hrole, hloaded, hstage, howned⟩ := h
  rw [hp] at hstage howned hrole hloaded
  obtain ⟨hsub, hwon, hcas, hmem⟩ := hstage
  have hrun {P : Prop} (_ : P) : node.role = .promoting := hrole nofun
  have hnotyet {P Q : Prop} (_ : P) (hl : node.loaded = true) : Q := nomatch hloaded nofun hl
  have htail : ∀ p ∈ todo, p ∈ paths := fun p hp => hsub p (mem_cons_of_mem _ hp)
  have htaken : x ≠ .mem → node.won ≠ [] → 0 < taken := fun hx hw => (hwon hw).resolve_right hx
  have hearlier : x ≠ .mem → ∀ id, partitionOwner rows id = some node.selfId →
      partitionOwner node.before id = some node.selfId ∨
        0 < taken ∧ ∃ p ∈ paths, Holds node.map p node.selfId id :=
    fun hx id hid => (howned id hid).imp_right fun hc => hc.resolve_right fun h => hx h.1
  cases hdoes with
  | missed | refused id =>
    refine ⟨hrun, hnotyet, ⟨htail, ?_, nofun, nofun⟩, ?_⟩
    · exact fun hw => .inl (htaken nofun hw)
    · exact fun id hid => (hearlier nofun id hid).imp_right .inl
  | backed e he ho hb =>
    refine ⟨hrun, hnotyet, ⟨hsub, ?_, ?_, nofun⟩, ?_⟩
    · exact fun hw => .inl (htaken nofun hw)
    · rintro id ⟨⟩
      exact ⟨path, rfl, e, he, ho, rfl, hb⟩
    · exact fun id hid => (hearlier nofun id hid).imp_right .inl
  | memory e he ho =>
    refine ⟨hrun, hnotyet, ⟨hsub, ?_, nofun, ?_⟩, ?_⟩
    · exact fun _ => .inr rfl
    · exact fun _ => ⟨path, rfl, e, he, ho⟩
    · exact fun id hid => (hearlier nofun id hid).imp_right .inl
  | won id _ _ hrows =>
    obtain ⟨p, hhead, hholds⟩ := hcas id rfl
    refine ⟨hrun, hnotyet, ⟨hsub, ?_, nofun, ?_⟩, ?_⟩
    · exact fun _ => .inr rfl
    · obtain ⟨e, he, ho, -⟩ := hholds
      exact fun _ => ⟨p, hhead, e, he, ho⟩
    intro k hk
    by_cases hkid : k = id
    · exact .inr (.inr ⟨rfl, p, hhead, hkid ▸ hholds⟩)
    · have hold : partitionOwner rows k = some node.selfId :=
        ((hrows k).trans (if_neg hkid)).symm.trans hk
      exact (hearlier nofun k hold).imp_right .inl
  | lost _ hno =>
    obtain ⟨p, ⟨⟩, e, he, ho⟩ := hmem rfl
    exact absurd ho (hno e he)
  | flipped e e' _ he ho hnew hmap =>
    refine ⟨hrun, hnotyet, ⟨htail, ?_, nofun, nofun⟩, ?_⟩
    · exact fun _ => .inl (Nat.succ_pos taken)
    refine fun id hid => (howned id hid).imp_right fun hc => .inl ⟨Nat.succ_pos taken, ?_⟩
    rcases hc with ⟨-, p, hp, hh⟩ | ⟨-, p, ⟨⟩, d, hd, -, hid', hb⟩
    · exact ⟨p, hp, hh.flip hmap (hh.ne_path he (ho ▸ hne.symm))⟩
    · cases mem_unique hd he
      exact ⟨path, hsub path mem_cons_self, e', (hmap path).trans (if_pos rfl), hnew.1,
        hnew.2.1.trans hid', hnew.2.2.trans hb⟩

theorem NodeOk.gaveBack {x} (h : NodeOk partner rows node)
    (hp : node.promote = .rollback st (path :: todo) x)
    (hdoes : TransferDoes path node.selfId partner rows node.map x t) :
    NodeOk partner (node.gaveBack partner st path todo t).rows
      (node.gaveBack partner st path todo t).node := by
  obtain ⟨hrole, hloaded, hstage, howned⟩ := h
  rw [hp] at hstage howned hrole hloaded
  obtain ⟨hcas, hmem⟩ := hstage
  have hrun {P : Prop} (_ : P) : node.role = .promoting := hrole nofun
  have hnotyet {P Q : Prop} (_ : P) (hl : node.loaded = true) : Q := nomatch hloaded nofun hl
  cases hdoes with
  | missed _ hno =>
    refine ⟨hrun, hnotyet, ⟨nofun, nofun⟩, ?_⟩
    refine fun id hid => (howned id hid).imp_right ?_
    rintro ⟨p, hp, hh⟩
    rcases mem_cons.mp hp with rfl | hp
    · obtain ⟨e, he, ho, -⟩ := hh
      exact absurd ho (hno e he)
    · exact ⟨p, hp, hh⟩
  | backed e he ho hb =>
    refine ⟨hrun, hnotyet, ⟨?_, nofun⟩, howned⟩
    rintro id ⟨⟩
    exact ⟨path, rfl, e, he, ho, rfl, hb⟩
  | memory e he ho hb =>
    refine ⟨hrun, hnotyet, ⟨nofun, fun _ => ?_⟩, howned⟩
    exact ⟨path, rfl, e, he, ho, fun hb' => nomatch hb.symm.trans hb'⟩
  | refused id _ hno =>
    obtain ⟨p, ⟨⟩, e, he, ho, hid, hb⟩ := hcas id rfl
    refine ⟨hrun, hnotyet, ⟨nofun, nofun⟩, ?_⟩
    refine fun k hk => (howned k hk).imp_right ?_
    rintro ⟨p, hp, hh⟩
    rcases mem_cons.mp hp with rfl | hp
    · obtain ⟨d, hd, -, hdid, -⟩ := hh
      cases mem_unique hd he
      rw [← hdid, hid] at hk
      exact absurd hk hno
    · exact ⟨p, hp, hh⟩
  | won id rows' _ hrows =>
    obtain ⟨p, hhead, e, he, ho, hid, hb⟩ := hcas id rfl
    have hback : ∀ k, partitionOwner rows' k = some node.selfId →
        k ≠ id ∧ partitionOwner rows k = some node.selfId := by
      intro k hk
      rw [hrows k] at hk
      split at hk
      · exact absurd (some.inj hk).symm hne
      next hkid => exact ⟨hkid, hk⟩
    refine ⟨hrun, hnotyet, ⟨nofun, fun _ => ?_⟩, ?_⟩
    · exact ⟨p, hhead, e, he, ho, fun _ hrow => (hback _ hrow).1 hid⟩
    · exact fun k hk => howned k (hback k hk).2
  | lost _ hno =>
    obtain ⟨p, ⟨⟩, e, he, ho, -⟩ := hmem rfl
    exact absurd ho (hno e he)
  | flipped e _ _ he _ _ hmap =>
    obtain ⟨p, ⟨⟩, d, hd, -, hrow⟩ := hmem rfl
    cases mem_unique hd he
    refine ⟨hrun, hnotyet, ⟨nofun, nofun⟩, ?_⟩
    refine fun k hk => (howned k hk).imp_right ?_
    rintro ⟨p, hp, hh⟩
    -- The entry that was flipped stands for a row that is given back.
    have hother : p ≠ path := by
      rintro rfl
      obtain ⟨_, hd', -, hid, hb⟩ := hh
      cases mem_unique hd' he
      exact hrow hb (hid ▸ hk)
    exact ⟨p, (mem_cons.mp hp).resolve_left hother, hh.flip hmap hother⟩

theorem NodeOk.promoteStep (h : NodeOk partner rows node)
    (hst : promoteStep partner rows node env node.promote = some out) :
    NodeOk partner out.rows out.node ∧ ∀ o ∈ out.outcome, o.agrees := by
  have hstage := h.stage
  generalize hp : node.promote = x at hst hstage
  cases x <;> simp only [PnfsLattice.promoteStep] at hst
  case idle => cases hst
  case precheck =>
    split at hst <;> cases hst
    · exact h.goOn hp hstage
    · exact h.finish_failed hp (fun _ hc => hc) (.inl hstage)
  case count =>
    split at hst
    next hempty =>
      cases hst
      refine h.goOn hp ⟨hstage, ?_⟩
      · intro k e he
        rw [length_eq_zero_iff.mp hempty] at he
        cases he
    next =>
      split at hst <;> cases hst
      · exact h.finish_failed hp (fun _ hc => hc) (.inl hstage)
      · refine h.goOn hp ⟨hstage, ?_⟩
        · exact fun k e he _ => ⟨(List.getElem?_eq_some_iff.mp he).1, nofun⟩
  case snapshot i mapN paths =>
    split at hst <;> cases hst
    next hle =>
      refine h.goOn hp ⟨hstage.1, ?_⟩
      · intro k e he ho
        obtain ⟨hk, hpath⟩ := hstage.2 k e he ho
        exact hpath (hk.trans_le hle)
    · refine h.goOn hp ⟨hstage.1, ?_⟩
      · intro k e he ho
        obtain ⟨hk, hpath⟩ := hstage.2 k e he ho
        refine ⟨hk, fun hki => mem_append.mpr ?_⟩
        rcases Nat.lt_succ_iff_lt_or_eq.mp hki with hki | rfl
        · exact .inl (hpath hki)
        · simp [he, ho]
  case getOwned paths =>
    split at hst <;> cases hst
    · exact h.finish_failed hp (fun _ hc => hc) (.inl hstage.1)
    refine h.goOn hp ⟨?_, ?_, nofun, nofun⟩ fun _ hc => hc.elim
    · intro p hmem
      obtain ⟨e, he, rfl⟩ := mem_map.mp hmem
      obtain ⟨hin, ho⟩ := mem_filter.mp he
      obtain ⟨k, hk⟩ := mem_iff_getElem?.mp hin
      exact hstage.2 k e hk (of_decide_eq_true ho)
    · exact fun hw => absurd hstage.1 hw
  case takeOver paths ownedNone todo taken storeFailed x =>
    cases todo with
    | nil =>
      obtain ⟨-, hwon, -, hmem⟩ := hstage
      have hx : x ≠ .mem := by
        intro hx
        obtain ⟨p, hhead, -⟩ := hmem hx
        cases hhead
      have hcovers : ∀ id, (PromoteAt.takeOver paths ownedNone [] taken storeFailed x).covers
          partner node.selfId node.map id →
          0 < taken ∧ ∃ p ∈ paths, Holds node.map p node.selfId id :=
        fun _ hc => hc.resolve_right fun hmem => hx hmem.1
      simp only at hst
      split at hst
      next =>
        cases hst
        exact h.goOn hp trivial
          fun id hc => (hcovers id hc).2
      next hnone =>
        have hzero : ¬ 0 < taken := by
          intro hpos
          simp [hpos] at hnone
        have hnowon : node.won = [] := by
          by_contra hw
          exact hzero ((hwon hw).resolve_right hx)
        split at hst
        all_goals
          cases hst
          exact h.finish_failed hp (fun id hc => hzero (hcovers id hc).1) (.inl hnowon)
    | cons path =>
      have hdoes := @failoverTransferStep_does path partner node.selfId rows node.map x
      cases hst
      exact ⟨h.tookOver hne hp hdoes, nofun⟩
  case loadRecovery paths =>
    split at hst <;> cases hst
    · exact h.goOn hp ⟨nofun, nofun⟩
    · refine ⟨⟨fun _ => h.role (by rw [hp]; nofun), fun _ _ => rfl, trivial, ?_⟩, nofun⟩
      exact fun _ _ => .inr trivial
  case rollback st todo x =>
    cases todo with
    | nil =>
      cases hst
      refine h.finish_failed hp (fun _ hc => ?_) (.inr ?_)
      · obtain ⟨p, hmem, -⟩ := hc
        cases hmem
      · refine Bool.eq_false_iff.mpr fun hl => ?_
        have hpublish := h.loaded (by rw [hp]; nofun) hl
        cases hp.symm.trans hpublish
    | cons path =>
      have hdoes := @failoverTransferStep_does path node.selfId partner rows node.map x
      cases hst
      exact ⟨h.gaveBack hne hp hdoes, nofun⟩
  case publish =>
    cases hst
    refine ⟨.of_idle rfl, ?_⟩
    rintro o ⟨⟩
    exact ⟨fun hfail => absurd rfl hfail, fun _ _ => ⟨rfl, rfl⟩⟩

end

end Call

/-! ## The table and the takers -/

/-- What an access of a call does to the table. -/
inductive RowMoves (partner selfId : MdsId) (rows rows' : List PartitionRow) :
    Option (ℕ × MdsId) → Prop
  | still (h : rows' = rows) : RowMoves partner selfId rows rows' none
  | taken (id : ℕ) (hwas : partitionOwner rows id = some partner)
      (hrows : ∀ k, partitionOwner rows' k =
        if k = id then some selfId else partitionOwner rows k) :
      RowMoves partner selfId rows rows' (some (id, selfId))
  | back (id : ℕ) (hwas : partitionOwner rows id = some selfId)
      (hrows : ∀ k, partitionOwner rows' k =
        if k = id then some partner else partitionOwner rows k) :
      RowMoves partner selfId rows rows' (some (id, partner))

/-- Rows that were taken are their takers' and are counted once. -/
structure TakersOk (partner : MdsId) (rows : List PartitionRow) (takers : List (ℕ × MdsId)) :
    Prop where
  nodup : (takers.map Prod.fst).Nodup
  owner : ∀ t ∈ takers, partitionOwner rows t.1 = some t.2
  notPartner : ∀ t ∈ takers, t.2 ≠ partner

section Rows

variable {partner selfId other : MdsId} {rows rows' : List PartitionRow}
  {moved : Option (ℕ × MdsId)} {takers : List (ℕ × MdsId)}

/-- No node gives a row to another node. -/
theorem RowMoves.frame (h : RowMoves partner selfId rows rows' moved) (hself : other ≠ selfId)
    (hpartner : other ≠ partner) (k : ℕ) (hk : partitionOwner rows' k = some other) :
    partitionOwner rows k = some other := by
  cases h with
  | still h => rwa [h] at hk
  | taken _ _ hrows | back _ _ hrows =>
    rw [hrows k] at hk
    split at hk
    · exact absurd (some.inj hk).symm ‹_›
    · exact hk

theorem TakersOk.noteMoved (h : TakersOk partner rows takers) (hne : selfId ≠ partner)
    (hm : RowMoves partner selfId rows rows' moved) :
    TakersOk partner rows' (noteMoved partner takers moved) := by
  cases hm with
  | still heq =>
    rw [heq]
    exact h
  | taken id hwas hrows =>
    -- The row was the partner's, so nobody has it.
    have hfree : ∀ t ∈ takers, t.1 ≠ id := by
      rintro t ht rfl
      exact h.notPartner t ht (some.inj ((h.owner t ht).symm.trans hwas))
    rw [PnfsLattice.noteMoved, if_neg hne]
    refine ⟨nodup_map_cons.mpr ⟨hfree, h.nodup⟩,
      forall_mem_cons.mpr ⟨(hrows id).trans (if_pos rfl), fun t ht => ?_⟩,
      forall_mem_cons.mpr ⟨hne, h.notPartner⟩⟩
    exact ((hrows t.1).trans (if_neg (hfree t ht))).trans (h.owner t ht)
  | back _ _ hrows =>
    rw [PnfsLattice.noteMoved, if_pos rfl]
    refine ⟨?_, fun t ht => ?_, fun t ht => h.notPartner t (mem_eraseKey.mp ht).1⟩
    · exact h.nodup.sublist (filter_sublist.map _)
    · obtain ⟨hin, hne'⟩ := mem_eraseKey.mp ht
      exact ((hrows t.1).trans (if_neg hne')).trans (h.owner t hin)

variable {path : SubtreePath} {map : List SubtreeEntry} {x : TransferAt} {t : TransferOut}

theorem TransferDoes.takes (h : TransferDoes path partner selfId rows map x t) :
    RowMoves partner selfId rows t.rows (t.moved.map fun id => (id, selfId)) := by
  cases h with
  | won id _ hwas hrows => exact .taken id hwas hrows
  | _ => exact .still rfl

theorem TransferDoes.returns (h : TransferDoes path selfId partner rows map x t) :
    RowMoves partner selfId rows t.rows (t.moved.map fun id => (id, partner)) := by
  cases h with
  | won id _ hwas hrows => exact .back id hwas hrows
  | _ => exact .still rfl

theorem promoteStep_moves {node env x out} (h : promoteStep partner rows node env x = some out) :
    out.node.selfId = node.selfId ∧
      RowMoves partner node.selfId rows out.rows out.moved := by
  cases x with
  | idle => cases h
  | takeOver _ _ todo =>
    cases todo with
    | nil =>
      simp only [promoteStep] at h
      repeat' split at h
      all_goals
        cases h
        exact ⟨rfl, .still rfl⟩
    | cons =>
      cases h
      exact ⟨rfl, failoverTransferStep_does.takes⟩
  | rollback _ todo =>
    cases todo with
    | nil =>
      cases h
      exact ⟨rfl, .still rfl⟩
    | cons =>
      cases h
      exact ⟨rfl, failoverTransferStep_does.returns⟩
  | _ =>
    -- The other accesses only read.
    simp only [promoteStep] at h
    repeat' split at h
    all_goals
      cases h
      exact ⟨rfl, .still rfl⟩

end Rows

/-! ## The system -/

/-- What holds in every run, and what holds while refreshes keep apart. -/
structure FoInv (apart : Prop) (s : FoSys) : Prop where
  distinct : (s.nodes.map FoNode.selfId).Nodup
  notPartner : ∀ node ∈ s.nodes, node.selfId ≠ s.partner
  takers : TakersOk s.partner s.rows s.takers
  nodes : ∀ node ∈ s.nodes, apart → NodeOk s.partner s.rows node
  outcomes : ∀ o ∈ s.outcomes, apart → o.agrees

section System

variable {s t : FoSys} {n : ℕ} {node node' : FoNode} {out : PromoteOut} {op : FoOp} {apart : Prop}

theorem map_selfId_set (hn : s.nodes[n]? = some node) (hid : node'.selfId = node.selfId) :
    (s.nodes.set n node').map FoNode.selfId = s.nodes.map FoNode.selfId := by
  obtain ⟨hlt, rfl⟩ := List.getElem?_eq_some_iff.mp hn
  rw [map_set, hid, ← getElem_map FoNode.selfId, set_getElem_self]
  rwa [length_map]

theorem FoInv.set_ids (h : FoInv apart s) (hn : s.nodes[n]? = some node)
    (hid : node'.selfId = node.selfId) : ((s.nodes.set n node').map FoNode.selfId).Nodup ∧
      ∀ a ∈ s.nodes.set n node', a.selfId ≠ s.partner := by
  rw [map_selfId_set hn hid]
  refine ⟨h.distinct, forall_mem_set h.notPartner ?_⟩
  rw [hid]
  exact h.notPartner node (mem_of_getElem? hn)

theorem FoInv.setNode (h : FoInv apart s) (hn : s.nodes[n]? = some node)
    (hid : node'.selfId = node.selfId) (hok : apart → NodeOk s.partner s.rows node') :
    FoInv apart { s with nodes := s.nodes.set n node' } :=
  ⟨(h.set_ids hn hid).1, (h.set_ids hn hid).2, h.takers, forall_mem_set h.nodes hok, h.outcomes⟩

theorem FoInv.commit (h : FoInv apart s) (hn : s.nodes[n]? = some node)
    (hid : out.node.selfId = node.selfId)
    (hm : RowMoves s.partner node.selfId s.rows out.rows out.moved)
    (hok : apart → NodeOk s.partner out.rows out.node ∧ ∀ o ∈ out.outcome, o.agrees) :
    FoInv apart (s.commit n out) := by
  obtain ⟨hdistinct, hnot⟩ := h.set_ids hn hid
  have hne := h.notPartner node (mem_of_getElem? hn)
  refine ⟨hdistinct, hnot, h.takers.noteMoved hne hm, fun a ha hap => ?_,
    forall_mem_append.mpr ⟨fun o ho hap => (hok hap).2 o (mem_toList.mp ho), h.outcomes⟩⟩
  obtain ⟨m, hget⟩ := mem_iff_getElem?.mp ha
  rw [show (s.commit n out).nodes = s.nodes.set n out.node from rfl, List.getElem?_set] at hget
  split at hget
  next =>
    split at hget <;> cases hget
    exact (hok hap).1
  next hmn =>
    have hin := mem_of_getElem? hget
    -- Another node has another id.
    have hother : a.selfId ≠ node.selfId := by
      intro heq
      have hlt : n < (s.nodes.map FoNode.selfId).length := by
        rw [length_map]
        exact (List.getElem?_eq_some_iff.mp hn).1
      refine hmn ((List.getElem?_inj hlt h.distinct).mp ?_)
      rw [List.getElem?_map, List.getElem?_map, hn, hget, map_some, map_some, heq]
    exact (h.nodes a hin hap).rowsFrame (hm.frame hother (h.notPartner a hin))

theorem FoInv.promote (h : FoInv apart s) (hn : s.nodes[n]? = some node) :
    FoInv apart (s.commit n (promoteCall s.rows node)) := by
  unfold promoteCall
  split
  · refine h.commit hn rfl (.still rfl) fun hap => ⟨h.nodes node (mem_of_getElem? hn) hap, ?_⟩
    rintro o ⟨⟩
    exact ⟨fun _ _ hid => hid, fun hwon => absurd rfl hwon⟩
  · exact h.commit hn rfl (.still rfl) fun _ =>
      ⟨⟨fun _ => rfl, nofun, rfl, fun _ hid => .inl hid⟩, nofun⟩

theorem NodeOk.refreshStep {partner rows x k grow r} (hnode : NodeOk partner rows node)
    (hok : node.promote ≠ .idle → ∀ row ∈ x.loads, node.loadsApart partner row)
    (hr : refreshStep rows grow node.map x = some r) : NodeOk partner rows
      { node with map := r.1, refreshes := node.refreshes.set k r.2 } := by
  by_cases hidle : node.promote = .idle
  · exact .of_idle hidle
  have hframe : MapFrame partner node.selfId node.map r.1 := by
    have hsame : r.1 = node.map → MapFrame partner node.selfId node.map r.1 := by
      intro heq
      rw [heq]
      exact ⟨fun p e he _ => ⟨e, he, rfl, rfl, rfl⟩, fun k e he ho => ⟨e, he, ho, rfl⟩⟩
    cases x with
    | list =>
      simp only [PnfsLattice.refreshStep] at hr
      split at hr
      all_goals
        cases hr
        exact hsame rfl
    | load page =>
      cases page with
      | nil =>
        cases hr
        exact hsame rfl
      | cons row =>
        cases hr
        exact (hok hidle row rfl).frame grow
    | done => cases hr
  exact ⟨hnode.role, hnode.loaded, PromoteAt.ok_frame hnode.stage hframe,
    fun id hid => (hnode.owned id hid).imp_right fun hc => PromoteAt.covers_frame hc hframe⟩

theorem FoInv.step (h : FoInv apart s) (hok : apart → RefreshApart s op)
    (hst : foStep s op = some t) : FoInv apart t := by
  cases op with
  | promote =>
    simp only [foStep, map_eq_some_iff] at hst
    obtain ⟨node, hn, rfl⟩ := hst
    exact h.promote hn
  | promoteStep =>
    simp only [foStep, bind_eq_some_iff, map_eq_some_iff] at hst
    obtain ⟨node, hn, _, hout, rfl⟩ := hst
    have hin := mem_of_getElem? hn
    obtain ⟨hid, hm⟩ := promoteStep_moves hout
    exact h.commit hn hid hm fun hap =>
      (h.nodes node hin hap).promoteStep (h.notPartner node hin) hout
  | refresh =>
    simp only [foStep, map_eq_some_iff] at hst
    obtain ⟨node, hn, rfl⟩ := hst
    exact h.setNode hn rfl fun hap => { h.nodes node (mem_of_getElem? hn) hap with }
  | refreshStep =>
    simp only [foStep, bind_eq_some_iff, map_eq_some_iff] at hst
    obtain ⟨node, hn, x, hx, r, hr, rfl⟩ := hst
    exact h.setNode hn rfl fun hap => (h.nodes node (mem_of_getElem? hn) hap).refreshStep
      (fun hp row hrow => hok hap node hn hp x hx row hrow) hr

theorem FoInv.start (h : FoStart s) : FoInv apart s := by
  obtain ⟨hdistinct, hnodes, htakers, houtcomes⟩ := h
  refine ⟨hdistinct, fun node hin => (hnodes node hin).1, ?_,
    fun node hin _ => .of_idle (hnodes node hin).2, by simp [houtcomes]⟩
  constructor <;> simp [htakers]

end System

/-- **A promotion's outcome agrees with the partition store**, in runs in which the refreshes of
a promoting node keep apart; that a row leaves the partner for one node at a time needs no such
condition. -/
theorem promotion_agrees (s : FoSys) : (Reachable FoStart foStep anyStep s → LeavesOnce s) ∧
    (Reachable FoStart foStep RefreshApart s → OutcomesAgree s) := by
  constructor
  · intro h
    have hinv : FoInv False s := h.invariant (P := FoInv False) (fun _ h => .start h)
      fun _ _ _ h _ hst => h.step nofun hst
    exact ⟨hinv.takers.nodup, hinv.takers.owner⟩
  · intro h
    have hinv : FoInv True s := h.invariant (P := FoInv True) (fun _ h => .start h)
      fun _ _ _ h hok hst => h.step (fun _ => hok) hst
    exact ⟨fun o ho => hinv.outcomes o ho trivial,
      fun node hin => (hinv.nodes node hin trivial).loaded⟩

/-- Two standbys with ids 2 and 3 of node 1, which owns one partition. -/
def twoStandbys : FoSys :=
  let standby : MdsId → FoNode := fun selfId =>
    { selfId, role := .standby, map := [⟨[47, 97], 1, 1, .active, 1, true⟩], promote := .idle
      refreshes := [], before := [], won := [], loaded := false }
  { partner := 1, rows := [⟨1, 1, .active, [47, 97]⟩], nodes := [standby 2, standby 3]
    takers := [], outcomes := [] }

/-- An access of the call on node number `n`, with the answer of the recovery load. -/
def promoteAt (n : ℕ) (load : Option MdsStatus) : FoOp :=
  .promoteStep n { precheck := true, mem := true, load }

/-- The call on node number `n` up to its won CAS. -/
def promoteWon (n : ℕ) : List FoOp := .promote n :: List.replicate 7 (promoteAt n none)

/-- A refresh on node number `n` up to the load of the row. -/
def refreshAt (n : ℕ) : List FoOp := [.refresh n, .refreshStep n 0 true, .refreshStep n 0 true]

/-- The first node's recovery load fails and it gives the partition back; then it refreshes and
the second node takes over. -/
def promoteInTurn : List FoOp :=
  promoteWon 0 ++ List.replicate 2 (promoteAt 0 none) ++
    List.replicate 5 (promoteAt 0 (some .io)) ++ refreshAt 0 ++
    promoteWon 1 ++ List.replicate 4 (promoteAt 1 none)

theorem promotion_agrees_inTurn :
    ∃ s, Reachable FoStart foStep RefreshApart s ∧ LeavesOnce s ∧ OutcomesAgree s ∧
      s.takers = [(1, 3)] ∧
      s.outcomes.map (fun o => (o.node, o.status, o.role)) =
        [(3, none, .primary), (2, some .io, .standby)] := by
  have hstart : FoStart twoStandbys := ⟨by decide, by decide, rfl, rfl⟩
  have hs : Reachable FoStart foStep RefreshApart _ := .run twoStandbys promoteInTurn hstart
  exact ⟨_, hs, (promotion_agrees _).1 (.run _ promoteInTurn hstart), (promotion_agrees _).2 hs,
    rfl, rfl⟩

/-- A refresh between the CAS and the flip in memory: the call finds the entry already its own,
counts nothing as taken and returns `MDS_ERR_STALE`, while the table has given it the
partition. -/
theorem refresh_hides_takeover : ∃ s, exec foStep twoStandbys (promoteWon 0 ++ refreshAt 0 ++
        List.replicate 2 (promoteAt 0 none)) = some s ∧
      ∃ o ∈ s.outcomes, o.status = some .stale ∧ o.role = .standby ∧
        partitionOwner o.before 1 = some 1 ∧ partitionOwner o.after 1 = some o.node :=
  ⟨_, rfl, _, mem_cons_self, by decide⟩

end PnfsLattice
