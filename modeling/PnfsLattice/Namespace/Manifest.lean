import Mathlib.Data.List.Dedup
import PnfsLattice.Namespace.System

/-!
# The executor of the remove manifest

An acknowledged remove leaves a file without a name, its inode flagged `DELETE_PENDING`, and
a row in the manifest. `rm_execute` runs the rest: `rm_finalize_inode` queues a row for each
data server of the stripe map, deletes the stripe map and the inode, and then the manifest
row is completed. It ignores what its calls return.
-/

namespace PnfsLattice

open Lib List Option

/-! ## Data servers -/

/-- The data servers for which rows are queued. -/
def queuedDs (acts : List CleanupAct) : List UInt32 :=
  acts.filterMap fun
    | .gc e _ => some e.dsId
    | _ => none

@[simp] theorem queuedDs_map_gc (es : List DsMapEntry) (hint : UInt32) :
    queuedDs (es.map fun e => .gc e hint) = es.map DsMapEntry.dsId := by
  rw [queuedDs, filterMap_map]
  exact congrFun filterMap_eq_map _

/-- The data servers of a stripe map. -/
def StripeSnap.dsIds (s : StripeSnap) : List UInt32 := s.entries.map DsMapEntry.dsId

/-- A map of an admissible geometry. -/
structure StripeSnap.Admissible (s : StripeSnap) : Prop where
  stripes : 1 ≤ s.stripeCount ∧ s.stripeCount ≤ mdsMaxStripes
  mirrors : 1 ≤ s.mirrorCount ∧ s.mirrorCount ≤ mdsMaxMirrors
  length : s.entries.length = s.stripeCount * s.mirrorCount

theorem uniqueDs_spec (seen : List UInt32) (es : List DsMapEntry) :
    ((uniqueDs seen es).map DsMapEntry.dsId).Nodup ∧
      ∀ ds, ds ∈ (uniqueDs seen es).map DsMapEntry.dsId ↔
        ds ∈ es.map DsMapEntry.dsId ∧ ds ∉ seen := by
  induction es generalizing seen with
  | nil => simp [uniqueDs]
  | cons e _ ih =>
    by_cases hseen : e.dsId ∈ seen
    · obtain ⟨hnodup, hmem⟩ := ih seen
      simp only [uniqueDs, hseen, if_true, map_cons, mem_cons]
      refine ⟨hnodup, fun ds => ?_⟩
      rw [hmem]
      by_cases hds : ds = e.dsId <;> simp [hds, hseen]
    · obtain ⟨hnodup, hmem⟩ := ih _
      simp only [uniqueDs, hseen, if_false, map_cons, nodup_cons, mem_cons]
      refine ⟨⟨by simp [hmem], hnodup⟩, fun ds => ?_⟩
      rw [hmem]
      by_cases hds : ds = e.dsId <;> simp [hds, hseen]

variable {s : StripeSnap}

/-- The rows of the drainer are the first 64 of the others. -/
theorem queuedDs_rmGcActs (h : s.Admissible) :
    queuedDs (rmGcActs s) = ((uniqueDs [] s.entries).map DsMapEntry.dsId).take 64 := by
  obtain ⟨⟨hsc, hsc'⟩, ⟨hmc, hmc'⟩, hlen⟩ := h
  have hmax : s.stripeCount * s.mirrorCount ≤ 1024 * 4 := Nat.mul_le_mul hsc' hmc'
  have htake : s.entries.take (min (s.stripeCount * s.mirrorCount) (64 * 64)) = s.entries := by
    rw [Nat.min_eq_left (by omega), ← hlen, take_length]
  have hne : ¬ (s.stripeCount = 0 || s.mirrorCount = 0) = true := by simp; omega
  rw [rmGcActs, if_neg hne, htake, queuedDs_map_gc, map_take]

/-- The drainer queues one row for each data server of the map, and those that the
synchronous path queues. -/
def ReclaimsAll (s : StripeSnap) : Prop :=
  (∀ ds, (queuedDs (rmGcActs s)).count ds = if ds ∈ s.dsIds then 1 else 0) ∧
    ∀ ds, ds ∈ queuedDs (rmGcActs s) ↔ ds ∈ queuedDs (gcActs true s)

theorem mem_queuedDs_gcActs (h : s.Admissible) (ds : UInt32) :
    ds ∈ queuedDs (gcActs true s) ↔ ds ∈ s.dsIds := by
  obtain ⟨⟨hsc, hsc'⟩, ⟨hmc, hmc'⟩, hlen⟩ := h
  have hne : ¬ (s.stripeCount = 0 || s.mirrorCount = 0 || mdsMaxStripes < s.stripeCount ||
      mdsMaxMirrors < s.mirrorCount || !true) = true := by simp; omega
  simp only [gcActs, collectUniqueDs, if_neg hne, ← hlen, take_length, queuedDs_map_gc]
  simpa [StripeSnap.dsIds] using (uniqueDs_spec [] _).2 ds

/-- The first `n` of different things are all of them only if there are no more. -/
theorem mem_take_iff_length_le {α : Type*} {l : List α} (h : l.Nodup) (n : ℕ) :
    (∀ a, a ∈ l.take n ↔ a ∈ l) ↔ l.length ≤ n := by
  constructor
  · intro hall
    have hperm := (perm_ext_iff_of_nodup (h.sublist (take_sublist n l)) h).mpr hall
    have hlen := hperm.length_eq
    rw [length_take] at hlen
    omega
  · intro hle a
    rw [take_of_length_le hle]

/-- The drainer misses no data server exactly if there are at most 64. -/
theorem mem_queuedDs_rmGcActs (h : s.Admissible) :
    (∀ ds, ds ∈ queuedDs (rmGcActs s) ↔ ds ∈ s.dsIds) ↔ s.dsIds.dedup.length ≤ 64 := by
  obtain ⟨hnodup, hmem⟩ := uniqueDs_spec [] _
  have hids : ∀ ds, ds ∈ (uniqueDs [] s.entries).map DsMapEntry.dsId ↔ ds ∈ s.dsIds := by
    simpa [StripeSnap.dsIds] using hmem
  have hlen : ((uniqueDs [] s.entries).map DsMapEntry.dsId).length = s.dsIds.dedup.length :=
    ((perm_ext_iff_of_nodup hnodup (nodup_dedup _)).mpr (by simpa using hids)).length_eq
  rw [← hlen, ← mem_take_iff_length_le hnodup, queuedDs_rmGcActs h]
  simp [hids]

/-- **Which data servers an asynchronous remove reclaims.**  For every map of an admissible
geometry, `rm_finalize_inode` makes its calls in the order rows, stripe map, inode, and for a
map on the inode in the order rows, inode; every row carries the geometry of the map; and
every data server gets its one row, as on the synchronous path, exactly if there are at most
64 of them. -/
theorem rm_finalize_reclaims (h : s.Admissible) :
    (∀ (c : Choice) (m : Memdb) (row : MemdbStripe) (ino : MdsInode), c.alloc = true →
      m.stripeFind ino.fileid = some row → row.snap = s → ino.has iflagInlineStripe = false →
      rmFinalizeActs ino = .fetch true :: [.stripeDel, .inodeDel] ∧
        cleanupStep c m ino.fileid [.stripeDel, .inodeDel] (.fetch true) =
          (m, .cleanup ino.fileid (rmGcActs s ++ [.stripeDel, .inodeDel]))) ∧
    (∀ ino : MdsInode, ino.has iflagInlineStripe = true → ino.inlineSnap = s →
      rmFinalizeActs ino = rmGcActs s ++ [.inodeDel]) ∧
    (∀ act ∈ rmGcActs s, ∃ e, act = .gc e s.geom) ∧
    (ReclaimsAll s ↔ s.dsIds.dedup.length ≤ 64) := by
  refine ⟨?_, ?_, ?_, ?_⟩
  · intro c m _ _ halloc hrow hsnap hflag
    simp [rmFinalizeActs, MdsInode.stripeDelActs, hflag, cleanupStep, hrow, halloc, hsnap]
  · intro ino hflag hsnap
    simp [rmFinalizeActs, MdsInode.stripeDelActs, hflag, hsnap]
  · intro _ hact
    unfold rmGcActs at hact
    split at hact
    · cases hact
    · obtain ⟨e, -, rfl⟩ := mem_map.mp hact
      exact ⟨e, rfl⟩
  · rw [ReclaimsAll, ← mem_queuedDs_rmGcActs h]
    simp only [mem_queuedDs_gcActs h]
    refine and_iff_right_of_imp fun hall _ => ?_
    have hnodup := (uniqueDs_spec [] s.entries).1.sublist (take_sublist 64 _)
    rw [← queuedDs_rmGcActs h] at hnodup
    rw [hnodup.count]
    simp [hall]

/-- A map with 65 stripes, each on a data server of its own. -/
def wideMap : StripeSnap :=
  { stripeCount := 65, mirrorCount := 1
    entries := (List.range 65).map fun n => { dsId := UInt32.ofNat n, nfsFh := [] } }

/-- The last data server gets no row. -/
theorem rm_finalize_skips_server : wideMap.Admissible ∧
    (64 : UInt32) ∈ wideMap.dsIds ∧ (64 : UInt32) ∉ queuedDs (rmGcActs wideMap) ∧
    (64 : UInt32) ∈ queuedDs (gcActs true wideMap) :=
  ⟨⟨by decide, by decide, by decide⟩, by decide +kernel, by decide +kernel, by decide +kernel⟩

/-- A map of two stripes on one data server. -/
theorem rm_finalize_reclaims_two : ReclaimsAll ⟨2, 1, [⟨7, []⟩, ⟨7, []⟩]⟩ ↔
      (StripeSnap.dsIds ⟨2, 1, [⟨7, []⟩, ⟨7, []⟩]⟩).dedup.length ≤ 64 :=
  (rm_finalize_reclaims ⟨by decide, by decide, rfl⟩).2.2.2

/-! ## Executions of a row -/

/-- What is durable of an acknowledged remove: the manifest row, the inode, the stripe map
rows, and the data servers for which rows were queued. -/
structure RemovedFile where
  manifest : Bool
  inode : Bool
  map : Option StripeSnap
  queued : List UInt32

/-- The file, and the executions of its row under way, each with the calls left. -/
structure RmSys where
  file : RemovedFile
  todos : List (List CleanupAct)

/-- An execution begins, makes its next call, which may fail without effect, or crashes. -/
inductive RmOp
  | execute
  | call (i : ℕ) (ok : Bool)
  | crash (i : ℕ)

/-- The file after a call that succeeds, and what an execution has to do because of it. -/
def RemovedFile.apply (d : RemovedFile) : CleanupAct → RemovedFile × List CleanupAct
  | .fetch _ => (d, (d.map.map rmGcActs).getD [])
  | .gc e _ => ({ d with queued := e.dsId :: d.queued }, [])
  | .stripeDel => ({ d with map := none }, [])
  | .inodeDel => ({ d with inode := false }, [])
  | .complete _ => ({ d with manifest := false }, [])

variable (ino : MdsInode) (seq : ℕ)

/-- The calls of `rm_execute` once the name is found gone: the inode is finalized if it is
still there. -/
def rmExecuteActs (d : RemovedFile) : List CleanupAct :=
  (if d.inode then rmFinalizeActs ino else []) ++ [.complete seq]

def rmStep (s : RmSys) : RmOp → Option RmSys
  | .execute =>
    if s.file.manifest then some { s with todos := rmExecuteActs ino seq s.file :: s.todos }
    else none
  | .call i ok =>
    match s.todos[i]? with
    | some (act :: rest) =>
      let r := if ok then s.file.apply act else (s.file, [])
      some { file := r.1, todos := s.todos.set i (r.2 ++ rest) }
    | _ => none
  | .crash i => some { s with todos := s.todos.set i [] }

/-- After the ack; the stripe map has rows of its own unless it is on the inode. -/
def rmStart (map : StripeSnap) : RmSys :=
  ⟨⟨true, true, if ino.has iflagInlineStripe then none else some map, []⟩, []⟩

/-- The calls whose failure loses a file: the others may fail. -/
def CleanupAct.vital : CleanupAct → Bool
  | .fetch _ | .gc _ _ | .inodeDel => true
  | _ => false

/-- No vital call fails. -/
def VitalCalls (s : RmSys) : RmOp → Prop
  | .call i ok => ∀ todo ∈ s.todos[i]?, ∀ act ∈ todo.head?, act.vital = true → ok = true
  | _ => True

instance (s : RmSys) (op : RmOp) : Decidable (VitalCalls s op) := by
  cases op <;> unfold VitalCalls <;> infer_instance

/-- The row of the file is only gone if its inode is and each of its data servers has a
row. -/
def RemovedFile.Retired (d : RemovedFile) (map : StripeSnap) : Prop :=
  d.manifest = false → d.inode = false ∧ ∀ ds ∈ map.dsIds, ds ∈ d.queued

/-! ### The invariant -/

/-- What the calls left may rely on: by the time one takes a record away, every data server
is queued, and by the time the row is completed the inode is gone. `queued` and `inode` are
what is true when the next call is made. -/
def Owes (map : StripeSnap) : List UInt32 → Bool → List CleanupAct → Prop
  | _, _, [] => True
  | queued, inode, .fetch _ :: rest =>
    ino.has iflagInlineStripe = false ∧ Owes map (map.dsIds ++ queued) inode rest
  | queued, inode, .gc e _ :: rest => Owes map (e.dsId :: queued) inode rest
  | queued, inode, .stripeDel :: rest => map.dsIds ⊆ queued ∧ Owes map queued inode rest
  | queued, _, .inodeDel :: rest => map.dsIds ⊆ queued ∧ Owes map queued false rest
  | queued, inode, .complete _ :: rest =>
    map.dsIds ⊆ queued ∧ inode = false ∧ Owes map queued inode rest

variable {ino} {map : StripeSnap} {queued queued' : List UInt32} {inode inode' : Bool}
  {todo : List CleanupAct}

theorem Owes.mono (h : Owes ino map queued inode todo) (hsub : queued ⊆ queued')
    (hinode : inode = false → inode' = false) : Owes ino map queued' inode' todo := by
  induction todo generalizing queued queued' inode inode' with
  | nil => trivial
  | cons act _ ih =>
    cases act with
    | fetch => exact ⟨h.1, ih h.2 (append_subset.mpr ⟨subset_append_left _ _,
        List.Subset.trans hsub (subset_append_right _ _)⟩) hinode⟩
    | gc => exact ih h (cons_subset_cons _ hsub) hinode
    | stripeDel => exact ⟨List.Subset.trans h.1 hsub, ih h.2 hsub hinode⟩
    | inodeDel => exact ⟨List.Subset.trans h.1 hsub, ih h.2 hsub id⟩
    | complete => exact ⟨List.Subset.trans h.1 hsub, hinode h.2.1, ih h.2.2 hsub hinode⟩

theorem Owes.rows (h : Owes ino map (map.dsIds ++ queued) inode todo)
    (hall : ∀ ds ∈ map.dsIds, ds ∈ queuedDs (rmGcActs map)) :
    Owes ino map queued inode (rmGcActs map ++ todo) := by
  have hrows : ∀ (es : List DsMapEntry) (hint : UInt32) (queued : List UInt32),
      Owes ino map (es.map DsMapEntry.dsId ++ queued) inode todo →
      Owes ino map queued inode ((es.map fun e => .gc e hint) ++ todo) := by
    intro es _
    induction es with
    | nil => exact fun _ h => h
    | cons e _ ih =>
      intro _ h
      refine ih _ (h.mono (fun ds hds => ?_) id)
      simp only [map_cons, cons_append, mem_cons, mem_append] at hds ⊢
      tauto
  revert hall
  unfold rmGcActs
  split
  · intro hall
    exact h.mono (append_subset.mpr ⟨fun ds hds => (not_mem_nil (hall ds hds)).elim,
      Subset.refl _⟩) id
  · intro hall
    rw [queuedDs_map_gc] at hall
    refine hrows _ _ _ (h.mono (append_subset.mpr ⟨fun ds hds => ?_, subset_append_right _ _⟩) id)
    exact mem_append_left _ (hall ds hds)

/-- The records that are left name every data server that is not queued. -/
structure RmInv (ino : MdsInode) (map : StripeSnap) (s : RmSys) : Prop where
  kept : ino.has iflagInlineStripe = false →
    s.file.map = some map ∨ s.file.map = none ∧ map.dsIds ⊆ s.file.queued
  gone : s.file.inode = false → map.dsIds ⊆ s.file.queued
  retired : s.file.Retired map
  todos : ∀ todo ∈ s.todos, Owes ino map s.file.queued s.file.inode todo

section Steps

variable {s t : RmSys} (hall : ∀ ds ∈ map.dsIds, ds ∈ queuedDs (rmGcActs map))
  (hinline : ino.has iflagInlineStripe = true → ino.inlineSnap = map)

include hall hinline

theorem owes_rmExecuteActs (hgone : s.file.inode = false → map.dsIds ⊆ s.file.queued) :
    Owes ino map s.file.queued s.file.inode (rmExecuteActs ino seq s.file) := by
  have hrest : map.dsIds ⊆ map.dsIds ++ s.file.queued := subset_append_left _ _
  unfold rmExecuteActs
  cases hi : s.file.inode with
  | false => exact ⟨hgone hi, rfl, trivial⟩
  | true =>
    cases hflag : ino.has iflagInlineStripe with
    | true =>
      simp only [rmFinalizeActs, MdsInode.stripeDelActs, hflag, if_true, hinline hflag,
        append_nil, append_assoc]
      exact Owes.rows ⟨hrest, hrest, rfl, trivial⟩ hall
    | false =>
      simp only [rmFinalizeActs, MdsInode.stripeDelActs, hflag, if_true, Bool.false_eq_true,
        if_false]
      exact ⟨hflag, hrest, hrest, hrest, rfl, trivial⟩

omit hinline in
theorem RmInv.call {i ok act rest} (h : RmInv ino map s) (hi : s.todos[i]? = some (act :: rest))
    (hok : act.vital = true → ok = true) : RmInv ino map
      { file := (if ok then s.file.apply act else (s.file, [])).1
        todos := s.todos.set i ((if ok then s.file.apply act else (s.file, [])).2 ++ rest) } := by
  have howes := h.todos _ (mem_of_getElem? hi)
  -- The other executions, after a call that queues or deletes.
  have hothers : ∀ {d : RemovedFile} {todo' : List CleanupAct}, s.file.queued ⊆ d.queued →
      (s.file.inode = false → d.inode = false) → Owes ino map d.queued d.inode todo' →
      ∀ todo ∈ s.todos.set i todo', Owes ino map d.queued d.inode todo := by
    intro d todo' hsub hinode hnew
    exact forall_mem_set (fun todo htodo => (h.todos todo htodo).mono hsub hinode) hnew
  cases ok with
  | false =>
    refine ⟨h.kept, h.gone, h.retired, hothers (Subset.refl _) id ?_⟩
    cases act with
    | stripeDel => exact howes.2
    | complete n => exact howes.2.2
    | _ => cases hok rfl
  | true =>
    cases act with
    | fetch d =>
      obtain ⟨hflag, hrest⟩ := howes
      refine ⟨h.kept, h.gone, h.retired, hothers (Subset.refl _) id ?_⟩
      rcases h.kept hflag with hmap | ⟨hmap, hsub⟩
      · simpa [RemovedFile.apply, hmap] using hrest.rows hall
      · simpa [RemovedFile.apply, hmap] using
          hrest.mono (append_subset.mpr ⟨hsub, Subset.refl _⟩) id
    | gc e =>
      have hsub : s.file.queued ⊆ e.dsId :: s.file.queued := subset_cons_self _ _
      exact ⟨fun hflag => (h.kept hflag).imp_right fun hk => ⟨hk.1, List.Subset.trans hk.2 hsub⟩,
        fun hi => List.Subset.trans (h.gone hi) hsub, fun hm => ⟨(h.retired hm).1, fun ds hds =>
          hsub ((h.retired hm).2 ds hds)⟩, hothers hsub id howes⟩
    | stripeDel =>
      exact ⟨fun _ => .inr ⟨rfl, howes.1⟩, h.gone, h.retired, hothers (Subset.refl _) id howes.2⟩
    | inodeDel =>
      exact ⟨h.kept, fun _ => howes.1, fun _ => ⟨rfl, howes.1⟩,
        hothers (Subset.refl _) (fun _ => rfl) howes.2⟩
    | complete n =>
      exact ⟨h.kept, h.gone, fun _ => ⟨howes.2.1, howes.1⟩, hothers (Subset.refl _) id howes.2.2⟩

theorem RmInv.step {op} (h : RmInv ino map s) (hok : VitalCalls s op)
    (hstep : rmStep ino seq s op = some t) : RmInv ino map t := by
  cases op with
  | execute =>
    simp only [rmStep, ite_none_right_eq_some] at hstep
    obtain ⟨-, hstep⟩ := hstep
    cases hstep
    have howes := owes_rmExecuteActs seq hall hinline h.gone
    exact { h with todos := forall_mem_cons.mpr ⟨howes, h.todos⟩ }
  | call =>
    simp only [rmStep] at hstep
    split at hstep <;> cases hstep
    next hi => exact h.call hall hi fun hv => hok _ hi _ rfl hv
  | crash =>
    cases hstep
    exact { h with todos := forall_mem_set h.todos trivial }

end Steps

/-- **A completed row is a reclaimed file.**  For a file of an admissible geometry on at most
64 data servers: in every run of executions in which `stripe_map_get`, the queueing of rows
and `inode_del` do not fail, if the manifest row is gone then so is the inode, and every data
server of the file has its row. Executions may crash, overlap and be repeated, and the other
calls may fail. -/
theorem manifest_row_retired {s : RmSys} (hadm : map.Admissible)
    (hfew : map.dsIds.dedup.length ≤ 64)
    (hinline : ino.has iflagInlineStripe = true → ino.inlineSnap = map)
    (h : Reachable (Eq (rmStart ino map)) (rmStep ino seq) VitalCalls s) : s.file.Retired map := by
  have hall : ∀ ds ∈ map.dsIds, ds ∈ queuedDs (rmGcActs map) := fun ds =>
    ((mem_queuedDs_rmGcActs hadm).mpr hfew ds).mpr
  have hinv : RmInv ino map s := by
    refine h.invariant ?_ fun _ _ _ hs hok hstep => hs.step seq hall hinline hok hstep
    rintro _ rfl
    exact ⟨fun hflag => .inl (by simp [rmStart, hflag]), nofun, nofun, nofun⟩
  exact hinv.retired

/-- A file, and its one stripe. -/
def removedInode : MdsInode := CreateArgs.child ⟨2, [97], .reg, 0, 0, 0⟩ 3 0

@[inherit_doc removedInode] def oneStripe : StripeSnap := ⟨1, 1, [⟨7, []⟩]⟩

/-- An execution crashes before it deletes the inode, and another one runs. -/
def crashThenRetry : List RmOp :=
  [.execute, .call 0 true, .call 0 true, .call 0 true, .crash 0, .execute, .call 0 true,
   .call 0 false, .call 0 true, .call 0 true]

/-- The file is reclaimed by two executions, of which the first crashes. -/
theorem manifest_row_retired_retry :
    ∃ s, exec (rmStep removedInode 1) (rmStart removedInode oneStripe) crashThenRetry = some s ∧
      s.file.manifest = false ∧ s.file.Retired oneStripe := by
  exact ⟨_, rfl, rfl, manifest_row_retired 1 ⟨by decide, by decide, rfl⟩ (by decide) (by decide)
    (.run (rmStart removedInode oneStripe) crashThenRetry rfl)⟩

/-- If the one row cannot be queued the file is forgotten all the same. -/
theorem manifest_row_forgets_file :
    ∃ s, Reachable (Eq (rmStart removedInode oneStripe)) (rmStep removedInode 1) anyStep s ∧
      s.file.manifest = false ∧ s.file.map = none ∧ s.file.queued = [] := by
  exact ⟨_, .run (rmStart removedInode oneStripe)
    [.execute, .call 0 true, .call 0 false, .call 0 true, .call 0 true, .call 0 true] rfl,
    rfl, rfl, rfl⟩

end PnfsLattice
