import PnfsLattice.Lib.Keyed
import PnfsLattice.Lock.Dispatch

/-!
# The durable lock rows

Each in-memory range owns one row of the shared `byte_locks` table, keyed by
`(fileid, lock_id)`. The rows are what the calls of `LockTable.catLog` leave when every
one of them succeeds: a put writes the row of its key, a delete removes it, and a reap
removes every row of a client.

Both sides are compared as sets of `HeldRange`s. A call acts on such a set
(`LockCatCall.act`), carving is traced through that action, and lock ids are unique
because all of them come from one counter.
-/

namespace PnfsLattice

open Lib List

/-! ## Rows and ranges -/

def LockRow.key (row : LockRow) : Fileid × ℕ := (row.fileid, row.lockId)

/-- One successful call on the table. -/
def LockCatCall.apply (rows : List LockRow) : LockCatCall → List LockRow
  | .put row => upsert LockRow.key row rows
  | .del fileid lockId => eraseKey LockRow.key (fileid, lockId) rows
  | .reapClient clientid => rows.filter fun row => row.clientid ≠ clientid

/-- The rows a log of successful calls leaves in an empty table. -/
def lockRows (log : List LockCatCall) : List LockRow := log.foldl LockCatCall.apply []

/-- A range with the file it is on and the owner that holds it. -/
structure HeldRange where
  fileid : Fileid
  clientid : Clientid
  owner : List UInt8
  range : LockRange
deriving DecidableEq

/-- The key of the row a held range owns. -/
def HeldRange.key (h : HeldRange) : Fileid × ℕ := (h.fileid, h.range.lockId)

/-- What a row says is held. -/
def LockRow.held (row : LockRow) : HeldRange :=
  { fileid := row.fileid, clientid := row.clientid, owner := row.owner
    range := { offset := row.offset, length := row.length, lockType := row.lockType
               lockId := row.lockId } }

def LockOwnerState.held (os : LockOwnerState) (r : LockRange) : HeldRange :=
  { fileid := os.fileid, clientid := os.clientid, owner := os.owner, range := r }

/-- The ranges of all owner states on all files. -/
def heldRanges (owners : List LockOwnerState) : List HeldRange :=
  owners.flatMap fun os => os.ranges.map os.held

/-- Rows and ranges correspond one to one: they say the same is held, and on either side
`(fileid, lock_id)` is a key. -/
structure Mirrored (lt : LockTable) : Prop where
  same : ∀ h, h ∈ (lockRows lt.catLog).map LockRow.held ↔ h ∈ heldRanges lt.owners
  rowKeys : ((lockRows lt.catLog).map LockRow.key).Nodup
  rangeKeys : ((heldRanges lt.owners).map HeldRange.key).Nodup

/-! ## Calls as actions on what is held -/

/-- What is held according to a list of rows. -/
def heldSet (rows : List LockRow) : Set HeldRange := {h | h ∈ rows.map LockRow.held}

/-- The action of a call on what is held. -/
def LockCatCall.act (S : Set HeldRange) : LockCatCall → Set HeldRange
  | .put row => {h | h = row.held ∨ (h ∈ S ∧ h.key ≠ row.key)}
  | .del fileid lockId => {h | h ∈ S ∧ h.key ≠ (fileid, lockId)}
  | .reapClient clientid => {h | h ∈ S ∧ h.clientid ≠ clientid}

def actAll (S : Set HeldRange) (calls : List LockCatCall) : Set HeldRange :=
  calls.foldl LockCatCall.act S

theorem actAll_cons (S : Set HeldRange) (c : LockCatCall) (calls : List LockCatCall) :
    actAll S (c :: calls) = actAll (c.act S) calls := rfl

theorem actAll_append (S : Set HeldRange) (calls calls' : List LockCatCall) :
    actAll S (calls ++ calls') = actAll (actAll S calls) calls' := foldl_append

theorem heldSet_apply (rows : List LockRow) (c : LockCatCall) :
    heldSet (c.apply rows) = c.act (heldSet rows) := by
  ext h
  simp only [heldSet, Set.mem_ofPred_eq, mem_map]
  cases c with
  | put row =>
    simp only [LockCatCall.apply, LockCatCall.act, mem_upsert, Set.mem_ofPred_eq]
    constructor
    · rintro ⟨a, rfl | ⟨ha, hk⟩, rfl⟩
      · exact .inl rfl
      · exact .inr ⟨⟨a, ha, rfl⟩, hk⟩
    · rintro (rfl | ⟨⟨a, ha, rfl⟩, hk⟩)
      · exact ⟨row, .inl rfl, rfl⟩
      · exact ⟨a, .inr ⟨ha, hk⟩, rfl⟩
  | del | reapClient =>
    simp only [LockCatCall.apply, LockCatCall.act, mem_eraseKey, mem_filter,
      decide_eq_true_eq, Set.mem_ofPred_eq]
    constructor
    · rintro ⟨a, ⟨ha, hk⟩, rfl⟩
      exact ⟨⟨a, ha, rfl⟩, hk⟩
    · rintro ⟨⟨a, ha, rfl⟩, hk⟩
      exact ⟨a, ⟨ha, hk⟩, rfl⟩

theorem lockRows_concat (log : List LockCatCall) (c : LockCatCall) :
    lockRows (log ++ [c]) = c.apply (lockRows log) := foldl_concat ..

/-- A longer log acts on what the shorter one left. -/
theorem heldSet_lockRows_append (log calls : List LockCatCall) :
    heldSet (lockRows (log ++ calls)) = actAll (heldSet (lockRows log)) calls := by
  induction calls generalizing log with
  | nil => simp [actAll]
  | cons c _ ih => rw [append_cons, ih, lockRows_concat, heldSet_apply, actAll_cons]

/-- The key of the rows is unique whatever was called. -/
theorem nodup_lockRows (log : List LockCatCall) : ((lockRows log).map LockRow.key).Nodup := by
  induction log using reverseRecOn with
  | nil => exact nodup_nil
  | append_singleton _ c ih =>
    rw [lockRows_concat]
    cases c with
    | put => exact nodup_upsert ih
    | del | reapClient => exact nodup_filter_key ih _

/-! ## Carving -/

/-- The ranges `rs` as held by the owner of `os`. -/
def heldBy (os : LockOwnerState) (rs : List LockRange) : Set HeldRange :=
  {h | ∃ r ∈ rs, h = os.held r}

theorem heldBy_cons (os : LockOwnerState) (r : LockRange) (rs : List LockRange) :
    heldBy os (r :: rs) = {os.held r} ∪ heldBy os rs := by
  ext h
  simp [heldBy]

/-- What is held apart from the ranges being carved: on the same file it has other lock
ids, all of them spent. -/
def Beside (os : LockOwnerState) (rs : List LockRange) (seq : ℕ) (O : Set HeldRange) : Prop :=
  ∀ h ∈ O, h.fileid = os.fileid → h.range.lockId < seq ∧ h.range.lockId ∉ rs.map LockRange.lockId

variable {lt : LockTable} {os : LockOwnerState} {r : LockRange} {rs : List LockRange} {seq : ℕ}
  {O : Set HeldRange} {l₁ l₂ : List LockOwnerState} {n : ℕ} {owners : List LockOwnerState}

theorem persistRangePut_eq (hcat : lt.cat = true) (os : LockOwnerState) (r : LockRange)
    (openStateid : Option Stateid) :
    ∃ row : LockRow, row.held = os.held r ∧ persistRangePut lt os r openStateid = [.put row] := by
  simp only [persistRangePut, hcat, if_true]
  exact ⟨_, rfl, rfl⟩

section Put

variable {row : LockRow} {os : LockOwnerState} {r : LockRange} {S : Set HeldRange}

theorem act_put_fresh (hrow : row.held = os.held r) (hS : ∀ h ∈ S, h.key ≠ (os.fileid, r.lockId)) :
    (LockCatCall.put row).act S = {os.held r} ∪ S := by
  have hkey : row.key = (os.fileid, r.lockId) := congrArg HeldRange.key hrow
  ext h
  simp only [LockCatCall.act, Set.mem_ofPred_eq, Set.mem_union, Set.mem_singleton_iff, hrow, hkey]
  exact or_congr_right ⟨fun hh => hh.1, fun hh => ⟨hh, hS h hh⟩⟩

theorem act_put_over {r₀} (hrow : row.held = os.held r) (hid : r₀.lockId = r.lockId)
    (hS : ∀ h ∈ S, h.key ≠ (os.fileid, r.lockId)) :
    (LockCatCall.put row).act ({os.held r₀} ∪ S) = {os.held r} ∪ S := by
  rw [← act_put_fresh hrow hS]
  have hkey : row.key = (os.held r₀).key := by
    have hheld : row.key = (os.held r).key := congrArg HeldRange.key hrow
    rw [hheld, HeldRange.key]
    exact congrArg _ hid.symm
  ext h
  refine or_congr_right ⟨?_, fun hh => ⟨.inr hh.1, hh.2⟩⟩
  rintro ⟨rfl | hh, hk⟩
  · exact absurd hkey.symm hk
  · exact ⟨hh, hk⟩

theorem act_del (hS : ∀ h ∈ S, h.key ≠ (os.fileid, r.lockId)) :
    (LockCatCall.del os.fileid r.lockId).act ({os.held r} ∪ S) = S := by
  ext h
  constructor
  · rintro ⟨rfl | hh, hk⟩
    · exact absurd rfl hk
    · exact hh
  · exact fun hh => ⟨.inr hh, hS h hh⟩

end Put

section

variable (hb : Beside os (r :: rs) seq O)

include hb

/-- What lies beside a list of ranges, and its tail, have keys unlike the head's. -/
theorem Beside.key_ne (hn : ((r :: rs).map LockRange.lockId).Nodup) :
    ∀ h ∈ O ∪ heldBy os rs, h.key ≠ (os.fileid, r.lockId) := by
  intro h hh hk
  obtain ⟨hf, hid⟩ := Prod.mk.injEq .. ▸ hk
  rcases hh with hh | ⟨r', hr', rfl⟩
  · exact (hb h hh hf).2 (by simp [← hid])
  · have hnot := (nodup_cons.mp hn).1
    exact hnot (mem_map.mpr ⟨r', hr', hid⟩)

theorem Beside.tail : Beside os rs seq O := by
  intro h hh hf
  obtain ⟨hlt, hnot⟩ := hb h hh hf
  exact ⟨hlt, fun hmem => hnot (mem_cons_of_mem _ hmem)⟩

/-- A range of the list can be moved over to what lies beside it. -/
theorem Beside.insert {r'} (hn : ((r :: rs).map LockRange.lockId).Nodup) (hlt : r.lockId < seq)
    (hid : r'.lockId = r.lockId) : Beside os rs seq ({os.held r'} ∪ O) := by
  intro h hh hf
  rcases hh with rfl | hh
  · refine ⟨hid ▸ hlt, ?_⟩
    have hnot := (nodup_cons.mp hn).1
    exact fun hmem => hnot (hid ▸ hmem)
  · exact hb.tail h hh hf

end

/-- **The rows follow a carve.**  Its calls take what the ranges said is held to what the
carved ranges say, and leave alone what lies beside. -/
theorem actAll_carveRange (hcat : lt.cat = true) (os : LockOwnerState) (offset stop : UInt64)
    (hb : Beside os rs seq O) (hn : (rs.map LockRange.lockId).Nodup)
    (hlt : ∀ r ∈ rs, r.lockId < seq) :
    actAll (O ∪ heldBy os rs) (carveRange lt os offset stop seq rs).calls =
      O ∪ heldBy os (carveRange lt os offset stop seq rs).ranges := by
  induction rs generalizing O with
  | nil => rfl
  | cons r rest ih =>
    have hn' : (rest.map LockRange.lockId).Nodup := (nodup_cons.mp hn).2
    have hlt' : ∀ r ∈ rest, r.lockId < seq := fun r' h => hlt r' (by simp [h])
    have hkey := hb.key_ne hn
    have hr : r.lockId < seq := hlt r (by simp)
    -- Keeping `r'` in the place of `r`: its put, if any, and then the rest of the carve.
    have hkeep : ∀ r' : LockRange, r'.lockId = r.lockId →
        actAll ({os.held r'} ∪ (O ∪ heldBy os rest)) (carveRange lt os offset stop seq rest).calls
          = O ∪ heldBy os (r' :: (carveRange lt os offset stop seq rest).ranges) := by
      intro r' hid
      rw [← Set.union_assoc, ih (hb.insert hn hr hid) hn' hlt', heldBy_cons,
        Set.union_comm _ O, Set.union_assoc]
    have hput : ∀ r' : LockRange, r'.lockId = r.lockId →
        actAll (O ∪ heldBy os (r :: rest)) (persistRangePut lt os r' none) =
          {os.held r'} ∪ (O ∪ heldBy os rest) := by
      intro r' hid
      obtain ⟨row, hrow, hcall⟩ := persistRangePut_eq hcat os r' none
      rw [hcall, heldBy_cons, Set.union_left_comm]
      exact act_put_over hrow hid.symm (hid ▸ hkey)
    have hmove : ∀ r' : LockRange, r'.lockId = r.lockId →
        actAll (O ∪ heldBy os (r :: rest))
            (persistRangePut lt os r' none ++ (carveRange lt os offset stop seq rest).calls)
          = O ∪ heldBy os (r' :: (carveRange lt os offset stop seq rest).ranges) := by
      intro r' hid
      rw [actAll_append, hput r' hid, hkeep r' hid]
    rw [carveRange]
    dsimp only
    split_ifs
    · rw [heldBy_cons, Set.union_left_comm]
      exact hkeep r rfl
    · -- The split: the remainder on the right has the next lock id.
      obtain ⟨_, hrow, hcall⟩ := persistRangePut_eq hcat os { r with
        offset := stop, length := tailLength _ stop
        lockId := seq } none
      rw [actAll_append, hput { r with length := offset - r.offset } rfl, hcall, actAll_cons,
        act_put_fresh hrow, heldBy_cons, heldBy_cons, Set.union_left_comm, Set.union_left_comm O,
        Set.union_left_comm O]
      · rfl
      · rintro h (rfl | hh) hk
        · exact absurd (congrArg Prod.snd hk) (by exact ne_of_lt hr)
        · obtain ⟨hf, hid⟩ := Prod.mk.injEq .. ▸ hk
          rcases hh with hh | ⟨r', hr', rfl⟩
          · exact absurd hid (ne_of_lt (hb h hh hf).1)
          · exact absurd hid (ne_of_lt (hlt' r' hr'))
    · rw [persistRangeDel, if_pos hcat, singleton_append, actAll_cons, heldBy_cons,
        Set.union_left_comm, act_del hkey]
      exact ih hb.tail hn' hlt'
    · exact hmove { r with length := offset - r.offset } rfl
    · exact hmove { r with
        offset := stop, length := tailLength _ stop } rfl

/-! ## Lock ids -/

/-- The lock ids of a list of ranges are distinct, and the counter has passed them. -/
def IdsBelow (ids : List ℕ) (n : ℕ) : Prop := ids.Nodup ∧ ∀ id ∈ ids, id < n

theorem carveRange_ids (lt : LockTable) (os : LockOwnerState) (offset stop : UInt64)
    (h : IdsBelow (rs.map LockRange.lockId) seq) : let c := carveRange lt os offset stop seq rs
    seq ≤ c.nextSeq ∧ IdsBelow (c.ranges.map LockRange.lockId) c.nextSeq ∧
      ∀ id ∈ c.ranges.map LockRange.lockId, id ∈ rs.map LockRange.lockId ∨ seq ≤ id := by
  induction rs with
  | nil => exact ⟨le_rfl, h, fun _ hid => .inl hid⟩
  | cons r rest ih =>
    obtain ⟨hn, hlt⟩ := h
    rw [map_cons, nodup_cons] at hn
    have hr : r.lockId < seq := hlt _ (by simp)
    have hrest : ∀ id ∈ rest.map LockRange.lockId, id < seq := by
      intro id hid
      exact hlt id (mem_cons_of_mem _ hid)
    obtain ⟨hle, hbelow, hfrom⟩ := ih ⟨hn.2, hrest⟩
    -- Keeping a range with the id of `r` in front of the carved rest.
    have hkeep : ∀ r' : LockRange, r'.lockId = r.lockId →
        let c := carveRange lt os offset stop seq rest
        seq ≤ c.nextSeq ∧ IdsBelow ((r' :: c.ranges).map LockRange.lockId) c.nextSeq ∧
          ∀ id ∈ (r' :: c.ranges).map LockRange.lockId,
            id ∈ (r :: rest).map LockRange.lockId ∨ seq ≤ id := by
      intro _ hid
      refine ⟨hle, ⟨?_, ?_⟩, ?_⟩
      · rw [map_cons, nodup_cons, hid]
        refine ⟨fun hmem => ?_, hbelow.1⟩
        rcases hfrom _ hmem with hold | hnew
        · exact hn.1 hold
        · omega
      · exact forall_mem_cons.mpr ⟨by omega, hbelow.2⟩
      · exact forall_mem_cons.mpr ⟨.inl (by simp [hid]),
          fun id hmem => (hfrom id hmem).imp_left (mem_cons_of_mem _)⟩
    rw [carveRange]
    split_ifs
    · exact hkeep r rfl
    · refine ⟨Nat.le_succ seq, ⟨?_, ?_⟩, ?_⟩
      · have hseq : seq ∉ rest.map LockRange.lockId := fun hmem => lt_irrefl _ (hrest _ hmem)
        rw [map_cons, map_cons, nodup_cons, nodup_cons, mem_cons]
        exact ⟨not_or.mpr ⟨by exact ne_of_lt hr, hn.1⟩, hseq, hn.2⟩
      · exact forall_mem_cons.mpr ⟨Nat.lt_succ_of_lt hr, forall_mem_cons.mpr
          ⟨Nat.lt_succ_self _, fun id hmem => Nat.lt_succ_of_lt (hrest id hmem)⟩⟩
      · exact forall_mem_cons.mpr ⟨.inl (by simp), forall_mem_cons.mpr
          ⟨.inr le_rfl, fun _ hmem => .inl (mem_cons_of_mem _ hmem)⟩⟩
    · exact ⟨hle, hbelow, fun id hmem => (hfrom id hmem).imp_left (mem_cons_of_mem _)⟩
    · exact hkeep _ rfl
    · exact hkeep _ rfl

/-- The lock ids of all ranges of all owner states. -/
def lockIds (owners : List LockOwnerState) : List ℕ :=
  owners.flatMap fun os => os.ranges.map LockRange.lockId

theorem lockIds_middle_perm (l₁ l₂ : List LockOwnerState) (os : LockOwnerState) :
    (lockIds (l₁ ++ os :: l₂)).Perm (os.ranges.map LockRange.lockId ++ lockIds (l₁ ++ l₂)) := by
  exact perm_middle.flatMap_right _

/-- An owner state can be rewritten with its own lock ids and new ones. -/
theorem idsBelow_replace {os' m} (h : IdsBelow (lockIds (l₁ ++ os :: l₂)) n) (hnm : n ≤ m)
    (hos' : IdsBelow (os'.ranges.map LockRange.lockId) m)
    (hfrom : ∀ id ∈ os'.ranges.map LockRange.lockId, id ∈ os.ranges.map LockRange.lockId ∨ n ≤ id) :
    IdsBelow (lockIds (l₁ ++ os' :: l₂)) m := by
  have hp := lockIds_middle_perm l₁ l₂ os
  have hp' := lockIds_middle_perm l₁ l₂ os'
  have hn := nodup_append.mp (hp.nodup_iff.mp h.1)
  have hlt : ∀ id ∈ lockIds (l₁ ++ l₂), id < n := by
    intro id hid
    exact h.2 id (hp.mem_iff.mpr (mem_append_right _ hid))
  constructor
  · rw [hp'.nodup_iff, nodup_append]
    refine ⟨hos'.1, hn.2.1, ?_⟩
    intro a ha b hb
    rcases hfrom a ha with hold | hnew
    · exact hn.2.2 a hold b hb
    · have hb' := hlt b hb
      omega
  · intro id hid
    rcases mem_append.mp (hp'.mem_iff.mp hid) with hid | hid
    · exact hos'.2 id hid
    · exact lt_of_lt_of_le (hlt id hid) hnm

theorem IdsBelow.of_sublist {l l'} (h : IdsBelow (lockIds l) n) (hsub : l'.Sublist l) :
    IdsBelow (lockIds l') n :=
  ⟨h.1.sublist (hsub.flatMap _), fun id hid => h.2 id ((hsub.flatMap _).subset hid)⟩

/-! ## Writes of an owner state -/

/-- What is held in memory. -/
def memSet (owners : List LockOwnerState) : Set HeldRange := {h | h ∈ heldRanges owners}

theorem mem_memSet {h} : h ∈ memSet owners ↔ ∃ os ∈ owners, ∃ r ∈ os.ranges, h = os.held r := by
  simp [memSet, heldRanges, eq_comm]

theorem memSet_middle (l₁ l₂ : List LockOwnerState) (os : LockOwnerState) :
    memSet (l₁ ++ os :: l₂) = memSet (l₁ ++ l₂) ∪ heldBy os os.ranges := by
  ext h
  simp only [mem_memSet, mem_middle, Set.mem_union, heldBy, Set.mem_ofPred_eq]
  constructor
  · rintro ⟨x, rfl | hx, hr⟩
    · exact .inr hr
    · exact .inl ⟨x, hx, hr⟩
  · rintro (⟨x, hx, hr⟩ | hr)
    · exact ⟨x, .inr hx, hr⟩
    · exact ⟨os, .inl rfl, hr⟩

theorem mem_lockIds {h} (hh : h ∈ memSet owners) : h.range.lockId ∈ lockIds owners := by
  obtain ⟨os, hos, r, hr, rfl⟩ := mem_memSet.mp hh
  exact mem_flatMap.mpr ⟨os, hos, mem_map_of_mem hr⟩

/-- The other owner states lie beside the one being written. -/
theorem beside_of_idsBelow (h : IdsBelow (lockIds (l₁ ++ os :: l₂)) n) :
    Beside os os.ranges n (memSet (l₁ ++ l₂)) := by
  have hp := lockIds_middle_perm l₁ l₂ os
  have hn := nodup_append.mp (hp.nodup_iff.mp h.1)
  intro x hx _
  have hid := mem_lockIds hx
  refine ⟨h.2 _ (hp.mem_iff.mpr (mem_append_right _ hid)), fun hmem => ?_⟩
  exact hn.2.2 _ hmem _ hid rfl

theorem idsBelow_ranges (h : IdsBelow (lockIds (l₁ ++ os :: l₂)) n) :
    IdsBelow (os.ranges.map LockRange.lockId) n := by
  have hp := lockIds_middle_perm l₁ l₂ os
  exact ⟨(nodup_append.mp (hp.nodup_iff.mp h.1)).1,
    fun id hid => h.2 id (hp.mem_iff.mpr (mem_append_left _ hid))⟩

section Write

variable {lt : LockTable} {l₁ l₂ : List LockOwnerState} {os : LockOwnerState}

theorem actAll_carve_owner (hcat : lt.cat = true) (offset stop : UInt64) {n}
    (h : IdsBelow (lockIds (l₁ ++ os :: l₂)) n) :
    actAll (memSet (l₁ ++ os :: l₂)) (carveRange lt os offset stop n os.ranges).calls =
      memSet (l₁ ++ l₂) ∪ heldBy os (carveRange lt os offset stop n os.ranges).ranges := by
  have hids := idsBelow_ranges h
  rw [memSet_middle]
  exact actAll_carveRange hcat os offset stop (beside_of_idsBelow h) hids.1
    fun r hr => hids.2 _ (mem_map_of_mem hr)

/-- A grant takes the rows along with the owner state it writes. -/
theorem grantRange_rows (hcat : lt.cat = true) {eff : LockType} {offset length openStateid}
    (h : IdsBelow (lockIds (l₁ ++ os :: l₂)) lt.nextSeq) :
    let g := grantRange lt os eff offset length openStateid
    IdsBelow (lockIds (l₁ ++ g.1 :: l₂)) g.2.nextSeq ∧
      (heldSet (lockRows lt.catLog) = memSet (l₁ ++ os :: l₂) →
        heldSet (lockRows g.2.catLog) = memSet (l₁ ++ g.1 :: l₂)) := by
  obtain ⟨hle, hbelow, hfrom⟩ :=
    carveRange_ids lt os offset _ (idsBelow_ranges h)
  have hcarve := actAll_carve_owner hcat offset (rangeEnd offset length) h
  unfold grantRange
  dsimp only at hle hbelow hfrom ⊢
  generalize carveRange lt os offset (rangeEnd offset length) lt.nextSeq os.ranges = c
    at hle hbelow hfrom hcarve ⊢
  constructor
  · refine idsBelow_replace h (by omega) ⟨?_, ?_⟩ ?_
    · exact nodup_cons.mpr ⟨fun hmem => lt_irrefl _ (hbelow.2 _ hmem), hbelow.1⟩
    · exact forall_mem_cons.mpr
        ⟨Nat.lt_succ_self _, fun id hid => Nat.lt_succ_of_lt (hbelow.2 id hid)⟩
    · exact forall_mem_cons.mpr ⟨.inr hle, hfrom⟩
  · intro hsame
    obtain ⟨row, hrow, hcall⟩ := persistRangePut_eq hcat { os with
      ranges := { offset, length, lockType := eff, lockId := c.nextSeq } :: c.ranges
      stateid := { os.stateid with seqid := os.stateid.seqid + 1 } }
      { offset, length, lockType := eff, lockId := c.nextSeq } _
    rw [heldSet_lockRows_append, actAll_append, hsame, hcarve, hcall, actAll_cons,
      act_put_fresh hrow, memSet_middle, heldBy_cons, Set.union_left_comm]
    · rfl
    · -- Every row there is has a smaller lock id.
      rintro x (hx | ⟨r, hr, rfl⟩) hk
      · have hid := (lockIds_middle_perm l₁ l₂ os).mem_iff.mpr
          (mem_append_right _ (mem_lockIds hx))
        exact absurd (congrArg Prod.snd hk) (ne_of_lt (lt_of_lt_of_le (h.2 _ hid) hle))
      · exact absurd (congrArg Prod.snd hk) (ne_of_lt (hbelow.2 _ (mem_map_of_mem hr)))

end Write

/-! ## The entry points -/

/-- What the correspondence rests on: a catalogue, and lock ids from the counter. -/
structure RowsInv (lt : LockTable) : Prop where
  cat : lt.cat = true
  ids : IdsBelow (lockIds lt.owners) lt.nextSeq

/-- The rows and the ranges say the same is held. -/
def SameHeld (lt : LockTable) : Prop := heldSet (lockRows lt.catLog) = memSet lt.owners

/-- With lock ids from the counter, saying the same is corresponding one to one. -/
theorem mirrored_iff_sameHeld (h : RowsInv lt) : Mirrored lt ↔ SameHeld lt := by
  constructor
  · exact fun hm => Set.ext hm.same
  intro hs
  refine ⟨fun x => Set.ext_iff.mp hs x, nodup_lockRows _, ?_⟩
  have hids : ((heldRanges lt.owners).map HeldRange.key).map Prod.snd = lockIds lt.owners := by
    simp [heldRanges, lockIds, map_flatMap, HeldRange.key, LockOwnerState.held, Function.comp_def]
  exact List.Nodup.of_map _ (hids ▸ h.ids.1)

/-- A step that carries the rows along. -/
def CarriesRows (lt lt' : LockTable) : Prop := RowsInv lt' ∧ (SameHeld lt → SameHeld lt')

theorem carriesRows_lockAcquire (h : RowsInv lt) (alloc : LockAlloc) (a : LockArgs) :
    CarriesRows lt (lockAcquire lt alloc a).1 := by
  rw [lockAcquire_eq]
  cases hadm : a.admission lt alloc with
  | error => exact ⟨h, id⟩
  | ok r =>
    obtain ⟨eff, _ | os⟩ := r
    · cases alloc.ownerState with
      | false => exact ⟨h, id⟩
      | true =>
        -- A new owner state has no range yet, so adding it changes nothing held.
        have hids : IdsBelow (lockIds ([] ++ a.newOwnerState lt :: lt.owners))
            (lt.nextSeq + 1) :=
          ⟨h.ids.1, fun id hid => Nat.lt_succ_of_lt (h.ids.2 id hid)⟩
        obtain ⟨hids', hsame⟩ := @grantRange_rows { lt with nextSeq := lt.nextSeq + 1 } []
          _ _ h.cat eff _ _
          _ hids
        exact ⟨⟨h.cat, hids'⟩, hsame⟩
    · have hfind := (resolve_some (LockArgs.resolve_of_admission hadm)).1
      obtain ⟨l₁, l₂, hl, -, hmod, -⟩ := split_of_find? hfind
      have hids := h.ids
      rw [hl] at hids
      obtain ⟨hids', hsame⟩ := @grantRange_rows lt l₁ l₂ os h.cat eff _
        _ _ hids
      simp only [hmod]
      refine ⟨⟨h.cat, hids'⟩, fun hs => hsame ?_⟩
      rw [← hl]
      exact hs

theorem carriesRows_lockRelease (h : RowsInv lt) (alloc : Bool) (sid : Stateid)
    (offset length : UInt64) : CarriesRows lt (lockRelease lt alloc sid offset length).1 := by
  unfold lockRelease
  dsimp only
  cases alloc with
  | false => exact ⟨h, id⟩
  | true =>
    cases hf : lt.owners.find? (hasSid (stateidStripe sid.other) sid.other) with
    | none => exact ⟨h, id⟩
    | some os =>
      cases hs : seqidCheck os sid.seqid with
      | error => simp only [hs]; exact ⟨h, id⟩
      | ok =>
        obtain ⟨_, _, hl, -, hmod, -⟩ := split_of_find? hf
        have hids := h.ids
        rw [hl] at hids
        obtain ⟨hle, hbelow, hfrom⟩ := carveRange_ids lt os offset
          _ (idsBelow_ranges hids)
        simp only [hs, hmod, Bool.not_true, Bool.false_eq_true, if_false]
        refine ⟨⟨h.cat, idsBelow_replace hids hle hbelow hfrom⟩, fun hsame => ?_⟩
        unfold SameHeld at hsame ⊢
        rw [heldSet_lockRows_append, hsame, hl,
          actAll_carve_owner h.cat offset _ hids, memSet_middle]
        rfl

theorem carriesRows_lockFreeStateid (h : RowsInv lt) (other : Other) :
    CarriesRows lt (lockFreeStateid lt other).1 := by
  unfold lockFreeStateid
  dsimp only
  cases hf : lt.owners.find? (hasSid (stateidStripe other) other) with
  | none => exact ⟨h, id⟩
  | some os =>
    by_cases hr : os.ranges = []
    · obtain ⟨_, _, hl, -, -, herase⟩ := split_of_find? hf
      simp only [hr, ne_eq, not_true_eq_false, if_false]
      refine ⟨⟨h.cat, h.ids.of_sublist eraseP_sublist⟩, fun hsame => ?_⟩
      unfold SameHeld at hsame ⊢
      rw [hsame, herase, hl, memSet_middle, hr]
      simp [heldBy]
    · simp only [ne_eq, hr, not_false_eq_true, if_true]
      exact ⟨h, id⟩

/-! ## The two cleanups -/

theorem actAll_reapClients (S : Set HeldRange) (cids : List Clientid) :
    actAll S (cids.map .reapClient) = {h | h ∈ S ∧ h.clientid ∉ cids} := by
  induction cids generalizing S with
  | nil => simp [actAll]
  | cons c _ ih =>
    rw [map_cons, actAll_cons, ih]
    simp [LockCatCall.act, and_assoc]

/-- What is held by the states that pass a test that reads their file and client. -/
theorem memSet_filter (p : Fileid → Clientid → Bool) :
    memSet (owners.filter fun os => p os.fileid os.clientid) =
      {h | h ∈ memSet owners ∧ p h.fileid h.clientid = true} := by
  ext h
  simp only [mem_memSet, mem_filter, Set.mem_ofPred_eq]
  constructor
  · rintro ⟨os, ⟨hos, hp⟩, r, hr, rfl⟩
    exact ⟨⟨os, hos, r, hr, rfl⟩, hp⟩
  · rintro ⟨⟨os, hos, r, hr, rfl⟩, hp⟩
    exact ⟨os, ⟨hos, hp⟩, r, hr, rfl⟩

theorem rowsInv_filter (h : RowsInv lt) (p : LockOwnerState → Bool) (log : List LockCatCall) :
    RowsInv { lt with owners := lt.owners.filter p, catLog := log } :=
  ⟨h.cat, h.ids.of_sublist filter_sublist⟩

theorem rowsInv_reapClients (h : RowsInv lt) (cids : List Clientid) :
    RowsInv (reapClients lt cids) := by
  rw [reapClients, if_pos h.cat]
  exact ⟨h.cat, h.ids⟩

theorem foldl_releaseStripe (lt : LockTable) (clientid : Clientid) (ss : List ℕ) :
    ss.foldl (fun lt s => releaseStripe lt s clientid) lt =
      { lt with owners := lt.owners.filter fun os =>
          !(ss.contains (stripe os.fileid) && os.clientid == clientid) } := by
  induction ss generalizing lt with
  | nil => simp
  | cons s _ ih =>
    rw [foldl_cons, ih, releaseStripe]
    simp only [filter_filter]
    congr 2
    funext os
    rw [contains_cons]
    cases os.clientid == clientid <;> cases stripe os.fileid == s <;> simp

theorem lockReleaseAllForClient_eq (lt : LockTable) (clientid : Clientid) :
    lockReleaseAllForClient lt clientid =
      reapClients { lt with owners := lt.owners.filter fun os => os.clientid != clientid }
        [clientid] := by
  rw [lockReleaseAllForClient, foldl_releaseStripe]
  congr 3
  funext os
  have hs : stripe os.fileid ∈ List.range lockStripes :=
    mem_range.mpr (Nat.mod_lt _ (by decide))
  simp [hs, bne]

theorem carriesRows_lockReleaseAllForClient (h : RowsInv lt) (clientid : Clientid) :
    CarriesRows lt (lockReleaseAllForClient lt clientid) := by
  rw [lockReleaseAllForClient_eq, reapClients, if_pos h.cat]
  refine ⟨rowsInv_filter h _ _, fun hsame => ?_⟩
  unfold SameHeld at hsame ⊢
  rw [heldSet_lockRows_append, hsame, actAll_reapClients, memSet_filter fun _ c => c != clientid]
  simp

theorem mem_of_mem_collectClients {limit cids c} (h : c ∈ collectClients limit cids) :
    c ∈ cids := by
  have hall : ∀ (cids acc : List Clientid),
      c ∈ cids.foldl (fun acc c => if c ∈ acc ∨ limit ≤ acc.length then acc else acc ++ [c]) acc →
      c ∈ acc ∨ c ∈ cids := by
    intro cids
    induction cids with
    | nil => exact fun _ h => .inl h
    | cons d _ ih =>
      intro _ h
      rcases ih _ h with h | h
      · dsimp only at h
        split_ifs at h
        · exact .inl h
        · rcases mem_append.mp h with h | h
          · exact .inl h
          · exact .inr (by simp [mem_singleton.mp h])
      · exact .inr (mem_cons_of_mem _ h)
  simpa using hall cids [] h

/-- The condition on a call: a revocation on a file finds no expired client that holds a
range on another file. -/
def RevokesOneFile (lt : LockTable) : LockOp → Prop
  | .revokeExpiredForFile leaseExpired fileid =>
    ∀ os ∈ lt.owners, os.fileid ≠ fileid → os.clientid ∈ expiredOnFile lt leaseExpired fileid →
      os.ranges = []
  | _ => True

/-- A revocation drops the states of the file and reaps the rows of all files. -/
theorem sameHeld_revoke_iff (h : RowsInv lt) (hsame : SameHeld lt)
    (leaseExpired : Clientid → Bool) (fileid : Fileid) :
    SameHeld (lockRevokeExpiredForFile lt leaseExpired fileid).1 ↔
      RevokesOneFile lt (.revokeExpiredForFile leaseExpired fileid) := by
  rw [lockRevokeExpiredForFile_eq]
  dsimp only [RevokesOneFile]
  have hhit : ∀ {c}, c ∈ expiredOnFile lt leaseExpired fileid →
      ∃ os ∈ lt.owners, os.fileid = fileid ∧ os.clientid = c := fun h => by
    simpa [and_assoc] using mem_of_mem_collectClients (mem_filter.mp h).1
  generalize expiredOnFile lt leaseExpired fileid = expired at hhit ⊢
  unfold revokeStates SameHeld at *
  by_cases hrev : 0 < lt.owners.countP fun os =>
      os.fileid == fileid && expired.contains os.clientid
  · rw [if_pos hrev, reapClients, if_pos (show lt.cat = true from h.cat)]
    rw [heldSet_lockRows_append, hsame, actAll_reapClients,
      memSet_filter fun f c => !(f == fileid && expired.contains c), Set.ext_iff]
    constructor
    · intro hx os hos hne hexp
      rw [eq_nil_iff_forall_not_mem]
      intro r hr
      have hin : os.held r ∈ memSet lt.owners := mem_memSet.mpr ⟨os, hos, r, hr, rfl⟩
      have hkept := (hx _).mpr ⟨hin, by simp [LockOwnerState.held, hne]⟩
      exact hkept.2 hexp
    · intro hC x
      refine and_congr_right fun hin => ?_
      obtain ⟨os, hos, r, hr, rfl⟩ := mem_memSet.mp hin
      by_cases hexp : os.clientid ∈ expired
      · have hfile : os.fileid = fileid := by
          by_contra hne
          rw [hC os hos hne hexp] at hr
          cases hr
        simp [LockOwnerState.held, hexp, hfile]
      · simp [LockOwnerState.held, hexp]
  · -- Nothing was dropped, so no client of the file is expired.
    have hnone : ∀ c, c ∉ expired := by
      intro c hc
      obtain ⟨os, hos, hf, rfl⟩ := hhit hc
      exact hrev (countP_pos_iff.mpr ⟨os, hos, by simp [hf, hc]⟩)
    rw [if_neg hrev]
    rw [hsame]
    constructor
    · exact fun _ _ _ _ hexp => absurd hexp (hnone _)
    · simp [hnone]

/-! ## Runs of whole calls -/

/-- The labels that are whole calls, and not single critical sections of one. -/
def LockOp.isCall : LockOp → Bool
  | .releaseStripe .. | .revokeStates .. | .reapClients .. => false
  | _ => true

/-- A call carries the rows along exactly when it meets the condition. -/
theorem lockStep_rows {lt' op} (h : RowsInv lt) (hstep : lockStep lt op = some lt') :
    RowsInv lt' ∧
      (op.isCall = true → SameHeld lt → (SameHeld lt' ↔ RevokesOneFile lt op)) := by
  have hcarry {lt'} (hc : CarriesRows lt lt') :
      RowsInv lt' ∧ (true = true → SameHeld lt → (SameHeld lt' ↔ True)) :=
    ⟨hc.1, fun _ hs => iff_true_intro (hc.2 hs)⟩
  cases op <;> cases hstep
  case acquire alloc a => exact hcarry (carriesRows_lockAcquire h alloc a)
  case release alloc sid offset length =>
    exact hcarry (carriesRows_lockRelease h alloc sid offset length)
  case freeStateid other => exact hcarry (carriesRows_lockFreeStateid h other)
  case releaseAllForClient clientid => exact hcarry (carriesRows_lockReleaseAllForClient h _)
  case releaseStripe | revokeStates => exact ⟨rowsInv_filter h _ _, nofun⟩
  case revokeExpiredForFile leaseExpired fileid =>
    refine ⟨?_, fun _ hs => sameHeld_revoke_iff h hs _ fileid⟩
    rw [lockRevokeExpiredForFile_eq]
    dsimp only
    split
    · exact rowsInv_reapClients (rowsInv_filter h _ _) _
    · exact rowsInv_filter h _ _
  case reapClients cids => exact ⟨rowsInv_reapClients h cids, nofun⟩

/-- **Durable rows mirror memory.**  In a run of whole calls with a catalogue whose calls
all succeed, the rows correspond one to one with the ranges in memory after every call,
exactly when no revocation on a file finds an expired client that also holds a range on
another file. -/
theorem lock_rows_mirror_iff (mdsId : UInt32) (seed : ℕ) (bootEpoch : UInt64)
    (run : List LockOp) (hcalls : ∀ op ∈ run, op.isCall = true) :
    AllStates lockStep Mirrored (lockTableInit mdsId seed true bootEpoch) run ↔
      AllSteps lockStep RevokesOneFile (lockTableInit mdsId seed true bootEpoch) run := by
  have hinv : RowsInv (lockTableInit mdsId seed true bootEpoch) :=
    ⟨rfl, nodup_nil, fun _ hid => absurd hid not_mem_nil⟩
  have hmirror : Mirrored (lockTableInit mdsId seed true bootEpoch) :=
    ⟨fun h => Iff.rfl, nodup_nil, nodup_nil⟩
  refine allStates_iff_allSteps_of (fun _ _ _ h hstep => (lockStep_rows h hstep).1)
    (fun _ _ _ h hm hcall hstep => ?_) (allSteps_of_forall hcalls _) hinv hmirror
  obtain ⟨hinv', hiff⟩ := lockStep_rows h hstep
  rw [mirrored_iff_sameHeld hinv']
  exact hiff hcall ((mirrored_iff_sameHeld h).mp hm)

instance (lt : LockTable) (op : LockOp) : Decidable (RevokesOneFile lt op) := by
  cases op <;> unfold RevokesOneFile <;> infer_instance

/-- A write LOCK of ten bytes by a new owner. -/
def firstLock (fileid : Fileid) (clientid : Clientid) : LockArgs :=
  { fileid, lockType := 2, offset := 0, length := 10, clientid, owner := [1]
    openStateid := none, newLockOwner := true
    lockStateid := { seqid := 0, other := { mdsId := 0, tail := 0 } } }

/-- Client 11 expires with a lock on one file only; its revocation keeps the rows right. -/
theorem lock_rows_mirror_oneFile :
    (∀ op ∈ [LockOp.acquire {} (firstLock 16 11), .acquire {} (firstLock 32 12),
        .revokeExpiredForFile (fun c => c == 11) 16], op.isCall = true) ∧
      AllStates lockStep Mirrored (lockTableInit 1 1 true 0)
        [.acquire {} (firstLock 16 11), .acquire {} (firstLock 32 12),
          .revokeExpiredForFile (fun c => c == 11) 16] :=
  ⟨by decide, (lock_rows_mirror_iff 1 1 0 _ (by decide)).mpr (by decide)⟩

/-- Client 11 holds a lock on files 16 and 32 and expires. The revocation on file 16 reaps
both its rows, and the lock on file 32 stays in memory without one. -/
theorem revocation_orphans_other_file : ∃ lt, exec lockStep (lockTableInit 1 1 true 0)
        [.acquire {} (firstLock 16 11), .acquire {} (firstLock 32 11),
          .revokeExpiredForFile (fun c => c == 11) 16] = some lt ∧
      (heldRanges lt.owners).map HeldRange.fileid = [32] ∧ lockRows lt.catLog = [] ∧
      ¬ Mirrored lt := by
  refine ⟨_, rfl, by decide, by decide, fun hm => ?_⟩
  have hheld := (hm.same { fileid := 32, clientid := 11, owner := [1], range :=
    { offset := 0, length := 10, lockType := .writeLt, lockId := 4 } }).mpr (by decide)
  exact absurd hheld (by decide)

end PnfsLattice
