import Mathlib.Order.Nat
import PnfsLattice.Catalogue.Memdb

/-!
# The owner view of the GC queue

An MDS with an id drains its own rows and the legacy rows, whose owner is 0. On FoundationDB it
finds them through the index GC_BY_OWNER (`catalogue_fdb_ext.c`): one page of each of the two
prefixes is read, the pages are merged, and the rows are read in waves.
-/

namespace PnfsLattice

open Lib List

structure OwnedGcRow extends GcEntry where
  ownerMdsId : UInt32

/-- The GC table in the order of its keys. -/
structure GcTable where
  rows : List OwnedGcRow
  sorted : rows.Pairwise fun r r' => r.gcSeq < r'.gcSeq

def fdbExtGcPeekMax : ℕ := 65536

def fdbExtQueuePage : ℕ := 1024

/-- The sequence numbers under an owner's prefix of the index, which has one key for each row. -/
def gcByOwner (rows : List OwnedGcRow) (owner : UInt32) : List ℕ :=
  (rows.filter (·.ownerMdsId = owner)).map (·.gcSeq)

/-- `gc_idx_merge` of two pages, `want` numbers at most. -/
def gcIdxMerge : ℕ → List ℕ → List ℕ → List ℕ
  | 0, _, _ => []
  | _ + 1, [], [] => []
  | want + 1, so :: own, [] => so :: gcIdxMerge want own []
  | want + 1, [], sl :: legacy => sl :: gcIdxMerge want [] legacy
  | want + 1, so :: own, sl :: legacy =>
    if so ≤ sl then so :: gcIdxMerge want own (sl :: legacy)
    else sl :: gcIdxMerge want (so :: own) legacy

section

variable (t : GcTable)

/-- `gc_idx_start`: a page of an owner's prefix. There is no read with the limit 0. -/
def gcIdxStart (owner : UInt32) (limit : ℕ) : Option (List ℕ) :=
  if limit = 0 then none else some ((gcByOwner t.rows owner).take limit)

def gcIdxCollect (mdsId : UInt32) (want : ℕ) : Option (List ℕ) := do
  let own ← gcIdxStart t mdsId want
  let legacy ← gcIdxStart t 0 want
  return gcIdxMerge want own legacy

/-- `gc_row_finish`: the row of a sequence number, if it is there. -/
def gcRowFinish (seq : ℕ) : Option OwnedGcRow := findKey (·.gcSeq) seq t.rows

/-- `gc_idx_rows`, one wave and the rest. A key without a row is skipped. -/
def gcIdxRows (seqs : List ℕ) : List OwnedGcRow :=
  if seqs = [] then []
  else (seqs.take fdbExtQueuePage).filterMap (gcRowFinish t) ++
    gcIdxRows (seqs.drop fdbExtQueuePage)
termination_by seqs.length
decreasing_by
  have := length_pos_iff.mpr ‹_›
  rw [length_drop, fdbExtQueuePage]
  omega

/-- `gc_idx_peek`; `none` is an error, with no row delivered. -/
def gcIdxPeek (mdsId : UInt32) (cap : ℕ) : Option (List OwnedGcRow) :=
  (gcIdxCollect t mdsId (min cap fdbExtGcPeekMax)).map (gcIdxRows t)

end

variable {own legacy : List ℕ} {k a b s : ℕ} {t : GcTable} {mdsId : UInt32}

theorem gcIdxMerge_own (h : ∀ x ∈ legacy, s < x) :
    gcIdxMerge (k + 1) (s :: own) legacy = s :: gcIdxMerge k own legacy := by
  cases legacy with
  | nil => rfl
  | cons sl => rw [gcIdxMerge, if_pos (h sl mem_cons_self).le]

theorem gcIdxMerge_legacy (h : ∀ x ∈ own, s < x) :
    gcIdxMerge (k + 1) own (s :: legacy) = s :: gcIdxMerge k own legacy := by
  cases own with
  | nil => rfl
  | cons so => rw [gcIdxMerge, if_neg (h so mem_cons_self).not_ge]

/-- Two pages of `k` numbers at least have the first `k` numbers of both owners. -/
theorem gcIdxMerge_pages (hid : mdsId ≠ 0) {rows : List OwnedGcRow}
    (hsorted : rows.Pairwise fun r r' => r.gcSeq < r'.gcSeq) (ha : k ≤ a) (hb : k ≤ b) :
    gcIdxMerge k ((gcByOwner rows mdsId).take a) ((gcByOwner rows 0).take b) =
      ((rows.filter fun r => r.ownerMdsId = mdsId ∨ r.ownerMdsId = 0).map (·.gcSeq)).take k := by
  induction rows generalizing k a b with
  | nil => cases k <;> simp [gcByOwner, gcIdxMerge]
  | cons r rows ih =>
    obtain ⟨hlt, hrest⟩ := pairwise_cons.mp hsorted
    cases k with
    | zero => simp [gcIdxMerge]
    | succ k =>
      -- The first row comes before the page that it is not in.
      have hfirst : ∀ owner n, ∀ x ∈ (gcByOwner rows owner).take n, r.gcSeq < x := by
        intro _ n x hx
        obtain ⟨r', hr', rfl⟩ := mem_map.mp (mem_of_mem_take hx)
        exact hlt r' (mem_of_mem_filter hr')
      obtain ⟨a, rfl⟩ := Nat.exists_eq_add_of_le' (Nat.le_of_add_left_le ha)
      obtain ⟨b, rfl⟩ := Nat.exists_eq_add_of_le' (Nat.le_of_add_left_le hb)
      by_cases hown : r.ownerMdsId = mdsId
      · have hstep := @ih k a (b + 1) hrest (by omega) (by omega)
        simp [gcByOwner, hown, hid] at hstep hfirst ⊢
        rw [gcIdxMerge_own (hfirst 0 _), hstep]
      · have hstep := @ih k (a + 1) b hrest (by omega) (by omega)
        by_cases hzero : r.ownerMdsId = 0
        · simp [gcByOwner, hzero, hid.symm] at hstep hfirst ⊢
          rw [gcIdxMerge_legacy (hfirst mdsId _), hstep]
        · simpa [gcByOwner, hown, hzero] using @ih (k + 1) (a + 1) (b + 1) hrest ha hb

theorem gcIdxRows_eq (seqs : List ℕ) : gcIdxRows t seqs = seqs.filterMap (gcRowFinish t) := by
  fun_induction gcIdxRows t seqs with
  | case1 => rfl
  | case2 _ _ ih => rw [ih, ← filterMap_append, take_append_drop]

theorem filterMap_gcRowFinish {l : List OwnedGcRow} (h : l ⊆ t.rows) :
    (l.map (·.gcSeq)).filterMap (gcRowFinish t) = l := by
  have hnodup : (t.rows.map (·.gcSeq)).Nodup := pairwise_map.mpr (t.sorted.imp fun h => h.ne)
  rw [filterMap_map]
  exact (filterMap_congr fun r hr => findKey_of_mem hnodup (h hr)).trans filterMap_some

/-- **The owner view is the filtered queue.**  A peek delivers the first rows of the owner and
of nobody, in the order of their sequence numbers; only one that asks for no row fails. -/
theorem gc_peek_filters_queue (t : GcTable) {mdsId : UInt32} (hid : mdsId ≠ 0) (cap : ℕ) :
    let rows := (gcIdxPeek t mdsId cap).getD []
    rows = (t.rows.filter fun r => r.ownerMdsId = mdsId ∨ r.ownerMdsId = 0).take
        (min cap fdbExtGcPeekMax) ∧
      (rows.map (·.gcSeq)).Pairwise (· < ·) ∧ ((gcIdxPeek t mdsId cap).isSome ↔ 0 < cap) := by
  intro rows
  by_cases hcap : cap = 0
  · simp [rows, gcIdxPeek, gcIdxCollect, gcIdxStart, hcap]
  have hwant : min cap fdbExtGcPeekMax ≠ 0 := by
    rw [fdbExtGcPeekMax]
    omega
  have hrows : gcIdxPeek t mdsId cap = some ((t.rows.filter fun r =>
      r.ownerMdsId = mdsId ∨ r.ownerMdsId = 0).take (min cap fdbExtGcPeekMax)) := by
    simp only [gcIdxPeek, gcIdxCollect, gcIdxStart, if_neg hwant]
    simp only [Option.bind_eq_bind, Option.bind_some, Option.pure_def, Option.map_some]
    rw [gcIdxMerge_pages hid t.sorted le_rfl le_rfl, gcIdxRows_eq, ← map_take,
      filterMap_gcRowFinish fun r hr => mem_of_mem_filter (mem_of_mem_take hr)]
  simp only [rows, hrows, Option.getD_some, Option.isSome_some, pairwise_map, true_and, true_iff]
  exact ⟨(t.sorted.sublist filter_sublist).sublist (take_sublist ..), Nat.pos_of_ne_zero hcap⟩

/-- Rows 1 to 4 of the owners 7, 8, 0 and 7. -/
def gcFourRows : GcTable :=
  let row : ℕ → UInt32 → OwnedGcRow := fun gcSeq => .mk ⟨gcSeq, 0, 0, [], 0⟩
  { rows := [row 1 7, row 2 8, row 3 0, row 4 7], sorted := by decide }

theorem gc_peek_filters_four : ((gcIdxPeek gcFourRows 7 2).getD []).map (·.gcSeq) = [1, 3] := by
  rw [(gc_peek_filters_queue gcFourRows (by decide) 2).1]
  rfl

end PnfsLattice
