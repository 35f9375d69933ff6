import PnfsLattice.Catalogue.Memdb
import PnfsLattice.Lib.Slots

/-!
# Layout rows

The layout table of `catalogue_memdb.c` and the byte ranges of its rows. A row is keyed
by its file and by the `other` of its stateid; a lookup by stateid alone returns the first
row in slot order, whatever its file. Offsets and lengths are natural numbers below
`2^64`, and a length of `UINT64_MAX` means to end of file.
-/

namespace PnfsLattice

open Lib

/-! ## Byte ranges -/

/-- `UINT64_MAX`. -/
def uint64MaxNat : ℕ := 2 ^ 64 - 1

/-- The end of a range, saturating; a length of `UINT64_MAX` reaches it. -/
def layoutRangeEnd (offset length : ℕ) : ℕ :=
  if length = uint64MaxNat ∨ uint64MaxNat - offset < length then uint64MaxNat
  else offset + length

def layoutRangeUnionSaturating (offA lenA offB lenB : ℕ) : ℕ × ℕ :=
  if lenA = 0 then (offB, lenB)
  else if lenB = 0 then (offA, lenA)
  else if lenA = uint64MaxNat ∨ lenB = uint64MaxNat then (min offA offB, uint64MaxNat)
  else
    let stop := max (layoutRangeEnd offA lenA) (layoutRangeEnd offB lenB)
    if stop = uint64MaxNat then (min offA offB, uint64MaxNat)
    else (min offA offB, stop - min offA offB)

/-- The range of `offset` and `length` covers the bytes `[o, o + l)`. -/
def RangeCovers (offset length o l : ℕ) : Prop := offset ≤ o ∧ o + l ≤ layoutRangeEnd offset length
deriving Decidable

variable {offset length : ℕ}

theorem layoutRangeEnd_bounds (h : offset ≤ uint64MaxNat) :
    offset ≤ layoutRangeEnd offset length ∧ layoutRangeEnd offset length ≤ uint64MaxNat := by
  rw [layoutRangeEnd]
  split <;> omega

@[simp] theorem layoutRangeEnd_eof (offset : ℕ) :
    layoutRangeEnd offset uint64MaxNat = uint64MaxNat := by
  simp [layoutRangeEnd]

theorem layoutRangeEnd_of_fit (h : offset + length < uint64MaxNat) :
    layoutRangeEnd offset length = offset + length := by
  rw [layoutRangeEnd, if_neg (by omega)]

variable {offA lenA offB lenB : ℕ}

/-- The union of two ranges with bytes in them starts at the smaller offset and reaches
the end of both. -/
theorem layoutRangeEnd_union (hA : lenA ≠ 0) (hB : lenB ≠ 0) (hoA : offA ≤ uint64MaxNat)
    (hoB : offB ≤ uint64MaxNat) :
    (layoutRangeUnionSaturating offA lenA offB lenB).1 = min offA offB ∧
      max (layoutRangeEnd offA lenA) (layoutRangeEnd offB lenB) ≤
        layoutRangeEnd (layoutRangeUnionSaturating offA lenA offB lenB).1
          (layoutRangeUnionSaturating offA lenA offB lenB).2 := by
  have hbA := @layoutRangeEnd_bounds offA lenA hoA
  have hbB := @layoutRangeEnd_bounds offB lenB hoB
  rw [layoutRangeUnionSaturating, if_neg hA, if_neg hB]
  by_cases heof : lenA = uint64MaxNat ∨ lenB = uint64MaxNat
  · rw [if_pos heof]
    rw [layoutRangeEnd_eof]
    omega
  · rw [if_neg heof]
    by_cases hstop : max (layoutRangeEnd offA lenA) (layoutRangeEnd offB lenB) = uint64MaxNat
    · simp only [hstop]
      simp
    · -- The end is below the sentinel, so the length that is stored gives it back.
      have hfit := @layoutRangeEnd_of_fit (min offA offB)
        (max (layoutRangeEnd offA lenA) (layoutRangeEnd offB lenB) - min offA offB) (by omega)
      simp only [if_neg hstop]
      exact ⟨trivial, by omega⟩

theorem union_offset_le {m} (hA : offA ≤ m) (hB : offB ≤ m) :
    (layoutRangeUnionSaturating offA lenA offB lenB).1 ≤ m := by
  simp only [layoutRangeUnionSaturating]
  repeat' split
  all_goals omega

theorem rangeCovers_union_left {o l} (hl : 0 < l) (hoA : offA ≤ uint64MaxNat)
    (hoB : offB ≤ uint64MaxNat) (h : RangeCovers offA lenA o l) :
    RangeCovers (layoutRangeUnionSaturating offA lenA offB lenB).1
      (layoutRangeUnionSaturating offA lenA offB lenB).2 o l := by
  obtain ⟨hlo, hhi⟩ := h
  have hA : lenA ≠ 0 := by
    rintro rfl
    have hend : layoutRangeEnd offA 0 = offA := by simp [layoutRangeEnd, uint64MaxNat]
    omega
  by_cases hB : lenB = 0
  · rw [layoutRangeUnionSaturating, if_neg hA, if_pos hB]
    exact ⟨hlo, hhi⟩
  · obtain ⟨hoff, hend⟩ := layoutRangeEnd_union hA hB hoA hoB
    exact ⟨by omega, by omega⟩

theorem rangeCovers_union_right (hB : 0 < lenB) (hoA : offA ≤ uint64MaxNat)
    (hfit : offB + lenB < uint64MaxNat) :
    RangeCovers (layoutRangeUnionSaturating offA lenA offB lenB).1
      (layoutRangeUnionSaturating offA lenA offB lenB).2 offB lenB := by
  have hself := layoutRangeEnd_of_fit hfit
  by_cases hA : lenA = 0
  · rw [layoutRangeUnionSaturating, if_pos hA]
    exact ⟨Nat.le_refl _, Nat.le_of_eq hself.symm⟩
  · obtain ⟨hoff, hend⟩ := layoutRangeEnd_union hA (by omega : lenB ≠ 0) hoA
      (by omega : offB ≤ uint64MaxNat)
    exact ⟨by omega, by omega⟩

/-! ## The table -/

/-- The layout iomodes, `LAYOUTIOMODE4_READ`, `_RW` and `_ANY`. -/
inductive LayoutIomode
  | read
  | rw
  | any
deriving DecidableEq

/-- `struct memdb_layout`. -/
structure LayoutRow where
  clientid : Clientid
  fileid : Fileid
  iomode : LayoutIomode
  offset : ℕ
  length : ℕ
  stateid : Stateid
  dsIds : List UInt32
deriving DecidableEq

/-- The key of a row: its file and its stateid. -/
def LayoutRow.key (r : LayoutRow) : Fileid × Other := (r.fileid, r.stateid.other)

/-- The slots of the layout table. -/
abbrev LayoutTable := List (Option LayoutRow)

def memdbMaxLayouts : ℕ := 256

/-- `memdb_layout_find`. -/
def rowAt (t : LayoutTable) (fileid : Fileid) (other : Other) : Option LayoutRow :=
  findKey LayoutRow.key (fileid, other) (used t)

/-- Write the row of a key, in its slot or in the first free one: what the two grants
share. -/
def memdbLayoutStore (t : LayoutTable) (row : LayoutRow) (write : LayoutRow → LayoutRow) :
    Except MdsStatus LayoutTable :=
  match rowAt t row.fileid row.stateid.other with
  | some _ => .ok (slotWrite (fun r => r.key = row.key) write t)
  | none => if (used t).length < memdbMaxLayouts then .ok (slotPut row t) else .error .nospc

/-- `mem_layout_grant`: insert, or overwrite the row with the same key. -/
def memLayoutGrant (t : LayoutTable) (row : LayoutRow) : Except MdsStatus LayoutTable :=
  memdbLayoutStore t row fun _ => row

/-- What `mem_layout_grant_union` makes of a row it finds. The DS list stays as the first
grant wrote it. -/
def unionRow (new old : LayoutRow) : LayoutRow :=
  let range := layoutRangeUnionSaturating old.offset old.length new.offset new.length
  { old with
    offset := range.1
    length := range.2
    stateid :=
      { old.stateid with seqid := laterSeqid old.stateid.seqid new.stateid.seqid }
    iomode := if old.iomode = .rw ∨ new.iomode = .rw then .rw else new.iomode
    clientid := new.clientid }

section

variable (t : LayoutTable)

def memLayoutGrantUnion (row : LayoutRow) : Except MdsStatus LayoutTable :=
  memdbLayoutStore t row (unionRow row)

/-- `mem_layout_get_by_stateid`: the first row of the stateid, whatever its file. -/
def memLayoutGetByStateid (other : Other) : Option LayoutRow :=
  (used t).find? fun r => r.stateid.other = other

/-- The row `mem_layout_return` deletes, if there is one. The clientid it is called with
is ignored; a fileid of zero means any file. -/
def layoutReturnTarget (other : Other) (fileid : Fileid) : Option LayoutRow :=
  if fileid ≠ 0 then rowAt t fileid other else memLayoutGetByStateid t other

/-- `mem_layout_return`. The first slot with the key of the row found is its slot. -/
def memLayoutReturn (other : Other) (fileid : Fileid) : Except MdsStatus LayoutTable :=
  match layoutReturnTarget t other fileid with
  | some row => .ok (slotClear (fun r => r.key = row.key) t)
  | none => .error .notfound

/-- `mem_layout_iter_file`: the rows of a file, in slot order. -/
def memLayoutIterFile (fileid : Fileid) : List LayoutRow :=
  (used t).filter fun r => r.fileid = fileid

/-- The table after a `mds_coord_layout_return` whose result the caller ignores. -/
def layoutReturned (other : Other) (fileid : Fileid) : LayoutTable :=
  match memLayoutReturn t other fileid with
  | .ok t' => t'
  | .error _ => t

/-! ## The table as a map -/

/-- No file and stateid have two rows. -/
def LayoutTable.Unique : Prop := ((used t).map LayoutRow.key).Nodup

end

variable {t t' : LayoutTable} {row r : LayoutRow} {f : Fileid} {o : Other}

theorem key_of_rowAt (h : rowAt t f o = some r) : r.fileid = f ∧ r.stateid.other = o := by
  have hk : r.key = (f, o) := key_of_findKey h
  exact Prod.mk.inj hk

theorem mem_of_rowAt (h : rowAt t f o = some r) : r ∈ used t := mem_of_findKey h

theorem rowAt_of_mem (ht : t.Unique) (h : r ∈ used t) : rowAt t r.fileid r.stateid.other = some r :=
  findKey_of_mem ht h

/-- **What a grant leaves.**  The row of its key is the one it wrote, over the one it
found; all other rows are as they were. -/
theorem rowAt_memdbLayoutStore {write} (hw : ∀ r, r.key = row.key → (write r).key = row.key)
    (ht : t.Unique) (h : memdbLayoutStore t row write = .ok t') : t'.Unique ∧ ∀ f o, rowAt t' f o =
      if (f, o) = row.key then some ((rowAt t f o).elim row write) else rowAt t f o := by
  have hkey : rowAt t row.fileid row.stateid.other = findKey LayoutRow.key row.key (used t) := rfl
  rw [memdbLayoutStore] at h
  cases hfind : rowAt t row.fileid row.stateid.other with
  | some =>
    simp only [hfind] at h
    cases h
    refine ⟨nodup_slotWrite hw ht, fun f o => ?_⟩
    rw [rowAt, findKey_slotWrite hw]
    by_cases hk : (f, o) = row.key
    · rw [if_pos hk, if_pos hk, rowAt, hk, ← hkey, hfind]
      rfl
    · rw [if_neg hk, if_neg hk, rowAt]
  | none =>
    simp only [hfind] at h
    split at h <;> cases h
    refine ⟨nodup_slotPut ht hfind, fun f o => ?_⟩
    rw [rowAt, findKey_slotPut ht hfind]
    by_cases hk : (f, o) = row.key
    · rw [if_pos hk.symm, if_pos hk, rowAt, hk, ← hkey, hfind]
      rfl
    · rw [if_neg fun heq => hk heq.symm, if_neg hk, rowAt]

theorem rowAt_memLayoutGrant (ht : t.Unique) (h : memLayoutGrant t row = .ok t') :
    t'.Unique ∧ ∀ f o, rowAt t' f o = if (f, o) = row.key then some row else rowAt t f o := by
  obtain ⟨hu, hrow⟩ := rowAt_memdbLayoutStore (fun _ _ => rfl) ht h
  refine ⟨hu, fun f o => ?_⟩
  rw [hrow]
  cases rowAt t f o <;> rfl

theorem layoutReturned_of_target (h : layoutReturnTarget t o f = some row) :
    layoutReturned t o f = slotClear (fun r => r.key = row.key) t := by
  simp [layoutReturned, memLayoutReturn, h]

theorem layoutReturned_of_none (h : layoutReturnTarget t o f = none) :
    layoutReturned t o f = t := by
  simp [layoutReturned, memLayoutReturn, h]

theorem layoutReturnTarget_some (h : layoutReturnTarget t o f = some row) :
    row ∈ used t ∧ row.stateid.other = o ∧ (f ≠ 0 → row.fileid = f) := by
  rw [layoutReturnTarget] at h
  by_cases hf : f ≠ 0
  · rw [if_pos hf] at h
    exact ⟨mem_of_rowAt h, (key_of_rowAt h).2, fun _ => (key_of_rowAt h).1⟩
  · rw [if_neg hf] at h
    exact ⟨List.mem_of_find?_eq_some h, by simpa using List.find?_some h, fun h' => absurd h' hf⟩

theorem unique_layoutReturned (ht : t.Unique) : (layoutReturned t o f).Unique := by
  cases h : layoutReturnTarget t o f with
  | some =>
    rw [layoutReturned_of_target h]
    exact nodup_slotClear ht
  | none => rwa [layoutReturned_of_none h]

theorem mem_layoutReturned (ht : t.Unique) : r ∈ used (layoutReturned t o f) ↔
      r ∈ used t ∧ ∀ row, layoutReturnTarget t o f = some row → r.key ≠ row.key := by
  cases h : layoutReturnTarget t o f with
  | some =>
    rw [layoutReturned_of_target h, mem_used_slotClear ht]
    simp
  | none =>
    rw [layoutReturned_of_none h]
    simp

theorem no_row_of_layoutReturned (ht : t.Unique)
    (hfile : ∀ r ∈ used t, r.stateid.other = o → r.fileid = f) :
    ∀ r ∈ used (layoutReturned t o f), r.stateid.other ≠ o := by
  intro r hr ho
  obtain ⟨hmem, hkeep⟩ := (mem_layoutReturned ht).mp hr
  have hrf := hfile r hmem ho
  cases h : layoutReturnTarget t o f with
  | some row =>
    obtain ⟨hrow, hother, -⟩ := layoutReturnTarget_some h
    refine hkeep row h ?_
    rw [LayoutRow.key, LayoutRow.key, hrf, ho, hother, hfile row hrow hother]
  | none =>
    rw [layoutReturnTarget] at h
    by_cases hf : f ≠ 0
    · rw [if_pos hf] at h
      exact findKey_eq_none.mp h r hmem (Prod.ext hrf ho)
    · rw [if_neg hf] at h
      exact absurd ho (by simpa using List.find?_eq_none.mp h r hmem)

end PnfsLattice
