import PnfsLattice.Lib.Keyed
import PnfsLattice.Open.Table

/-!
# The layout seqid tracker

The in-memory table of `compound_layout.c` that records, for each layout stateid the
server issued, the latest seqid. A bucket of its hash is a chain with head insertion and
all entries of one `other` are in one bucket, so one list, newest entry first, stands for
the table: a lookup sees the newest entry of an `other`.

`layout_seqid_record_new` inserts without looking for an entry of the same `other`, and
`layout_seqid_remove` removes one entry. With at most one entry for each `other`
(`SeqidTable.Unique`) the table is the map `layoutSeqidPeek`, and each operation has its
effect on that map stated once.
-/

namespace PnfsLattice

open Lib List Option

/-- `struct layout_seqid_entry`, without the chain link. -/
structure SeqidEntry where
  other : Other
  seqid : UInt32
deriving DecidableEq

/-- The tracker, newest entry first. -/
abbrev SeqidTable := List SeqidEntry

def layoutSeqidMaxEntries : ℕ := 64 * 1024 * 1024

def layoutSeqidAtCapacity (t : SeqidTable) : Bool := layoutSeqidMaxEntries ≤ t.length

def layoutSeqidPeek (t : SeqidTable) (other : Other) : Option UInt32 :=
  (findKey SeqidEntry.other other t).map SeqidEntry.seqid

/-- `layout_seqid_record_new`; `alloc` says whether the allocation succeeds. -/
def layoutSeqidRecordNew (alloc : Bool) (t : SeqidTable) (other : Other) : SeqidTable :=
  if alloc then { other, seqid := 1 } :: t else t

/-- The seqid `layout_seqid_record_at` records: zero is reserved. -/
def recordedSeqid (seqid : UInt32) : UInt32 := if seqid = 0 then 1 else seqid

/-- `layout_seqid_record_at`: an entry's seqid is only ever raised. -/
def layoutSeqidRecordAt (alloc : Bool) (t : SeqidTable) (other : Other) (seqid : UInt32) :
    SeqidTable :=
  match findKey SeqidEntry.other other t with
  | some _ =>
    modifyFirst (fun e => e.other = other)
      (fun e => { e with seqid := laterSeqid e.seqid (recordedSeqid seqid) }) t
  | none => if alloc then { other, seqid := recordedSeqid seqid } :: t else t

/-- `layout_seqid_advance`: the next seqid, and the table that holds it; nothing on a
miss. -/
def layoutSeqidAdvance (t : SeqidTable) (other : Other) : Option (UInt32 × SeqidTable) :=
  (findKey SeqidEntry.other other t).map fun e =>
    (bumpSeqid e.seqid,
      modifyFirst (fun e => e.other = other) (fun e => { e with seqid := bumpSeqid e.seqid }) t)

def layoutSeqidRemove (t : SeqidTable) (other : Other) : SeqidTable :=
  t.eraseP fun e => e.other = other

/-! ## The bump -/

theorem toNat_bumpSeqid {n} (h : n.toNat < 2 ^ 32 - 1) : (bumpSeqid n).toNat = n.toNat + 1 := by
  have hne : n ≠ 0xFFFFFFFF := by
    rintro rfl
    exact absurd h (by decide)
  rw [bumpSeqid, if_neg hne, UInt32.toNat_add, UInt32.toNat_one]
  omega

theorem recordedSeqid_of_pos {n} (h : n ≠ 0) : recordedSeqid n = n := if_neg h

/-! ## The tracker as a map -/

/-- No `other` has two entries. -/
def SeqidTable.Unique (t : SeqidTable) : Prop := (t.map SeqidEntry.other).Nodup

variable {t : SeqidTable} {o o' : Other} {n : UInt32} {e : SeqidEntry}

theorem layoutSeqidPeek_eq_none : layoutSeqidPeek t o = none ↔ ∀ e ∈ t, e.other ≠ o := by
  rw [layoutSeqidPeek, map_eq_none_iff, findKey_eq_none]

theorem exists_mem_of_peek (h : layoutSeqidPeek t o = some n) :
    ∃ e ∈ t, e.other = o ∧ e.seqid = n := by
  obtain ⟨e, he, hn⟩ := map_eq_some_iff.mp h
  exact ⟨e, mem_of_findKey he, key_of_findKey he, hn⟩

/-- Writing the newest entry of an `other` changes what is seen of that `other`. -/
theorem peek_modifyFirst (g : UInt32 → UInt32) : layoutSeqidPeek
        (modifyFirst (fun e => e.other = o) (fun e => { e with seqid := g e.seqid }) t) o' =
      if o' = o then (layoutSeqidPeek t o').map g else layoutSeqidPeek t o' := by
  have hkey : ∀ e : SeqidEntry, e.other = o →
      ({ e with seqid := g e.seqid } : SeqidEntry).other = o := fun _ h => h
  rw [layoutSeqidPeek, findKey_modifyFirst hkey, layoutSeqidPeek]
  by_cases h : o' = o
  · rw [if_pos h, if_pos h, Option.map_map, Option.map_map]
    rfl
  · rw [if_neg h, if_neg h]

theorem unique_cons (ht : t.Unique) (h : layoutSeqidPeek t o = none) :
    SeqidTable.Unique ({ other := o, seqid := n } :: t) :=
  nodup_map_cons.mpr ⟨layoutSeqidPeek_eq_none.mp h, ht⟩

/-! ## One effect for each operation -/

theorem peek_cons : layoutSeqidPeek ({ other := o, seqid := n } :: t) o' =
      if o' = o then some n else layoutSeqidPeek t o' := by
  by_cases h : o' = o
  · simp [layoutSeqidPeek, h]
  · have h' : ¬ o = o' := fun heq => h heq.symm
    simp [layoutSeqidPeek, h, h']

theorem peek_recordNew : layoutSeqidPeek (layoutSeqidRecordNew true t o) o' =
      if o' = o then some 1 else layoutSeqidPeek t o' :=
  peek_cons

theorem peek_remove (ht : t.Unique) : layoutSeqidPeek (layoutSeqidRemove t o) o' =
      if o' = o then none else layoutSeqidPeek t o' := by
  rw [layoutSeqidPeek, layoutSeqidRemove, findKey_eraseP ht]
  by_cases h : o' = o
  · rw [if_pos h, if_pos h, map_none]
  · rw [if_neg h, if_neg h, layoutSeqidPeek]

theorem layoutSeqidAdvance_some {t'} (h : layoutSeqidAdvance t o = some (n, t')) :
    ∃ cur, layoutSeqidPeek t o = some cur ∧ n = bumpSeqid cur ∧
      (∀ o', layoutSeqidPeek t' o' = if o' = o then some n else layoutSeqidPeek t o') ∧
      (t.Unique → t'.Unique) := by
  obtain ⟨e, he, heq⟩ := map_eq_some_iff.mp h
  have hpeek : layoutSeqidPeek t o = some e.seqid := by rw [layoutSeqidPeek, he, map_some]
  obtain ⟨rfl, rfl⟩ := Prod.mk.inj heq
  refine ⟨e.seqid, hpeek, rfl, fun o' => ?_, fun ht => nodup_modifyFirst (fun _ h => h) ht⟩
  rw [peek_modifyFirst]
  by_cases ho : o' = o
  · rw [if_pos ho, if_pos ho, ho, hpeek, map_some]
  · rw [if_neg ho, if_neg ho]

theorem layoutSeqidAdvance_eq_none :
    layoutSeqidAdvance t o = none ↔ layoutSeqidPeek t o = none := by
  rw [layoutSeqidAdvance, layoutSeqidPeek, map_eq_none_iff, map_eq_none_iff]

theorem peek_recordAt : layoutSeqidPeek (layoutSeqidRecordAt true t o n) o' =
      if o' = o then
        some ((layoutSeqidPeek t o).elim (recordedSeqid n) (laterSeqid · (recordedSeqid n)))
      else layoutSeqidPeek t o' := by
  cases hf : findKey SeqidEntry.other o t with
  | none =>
    have hpeek : layoutSeqidPeek t o = none := by rw [layoutSeqidPeek, hf, map_none]
    simp [layoutSeqidRecordAt, hf, peek_cons, hpeek]
  | some e =>
    have hpeek : layoutSeqidPeek t o = some e.seqid := by rw [layoutSeqidPeek, hf, map_some]
    simp only [layoutSeqidRecordAt, hf, hpeek, elim_some]
    rw [peek_modifyFirst (laterSeqid · _)]
    by_cases ho : o' = o
    · rw [if_pos ho, if_pos ho, ho, hpeek, map_some]
    · rw [if_neg ho, if_neg ho]

theorem unique_recordAt {alloc} (ht : t.Unique) :
    SeqidTable.Unique (layoutSeqidRecordAt alloc t o n) := by
  rw [layoutSeqidRecordAt]
  split
  · exact nodup_modifyFirst (fun _ h => h) ht
  · next hf =>
      split
      · exact unique_cons ht (by rw [layoutSeqidPeek, hf, map_none])
      · exact ht

/-! ## The entries -/

section Entries

variable {t' : SeqidTable} {alloc : Bool}

theorem mem_layoutSeqidAdvance (h : layoutSeqidAdvance t o = some (n, t')) (he : e ∈ t') :
    ∃ e' ∈ t, e'.other = e.other := by
  obtain ⟨_, _, heq⟩ := map_eq_some_iff.mp h
  obtain ⟨-, rfl⟩ := Prod.mk.inj heq
  rcases mem_modifyFirst he with he | ⟨e', he', rfl⟩
  · exact ⟨e, he, rfl⟩
  · exact ⟨e', mem_of_find?_eq_some he', rfl⟩

theorem mem_layoutSeqidAdvance_of_ne (h : layoutSeqidAdvance t o = some (n, t')) (he : e ∈ t)
    (hne : e.other ≠ o) : e ∈ t' := by
  obtain ⟨_, _, heq⟩ := map_eq_some_iff.mp h
  obtain ⟨-, rfl⟩ := Prod.mk.inj heq
  exact mem_modifyFirst_of_ne he fun a ha heq => hne (heq ▸ key_of_findKey ha)

theorem mem_layoutSeqidRecordAt (he : e ∈ layoutSeqidRecordAt alloc t o n) :
    (∃ e' ∈ t, e'.other = e.other) ∨ e.other = o := by
  rw [layoutSeqidRecordAt] at he
  split at he
  · rcases mem_modifyFirst he with he | ⟨e', he', rfl⟩
    · exact .inl ⟨e, he, rfl⟩
    · exact .inl ⟨e', mem_of_find?_eq_some he', rfl⟩
  · split at he
    · rcases mem_cons.mp he with rfl | he
      · exact .inr rfl
      · exact .inl ⟨e, he, rfl⟩
    · exact .inl ⟨e, he, rfl⟩

theorem mem_layoutSeqidRecordNew (he : e ∈ layoutSeqidRecordNew alloc t o) :
    e ∈ t ∨ e.other = o := by
  rw [layoutSeqidRecordNew] at he
  split at he
  · rcases mem_cons.mp he with rfl | he
    · exact .inr rfl
    · exact .inl he
  · exact .inl he

theorem mem_layoutSeqidRecordNew_of_mem (he : e ∈ t) : e ∈ layoutSeqidRecordNew alloc t o := by
  rw [layoutSeqidRecordNew]
  split
  · exact mem_cons_of_mem _ he
  · exact he

end Entries

end PnfsLattice
