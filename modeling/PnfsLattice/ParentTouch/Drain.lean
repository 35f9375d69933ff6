import PnfsLattice.ParentTouch.Conservation
import Mathlib.Data.Nat.Count

/-!
# Draining a shard

The loop of `drain_shard`, with nobody else at the shard. A round takes up to
`PT_FLUSH_BATCH` buckets from the tail of the dirty list and calls the callback for each; a
bucket whose callback fails is dirty again, and a later round takes it again. The header
promises that a flush of all dirty buckets flushes every one of them once.

The behaviour of the callback is the sequence of its outcomes.
-/

namespace PnfsLattice

open Lib List Option

/-! ## The loop -/

/-- A callback has returned: what a failed one was given is restored if the directory still
has a bucket. -/
def drainItem (ok : Bool) (sh : PtShard) (item : Fileid × ℕ) : PtShard :=
  if ok then sh
  else match shardFind sh item.1 with
    | some _ => snapshotRestore sh item.1 item.2
    | none => sh

/-- The callbacks of a round; `cb k` is the outcome of the `k`-th call. -/
def drainItems (cb : ℕ → Bool) : ℕ → PtShard → List (Fileid × ℕ) → PtShard
  | _, sh, [] => sh
  | k, sh, item :: items => drainItems cb (k + 1) (drainItem (cb k) sh item) items

/-- `drain_shard` from the `k`-th call on: the shard it leaves and the directories it
attempted, or none if it has not returned after `fuel` rounds. -/
def drainShard (cb : ℕ → Bool) : ℕ → ℕ → PtShard → Option (PtShard × List Fileid)
  | 0, _, _ => none
  | fuel + 1, k, sh =>
    match drainTake sh ptFlushBatch with
    | (sh', []) => some (sh', [])
    | (sh', items@(_ :: _)) =>
      (drainShard cb fuel (k + items.length) (drainItems cb k sh' items)).map fun r =>
        (r.1, items.map Prod.fst ++ r.2)

def dirtyDirs (l : List PtBucket) : List Fileid :=
  (l.filter fun e => e.dirtyAt.isSome).map PtBucket.fileid

/-- The drain returns, with every dirty bucket attempted. -/
def Drains (cb : ℕ → Bool) (sh : PtShard) : Prop :=
  ∃ fuel sh' attempted, drainShard cb fuel 0 sh = some (sh', attempted) ∧
    ∀ d ∈ dirtyDirs sh.buckets, d ∈ attempted

/-- The successes among the first `n` calls. -/
def successes (cb : ℕ → Bool) (n : ℕ) : ℕ := Nat.count (fun k => cb k = true) n

/-- The callback succeeds at least once for each dirty bucket, if it is called often
enough. -/
def EnoughSuccesses (cb : ℕ → Bool) (sh : PtShard) : Prop :=
  ∃ n, (dirtyDirs sh.buckets).length ≤ successes cb n

theorem successes_succ (cb : ℕ → Bool) (k : ℕ) :
    successes cb (k + 1) = successes cb k + if cb k = true then 1 else 0 :=
  Nat.count_succ _ k

/-! ## One round -/

@[simp] theorem dirtyDirs_append (l₁ l₂ : List PtBucket) :
    dirtyDirs (l₁ ++ l₂) = dirtyDirs l₁ ++ dirtyDirs l₂ := by
  simp [dirtyDirs]

@[simp] theorem dirtyDirs_cons (e : PtBucket) (l : List PtBucket) :
    dirtyDirs (e :: l) = if e.dirtyAt.isSome then e.fileid :: dirtyDirs l else dirtyDirs l := by
  cases h : e.dirtyAt <;> simp [dirtyDirs, h]

variable {sh : PtShard} {l l' : List PtBucket} {items : List (Fileid × ℕ)}

/-- The dirty buckets are those that were taken and those that were left. -/
theorem Snapped.dirtyDirs (h : Snapped l items l') :
    (dirtyDirs l).Perm (items.map Prod.fst ++ dirtyDirs l') := by
  induction h with
  | nil => simp
  | @step _ _ _ _ e hdirty _ ih =>
    have he : e.dirtyAt.isSome = true := isSome_iff_ne_none.mpr hdirty
    simp only [dirtyDirs_append, dirtyDirs_cons, snapshotTake, he, isSome_none, if_true,
      Bool.false_eq_true, if_false, map_cons, cons_append] at ih ⊢
    exact perm_middle.trans (ih.cons _)

theorem Snapped.files (h : Snapped l items l') :
    l'.map PtBucket.fileid = l.map PtBucket.fileid := by
  induction h with
  | nil => rfl
  | step _ _ ih => simpa [snapshotTake] using ih

theorem dirtyDirs_of_drainTake_nil {sh'} (h : drainTake sh ptFlushBatch = (sh', [])) :
    dirtyDirs sh.buckets = [] := by
  replace h : (drainTake sh (63 + 1)).2 = [] := congrArg _ h
  unfold drainTake at h
  split at h
  · next hnone =>
      by_contra hne
      obtain ⟨e, he, hdirty⟩ : ∃ e ∈ sh.buckets, e.dirtyAt ≠ none := by simpa [dirtyDirs] using hne
      obtain ⟨time, htime⟩ := ne_none_iff_exists'.mp hdirty
      have hmem : time ∈ sh.buckets.filterMap PtBucket.dirtyAt :=
        mem_filterMap.mpr ⟨e, he, htime⟩
      obtain ⟨_, hleast⟩ : ∃ least, tailTime sh = some least :=
        isSome_iff_exists.mp (isSome_min?_of_mem hmem)
      obtain ⟨b, hb, hbt⟩ := mem_filterMap.mp (List.min?_mem hleast)
      simp only [hleast, bind_some, map_eq_none_iff, List.find?_eq_none] at hnone
      exact hnone b hb (by simp [hbt])
  · simp at h

theorem dirtyDirs_drainItem (ok : Bool) (sh : PtShard) (item : Fileid × ℕ) :
    dirtyDirs (drainItem ok sh item).buckets = dirtyDirs sh.buckets ∨
      ok = false ∧ (dirtyDirs (drainItem ok sh item).buckets).Perm
        (item.1 :: dirtyDirs sh.buckets) := by
  cases ok with
  | true => exact .inl rfl
  | false =>
    cases hf : shardFind sh item.1 with
    | none => simp [drainItem, hf]
    | some e =>
      obtain ⟨hfile, _, _, hsplit, hmod, -⟩ := shardFind_split hf
      simp only [drainItem, hf, snapshotRestore, hmod, hsplit, PtShard.ticked, dirtyDirs_append,
        dirtyDirs_cons, hfile, Bool.false_eq_true, if_false, true_and]
      by_cases hpos : 0 < e.pendingDelta + item.2
      · cases e.dirtyAt with
        | none => exact .inr (by simp [hpos])
        | some => exact .inl (by simp [hpos])
      · exact .inl (by simp [hpos])

theorem drainItem_failed {item} (hm : Marked sh.buckets) (hpos : 0 < item.2)
    (hhas : item.1 ∈ sh.buckets.map PtBucket.fileid) (hclean : item.1 ∉ dirtyDirs sh.buckets) :
    Marked (drainItem false sh item).buckets ∧
      (drainItem false sh item).buckets.map PtBucket.fileid = sh.buckets.map PtBucket.fileid ∧
      (dirtyDirs (drainItem false sh item).buckets).Perm (item.1 :: dirtyDirs sh.buckets) := by
  cases hf : shardFind sh item.1 with
  | none =>
    obtain ⟨e, he, hfile⟩ := mem_map.mp hhas
    exact absurd hfile (shardFind_none hf e he)
  | some e =>
    obtain ⟨hfile, _, _, hsplit, hmod, -⟩ := shardFind_split hf
    rw [hsplit] at hm hclean
    have he : e.dirtyAt = none := by
      by_contra hne
      exact hclean (by simp [isSome_iff_ne_none.mpr hne, hfile])
    have hsum : 0 < e.pendingDelta + item.2 := Nat.add_pos_right _ hpos
    simp only [drainItem, hf, snapshotRestore, hmod, hsplit, PtShard.ticked, Bool.false_eq_true,
      if_false]
    refine ⟨marked_middle.mpr ⟨dirty_restocked hpos, (marked_middle.mp hm).2⟩, by simp, ?_⟩
    simp [hsum, he, hfile]

section Rounds

variable (cb : ℕ → Bool)

/-- The callbacks of a round leave dirty what is dirty, and make dirty at most one directory
for each failure. -/
theorem drainItems_dirty (k : ℕ) (sh : PtShard) (items : List (Fileid × ℕ)) :
    (dirtyDirs sh.buckets ⊆ dirtyDirs (drainItems cb k sh items).buckets) ∧
      successes cb (k + items.length) + (dirtyDirs (drainItems cb k sh items).buckets).length ≤
        successes cb k + items.length + (dirtyDirs sh.buckets).length := by
  induction items generalizing k sh with
  | nil => simp [drainItems]
  | cons item items ih =>
    obtain ⟨hsub, hle⟩ := ih _ _
    have hcount := successes_succ cb k
    have hlen : k + (items.length + 1) = k + 1 + items.length := by omega
    simp only [drainItems, length_cons, hlen]
    rcases dirtyDirs_drainItem (cb k) sh item with h | ⟨hfail, h⟩
    · rw [h] at hsub hle
      refine ⟨hsub, ?_⟩
      split at hcount <;> omega
    · refine ⟨fun d hd => hsub (h.mem_iff.mpr (mem_cons_of_mem _ hd)), ?_⟩
      rw [h.length_eq, length_cons] at hle
      simp only [hfail, Bool.false_eq_true, if_false] at hcount
      omega

/-- If no directory has two dirty buckets, each failure leaves one dirty. -/
theorem drainItems_dirty_eq (k : ℕ) (hm : Marked sh.buckets) (hpos : ∀ p ∈ items, 0 < p.2)
    (hhas : ∀ p ∈ items, p.1 ∈ sh.buckets.map PtBucket.fileid)
    (hnodup : (items.map Prod.fst ++ dirtyDirs sh.buckets).Nodup) :
    Marked (drainItems cb k sh items).buckets ∧
      (dirtyDirs (drainItems cb k sh items).buckets).Nodup ∧
      successes cb k + items.length + (dirtyDirs sh.buckets).length ≤
        successes cb (k + items.length) +
          (dirtyDirs (drainItems cb k sh items).buckets).length := by
  induction items generalizing k sh with
  | nil => simpa [drainItems] using ⟨hm, hnodup⟩
  | cons item items ih =>
    obtain ⟨hpos₁, hpos⟩ := forall_mem_cons.mp hpos
    obtain ⟨hhas₁, hhas⟩ := forall_mem_cons.mp hhas
    obtain ⟨hnew, hrest⟩ := nodup_cons.mp hnodup
    have hcount := successes_succ cb k
    have hlen : k + (items.length + 1) = k + 1 + items.length := by omega
    simp only [drainItems, length_cons, hlen]
    cases hcb : cb k with
    | true =>
      obtain ⟨hm', hnodup', hle⟩ := ih _ hm hpos hhas hrest
      simp only [hcb, if_true] at hcount
      exact ⟨hm', hnodup', by simp only [drainItem, if_true]; omega⟩
    | false =>
      have hclean : item.1 ∉ dirtyDirs sh.buckets := fun h => hnew (mem_append_right _ h)
      obtain ⟨hm', hfiles, hperm⟩ := drainItem_failed hm hpos₁ hhas₁ hclean
      have hall : (items.map Prod.fst ++ dirtyDirs (drainItem false sh item).buckets).Nodup :=
        ((hperm.append_left _).trans perm_middle).nodup_iff.mpr hnodup
      obtain ⟨hm'', hnodup', hle⟩ := ih _ hm' hpos (hfiles ▸ hhas) hall
      rw [hperm.length_eq, length_cons] at hle
      exact ⟨hm'', hnodup', by omega⟩

/-! ## All rounds -/

variable {fuel k : ℕ} {r : PtShard × List Fileid}

/-- What is dirty at the start has been attempted when the drain returns. -/
theorem attempted_of_drainShard (h : drainShard cb fuel k sh = some r) :
    dirtyDirs sh.buckets ⊆ r.2 := by
  induction fuel generalizing k sh r with
  | zero => cases h
  | succ _ ih =>
    have hsnap := (drainTake_snapped sh ptFlushBatch).1
    unfold drainShard at h
    split at h
    · next heq =>
        rw [dirtyDirs_of_drainTake_nil heq]
        exact nil_subset _
    · next sh' p _ heq =>
        obtain ⟨_, hr', rfl⟩ := map_eq_some_iff.mp h
        rw [heq] at hsnap
        intro d hd
        rcases mem_append.mp (hsnap.dirtyDirs.mem_iff.mp hd) with hd | hd
        · exact mem_append_left _ hd
        · exact mem_append_right _ (ih hr' ((drainItems_dirty cb k sh' _).1 hd))

/-- With enough successes to come, the drain returns. -/
theorem drainShard_returns {n}
    (h : successes cb k + (dirtyDirs sh.buckets).length ≤ successes cb n) :
    ∃ fuel r, drainShard cb fuel k sh = some r := by
  -- The calls that are left up to the `n`-th grow fewer with every round.
  induction hleft : n - k using Nat.strong_induction_on generalizing k sh with
  | _ _ ih =>
    have hsnap := (drainTake_snapped sh ptFlushBatch).1
    rcases heq : drainTake sh ptFlushBatch with ⟨sh', _ | ⟨p, rest⟩⟩
    · exact ⟨1, (sh', []), by simp [drainShard, heq]⟩
    rw [heq] at hsnap
    have hlen := hsnap.dirtyDirs.length_eq
    simp only [length_append, length_map, length_cons] at hlen
    have hlt : k < n := by
      by_contra hge
      have : successes cb n ≤ successes cb k := Nat.count_monotone _ (Nat.le_of_not_lt hge)
      omega
    have hround := (drainItems_dirty cb k sh' (p :: rest)).2
    simp only [length_cons] at hround
    have hnext : successes cb (k + (rest.length + 1)) +
        (dirtyDirs (drainItems cb k sh' (p :: rest)).buckets).length ≤
        successes cb n := by omega
    obtain ⟨fuel, r, hr⟩ := ih _ (by omega) hnext rfl
    exact ⟨fuel + 1, _, by simp only [drainShard, heq, length_cons, hr]; rfl⟩

/-- If no directory has two dirty buckets, a drain that returns has seen a success for each
dirty bucket. -/
theorem successes_of_drainShard (hm : Marked sh.buckets) (hone : (dirtyDirs sh.buckets).Nodup)
    (h : drainShard cb fuel k sh = some r) :
    ∃ n, successes cb k + (dirtyDirs sh.buckets).length ≤ successes cb n := by
  induction fuel generalizing k sh r with
  | zero => cases h
  | succ _ ih =>
    have hsnap := (drainTake_snapped sh ptFlushBatch).1
    unfold drainShard at h
    split at h
    · next heq => exact ⟨k, by simp [dirtyDirs_of_drainTake_nil heq]⟩
    · next sh' p rest heq =>
        obtain ⟨_, hr', rfl⟩ := map_eq_some_iff.mp h
        rw [heq] at hsnap
        obtain ⟨hm', hpos⟩ := hsnap.marked hm
        have hperm := hsnap.dirtyDirs
        have hhas : ∀ q ∈ p :: rest, q.1 ∈ sh'.buckets.map PtBucket.fileid := by
          intro q hq
          have hq' := hperm.mem_iff.mpr (mem_append_left _ (mem_map_of_mem hq))
          rw [hsnap.files]
          exact (filter_sublist.map _).subset hq'
        obtain ⟨hm'', hone', hle⟩ :=
          drainItems_dirty_eq cb k hm' hpos hhas (hperm.nodup_iff.mp hone)
        obtain ⟨n, hn⟩ := ih hm'' hone' hr'
        have hlen := hperm.length_eq
        rw [length_append, length_map] at hlen
        dsimp only at hle hlen hn
        exact ⟨n, by omega⟩

/-- **When a drain returns.**  It returns, with every dirty bucket attempted, if the callback
succeeds at least once for each dirty bucket; and if the dirty buckets are those with
something pending, and no directory has two of them, only then. -/
theorem drain_returns (sh : PtShard) : (EnoughSuccesses cb sh → Drains cb sh) ∧
      (Marked sh.buckets ∧ (dirtyDirs sh.buckets).Nodup → Drains cb sh →
        EnoughSuccesses cb sh) := by
  constructor
  · rintro ⟨n, hn⟩
    have hstart : successes cb 0 + (dirtyDirs sh.buckets).length ≤ successes cb n := by
      simpa [successes] using hn
    obtain ⟨fuel, r, hr⟩ := drainShard_returns cb hstart
    exact ⟨fuel, r.1, r.2, hr, fun d hd => attempted_of_drainShard cb hr hd⟩
  · rintro ⟨hm, hone⟩ ⟨_, _, _, hr, -⟩
    obtain ⟨n, hn⟩ := successes_of_drainShard cb hm hone hr
    exact ⟨n, by simpa [successes] using hn⟩

end Rounds

/-- A shard with one bucket, which a commit has made dirty. -/
def oneDirty : PtShard :=
  { buckets := [⟨5, 8, 1, ⟨0, 0⟩, some 0, 0⟩], capacity := 4, tick := 1 }

/-- With a callback that always fails the drain of that shard does not return. -/
theorem drain_does_not_return : (∃ s, Reachable PtInit ptStep anyStep s ∧ s.shard = oneDirty) ∧
      ¬ Drains (fun _ => false) oneDirty := by
  constructor
  · exact ⟨_, .run (ptSysInit 4 fun _ => 7) [.prepare 0 5 7 [] true, .commit 5 ⟨0, 0⟩]
      ⟨4, _, le_rfl, rfl⟩, rfl⟩
  · rintro ⟨_, _, _, hr, -⟩
    obtain ⟨n, hn⟩ := successes_of_drainShard (fun _ => false) (by simp [Marked, oneDirty])
      (by decide) hr
    simp [successes, oneDirty] at hn

end PnfsLattice
