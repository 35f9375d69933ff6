import Mathlib.Data.List.Perm.Subperm
import PnfsLattice.Lib.Tally

/-!
# Counters with a cached level

A counter per key, whose updates are issued from a cache and reach the counter later. The
cache has at most one level per key. Issuing an update raises the level and hands the new
value out; an update that by-passes the cache raises the counter at once, and is reported to
the level afterwards.

A level stays between what was handed out for its key and the counter, less what by-passed
the cache and is not reported yet. It follows that the values handed out for a key
increase, and that none exceeds the counter.
-/

namespace Lib

open List

variable {κ : Type*} [DecidableEq κ]

/-- The counters with one taken off at `k`. -/
def lower (f : κ → ℕ) (k : κ) : κ → ℕ := fun j => if k = j then f j - 1 else f j

/-- The histories with `x` put in front at `k`. -/
def push (f : κ → List ℕ) (k : κ) (x : ℕ) : κ → List ℕ :=
  fun j => if k = j then x :: f j else f j

/-- Counters with a cache of levels. -/
structure Counters (κ : Type*) where
  levels : List (κ × ℕ)
  /-- The values handed out, newest first. -/
  seen : κ → List ℕ
  total : κ → ℕ
  /-- The updates that by-passed the cache and are not reported. -/
  unreported : κ → ℕ

namespace Counters

/-- What the cache may do. -/
inductive Step (a : Counters κ) : Counters κ → Prop
  | keep {m : List (κ × ℕ)} (h : m.Subperm a.levels) : Step a { a with levels := m }
  | issue {k : κ} {x : ℕ} {m m' : List (κ × ℕ)} (h : a.levels.Perm ((k, x) :: m))
      (h' : m'.Perm ((k, x + 1) :: m)) :
      Step a { a with
        levels := m', seen := push a.seen k (x + 1), total := bump a.total k 1 }
  | bypass (k : κ) :
      Step a { a with total := bump a.total k 1, unreported := bump a.unreported k 1 }
  | report {k : κ} {x : ℕ} {m m' : List (κ × ℕ)} (h : a.levels.Perm ((k, x) :: m))
      (h' : m'.Perm ((k, x + 1) :: m)) (hpos : 0 < a.unreported k) :
      Step a { a with levels := m', unreported := lower a.unreported k }
  | reportMiss (k : κ) : Step a { a with unreported := lower a.unreported k }
  | raise {k : κ} {x y : ℕ} {m m' : List (κ × ℕ)} (h : a.levels.Perm ((k, x) :: m))
      (h' : m'.Perm ((k, y) :: m)) (hxy : x ≤ y) (hy : y ≤ a.total k)
      (hnone : a.unreported k = 0) : Step a { a with levels := m' }
  | insert {k : κ} {m : List (κ × ℕ)} (h : m.Subperm a.levels) (hk : k ∉ m.map Prod.fst)
      (hnone : a.unreported k = 0) : Step a { a with levels := (k, a.total k) :: m }

/-- The levels are in their bounds, and what was handed out increases. -/
structure Sound (a : Counters κ) : Prop where
  unique : (a.levels.map Prod.fst).Nodup
  bound : ∀ p ∈ a.levels, p.2 + a.unreported p.1 ≤ a.total p.1
  covers : ∀ p ∈ a.levels, ∀ x ∈ a.seen p.1, x ≤ p.2
  within : ∀ k, ∀ x ∈ a.seen k, x ≤ a.total k
  increasing : ∀ k, (a.seen k).Pairwise (· > ·)

variable {a b : Counters κ}

omit [DecidableEq κ] in
theorem nodup_keys_of_subperm {m m' : List (κ × ℕ)} (h : m'.Subperm m)
    (hm : (m.map Prod.fst).Nodup) : (m'.map Prod.fst).Nodup := by
  obtain ⟨l, hperm, hsub⟩ := h
  exact (hperm.map Prod.fst).nodup_iff.mp ((hsub.map Prod.fst).nodup hm)

omit [DecidableEq κ] in
theorem Sound.keep (h : a.Sound) {m : List (κ × ℕ)} (hm : m.Subperm a.levels) :
    Sound { a with levels := m } where
  unique := nodup_keys_of_subperm hm h.unique
  bound p hp := h.bound p (hm.subset hp)
  covers p hp := h.covers p (hm.subset hp)
  within := h.within
  increasing := h.increasing

variable {x : ℕ}

omit [DecidableEq κ] in
theorem Sound.ne_of_perm (h : a.Sound) {k : κ} {m : List (κ × ℕ)}
    (hperm : a.levels.Perm ((k, x) :: m)) : (∀ p ∈ m, p.1 ≠ k) ∧ (m.map Prod.fst).Nodup := by
  have hnodup := (hperm.map Prod.fst).nodup_iff.mp h.unique
  rw [map_cons, nodup_cons] at hnodup
  exact ⟨fun p hp heq => hnodup.1 (mem_map.mpr ⟨p, hp, heq⟩), hnodup.2⟩

omit [DecidableEq κ] in
/-- **Writing one level.**  The others keep their bounds if nothing of their keys changes. -/
theorem Sound.write (h : a.Sound) {k : κ} {y : ℕ} {m m' : List (κ × ℕ)}
    (hperm : a.levels.Perm ((k, x) :: m)) (hperm' : m'.Perm ((k, y) :: m))
    (hlevels : b.levels = m') (hbound : y + b.unreported k ≤ b.total k)
    (hcovers : ∀ z ∈ b.seen k, z ≤ y) (hincr : (b.seen k).Pairwise (· > ·))
    (hother : ∀ j, j ≠ k → b.seen j = a.seen j ∧ b.total j = a.total j ∧
      b.unreported j = a.unreported j) : b.Sound := by
  obtain ⟨hne, hnodup⟩ := h.ne_of_perm hperm
  have hold : ∀ p ∈ m, p ∈ a.levels := fun p hp =>
    hperm.mem_iff.mpr (mem_cons_of_mem _ hp)
  have hmem : ∀ p ∈ b.levels, p = (k, y) ∨ p ∈ m := fun p hp =>
    mem_cons.mp (hperm'.mem_iff.mp (hlevels ▸ hp))
  refine ⟨?_, fun p hp => ?_, fun p hp => ?_, fun j => ?_, fun j => ?_⟩
  · rw [hlevels, (hperm'.map Prod.fst).nodup_iff, map_cons, nodup_cons]
    refine ⟨fun hk => ?_, hnodup⟩
    obtain ⟨p, hp, hpk⟩ := mem_map.mp hk
    exact hne p hp hpk
  · rcases hmem p hp with rfl | hp
    · exact hbound
    · obtain ⟨-, htotal, hunreported⟩ := hother p.1 (hne p hp)
      rw [htotal, hunreported]
      exact h.bound p (hold p hp)
  · rcases hmem p hp with rfl | hp
    · exact hcovers
    · rw [(hother p.1 (hne p hp)).1]
      exact h.covers p (hold p hp)
  · by_cases hj : j = k
    · subst hj
      exact fun z hz => Nat.le_trans (hcovers z hz) (Nat.le_trans (Nat.le_add_right _ _) hbound)
    · obtain ⟨hseen, htotal, -⟩ := hother j hj
      rw [hseen, htotal]
      exact h.within j
  · by_cases hj : j = k
    · exact hj ▸ hincr
    · rw [(hother j hj).1]
      exact h.increasing j

omit [DecidableEq κ] in
theorem Sound.level (h : a.Sound) {k : κ} {m : List (κ × ℕ)} (hperm : a.levels.Perm ((k, x) :: m)) :
    x + a.unreported k ≤ a.total k ∧ ∀ z ∈ a.seen k, z ≤ x := by
  have hmem : (k, x) ∈ a.levels := hperm.mem_iff.mpr mem_cons_self
  exact ⟨h.bound _ hmem, h.covers _ hmem⟩

/-- **Every step keeps the levels in their bounds.** -/
theorem Step.sound (ha : a.Sound) (h : Step a b) : b.Sound := by
  cases h with
  | keep hm => exact ha.keep hm
  | issue hperm hperm' =>
    obtain ⟨hbound, hcovers⟩ := ha.level hperm
    refine ha.write hperm hperm' rfl ?_ ?_ ?_ fun j hj => ?_
    · simp only [bump, if_true]
      omega
    · simp only [push, if_true, forall_mem_cons]
      exact ⟨Nat.le_refl _, fun z hz => Nat.le_succ_of_le (hcovers z hz)⟩
    · simp only [push, if_true, pairwise_cons]
      exact ⟨fun z hz => Nat.lt_succ_of_le (hcovers z hz), ha.increasing _⟩
    · simp [push, bump, hj.symm]
  | bypass k =>
    refine ⟨ha.unique, fun p hp => ?_, ha.covers, fun j x hx => ?_, ha.increasing⟩
    · have hp' := ha.bound p hp
      simp only [bump_apply]
      omega
    · exact Nat.le_trans (ha.within j x hx) (le_bump _ k 1 j)
  | report hperm hperm' =>
    obtain ⟨hbound, hcovers⟩ := ha.level hperm
    refine ha.write hperm hperm' rfl ?_ (fun z hz => Nat.le_succ_of_le (hcovers z hz))
      (ha.increasing _) fun j hj => ?_
    · simp only [lower, if_true]
      omega
    · simp [lower, hj.symm]
  | reportMiss =>
    refine { ha with bound := fun p hp => ?_ }
    have hp' := ha.bound p hp
    simp only [lower]
    split <;> omega
  | raise hperm hperm' hxy hy hnone =>
    obtain ⟨-, hcovers⟩ := ha.level hperm
    exact ha.write hperm hperm' rfl (by simpa [hnone] using hy)
      (fun z hz => Nat.le_trans (hcovers z hz) hxy) (ha.increasing _)
      fun j _ => ⟨rfl, rfl, rfl⟩
  | @insert k m hm hk hnone =>
    have hkeep := ha.keep hm
    refine ⟨nodup_cons.mpr ⟨hk, hkeep.unique⟩, ?_, ?_, ha.within, ha.increasing⟩
    · exact forall_mem_cons.mpr ⟨by simp [hnone], hkeep.bound⟩
    · exact forall_mem_cons.mpr ⟨ha.within k, hkeep.covers⟩

theorem Step.total_le (h : Step a b) (k : κ) : a.total k ≤ b.total k := by
  cases h with
  | issue | bypass => exact le_bump _ _ 1 k
  | _ => exact Nat.le_refl _

theorem Step.seen_subset (h : Step a b) (k : κ) : a.seen k ⊆ b.seen k := by
  cases h with
  | issue =>
    simp only [push]
    split
    · exact subset_cons_self _ _
    · exact List.Subset.refl _
  | _ => exact List.Subset.refl _

end Counters

end Lib
