import Mathlib.Logic.Function.Basic
import Mathlib.Order.Lattice

/-!
# Caches whose entries carry a time

A cache in front of a store whose history is numbered: each entry is stamped with the
time at which its value was read from the store, and for each key the latest time is kept
whose invalidation has been carried out. The stamps are ghost state. An entry is sound
when it is not older than the invalidations of its key and its value is the store's at its
stamp; a reader that hits it then sees the store as of a time after all of them.
-/

namespace Lib

open Function

variable {κ ν : Type*} [DecidableEq κ]

section

variable (c : κ → ℕ) (k : κ) (t : ℕ)

/-- Put the clock forward at one key; it never goes back. -/
def raise : κ → ℕ :=
  fun k' => if k' = k then max (c k') t else c k'

theorem le_raise (k' : κ) : c k' ≤ raise c k t k' := by
  unfold raise
  split
  · exact le_max_left _ _
  · exact le_rfl

theorem le_raise_self : t ≤ raise c k t k := by
  rw [raise, if_pos rfl]
  exact le_max_right _ _

end

theorem raise_le_of_le {c d : κ → ℕ} (h : ∀ k, c k ≤ d k) {k : κ} {t : ℕ} (ht : t ≤ d k)
    (k' : κ) : raise c k t k' ≤ d k' := by
  unfold raise
  split
  next he => exact max_le (h k') (he ▸ ht)
  next => exact h k'

theorem raise_le {c : κ → ℕ} {k : κ} {t n : ℕ} (hc : ∀ k, c k ≤ n) (ht : t ≤ n) (k' : κ) :
    raise c k t k' ≤ n :=
  raise_le_of_le hc ht k'

/-- A cache with the time each entry was read at, and for each key the latest time whose
invalidation has been carried out. -/
structure Stamped (κ ν : Type*) where
  entry : κ → Option (ℕ × ν)
  dropped : κ → ℕ

namespace Stamped

def empty : Stamped κ ν := { entry := fun _ => none, dropped := fun _ => 0 }

/-- Insert, over what is there. -/
def put (c : Stamped κ ν) (k : κ) (t : ℕ) (v : ν) : Stamped κ ν :=
  { c with entry := Function.update c.entry k (some (t, v)) }

/-- Lose an entry, for want of room. -/
def evict (c : Stamped κ ν) (k : κ) : Stamped κ ν :=
  { c with entry := Function.update c.entry k none }

/-- Invalidate a key on behalf of a change of the store at time `t`. -/
def drop (c : Stamped κ ν) (k : κ) (t : ℕ) : Stamped κ ν :=
  { entry := Function.update c.entry k none, dropped := raise c.dropped k t }

/-- Every entry is as recent as the invalidations of its key, and is what the store held
at its stamp. -/
def Sound (Holds : ℕ → κ → ν → Prop) (now : ℕ) (c : Stamped κ ν) : Prop :=
  ∀ k t v, c.entry k = some (t, v) → c.dropped k ≤ t ∧ t ≤ now ∧ Holds t k v

variable {Holds Holds' : ℕ → κ → ν → Prop} {now now' t : ℕ} {c : Stamped κ ν} {k : κ} {v : ν}

omit [DecidableEq κ] in
theorem sound_empty : (empty : Stamped κ ν).Sound Holds now := by
  intro k t v h
  cases h

@[simp] theorem entry_put (c : Stamped κ ν) (k : κ) (t : ℕ) (v : ν) (k' : κ) :
    (c.put k t v).entry k' = if k' = k then some (t, v) else c.entry k' :=
  update_apply ..

@[simp] theorem entry_evict (c : Stamped κ ν) (k k' : κ) :
    (c.evict k).entry k' = if k' = k then none else c.entry k' := update_apply ..

@[simp] theorem entry_drop (c : Stamped κ ν) (k : κ) (t : ℕ) (k' : κ) :
    (c.drop k t).entry k' = if k' = k then none else c.entry k' := update_apply ..

theorem Sound.put (h : c.Sound Holds now) (hfresh : c.dropped k ≤ t) (ht : t ≤ now)
    (hv : Holds t k v) : (c.put k t v).Sound Holds now := by
  intro k' t' v' he
  rw [entry_put] at he
  split at he
  next hk =>
    subst hk
    cases he
    exact ⟨hfresh, ht, hv⟩
  next => exact h k' t' v' he

theorem Sound.evict (h : c.Sound Holds now) (k : κ) : (c.evict k).Sound Holds now := by
  intro k' t' v' he
  rw [entry_evict] at he
  split at he
  · cases he
  · exact h k' t' v' he

theorem Sound.drop (h : c.Sound Holds now) (k : κ) (t : ℕ) : (c.drop k t).Sound Holds now := by
  intro k' t' v' he
  rw [entry_drop] at he
  split at he
  · cases he
  next hk =>
    have hd : (c.drop k t).dropped k' = c.dropped k' := if_neg hk
    rw [hd]
    exact h k' t' v' he

omit [DecidableEq κ] in
theorem Sound.mono (h : c.Sound Holds now) (hnow : now ≤ now')
    (hv : ∀ t k v, t ≤ now → Holds t k v → Holds' t k v) : c.Sound Holds' now' := by
  intro k t v he
  obtain ⟨hd, ht, hh⟩ := h k t v he
  exact ⟨hd, ht.trans hnow, hv t k v ht hh⟩

end Stamped

end Lib
