import Mathlib.Data.Int.ModEq
import Mathlib.Data.List.Range
import Mathlib.Tactic.Common

/-!
# Ring buffers

An array of fixed capacity with a head, a tail and a count, as a bounded queue. A push into
a full ring is dropped; a pop leaves the old value in its slot.
-/

namespace Lib

open List Option Function

structure RingBuffer (α : Type*) where
  cap : ℕ
  slots : ℕ → α
  head : ℕ
  tail : ℕ
  count : ℕ
  head_lt : head < cap
  count_le : count ≤ cap
  tail_eq : tail = (head + count) % cap

namespace RingBuffer

variable {α : Type*}

def empty [Inhabited α] (cap : ℕ) (h : 0 < cap) : RingBuffer α where
  cap := cap
  slots := fun _ => default
  head := 0
  tail := 0
  count := 0
  head_lt := h
  count_le := Nat.zero_le _
  tail_eq := (Nat.zero_mod _).symm

variable (r : RingBuffer α)

/-- The values in the ring, oldest first. -/
def toList : List α :=
  (List.range r.count).map fun i => r.slots ((r.head + i) % r.cap)

/-- Add a value at the tail, unless the ring is full. -/
def push (x : α) : RingBuffer α :=
  if h : r.count < r.cap then
    { r with
      slots := Function.update r.slots r.tail x
      tail := (r.tail + 1) % r.cap
      count := r.count + 1
      count_le := h
      tail_eq := by rw [r.tail_eq, Nat.mod_add_mod, Nat.add_assoc] }
  else r

/-- Take the value at the head. -/
def pop : Option (α × RingBuffer α) :=
  if h : 0 < r.count then
    some (r.slots r.head, { r with
        head := (r.head + 1) % r.cap
        count := r.count - 1
        head_lt := Nat.mod_lt _ (Nat.zero_lt_of_lt r.head_lt)
        count_le := (Nat.sub_le _ _).trans r.count_le
        tail_eq := by
          have hsum : r.head + 1 + (r.count - 1) = r.head + r.count := by omega
          rw [r.tail_eq, Nat.mod_add_mod, hsum] })
  else none

@[simp] theorem toList_empty [Inhabited α] (cap : ℕ) (h : 0 < cap) :
    (empty cap h : RingBuffer α).toList = [] := rfl

theorem place_ne {r : RingBuffer α} (h : r.count < r.cap) {i : ℕ} (hi : i < r.count) :
    (r.head + i) % r.cap ≠ r.tail := by
  rw [r.tail_eq]
  intro heq
  have hdvd : r.cap ∣ (r.head + r.count) - (r.head + i) :=
    (Nat.modEq_iff_dvd' (by omega)).mp heq
  have hle := Nat.le_of_dvd (by omega) hdvd
  omega

theorem toList_push {r : RingBuffer α} (h : r.count < r.cap) (x : α) :
    (r.push x).toList = r.toList ++ [x] := by
  unfold push toList
  rw [dif_pos h]
  dsimp only
  rw [range_succ, map_append, map_singleton, ← r.tail_eq, update_self]
  refine congrArg (· ++ [x]) (map_congr_left fun i hi => ?_)
  exact update_of_ne (place_ne h (mem_range.mp hi)) _ _

theorem toList_push_eq (r : RingBuffer α) (x : α) :
    (r.push x).toList = r.toList ++ [x] ∨ (r.push x).toList = r.toList := by
  by_cases h : r.count < r.cap
  · exact .inl (toList_push h x)
  · exact .inr (by rw [push, dif_neg h])

theorem toList_pop {r r' : RingBuffer α} {x : α} (h : r.pop = some (x, r')) :
    r.toList = x :: r'.toList := by
  unfold pop at h
  split at h
  next hpos =>
    obtain ⟨rfl, rfl⟩ := Prod.mk.inj (some.inj h)
    unfold toList
    dsimp only
    obtain ⟨n, hn⟩ : ∃ n, r.count = n + 1 := ⟨r.count - 1, by omega⟩
    rw [hn, List.range_succ_eq_map, List.map_cons, Nat.add_zero, Nat.mod_eq_of_lt r.head_lt,
      List.map_map]
    refine congrArg _ (List.map_congr_left fun i _ => ?_)
    rw [comp_apply, Nat.mod_add_mod, Nat.add_assoc, Nat.add_comm 1]
  · cases h

end RingBuffer

end Lib
