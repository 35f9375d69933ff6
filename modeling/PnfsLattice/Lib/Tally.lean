import Mathlib.Data.List.Basic

/-!
# Keyed sums

Amounts that are spread over the entries of a list, added up by key, and counters indexed
by key. Conservation laws of a store that moves amounts between lists and counters are
stated with these two.
-/

namespace Lib

variable {α κ : Type*} [DecidableEq κ]

/-- The sum of the amounts of the entries with key `k`. -/
def tally (key : α → κ) (amount : α → ℕ) (k : κ) : List α → ℕ
  | [] => 0
  | a :: l => (if key a = k then amount a else 0) + tally key amount k l

section Tally

variable {key : α → κ} {amount : α → ℕ} {k : κ}

@[simp] theorem tally_nil : tally key amount k [] = 0 := rfl

@[simp] theorem tally_cons (a : α) (l : List α) :
    tally key amount k (a :: l) = (if key a = k then amount a else 0) + tally key amount k l :=
  rfl

@[simp] theorem tally_append (l₁ l₂ : List α) :
    tally key amount k (l₁ ++ l₂) = tally key amount k l₁ + tally key amount k l₂ := by
  induction l₁ with
  | nil => simp
  | cons a l ih => simp [ih, Nat.add_assoc]

theorem tally_eq_zero {l : List α} (h : ∀ a ∈ l, key a = k → amount a = 0) :
    tally key amount k l = 0 := by
  induction l with
  | nil => rfl
  | cons a l ih =>
    rw [tally_cons, ih fun b hb => h b (List.mem_cons_of_mem _ hb)]
    split
    · next heq => simpa using h a List.mem_cons_self heq
    · rfl

end Tally

section

variable (f : κ → ℕ) (k : κ) (n : ℕ)

/-- The counters with `n` added at `k`. -/
def bump : κ → ℕ := fun j => if k = j then f j + n else f j

theorem bump_apply (j : κ) : bump f k n j = f j + if k = j then n else 0 := by
  unfold bump
  split <;> rfl

theorem le_bump (j : κ) : f j ≤ bump f k n j := by
  rw [bump_apply]
  exact Nat.le_add_right _ _

end

end Lib
