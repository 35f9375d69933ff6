import Mathlib.Data.List.Basic

/-!
# Jobs that claim something

Threads of a system stand in a list, each at its next step. A partial function `g` tells what
a job claims (a file, a path); `SoleClaims jobs g` says that no two jobs claim the same. A job
may take the next step if nobody else claims what it then claims, and a new job may join if
nobody claims it at all.
-/

namespace Lib

open List

variable {α β : Type*} {jobs : List α} {g : α → Option β} {j : ℕ} {job : α} {c : β}

/-- Different jobs claim different things. -/
def SoleClaims (jobs : List α) (g : α → Option β) : Prop :=
  ∀ (i j : ℕ) (a b : α) (c : β), jobs[i]? = some a → jobs[j]? = some b →
    g a = some c → g b = some c → i = j

/-- No job at another place claims `c`. -/
def UnclaimedBut (jobs : List α) (j : ℕ) (g : α → Option β) (c : β) : Prop :=
  ∀ i, i ≠ j → ∀ a, jobs[i]? = some a → g a ≠ some c

theorem SoleClaims.unclaimedBut (h : SoleClaims jobs g) (hj : jobs[j]? = some job)
    (hc : g job = some c) : UnclaimedBut jobs j g c :=
  fun i hi a ha hg => hi (h i j a job c ha hj hg hc)

/-- After the job at place `j` has let go, nobody claims `c`. -/
theorem UnclaimedBut.unclaimed (h : UnclaimedBut jobs j g c) (hjob : g job ≠ some c) :
    ∀ a ∈ jobs.set j job, g a ≠ some c := by
  intro a ha
  obtain ⟨i, hi⟩ := mem_iff_getElem?.mp ha
  rw [List.getElem?_set] at hi
  split at hi
  next =>
    split at hi <;> cases hi
    exact hjob
  next hne => exact h i (fun he => hne he.symm) a hi

theorem exists_mem_of_set {p : α → Prop} (h : ∃ a ∈ jobs.set j job, p a) (hjob : ¬ p job) :
    ∃ a ∈ jobs, p a := by
  obtain ⟨a, ha, hp⟩ := h
  rcases mem_or_eq_of_mem_set ha with ha | rfl
  · exact ⟨a, ha, hp⟩
  · exact absurd hp hjob

theorem SoleClaims.set (h : SoleClaims jobs g)
    (hjob : ∀ c, g job = some c → UnclaimedBut jobs j g c) : SoleClaims (jobs.set j job) g := by
  intro i k a b c ha hb hga hgb
  rw [List.getElem?_set] at ha hb
  split at ha <;> split at hb
  next hi hk => exact hi.symm.trans hk
  next hk =>
    split at ha <;> cases ha
    exact absurd hgb (hjob c hga k (fun h => hk h.symm) b hb)
  next hi _ =>
    split at hb <;> cases hb
    exact absurd hga (hjob c hgb i (fun h => hi h.symm) a ha)
  next => exact h i k a b c ha hb hga hgb

theorem SoleClaims.concat (h : SoleClaims jobs g)
    (hjob : ∀ c, g job = some c → ∀ a ∈ jobs, g a ≠ some c) : SoleClaims (jobs ++ [job]) g := by
  have hget : ∀ i a, (jobs ++ [job])[i]? = some a →
      jobs[i]? = some a ∨ i = jobs.length ∧ a = job := by
    intro i a ha
    rw [List.getElem?_append] at ha
    split at ha
    · exact .inl ha
    next hle =>
      obtain ⟨hi, hval⟩ := List.getElem?_eq_some_iff.mp ha
      rw [length_singleton] at hi
      refine .inr ⟨by omega, ?_⟩
      simpa [Nat.lt_one_iff.mp hi] using hval.symm
  intro i k a b c ha hb hga hgb
  rcases hget i a ha with hi | ⟨hi, hajob⟩ <;> rcases hget k b hb with hk | ⟨hk, hbjob⟩
  · exact h i k a b c hi hk hga hgb
  · exact absurd hga (hjob c (hbjob ▸ hgb) a (mem_of_getElem? hi))
  · exact absurd hgb (hjob c (hajob ▸ hga) b (mem_of_getElem? hk))
  · rw [hi, hk]

end Lib
