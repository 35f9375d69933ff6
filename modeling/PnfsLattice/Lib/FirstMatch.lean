import Mathlib.Data.List.Nodup

/-!
# First-match updates of a chain

A hash chain with head insertion is a list, newest entry first. A lookup returns the
first entry that matches, and a pointer to that entry is then written through or
unlinked. `modifyFirst` and `List.eraseP` are those two operations; the lemmas here
split the list at the entry the lookup found.
-/

namespace Lib

open List

variable {α β : Type*}

/-- Apply `f` to the first entry that satisfies `p`; the list is unchanged without one. -/
def modifyFirst (p : α → Bool) (f : α → α) : List α → List α
  | [] => []
  | a :: l => if p a then f a :: l else a :: modifyFirst p f l

@[simp] theorem modifyFirst_nil (p : α → Bool) (f : α → α) : modifyFirst p f [] = [] := rfl

theorem modifyFirst_cons (p : α → Bool) (f : α → α) (a : α) (l : List α) :
    modifyFirst p f (a :: l) = if p a then f a :: l else a :: modifyFirst p f l := rfl

variable {p : α → Bool}

theorem modifyFirst_append {f : α → α} {l₁ l₂ : List α} (h : ∀ a ∈ l₁, p a = false) :
    modifyFirst p f (l₁ ++ l₂) = l₁ ++ modifyFirst p f l₂ := by
  induction l₁ with
  | nil => rfl
  | cons a l ih =>
    have ha : p a = false := h a (by simp)
    simp [modifyFirst_cons, ha, ih fun b hb => h b (by simp [hb])]

theorem mem_middle {l₁ l₂ : List α} {a b : α} : b ∈ l₁ ++ a :: l₂ ↔ b = a ∨ b ∈ l₁ ++ l₂ := by
  simp only [mem_append, mem_cons]
  tauto

/-- **The list around a found entry.**  Both updates act on the entry the lookup
returned, and on nothing else. -/
theorem split_of_find? {l : List α} {a : α} (h : l.find? p = some a) :
    ∃ l₁ l₂, l = l₁ ++ a :: l₂ ∧ (∀ b ∈ l₁, p b = false) ∧
      (∀ f, modifyFirst p f l = l₁ ++ f a :: l₂) ∧ l.eraseP p = l₁ ++ l₂ := by
  obtain ⟨hp, l₁, l₂, rfl, hl₁⟩ := List.find?_eq_some_iff_append.mp h
  have hno : ∀ b ∈ l₁, p b = false := fun b hb => by simpa using hl₁ b hb
  refine ⟨l₁, l₂, rfl, hno, fun f => ?_, ?_⟩
  · rw [modifyFirst_append hno, modifyFirst_cons, if_pos hp]
  · have hno' : ∀ b ∈ l₁, ¬ p b = true := fun b hb => by simp [hno b hb]
    rw [eraseP_append_right _ hno', eraseP_cons_of_pos hp]

theorem modifyFirst_of_find?_none {f : α → α} {l : List α} (h : l.find? p = none) :
    modifyFirst p f l = l := by
  have hno : ∀ a ∈ l, p a = false := fun a ha => by simpa using List.find?_eq_none.mp h a ha
  simpa using @modifyFirst_append α p f l [] hno

/-- A field on which the written entry agrees with the found one is unchanged along the
whole list. -/
theorem map_modifyFirst {f : α → α} {g : α → β} {l : List α} {a : α} (h : l.find? p = some a)
    (hg : g (f a) = g a) : (modifyFirst p f l).map g = l.map g := by
  obtain ⟨_, _, rfl, -, hmod, -⟩ := split_of_find? h
  simp [hmod, hg]

theorem find?_modifyFirst {f : α → α} {l : List α} {a : α} (h : l.find? p = some a)
    (hp : p (f a) = true) : (modifyFirst p f l).find? p = some (f a) := by
  obtain ⟨l₁, _, -, hno, hmod, -⟩ := split_of_find? h
  have hnone : l₁.find? p = none := List.find?_eq_none.mpr fun b hb => by simp [hno b hb]
  simp [hmod, hnone, hp]

theorem mem_modifyFirst {f : α → α} {l : List α} {b : α} (h : b ∈ modifyFirst p f l) :
    b ∈ l ∨ ∃ a, l.find? p = some a ∧ b = f a := by
  cases hf : l.find? p with
  | none => exact .inl (modifyFirst_of_find?_none hf ▸ h)
  | some a =>
    obtain ⟨_, _, rfl, -, hmod, -⟩ := split_of_find? hf
    rw [hmod, mem_middle] at h
    rcases h with rfl | h
    · exact .inr ⟨a, rfl, rfl⟩
    · exact .inl (mem_middle.mpr (.inr h))

theorem mem_modifyFirst_of_ne {f : α → α} {l : List α} {b : α} (hb : b ∈ l)
    (hne : ∀ a, l.find? p = some a → b ≠ a) : b ∈ modifyFirst p f l := by
  cases hf : l.find? p with
  | none => rwa [modifyFirst_of_find?_none hf]
  | some a =>
    obtain ⟨_, _, rfl, -, hmod, -⟩ := split_of_find? hf
    rw [hmod]
    exact mem_middle.mpr (.inr ((mem_middle.mp hb).resolve_left (hne a hf)))

theorem forall_mem_set {p : α → Prop} {l : List α} {a : α} {n : ℕ} (h : ∀ b ∈ l, p b) (ha : p a) :
    ∀ b ∈ l.set n a, p b := by
  intro b hb
  rcases mem_or_eq_of_mem_set hb with hb | rfl
  · exact h b hb
  · exact ha

/-! ## The list around an entry -/

variable {g : α → β} {l₁ l₂ : List α}

/-- A key is unique along a list split at an entry exactly if it is along the rest, and
the entry's key does not occur there. -/
theorem nodup_map_middle {a : α} : ((l₁ ++ a :: l₂).map g).Nodup ↔
      (∀ b ∈ l₁ ++ l₂, g b ≠ g a) ∧ ((l₁ ++ l₂).map g).Nodup := by
  rw [map_append, map_cons, nodup_middle, nodup_cons, ← map_append]
  simp only [mem_map, not_exists, not_and, ne_eq]

theorem nodup_map_cons {a : α} : ((a :: l₂).map g).Nodup ↔
      (∀ b ∈ l₂, g b ≠ g a) ∧ (l₂.map g).Nodup :=
  @nodup_map_middle _ _ g [] l₂ a

/-- With unique keys, the entries with the key of the split entry are that entry. -/
theorem eq_of_mem_middle {a b : α} (h : ((l₁ ++ a :: l₂).map g).Nodup) (hb : b ∈ l₁ ++ a :: l₂)
    (hg : g b = g a) : b = a := by
  rcases mem_middle.mp hb with rfl | hb
  · rfl
  · exact absurd hg ((nodup_map_middle.mp h).1 b hb)

variable [DecidableEq β] {g : α → β} {l₁ l₂ : List α} {a : α}

/-- With unique keys, the entries with the key of the split entry, as a list. -/
theorem filter_eq_middle (h : ∀ b ∈ l₁ ++ l₂, g b ≠ g a) :
    (l₁ ++ a :: l₂).filter (fun b => g b = g a) = [a] := by
  have hnil : ∀ l : List α, (∀ b ∈ l, g b ≠ g a) → l.filter (fun b => g b = g a) = [] :=
    fun l hl => filter_eq_nil_iff.mpr fun b hb => by simpa using hl b hb
  rw [filter_append, filter_cons_of_pos (by simp),
    hnil l₁ fun b hb => h b (by simp [hb]), hnil l₂ fun b hb => h b (by simp [hb])]
  rfl

/-- The split entry does not count among the entries with another key. -/
theorem filter_ne_middle :
    (l₁ ++ a :: l₂).filter (fun b => g b ≠ g a) = (l₁ ++ l₂).filter (fun b => g b ≠ g a) := by
  rw [filter_append, filter_cons_of_neg (by simp), filter_append]

/-! ## Lists that only give up entries of their own -/

/-- An update of `l` to `l'` that drops entries of `own`, or replaces them by smaller ones, and
keeps all the others. -/
structure Shrinks (own : α → Prop) (le : α → α → Prop) (l l' : List α) : Prop where
  old_or_smaller : ∀ b ∈ l', b ∈ l ∨ own b ∧ ∃ a ∈ l, own a ∧ le b a
  kept : ∀ a ∈ l, ¬ own a → a ∈ l'

namespace Shrinks

variable {own : α → Prop} {le : α → α → Prop} {l : List α}

@[refl, simp] theorem refl (l : List α) : Shrinks own le l l := ⟨fun _ => .inl, fun _ ha _ => ha⟩

/-- Unlinking the entry found, if it is an own one. -/
theorem eraseP {p : α → Bool} (h : ∀ a, l.find? p = some a → own a) :
    Shrinks own le l (l.eraseP p) where
  old_or_smaller _ hb := .inl (mem_of_mem_eraseP hb)
  kept a ha hown := by
    cases hf : l.find? p with
    | none =>
      have hno : ∀ b ∈ l, ¬ p b = true := fun b hb => List.find?_eq_none.mp hf b hb
      rwa [eraseP_of_forall_not hno]
    | some b =>
      obtain ⟨_, _, rfl, -, -, herase⟩ := split_of_find? hf
      rw [herase]
      exact (mem_middle.mp ha).resolve_left fun heq => hown (heq ▸ h b hf)

/-- Writing through the entry found, if it is an own one and gets smaller. -/
theorem modifyFirst {p : α → Bool} {f : α → α}
    (h : ∀ a, l.find? p = some a → own a ∧ own (f a) ∧ le (f a) a) :
    Shrinks own le l (modifyFirst p f l) where
  old_or_smaller b hb := by
    rcases mem_modifyFirst hb with hb | ⟨a, hf, rfl⟩
    · exact .inl hb
    · obtain ⟨ha, hfa, hle⟩ := h a hf
      exact .inr ⟨hfa, a, mem_of_find?_eq_some hf, ha, hle⟩
  kept a ha hown := mem_modifyFirst_of_ne ha fun b hb heq => hown (heq ▸ (h b hb).1)

end Shrinks

end Lib
