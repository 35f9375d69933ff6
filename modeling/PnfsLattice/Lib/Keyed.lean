import Mathlib.Data.List.Perm.Basic
import PnfsLattice.Lib.FirstMatch

/-!
# Rows under a primary key

A database table is a list of rows in no particular order, at most one for each value of
a key that is a function of the row. A write of a row replaces the one with its key.
-/

namespace Lib

open List

variable {α κ : Type*} [DecidableEq κ]

/-- Write a row, over the one with its key if there is one. -/
def upsert (key : α → κ) (r : α) (l : List α) : List α :=
  r :: l.filter fun a => key a ≠ key r

/-- Delete the row with this key. -/
def eraseKey (key : α → κ) (k : κ) (l : List α) : List α :=
  l.filter fun a => key a ≠ k

variable {key : α → κ} {r a : α} {k : κ} {l : List α}

@[simp] theorem mem_upsert : a ∈ upsert key r l ↔ a = r ∨ (a ∈ l ∧ key a ≠ key r) := by
  simp [upsert]

@[simp] theorem mem_eraseKey : a ∈ eraseKey key k l ↔ a ∈ l ∧ key a ≠ k := by
  simp [eraseKey]

omit [DecidableEq κ] in
theorem nodup_filter_key (h : (l.map key).Nodup) (p : α → Bool) : ((l.filter p).map key).Nodup :=
  h.sublist ((filter_sublist).map key)

theorem nodup_upsert (h : (l.map key).Nodup) : ((upsert key r l).map key).Nodup := by
  refine nodup_map_cons.mpr ⟨fun a ha => ?_, nodup_filter_key h _⟩
  exact of_decide_eq_true (mem_filter.mp ha).2

/-! ## Reading and changing one row -/

def findKey (key : α → κ) (k : κ) (l : List α) : Option α :=
  l.find? fun a => key a = k

/-- Change the row with this key. -/
def modifyKey (key : α → κ) (k : κ) (g : α → α) (l : List α) : List α :=
  l.map fun a => if key a = k then g a else a

@[simp] theorem findKey_nil : findKey key k [] = none := rfl

@[simp] theorem findKey_cons :
    findKey key k (r :: l) = if key r = k then some r else findKey key k l := by
  by_cases h : key r = k <;> simp [findKey, h]

theorem mem_of_findKey (h : findKey key k l = some a) : a ∈ l :=
  mem_of_find?_eq_some h

theorem key_of_findKey (h : findKey key k l = some a) : key a = k := by
  simpa using List.find?_some h

theorem findKey_eq_none : findKey key k l = none ↔ ∀ a ∈ l, key a ≠ k := by
  simp [findKey]

theorem exists_findKey (h : a ∈ l) : ∃ b, findKey key (key a) l = some b := by
  cases hf : findKey key (key a) l with
  | none => exact absurd rfl (findKey_eq_none.mp hf a h)
  | some b => exact ⟨b, rfl⟩

theorem findKey_eraseKey (k k' : κ) :
    findKey key k (eraseKey key k' l) = if k = k' then none else findKey key k l := by
  rw [findKey, eraseKey, List.find?_filter]
  by_cases hk : k = k'
  · simp [hk]
  · rw [if_neg hk]
    congr 1
    funext a
    by_cases ha : key a = k <;> simp [ha, hk]

theorem findKey_upsert (k : κ) :
    findKey key k (upsert key r l) = if k = key r then some r else findKey key k l := by
  rw [upsert, findKey_cons]
  by_cases hk : k = key r
  · rw [if_pos hk.symm, if_pos hk]
  · rw [if_neg fun h => hk h.symm, if_neg hk]
    exact (findKey_eraseKey k _).trans (if_neg hk)

theorem findKey_concat (h : findKey key (key r) l = none) (k : κ) :
    findKey key k (l ++ [r]) = if k = key r then some r else findKey key k l := by
  rw [findKey, List.find?_append]
  by_cases hk : k = key r
  · subst hk
    rw [show l.find? (fun a => key a = key r) = none from h]
    simp
  · have hne : ¬ key r = k := fun h => hk h.symm
    rw [if_neg hk, findKey]
    simp [hne]

theorem findKey_modifyKey_of {g : α → α} {k' : κ} (hg : ∀ a, key a = k' → key (g a) = k') (k : κ) :
    findKey key k (modifyKey key k' g l) =
      if k = k' then (findKey key k l).map g else findKey key k l := by
  induction l with
  | nil => simp [modifyKey]
  | cons b l ih =>
    simp only [modifyKey] at ih ⊢
    rw [map_cons, findKey_cons, ih]
    by_cases hb : key b = k'
    · by_cases hk : k = k'
      · simp [hb, hk, hg b hb]
      · have hkk : ¬ k' = k := fun h => hk h.symm
        simp [hb, hk, hg b hb, hkk]
    · by_cases hk : k = k'
      · simp [hb, hk]
      · simp [hb, hk]

theorem findKey_modifyKey {g : α → α} (hg : ∀ a, key (g a) = key a) (k k' : κ) :
    findKey key k (modifyKey key k' g l) =
      if k = k' then (findKey key k l).map g else findKey key k l :=
  findKey_modifyKey_of (fun a ha => (hg a).trans ha) k

/-- With unique keys a row that can be read is the one read. -/
theorem findKey_of_mem (hl : (l.map key).Nodup) (h : a ∈ l) : findKey key (key a) l = some a := by
  obtain ⟨b, hb⟩ : ∃ b, findKey key (key a) l = some b := exists_findKey h
  have heq : b = a :=
    inj_on_of_nodup_map hl (mem_of_findKey hb) h (key_of_findKey hb)
  rw [hb, heq]

/-- With unique keys, removing the first row of a key removes the rows of that key. -/
theorem eraseP_eq_eraseKey (hl : (l.map key).Nodup) :
    l.eraseP (fun a => key a = k) = eraseKey key k l := by
  cases hfind : l.find? fun a => key a = k with
  | none =>
    have hne : ∀ a ∈ l, key a ≠ k := by simpa using hfind
    rw [eraseP_of_forall_not (by simpa using hne), eraseKey,
      filter_eq_self.mpr (by simpa using hne)]
  | some =>
    obtain rfl := key_of_findKey hfind
    obtain ⟨_, _, rfl, -, -, herase⟩ := split_of_find? hfind
    have hne := (nodup_map_middle.mp hl).1
    rw [herase, eraseKey, filter_ne_middle, filter_eq_self.mpr (by simpa using hne)]

theorem perm_cons_eraseKey (hl : (l.map key).Nodup) (h : findKey key k l = some a) :
    l.Perm (a :: eraseKey key k l) := by
  obtain ⟨_, _, hsplit, -, -, herase⟩ := split_of_find? h
  rw [← eraseP_eq_eraseKey hl, herase, hsplit]
  exact perm_middle

/-! ## First-match updates

A chain or an array is searched from the front, and the row found is written or removed
in place. With unique keys that is the row of the key. -/

theorem findKey_modifyFirst {g : α → α} {k : κ} (hg : ∀ a, key a = k → key (g a) = k) (k' : κ) :
    findKey key k' (modifyFirst (fun a => key a = k) g l) =
      if k' = k then (findKey key k' l).map g else findKey key k' l := by
  induction l with
  | nil => simp
  | cons b l ih =>
    rw [modifyFirst_cons]
    by_cases hb : key b = k
    · by_cases hk : k' = k
      · simp [hb, hk, hg b hb]
      · have hkk : ¬ k = k' := fun h => hk h.symm
        simp [hb, hk, hg b hb, hkk]
    · by_cases hk : k' = k
      · have hbk : ¬ key b = k' := fun h => hb (h.trans hk)
        simp [if_neg hb, if_neg hbk, ih]
      · simp [if_neg hb, ih, if_neg hk]

theorem nodup_modifyFirst {g : α → α} {k : κ} (hg : ∀ a, key a = k → key (g a) = k)
    (hl : (l.map key).Nodup) : ((modifyFirst (fun a => key a = k) g l).map key).Nodup := by
  cases hfind : l.find? fun a => key a = k with
  | none => rwa [modifyFirst_of_find?_none hfind]
  | some a =>
    have ha : key a = k := by simpa using List.find?_some hfind
    rwa [map_modifyFirst hfind ((hg a ha).trans ha.symm)]

omit [DecidableEq κ] in
theorem nodup_eraseP {p : α → Bool} (hl : (l.map key).Nodup) : ((l.eraseP p).map key).Nodup :=
  hl.sublist (eraseP_sublist.map key)

theorem mem_eraseP_key (hl : (l.map key).Nodup) :
    a ∈ l.eraseP (fun b => key b = k) ↔ a ∈ l ∧ key a ≠ k := by
  rw [eraseP_eq_eraseKey hl, mem_eraseKey]

theorem findKey_eraseP (hl : (l.map key).Nodup) (k k' : κ) :
    findKey key k' (l.eraseP fun a => key a = k) =
      if k' = k then none else findKey key k' l := by
  rw [eraseP_eq_eraseKey hl, findKey_eraseKey]

end Lib
