import PnfsLattice.Lib.Keyed

/-!
# Tables of slots

An array of slots, each free or used, that is searched from the front: a lookup returns
the first used slot that matches, and an insertion takes the first free one. `used` is
the content of a table, in slot order. The slots grow at the end; a caller that has a
bound on them checks it before it inserts.

With unique keys, the row of a key does not depend on the slots (`findKey_slotPut`,
`findKey_slotWrite`).
-/

namespace Lib

variable {α : Type*}

/-- The rows of a table, in slot order. -/
def used (t : List (Option α)) : List α := t.filterMap id

/-- Put a row into the first free slot. -/
def slotPut (r : α) : List (Option α) → List (Option α)
  | [] => [some r]
  | none :: t => some r :: t
  | some b :: t => some b :: slotPut r t

/-- Write the first used slot that satisfies `p`. -/
def slotWrite (p : α → Bool) (f : α → α) : List (Option α) → List (Option α)
  | [] => []
  | none :: t => none :: slotWrite p f t
  | some b :: t => if p b then some (f b) :: t else some b :: slotWrite p f t

/-- Free the first used slot that satisfies `p`. -/
def slotClear (p : α → Bool) : List (Option α) → List (Option α)
  | [] => []
  | none :: t => none :: slotClear p t
  | some b :: t => if p b then none :: t else some b :: slotClear p t

@[simp] theorem used_nil : used ([] : List (Option α)) = [] := rfl

@[simp] theorem used_none (t : List (Option α)) : used (none :: t) = used t := rfl

@[simp] theorem used_some (b : α) (t : List (Option α)) : used (some b :: t) = b :: used t := rfl

/-! ## The rows after an operation -/

theorem used_split (t : List (Option α)) :
    used t = used (t.takeWhile Option.isSome) ++ used (t.dropWhile Option.isSome) := by
  rw [used, used, used, ← List.filterMap_append, List.takeWhile_append_dropWhile]

/-- The new row comes after the rows before the first free slot. -/
theorem used_slotPut_eq (r : α) (t : List (Option α)) : used (slotPut r t) =
    used (t.takeWhile Option.isSome) ++ r :: used (t.dropWhile Option.isSome) := by
  induction t with
  | nil => rfl
  | cons x t ih =>
    cases x with
    | none => rfl
    | some b => simpa [slotPut] using ih

theorem used_slotPut (r : α) (t : List (Option α)) : (used (slotPut r t)).Perm (r :: used t) := by
  rw [used_slotPut_eq, used_split t]
  exact List.perm_middle

theorem used_map_filter (p : α → Bool) (t : List (Option α)) :
    used (t.map (Option.filter p)) = (used t).filter p := by
  induction t with
  | nil => rfl
  | cons x t ih =>
    cases x with
    | none => exact ih
    | some b => by_cases hb : p b = true <;> simp [Option.filter, hb, ih]

theorem used_slotWrite (p : α → Bool) (f : α → α) (t : List (Option α)) :
    used (slotWrite p f t) = modifyFirst p f (used t) := by
  induction t with
  | nil => rfl
  | cons x t ih =>
    cases x with
    | none => exact ih
    | some b => by_cases hb : p b = true <;> simp [slotWrite, modifyFirst_cons, hb, ih]

theorem used_slotClear (p : α → Bool) (t : List (Option α)) :
    used (slotClear p t) = (used t).eraseP p := by
  induction t with
  | nil => rfl
  | cons x t ih =>
    cases x with
    | none => exact ih
    | some b => by_cases hb : p b = true <;> simp [slotClear, hb, ih]

/-! ## The rows of one kind

Rows are selected by a function `g` that also reads them. What is written or freed is a row
of another kind, or it can be told from what `g` reads.
-/

section Kinds

variable {β : Type*} {g : α → Option β} {p : α → Bool} {f : α → α}

theorem filterMap_eraseP_of_none (h : ∀ a, p a = true → g a = none) (l : List α) :
    (l.eraseP p).filterMap g = l.filterMap g := by
  induction l with
  | nil => rfl
  | cons a l ih =>
    by_cases ha : p a = true
    · simp [ha, h a ha]
    · simp [ha, List.filterMap_cons, ih]

theorem filterMap_eraseP {q : β → Bool} (h : ∀ a, p a = (g a).any q) (l : List α) :
    (l.eraseP p).filterMap g = (l.filterMap g).eraseP q := by
  induction l with
  | nil => rfl
  | cons a l ih =>
    cases hg : g a with
    | none => simp [h, hg, ih]
    | some b => cases hq : q b <;> simp [h, hg, hq, ih]

theorem filterMap_modifyFirst_of_eq (h : ∀ a, p a = true → g (f a) = g a) (l : List α) :
    (modifyFirst p f l).filterMap g = l.filterMap g := by
  induction l with
  | nil => rfl
  | cons a l ih =>
    by_cases ha : p a = true
    · simp [modifyFirst_cons, ha, List.filterMap_cons, h a ha]
    · simp [modifyFirst_cons, ha, List.filterMap_cons, ih]

theorem filterMap_modifyFirst {q : β → Bool} {f' : β → β} (h : ∀ a, p a = (g a).any q)
    (hf : ∀ a, g (f a) = (g a).map f') (l : List α) :
    (modifyFirst p f l).filterMap g = modifyFirst q f' (l.filterMap g) := by
  induction l with
  | nil => rfl
  | cons a l ih =>
    cases hg : g a with
    | none => simp [modifyFirst_cons, h, hg, ih]
    | some b => cases hq : q b <;> simp [modifyFirst_cons, h, hf, hg, hq, ih]

end Kinds

/-! ## With unique keys -/

section Keys

variable {κ : Type*} [DecidableEq κ] {key : α → κ}

/-- The row of a key does not depend on the order of the rows. -/
theorem findKey_of_perm {l l' : List α} (hl : (l.map key).Nodup) (h : l.Perm l') (k : κ) :
    findKey key k l' = findKey key k l := by
  cases hf : findKey key k l with
  | none =>
    rw [findKey_eq_none] at hf ⊢
    intro a ha
    exact hf a (h.mem_iff.mpr ha)
  | some a =>
    have hl' : (l'.map key).Nodup := (h.map key).nodup_iff.mp hl
    have ha : a ∈ l' := h.mem_iff.mp (mem_of_findKey hf)
    rw [← key_of_findKey hf]
    exact findKey_of_mem hl' ha

theorem nodup_slotPut {r : α} {t : List (Option α)} (ht : ((used t).map key).Nodup)
    (hr : findKey key (key r) (used t) = none) : ((used (slotPut r t)).map key).Nodup := by
  rw [((used_slotPut r t).map key).nodup_iff, List.map_cons, List.nodup_cons]
  refine ⟨fun hmem => ?_, ht⟩
  obtain ⟨a, ha, hk⟩ := List.mem_map.mp hmem
  exact findKey_eq_none.mp hr a ha hk

theorem findKey_slotPut {r : α} {t : List (Option α)} (ht : ((used t).map key).Nodup)
    (hr : findKey key (key r) (used t) = none) (k : κ) : findKey key k (used (slotPut r t)) =
      if key r = k then some r else findKey key k (used t) := by
  rw [findKey_of_perm ((used_slotPut r t).map key |>.nodup_iff.mp (nodup_slotPut ht hr))
    (used_slotPut r t).symm k, findKey_cons]

theorem findKey_slotWrite {k : κ} {f : α → α} {t : List (Option α)}
    (hf : ∀ a, key a = k → key (f a) = k) (k' : κ) :
    findKey key k' (used (slotWrite (fun a => key a = k) f t)) =
      if k' = k then (findKey key k' (used t)).map f else findKey key k' (used t) := by
  rw [used_slotWrite, findKey_modifyFirst hf]

theorem nodup_slotWrite {k : κ} {f : α → α} {t : List (Option α)}
    (hf : ∀ a, key a = k → key (f a) = k) (ht : ((used t).map key).Nodup) :
    ((used (slotWrite (fun a => key a = k) f t)).map key).Nodup := by
  rw [used_slotWrite]
  exact nodup_modifyFirst hf ht

omit [DecidableEq κ] in
theorem nodup_slotClear {p : α → Bool} {t : List (Option α)} (ht : ((used t).map key).Nodup) :
    ((used (slotClear p t)).map key).Nodup := by
  rw [used_slotClear]
  exact nodup_eraseP ht

theorem mem_used_slotClear {k : κ} {a : α} {t : List (Option α)} (ht : ((used t).map key).Nodup) :
    a ∈ used (slotClear (fun b => key b = k) t) ↔ a ∈ used t ∧ key a ≠ k := by
  rw [used_slotClear, mem_eraseP_key ht]

end Keys

/-! ## Dense arrays -/

open List in
/-- Moving the last entry into the place of `a` removes `a`, up to order. -/
theorem swapRemove_perm [BEq α] [LawfulBEq α] {a : α} (d : α) {l : List α} (h : a ∈ l) :
    (l.set (l.idxOf a) (l.getD (l.length - 1) d)).take (l.length - 1) ~ l.erase a := by
  obtain ⟨p, q, rfl, hp⟩ := eq_append_cons_of_mem h
  rw [erase_append_right _ hp, erase_cons_head, idxOf_append_of_notMem hp, idxOf_cons_self,
    Nat.add_zero, set_append_right _ _ (Nat.le_refl _), Nat.sub_self, set_cons_zero]
  rcases eq_nil_or_concat q with rfl | ⟨q, y, rfl⟩
  · simp
  have hlast : (p ++ a :: (q ++ [y])).getD ((p ++ a :: (q ++ [y])).length - 1) d = y := by
    simp [getD]
  have happ : p ++ y :: (q ++ [y]) = (p ++ y :: q) ++ [y] := by simp
  rw [concat_eq_append, hlast, happ, take_left' (by simp)]
  exact (perm_append_singleton y q).symm.append_left p

end Lib
