import Mathlib.Tactic
import PnfsLattice.Prealloc.Pool

/-!
# A pre-allocated fileid becomes at most one file

A fileid is in one place at a time: in a ring, with a refill worker, or with a create. A
restart puts it there again from its row in the pool table, so the row has to be gone when
the create commits. The delete that sees to this is best effort, and `recover_pool` does not
look for an inode: a delete that fails leaves a fileid that is handed out again.
-/

namespace PnfsLattice

open Lib List Option Function

/-! ## Contents of the rings -/

def contents (rings : List (RingBuffer PreallocSlot)) : List PreallocSlot :=
  rings.flatMap RingBuffer.toList

theorem nodup_of_subperm {α : Type*} {l l' : List α} (h : l.Subperm l') (hn : l'.Nodup) :
    l.Nodup := by
  obtain ⟨k, hperm, hsub⟩ := h
  exact hperm.nodup_iff.mp (hn.sublist hsub)

theorem subperm_map {α β : Type*} {l l' : List α} (f : α → β) (h : l.Subperm l') :
    (l.map f).Subperm (l'.map f) := by
  obtain ⟨k, hperm, hsub⟩ := h
  exact ⟨k.map f, hperm.map f, hsub.map f⟩

variable {rings : List (RingBuffer PreallocSlot)}

theorem contents_split {i} (hi : i < rings.length) :
    contents rings =
      contents (rings.take i) ++ (rings[i].toList ++ contents (rings.drop (i + 1))) := by
  unfold contents
  rw [← flatMap_cons, ← flatMap_append, ← drop_eq_getElem_cons hi, take_append_drop]

theorem contents_ringPush (rings : List (RingBuffer PreallocSlot)) (i : ℕ) (slot : PreallocSlot) :
    (contents (ringPush rings i slot)).Subperm (slot :: contents rings) := by
  unfold ringPush
  by_cases hi : i < rings.length
  · rw [contents_split hi, modify_eq_take_cons_drop hi]
    unfold contents
    rw [flatMap_append, flatMap_cons]
    rcases RingBuffer.toList_push_eq _ slot with h | h <;> rw [h]
    · refine List.Perm.subperm ?_
      rw [append_assoc]
      exact ((perm_middle.append_left _).trans perm_middle)
    · exact List.Subperm.cons_self
  · rw [modify_eq_self (by omega)]
    exact List.Subperm.cons_self

theorem contents_set_of_pop {i ring slot} (h : rings[i]?.bind RingBuffer.pop = some (slot, ring)) :
    (slot :: contents (rings.set i ring)).Perm (contents rings) := by
  obtain ⟨r, hr, hpop⟩ := bind_eq_some_iff.mp h
  obtain ⟨hi, rfl⟩ := List.getElem?_eq_some_iff.mp hr
  rw [contents_split hi, RingBuffer.toList_pop hpop, set_eq_take_cons_drop _ hi]
  unfold contents
  rw [flatMap_append]
  exact perm_middle.symm

/-! ## What the calls leave -/

theorem poolDelete_sublist (rows : List PoolRow) (fileid : Fileid) (ok : Bool) :
    (poolDelete rows fileid ok).Sublist rows := by
  unfold poolDelete
  split
  · exact filter_sublist
  · exact .refl _

theorem popRings_spec (deleteOk : Fileid → Bool) (is : List ℕ)
    (rings : List (RingBuffer PreallocSlot)) (rows : List PoolRow) :
    ((popRings deleteOk is rings rows).1.toList ++
        contents (popRings deleteOk is rings rows).2.1).Subperm (contents rings) ∧
      (popRings deleteOk is rings rows).2.2.Sublist rows := by
  induction is generalizing rings rows with
  | nil => exact ⟨.refl _, .refl _⟩
  | cons i _ ih =>
    unfold popRings
    split
    · exact ih rings rows
    next hpop =>
      have hperm := contents_set_of_pop hpop
      split
      · obtain ⟨hsub, hrows⟩ := ih _ _
        exact ⟨(hsub.trans List.Subperm.cons_self).trans hperm.subperm,
          hrows.trans (poolDelete_sublist _ _ _)⟩
      · exact ⟨hperm.subperm, .refl _⟩

theorem recoverPool_spec (rings : List (RingBuffer PreallocSlot)) (rows scanned : List PoolRow)
    (deleteOk : Fileid → Bool) :
    ((contents (recoverPool rings rows scanned deleteOk).rings).map PreallocSlot.fileid).Subperm
        (scanned.map PoolRow.fileid ++ (contents rings).map PreallocSlot.fileid) ∧
      (recoverPool rings rows scanned deleteOk).rows.Sublist rows := by
  have key : ∀ (scanned : List PoolRow) (st : Recovery),
      ((contents (scanned.foldl (recoverRow deleteOk) st).rings).map PreallocSlot.fileid).Subperm
          (scanned.map PoolRow.fileid ++ (contents st.rings).map PreallocSlot.fileid) ∧
        (scanned.foldl (recoverRow deleteOk) st).rows.Sublist st.rows := by
    intro scanned
    induction scanned with
    | nil => exact fun _ => ⟨.refl _, .refl _⟩
    | cons row _ ih =>
      intro st
      obtain ⟨hsub, hrows⟩ := ih _
      have hone : ((contents (recoverRow deleteOk st row).rings).map PreallocSlot.fileid).Subperm
          (row.fileid :: (contents st.rings).map PreallocSlot.fileid) ∧
          (recoverRow deleteOk st row).rows.Sublist st.rows := by
        unfold recoverRow
        split
        · exact ⟨List.Subperm.cons_self, poolDelete_sublist _ _ _⟩
        · exact ⟨subperm_map _ (contents_ringPush _ _ _), .refl _⟩
      refine ⟨?_, hrows.trans hone.2⟩
      refine hsub.trans (((subperm_append_left _).mpr hone.1).trans ?_)
      exact perm_middle.subperm
  exact key _ _

/-! ## The invariant -/

/-- The fileids of a running MDS: in its rings, with its refill workers, and with its creates. -/
def held (n : PoolNode) : List Fileid :=
  (contents n.ctx.rings).map PreallocSlot.fileid ++ n.staged.map (fun x => x.2.fileid) ++
    n.handed.map Handed.fileid

/-- A fileid that an MDS has, or has a row for. -/
def Mine (s : PoolSys) (m : UInt32) (f : Fileid) : Prop :=
  (∃ n, s.nodes m = some n ∧ f ∈ held n) ∨ ∃ r ∈ s.rows, r.fileid = f ∧ r.ownerMdsId = m

/-- A fileid is in one place, its row belongs to the MDS that has it, and a committed one is
nowhere. -/
structure PoolInv (s : PoolSys) : Prop where
  rowsNodup : (s.rows.map PoolRow.fileid).Nodup
  heldNodup : ∀ m n, s.nodes m = some n → (held n).Nodup
  allocated : ∀ m f, Mine s m f → f ∈ s.allocated
  apart : ∀ m m' f, Mine s m f → Mine s m' f → m = m'
  spentAllocated : ∀ f ∈ s.committed, f ∈ s.allocated
  spent : ∀ f ∈ s.committed, ∀ m, ¬ Mine s m f
  once : s.committed.Nodup

namespace PoolInv

variable {s : PoolSys} {m : UInt32}

variable {f : Fileid} {n' n : PoolNode} {rows : List PoolRow}

section

variable (h : PoolInv s)

include h

theorem heldAllocated (hn : s.nodes m = some n) (hf : f ∈ held n) : f ∈ s.allocated :=
  h.allocated m f (.inl ⟨n, hn, hf⟩)

/-- **One MDS moves on.**  It has what it had, what it has rows for, and new fileids. -/
theorem put {new} (hnodup : (held n).Nodup) (hmem : ∀ f ∈ held n, f ∈ new ∨ Mine s m f)
    (hnew : ∀ f ∈ new, f ∉ s.allocated) (hrowsNodup : (rows.map PoolRow.fileid).Nodup)
    (hrows : ∀ r ∈ rows, r ∈ s.rows ∨ r.fileid ∈ new ∧ r.ownerMdsId = m) :
    PoolInv ({ s with rows, allocated := new ++ s.allocated }.put m n) := by
  have hmine {m' : UInt32} {f : Fileid}
      (hf : Mine ({ s with rows, allocated := new ++ s.allocated }.put m n) m' f) :
      m' = m ∧ f ∈ new ∨ Mine s m' f := by
    rcases hf with ⟨n', hn', hf⟩ | ⟨r, hr, rfl, rfl⟩
    · by_cases hm : m' = m
      · subst hm
        cases (update_self ..).symm.trans hn'
        exact (hmem f hf).imp_left fun hf => ⟨rfl, hf⟩
      · exact .inr (.inl ⟨n', (update_of_ne hm ..).symm.trans hn', hf⟩)
    · exact (hrows r hr).symm.imp (fun hr => ⟨hr.2, hr.1⟩) fun hr => .inr ⟨r, hr, rfl, rfl⟩
  have hapart {m' : UInt32} {f : Fileid} (hf : f ∈ new) (hf' : Mine s m' f) : False :=
    hnew f hf (h.allocated m' f hf')
  refine ⟨hrowsNodup, fun m' n' hn' => ?_, fun m' f hf => ?_, fun m₁ m₂ f hf₁ hf₂ => ?_,
    fun f hf => mem_append_right _ (h.spentAllocated f hf), fun f hf m' hf' => ?_, h.once⟩
  · by_cases hm : m' = m
    · subst hm
      cases (update_self ..).symm.trans hn'
      exact hnodup
    · exact h.heldNodup m' n' ((update_of_ne hm ..).symm.trans hn')
  · rcases hmine hf with ⟨-, hf⟩ | hf
    · exact mem_append_left _ hf
    · exact mem_append_right _ (h.allocated m' f hf)
  · rcases hmine hf₁ with ⟨rfl, hnew₁⟩ | hold₁ <;> rcases hmine hf₂ with ⟨rfl, hnew₂⟩ | hold₂
    · rfl
    · exact (hapart hnew₁ hold₂).elim
    · exact (hapart hnew₂ hold₁).elim
    · exact h.apart m₁ m₂ f hold₁ hold₂
  · rcases hmine hf' with ⟨-, hf'⟩ | hf'
    · exact hnew f hf' (h.spentAllocated f hf)
    · exact h.spent f hf m' hf'

theorem shrink (hn : s.nodes m = some n) (hsub : (held n').Subperm (held n))
    (hrows : rows.Sublist s.rows) : PoolInv ({ s with rows }.put m n') := by
  have hput : PoolInv ({ s with rows, allocated := [] ++ s.allocated }.put m n') :=
    h.put (nodup_of_subperm hsub (h.heldNodup m n hn))
      (fun f hf => .inr (.inl ⟨n, hn, hsub.subset hf⟩)) nofun
      (h.rowsNodup.sublist (hrows.map _)) (fun r hr => .inl (hrows.subset hr))
  exact hput

theorem grow (hn : s.nodes m = some n) (hf : f ∉ s.allocated)
    (hsub : (held n').Subperm (f :: held n))
    (hrows : rows.Sublist s.rows ∨ ∃ r, r.fileid = f ∧ r.ownerMdsId = m ∧ rows = r :: s.rows) :
    PoolInv ({ s with rows, allocated := f :: s.allocated }.put m n') := by
  have hout : f ∉ held n := fun hmem => hf (h.heldAllocated hn hmem)
  refine h.put (nodup_of_subperm hsub (nodup_cons.mpr ⟨hout, h.heldNodup m n hn⟩))
    (fun g hg => ?_) (fun g hg => mem_singleton.mp hg ▸ hf) ?_ ?_
  · rcases mem_cons.mp (hsub.subset hg) with rfl | hg
    · exact .inl mem_cons_self
    · exact .inr (.inl ⟨n, hn, hg⟩)
  · rcases hrows with hrows | ⟨r, rfl, -, rfl⟩
    · exact h.rowsNodup.sublist (hrows.map _)
    · refine nodup_cons.mpr ⟨fun hmem => ?_, h.rowsNodup⟩
      obtain ⟨r', hr', heq⟩ := mem_map.mp hmem
      exact hf (h.allocated _ _ (.inr ⟨r', hr', heq, rfl⟩))
  · intro _ hr'
    rcases hrows with hrows | ⟨r, rfl, hown, rfl⟩
    · exact .inl (hrows.subset hr')
    · rcases mem_cons.mp hr' with rfl | hr'
      · exact .inr ⟨mem_cons_self, hown⟩
      · exact .inl hr'

theorem spend {inodes} (hf : f ∈ s.allocated) (hgone : ∀ m, ¬ Mine s m f) (hnew : f ∉ s.committed) :
    PoolInv { s with inodes, committed := f :: s.committed } :=
  { h with
    spentAllocated := forall_mem_cons.mpr ⟨hf, h.spentAllocated⟩
    spent := forall_mem_cons.mpr ⟨hgone, h.spent⟩
    once := nodup_cons.mpr ⟨hnew, h.once⟩ }

end

end PoolInv

/-! ## Steps -/

/-- The condition on a step: an MDS that starts finds only rows of its own in its scan, and a
create that commits leaves no row of its fileid. -/
def PoolOk (s : PoolSys) : PoolEvent → Prop
  | .start m _ _ _ _ => ∀ r ∈ s.rows, poolScans m r → r.ownerMdsId = m
  | .commit _ h deleteOk =>
    (∀ r ∈ s.rows, r.fileid ≠ h.fileid) ∨ h.hasPoolRow = true ∧ deleteOk = true
  | _ => True

instance (s : PoolSys) (e : PoolEvent) : Decidable (PoolOk s e) := by
  cases e <;> unfold PoolOk <;> infer_instance

section Steps

variable {s t : PoolSys} {m : UInt32}

theorem not_allocated_of_fresh {f} (h : s.fresh f = true) : f ∉ s.allocated := by
  simp only [PoolSys.fresh, Bool.and_eq_true, Bool.not_eq_true', contains_eq_mem,
    decide_eq_false_iff_not] at h
  exact h.2

theorem held_cons_handed (n : PoolNode) (h : Handed) :
    (held { n with handed := h :: n.handed }).Perm (h.fileid :: held n) := by
  exact perm_middle

variable {n : PoolNode} {ring : ℕ} {slot : PreallocSlot}

theorem held_erase_handed {h} (hmem : h ∈ n.handed) :
    (h.fileid :: held { n with handed := n.handed.erase h }).Perm (held n) := by
  refine (held_cons_handed { n with handed := n.handed.erase h } h).symm.trans ?_
  exact ((perm_cons_erase hmem).symm.map _).append_left _

theorem poolInv_produce (h : PoolInv s) {insertOk}
    (hstep : poolStep s (.produce m ring slot insertOk) = some t) : PoolInv t := by
  obtain ⟨n, hn, hstep⟩ := bind_eq_some_iff.mp hstep
  obtain ⟨hf, hstep⟩ := ite_none_right_eq_some.mp hstep
  cases hstep
  refine h.grow hn (not_allocated_of_fresh hf) (List.Perm.subperm ?_) ?_
  · unfold held
    rw [append_assoc, append_assoc]
    exact perm_middle
  unfold poolInsert
  split
  · exact .inr ⟨slot.row m, rfl, rfl, rfl⟩
  · exact .inl (.refl _)

theorem poolInv_push (h : PoolInv s) (hstep : poolStep s (.push m ring slot) = some t) :
    PoolInv t := by
  obtain ⟨n, hn, hstep⟩ := bind_eq_some_iff.mp hstep
  obtain ⟨hmem, hstep⟩ := ite_none_right_eq_some.mp hstep
  cases hstep
  refine h.shrink hn ?_ (.refl _)
  have hpush := subperm_map PreallocSlot.fileid (contents_ringPush n.ctx.rings ring slot)
  refine (subperm_append_right _).mpr ?_
  refine ((subperm_append_right _).mpr hpush).trans (List.Perm.subperm ?_)
  -- The slot moves from the worker to the rings.
  refine perm_middle.symm.trans (List.Perm.append_left _ ?_)
  exact (perm_cons_erase hmem).symm.map fun x => x.2.fileid

theorem dsPreallocPopEx_spec (ctx : PreallocCtx) (rows : List PoolRow) (deferred : Bool)
    (deleteOk : Fileid → Bool) : ((dsPreallocPopEx ctx rows deferred deleteOk).slot.toList ++
        contents (dsPreallocPopEx ctx rows deferred deleteOk).ctx.rings).Subperm
          (contents ctx.rings) ∧
      (dsPreallocPopEx ctx rows deferred deleteOk).rows.Sublist rows := by
  unfold dsPreallocPopEx
  dsimp only
  split <;> next heq =>
    obtain ⟨hsub, hrows⟩ := popRings_spec _ _ _ rows
    rw [heq] at hsub hrows
    refine ⟨hsub, ?_⟩
    first
    | exact hrows
    | (split
       · exact hrows
       · exact (poolDelete_sublist _ _ _).trans hrows)

section

variable (h : PoolInv s)

include h

variable {deleteOk : Fileid → Bool}

theorem poolInv_pop {deferred fallback}
    (hstep : poolStep s (.pop m deferred deleteOk fallback) = some t) :
    PoolInv t ∧ ∀ f, poppedFileid s (.pop m deferred deleteOk fallback) = some f →
      f ∉ s.committed := by
  obtain ⟨n, hn, hstep⟩ := bind_eq_some_iff.mp hstep
  obtain ⟨hsub, hrows⟩ := dsPreallocPopEx_spec n.ctx s.rows _ _
  simp only [poppedFileid, hn, bind_some]
  generalize dsPreallocPopEx n.ctx s.rows deferred deleteOk = p at hstep hsub hrows ⊢
  have hrings : ((p.slot.toList.map PreallocSlot.fileid) ++ held { n with ctx := p.ctx }).Subperm
      (held n) := by
    unfold held
    rw [← append_assoc, ← append_assoc, ← map_append]
    exact (subperm_append_right _).mpr ((subperm_append_right _).mpr (subperm_map _ hsub))
  dsimp only at hstep
  cases hslot : p.slot with
  | some slot =>
    rw [hslot] at hstep hrings
    cases hstep
    have hall : (held { n with
        ctx := p.ctx, handed := ⟨slot.fileid, p.hasPoolRow⟩ :: n.handed }).Subperm _ :=
      (held_cons_handed { n with ctx := p.ctx } _).subperm.trans hrings
    refine ⟨h.shrink hn hall hrows, ?_⟩
    rintro _ ⟨⟩ hc
    exact h.spent _ hc m (.inl ⟨n, hn, hrings.subset mem_cons_self⟩)
  | none =>
    rw [hslot] at hstep hrings
    cases fallback with
    | none =>
      cases hstep
      exact ⟨h.shrink hn hrings hrows, by rintro _ ⟨⟩⟩
    | some fallback =>
      obtain ⟨hfresh, hstep⟩ := ite_none_right_eq_some.mp hstep
      cases hstep
      have hnew := not_allocated_of_fresh hfresh
      have hall : (held { n with
          ctx := p.ctx, handed := ⟨fallback, false⟩ :: n.handed }).Subperm _ :=
        (held_cons_handed { n with ctx := p.ctx } _).subperm.trans ((subperm_cons _).mpr hrings)
      refine ⟨h.grow hn hnew hall (.inl hrows), ?_⟩
      rintro _ ⟨⟩ hc
      exact hnew (h.spentAllocated _ hc)

theorem poolInv_commit {x deleteOk} (hok : PoolOk s (.commit m x deleteOk))
    (hstep : poolStep s (.commit m x deleteOk) = some t) : PoolInv t := by
  obtain ⟨n, hn, hstep⟩ := bind_eq_some_iff.mp hstep
  obtain ⟨⟨hmem, -⟩, hstep⟩ := ite_none_right_eq_some.mp hstep
  cases hstep
  have hperm := held_erase_handed hmem
  have hnodup := hperm.nodup_iff.mpr (h.heldNodup m n hn)
  have hheld : x.fileid ∈ held n := hperm.subset mem_cons_self
  have hrows : (if x.hasPoolRow then poolDelete s.rows x.fileid deleteOk else s.rows).Sublist
      s.rows := by
    split
    · exact poolDelete_sublist _ _ _
    · exact .refl _
  have hshrink : PoolInv ({ s with
      rows := if x.hasPoolRow then poolDelete s.rows _ _ else s.rows }.put m
        { n with handed := n.handed.erase x }) :=
    h.shrink hn (List.Subperm.cons_self.trans hperm.subperm) hrows
  refine hshrink.spend (h.heldAllocated hn hheld) (fun m' hf => ?_)
    fun hc => h.spent _ hc m (.inl ⟨n, hn, hheld⟩)
  rcases hf with ⟨n', hn', hf⟩ | ⟨r, hr, hrf, -⟩
  · by_cases hm : m' = m
    · subst hm
      cases (update_self ..).symm.trans hn'
      exact (nodup_cons.mp hnodup).1 hf
    · have hn' := (update_of_ne hm ..).symm.trans hn'
      exact hm (h.apart m' m _ (.inl ⟨n', hn', hf⟩) (.inl ⟨n, hn, hheld⟩))
  · -- The row is gone: it was not there, or this transaction has deleted it.
    rcases hok with hgone | ⟨hhas, hdel⟩
    · exact hgone r (hrows.subset hr) hrf
    · have hr' : r ∈ poolDelete s.rows x.fileid deleteOk := by simpa [PoolSys.put, hhas] using hr
      rw [hdel] at hr'
      simpa [hrf] using (mem_filter.mp hr').2

theorem poolInv_start {poolSize ringCount scanned}
    (hok : PoolOk s (.start m poolSize ringCount scanned deleteOk))
    (hstep : poolStep s (.start m poolSize ringCount scanned deleteOk) = some t) : PoolInv t := by
  obtain ⟨hguard, hstep⟩ := Option.ite_none_right_eq_some.mp hstep
  simp only [Bool.and_eq_true, Bool.or_eq_true, List.isPerm_iff, List.isEmpty_iff] at hguard
  cases hstep
  obtain ⟨hsub, hrows⟩ := recoverPool_spec _ s.rows scanned _
  have hempty : contents (preallocRings poolSize ringCount) = [] := by
    simp [contents, preallocRings, flatMap_eq_nil_iff]
  rw [hempty, map_nil, append_nil] at hsub
  -- The rows scanned are rows of this MDS.
  have hscan : (scanned.map PoolRow.fileid).Nodup ∧
      ∀ r ∈ scanned, r ∈ s.rows ∧ r.ownerMdsId = m := by
    rcases hguard.2 with hperm | rfl
    · refine ⟨(hperm.map _).nodup_iff.mpr (h.rowsNodup.sublist (List.filter_sublist.map _)), ?_⟩
      intro r hr
      obtain ⟨hr, hown⟩ := mem_filter.mp (hperm.subset hr)
      exact ⟨hr, hok r hr hown⟩
    · exact ⟨nodup_nil, nofun⟩
  generalize recoverPool (preallocRings poolSize ringCount) s.rows scanned deleteOk = r at *
  change PoolInv ({ s with rows := r.rows, allocated := [] ++ s.allocated }.put m
    ⟨⟨r.rings, 0⟩, [], []⟩)
  refine h.put ?_ ?_ nofun (h.rowsNodup.sublist (hrows.map _))
    (fun r hr => .inl (hrows.subset hr))
  · unfold held
    simpa using nodup_of_subperm hsub hscan.1
  · intro f hf
    unfold held at hf
    simp only [map_nil, append_nil] at hf
    obtain ⟨r, hr, rfl⟩ := mem_map.mp (hsub.subset hf)
    exact .inr (.inr ⟨r, (hscan.2 r hr).1, rfl, (hscan.2 r hr).2⟩)

theorem poolInv_crash (m : UInt32) :
    PoolInv { s with nodes := Function.update s.nodes m none } := by
  have hnodes {m' : UInt32} {n' : PoolNode}
      (hn' : Function.update s.nodes m none m' = some n') : s.nodes m' = some n' := by
    by_cases hm : m' = m
    · subst hm
      rw [update_self] at hn'
      cases hn'
    · rwa [update_of_ne hm] at hn'
  have hmine {m' : UInt32} {f : Fileid} :
      Mine { s with nodes := Function.update _ m none } m' f → Mine s m' f :=
    Or.imp_left fun ⟨n', hn', hf⟩ => ⟨n', hnodes hn', hf⟩
  exact { h with
    heldNodup := fun m' n' hn' => h.heldNodup m' n' (hnodes hn')
    allocated := fun m' f hf => h.allocated m' f (hmine hf)
    apart := fun m₁ m₂ f hf₁ hf₂ => h.apart m₁ m₂ f (hmine hf₁) (hmine hf₂)
    spent := fun f hf m' hf' => h.spent f hf m' (hmine hf') }

/-- **Every step keeps the invariant.** -/
theorem poolInv_step {e} (hok : PoolOk s e) (hstep : poolStep s e = some t) : PoolInv t := by
  cases e with
  | start => exact poolInv_start h hok hstep
  | produce => exact poolInv_produce h hstep
  | push => exact poolInv_push h hstep
  | pop => exact (poolInv_pop h hstep).1
  | commit => exact poolInv_commit h hok hstep
  | abort =>
    obtain ⟨n, hn, hstep⟩ := bind_eq_some_iff.mp hstep
    obtain ⟨hmem, hstep⟩ := ite_none_right_eq_some.mp hstep
    cases hstep
    exact h.shrink hn (List.Subperm.cons_self.trans (held_erase_handed hmem).subperm) (.refl _)
  | plain f =>
    obtain ⟨hfresh, hstep⟩ := ite_none_right_eq_some.mp hstep
    cases hstep
    have hnew := not_allocated_of_fresh hfresh
    have hgrown : PoolInv { s with allocated := f :: s.allocated } :=
      { h with
        allocated := fun m g hg => mem_cons_of_mem _ (h.allocated m g hg)
        spentAllocated := fun g hg => mem_cons_of_mem _ (h.spentAllocated g hg) }
    exact hgrown.spend mem_cons_self (fun m hf => hnew (h.allocated m f hf))
      fun hc => hnew (h.spentAllocated f hc)
  | remove =>
    cases hstep
    exact { h with }
  | crash m =>
    cases hstep
    exact poolInv_crash h m

end

theorem poolInv_of_start (h : PoolStart s) : PoolInv s := by
  obtain ⟨hnodes, hrows, honce, halloc⟩ := h
  have hnone {m : UInt32} {f : Fileid} : ¬ Mine s m f := by simp [Mine, hnodes, hrows]
  exact ⟨by simp [hrows], by simp [hnodes], fun _ _ hf => (hnone hf).elim,
    fun _ _ _ hf => (hnone hf).elim, halloc, fun _ _ _ => hnone, honce⟩

end Steps

/-- In every run, on any number of MDSes, whose creates leave no pool row of the fileid they
commit and whose restarts scan only rows of their own: no pop hands out the fileid of a file, and
no fileid is committed twice. -/
theorem fileid_used_once {s t : PoolSys} {e : PoolEvent}
    (hreach : Reachable PoolStart poolStep PoolOk s) (hok : PoolOk s e)
    (hstep : poolStep s e = some t) :
    (∀ f, poppedFileid s e = some f → f ∉ s.committed) ∧ t.committed.Nodup := by
  have hinv : PoolInv s :=
    hreach.invariant (fun _ => poolInv_of_start) fun _ _ _ h hok hstep => poolInv_step h hok hstep
  refine ⟨fun f hf => ?_, (poolInv_step hinv hok hstep).once⟩
  cases e with
  | pop => exact (poolInv_pop hinv hstep).2 f hf
  | _ => cases hf

/-- A cluster before its first start. -/
def emptyPool : PoolSys := ⟨fun _ => none, [], [], [], []⟩

theorem poolStart_emptyPool : PoolStart emptyPool := ⟨fun _ => rfl, rfl, .nil, nofun⟩

/-- Fileid 100 on data server 1. -/
def slot100 : PreallocSlot := ⟨100, 65536, 1, [7], (0, 0)⟩

/-- MDS 1 starts with empty tables and fills its pool with one slot. -/
def filledPool : List PoolEvent :=
  [.start 1 8 1 [] fun _ => true, .produce 1 0 slot100 true, .push 1 0 slot100]

/-- A create takes the slot with its row, and the row goes with the commit. -/
def cleanRun : List PoolEvent :=
  filledPool ++ [.pop 1 true (fun _ => true) none, .commit 1 ⟨100, true⟩ true]

/-- After a create that took the row with it the next pop falls back to a fresh fileid. -/
theorem slot_becomes_one_file : ∃ s t, exec poolStep emptyPool cleanRun = some s ∧
    poolStep s (.pop 1 true (fun _ => true) (some 101)) = some t ∧ s.committed = [100] ∧
    (∀ f, poppedFileid s (.pop 1 true (fun _ => true) (some 101)) = some f → f ∉ s.committed) ∧
      t.committed.Nodup := by
  have hok : AllSteps poolStep PoolOk emptyPool cleanRun := by decide +kernel
  have hrun : ((exec poolStep emptyPool cleanRun).bind fun s =>
      poolStep s (.pop 1 true (fun _ => true) (some 101))).isSome := by decide +kernel
  obtain ⟨t, ht⟩ := isSome_iff_exists.mp hrun
  obtain ⟨s, hs, hstep⟩ := bind_eq_some_iff.mp ht
  have hcommitted : (exec poolStep emptyPool cleanRun).map PoolSys.committed = some [100] := by
    decide +kernel
  rw [hs] at hcommitted
  exact ⟨s, t, hs, hstep, some.inj hcommitted, fileid_used_once
    ((Reachable.start poolStart_emptyPool).exec_of_allSteps hok hs) trivial hstep⟩

/-- The delete of the row fails unseen, the create commits, the MDS restarts, and the pool hands
out the fileid of the file; once the file is removed, a second one is committed under it. -/
theorem lost_delete_reuses_fileid :
    let run := filledPool ++ [.pop 1 false (fun _ => false) none, .commit 1 ⟨100, false⟩ true,
      .crash 1, .start 1 8 1 [slot100.row 1] fun _ => true]
    let again : PoolEvent := .pop 1 false (fun _ => true) (some 101)
    PoolStart emptyPool ∧
      (exec poolStep emptyPool run).map (fun s => (s.committed, s.inodes, poppedFileid s again)) =
        some ([100], [100], some 100) ∧
      (exec poolStep emptyPool (run ++ [again, .remove 100, .commit 1 ⟨100, false⟩ true])).map
        PoolSys.committed = some [100, 100] :=
  ⟨poolStart_emptyPool, by decide +kernel⟩

end PnfsLattice
