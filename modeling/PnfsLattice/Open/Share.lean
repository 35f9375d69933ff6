import PnfsLattice.Open.Window

/-!
# Share reservations

The purpose of the share modes is that no two opens of a file exist of which one denies
what the other has access to. OPEN, CLOSE, the revocations and every outcome of the
durable write keep this; OPEN_DOWNGRADE installs the deny bits it is given, so it keeps
it exactly when those bits do not deny what another open of the file has.
-/

namespace PnfsLattice

open Lib List

/-- No open of the list denies what a different open of the same file has access to. -/
def SharesOk (l : List OpenState) : Prop :=
  ∀ o₁ ∈ l, ∀ o₂ ∈ l, o₁ ≠ o₂ → o₁.fileid = o₂.fileid → o₁.shareAccess &&& o₂.shareDeny = 0

/-- Neither open denies what the other has. -/
def Compat (o x : OpenState) : Prop :=
  o.shareAccess &&& x.shareDeny = 0 ∧ x.shareAccess &&& o.shareDeny = 0

/-- The condition on a step: the deny bits that a successful OPEN_DOWNGRADE installs deny
nothing that another open of the file has access to. -/
def DowngradeOk (s : OpenSys) : OpenOp → Prop
  | .downgrade clientid sid access deny =>
    (∃ r, (openStateDowngrade s.ot clientid sid access deny).2 = .ok r) →
      ∀ o ∈ s.ot.opens, o.stateid.other = sid.other →
        ∀ x ∈ s.ot.opens, x ≠ o → x.fileid = o.fileid → x.shareAccess &&& deny = 0
  | _ => True

theorem SharesOk.subset {l l'} (h : SharesOk l) (hsub : ∀ o ∈ l', o ∈ l) : SharesOk l' :=
  fun o₁ h₁ o₂ h₂ => h o₁ (hsub o₁ h₁) o₂ (hsub o₂ h₂)

variable {l₁ l₂ : List OpenState} {o o' : OpenState} {s : OpenSys}

theorem sharesOk_middle (hne : ∀ x ∈ l₁ ++ l₂, x ≠ o) : SharesOk (l₁ ++ o :: l₂) ↔
      SharesOk (l₁ ++ l₂) ∧ ∀ x ∈ l₁ ++ l₂, x.fileid = o.fileid → Compat o x := by
  constructor
  · intro h
    refine ⟨h.subset fun x hx => mem_middle.mpr (.inr hx), fun x hx hf => ⟨?_, ?_⟩⟩
    · exact h o (mem_middle.mpr (.inl rfl)) x (mem_middle.mpr (.inr hx)) (hne x hx).symm hf.symm
    · exact h x (mem_middle.mpr (.inr hx)) o (mem_middle.mpr (.inl rfl)) (hne x hx) hf
  · rintro ⟨h, hc⟩ o₁ h₁ o₂ h₂ h₁₂ hf
    rw [mem_middle] at h₁ h₂
    obtain rfl | h₁' := h₁ <;> obtain rfl | h₂' := h₂
    · exact absurd rfl h₁₂
    · exact (hc o₂ h₂' hf.symm).1
    · exact (hc o₁ h₁' hf).2
    · exact h o₁ h₁' o₂ h₂' h₁₂ hf

theorem ne_of_others_nodup (h : ((l₁ ++ o :: l₂).map fun o => o.stateid.other).Nodup) :
    ∀ x ∈ l₁ ++ l₂, x ≠ o := by
  rintro x hx rfl
  exact (nodup_map_middle.mp h).1 x hx rfl

theorem compat_of_shareConflict {chain}
    (h : shareConflict chain o.shareAccess o.shareDeny = false) : ∀ x ∈ chain, Compat o x := by
  intro x hx
  simp only [shareConflict, any_eq_false, Bool.or_eq_true, bne_iff_ne, ne_eq, not_or, not_not] at h
  exact h x hx

theorem Compat.within {x} (h : Compat o x) (ha : Within o'.shareAccess o.shareAccess)
    (hd : Within o'.shareDeny o.shareDeny) : Compat o' x :=
  ⟨ha.and_eq_zero h.1, hd.eq_and_zero h.2⟩

/-! ## One step -/

theorem SharesOk.replace (h : SharesOk s.ot.opens) (hinv : WindowInv s)
    (hsplit : s.ot.opens = l₁ ++ o :: l₂) (hother : o'.stateid.other = o.stateid.other)
    (hcompat : ∀ x ∈ l₁ ++ l₂, x.fileid = o'.fileid → Compat o' x) : SharesOk (l₁ ++ o' :: l₂) := by
  have hothers := hsplit ▸ hinv.others
  have hothers' : ((l₁ ++ o' :: l₂).map fun o => o.stateid.other).Nodup := by
    simpa [hother] using hothers
  rw [hsplit, sharesOk_middle (ne_of_others_nodup hothers)] at h
  exact (sharesOk_middle (ne_of_others_nodup hothers')).mpr ⟨h.1, hcompat⟩

theorem SharesOk.shrink (h : SharesOk s.ot.opens) (hinv : WindowInv s)
    (hsplit : s.ot.opens = l₁ ++ o :: l₂) (hother : o'.stateid.other = o.stateid.other)
    (hfile : o'.fileid = o.fileid) (ha : Within o'.shareAccess o.shareAccess)
    (hd : Within o'.shareDeny o.shareDeny) : SharesOk (l₁ ++ o' :: l₂) := by
  refine h.replace hinv hsplit hother fun x hx hf => ?_
  have hothers := hsplit ▸ hinv.others
  rw [hsplit, sharesOk_middle (ne_of_others_nodup hothers)] at h
  exact (h.2 x hx (hf.trans hfile)).within ha hd

/-- **One step keeps the share reservations exactly if it meets `DowngradeOk`.** -/
theorem sharesOk_openStep_iff {t op} (hinv : WindowInv s) (h : SharesOk s.ot.opens)
    (hstep : openStep s op = some t) : SharesOk t.ot.opens ↔ DowngradeOk s op := by
  cases openStep_effect hstep with
  | reject n _ _ hrej =>
    refine iff_of_true h ?_
    cases op <;> try trivial
    rintro ⟨r, hr⟩
    exact absurd hr (hrej _ _ _ _ r rfl)
  | @upgrade _ a existing _ _ hsplit hfind _ hshare =>
    refine iff_of_true (h.replace hinv hsplit rfl fun x hx hf => ?_) trivial
    have hfile : existing.fileid = a.fileid := (isOwnerOpen_iff.mp (List.find?_some hfind)).1
    refine compat_of_shareConflict (o := upgradedState s.ot _ a) hshare x ?_
    exact mem_filter.mpr ⟨hx, by simpa using hf.trans hfile⟩
  | @fresh _ a hfind hshare =>
    refine iff_of_true ?_ trivial
    have hne : ∀ x ∈ [] ++ s.ot.opens, x ≠ freshState s.ot a := by
      rintro x hx rfl
      exact key_ne_of_findOwnerOpen_none hfind hx rfl
    refine (sharesOk_middle hne).mpr ⟨h, fun x hx hf => ?_⟩
    refine compat_of_shareConflict (o := freshState s.ot a) hshare x ?_
    exact mem_filter.mpr ⟨hx, beq_iff_eq.mpr hf⟩
  | put | commitGone => exact iff_of_true h trivial
  | commitDone _ _ _ hsplit =>
    exact iff_of_true
      (h.shrink hinv hsplit (by rfl) (by rfl) (within_refl _) (within_refl _)) trivial
  | unwindFresh _ _ _ hsplit | close hsplit =>
    exact iff_of_true (h.subset fun x hx => hsplit ▸ mem_middle.mpr (.inr hx)) trivial
  | @unwindUpgrade _ f _ _ cur _ _ _ _ _ _ hinfl _ hpath hsplit hcur =>
    -- The roll-back restores modes that the merge had kept.
    have hf : f ∈ s.inflight := by simp [hinfl]
    have hcons := (hinv.flying f hf).consistent
    simp only [InflightOpen.Consistent, hpath] at hcons
    obtain ⟨-, -, hwa, hwd⟩ := hcons
    obtain rfl : cur = f.published := (hinv.flying f hf).published cur (by simp [hsplit]) hcur
    refine iff_of_true (h.shrink hinv hsplit ?_ ?_ ?_ ?_) trivial
    · unfold rollBack; split <;> rfl
    · unfold rollBack; split <;> rfl
    · unfold rollBack
      split
      · exact hwa
      · exact within_refl _
    · unfold rollBack
      split
      · exact hwd
      · exact within_refl _
  | @downgrade _ _ _ _ os l₁ l₂ hsplit hother _ haccess hok =>
    have hothers := hsplit ▸ hinv.others
    have hne := ne_of_others_nodup hothers
    have hold := h
    rw [hsplit, sharesOk_middle hne] at hold
    constructor
    · rintro hnew - o ho hos x hx hxo hf
      obtain rfl : o = os :=
        eq_of_mem_middle hothers (hsplit ▸ ho) (hos.trans hother.symm)
      have hx' : x ∈ l₁ ++ l₂ := (mem_middle.mp (hsplit ▸ hx)).resolve_left hxo
      exact hnew x (mem_middle.mpr (.inr hx')) _ (mem_middle.mpr (.inl rfl))
        (fun heq => (nodup_map_middle.mp hothers).1 x hx' (by rw [heq])) hf
    · intro hcond
      refine h.replace hinv hsplit (by rfl) fun x hx hf => ⟨?_, ?_⟩
      · exact haccess.and_eq_zero (hold.2 x hx hf).1
      · exact hcond hok os (by simp [hsplit]) hother x
          (hsplit ▸ mem_middle.mpr (.inr hx)) (hne x hx) hf
  | revoke =>
    refine iff_of_true (h.subset fun x hx => mem_of_mem_filter hx) ?_
    cases op <;> trivial

/-! ## Whole runs -/

/-- **Share reservations.**  From an empty table, a run has no open that denies what
another open of its file has access to, in any of its states, exactly if the deny bits
every successful OPEN_DOWNGRADE installs deny nothing another open of the file has. -/
theorem share_reservations_iff (mdsId : UInt32) (seed : ℕ) (cat : Bool) (bootEpoch : UInt64)
    (skip : Bool) (ops : List OpenOp) : AllStates openStep (fun s => SharesOk s.ot.opens)
        (openSysInit (openTableInit mdsId seed cat bootEpoch skip)) ops ↔
      AllSteps openStep DowngradeOk
        (openSysInit (openTableInit mdsId seed cat bootEpoch skip)) ops := by
  refine allStates_iff_allSteps (I := WindowInv)
    (fun _ _ _ hs hstep => windowInv_openStep hs hstep)
    (fun _ _ _ hs hp hstep => sharesOk_openStep_iff hs hp hstep) ops ?_ ?_
  · have hstart : Reachable OpenInit openStep anyStep
        (openSysInit (openTableInit mdsId seed cat bootEpoch skip)) :=
      .start ⟨mdsId, seed, cat, bootEpoch, skip, rfl⟩
    exact windowInv_of_reachable hstart
  · simp [SharesOk, openSysInit, openTableInit]

/-- Two clients open a file for reading, and the second downgrades to deny reading. -/
def denyingDowngrade : List OpenOp :=
  [.publish true ⟨11, [1], 3, 1, 0⟩, .publish true ⟨12, [1], 3, 1, 0⟩,
   .downgrade 12 ⟨1, ⟨1, 8⟩⟩ 1 1]

/-- After that run the second open denies the access the first one has. -/
theorem share_reservations_denyingDowngrade :
    ¬ ∀ s, Reachable OpenInit openStep anyStep s → SharesOk s.ot.opens := by
  intro hall
  have hs := hall _ (.run (openSysInit (openTableInit 1 7 false 0 false)) denyingDowngrade
    ⟨1, 7, false, 0, false, rfl⟩)
  exact absurd (hs _ (.tail _ (.head _)) _ (.head _) (by decide) rfl) (by decide)

end PnfsLattice
