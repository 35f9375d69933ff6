import PnfsLattice.Deleg.System

/-!
# Exclusivity of delegations

Whether delegations of different clients on a file are both READ, and whether a client can
hold a delegation beside a writer that was there before it. `op_open` probes for other
writers and other delegations before it grants, but in separate critical sections: what
the probes found can be out of date when the grant is made. It is not if no other client
publishes an OPEN for writing, or is granted a delegation, on the file in between.
-/

namespace PnfsLattice

open Lib List Option

/-! ## Where write access comes from -/

/-- An open with WRITE access after a step had it before, or was given it by the OPEN that
the step published. -/
theorem writer_openStep {s t op} (hinv : WindowInv s) (hstep : openStep s op = some t) {os}
    (hos : os ∈ t.ot.opens) (hw : os.writes = true) :
    (∃ o ∈ s.ot.opens, o.fileid = os.fileid ∧ o.clientid = os.clientid ∧ o.writes = true) ∨
    ∃ alloc a, op = .publish alloc a ∧ os.fileid = a.fileid ∧ os.clientid = a.clientid ∧
      a.shareAccess &&& shareAccessWrite ≠ 0 := by
  -- An entry rewritten in place, with access bits it had.
  have hreplace : ∀ {x x' : OpenState} {l₁ l₂ : List OpenState},
      s.ot.opens = l₁ ++ x :: l₂ → os ∈ l₁ ++ x' :: l₂ → x'.fileid = x.fileid →
      x'.clientid = x.clientid → Within x'.shareAccess x.shareAccess →
      ∃ o ∈ s.ot.opens, o.fileid = os.fileid ∧ o.clientid = os.clientid ∧ o.writes = true := by
    intro x _ l₁ l₂ hsplit hmem hfile hclient hwithin
    rcases mem_middle.mp hmem with rfl | hmem'
    · refine ⟨x, by simp [hsplit], hfile.symm, hclient.symm, ?_⟩
      simp only [OpenState.writes, bne_iff_ne, ne_eq] at hw ⊢
      exact fun h0 => hw (hwithin.and_eq_zero h0)
    · exact ⟨os, hsplit ▸ mem_middle.mpr (.inr hmem'), rfl, rfl, hw⟩
  have hkeep : ∀ {x : OpenState} {l₁ l₂ : List OpenState}, s.ot.opens = l₁ ++ x :: l₂ →
      os ∈ l₁ ++ l₂ → os ∈ s.ot.opens := fun hsplit hmem =>
    hsplit ▸ mem_middle.mpr (.inr hmem)
  cases openStep_effect hstep with
  | @upgrade alloc a existing _ _ hsplit hfind =>
    rcases mem_middle.mp hos with rfl | hmem
    · have hkey := isOwnerOpen_iff.mp (List.find?_some hfind)
      by_cases h0 : existing.writes = true
      · exact .inl ⟨existing, by simp [hsplit], rfl, rfl, h0⟩
      · refine .inr ⟨alloc, a, rfl, hkey.1, hkey.2.1, ?_⟩
        simp only [OpenState.writes, upgradedState, bne_iff_ne, ne_eq, not_not] at hw h0
        exact fun ha => hw (or_and_eq_zero h0 ha)
    · exact .inl ⟨os, hkeep hsplit hmem, rfl, rfl, hw⟩
  | @fresh alloc a =>
    rcases mem_cons.mp hos with rfl | hmem
    · exact .inr ⟨alloc, a, rfl, rfl, rfl, by simpa [OpenState.writes, freshState] using hw⟩
    · exact .inl ⟨os, hmem, rfl, rfl, hw⟩
  | reject | put | commitGone => exact .inl ⟨os, hos, rfl, rfl, hw⟩
  | commitDone _ _ _ hsplit => exact .inl (hreplace hsplit hos rfl rfl (within_refl _))
  | unwindFresh _ _ _ hsplit => exact .inl ⟨os, hkeep hsplit hos, rfl, rfl, hw⟩
  | @unwindUpgrade _ f _ _ cur _ _ _ _ _ _ hinfl _ hpath hsplit hcur =>
    have hf : f ∈ s.inflight := by simp [hinfl]
    have hcons := (hinv.flying f hf).consistent
    simp only [InflightOpen.Consistent, hpath] at hcons
    obtain rfl : cur = f.published := (hinv.flying f hf).published cur (by simp [hsplit]) hcur
    refine .inl (hreplace hsplit hos ?_ ?_ ?_)
    · unfold rollBack; split <;> rfl
    · unfold rollBack; split <;> rfl
    · unfold rollBack
      split
      · exact hcons.2.2.1
      · exact within_refl _
  | close hsplit => exact .inl ⟨os, hkeep hsplit hos, rfl, rfl, hw⟩
  | downgrade hsplit _ _ haccess => exact .inl (hreplace hsplit hos rfl rfl haccess)
  | revoke => exact .inl ⟨os, mem_of_mem_filter hos, rfl, rfl, hw⟩

/-! ## The property and the condition -/

/-- Two delegations of different clients on a file are READ delegations, and no client has
a delegation on a file to which another client's open has WRITE access since before the
grant. -/
structure DelegExclusive (s : DelegSys) : Prop where
  types : ∀ d ∈ s.dt.entries, ∀ e ∈ s.dt.entries, d.fileid = e.fileid →
    d.clientid ≠ e.clientid → d.delegType = .read ∧ e.delegType = .read
  writers : ∀ d ∈ s.dt.entries, ∀ g ∈ s.grants, g.other = d.stateid.other →
    ∀ os ∈ s.opens.ot.opens, os.fileid = d.fileid → os.clientid ≠ d.clientid →
      os.writes = true → os.stateid.other ∉ g.writersBefore

/-- The type of the delegation an OPEN is about to be granted. -/
def OpenThread.granting (t : OpenThread) : Option DelegType :=
  match t.pc with
  | .grant delegType => some delegType
  | _ => none

/-- Two OPENs of one file by different clients. -/
def Rivals (t u : OpenThread) : Prop :=
  u.args.fileid = t.args.fileid ∧ u.args.clientid ≠ t.args.clientid
deriving Decidable

/-- The steps that leave the probes of other clients valid: an OPEN for writing is
published while no OPEN of another client on the file is between its writer probe and its
end, and a delegation is granted while none is between its conflict probe and its end,
unless both are to be READ delegations. -/
def DelegOk (s : DelegSys) : DelegOp → Prop
  | .publish tid _ => ∀ t ∈ s.threads, t.tid = tid → t.args.shareAccess &&& shareAccessWrite ≠ 0 →
      ∀ u ∈ s.threads, Rivals t u → u.probed = false
  | .grant tid _ => ∀ t ∈ s.threads, t.tid = tid → ∀ u ∈ s.threads, Rivals t u →
      u.granting = none ∨ (t.granting = some .read ∧ u.granting = some .read)
  | _ => True

instance (s : DelegSys) (op : DelegOp) : Decidable (DelegOk s op) := by
  cases op <;> unfold DelegOk <;> infer_instance

/-! ## The invariant -/

/-- What the probes of an OPEN established still holds. -/
structure SectionInv (s : DelegSys) : Prop where
  window : WindowInv s.opens
  noWriter : ∀ t ∈ s.threads, t.probed = true → ∀ os ∈ s.opens.ot.opens,
    os.fileid = t.args.fileid → os.clientid ≠ t.args.clientid → os.writes = false
  noConflict : ∀ t ∈ s.threads, ∀ ty, t.granting = some ty → ∀ d ∈ s.dt.entries,
    d.fileid = t.args.fileid → d.clientid ≠ t.args.clientid → d.delegType = .read ∧ ty = .read
  types : ∀ d ∈ s.dt.entries, ∀ e ∈ s.dt.entries, d.fileid = e.fileid →
    d.clientid ≠ e.clientid → d.delegType = .read ∧ e.delegType = .read
  grants : ∀ g ∈ s.grants, g.writersBefore = []

variable {s : DelegSys} {t : OpenThread}

theorem SectionInv.exclusive (h : SectionInv s) : DelegExclusive s where
  types := h.types
  writers := by
    intro d _ g hg _ _ _ _ _ _
    simp [h.grants g hg]

theorem probed_of_granting {ty : DelegType} (h : t.granting = some ty) : t.probed = true := by
  unfold OpenThread.granting at h
  unfold OpenThread.probed
  cases hpc : t.pc <;> simp_all

theorem mem_of_thread {tid} (h : s.thread tid = some t) : t ∈ s.threads ∧ t.tid = tid :=
  ⟨mem_of_find?_eq_some h, by simpa using List.find?_some h⟩

namespace SectionInv

variable {s t : DelegSys}

variable {threads : List OpenThread}

/-- The part of the invariant on one table carries over to OPENs that were there or have
passed no probe. -/
theorem oldThread (hthreads : NoneProbed s threads) {u} (hu : u ∈ threads)
    (hprobed : u.probed = true) : u ∈ s.threads :=
  (hthreads u hu).resolve_right (by simp [hprobed])

/-- A step on the open table that gives no client write access beside the probe of
another. -/
theorem opensStep (h : SectionInv s) {oop opens} (hstep : openStep s.opens oop = some opens)
    (hthreads : NoneProbed s threads)
    (hpub : ∀ alloc a, oop = .publish alloc a → a.shareAccess &&& shareAccessWrite ≠ 0 →
      ∀ u ∈ s.threads, a.fileid = u.args.fileid → a.clientid ≠ u.args.clientid → u.probed = false) :
    SectionInv { s with opens, threads } where
  window := windowInv_openStep h.window hstep
  noWriter := by
    intro u hu hprobed _ hos hfile hclient
    have hu' := oldThread hthreads hu hprobed
    by_contra hw
    rcases writer_openStep h.window hstep hos (by simpa using hw) with
      ⟨o, ho, hof, hoc, how⟩ | ⟨alloc, a, rfl, haf, hac, haw⟩
    · have := h.noWriter u hu' hprobed o ho (hof.trans hfile) (hoc ▸ hclient)
      simp [how] at this
    · have := hpub alloc a rfl haw u hu' (haf ▸ hfile) (hac ▸ hclient)
      simp [hprobed] at this
  noConflict := fun u hu ty hty =>
    h.noConflict u (oldThread hthreads hu (probed_of_granting hty)) ty hty
  types := h.types
  grants := h.grants

theorem quiet (h : SectionInv s) {dt} (hsub : dt.entries.Sublist s.dt.entries)
    (hthreads : NoneProbed s threads) : SectionInv { s with dt, threads } where
  window := h.window
  noWriter := fun u hu hprobed => h.noWriter u (oldThread hthreads hu hprobed) hprobed
  noConflict := fun u hu ty hty d hd =>
    h.noConflict u (oldThread hthreads hu (probed_of_granting hty)) ty hty d (hsub.subset hd)
  types := fun d hd e he => h.types d (hsub.subset hd) e (hsub.subset he)
  grants := h.grants

variable {th : OpenThread}

/-- An OPEN moves on once what it then has to know is known. -/
theorem goto (h : SectionInv s) {pc}
    (hwriter : OpenThread.probed { th with pc } = true → ∀ os ∈ s.opens.ot.opens, os.fileid =
      th.args.fileid → os.clientid ≠ th.args.clientid → os.writes = false)
    (hconflict : ∀ ty, OpenThread.granting { th with pc } = some ty → ∀ d ∈ s.dt.entries, d.fileid =
      th.args.fileid → d.clientid ≠ th.args.clientid → d.delegType = .read ∧ ty = .read) :
    SectionInv (s.goto th pc) where
  window := h.window
  noWriter := by
    intro u hu hprobed
    rcases mem_cons.mp hu with rfl | hu'
    · exact hwriter hprobed
    · exact h.noWriter u (mem_of_mem_filter hu') hprobed
  noConflict := by
    intro u hu ty hty
    rcases mem_cons.mp hu with rfl | hu'
    · exact hconflict ty hty
    · exact h.noConflict u (mem_of_mem_filter hu') ty hty
  types := h.types
  grants := h.grants

/-- A delegation is granted to an OPEN whose probes still hold. -/
theorem grant (h : SectionInv s) {ty : DelegType} {sid n} (hth : th ∈ s.threads)
    (hpc : th.pc = .grant ty)
    (hok : ∀ u ∈ s.threads, Rivals th u → u.granting = none ∨
      (th.granting = some .read ∧ u.granting = some .read)) :
    SectionInv ({ s with
      dt := { s.dt with
        entries := ⟨sid, th.args.clientid, th.args.fileid, ty⟩ :: s.dt.entries, sidCounter := n }
      grants := ⟨sid.other, (otherWriters s.opens.ot th.args.fileid th.args.clientid).map
        fun os : OpenState => os.stateid.other⟩ :: s.grants }.leave th) := by
  have hgranting : th.granting = some ty := by simp [OpenThread.granting, hpc]
  have hnew := h.noConflict th hth ty hgranting
  refine ⟨h.window, ?_, ?_, ?_, ?_⟩
  · exact fun u hu => h.noWriter u (mem_of_mem_filter hu)
  · intro u hu ty' hty' d hd hfile hclient
    have hu' := mem_of_mem_filter hu
    rcases mem_cons.mp hd with rfl | hd'
    · rcases hok u hu' ⟨hfile.symm, hclient.symm⟩ with hnone | ⟨hread, hread'⟩
      · simp [hnone] at hty'
      · exact ⟨mem_unique hgranting hread, mem_unique hty' hread'⟩
    · exact h.noConflict u hu' ty' hty' d hd' hfile hclient
  · intro d hd e he hfile hclient
    rcases mem_cons.mp hd with rfl | hd' <;> rcases mem_cons.mp he with rfl | he'
    · exact absurd rfl hclient
    · exact (hnew e he' hfile.symm hclient.symm).symm
    · exact hnew d hd' hfile hclient
    · exact h.types d hd' e he' hfile hclient
  · intro g hg
    rcases mem_cons.mp hg with rfl | hg'
    · simp only [otherWriters, map_eq_nil_iff, filter_eq_nil_iff]
      intro os hos hwriter
      simp only [Bool.and_eq_true, beq_iff_eq, bne_iff_ne, ne_eq] at hwriter
      have := h.noWriter th hth (probed_of_granting hgranting) os hos hwriter.1.1 hwriter.1.2
      simp [this] at hwriter
    · exact h.grants g hg'

end SectionInv

theorem sectionInv_delegStep {t op} (h : SectionInv s) (hok : DelegOk s op)
    (hstep : delegStep s op = some t) : SectionInv t := by
  cases delegStep_effect hstep with
  | @publish _ _ th _ _ hth hopen hthreads =>
    obtain ⟨hmem, htid⟩ := mem_of_thread hth
    refine h.opensStep hopen hthreads ?_
    rintro _ _ ⟨⟩ hw u hu hfile hclient
    exact hok th hmem htid hw u hu ⟨hfile.symm, hclient.symm⟩
  | opens hno hopen hthreads =>
    exact h.opensStep hopen hthreads fun alloc a heq => absurd heq (hno alloc a)
  | quiet hsub hthreads => exact h.quiet hsub hthreads
  | @probeWriter _ _ _ hnone =>
    refine h.goto (fun _ os hos hfile hclient => ?_)
      (fun _ hty => by simp [OpenThread.granting] at hty)
    by_contra hw
    simp only [openStateHasOtherWriter, opensOf, List.any_filter, List.any_eq_false] at hnone
    refine hnone os hos ?_
    simpa [hfile, hclient, OpenState.writes] using hw
  | @probeConflict _ th _ hth hpc hnone =>
    obtain ⟨hmem, -⟩ := mem_of_thread hth
    have hprobed : th.probed = true := by simp [OpenThread.probed, hpc]
    refine h.goto (fun _ => h.noWriter th hmem hprobed) fun _ _ d hd hfile hclient => ?_
    simp only [delegCheckConflict, List.any_eq_false] at hnone
    exact absurd (by simp [heldByOther, hfile, hclient]) (hnone d hd)
  | @grant _ _ th _ hth hpc =>
    obtain ⟨hmem, htid⟩ := mem_of_thread hth
    exact h.grant hmem hpc (hok th hmem htid)

/-! ## Whole runs -/

/-- **Exclusivity of delegations.**  In a run in which no client publishes an OPEN for
writing, or is granted a delegation, while an OPEN of another client on the file is
between its probe and its end, delegations are exclusive in every state. -/
theorem delegation_exclusive {s : DelegSys} (h : Reachable DelegInit delegStep DelegOk s) :
    DelegExclusive s := by
  refine SectionInv.exclusive (h.invariant ?_ fun _ _ _ hs hok hstep =>
    sectionInv_delegStep hs hok hstep)
  rintro _ ⟨mdsId, seed, cat, bootEpoch, skip, _, rfl⟩
  refine ⟨windowInv_of_reachable (.start ⟨mdsId, seed, cat, bootEpoch, skip, rfl⟩ :
    Reachable OpenInit openStep anyStep _), ?_, ?_, ?_, ?_⟩ <;>
  simp [delegSysInit, openSysInit, openTableInit, delegTableInit]

/-- The start of the runs below: nothing is written through. -/
def delegStart : DelegSys := delegSysInit (openTableInit 1 7 false 0 false) true

theorem delegStart_init : DelegInit delegStart := ⟨1, 7, false, 0, false, true, rfl⟩

/-- Two clients open a file for reading, section by section in turn. -/
def twoReadersRun : List DelegOp :=
  [.arrive 0 ⟨11, [1], 3, 1, 0⟩, .arrive 1 ⟨12, [1], 3, 1, 0⟩, .publish 0 true, .publish 1 true,
   .recallFile 0 [] [], .recallFile 1 [] [], .probeWriter 0, .probeWriter 1,
   .probeConflict 0, .probeConflict 1, .grant 0 true, .grant 1 true]

/-- Both are granted a delegation, which is a READ delegation. -/
theorem delegation_exclusive_twoReaders :
    ∃ s, Reachable DelegInit delegStep DelegOk s ∧ s.dt.entries.length = 2 ∧
      DelegExclusive s := by
  have hs : Reachable DelegInit delegStep DelegOk _ :=
    .run delegStart twoReadersRun delegStart_init
  exact ⟨_, hs, rfl, delegation_exclusive hs⟩

/-- A client opens a file for reading; another opens it for writing after the probes of the
first, and has its delegation granted before the first has. -/
def writerBetween : List DelegOp :=
  [.arrive 0 ⟨11, [1], 3, 1, 0⟩, .publish 0 true, .recallFile 0 [] [], .probeWriter 0,
   .probeConflict 0,
   .arrive 1 ⟨12, [1], 3, 2, 0⟩, .publish 1 true, .recallFile 1 [] [], .probeWriter 1,
   .probeConflict 1, .grant 1 true, .grant 0 true]

/-- The first client then has a READ delegation beside the WRITE delegation of the other,
and beside its open for writing, which was there before. -/
theorem delegation_exclusive_writerBetween : ∃ s, Reachable DelegInit delegStep anyStep s ∧
      (∃ d ∈ s.dt.entries, ∃ e ∈ s.dt.entries, d.fileid = e.fileid ∧ d.clientid ≠ e.clientid ∧
        e.delegType = .write) ∧
      ∃ d ∈ s.dt.entries, ∃ g ∈ s.grants, g.other = d.stateid.other ∧
        ∃ os ∈ s.opens.ot.opens, os.fileid = d.fileid ∧ os.clientid ≠ d.clientid ∧
          os.writes = true ∧ os.stateid.other ∈ g.writersBefore := by
  exact ⟨_, .run delegStart writerBetween delegStart_init, by decide, by decide⟩

end PnfsLattice
