import PnfsLattice.Open.System

/-!
# The unlocked persist window

How the open table, the OPENs in flight and the stateid counter fit together in every
reachable state, and what follows for an OPEN whose durable write runs without locks:
its state cannot be touched meanwhile except by a revocation, and a failed write is
undone as if the OPEN had not happened.
-/

namespace PnfsLattice

open Lib List Option

/-! ## The invariant -/

/-- What identifies an open besides its stateid. -/
def OpenState.key (os : OpenState) : Fileid × Clientid × List UInt8 :=
  (os.fileid, os.clientid, os.openOwner)

/-- The state an OPEN in flight published, read back from its row. -/
def InflightOpen.published (f : InflightOpen) : OpenState :=
  { stateid := { seqid := f.write.row.seqid, other := f.other }
    clientid := f.write.row.clientid, fileid := f.write.row.fileid
    shareAccess := f.write.row.shareAccess, shareDeny := f.write.row.shareDeny
    openOwner := f.write.row.openOwner, persistPending := true }

/-- The values an OPEN keeps for its roll-back are those of the state it published over,
whose share bits the merge kept. -/
def InflightOpen.Consistent (f : InflightOpen) : Prop :=
  match f.write.path with
  | .fresh => f.before = none
  | .upgrade ps pa pd ns =>
    f.before = some { f.published with
      stateid := { seqid := ps, other := f.other }
      shareAccess := pa, shareDeny := pd, persistPending := false } ∧
    ns = f.write.row.seqid ∧ Within pa f.write.row.shareAccess ∧
    Within pd f.write.row.shareDeny

/-- What holds of an OPEN in flight. -/
structure FlightOk (s : OpenSys) (f : InflightOpen) : Prop where
  minted : f.other.tail < s.ot.nextOtherSeq
  /-- A state with a durable write in flight is still as it was published. -/
  published : ∀ o ∈ s.ot.opens, o.stateid.other = f.other → o = f.published
  consistent : f.Consistent
  live : (∃ o ∈ s.ot.opens, o.stateid.other = f.other) ∨ f.other ∈ s.revoked

/-- **How the table, the OPENs in flight and the counter fit together.** -/
structure WindowInv (s : OpenSys) : Prop where
  others : (s.ot.opens.map fun o => o.stateid.other).Nodup
  keys : (s.ot.opens.map OpenState.key).Nodup
  minted : ∀ o ∈ s.ot.opens, o.stateid.other.tail < s.ot.nextOtherSeq
  inflightOthers : (s.inflight.map InflightOpen.other).Nodup
  flying : ∀ f ∈ s.inflight, FlightOk s f
  /-- A pending state has its OPEN in flight. -/
  pending : ∀ o ∈ s.ot.opens, o.persistPending = true →
    ∃ f ∈ s.inflight, f.other = o.stateid.other

namespace WindowInv

variable {s t : OpenSys} {o o' : OpenState} {f : InflightOpen} {l₁ l₂ : List OpenState}
  {k₁ k₂ : List InflightOpen}

section

variable (h : WindowInv s)

include h

theorem not_inflight (ho : o ∈ s.ot.opens) (hidle : o.persistPending = false)
    (hf : f ∈ s.inflight) : o.stateid.other ≠ f.other := by
  intro heq
  have hpub := (h.flying f hf).published o ho heq
  simp [hpub, InflightOpen.published] at hidle

theorem inflight_of_ended {g} (hinfl : s.inflight = k₁ ++ f :: k₂)
    (hcur : o.stateid.other = f.other) :
    g ∈ k₁ ++ k₂ ↔ g ∈ s.inflight ∧ g.other ≠ o.stateid.other := by
  have hne := (nodup_map_middle.mp (hinfl ▸ h.inflightOthers)).1
  rw [hinfl, mem_middle, hcur]
  refine ⟨fun hg => ⟨.inr hg, hne g hg⟩, ?_⟩
  rintro ⟨rfl | hg, hgne⟩
  · exact absurd rfl hgne
  · exact hg

/-- A state gives way to an idle one of its stateid and owner, or to none, and no OPEN of it
stays in flight. -/
theorem giveWay {r : Option OpenState} (hsplit : s.ot.opens = l₁ ++ o :: l₂)
    (hopens : t.ot.opens = l₁ ++ (r.toList ++ l₂))
    (hr : ∀ x ∈ r, x.persistPending = false ∧ x.stateid.other = o.stateid.other ∧ x.key = o.key)
    (hnext : t.ot.nextOtherSeq = s.ot.nextOtherSeq) (hsub : t.inflight.Sublist s.inflight)
    (hinfl : ∀ g, g ∈ t.inflight ↔ g ∈ s.inflight ∧ g.other ≠ o.stateid.other)
    (hrev : t.revoked = s.revoked) : WindowInv t := by
  have hne := (nodup_map_middle.mp (hsplit ▸ h.others)).1
  have hrest : ∀ x ∈ l₁ ++ l₂, x ∈ s.ot.opens := fun x hx => hsplit ▸ mem_middle.mpr (.inr hx)
  have hmem : ∀ x, x ∈ t.ot.opens ↔ x ∈ r ∨ x ∈ l₁ ++ l₂ := by
    simp only [hopens, mem_append, Option.mem_toList]
    tauto
  have hnodup : ∀ {β} (φ : OpenState → β), (∀ x ∈ r, φ x = φ o) → (s.ot.opens.map φ).Nodup →
      (t.ot.opens.map φ).Nodup := by
    intro _ _ hφ hn
    cases r with
    | none => exact hopens ▸ (nodup_map_middle.mp (hsplit ▸ hn)).2
    | some x => simpa [hopens, hφ x rfl, hsplit] using hn
  refine ⟨hnodup _ (fun x hx => (hr x hx).2.1) h.others,
    hnodup _ (fun x hx => (hr x hx).2.2) h.keys, fun x hx => ?_,
    h.inflightOthers.sublist (hsub.map _), fun g hg => ?_, fun x hx hp => ?_⟩
  · rw [hnext]
    rcases (hmem x).mp hx with hx | hx
    · exact (hr x hx).2.1 ▸ h.minted o (by simp [hsplit])
    · exact h.minted x (hrest x hx)
  · obtain ⟨hg, hgne⟩ := (hinfl g).mp hg
    have hok := h.flying g hg
    refine ⟨hnext ▸ hok.minted, fun x hx heq => ?_, hok.consistent, ?_⟩
    · rcases (hmem x).mp hx with hx | hx
      · exact absurd (heq.symm.trans (hr x hx).2.1) hgne
      · exact hok.published x (hrest x hx) heq
    · rw [hrev]
      refine hok.live.imp_left ?_
      rintro ⟨x, hx, heq⟩
      rw [hsplit, mem_middle] at hx
      rcases hx with rfl | hx
      · exact absurd heq.symm hgne
      · exact ⟨x, (hmem x).mpr (.inr hx), heq⟩
  · rcases (hmem x).mp hx with hx | hx
    · simp [(hr x hx).1] at hp
    · obtain ⟨g, hg, hgo⟩ := h.pending x (hrest x hx) hp
      exact ⟨g, (hinfl g).mpr ⟨hg, hgo ▸ hne x hx⟩, hgo⟩

theorem giveWay_idle {r : Option OpenState} (hsplit : s.ot.opens = l₁ ++ o :: l₂)
    (hidle : o.persistPending = false)
    (hr : ∀ x ∈ r, x.persistPending = false ∧ x.stateid.other = o.stateid.other ∧ x.key = o.key)
    (hopens : t.ot.opens = l₁ ++ (r.toList ++ l₂))
    (hnext : t.ot.nextOtherSeq = s.ot.nextOtherSeq) (hinfl : t.inflight = s.inflight)
    (hrev : t.revoked = s.revoked) : WindowInv t :=
  h.giveWay hsplit hopens hr hnext (hinfl ▸ Sublist.refl _)
    (fun _ => by
      rw [hinfl]
      exact (and_iff_left_of_imp fun hf => (h.not_inflight (by simp [hsplit]) hidle hf).symm).symm)
    hrev

theorem giveWay_ended {r : Option OpenState} (hsplit : s.ot.opens = l₁ ++ o :: l₂)
    (hinfl : s.inflight = k₁ ++ f :: k₂) (hcur : o.stateid.other = f.other)
    (hr : ∀ x ∈ r, x.persistPending = false ∧ x.stateid.other = o.stateid.other ∧ x.key = o.key)
    (hopens : t.ot.opens = l₁ ++ (r.toList ++ l₂))
    (hnext : t.ot.nextOtherSeq = s.ot.nextOtherSeq) (hinfl' : t.inflight = k₁ ++ k₂)
    (hrev : t.revoked = s.revoked) : WindowInv t :=
  h.giveWay hsplit hopens hr hnext (by simp [hinfl, hinfl'])
    (fun _ => hinfl' ▸ h.inflight_of_ended hinfl hcur) hrev

theorem forget (hinfl : s.inflight = k₁ ++ f :: k₂)
    (hgone : ∀ x ∈ s.ot.opens, x.stateid.other ≠ f.other) (rows : List OpenRow) :
    WindowInv { s with inflight := k₁ ++ k₂, rows } := by
  refine { h with
    inflightOthers := (nodup_map_middle.mp (hinfl ▸ h.inflightOthers)).2
    flying := fun g hg => ?_
    pending := fun x hx hp => ?_ }
  · exact { h.flying g (hinfl ▸ mem_middle.mpr (.inr hg)) with }
  · obtain ⟨g, hg, hgo⟩ := h.pending x hx hp
    rw [hinfl, mem_middle] at hg
    rcases hg with rfl | hg
    · exact absurd hgo.symm (hgone x hx)
    · exact ⟨g, hg, hgo⟩

theorem record (hinfl : s.inflight = k₁ ++ f :: k₂) (put : Option PutStatus)
    (rows : List OpenRow) :
    WindowInv { s with inflight := k₁ ++ { f with put } :: k₂, rows } := by
  refine { h with inflightOthers := ?_, flying := fun g hg => ?_, pending := fun x hx hp => ?_ }
  · have hothers := h.inflightOthers
    simp only [hinfl, map_append, map_cons] at hothers ⊢
    exact hothers
  · rcases mem_middle.mp hg with rfl | hg
    · exact { h.flying f (by simp [hinfl]) with }
    · exact { h.flying g (hinfl ▸ mem_middle.mpr (.inr hg)) with }
  · obtain ⟨g, hg, hgo⟩ := h.pending x hx hp
    rw [hinfl, mem_middle] at hg
    rcases hg with rfl | hg
    · exact ⟨_, mem_middle.mpr (.inl rfl), hgo⟩
    · exact ⟨g, mem_middle.mpr (.inr hg), hgo⟩

theorem revoke (keep : OpenState → Bool) :
    WindowInv (s.revoke { s.ot with opens := s.ot.opens.filter keep }) := by
  have hsub : (s.ot.opens.filter keep).Sublist s.ot.opens := filter_sublist
  refine ⟨h.others.sublist (hsub.map _), h.keys.sublist (hsub.map _),
    fun x hx => h.minted x (hsub.subset hx), h.inflightOthers, fun f hf => ?_,
    fun x hx => h.pending x (hsub.subset hx)⟩
  obtain ⟨hminted, hpub, hcons, hlive⟩ := h.flying f hf
  refine ⟨hminted, fun x hx => hpub x (hsub.subset hx), hcons, ?_⟩
  simp only [OpenSys.revoke, mem_append]
  rcases hlive with ⟨x, hx, heq⟩ | hrev
  · by_cases hk : keep x = true
    · exact .inl ⟨x, mem_filter.mpr ⟨hx, hk⟩, heq⟩
    · refine .inr (.inl (mem_map.mpr ⟨x, mem_filter.mpr ⟨hx, ?_⟩, heq⟩))
      simp [hk]
  · exact .inr (.inr hrev)

/-- Publishing a state with its OPEN in flight: `o'` either is new or replaces an idle
state with the same stateid and owner. -/
theorem launch (o' : OpenState) (f : InflightOpen) (rest : List OpenState)
    (hrest : ∀ x ∈ rest, x ∈ s.ot.opens)
    (hlive : ∀ x ∈ s.ot.opens, x ∈ rest ∨ (x.stateid.other = o'.stateid.other ∧
      x.persistPending = false)) (hopens : ∀ x, x ∈ t.ot.opens ↔ x = o' ∨ x ∈ rest)
    (hothers : (t.ot.opens.map fun x => x.stateid.other).Nodup)
    (hkeys : (t.ot.opens.map OpenState.key).Nodup)
    (hnew : ∀ x ∈ rest, x.stateid.other ≠ o'.stateid.other)
    (hfresh : ∀ g ∈ s.inflight, g.other ≠ o'.stateid.other)
    (hle : s.ot.nextOtherSeq ≤ t.ot.nextOtherSeq)
    (hmint : o'.stateid.other.tail < t.ot.nextOtherSeq) (hpub : o' = f.published)
    (hcons : f.Consistent) (hinfl : t.inflight = f :: s.inflight) (hrev : t.revoked = s.revoked) :
    WindowInv t := by
  have hfo : o'.stateid.other = f.other := congrArg (fun x => x.stateid.other) hpub
  refine ⟨hothers, hkeys, fun x hx => ?_, ?_, fun g hg => ?_, fun x hx hp => ?_⟩
  · rcases (hopens x).mp hx with rfl | hx
    · exact hmint
    · exact (h.minted x (hrest x hx)).trans_le hle
  · rw [hinfl]
    exact nodup_map_cons.mpr ⟨fun g hg => hfo ▸ hfresh g hg, h.inflightOthers⟩
  · rw [hinfl, mem_cons] at hg
    rcases hg with rfl | hg
    · refine ⟨hfo ▸ hmint, fun x hx heq => ?_, hcons, .inl ⟨o', (hopens o').mpr (.inl rfl), hfo⟩⟩
      rcases (hopens x).mp hx with rfl | hx
      · exact hpub
      · exact absurd (heq.trans hfo.symm) (hnew x hx)
    · have hok := h.flying g hg
      refine ⟨hok.minted.trans_le hle, fun x hx heq => ?_, hok.consistent, ?_⟩
      · rcases (hopens x).mp hx with rfl | hx
        · exact absurd heq.symm (hfresh g hg)
        · exact hok.published x (hrest x hx) heq
      · rw [hrev]
        refine hok.live.imp_left ?_
        rintro ⟨x, hx, heq⟩
        rcases hlive x hx with hx | ⟨hxo, -⟩
        · exact ⟨x, (hopens x).mpr (.inr hx), heq⟩
        · exact absurd (heq.symm.trans hxo) (hfresh g hg)
  · rw [hinfl]
    rcases (hopens x).mp hx with rfl | hx
    · exact ⟨f, by simp, hfo.symm⟩
    · obtain ⟨g, hg, hgo⟩ := h.pending x (hrest x hx) hp
      exact ⟨g, by simp [hg], hgo⟩

end

end WindowInv

variable (ot : OpenTable) (existing : OpenState) (a : OpenArgs)

theorem key_ne_of_findOwnerOpen_none {ot a}
    (h : findOwnerOpen ot a.fileid a.clientid a.openOwner = none) {x} (hx : x ∈ ot.opens) :
    x.key ≠ (freshState ot a).key := by
  intro hk
  simp only [OpenState.key, freshState, Prod.mk.injEq] at hk
  exact List.find?_eq_none.mp h x hx (isOwnerOpen_iff.mpr hk)

/-- **Every action keeps the invariant of the window.** -/
theorem windowInv_openStep {s t op} (h : WindowInv s) (hstep : openStep s op = some t) :
    WindowInv t := by
  cases openStep_effect hstep with
  | reject n hn =>
    exact { h with
      minted := fun o ho => (h.minted o ho).trans_le hn
      flying := fun f hf =>
        have ⟨hminted, hpub, hcons, hlive⟩ := h.flying f hf
        ⟨hminted.trans_le hn, hpub, hcons, hlive⟩ }
  | @upgrade _ a existing _ _ hsplit hfind hidle =>
    have hex : existing ∈ s.ot.opens := by simp [hsplit]
    cases hd : s.ot.durable with
    | false =>
      refine h.giveWay_idle (r := some _) hsplit hidle ?_ rfl rfl
        (by simp [launch, OpenTable.window, hd]) rfl
      rintro _ ⟨⟩
      exact ⟨hd, rfl, rfl⟩
    | true =>
      obtain ⟨hfile, hclient, howner⟩ := isOwnerOpen_iff.mp (List.find?_some hfind)
      have hne := (nodup_map_middle.mp (hsplit ▸ h.others)).1
      refine h.launch _
        ⟨upgradeWrite s.ot existing a, none, some existing⟩ _
        (fun x hx => hsplit ▸ mem_middle.mpr (.inr hx)) (fun x hx => ?_)
        (fun x => mem_middle) ?_ ?_ hne
        (fun g hg => (h.not_inflight hex hidle hg).symm) le_rfl (h.minted existing hex)
        ?_ ?_ (by simp [launch, OpenTable.window, hd]) rfl
      · rw [hsplit, mem_middle] at hx
        rcases hx with rfl | hx
        · exact .inr ⟨rfl, hidle⟩
        · exact .inl hx
      · simpa [upgradedState, hsplit] using h.others
      · simpa [upgradedState, OpenState.key, hsplit] using h.keys
      · simp [upgradedState, InflightOpen.published, InflightOpen.other, upgradeWrite,
          openRowFill, hd, hfile, hclient, howner]
      · simp [InflightOpen.Consistent, InflightOpen.published, InflightOpen.other,
          upgradeWrite, openRowFill, upgradedState, ← hfile, ← hclient, ← howner, ← hidle,
          within_or_left]
  | @fresh _ a hfind =>
    have hlt : ∀ o ∈ s.ot.opens, o.stateid.other ≠ makeStateidOther s.ot := fun o ho heq => by
      have := h.minted o ho
      simp [heq, makeStateidOther] at this
    have hinfl : ∀ g ∈ s.inflight, g.other ≠ makeStateidOther s.ot := fun g hg heq => by
      have := (h.flying g hg).minted
      simp [heq, makeStateidOther] at this
    have hothers : ((freshState s.ot a :: s.ot.opens).map fun o => o.stateid.other).Nodup :=
      nodup_map_cons.mpr ⟨hlt, h.others⟩
    have hkeys : ((freshState s.ot a :: s.ot.opens).map OpenState.key).Nodup :=
      nodup_map_cons.mpr ⟨fun o ho => key_ne_of_findOwnerOpen_none hfind ho, h.keys⟩
    cases hd : s.ot.durable with
    | false =>
      have hidle : (freshState s.ot a).persistPending = false := hd
      simp only [PnfsLattice.launch, OpenTable.window, hd, Bool.false_eq_true, if_false,
        map_none, toList_none, nil_append]
      refine ⟨hothers, hkeys, forall_mem_cons.mpr ⟨Nat.lt_succ_self _, fun o ho => ?_⟩,
        h.inflightOthers, fun f hf => ?_, forall_mem_cons.mpr ⟨fun hp => ?_, h.pending⟩⟩
      · exact (h.minted o ho).trans (Nat.lt_succ_self _)
      · obtain ⟨hminted, hpub, hcons, hlive⟩ := h.flying f hf
        refine ⟨hminted.trans (Nat.lt_succ_self _), forall_mem_cons.mpr
          ⟨fun heq => absurd heq.symm (hinfl f hf), hpub⟩, hcons, hlive.imp_left ?_⟩
        rintro ⟨o, ho, heq⟩
        exact ⟨o, mem_cons_of_mem _ ho, heq⟩
      · simp [hidle] at hp
    | true =>
      exact h.launch _ ⟨freshWrite s.ot a, none, none⟩ _
        (fun x hx => hx) (fun x hx => .inl hx) (fun x => mem_cons) hothers hkeys hlt
        hinfl (Nat.le_succ _) (Nat.lt_succ_self _)
        (by simp [freshState, InflightOpen.published, InflightOpen.other, freshWrite,
          openRowFill, hd])
        (by simp [InflightOpen.Consistent, freshWrite])
        (by simp [PnfsLattice.launch, OpenTable.window, hd]) rfl
  | put hinfl => exact h.record hinfl _ _
  | commitGone hinfl _ hgone => exact h.forget hinfl hgone _
  | commitDone hinfl _ _ hsplit hcur =>
    refine h.giveWay_ended (r := some _) hsplit hinfl hcur ?_ rfl rfl rfl rfl
    rintro _ ⟨⟩
    exact ⟨rfl, rfl, rfl⟩
  | unwindFresh hinfl _ _ hsplit hcur =>
    exact h.giveWay_ended (r := none) hsplit hinfl hcur (by simp) rfl rfl rfl rfl
  | unwindUpgrade hinfl _ _ hsplit hcur =>
    refine h.giveWay_ended (r := some _) hsplit hinfl hcur ?_ rfl rfl rfl rfl
    rintro _ ⟨⟩
    unfold rollBack
    split <;> exact ⟨rfl, rfl, rfl⟩
  | close hsplit _ hidle => exact h.giveWay_idle (r := none) hsplit hidle (by simp) rfl rfl rfl rfl
  | downgrade hsplit _ hidle =>
    refine h.giveWay_idle (r := some _) hsplit hidle ?_ rfl rfl rfl rfl
    rintro _ ⟨⟩
    exact ⟨hidle, rfl, rfl⟩
  | revoke keep => exact h.revoke keep

/-- The invariant holds in every state a run reaches, whatever its steps meet. -/
theorem windowInv_of_reachable {ok s} (h : Reachable OpenInit openStep ok s) : WindowInv s := by
  refine h.invariant ?_ fun _ _ _ hs _ hstep => windowInv_openStep hs hstep
  rintro _ ⟨_, _, _, _, _, rfl⟩
  constructor <;> simp [openSysInit, openTableInit]

/-- **The open table at all times**: one state for a stateid, one for an owner and file, and one
OPEN in flight for each pending state. -/
theorem open_table_ordered (mdsId seed cat bootEpoch skip) (run : List OpenOp) :
    AllStates openStep WindowInv (openSysInit (openTableInit mdsId seed cat bootEpoch skip)) run :=
  allStates_invariant (fun _ _ _ => windowInv_openStep) run
    (@windowInv_of_reachable anyStep _ (.start ⟨_, _, _, _, _, rfl⟩))

/-! ## Atomicity of the window -/

section Atomic

variable {s t : OpenSys} {o : OpenState} {f : InflightOpen}

theorem pending_kept (ho : o ∈ s.ot.opens) (hp : o.persistPending = true) {op}
    (hstep : openStep s op = some t) (hrev : op.isRevocation = false)
    (hown : ∀ d, op ≠ .commit o.stateid.other d) : o ∈ t.ot.opens := by
  have hstay : ∀ {x : OpenState} {l₁ l₂ : List OpenState}, s.ot.opens = l₁ ++ x :: l₂ →
      o ≠ x → o ∈ l₁ ++ l₂ := fun hsplit hne =>
    (mem_middle.mp (hsplit ▸ ho)).resolve_left hne
  have hidle : ∀ {x : OpenState}, x.persistPending = false → o ≠ x := by
    rintro x hx rfl
    simp [hp] at hx
  have hother : ∀ {g : InflightOpen} {x : OpenState} {d : Bool}, op = .commit g.other d →
      x.stateid.other = g.other → o ≠ x := by
    rintro g x d rfl hx rfl
    exact hown d (by rw [hx])
  cases hop : openStep_effect hstep with
  | reject | put | commitGone => exact ho
  | upgrade hsplit _ hex | downgrade hsplit _ hex =>
    exact mem_middle.mpr (.inr (hstay hsplit (hidle hex)))
  | fresh => exact mem_cons_of_mem _ ho
  | commitDone _ _ _ hsplit hcur | unwindUpgrade _ _ _ hsplit hcur =>
    exact mem_middle.mpr (.inr (hstay hsplit (hother rfl hcur)))
  | unwindFresh _ _ _ hsplit hcur => exact hstay hsplit (hother rfl hcur)
  | close hsplit _ hex => exact hstay hsplit (hidle hex)
  | revoke _ hrevoke => simp [hrevoke] at hrev

section

variable (h : WindowInv s)

include h

theorem WindowInv.findByOther_eq (ho : o ∈ s.ot.opens) {other} (heq : o.stateid.other = other) :
    findByOther s.ot other = some o := by
  cases hf : findByOther s.ot other with
  | none => exact absurd (hasOther_iff.mpr heq) (List.find?_eq_none.mp hf o ho)
  | some x =>
    have hx : x ∈ s.ot.opens := mem_of_find?_eq_some hf
    have hxo : x.stateid.other = other := hasOther_iff.mp (List.find?_some hf)
    exact congrArg some (inj_on_of_nodup_map h.others hx ho (hxo.trans heq.symm))

theorem WindowInv.findOwnerOpen_eq (ho : o ∈ s.ot.opens) :
    findOwnerOpen s.ot o.fileid o.clientid o.openOwner = some o := by
  cases hf : findOwnerOpen s.ot o.fileid o.clientid o.openOwner with
  | none => exact absurd (isOwnerOpen_iff.mpr ⟨rfl, rfl, rfl⟩) (List.find?_eq_none.mp hf o ho)
  | some x =>
    have hx : x ∈ s.ot.opens := mem_of_find?_eq_some hf
    have hk := isOwnerOpen_iff.mp (List.find?_some hf)
    exact congrArg some
      (inj_on_of_nodup_map h.keys hx ho (by simp [OpenState.key, hk]))

/-- CLOSE and OPEN_DOWNGRADE by the client of a pending state stop at the same check. -/
theorem WindowInv.check_delay (ho : o ∈ s.ot.opens) (hp : o.persistPending = true) {sid}
    (hsid : sid.other = o.stateid.other) :
    checkOpenStateid s.ot o.clientid sid = .error .delay := by
  simp [checkOpenStateid, h.findByOther_eq ho hsid.symm, hp]

/-- The commit of an OPEN in flight is enabled once its durable write has returned. -/
theorem WindowInv.commit_enabled (hf : f ∈ s.inflight) {pst} (hput : f.put = some pst) (d : Bool) :
    ∃ t, openStep s (.commit f.other d) = some t := by
  have hfind : s.inflight.find? (hasKey f.other) = some f := by
    cases hfind : s.inflight.find? (hasKey f.other) with
    | none => exact absurd (hasKey_iff.mpr rfl) (List.find?_eq_none.mp hfind f hf)
    | some g =>
      have hg : g ∈ s.inflight := mem_of_find?_eq_some hfind
      exact congrArg some (inj_on_of_nodup_map h.inflightOthers hg hf
        (hasKey_iff.mp (List.find?_some hfind)))
  simp only [openStep, hfind, hput, map_some]
  exact ⟨_, rfl⟩

/-- **A failed put is undone.**  Unless the state was revoked meanwhile, the commit leaves
for its client, owner and file what was there when the OPEN published, and nothing else
changes. -/
theorem WindowInv.failed_commit (hf : f ∈ s.inflight) (hput : f.put = some .failed) {d}
    (hstep : openStep s (.commit f.other d) = some t) :
    (f.other ∈ s.revoked ∧ t.ot.opens = s.ot.opens) ∨
    (t.ot.opens.filter (fun o => o.key = f.published.key) = f.before.toList ∧
      t.ot.opens.filter (fun o => o.key ≠ f.published.key) =
        s.ot.opens.filter (fun o => o.key ≠ f.published.key)) := by
  -- The OPEN the commit ends is `f`, as no other one in flight has its key.
  have hsame : ∀ {g : InflightOpen} {k₁ k₂ : List InflightOpen} {e : Bool},
      s.inflight = k₁ ++ g :: k₂ → OpenOp.commit f.other d = .commit g.other e → g = f := by
    intro g _ _ e hinfl heq
    simp only [OpenOp.commit.injEq] at heq
    exact inj_on_of_nodup_map h.inflightOthers (by simp [hinfl]) hf heq.1.symm
  generalize hop : OpenOp.commit f.other d = op at hstep hsame
  cases openStep_effect hstep with
  | reject n _ hcommit => exact absurd hop.symm (hcommit _ _)
  | commitGone hinfl _ hgone =>
    obtain rfl := hsame hinfl rfl
    refine .inl ⟨(h.flying _ hf).live.resolve_left ?_, rfl⟩
    rintro ⟨o, ho, heq⟩
    exact hgone o ho heq
  | commitDone hinfl hput' hpst =>
    obtain rfl := hsame hinfl rfl
    exact absurd (mem_unique hput' hput) hpst
  | @unwindFresh _ g _ _ cur _ _ hinfl _ hpath hsplit hcur =>
    obtain rfl := hsame hinfl rfl
    obtain rfl : cur = g.published := (h.flying g hf).published cur (by simp [hsplit]) hcur
    have hne := (nodup_map_middle.mp (hsplit ▸ h.keys)).1
    have hbefore : g.before = none := by
      simpa [InflightOpen.Consistent, hpath] using (h.flying g hf).consistent
    refine .inr ⟨?_, ?_⟩
    · rw [hbefore]
      exact filter_eq_nil_iff.mpr fun o ho => by simpa using hne o ho
    · rw [hsplit]
      exact filter_ne_middle.symm
  | @unwindUpgrade _ g _ _ cur _ _ ps pa pd ns hinfl _ hpath hsplit hcur =>
    obtain rfl := hsame hinfl rfl
    obtain rfl : cur = g.published := (h.flying g hf).published cur (by simp [hsplit]) hcur
    have hne := (nodup_map_middle.mp (hsplit ▸ h.keys)).1
    have hcons := (h.flying g hf).consistent
    simp only [InflightOpen.Consistent, hpath] at hcons
    obtain ⟨hbefore, hns, -⟩ := hcons
    have hkey : (rollBack g.published ps pa pd ns).key = g.published.key := by
      unfold rollBack
      split <;> rfl
    have hback : g.before = some (rollBack g.published ps pa pd ns) := by
      have hseq : g.published.stateid.seqid = ns := hns.symm
      rw [hbefore, rollBack, if_pos hseq]
      rfl
    refine .inr ⟨?_, ?_⟩
    · rw [hback, ← hkey]
      exact filter_eq_middle fun b hb => hkey ▸ hne b hb
    · rw [hsplit, ← hkey, filter_ne_middle, hkey, filter_ne_middle]
  | upgrade | fresh | put | close | downgrade => cases hop
  | revoke _ hrevoke => subst hop; cases hrevoke

end

/-- **Atomicity of the unlocked persist window.**  In every reachable state: (a) a pending
state is left alone by every action but a revocation and the commit of its own OPEN, and
a valid same-owner OPEN, a CLOSE and an OPEN_DOWNGRADE by its client answer DELAY; (b) an
OPEN whose put failed can commit, answers DELAY, and leaves for its client, owner and
file exactly the state that was there when it published and every other open as it was,
unless its state was revoked meanwhile, when nothing changes. -/
theorem persist_window_atomic (h : Reachable OpenInit openStep anyStep s) :
    (∀ o ∈ s.ot.opens, o.persistPending = true →
      (∀ op t, openStep s op = some t → op.isRevocation = false →
        (∀ d, op ≠ .commit o.stateid.other d) → o ∈ t.ot.opens) ∧
      (∀ alloc access deny, access &&& shareAccessBoth ≠ 0 → o.openOwner.length ≤ openOwnerMax →
        (openPublish s.ot alloc ⟨o.clientid, o.openOwner, o.fileid, access, deny⟩).status =
          .error .delay) ∧
      (∀ seqid, (openStateClose s.ot o.clientid ⟨seqid, o.stateid.other⟩).2 = .error .delay) ∧
      (∀ seqid access deny,
        (openStateDowngrade s.ot o.clientid ⟨seqid, o.stateid.other⟩ access deny).2 =
          .error .delay)) ∧ (∀ f ∈ s.inflight, f.put = some .failed →
      (openCommit s.ot f.write .failed).status = .error .delay ∧
      ∀ d, ∃ t, openStep s (.commit f.other d) = some t ∧
        ((f.other ∈ s.revoked ∧ t.ot.opens = s.ot.opens) ∨
        (t.ot.opens.filter (fun o => o.key = f.published.key) = f.before.toList ∧
          t.ot.opens.filter (fun o => o.key ≠ f.published.key) =
            s.ot.opens.filter (fun o => o.key ≠ f.published.key)))) := by
  have hinv := windowInv_of_reachable h
  refine ⟨fun o ho hp => ⟨fun _ t hstep hrev hown => pending_kept ho hp hstep hrev hown,
    fun _ access deny hacc hlen => ?_, fun seqid => ?_, fun _ access _ => ?_⟩,
    fun f hf hput => ⟨?_, fun d => ?_⟩⟩
  · have hargs : ¬ (access &&& shareAccessBoth = 0 ∨ openOwnerMax < o.openOwner.length) := by
      simp [hacc, hlen]
    simp only [openPublish, if_neg hargs, hinv.findOwnerOpen_eq ho, hp, if_true]
    rfl
  · simp [openStateClose, hinv.check_delay ho hp]
  · simp [openStateDowngrade, hinv.check_delay ho hp]
  · simp only [openCommit, if_true]
    split
    · rfl
    · split <;> rfl
  · obtain ⟨t, ht⟩ := hinv.commit_enabled hf hput d
    exact ⟨t, ht, hinv.failed_commit hf hput ht⟩

/-- An OPEN that is committed, then upgraded by a re-OPEN whose put fails. -/
def failedUpgrade : List OpenOp :=
  [.publish true ⟨11, [1], 3, 1, 0⟩, .put ⟨1, 7⟩ .ok, .commit ⟨1, 7⟩ true,
   .publish true ⟨11, [1], 3, 2, 1⟩, .put ⟨1, 7⟩ .failed]

/-- In the window of that re-OPEN the merged state is pending, a CLOSE answers DELAY, and
the commit restores access and seqid of the first OPEN. -/
theorem persist_window_atomic_failedUpgrade :
    ∃ s, exec openStep (openSysInit (openTableInit 1 7 true 0 false)) failedUpgrade = some s ∧
      s.ot.opens.map (fun o => (o.stateid.seqid, o.shareAccess, o.shareDeny,
        o.persistPending)) = [(2, 3, 1, true)] ∧
      (openStateClose s.ot 11 ⟨2, ⟨1, 7⟩⟩).2 = .error .delay ∧
      ∃ t, openStep s (.commit ⟨1, 7⟩ true) = some t ∧
        t.ot.opens.map (fun o => (o.stateid.seqid, o.shareAccess, o.shareDeny,
          o.persistPending)) = [(1, 1, 0, false)] := by
  have hall := persist_window_atomic (.run (openSysInit (openTableInit 1 7 true 0 false))
    failedUpgrade ⟨1, 7, true, 0, false, rfl⟩)
  refine ⟨_, rfl, by decide, (hall.1 _ (.head _) rfl).2.2.1 2, ?_⟩
  obtain ⟨t, ht, -⟩ := (hall.2 _ (.head _) rfl).2 true
  exact ⟨t, ht, by obtain rfl := some.inj ht; decide⟩

end Atomic

end PnfsLattice
