import PnfsLattice.Open.Window

/-!
# Write-through of open state

With a catalogue attached, opens are mirrored as durable rows keyed by stateid. OPEN
writes the row in its unlocked window and CLOSE deletes it. A revocation leaves the row
to the owner-reap lifecycle, and OPEN_DOWNGRADE does not write at all, so the two sides
agree up to the rows of revoked opens and the modes of downgraded ones.
-/

namespace PnfsLattice

open Lib List Option

/-- The row has the stateid, client and file of the open. -/
def RowFor (r : OpenRow) (o : OpenState) : Prop :=
  r.stateidOther = o.stateid.other ∧ r.clientid = o.clientid ∧ r.fileid = o.fileid

/-- The row also has the seqid and the share modes of the open. -/
def Mirrors (r : OpenRow) (o : OpenState) : Prop :=
  RowFor r o ∧ r.seqid = o.stateid.seqid ∧ r.shareAccess = o.shareAccess ∧
    r.shareDeny = o.shareDeny

/-- A server that writes opens through, at its start. -/
def DurableInit (s : OpenSys) : Prop :=
  ∃ mdsId seed bootEpoch, s = openSysInit (openTableInit mdsId seed true bootEpoch false)

/-- The durable writes of a step succeed. -/
def DurableOk (_ : OpenSys) : OpenOp → Prop
  | .put _ pst => pst = .ok
  | .commit _ delOk | .close _ _ delOk => delOk = true
  | _ => True

/-- **The agreement of table and rows, with the OPENs in flight.** -/
structure Agree (s : OpenSys) : Prop where
  durable : s.ot.durable = true
  rowKeys : (s.rows.map OpenRow.stateidOther).Nodup
  /-- A durable write that returned has succeeded, and its row is there. -/
  written : ∀ f ∈ s.inflight, ∀ pst, f.put = some pst → pst = .ok ∧ f.write.row ∈ s.rows
  /-- An open with no write in flight has its row, which mirrors it unless it was
  downgraded since. -/
  mirrored : ∀ o ∈ s.ot.opens, o.persistPending = false →
    ∃ r ∈ s.rows, RowFor r o ∧ (o.stateid.other ∉ s.downgraded → Mirrors r o)
  /-- A row is that of an open, or of one that was revoked. -/
  owned : ∀ r ∈ s.rows, (∃ o ∈ s.ot.opens, RowFor r o) ∨ r.stateidOther ∈ s.revoked

/-! ## The rows -/

variable {rows : List OpenRow} {s : OpenSys}

theorem mem_delRow {other r} : r ∈ delRow rows other ↔ r ∈ rows ∧ r.stateidOther ≠ other := by
  simp [delRow]

theorem mem_putRow {row r} :
    r ∈ putRow rows row ↔ r = row ∨ (r ∈ rows ∧ r.stateidOther ≠ row.stateidOther) := by
  simp [putRow]

theorem nodup_delRow (h : (rows.map OpenRow.stateidOther).Nodup) (other : Other) :
    ((delRow rows other).map OpenRow.stateidOther).Nodup :=
  h.sublist (filter_sublist.map _)

theorem nodup_putRow (h : (rows.map OpenRow.stateidOther).Nodup) (row : OpenRow) :
    ((putRow rows row).map OpenRow.stateidOther).Nodup := by
  refine nodup_map_cons.mpr ⟨fun r hr hro => ?_, h.sublist (filter_sublist.map _)⟩
  simp [hro] at hr

/-! ## One step -/

namespace Agree

variable {s t : OpenSys}

/-- A publish writes no row; the open it adds or rewrites is pending. -/
theorem publish (h : Agree s) (o' : OpenState) (f : InflightOpen) {rest : List OpenState}
    (hrest : ∀ x ∈ rest, x ∈ s.ot.opens ∧ x.stateid.other ≠ o'.stateid.other)
    (hlive : ∀ x ∈ s.ot.opens, x ∈ rest ∨
      (x.stateid.other = o'.stateid.other ∧ x.clientid = o'.clientid ∧ x.fileid = o'.fileid))
    (hopens : ∀ x, x ∈ t.ot.opens ↔ x = o' ∨ x ∈ rest)
    (hpend : o'.persistPending = true) (hdur : t.ot.durable = true)
    (hrows : t.rows = s.rows) (hrev : t.revoked = s.revoked)
    (hdown : t.downgraded = s.downgraded.filter fun x => x != o'.stateid.other)
    (hput : f.put = none) (hinfl : t.inflight = f :: s.inflight) : Agree t := by
  refine ⟨hdur, hrows ▸ h.rowKeys, fun g hg pst hgput => ?_, fun x hx hidle => ?_, fun r hr => ?_⟩
  · rw [hinfl, mem_cons] at hg
    rcases hg with rfl | hg
    · simp [hput] at hgput
    · exact hrows ▸ h.written g hg pst hgput
  · rcases (hopens x).mp hx with rfl | hx
    · simp [hpend] at hidle
    · obtain ⟨hxs, hne⟩ := hrest x hx
      obtain ⟨r, hr, hrow, hmir⟩ := h.mirrored x hxs hidle
      refine ⟨r, hrows ▸ hr, hrow, fun hd => hmir fun hmem => hd ?_⟩
      rw [hdown]
      exact mem_filter.mpr ⟨hmem, by simpa using hne⟩
  · rw [hrows] at hr
    rw [hrev]
    refine (h.owned r hr).imp_left ?_
    rintro ⟨x, hx, hro, hrc, hrf⟩
    rcases hlive x hx with hx' | ⟨ho, hc, hf⟩
    · exact ⟨x, (hopens x).mpr (.inr hx'), hro, hrc, hrf⟩
    · exact ⟨o', (hopens o').mpr (.inl rfl), hro.trans ho, hrc.trans hc, hrf.trans hf⟩

variable {f : InflightOpen} {k₁ k₂ : List InflightOpen} {l₁ l₂ : List OpenState}

section

variable (h : Agree s)

include h

theorem put (hinv : WindowInv s) (hinfl : s.inflight = k₁ ++ f :: k₂) : Agree { s with
      inflight := k₁ ++ { f with put := some .ok } :: k₂
      rows := putRow s.rows f.write.row } := by
  have hf : f ∈ s.inflight := by simp [hinfl]
  have hne := (nodup_map_middle.mp (hinfl ▸ hinv.inflightOthers)).1
  refine ⟨h.durable, nodup_putRow h.rowKeys _, fun g hg pst hput => ?_, fun o ho hidle => ?_,
    fun r hr => ?_⟩
  · rcases mem_middle.mp hg with rfl | hg
    · exact ⟨(some.inj hput).symm, mem_putRow.mpr (.inl rfl)⟩
    · obtain ⟨hok, hrow⟩ := h.written g (hinfl ▸ mem_middle.mpr (.inr hg)) pst hput
      exact ⟨hok, mem_putRow.mpr (.inr ⟨hrow, hne g hg⟩)⟩
  · obtain ⟨r, hr, hrow, hmir⟩ := h.mirrored o ho hidle
    refine ⟨r, mem_putRow.mpr (.inr ⟨hr, fun heq => ?_⟩), hrow, hmir⟩
    exact hinv.not_inflight ho hidle hf (hrow.1.symm.trans heq)
  · rcases mem_putRow.mp hr with rfl | ⟨hr, -⟩
    · refine (hinv.flying f hf).live.imp_left ?_
      rintro ⟨o, ho, heq⟩
      refine ⟨o, ho, ?_⟩
      rw [(hinv.flying f hf).published o ho heq]
      exact ⟨rfl, rfl, rfl⟩
    · exact h.owned r hr

/-- A commit that finds its state revoked may delete its own row, and no other. -/
theorem commitGone (hinv : WindowInv s) (hinfl : s.inflight = k₁ ++ f :: k₂)
    (hgone : ∀ o ∈ s.ot.opens, o.stateid.other ≠ f.other) {rows}
    (hrows : rows = delRow s.rows f.other ∨ rows = s.rows) :
    Agree { s with inflight := k₁ ++ k₂, rows := rows } := by
  have hne := (nodup_map_middle.mp (hinfl ▸ hinv.inflightOthers)).1
  have hsub : ∀ r ∈ rows, r ∈ s.rows := by
    rcases hrows with rfl | rfl
    · exact fun r hr => (mem_delRow.mp hr).1
    · exact fun r hr => hr
  have hkeep : ∀ r ∈ s.rows, r.stateidOther ≠ f.other → r ∈ rows := by
    rcases hrows with rfl | rfl
    · exact fun r hr hro => mem_delRow.mpr ⟨hr, hro⟩
    · exact fun r hr _ => hr
  refine ⟨h.durable, ?_, fun g hg pst hput => ?_, fun o ho hidle => ?_,
    fun r hr => h.owned r (hsub r hr)⟩
  · rcases hrows with rfl | rfl
    · exact nodup_delRow h.rowKeys _
    · exact h.rowKeys
  · obtain ⟨hok, hrow⟩ := h.written g (hinfl ▸ mem_middle.mpr (.inr hg)) pst hput
    exact ⟨hok, hkeep _ hrow (hne g hg)⟩
  · obtain ⟨r, hr, hrow, hmir⟩ := h.mirrored o ho hidle
    exact ⟨r, hkeep r hr (hrow.1 ▸ hgone o ho), hrow, hmir⟩

theorem commitDone (hinv : WindowInv s) {cur pst} (hinfl : s.inflight = k₁ ++ f :: k₂)
    (hput : f.put = some pst) (hsplit : s.ot.opens = l₁ ++ cur :: l₂)
    (hcur : cur.stateid.other = f.other) : Agree { s with
      ot := { s.ot with opens := l₁ ++ { cur with persistPending := false } :: l₂ }
      inflight := k₁ ++ k₂ } := by
  have hf : f ∈ s.inflight := by simp [hinfl]
  obtain rfl : cur = f.published := (hinv.flying f hf).published cur (by simp [hsplit]) hcur
  refine ⟨h.durable, h.rowKeys,
    fun g hg pst hput => h.written g (hinfl ▸ mem_middle.mpr (.inr hg)) pst hput,
    fun o ho hidle => ?_, fun r hr => ?_⟩
  · rcases mem_middle.mp ho with rfl | ho
    · have hmir : Mirrors f.write.row { f.published with persistPending := false } :=
        ⟨⟨rfl, rfl, rfl⟩, rfl, rfl, rfl⟩
      exact ⟨f.write.row, (h.written f hf pst hput).2, hmir.1, fun _ => hmir⟩
    · exact h.mirrored o (hsplit ▸ mem_middle.mpr (.inr ho)) hidle
  · refine (h.owned r hr).imp_left ?_
    rintro ⟨o, ho, hrow⟩
    rcases mem_middle.mp (hsplit ▸ ho) with rfl | ho
    · exact ⟨_, mem_middle.mpr (.inl rfl), hrow⟩
    · exact ⟨o, mem_middle.mpr (.inr ho), hrow⟩

theorem close (hinv : WindowInv s) {os} (hsplit : s.ot.opens = l₁ ++ os :: l₂)
    (hidle : os.persistPending = false) : Agree { s with
      ot := { s.ot with opens := l₁ ++ l₂ }, rows := delRow s.rows os.stateid.other } := by
  have hos : os ∈ s.ot.opens := by simp [hsplit]
  have hne := (nodup_map_middle.mp (hsplit ▸ hinv.others)).1
  refine ⟨h.durable, nodup_delRow h.rowKeys _, fun f hf pst hput => ?_, fun o ho hp => ?_,
    fun r hr => ?_⟩
  · obtain ⟨hok, hrow⟩ := h.written f hf pst hput
    exact ⟨hok, mem_delRow.mpr ⟨hrow, (hinv.not_inflight hos hidle hf).symm⟩⟩
  · obtain ⟨r, hr, hrow, hmir⟩ := h.mirrored o (hsplit ▸ mem_middle.mpr (.inr ho)) hp
    exact ⟨r, mem_delRow.mpr ⟨hr, hrow.1 ▸ hne o ho⟩, hrow, hmir⟩
  · obtain ⟨hr, hro⟩ := mem_delRow.mp hr
    refine (h.owned r hr).imp_left ?_
    rintro ⟨o, ho, hrow⟩
    rcases mem_middle.mp (hsplit ▸ ho) with rfl | ho
    · exact absurd hrow.1 hro
    · exact ⟨o, ho, hrow⟩

/-- OPEN_DOWNGRADE writes no row; the open counts as downgraded from then on. -/
theorem downgrade {os os'} (hsplit : s.ot.opens = l₁ ++ os :: l₂)
    (hidle : os.persistPending = false) (hother : os'.stateid.other = os.stateid.other)
    (hclient : os'.clientid = os.clientid) (hfile : os'.fileid = os.fileid) : Agree { s with
      ot := { s.ot with opens := l₁ ++ os' :: l₂ }
      downgraded := os.stateid.other :: s.downgraded } := by
  have hos : os ∈ s.ot.opens := by simp [hsplit]
  refine ⟨h.durable, h.rowKeys, h.written, fun o ho hp => ?_, fun r hr => ?_⟩
  · rcases mem_middle.mp ho with rfl | ho
    · obtain ⟨r, hr, ⟨hro, hrc, hrf⟩, -⟩ := h.mirrored os hos hidle
      refine ⟨r, hr, ⟨hro.trans hother.symm, hrc.trans hclient.symm, hrf.trans hfile.symm⟩, ?_⟩
      exact fun hd => absurd (by simp [hother]) hd
    · obtain ⟨r, hr, hrow, hmir⟩ := h.mirrored o (hsplit ▸ mem_middle.mpr (.inr ho)) hp
      exact ⟨r, hr, hrow, fun hd => hmir fun hm => hd (mem_cons_of_mem _ hm)⟩
  · refine (h.owned r hr).imp_left ?_
    rintro ⟨o, ho, hro, hrc, hrf⟩
    rcases mem_middle.mp (hsplit ▸ ho) with rfl | ho
    · exact ⟨os', mem_middle.mpr (.inl rfl), hro.trans hother.symm, hrc.trans hclient.symm,
        hrf.trans hfile.symm⟩
    · exact ⟨o, mem_middle.mpr (.inr ho), hro, hrc, hrf⟩

/-- A revocation leaves the rows of the opens it removes, and notes their stateids. -/
theorem revoke (keep : OpenState → Bool) :
    Agree (s.revoke { s.ot with opens := s.ot.opens.filter keep }) := by
  refine ⟨h.durable, h.rowKeys, h.written,
    fun o ho => h.mirrored o (mem_of_mem_filter ho), fun r hr => ?_⟩
  simp only [OpenSys.revoke, mem_append]
  rcases h.owned r hr with ⟨o, ho, hrow⟩ | hrev
  · by_cases hk : keep o = true
    · exact .inl ⟨o, mem_filter.mpr ⟨ho, hk⟩, hrow⟩
    · refine .inr (.inl (mem_map.mpr ⟨o, mem_filter.mpr ⟨ho, ?_⟩, hrow.1.symm⟩))
      simp [hk]
  · exact .inr (.inr hrev)

end

end Agree

/-- **Every action whose durable writes succeed keeps the agreement.** -/
theorem agree_openStep {t : OpenSys} {op : OpenOp} (h : Agree s) (hinv : WindowInv s)
    (hok : DurableOk s op) (hstep : openStep s op = some t) : Agree t := by
  cases openStep_effect hstep with
  | reject => exact { h with }
  | @upgrade _ a existing _ _ hsplit =>
    have hne := (nodup_map_middle.mp (hsplit ▸ hinv.others)).1
    refine h.publish (upgradedState s.ot _ a)
      ⟨upgradeWrite s.ot existing a, none, some existing⟩
      (fun x hx => ⟨hsplit ▸ mem_middle.mpr (.inr hx), hne x hx⟩) (fun x hx => ?_)
      (fun x => mem_middle) h.durable h.durable rfl rfl rfl rfl
      (by simp [launch, OpenTable.window, h.durable])
    rcases mem_middle.mp (hsplit ▸ hx) with rfl | hx
    · exact .inr ⟨rfl, rfl, rfl⟩
    · exact .inl hx
  | @fresh _ a =>
    have hne : ∀ x ∈ s.ot.opens, x.stateid.other ≠ makeStateidOther s.ot := fun x hx heq => by
      have := hinv.minted x hx
      simp [heq, makeStateidOther] at this
    exact h.publish _ ⟨freshWrite s.ot a, none, none⟩
      (fun x hx => ⟨hx, hne x hx⟩) (fun x hx => .inl hx) (fun x => mem_cons) h.durable
      h.durable rfl rfl rfl rfl (by simp [launch, OpenTable.window, h.durable])
  | put hinfl =>
    obtain rfl : _ = PutStatus.ok := hok
    exact h.put hinv hinfl
  | commitGone hinfl _ hgone =>
    refine h.commitGone hinv hinfl hgone ?_
    split
    · exact .inl rfl
    · exact .inr rfl
  | commitDone hinfl hput _ hsplit hcur => exact h.commitDone hinv hinfl hput hsplit hcur
  | unwindFresh hinfl hput | unwindUpgrade hinfl hput =>
    exact absurd (h.written _ (by simp [hinfl]) _ hput).1 (by decide)
  | close hsplit hother hidle =>
    obtain rfl : _ = true := hok
    simp only [h.durable, Bool.and_self, if_true, ← hother]
    exact h.close hinv hsplit hidle
  | downgrade hsplit hother hidle =>
    rw [← hother]
    exact h.downgrade hsplit hidle rfl rfl rfl
  | revoke keep => exact h.revoke keep

theorem windowInv_of_durable (h : Reachable DurableInit openStep DurableOk s) : WindowInv s := by
  have hany : Reachable OpenInit openStep anyStep s := h.mono
    (fun _ ⟨mdsId, seed, bootEpoch, heq⟩ => ⟨mdsId, seed, true, bootEpoch, false, heq⟩)
    fun _ _ _ => trivial
  exact windowInv_of_reachable hany

theorem agree_of_reachable (h : Reachable DurableInit openStep DurableOk s) : Agree s := by
  refine h.invariant_of (fun _ hs => windowInv_of_durable hs) ?_
    fun _ _ _ hinv hs hok hstep => agree_openStep hs hinv hok hstep
  rintro _ ⟨_, _, _, rfl⟩
  constructor <;> simp [openSysInit, openTableInit, OpenTable.durable]

/-! ## The result -/

/-- **Write-through agreement.**  When every durable write succeeds and no OPEN is in
flight: every open has a row with its stateid, client and file; every row whose open was
not revoked is that of an open; no two rows have the same stateid; and a row agrees with
its open in seqid and share modes unless the open was downgraded since its last OPEN. -/
theorem write_through_agreement {s : OpenSys}
    (h : Reachable DurableInit openStep DurableOk s) (hdone : s.inflight = []) : (∀ o ∈ s.ot.opens,
      ∃ r ∈ s.rows, RowFor r o ∧ (o.stateid.other ∉ s.downgraded → Mirrors r o)) ∧
    (∀ r ∈ s.rows, r.stateidOther ∉ s.revoked →
      ∃ o ∈ s.ot.opens, RowFor r o ∧ (o.stateid.other ∉ s.downgraded → Mirrors r o)) ∧
    s.rows.Pairwise (fun r r' => r.stateidOther ≠ r'.stateidOther) := by
  have hagree := agree_of_reachable h
  have hidle : ∀ o ∈ s.ot.opens, o.persistPending = false := by
    intro o ho
    by_contra hp
    obtain ⟨f, hf, -⟩ := (windowInv_of_durable h).pending o ho (by simpa using hp)
    simp [hdone] at hf
  refine ⟨fun o ho => hagree.mirrored o ho (hidle o ho), fun r hr hrev => ?_,
    pairwise_map.mp hagree.rowKeys⟩
  obtain ⟨o, ho, hrow⟩ := (hagree.owned r hr).resolve_right hrev
  obtain ⟨r', hr', hrow', hmir⟩ := hagree.mirrored o ho (hidle o ho)
  obtain rfl : r' = r :=
    inj_on_of_nodup_map hagree.rowKeys hr' hr (hrow'.1.trans hrow.1.symm)
  exact ⟨o, ho, hrow, hmir⟩

/-- An OPEN and its re-OPEN, both written through. -/
def reopened : List OpenOp :=
  [.publish true ⟨11, [1], 3, 1, 0⟩, .put ⟨1, 7⟩ .ok, .commit ⟨1, 7⟩ true,
   .publish true ⟨11, [1], 3, 2, 0⟩, .put ⟨1, 7⟩ .ok, .commit ⟨1, 7⟩ true]

/-- The one row has the seqid and the merged access of the second OPEN. -/
theorem write_through_agreement_reopened :
    ∃ s, exec openStep (openSysInit (openTableInit 1 7 true 0 false)) reopened = some s ∧
      s.rows.map (fun r => (r.seqid, r.shareAccess)) = [(2, 3)] ∧
      ∀ o ∈ s.ot.opens, ∃ r ∈ s.rows,
        RowFor r o ∧ (o.stateid.other ∉ s.downgraded → Mirrors r o) := by
  have hreach : Reachable DurableInit openStep DurableOk _ :=
    .run (openSysInit (openTableInit 1 7 true 0 false)) reopened ⟨1, 7, 0, rfl⟩
      fun _ _ => ⟨trivial, fun _ _ => ⟨rfl, fun _ _ => ⟨rfl,
        fun _ _ => ⟨trivial, fun _ _ => ⟨rfl, fun _ _ => ⟨rfl, trivial⟩⟩⟩⟩⟩⟩
  exact ⟨_, rfl, by decide, (write_through_agreement hreach rfl).1⟩

/-- An OPEN whose client's lease then expires. -/
def expiredOpen : List OpenOp :=
  [.publish true ⟨11, [1], 3, 1, 0⟩, .put ⟨1, 7⟩ .ok, .commit ⟨1, 7⟩ true, .closeAllForClient 11]

/-- After that run nothing is in flight and the table is empty, but the row is still
there: rows and opens are not the same set. -/
theorem write_through_agreement_expiredOpen :
    ¬ ∀ s, Reachable DurableInit openStep DurableOk s → s.inflight = [] →
      (∀ o ∈ s.ot.opens, ∃ r ∈ s.rows, Mirrors r o) ∧
      (∀ r ∈ s.rows, ∃ o ∈ s.ot.opens, Mirrors r o) := by
  intro hall
  have hreach : Reachable DurableInit openStep DurableOk _ :=
    .run (openSysInit (openTableInit 1 7 true 0 false)) expiredOpen ⟨1, 7, 0, rfl⟩
      fun _ _ => ⟨trivial, fun _ _ => ⟨rfl, fun _ _ => ⟨rfl, fun _ _ => ⟨trivial, trivial⟩⟩⟩⟩
  obtain ⟨o, ho, -⟩ := (hall _ hreach rfl).2 _ (.head _)
  exact absurd ho (not_mem_nil)

end PnfsLattice
