import PnfsLattice.Cluster.RenameChange

/-!
# The steps of the cross-shard rename keep its invariant
-/

namespace PnfsLattice

open Lib List Option

/-! ## Every step keeps the invariant -/

section Step

variable {s s' : R2pcSys} {j : ℕ} {env : R2pcEnv} {job : R2pcJob}

variable {m : Memdb} {k : NameKey} {f : CatFileid} {r : JournalRec}

theorem ClaimOk.of_binding (h : m.binding k = some f) : ClaimOk m (k, f) :=
  fun _ hg => mem_unique hg h

theorem ClaimOk.of_free (h : m.binding k = none) : ClaimOk m (k, f) := by
  intro g hg
  cases h.symm.trans hg

theorem binding_of_direntFind {d} (h : m.direntFind k.1 k.2 = some d) :
    m.binding k = some d.childFileid := by
  rw [Memdb.binding, h]
  rfl

theorem R2pcInv.initiateStep (h : R2pcInv s) (hj : s.jobs[j]? = some job)
    (hst : initiateStep s j env job = some s') : R2pcInv s' := by
  have hmem := mem_of_getElem? hj
  have hfits := h.jobs job hmem
  cases job <;> simp only [PnfsLattice.initiateStep] at hst
  case sourceGet src dst =>
    split at hst
    next =>
      cases hst
      exact h.returned j
    next hd =>
      split at hst <;> cases hst
      · exact h.returned j
      · refine h.decided trivial (fun c hc => ?_) rfl
        rw [mem_singleton.mp hc]
        exact .of_binding (binding_of_direntFind hd)
  case childGetattr src dst child =>
    split at hst <;> cases hst
    · exact h.returned j
    · exact h.decided trivial hfits.claims rfl
  case allocTxn src dst child =>
    cases hst
    -- The number is new: everything that has one has a lower one.
    have halloc : RebindsOnly s.cat (memAllocFileid s.cat).2 none :=
      ⟨fun k => .inl rfl, Nat.le_succ _⟩
    have hw : R2pcInv (s.write none (memAllocFileid s.cat).2) := h.write halloc nofun none nofun
    have hnew : ∀ b ∈ (s.write none (memAllocFileid s.cat).2).begun,
        b.txn.id ≠ s.cat.nextFileid := by
      refine forall_mem_map.mpr fun b hb => ?_
      exact (h.below b hb).ne
    refine hw.goto ⟨trivial, (hw.jobs _ hmem).claims, ?_, ?_⟩ ?_
    · rintro id ⟨⟩
      exact ⟨Nat.lt_succ_self _, fun b hb hid => absurd hid (hnew b hb)⟩
    · rintro t ⟨⟩
      exact hnew
    · rintro id ⟨⟩ i - a hi ha
      exact absurd ((h.jobs a (mem_of_getElem? hi)).undecided _ ha).1 (lt_irrefl _)
  case putPrepared t =>
    split at hst <;> cases hst
    · exact h.returned j
    next journal hput =>
      have hund := hfits.undecided t.id rfl
      have hnew := hfits.unbegun t rfl
      have hrel : (s.goto j .returned).released t.id := h.released hj rfl
      have hbegun := (h.returned j).begin hnew hund.1 hrel
      have hknown : Tells (s.begin t).begun t.id fun b => b.txn = t :=
        ⟨⟨_, mem_cons_self, rfl⟩,
          forall_mem_cons.mpr ⟨fun _ => rfl, fun b hb hid => absurd hid (hnew b hb)⟩⟩
      have hundec : ∀ b ∈ (s.begin t).begun, b.txn.id = t.id → b.decided = false :=
        forall_mem_cons.mpr ⟨fun _ => rfl, hund.2⟩
      have hlog : R2pcInv { (s.goto j .returned).begin t with journal } :=
        hbegun.logPut hput (hknown.imp fun b hb => ⟨hb, nofun⟩) nofun fun _ _ => hundec
      have hsent : R2pcInv
          { (s.goto j .returned).begin t with journal, prepares := t :: s.prepares } :=
        hlog.send (forall_mem_cons.mpr ⟨.inr hknown, fun _ => .inl⟩) (fun _ => .inl) (fun _ => .inl)
      have hgoto : R2pcInv (R2pcSys.goto _ j (.awaitVote t)) :=
        hsent.goto ⟨hknown, hfits.claims, ?_, nofun⟩ ?_
      · simpa only [R2pcSys.goto, R2pcSys.begin, set_set] using hgoto
      all_goals rintro _ ⟨⟩
      · exact ⟨hund.1, hundec⟩
      · exact fun i _ a hi => hrel a (mem_of_getElem? hi)
  case awaitVote t =>
    split at hst
    next =>
      cases hst
      exact h.undecided hj hfits.ok (forall_mem_nil _) rfl nofun
    next vote _ =>
      split at hst <;> cases hst
      cases vote
      · exact h.undecided hj hfits.ok (forall_mem_nil _) rfl nofun
      · exact h.undecided hj hfits.ok hfits.claims rfl nofun
  case putCommitted t =>
    split at hst <;> cases hst
    · exact h.returned j
    next hput =>
      have hok : Tells s.begun t.id fun b => b.txn = t := hfits.ok
      have hclaim : ClaimOk s.cat (t.src, t.child) := hfits.claims _ (mem_singleton_self _)
      have hdec := (h.returned j).decide hput hok hclaim (h.released hj rfl)
      have hknown := hdec.commits t.id mem_cons_self
      have hgoto : R2pcInv (R2pcSys.goto _ j (.awaitCommit t [])) := hdec.decided
        ⟨hknown.and ⟨hknown.1, forall_mem_map.mpr fun b hb hid => ?_⟩ |>.imp fun b hb =>
          ⟨hb.2, hb.1⟩, forall_mem_nil _⟩ hfits.claims rfl
      · simpa only [R2pcSys.goto, R2pcSys.decide, set_set] using hgoto
      · rw [b.txn_decidedIf] at hid ⊢
        exact hok.2 b hb hid
  case putAborted t notify =>
    split at hst <;> cases hst
    · exact h.returned j
    next journal hput =>
      have hok : Tells s.begun t.id fun b => b.txn = t := hfits.ok
      have hund := hfits.undecided t.id rfl
      have hlog := h.logPut hput (hok.imp fun b hb => ⟨hb, nofun⟩) nofun fun _ _ => hund.2
      have hsent : R2pcInv { s with
        journal, aborts := if notify then t.id :: s.aborts else s.aborts } := { hlog with }
      exact hsent.undecided hj trivial (forall_mem_nil _) rfl nofun
  case delAborted t =>
    cases hst
    have hund := hfits.undecided t.id rfl
    exact (h.logDel fun _ b hb hid _ hdec => absurd hdec (by simp [hund.2 b hb hid])).returned j
  all_goals cases hst

theorem names_of_binding : m.names k f = true ↔ m.binding k = some f := by
  rw [Memdb.names, decide_eq_true_eq]

theorem names_congr {m' : Memdb} (h : m'.binding k = m.binding k) : m'.names k f = m.names k f := by
  rw [Memdb.names, Memdb.names, h]

theorem names_of_free (h : m.binding k = none) : m.names k f = false := by
  rw [Memdb.names, h]
  rfl

theorem Tells.write {P id} (h : Tells s.begun id P) (cat : Memdb) :
    Tells (s.write (some id) cat).begun id P := by
  have hown : ∀ b : Begun, b.txn.id = id → b.written (some id) s.cat cat = b := by
    intro b hb
    rw [Begun.written, if_pos (congrArg some hb.symm)]
  constructor
  · obtain ⟨b, hb, hid⟩ := h.1
    exact ⟨b, mem_map.mpr ⟨b, hb, hown b hid⟩, hid⟩
  intro _ hb' hid
  obtain ⟨b, hb, rfl⟩ := mem_map.mp hb'
  rw [b.txn_written] at hid
  rw [hown b hid]
  exact h.2 b hb hid

theorem R2pcInv.cleanupSourceStep (h : R2pcInv s) (hj : s.jobs[j]? = some job)
    (hst : cleanupSourceStep s j env job = some s') : R2pcInv s' := by
  have hmem := mem_of_getElem? hj
  have hfits := h.jobs job hmem
  cases job <;> simp only [PnfsLattice.cleanupSourceStep] at hst
  case awaitCommit t rest =>
    obtain ⟨ht, hrest⟩ := hfits.ok
    split at hst
    · cases hst
      exact h.decided hrest (fun c hc => hfits.claims c (mem_cons_of_mem _ hc)) rfl
    split at hst <;> cases hst
    next hack =>
      have hlanded := ht.and (h.acks t.id hack)
      refine h.decided ⟨?_, hrest⟩ hfits.claims rfl
      exact hlanded.imp fun b hb => ⟨hb.1.1, hb.1.2, hb.2⟩
  case cleanupDel t rest =>
    obtain ⟨ht, hrest⟩ := hfits.ok
    have hclaims : ∀ c ∈ rowClaims rest, ClaimOk s.cat c :=
      fun c hc => hfits.claims c (mem_cons_of_mem _ hc)
    split at hst <;> cases hst
    next cat hdel =>
      have hcat := memDirentDel_ok hdel
      have hsrc : cat.binding t.src = none := by rw [hcat, binding_direntDrop, if_pos rfl]
      have hother : ∀ k, k ≠ t.src → cat.binding k = s.cat.binding k := by
        intro k hk
        rw [hcat, binding_direntDrop, if_neg hk]
      have hr : RebindsOnly s.cat cat none := hcat ▸ (Rebinds.of_drop (mem_singleton_self _)).only
      have hw : R2pcInv (s.write (some t.id) cat) := by
        refine h.write hr (fun n hn => nomatch hn) _ fun b hb hid hleft => ?_
        obtain ⟨rfl, hdec, hland⟩ := ht.2 b hb (some.inj hid).symm
        have hok := h.txns b hb hleft
        have hdst := names_congr (f := b.txn.child) (hother _ hok.apart.symm)
        have hgone : cat.names b.txn.src b.txn.child = false := names_of_free hsrc
        refine ⟨⟨rfl, id, id, fun _ hd => hdst.trans hd, fun _ _ => hgone⟩, hok.apart, .inr ?_,
          fun _ => hdec, fun _ => .inr hgone⟩
        exact hdst.trans (hland hleft)
      refine hw.decided ⟨?_, fun r hr => ?_⟩ (fun c hc => ?_) rfl
      · refine (ht.write cat).imp fun b hb => ⟨hb.1, fun _ => ?_⟩
        rw [hb.1]
        exact names_of_free hsrc
      · exact ((hw.jobs _ hmem).ok.2 r hr)
      · exact (hw.jobs _ hmem).claims c (mem_cons_of_mem _ hc)
    next hdel =>
      have hfree := (memDirentDel_error hdel).2
      refine h.decided ⟨ht.imp fun b hb => ⟨hb.1, fun _ => ?_⟩, hrest⟩ hclaims rfl
      rw [hb.1]
      exact names_of_free hfree
    · exact h.decided hrest hclaims rfl
  case cleanupGetattr t rest =>
    obtain ⟨ht, hrest⟩ := hfits.ok
    split at hst <;> cases hst
    · exact h.decided hrest hfits.claims rfl
    · exact h.decided ⟨ht, hrest⟩ hfits.claims rfl
  case cleanupPut t parent rest =>
    split at hst <;> cases hst
    next hput =>
      have hw := h.touch (sameNames_memInodePut hput) (some t.id)
      exact hw.decided (hw.jobs _ hmem).ok (hw.jobs _ hmem).claims rfl
    · exact h.decided hfits.ok.2 hfits.claims rfl
  case delCommitted t rest =>
    cases hst
    obtain ⟨ht, hrest⟩ := hfits.ok
    have hlog : R2pcInv { s with journal := memJournalDel t.id .coordinator _ } :=
      h.logDel fun _ b hb hid hleft _ _ _ _ _ => (ht.2 b hb hid).2 hleft
    exact hlog.decided hrest hfits.claims rfl
  all_goals cases hst

theorem R2pcInv.answer (h : R2pcInv s) (j id : ℕ) (vote : Bool) : R2pcInv (s.answer j id vote) := by
  have hsent : R2pcInv { s with votes := (id, vote) :: s.votes } := { h with }
  exact hsent.returned j

theorem R2pcInv.onPrepareStep (h : R2pcInv s) (hj : s.jobs[j]? = some job)
    (hst : onPrepareStep s j env job = some s') : R2pcInv s' := by
  have hmem := mem_of_getElem? hj
  have hfits := h.jobs job hmem
  cases job <;> simp only [PnfsLattice.onPrepareStep] at hst
  case prepareGetattr t =>
    split at hst <;> cases hst
    · exact h.decided hfits.ok (forall_mem_nil _) rfl
    · exact h.answer j t.id false
  case prepareGet t =>
    split at hst <;> cases hst
    · exact h.answer j t.id false
    · exact h.decided hfits.ok (forall_mem_nil _) rfl
  case preparePut t =>
    split at hst <;> cases hst
    · exact h.answer j t.id false
    next hput => exact (h.logPut hput hfits.ok nofun nofun).answer j t.id true
  all_goals cases hst

variable {begun : List Begun}

theorem RowOk.participant (h : RowOk begun r) (hrole : r.role = .participant) :
    Tells begun r.txnId fun b => b.txn.dst = r.dst ∧ b.txn.child = r.srcChildFileid := by
  unfold RowOk at h
  rw [hrole] at h
  exact h

theorem RowOk.coordinator (h : RowOk begun r) (hrole : r.role = .coordinator) :
    Tells begun r.txnId fun b => b.txn = r.txn ∧ (r.state = .committed → b.decided = true) := by
  unfold RowOk at h
  rw [hrole] at h
  exact h

theorem R2pcInv.onCommitStep (h : R2pcInv s) (hj : s.jobs[j]? = some job)
    (hok : job.respects s) (hst : onCommitStep s j env job = some s') : R2pcInv s' := by
  have hmem := mem_of_getElem? hj
  have hfits := h.jobs job hmem
  cases job <;> simp only [PnfsLattice.onCommitStep] at hst
  case commitJournal id =>
    split at hst
    next =>
      cases hst
      exact h.returned j
    next r hr =>
      split at hst <;> cases hst
      · exact h.returned j
      have hkey : r.key = (id, .participant) := key_of_findKey hr
      obtain ⟨hid, hrole⟩ := Prod.mk.inj hkey
      have hdec : Tells s.begun r.txnId fun b => b.decided = true := hid ▸ hfits.ok
      exact h.decided ⟨h.rows r (mem_of_findKey hr), hrole, hdec⟩ (forall_mem_nil _) rfl
  case commitGet r =>
    obtain ⟨hrow, hrole, hdec⟩ := hfits.ok
    split at hst
    next hd =>
      split at hst <;> cases hst
      next hsame =>
        refine h.decided ?_ (forall_mem_nil _) rfl
        refine (hrow.participant hrole).imp fun b hb _ => ?_
        rw [hb.1, hb.2, names_of_binding, binding_of_direntFind hd, hsame]
      · exact h.returned j
    next hd =>
      cases hst
      refine h.decided ⟨hrow, hrole, hdec⟩ (fun c hc => ?_) rfl
      rw [mem_singleton.mp hc]
      refine .of_free ?_
      rw [Memdb.binding, hd]
      rfl
  case commitGetattr r =>
    split at hst <;> cases hst
    · exact h.returned j
    · exact h.decided hfits.ok hfits.claims rfl
  case commitInode r moved =>
    split at hst <;> cases hst
    next hput =>
      have hw := h.touch (sameNames_memInodePut hput) (some r.txnId)
      exact hw.decided (hw.jobs _ hmem).ok (hw.jobs _ hmem).claims rfl
    · exact h.returned j
  case commitDirent r type =>
    split at hst <;> cases hst
    next cat hput =>
      obtain ⟨hrow, hrole, hdec⟩ := hfits.ok
      have hdst := (hrow.participant hrole).and hdec
      have hbound : cat.binding r.dst = some r.srcChildFileid := by
        rw [binding_memDirentPut hput, if_pos rfl]
      have hother : ∀ k, k ≠ r.dst → cat.binding k = s.cat.binding k := by
        intro k hk
        rw [binding_memDirentPut hput, if_neg hk]
      have hr : RebindsOnly s.cat cat (some (r.dst, r.srcChildFileid)) := by
        rw [memDirentPut_ok hput]
        exact ((Rebinds.of_drop (mem_singleton_self _)).after (.of_set (mem_singleton_self _))).only
      have hw : R2pcInv (s.write (some r.txnId) cat) := by
        refine h.write hr hok.1 _ fun b hb hid hleft => ?_
        obtain ⟨⟨hbdst, hchild⟩, hbdec⟩ := hdst.2 b hb (some.inj hid).symm
        have htxn := h.txns b hb hleft
        have hland : cat.names b.txn.dst b.txn.child = true := by
          rw [hbdst, hchild, names_of_binding, hbound]
        have hsrc : cat.names b.txn.src b.txn.child = s.cat.names b.txn.src b.txn.child :=
          names_congr (hother _ (hbdst ▸ htxn.apart))
        refine ⟨⟨rfl, id, id, fun _ _ => hland, fun _ hs => hsrc.trans hs⟩, htxn.apart,
          .inr hland, fun _ => hbdec, fun hd => ?_⟩
        rw [hsrc]
        exact htxn.recorded hd
      refine hw.decided ?_ (forall_mem_nil _) rfl
      refine (hdst.write cat).imp fun b hb _ => ?_
      rw [hb.1.1, hb.1.2, names_of_binding]
      exact hbound
    · exact h.returned j
  case commitParent r =>
    split at hst <;> cases hst <;> exact h.decided hfits.ok (forall_mem_nil _) rfl
  case commitTouch r parent =>
    split at hst <;> cases hst
    next hput =>
      have hw := h.touch (sameNames_memInodePut hput) (some r.txnId)
      exact hw.decided (hw.jobs _ hmem).ok (forall_mem_nil _) rfl
    · exact h.decided hfits.ok (forall_mem_nil _) rfl
  case commitDel r =>
    cases hst
    have hlog : R2pcInv { s with journal := memJournalDel r.txnId .participant _ } :=
      h.logDel R2pcRole.noConfusion
    refine R2pcInv.returned (s := { s with
      journal := memJournalDel _ _ _, acks := r.txnId :: s.acks }) ?_ j
    exact hlog.send (fun _ => .inl) (fun _ => .inl)
      (forall_mem_cons.mpr ⟨.inr hfits.ok, fun _ => .inl⟩)
  case abortDel id =>
    cases hst
    have hlog : R2pcInv { s with journal := memJournalDel id .participant _ } :=
      h.logDel R2pcRole.noConfusion
    exact hlog.returned j
  all_goals cases hst

/-- A record is looked at as its state and role ask for. -/
theorem R2pcInv.recoverRecord {rest} (h : R2pcInv s)
    (hfits : JobFits s.cat s.begun (.recover (r :: rest))) :
    R2pcInv (s.goto j (recoverRecord r rest)) := by
  have hrest : ∀ q ∈ rest, RowOk s.begun q := fun q hq => hfits.ok q (mem_cons_of_mem _ hq)
  have hclaims : ∀ c ∈ rowClaims rest, ClaimOk s.cat c :=
    fun c hc => hfits.claims c (rowClaims_mono (fun q => mem_cons_of_mem r) hc)
  unfold PnfsLattice.recoverRecord
  split
  case h_3 hrole => exact h.decided ⟨by simp [hrole], hfits.ok⟩ hfits.claims rfl
  case h_5 hst _ => exact h.decided ⟨fun _ => hst, hfits.ok⟩ hfits.claims rfl
  all_goals exact h.decided hrest hclaims rfl

theorem R2pcInv.recoverStep (h : R2pcInv s) (hj : s.jobs[j]? = some job)
    (hok : job.respects s) (hst : recoverStep s j job = some s') : R2pcInv s' := by
  have hmem := mem_of_getElem? hj
  have hfits := h.jobs job hmem
  cases job with
  | recover rows =>
    cases rows with
    | nil =>
      cases hst
      exact h.returned j
    | cons =>
      cases hst
      exact h.recoverRecord hfits
  | destMatches r rest =>
    obtain ⟨hcommitted, hrows⟩ := hfits.ok
    have hrest : ∀ q ∈ rest, RowOk s.begun q := fun q hq => hrows q (mem_cons_of_mem _ hq)
    have hclaims : ∀ c ∈ rowClaims rest, ClaimOk s.cat c :=
      fun c hc => hfits.claims c (rowClaims_mono (fun q => mem_cons_of_mem r) hc)
    -- A coordinator's record that gets here is committed.
    have hown : r.role = .coordinator →
        (Tells s.begun r.txnId fun b => b.txn = r.txn ∧ b.decided = true) ∧
          ∀ c ∈ (r.src, r.srcChildFileid) :: rowClaims rest, ClaimOk s.cat c := by
      intro hrole
      constructor
      · exact ((hrows r mem_cons_self).coordinator hrole).imp fun b hb =>
          ⟨hb.1, hb.2 (hcommitted hrole)⟩
      intro c hc
      rcases mem_cons.mp hc with rfl | hc
      · exact hfits.claims _
          (mem_rowClaims.mpr ⟨r, mem_cons_self, hrole, hcommitted hrole, rfl⟩)
      · exact hclaims c hc
    simp only [PnfsLattice.recoverStep] at hst
    split at hst
    · cases hst
      exact h.decided hrest hclaims rfl
    split at hst
    next hnames =>
      split at hst <;> cases hst
      next hrole =>
        obtain ⟨ht, hclaim⟩ := hown hrole
        refine h.decided ⟨?_, hrest⟩ hclaim rfl
        refine ht.imp fun b hb => ⟨hb.1, hb.2, fun _ => ?_⟩
        rw [hb.1]
        exact hnames
      · exact h.decided hrest hclaims rfl
    next =>
      split at hst <;> cases hst
      next hrole =>
        obtain ⟨ht, hclaim⟩ := hown hrole
        have hsent : R2pcInv { s with commits := r.txnId :: s.commits } :=
          h.send (fun _ => .inl)
          (forall_mem_cons.mpr ⟨.inr (ht.imp fun b hb => hb.2), fun _ => .inl⟩) (fun _ => .inl)
        exact hsent.decided ⟨ht, hrest⟩ hclaim rfl
      · exact h.decided hrest hclaims rfl
  | recoverDel r rest =>
    cases hst
    have hlog : R2pcInv { s with journal := memJournalDel r.txnId r.role s.journal } := by
      refine h.logDel fun hrole b _ _ _ _ q hq hkey hst => ?_
      have hpurge : r.txnId ∈ (R2pcJob.recoverDel r rest).purges := by simp [R2pcJob.purges, hrole]
      exact absurd hst (hok.2 _ hpurge q hq hkey)
    exact hlog.decided hfits.ok hfits.claims rfl
  | _ => cases hst

theorem R2pcInv.jobStep (h : R2pcInv s) (hj : s.jobs[j]? = some job) (hok : job.respects s)
    (hst : r2pcJobStep s j env job = some s') : R2pcInv s' := by
  simp only [r2pcJobStep, or_eq_some_iff] at hst
  rcases hst with hst | ⟨-, hst | ⟨-, hst | ⟨-, hst | ⟨-, hst⟩⟩⟩⟩
  · exact h.initiateStep hj hst
  · exact h.cleanupSourceStep hj hst
  · exact h.onPrepareStep hj hst
  · exact h.onCommitStep hj hok hst
  · exact h.recoverStep hj hok hst

theorem R2pcInv.start (h : R2pcStart s) : R2pcInv s := by
  obtain ⟨-, hjournal, hjobs, hprepares, -, hcommits, hacks, -, hbegun⟩ := h
  constructor <;> simp [hjournal, hjobs, hprepares, hcommits, hacks, hbegun, rowClaims, SoleClaims]

theorem R2pcInv.step {op} (h : R2pcInv s) (hok : RespectsClaims s op)
    (hst : r2pcStep s op = some s') : R2pcInv s' := by
  cases op with
  | call =>
    simp only [r2pcStep, map_eq_some_iff] at hst
    obtain ⟨_, hcat, rfl⟩ := hst
    exact h.write (rebindsOnly_nsStep hcat) hok none fun b _ hact => nomatch hact
  | initiate =>
    cases hst
    exact h.spawn trivial (forall_mem_nil _) rfl
  | onPrepare t =>
    simp only [r2pcStep, ite_none_right_eq_some] at hst
    obtain ⟨ht, hst⟩ := hst
    cases hst
    exact h.spawn (h.prepares t ht) (forall_mem_nil _) rfl
  | onCommit id =>
    simp only [r2pcStep, ite_none_right_eq_some] at hst
    obtain ⟨hid, hst⟩ := hst
    cases hst
    exact h.spawn (h.commits id hid) (forall_mem_nil _) rfl
  | onAbort =>
    simp only [r2pcStep, ite_none_right_eq_some] at hst
    obtain ⟨-, hst⟩ := hst
    cases hst
    exact h.spawn trivial (forall_mem_nil _) rfl
  | recover =>
    cases hst
    have hscan : ∀ r ∈ memJournalScan s.journal, r ∈ s.journal :=
      fun r hr => (mem_insertionSort _).mp hr
    exact h.spawn (fun r hr => h.rows r (hscan r hr))
      (fun c hc => h.claimed c (rowClaims_mono hscan hc)) rfl
  | job =>
    simp only [r2pcStep, bind_eq_some_iff] at hst
    obtain ⟨job, hj, hst⟩ := hst
    exact h.jobStep hj (hok job hj) hst
  | crash j =>
    cases hst
    exact h.returned j

end Step

end PnfsLattice
