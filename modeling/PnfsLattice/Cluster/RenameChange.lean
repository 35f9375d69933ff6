import PnfsLattice.Cluster.RenameClaims

/-!
# Changes of the state under the rename's invariant

A step of the cross-shard rename is a change of the catalogue, the journal or what was sent,
and a move of its job. Each of these keeps the invariant on its own.
-/

namespace PnfsLattice

open Lib List Option

/-! ## Changes of the state -/

section Change

variable {s : R2pcSys} {j : ℕ} {job new : R2pcJob}

theorem JobFits.of_decided (hok : JobOk s.cat s.begun job)
    (hclaims : ∀ c ∈ job.claims, ClaimOk s.cat c) (hund : job.undecided = none) :
    JobFits s.cat s.begun job := by
  refine ⟨hok, hclaims, by simp [hund], ?_⟩
  rintro t rfl
  cases hund

theorem R2pcInv.goto (h : R2pcInv s) (hnew : JobFits s.cat s.begun new)
    (hsole : ∀ id, new.undecided = some id → UnclaimedBut s.jobs j R2pcJob.undecided id) :
    R2pcInv (s.goto j new) :=
  { h with jobs := forall_mem_set h.jobs hnew, sole := h.sole.set hsole }

/-- A job that has no transaction of its own comes to its next call. -/
theorem R2pcInv.decided (h : R2pcInv s) (hok : JobOk s.cat s.begun new)
    (hclaims : ∀ c ∈ new.claims, ClaimOk s.cat c)
    (hund : new.undecided = none) : R2pcInv (s.goto j new) :=
  h.goto (.of_decided hok hclaims hund) (by simp [hund])

/-- A job goes on with its transaction. -/
theorem R2pcInv.undecided (h : R2pcInv s) (hj : s.jobs[j]? = some job)
    (hok : JobOk s.cat s.begun new)
    (hclaims : ∀ c ∈ new.claims, ClaimOk s.cat c)
    (hund : new.undecided = job.undecided) (hnot : ∀ t, new ≠ .putPrepared t) :
    R2pcInv (s.goto j new) := by
  refine h.goto ⟨hok, hclaims, ?_, fun t ht => absurd ht (hnot t)⟩ ?_ <;> rw [hund]
  · exact (h.jobs job (mem_of_getElem? hj)).undecided
  · exact fun _ hid => h.sole.unclaimedBut hj hid

theorem R2pcInv.spawn (h : R2pcInv s) (hok : JobOk s.cat s.begun new)
    (hclaims : ∀ c ∈ new.claims, ClaimOk s.cat c)
    (hund : new.undecided = none) : R2pcInv { s with jobs := s.jobs ++ [new] } :=
  { h with
    jobs := forall_mem_append.mpr
      ⟨h.jobs, forall_mem_singleton.mpr (.of_decided hok hclaims hund)⟩
    sole := h.sole.concat (by simp [hund]) }

theorem R2pcInv.returned (h : R2pcInv s) (j : ℕ) : R2pcInv (s.goto j .returned) :=
  h.decided trivial (forall_mem_nil _) rfl

variable {m m' : Memdb} {c : NameKey × CatFileid} {cat : Memdb} {t : RenameTxn} {b : Begun}
  {journal : List JournalRec} {id : ℕ}

/-- A change of the catalogue and the transactions, but not of the job's own. -/
theorem JobFits.change {begun begun'} (h : JobFits m begun job)
    (ha : Ages m m' begun begun') (hids : m.nextFileid ≤ m'.nextFileid)
    (hclaims : ∀ c ∈ job.claims, ClaimOk m c → ClaimOk m' c)
    (hbegun : ∀ b' ∈ begun', job.undecided = some b'.txn.id → ∃ b ∈ begun, b.txn = b'.txn ∧
      b'.decided = b.decided) : JobFits m' begun' job := by
  refine ⟨h.ok.ages ha, fun c hc => hclaims c hc (h.claims c hc), ?_, ?_⟩
  · intro id hid
    refine ⟨(h.undecided id hid).1.trans_le hids, fun b' hb' hid' => ?_⟩
    obtain ⟨b, hb, htxn, hdec⟩ := hbegun b' hb' (hid.trans (congrArg some hid'.symm))
    rw [hdec]
    exact (h.undecided id hid).2 b hb ((congrArg _ htxn).trans hid')
  · rintro t rfl b' hb' hid
    obtain ⟨b, hb, htxn, -⟩ := hbegun b' hb' (congrArg some hid.symm)
    exact h.unbegun t rfl b hb ((congrArg _ htxn).trans hid)

theorem mem_claims_of_job (hj : job ∈ s.jobs) (hc : c ∈ job.claims) : c ∈ s.claims :=
  mem_append_left _ (mem_flatMap.mpr ⟨job, hj, hc⟩)

variable {bind : Option (NameKey × CatFileid)} {rows : List JournalRec} {r : JournalRec}

/-- A name that is bound where no claim is against it. -/
theorem ClaimOk.rebinds (h : ClaimOk s.cat c) (hc : c ∈ s.claims)
    (hr : RebindsOnly s.cat cat bind) (hmay : ∀ n ∈ bind, s.mayBind n.1 n.2) : ClaimOk cat c := by
  intro f hf
  rcases hr.binding c.1 with heq | hnone | ⟨g, hg, hnew⟩
  · exact h f (heq.symm.trans hf)
  · cases hnone.symm.trans hf
  · rw [mem_unique hf hnew]
    exact (hmay _ hg c hc rfl).symm

theorem RenameTxn.not_disturbed (h : t.disturbed m m' = false) :
    m'.names t.src t.child = m.names t.src t.child ∧
      m'.names t.dst t.child = m.names t.dst t.child := by
  simp only [RenameTxn.disturbed, Bool.or_eq_false_iff, bne_eq_false_iff_eq] at h
  exact ⟨h.1.symm, h.2.symm⟩

theorem Begun.txn_written (b : Begun) (actor : Option ℕ) (m m' : Memdb) :
    (b.written actor m m').txn = b.txn := by
  unfold Begun.written
  split <;> rfl

theorem Begun.decided_written (b : Begun) (actor : Option ℕ) (m m' : Memdb) :
    (b.written actor m m').decided = b.decided := by
  unfold Begun.written
  split <;> rfl

theorem Begun.written_of_ne {actor} (hact : actor ≠ some b.txn.id)
    (hleft : (b.written actor m m').left = false) :
    b.left = false ∧ m'.names b.txn.src b.txn.child = m.names b.txn.src b.txn.child ∧
      m'.names b.txn.dst b.txn.child = m.names b.txn.dst b.txn.child := by
  rw [Begun.written, if_neg hact] at hleft
  obtain ⟨hl, hd⟩ := Bool.or_eq_false_iff.mp hleft
  exact ⟨hl, RenameTxn.not_disturbed hd⟩

/-- Only the two names and the decision matter. -/
theorem TxnOk.congr {b'} (h : TxnOk m journal b) (htxn : b'.txn = b.txn)
    (hdec : b'.decided = b.decided)
    (hsrc : m'.names b.txn.src b.txn.child = m.names b.txn.src b.txn.child)
    (hdst : m'.names b.txn.dst b.txn.child = m.names b.txn.dst b.txn.child) :
    TxnOk m' journal b' := by
  constructor <;> simp only [htxn, hdec, hsrc, hdst]
  exacts [h.apart, h.named, h.decided, h.recorded]

/-- No job has the transaction still to decide. -/
def R2pcSys.released (s : R2pcSys) (id : ℕ) : Prop :=
  ∀ a ∈ s.jobs, a.undecided ≠ some id

theorem mem_rowClaims :
    c ∈ rowClaims rows ↔ ∃ r ∈ rows, r.role = .coordinator ∧ r.state = .committed ∧
      c = (r.src, r.srcChildFileid) := by
  simp only [rowClaims, List.mem_map, List.mem_filter, decide_eq_true_eq]
  exact ⟨fun ⟨r, ⟨hr, hrole, hst⟩, he⟩ => ⟨r, hr, hrole, hst, he.symm⟩,
    fun ⟨r, hr, hrole, hst, he⟩ => ⟨r, ⟨hr, hrole, hst⟩, he.symm⟩⟩

/-- The transactions go on, with rows and commits that tell what they have reached. -/
theorem R2pcInv.ages {begun commits} (h : R2pcInv s) (hages : Ages s.cat cat s.begun begun)
    (hids : s.cat.nextFileid ≤ cat.nextFileid)
    (hclaims : ∀ c ∈ s.claims, ClaimOk s.cat c → ClaimOk cat c)
    (hbegun : ∀ b' ∈ begun, (∃ b ∈ s.begun, b.txn = b'.txn ∧ b'.decided = b.decided) ∨
      s.released b'.txn.id)
    (hrows : ∀ r ∈ journal, r ∈ s.journal ∨ RowOk begun r ∧ ClaimOk cat (r.src, r.srcChildFileid))
    (hcommits : ∀ id ∈ commits, id ∈ s.commits ∨ Tells begun id fun b => b.decided = true)
    (htxns : ∀ b ∈ begun, b.left = false → TxnOk cat journal b)
    (hbelow : ∀ b ∈ begun, b.txn.id < cat.nextFileid) :
    R2pcInv { s with cat, begun, journal, commits } := by
  refine ⟨fun a ha => ?_, h.sole, fun r hr => ?_, fun c hc => ?_, fun t ht => ?_, fun id hid => ?_,
    fun id hid => (h.acks id hid).ages hages fun _ _ hb hl => hb.landed hl, htxns, hbelow⟩
  · refine (h.jobs a ha).change hages hids
      (fun c hc => hclaims c (mem_claims_of_job ha hc)) fun b' hb' hund => ?_
    exact (hbegun b' hb').resolve_right fun hrel => hrel a ha hund
  · exact (hrows r hr).elim (fun hr => (h.rows r hr).ages hages) And.left
  · obtain ⟨r, hr, hrole, hst, rfl⟩ := mem_rowClaims.mp hc
    rcases hrows r hr with hr | hr
    · have hold := mem_rowClaims.mpr ⟨r, hr, hrole, hst, rfl⟩
      exact hclaims _ (mem_append_right _ hold) (h.claimed _ hold)
    · exact hr.2
  · refine (h.prepares t ht).ages hages fun b _ hb hd => ?_
    rw [hb.txn]
    exact hd
  · exact (hcommits id hid).elim
      (fun hid => (h.commits id hid).ages hages fun _ _ hb hd => hb.decided hd) fun hnew => hnew

/-- The catalogue is written: by an operation that is no step of a rename, or by a rename
that keeps its own transaction in order. -/
theorem R2pcInv.write (h : R2pcInv s) (hr : RebindsOnly s.cat cat bind)
    (hmay : ∀ n ∈ bind, s.mayBind n.1 n.2) (actor : Option ℕ)
    (hown : ∀ b ∈ s.begun, actor = some b.txn.id → b.left = false → Aged s.cat cat b b ∧
      TxnOk cat s.journal b) :
    R2pcInv (s.write actor cat) := by
  have hage : ∀ b ∈ s.begun, Aged s.cat cat b (b.written actor s.cat cat) := by
    intro b hb
    by_cases hact : actor = some b.txn.id
    · rw [Begun.written, if_pos hact]
      refine ⟨rfl, id, id, fun hleft => ?_, fun hleft => ?_⟩
      · exact (hown b hb hact hleft).1.dst hleft
      · exact (hown b hb hact hleft).1.src hleft
    · refine ⟨b.txn_written actor s.cat cat, fun hl => (b.written_of_ne hact hl).1, fun hd => ?_,
        fun hl hd => ?_, fun hl hd => ?_⟩
      · rw [b.decided_written]
        exact hd
      · exact (b.written_of_ne hact hl).2.2.trans hd
      · exact (b.written_of_ne hact hl).2.1.trans hd
  refine h.ages (.map hage) hr.nextFileid (fun c hc hok => hok.rebinds hc hr hmay)
    (forall_mem_map.mpr fun b hb =>
      .inl ⟨b, hb, (b.txn_written ..).symm, b.decided_written ..⟩)
    (fun _ hr => .inl hr) (fun _ hid => .inl hid) (forall_mem_map.mpr fun b hb hleft => ?_)
    (forall_mem_map.mpr fun b hb => ?_)
  · by_cases hact : actor = some b.txn.id
    · rw [Begun.written, if_pos hact] at hleft ⊢
      exact (hown b hb hact hleft).2
    · obtain ⟨hl, hsrc, hdst⟩ := b.written_of_ne hact hleft
      exact (h.txns b hb hl).congr (b.txn_written ..) (b.decided_written ..) hsrc hdst
  · rw [b.txn_written]
    exact (h.below b hb).trans_le hr.nextFileid

theorem R2pcInv.touch (h : R2pcInv s) (hm : SameNames s.cat cat) (actor : Option ℕ) :
    R2pcInv (s.write actor cat) := by
  have hr : RebindsOnly s.cat cat none :=
    ⟨fun k => .inl (binding_congr hm.dirents k), hm.nextFileid.ge⟩
  refine h.write hr (fun n hn => nomatch hn) actor ?_
  intro b hb _ hleft
  have hnames : ∀ k f, cat.names k f = s.cat.names k f := by
    intro k f
    rw [Memdb.names, Memdb.names, binding_congr hm.dirents]
  exact ⟨⟨rfl, id, id, fun _ hd => (hnames _ _).trans hd, fun _ hs => (hnames _ _).trans hs⟩,
    (h.txns b hb hleft).congr rfl rfl (hnames _ _) (hnames _ _)⟩

theorem R2pcInv.log (h : R2pcInv s) (hrows : ∀ r ∈ journal, RowOk s.begun r)
    (hclaims : ∀ c ∈ rowClaims journal, ClaimOk s.cat c)
    (hkept : ∀ b ∈ s.begun, b.left = false → b.decided = true →
      ∀ r ∈ s.journal, r.key = (b.txn.id, .coordinator) → r.state = .committed →
        (∃ q ∈ journal, q.key = (b.txn.id, .coordinator) ∧ q.state = .committed) ∨
          s.cat.names b.txn.src b.txn.child = false) : R2pcInv { s with journal } := by
  refine { h with rows := hrows, claimed := hclaims, txns := fun b hb hleft => ?_ }
  have hok := h.txns b hb hleft
  refine ⟨hok.apart, hok.named, hok.decided, fun hdec => ?_⟩
  rcases hok.recorded hdec with ⟨r, hr, hkey, hst⟩ | hgone
  · exact hkept b hb hleft hdec r hr hkey hst
  · exact .inr hgone

theorem rowClaims_mono {rows'} (h : ∀ r ∈ rows, r ∈ rows') (hc : c ∈ rowClaims rows) :
    c ∈ rowClaims rows' := by
  obtain ⟨r, hr, hrest⟩ := mem_rowClaims.mp hc
  exact mem_rowClaims.mpr ⟨r, h r hr, hrest⟩

/-- A row is deleted: no commit record of a rename that still has its source name. -/
theorem R2pcInv.logDel (h : R2pcInv s) {role}
    (hdel : role = .coordinator → ∀ b ∈ s.begun, b.txn.id = id → b.left = false → b.decided = true →
      ∀ r ∈ s.journal, r.key =
      (id, .coordinator) → r.state = .committed → s.cat.names b.txn.src b.txn.child = false) :
    R2pcInv { s with journal := memJournalDel id role s.journal } := by
  have hsub : ∀ r ∈ memJournalDel id role s.journal, r ∈ s.journal :=
    fun r hr => (mem_eraseKey.mp hr).1
  refine h.log (fun r hr => h.rows r (hsub r hr)) (fun c hc => ?_) ?_
  · exact h.claimed c (rowClaims_mono hsub hc)
  intro b hb hleft hdec r hr hkey hst
  by_cases hgone : r.key = (id, role)
  · obtain ⟨hid, hrole⟩ := Prod.mk.inj (hkey.symm.trans hgone)
    exact .inr (hdel hrole.symm b hb hid hleft hdec r hr (hid ▸ hkey) hst)
  · exact .inl ⟨r, mem_eraseKey.mpr ⟨hr, hgone⟩, hkey, hst⟩

theorem memJournalPut_some {journal'} (h : memJournalPut r journal = some journal') : journal' =
    upsert JournalRec.key r journal := by
  unfold memJournalPut at h
  split at h
  · cases h
  · exact (some.inj h).symm

/-- A row is written: it makes no claim against a name, and is no step back from a commit. -/
theorem R2pcInv.logPut (h : R2pcInv s) (hput : memJournalPut r s.journal = some journal)
    (hr : RowOk s.begun r)
    (hclaim : r.role = .coordinator → r.state = .committed →
      ClaimOk s.cat (r.src, r.srcChildFileid))
    (hback : r.role = .coordinator → r.state ≠ .committed → ∀ b ∈ s.begun, b.txn.id = r.txnId →
      b.decided = false) :
    R2pcInv { s with journal } := by
  rw [memJournalPut_some hput]
  refine h.log (fun q hq => ?_) (fun c hc => ?_) ?_
  · rcases mem_upsert.mp hq with rfl | ⟨hq, -⟩
    · exact hr
    · exact h.rows q hq
  · obtain ⟨q, hq, hrole, hst, rfl⟩ := mem_rowClaims.mp hc
    rcases mem_upsert.mp hq with rfl | ⟨hq, -⟩
    · exact hclaim hrole hst
    · exact h.claimed _ (mem_rowClaims.mpr ⟨q, hq, hrole, hst, rfl⟩)
  · intro b hb _ hdec q hq hkey hst
    left
    by_cases hsame : q.key = r.key
    · -- The row is written over, by one that is committed as well.
      obtain ⟨hid, hrole⟩ := Prod.mk.inj (hkey.symm.trans hsame)
      refine ⟨r, mem_upsert.mpr (.inl rfl), hsame.symm.trans hkey, ?_⟩
      by_contra hne
      rw [hback hrole.symm hne b hb hid] at hdec
      cases hdec
    · exact ⟨q, mem_upsert.mpr (.inr ⟨hq, hsame⟩), hkey, hst⟩

theorem R2pcInv.send (h : R2pcInv s) {prepares commits acks}
    (hprepares : ∀ t ∈ prepares, t ∈ s.prepares ∨ Tells s.begun t.id fun b => b.txn = t)
    (hcommits : ∀ id ∈ commits, id ∈ s.commits ∨ Tells s.begun id fun b => b.decided = true)
    (hacks : ∀ id ∈ acks, id ∈ s.acks ∨ Tells s.begun id (Landed s.cat)) :
    R2pcInv { s with prepares, commits, acks } := by
  refine { h with
    prepares := fun t ht => (hprepares t ht).elim (h.prepares t) fun hnew => hnew.imp ?_
    commits := fun id hid => (hcommits id hid).elim (h.commits id) fun hnew => hnew
    acks := fun id hid => (hacks id hid).elim (h.acks id) fun hnew => hnew }
  rintro b rfl
  exact ⟨rfl, rfl⟩

/-- Once its job has left the slot, a transaction is released. -/
theorem R2pcInv.released (h : R2pcInv s) (hj : s.jobs[j]? = some job)
    (hid : job.undecided = some id) : (s.goto j .returned).released id :=
  (h.sole.unclaimedBut hj hid).unclaimed nofun

theorem R2pcInv.begin (h : R2pcInv s) (hnew : ∀ b ∈ s.begun, b.txn.id ≠ t.id)
    (hid : t.id < s.cat.nextFileid) (hrel : s.released t.id) : R2pcInv (s.begin t) := by
  have hself : ∀ b, Aged s.cat s.cat b b := fun b => ⟨rfl, id, id, fun _ hd => hd, fun _ hs => hs⟩
  have hages : Ages s.cat s.cat s.begun (s.begin t).begun := by
    exact ⟨fun b hb => ⟨b, mem_cons_of_mem _ hb, hself b⟩,
      forall_mem_cons.mpr ⟨.inr hnew, fun b hb => .inl ⟨b, hb, hself b⟩⟩⟩
  refine h.ages hages le_rfl (fun _ _ hc => hc)
    (forall_mem_cons.mpr ⟨.inr hrel, fun b hb => .inl ⟨b, hb, rfl, rfl⟩⟩) (fun _ hr => .inl hr)
    (fun _ hid => .inl hid) ?_ ?_
  · intro b hb hleft
    rcases mem_cons.mp hb with rfl | hb
    · simp only [Bool.not_eq_false', Bool.and_eq_true, Bool.not_eq_true'] at hleft
      obtain ⟨hsrc, hdst⟩ := hleft
      refine ⟨fun he => ?_, .inl hsrc, fun hd => ?_, nofun⟩
      · rw [he] at hsrc
        exact absurd (hsrc.symm.trans hdst) (by decide)
      · exact absurd (hd.symm.trans hdst) (by decide)
    · exact h.txns b hb hleft
  · exact forall_mem_cons.mpr ⟨hid, h.below⟩

theorem Begun.txn_decidedIf (b : Begun) (id : ℕ) : (b.decidedIf id).txn = b.txn := by
  unfold Begun.decidedIf
  split <;> rfl

theorem Begun.left_decidedIf (b : Begun) (id : ℕ) : (b.decidedIf id).left = b.left := by
  unfold Begun.decidedIf
  split <;> rfl

theorem Begun.decided_decidedIf (h : b.txn.id = id) : (b.decidedIf id).decided = true := by
  rw [Begun.decidedIf, if_pos h]

theorem Begun.decidedIf_of_ne (h : b.txn.id ≠ id) : b.decidedIf id = b :=
  if_neg h

theorem Begun.aged_decidedIf (b : Begun) (m : Memdb) (id : ℕ) : Aged m m b (b.decidedIf id) := by
  refine ⟨b.txn_decidedIf id, fun hl => (b.left_decidedIf id).symm.trans hl, fun hd => ?_,
    fun _ h => h, fun _ h => h⟩
  by_cases hb : b.txn.id = id
  · exact Begun.decided_decidedIf hb
  · rw [Begun.decidedIf_of_ne hb]
    exact hd

theorem R2pcInv.decide (h : R2pcInv s) {now}
    (hput : memJournalPut (t.coordinator .committed now) s.journal = some journal)
    (ht : Tells s.begun t.id fun b => b.txn = t) (hclaim : ClaimOk s.cat (t.src, t.child))
    (hrel : s.released t.id) :
    R2pcInv (({ s with journal, commits := t.id :: s.commits } : R2pcSys).decide t.id) := by
  have hjournal := memJournalPut_some hput
  subst hjournal
  have hages : Ages s.cat s.cat s.begun (s.begun.map fun b => b.decidedIf t.id) :=
    .map fun b _ => b.aged_decidedIf _ _
  have hknown : Tells (s.begun.map fun b => b.decidedIf t.id) t.id fun b => b.txn = t ∧
      b.decided = true := by
    have hthere := ht.ages hages fun b _ ha hb => ha.txn.trans hb
    refine ⟨hthere.1, forall_mem_map.mpr fun b hb hid => ?_⟩
    have hbid : b.txn.id = t.id := (congrArg _ (b.txn_decidedIf _)).symm.trans hid
    exact ⟨(b.txn_decidedIf _).trans (ht.2 b hb hbid), Begun.decided_decidedIf hbid⟩
  refine h.ages hages le_rfl (fun _ _ hc => hc) (forall_mem_map.mpr fun b hb => ?_)
    (fun r hr => ?_) (forall_mem_cons.mpr ⟨.inr (hknown.imp fun b hb => hb.2), fun _ => .inl⟩)
    (forall_mem_map.mpr fun b hb hl => ?_) (forall_mem_map.mpr fun b hb => ?_)
  · by_cases hid : b.txn.id = t.id
    · right
      rw [b.txn_decidedIf, hid]
      exact hrel
    · rw [Begun.decidedIf_of_ne hid]
      exact .inl ⟨b, hb, rfl, rfl⟩
  · rcases mem_upsert.mp hr with rfl | ⟨hr, -⟩
    · exact .inr ⟨hknown.imp fun b hb => ⟨hb.1, fun _ => hb.2⟩, hclaim⟩
    · exact .inl hr
  · have hok := h.txns b hb ((b.left_decidedIf _).symm.trans hl)
    by_cases hid : b.txn.id = t.id
    · refine ⟨?_, ?_, fun _ => Begun.decided_decidedIf hid, fun _ => .inl ?_⟩ <;>
        rw [b.txn_decidedIf]
      · exact hok.apart
      · exact hok.named
      · exact ⟨_, mem_upsert.mpr (.inl rfl), by rw [hid]; rfl, rfl⟩
    · rw [Begun.decidedIf_of_ne hid]
      refine ⟨hok.apart, hok.named, hok.decided, fun hd => ?_⟩
      rcases hok.recorded hd with ⟨r, hr, hkey, hst⟩ | hgone
      · refine .inl ⟨r, mem_upsert.mpr (.inr ⟨hr, fun he => hid ?_⟩), hkey, hst⟩
        exact (Prod.mk.inj (hkey.symm.trans he)).1
      · exact .inr hgone
  · rw [b.txn_decidedIf]
    exact h.below b hb

end Change

end PnfsLattice
