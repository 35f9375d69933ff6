import PnfsLattice.Layout.Owners

/-!
# Layout seqids move forward

For each stateid the seqids that reach the client, in LAYOUTGET replies and in
CB_LAYOUTRECALL, are to increase in the order in which they were issued, and the highest
one the client has is to pass the check of LAYOUTRETURN. Issued seqids come from the
tracker; where the tracker has lost a stateid, the row is the only record of it.

The catalogue probe of `layout_pick_stateid` breaks both: it hands out the seqid after the
row's and records the stateid in the tracker with seqid 1 (`probe_resets_seqid`). A
renewal that fails after its pick leaves the tracker ahead of the client. A recall whose
stateid is neither tracked nor in the table any more starts again from the seqid it saw
when it scanned.
-/

namespace PnfsLattice

open Lib List Option

/-! ## The property -/

/-- The issue reached the client, or may still do so. -/
def Issue.Live (i : Issue) : Prop := i.state ≠ .dropped
deriving Decidable

/-- The seqids of a stateid that reached the client increase in the order of issue. -/
def SeqidsIncrease (s : LayoutSys) : Prop :=
  s.issued.Pairwise fun later earlier => later.state = .handed → earlier.state = .handed →
    later.other = earlier.other → earlier.seqid < later.seqid
deriving Decidable

/-- The stateid for which a job is about to hand out a seqid: a LAYOUTGET between its pick
and its reply, or a recall between recording the seqid and sending it. -/
def LayoutJob.issuing : LayoutJob → Option Other
  | .record _ _ sid | .persist _ _ sid => some sid.other
  | .recalling (.call h :: _) _ => some h.stateid.other
  | _ => none

/-- The client holds the stateid, and its seqid is the highest one that reached it. -/
def HasLatest (s : LayoutSys) (clientid : Clientid) (sid : Stateid) : Prop :=
  (∃ w ∈ s.held, w.other = sid.other ∧ w.clientid = clientid) ∧
    (∃ i ∈ s.issued, i.state = .handed ∧ i.other = sid.other ∧ i.clientid = clientid ∧
      i.seqid = sid.seqid) ∧
    ∀ i ∈ s.issued, i.state = .handed → i.other = sid.other → i.clientid = clientid →
      i.seqid ≤ sid.seqid
deriving Decidable

/-- A LAYOUTRETURN with the highest seqid that the client has of a stateid it holds passes the
check. -/
def LatestPasses (s : LayoutSys) : LayoutOp → Prop
  | .layoutreturn clientid _ sid _ _ =>
    HasLatest s clientid sid → layoutreturnCheck s.tracker sid = .ok ()
  | _ => True

/-! ## The condition -/

/-- No LAYOUTGET is between its pick of the stateid and its reply, and no recall between
recording the seqid and sending it. -/
def NotIssuing (s : LayoutSys) (other : Other) : Prop :=
  ∀ job ∈ s.jobs, job.issuing ≠ some other
deriving Decidable

/-- No LAYOUTGET is between its pick of the stateid and its reply. -/
def NotPicked (s : LayoutSys) (other : Other) : Prop :=
  ∀ job ∈ s.jobs, ∀ p ∈ job.picked, p.2.other ≠ other
deriving Decidable

/-- The stateid of a recall is tracked, or its row is still there and not newer than what
the scan saw. -/
def Anchored (s : LayoutSys) (h : Holder) : Prop :=
  (layoutSeqidPeek s.tracker h.stateid.other).isSome ∨
    ∃ row ∈ used s.rows, row.stateid.other = h.stateid.other ∧
      row.stateid.seqid ≤ h.stateid.seqid
deriving Decidable

/-- The next seqid of a stateid does not wrap. -/
def NoWrap (s : LayoutSys) (other : Other) : Prop :=
  ∀ cur ∈ layoutSeqidPeek s.tracker other, cur ≠ 0xFFFFFFFF

instance (s : LayoutSys) (other : Other) : Decidable (NoWrap s other) :=
  decidable_of_iff ((layoutSeqidPeek s.tracker other).all (· ≠ 0xFFFFFFFF) = true)
    (by simp only [NoWrap, Option.all_eq_true, decide_eq_true_eq, Option.mem_def])

/-- The acts of a recall that keep the seqids in order. A callback is sent for a stateid
that is still tracked or in the table, and a stateid leaves the tracker when its row is gone
and no LAYOUTGET has picked it. -/
def RecallAct.SeqidSafe (s : LayoutSys) (env : LayoutEnv) : RecallAct → Prop
  | .note h => env.backchannel = true → env.alloc = true ∧ Anchored s h
  | .call h =>
    env.alloc = true ∧ Anchored s h ∧ NoWrap s h.stateid.other ∧ h.stateid.seqid ≠ 0xFFFFFFFF
  | .revoke _ _ => True
  | .untrack other => (∀ row ∈ used s.rows, row.stateid.other ≠ other) ∧ NotPicked s other

instance (s : LayoutSys) (env : LayoutEnv) (act : RecallAct) : Decidable (act.SeqidSafe s env) := by
  cases act <;> unfold RecallAct.SeqidSafe <;> infer_instance

/-- The steps of job `j` that keep the seqids in order. The catalogue probe does not take
up a stateid that the tracker has lost; a LAYOUTGET fails after its pick only if nobody
else was issued the stateid; allocations succeed. -/
def LayoutJob.SeqidSafe (s : LayoutSys) (j : ℕ) (env : LayoutEnv) : LayoutJob → Prop
  | .advance r _ => NoWrap s r.sid.other
  | .probe r _ => ∀ row ∈ memLayoutGetByStateid s.rows r.sid.other, row.fileid ≠ r.fileid
  | .make _ _ => env.alloc = true
  | .persist _ _ sid => env.outcome ≠ .granted →
      ∀ i ∈ s.issued, i.Live → i.other = sid.other → i.job = j ∧ i.state = .pending
  | .recalling (act :: _) _ => act.SeqidSafe s env
  | _ => True

instance (s : LayoutSys) (j : ℕ) (env : LayoutEnv) :
    (job : LayoutJob) → Decidable (job.SeqidSafe s j env)
  | .advance r _ => inferInstanceAs (Decidable (NoWrap s r.sid.other))
  | .probe r _ => inferInstanceAs
      (Decidable (∀ row ∈ memLayoutGetByStateid s.rows r.sid.other, row.fileid ≠ r.fileid))
  | .make .. => inferInstanceAs (Decidable (env.alloc = true))
  | .persist .. => inferInstanceAs (Decidable (_ ≠ _ → ∀ i ∈ s.issued, i.Live → _ → _ ∧ _))
  | .recalling (act :: _) _ => inferInstanceAs (Decidable (act.SeqidSafe s env))
  | .recalling [] _ | .scan .. | .lease .. | .record .. | .undo .. | .done => instDecidableTrue

/-- The steps that keep the seqids in order. On top of the above, stateids are presented by
their owners, a LAYOUTRETURN does not overtake a LAYOUTGET or, with the client's latest seqid,
a recall of the same stateid, and at a restart every seqid that reached a client is in the
row. -/
def SeqidSafe (s : LayoutSys) (op : LayoutOp) : Prop :=
  Presented s op ∧
    match op with
    | .job j env => ∀ job ∈ s.jobs[j]?, job.SeqidSafe s j env
    | .layoutreturn clientid _ sid layoutType returnType =>
      (HasLatest s clientid sid → NotIssuing s sid.other) ∧
        (ReturnAccepted s.tracker sid layoutType returnType → NotPicked s sid.other)
    | .restart _ => ∀ row ∈ used s.rows, ∀ i ∈ s.issued, i.state = .handed →
        i.other = row.stateid.other → i.seqid ≤ row.stateid.seqid
    | _ => True

instance (s : LayoutSys) : (op : LayoutOp) → Decidable (SeqidSafe s op)
  | .job j env => inferInstanceAs
      (Decidable (Presented s _ ∧ ∀ job ∈ s.jobs[j]?, job.SeqidSafe s j env))
  | .layoutreturn .. => inferInstanceAs
      (Decidable (Presented s _ ∧ (HasLatest s _ _ → NotIssuing s _) ∧ (_ → NotPicked s _)))
  | .restart _ => inferInstanceAs
      (Decidable (Presented s _ ∧ ∀ row ∈ used s.rows, ∀ i ∈ s.issued, _ → _ → _))
  | .layoutget .. | .layoutcommit .. | .resize .. | .unlink .. | .dsLost .. =>
    inferInstanceAs (Decidable (Presented s _ ∧ True))

/-! ## The tracker, the rows and the issues -/

/-- What the tracker, the rows and the issues say about one another: live seqids increase,
the tracker is not behind them, and where it has lost a stateid the row is not. -/
structure SeqidCore (tracker : SeqidTable) (rows : LayoutTable) (issued : List Issue) :
    Prop where
  unique : tracker.Unique
  increase : issued.Pairwise fun later earlier => later.Live → earlier.Live →
    later.other = earlier.other → earlier.seqid < later.seqid
  below : ∀ i ∈ issued, i.Live → ∀ n, layoutSeqidPeek tracker i.other = some n → i.seqid ≤ n
  cold : ∀ row ∈ used rows, layoutSeqidPeek tracker row.stateid.other = none →
    ∀ i ∈ issued, i.Live → i.other = row.stateid.other → i.seqid ≤ row.stateid.seqid

section Core

variable {tracker tracker' : SeqidTable} {rows rows' : LayoutTable} {issued : List Issue}

variable {n : UInt32} {o : Other}

structure Records (tracker tracker' : SeqidTable) (o : Other) (n : UInt32) : Prop where
  unique : tracker'.Unique
  peek : ∀ o', layoutSeqidPeek tracker' o' = if o' = o then some n else layoutSeqidPeek tracker o'

theorem lt_bumpSeqid (h : n ≠ 0xFFFFFFFF) : n < bumpSeqid n := by
  have hlt : n.toNat < 2 ^ 32 - 1 := by
    have hne : n.toNat ≠ 2 ^ 32 - 1 := fun heq => h (UInt32.toNat_inj.mp heq)
    have hmax := n.toNat_lt
    omega
  rw [UInt32.lt_iff_toNat_lt, toNat_bumpSeqid hlt]
  omega

section

variable (h : SeqidCore tracker rows issued)

include h

theorem SeqidCore.withRows (hrows : ∀ row ∈ used rows', row ∈ used rows ∨
      (layoutSeqidPeek tracker row.stateid.other).isSome) : SeqidCore tracker rows' issued := by
  refine ⟨h.unique, h.increase, h.below, fun row hrow hnone => ?_⟩
  rcases hrows row hrow with hold | hsome
  · exact h.cold row hold hnone
  · rw [hnone] at hsome
    cases hsome

theorem SeqidCore.record (hrec : Records tracker tracker' o n)
    (habove : ∀ k ∈ issued, k.Live → k.other = o → k.seqid ≤ n) :
    SeqidCore tracker' rows issued := by
  refine ⟨hrec.unique, h.increase, fun k hk hlive m hm => ?_, fun row hrow hnone => ?_⟩
  · rw [hrec.peek] at hm
    split at hm
    next ho =>
      cases hm
      exact habove k hk hlive ho
    next => exact h.below k hk hlive m hm
  · rw [hrec.peek] at hnone
    split at hnone
    · cases hnone
    · exact h.cold row hrow hnone

/-- The seqid that the tracker has is issued, and is above the live ones of its stateid. -/
theorem SeqidCore.issue {i} (hpeek : layoutSeqidPeek tracker i.other = some i.seqid)
    (habove : ∀ k ∈ issued, k.Live → k.other = i.other → k.seqid < i.seqid) :
    SeqidCore tracker rows (i :: issued) := by
  refine ⟨h.unique, ?_, forall_mem_cons.mpr ⟨fun _ n hn => ?_, h.below⟩,
    fun row hrow hnone => forall_mem_cons.mpr ⟨fun _ ho => ?_, h.cold row hrow hnone⟩⟩
  · refine pairwise_cons.mpr ⟨fun k hk _ hlive ho => ?_, h.increase⟩
    exact habove k hk hlive ho.symm
  · cases hpeek.symm.trans hn
    exact UInt32.le_refl _
  · rw [← ho, hpeek] at hnone
    cases hnone

theorem SeqidCore.remove (hno : ∀ row ∈ used rows, row.stateid.other ≠ o) :
    SeqidCore (layoutSeqidRemove tracker o) rows issued := by
  refine ⟨nodup_eraseP h.unique, h.increase, fun k hk hlive n hn => ?_, fun row hrow hnone => ?_⟩
  · rw [peek_remove h.unique] at hn
    split at hn
    · cases hn
    · exact h.below k hk hlive n hn
  · rw [peek_remove h.unique, if_neg (hno row hrow)] at hnone
    exact h.cold row hrow hnone

/-- Issues change their state, and none comes back to life. -/
theorem SeqidCore.mapIssued {g} (hg : ∀ i, (g i).other = i.other ∧ (g i).seqid = i.seqid)
    (hlive : ∀ i, (g i).Live → i.Live) : SeqidCore tracker rows (issued.map g) := by
  refine ⟨h.unique, ?_, fun k hk hk' n hn => ?_, fun row hrow hnone k hk hk' ho => ?_⟩
  · refine pairwise_map.mpr (h.increase.imp fun hlt hl he ho => ?_)
    rw [(hg _).1, (hg _).1] at ho
    rw [(hg _).2, (hg _).2]
    exact hlt (hlive _ hl) (hlive _ he) ho
  · obtain ⟨i, hi, rfl⟩ := mem_map.mp hk
    rw [(hg i).1] at hn
    rw [(hg i).2]
    exact h.below i hi (hlive i hk') n hn
  · obtain ⟨i, hi, rfl⟩ := mem_map.mp hk
    rw [(hg i).1] at ho
    rw [(hg i).2]
    exact h.cold row hrow hnone i hi (hlive i hk') ho

/-- The live seqids of an anchored holder do not exceed what the recall goes on from. -/
theorem SeqidCore.anchored
    (hanch : (layoutSeqidPeek tracker o).isSome ∨ ∃ row ∈ used rows, row.stateid.other = o ∧
      row.stateid.seqid ≤ n)
    {k} (hk : k ∈ issued) (hlive : k.Live) (ho : k.other = o) :
    k.seqid ≤ (layoutSeqidPeek tracker o).getD n := by
  subst ho
  cases hpeek : layoutSeqidPeek tracker k.other with
  | some m => exact h.below k hk hlive m hpeek
  | none =>
    rw [hpeek] at hanch
    rcases hanch with hsome | ⟨row, hrow, ho, hle⟩
    · cases hsome
    · exact UInt32.le_trans (h.cold row hrow (ho ▸ hpeek) k hk hlive ho.symm) hle

end

end Core

/-! ## The invariant -/

/-- The stateid a recall is about to advance and send. -/
def LayoutJob.calls : LayoutJob → Option Other
  | .recalling (.call h :: _) _ => some h.stateid.other
  | _ => none

/-- What a LAYOUTGET has picked is tracked, and none is past a hit of the probe. -/
def LayoutJob.Tracked (tracker : SeqidTable) : LayoutJob → Prop
  | .record .. => False
  | .persist _ _ sid => (layoutSeqidPeek tracker sid.other).isSome
  | _ => True

theorem LayoutJob.tracked_of_picked {tracker : SeqidTable} {job : LayoutJob}
    (h : job.picked = none) : job.Tracked tracker := by
  cases job with
  | record | persist => cases h
  | _ => trivial

/-- A pending issue belongs to the LAYOUTGET that will persist it, and the tracker's seqid
of an issued stateid is that of a live issue, or is about to be advanced by a recall. -/
structure SeqidInv (tracker : SeqidTable) (rows : LayoutTable) (jobs : List LayoutJob)
    (issued : List Issue) : Prop extends SeqidCore tracker rows issued where
  tracked : ∀ job ∈ jobs, job.Tracked tracker
  pending : ∀ i ∈ issued, i.state = .pending →
    ∃ r renewal sid, jobs[i.job]? = some (.persist r renewal sid) ∧ sid.other = i.other
  top : ∀ i ∈ issued, i.Live → ∀ n, layoutSeqidPeek tracker i.other = some n →
    (∃ k ∈ issued, k.Live ∧ k.other = i.other ∧ k.seqid = n) ∨
      ∃ job ∈ jobs, job.calls = some i.other

/-- The invariant holds of a state. -/
def LayoutSys.SeqidInv (s : LayoutSys) : Prop :=
  PnfsLattice.SeqidInv s.tracker s.rows s.jobs s.issued

section Jobs

variable {jobs : List LayoutJob} {j k : ℕ} {job job' : LayoutJob}

theorem getElem?_set_persist {r renewal sid} (hj : jobs[j]? = some job)
    (hpick : job.picked = none) (hk : jobs[k]? = some (.persist r renewal sid)) :
    (jobs.set j job')[k]? = some (.persist r renewal sid) := by
  have hne : j ≠ k := by
    rintro rfl
    cases hj.symm.trans hk
    cases hpick
  rw [List.getElem?_set_ne hne, hk]

theorem mem_set_of_ne (hj : jobs[j]? = some job) {job₀} (hmem : job₀ ∈ jobs) (hne : job₀ ≠ job) :
    job₀ ∈ jobs.set j job' := by
  obtain ⟨k, hk, rfl⟩ := mem_iff_getElem.mp hmem
  have hjk : j ≠ k := by
    rintro rfl
    exact hne (some.inj ((List.getElem?_eq_getElem hk).symm.trans hj))
  refine mem_of_getElem? (i := k) ?_
  rw [List.getElem?_set_ne hjk, List.getElem?_eq_getElem hk]

/-- The calls of other stateids than those of the job that moves are still to come. -/
theorem calls_set {o} (hj : jobs[j]? = some job) (hne : job.calls ≠ some o)
    (h : ∃ job ∈ jobs, job.calls = some o) : ∃ job ∈ jobs.set j job', job.calls = some o := by
  obtain ⟨job₀, hmem, hcalls⟩ := h
  refine ⟨job₀, mem_set_of_ne hj hmem ?_, hcalls⟩
  rintro rfl
  exact hne hcalls

end Jobs

section Inv

variable {tracker tracker' : SeqidTable} {rows rows' : LayoutTable} {jobs : List LayoutJob}
  {issued : List Issue} {j : ℕ} {job job' : LayoutJob}

section

variable (h : SeqidInv tracker rows jobs issued)

include h

theorem SeqidInv.withRows (hrows : ∀ row ∈ used rows', row ∈ used rows ∨
      (layoutSeqidPeek tracker row.stateid.other).isSome) : SeqidInv tracker rows' jobs issued :=
  ⟨h.toSeqidCore.withRows hrows, h.tracked, h.pending, h.top⟩

/-- A job that has not picked a stateid moves, and no recall misses its callback. -/
theorem SeqidInv.setJob (hj : jobs[j]? = some job) (hpick : job.picked = none)
    (hcalls : job.calls = none) (hjob' : job'.Tracked tracker) :
    SeqidInv tracker rows (jobs.set j job') issued := by
  refine ⟨h.toSeqidCore, forall_mem_set h.tracked hjob', fun i hi hpend => ?_,
    fun i hi hlive n hn => ?_⟩
  · obtain ⟨r, renewal, sid, hk, ho⟩ := h.pending i hi hpend
    exact ⟨r, renewal, sid, getElem?_set_persist hj hpick hk, ho⟩
  · refine (h.top i hi hlive n hn).imp_right (calls_set hj ?_)
    rw [hcalls]
    simp

theorem SeqidInv.addJob (hjob : job.picked = none) :
    SeqidInv tracker rows (jobs ++ [job]) issued := by
  have htracked : job.Tracked tracker := LayoutJob.tracked_of_picked hjob
  refine ⟨h.toSeqidCore, forall_mem_append.mpr ⟨h.tracked, forall_mem_singleton.mpr htracked⟩,
    fun i hi hpend => ?_, fun i hi hlive n hn => ?_⟩
  · obtain ⟨r, renewal, sid, hk, ho⟩ := h.pending i hi hpend
    exact ⟨r, renewal, sid, List.getElem?_append_left (List.getElem?_eq_some_iff.mp hk).1 ▸ hk, ho⟩
  · refine (h.top i hi hlive n hn).imp_right fun ⟨k, hk, hcalls⟩ => ?_
    exact ⟨k, mem_append_left _ hk, hcalls⟩

end

theorem LayoutJob.Tracked.mono (h : job.Tracked tracker)
    (hkeep : ∀ o, (layoutSeqidPeek tracker o).isSome → (layoutSeqidPeek tracker' o).isSome) :
    job.Tracked tracker' := by
  cases job with
  | record => exact h
  | persist => exact hkeep _ h
  | _ => trivial

variable {o : Other}

theorem Records.isSome {n} (h : Records tracker tracker' o n) (o' : Other)
    (hsome : (layoutSeqidPeek tracker o').isSome) : (layoutSeqidPeek tracker' o').isSome := by
  rw [h.peek]
  split
  · rfl
  · exact hsome

section

variable (h : SeqidInv tracker rows jobs issued)

include h

/-- Job `j` records a stateid. Issues of this stateid may come, and one of them or the next act
of the job goes with the seqid in the tracker. -/
theorem SeqidInv.record {issued'} {n : UInt32} (hj : jobs[j]? = some job)
    (hpick : job.picked = none) (hcalls : ∀ o', job.calls = some o' → o' = o)
    (hrec : Records tracker tracker' o n) (hcore : SeqidCore tracker' rows issued')
    (hjob' : job'.Tracked tracker') (hold : issued ⊆ issued')
    (hnew : ∀ i ∈ issued', i ∈ issued ∨ i.other = o ∧ (i.state = .pending → i.job = j ∧
      ∃ r renewal sid, job' = .persist r renewal sid ∧ sid.other = o))
    (htop : (∃ i ∈ issued', i.Live ∧ i.other = o ∧ i.seqid = n) ∨ job'.calls = some o) :
    SeqidInv tracker' rows (jobs.set j job') issued' := by
  have hself : (jobs.set j job')[j]? = some job' :=
    List.getElem?_set_self (List.getElem?_eq_some_iff.mp hj).1
  refine ⟨hcore, forall_mem_set (fun k hk => (h.tracked k hk).mono hrec.isSome) hjob',
    fun i hi hpend => ?_, fun i hi hlive m hm => ?_⟩
  · rcases hnew i hi with hi | ⟨rfl, hmine⟩
    · obtain ⟨r, renewal, sid, hget, ho⟩ := h.pending i hi hpend
      exact ⟨r, renewal, sid, getElem?_set_persist hj hpick hget, ho⟩
    · obtain ⟨rfl, r, renewal, sid, rfl, ho⟩ := hmine hpend
      exact ⟨r, renewal, sid, hself, ho⟩
  · rw [hrec.peek] at hm
    split at hm
    next ho =>
      cases hm
      rw [ho]
      exact htop.imp_right fun hcall => ⟨job', mem_of_getElem? hself, hcall⟩
    next ho =>
      have hi' := (hnew i hi).resolve_right fun hmine => ho hmine.1
      refine (h.top i hi' hlive m hm).imp (fun ⟨k, hk, hrest⟩ => ⟨k, hold hk, hrest⟩) ?_
      exact calls_set hj fun heq => ho (hcalls _ heq)

/-- Job `j` issues a seqid above the live ones of its stateid. -/
theorem SeqidInv.issue {i} (hj : jobs[j]? = some job) (hpick : job.picked = none)
    (hcalls : ∀ o, job.calls = some o → o = i.other)
    (hrec : Records tracker tracker' i.other i.seqid)
    (habove : ∀ k ∈ issued, k.Live → k.other = i.other → k.seqid < i.seqid) (hlive : i.Live)
    (hjob' : job'.Tracked tracker')
    (hpend : i.state = .pending → i.job = j ∧ ∃ r renewal sid, job' = .persist r renewal sid ∧
      sid.other = i.other) : SeqidInv tracker' rows (jobs.set j job') (i :: issued) := by
  have hcore := h.toSeqidCore.record hrec fun k hk hl ho => UInt32.le_of_lt (habove k hk hl ho)
  have hpeek : layoutSeqidPeek tracker' i.other = some i.seqid := by rw [hrec.peek, if_pos rfl]
  refine h.record hj hpick hcalls hrec (hcore.issue hpeek habove) hjob' (subset_cons_self _ _)
    (fun k hk => ?_) (.inl ⟨i, mem_cons_self, hlive, rfl, rfl⟩)
  rcases mem_cons.mp hk with rfl | hk
  · exact .inr ⟨rfl, hpend⟩
  · exact .inl hk

theorem SeqidInv.note {n : UInt32} (hj : jobs[j]? = some job) (hpick : job.picked = none)
    (hcalls : job.calls = none) (hrec : Records tracker tracker' o n)
    (habove : ∀ k ∈ issued, k.Live → k.other = o → k.seqid ≤ n) (hjob' : job'.picked = none)
    (hcalls' : job'.calls = some o) : SeqidInv tracker' rows (jobs.set j job') issued :=
  h.record hj hpick (fun _ ho => by rw [hcalls] at ho; cases ho) hrec
    (h.toSeqidCore.record hrec habove) (LayoutJob.tracked_of_picked hjob') (fun _ => id)
    (fun _ => .inl) (.inr hcalls')

/-- A stateid without a row that no LAYOUTGET has picked leaves the tracker. -/
theorem SeqidInv.remove (hno : ∀ row ∈ used rows, row.stateid.other ≠ o)
    (hpicked : ∀ job ∈ jobs, ∀ p ∈ job.picked, p.2.other ≠ o) :
    SeqidInv (layoutSeqidRemove tracker o) rows jobs issued := by
  refine ⟨h.toSeqidCore.remove hno, fun k hk => ?_, h.pending, fun i hi hlive n hn => ?_⟩
  · have htracked := h.tracked k hk
    cases k with
    | record => exact htracked
    | persist r _ sid =>
      have hne : sid.other ≠ o := hpicked _ hk _ rfl
      rw [LayoutJob.Tracked, peek_remove h.unique, if_neg hne]
      exact htracked
    | _ => trivial
  · rw [peek_remove h.unique] at hn
    split at hn
    · cases hn
    · exact h.top i hi hlive n hn

/-- A LAYOUTGET ends: its seqid is handed out, or dropped if it is the only live one. -/
theorem SeqidInv.settle {r : GetReq} {renewal : Bool} {sid : Stateid} {st : IssueState}
    (hj : jobs[j]? = some (.persist r renewal sid)) (hst : st ≠ .pending)
    (hdrop : st = .dropped → ∀ i ∈ issued, i.Live → i.other = sid.other →
      i.job = j ∧ i.state = .pending) (hjob' : job'.picked = none) :
    SeqidInv tracker rows (jobs.set j job') (PnfsLattice.settle j st issued) := by
  have hlive : ∀ i : Issue,
      (if i.job = j ∧ i.state = .pending then { i with state := st } else i).Live → i.Live := by
    intro i hi
    split at hi
    · next hpend =>
        intro hdropped
        cases hpend.2.symm.trans hdropped
    · exact hi
  refine ⟨h.toSeqidCore.mapIssued (fun i => by split <;> exact ⟨rfl, rfl⟩) hlive,
    forall_mem_set h.tracked (LayoutJob.tracked_of_picked hjob'), fun k hk hpend => ?_,
    fun k hk hkl n hn => ?_⟩
  · obtain ⟨i, hi, rfl⟩ := mem_map.mp hk
    by_cases hmine : i.job = j ∧ i.state = .pending
    · rw [if_pos hmine] at hpend
      exact absurd hpend hst
    · rw [if_neg hmine] at hpend ⊢
      obtain ⟨r', renewal', sid', hget, ho⟩ := h.pending i hi hpend
      have hne : j ≠ i.job := fun heq => hmine ⟨heq.symm, hpend⟩
      exact ⟨r', renewal', sid', (List.getElem?_set_ne hne).trans hget, ho⟩
  · obtain ⟨i, hi, rfl⟩ := mem_map.mp hk
    have hsame : (if i.job = j ∧ i.state = .pending then { i with state := st } else i).other =
        i.other := by
      split <;> rfl
    rw [hsame] at hn ⊢
    rcases h.top i hi (hlive i hkl) n hn with ⟨m, hm, hml, hmo, hmn⟩ | hcall
    · -- The issue the tracker agrees with is settled too; if it is dropped, so is `i`.
      refine .inl ⟨_, mem_map_of_mem hm, ?_⟩
      by_cases hmine : m.job = j ∧ m.state = .pending
      · rw [if_pos hmine]
        refine ⟨fun hdropped => ?_, hmo, hmn⟩
        obtain ⟨_, _, _, hget, ho⟩ := h.pending m hm hmine.2
        rw [hmine.1, hj] at hget
        cases hget
        have hi' := hdrop hdropped i hi (hlive i hkl) (hmo.symm.trans ho.symm)
        rw [if_pos hi'] at hkl
        exact hkl hdropped
      · rw [if_neg hmine]
        exact ⟨hml, hmo, hmn⟩
    · refine .inr (calls_set hj ?_ hcall)
      simp [LayoutJob.calls]

/-- The tracker and the jobs are gone, and the rows have what reached the clients. -/
theorem SeqidInv.restart
    (hrows : ∀ row ∈ used rows, ∀ i ∈ issued, i.state = .handed → i.other = row.stateid.other →
      i.seqid ≤ row.stateid.seqid) : SeqidInv [] rows [] (dropPending issued) := by
  have hhanded : ∀ i : Issue,
      (if i.state = .pending then { i with state := .dropped } else i).Live →
        i.state = .handed := by
    intro i hi
    cases hs : i.state with
    | handed => rfl
    | pending =>
      rw [if_pos hs] at hi
      exact absurd rfl hi
    | dropped =>
      rw [if_neg (by rw [hs]; decide)] at hi
      exact absurd hs hi
  have hlive : ∀ i : Issue,
      (if i.state = .pending then { i with state := .dropped } else i).Live → i.Live := by
    intro i hi hdropped
    rw [hhanded i hi] at hdropped
    cases hdropped
  have hfields : ∀ i : Issue,
      (if i.state = .pending then { i with state := .dropped } else i).other = i.other ∧
      (if i.state = .pending then { i with state := .dropped } else i).seqid = i.seqid := by
    intro i
    split <;> exact ⟨rfl, rfl⟩
  refine ⟨⟨nodup_nil, (h.toSeqidCore.mapIssued hfields hlive).increase, ?_, ?_⟩, ?_, ?_, ?_⟩
  · intro k _ _ n hn
    cases hn
  · intro row hrow _ k hk hkl ho
    obtain ⟨i, hi, rfl⟩ := mem_map.mp hk
    rw [(hfields i).1] at ho
    rw [(hfields i).2]
    exact hrows row hrow i hi (hhanded i hkl) ho
  · intro k hk
    cases hk
  · intro k hk hpend
    obtain ⟨i, -, rfl⟩ := mem_map.mp hk
    split at hpend
    · cases hpend
    · contradiction
  · intro k _ _ n hn
    cases hn

end

end Inv

/-! ## Steps keep the invariant -/

section Steps

variable {cfg : LayoutCfg} {s t : LayoutSys} {j : ℕ} {env : LayoutEnv}

variable {acts : List RecallAct} {next : Option (GetReq × Bool)}

theorem seqidInv_call (h : s.SeqidInv) {hd}
    (hj : s.jobs[j]? = some (.recalling (.call hd :: acts) next))
    (hsafe : (RecallAct.call hd).SeqidSafe s env) :
    LayoutSys.SeqidInv ((recallStep s j env acts (.call hd)).1.setJob j
      (.recalling (recallStep s j env acts (.call hd)).2 next)) := by
  obtain ⟨halloc, hanch, hwrap, hmax⟩ := hsafe
  have hcalls : ∀ o, (LayoutJob.recalling (.call hd :: acts) next).calls = some o →
      o = hd.stateid.other := fun o ho => (some.inj ho).symm
  rw [recallStep]
  split
  · next hadv =>
      obtain ⟨cur, hpeek, rfl, hpeek', hu⟩ := layoutSeqidAdvance_some hadv
      refine SeqidInv.issue h hj rfl hcalls ⟨hu h.unique, hpeek'⟩ (fun k hk hlive ho => ?_)
        (by simp [Issue.Live, Holder.issues]) trivial (fun hp => by cases hp)
      have hle := h.toSeqidCore.anchored hanch hk hlive ho
      rw [hpeek] at hle
      exact UInt32.lt_of_le_of_lt hle (lt_bumpSeqid (hwrap cur hpeek))
  · next hadv =>
      have hpeek := layoutSeqidAdvance_eq_none.mp hadv
      have hpos : bumpSeqid hd.stateid.seqid ≠ 0 := by
        intro hz
        have hlt := lt_bumpSeqid hmax
        rw [hz] at hlt
        exact absurd hlt (UInt32.not_lt_zero)
      refine SeqidInv.issue h hj rfl hcalls ⟨unique_recordAt h.unique, fun o => ?_⟩
        (fun k hk hlive ho => ?_) (by simp [Issue.Live, Holder.issues]) trivial
        (fun hp => by cases hp)
      · change layoutSeqidPeek (layoutSeqidRecordAt env.alloc _ _ _) o = _
        rw [halloc, peek_recordAt, hpeek, recordedSeqid_of_pos hpos]
        rfl
      · have hle := h.toSeqidCore.anchored hanch hk hlive ho
        rw [hpeek] at hle
        exact UInt32.lt_of_le_of_lt hle (lt_bumpSeqid hmax)

theorem le_recordedSeqid (n : UInt32) : n ≤ recordedSeqid n := by
  by_cases h : n = 0
  · rw [h]
    decide
  · rw [recordedSeqid_of_pos h]
    exact UInt32.le_refl n

theorem seqidInv_recallStep (h : s.SeqidInv) {act} (hu : s.rows.Unique)
    (hj : s.jobs[j]? = some (.recalling (act :: acts) next)) (hsafe : act.SeqidSafe s env) :
    LayoutSys.SeqidInv ((recallStep s j env acts act).1.setJob j
      (.recalling (recallStep s j env acts act).2 next)) := by
  cases act with
  | note hd =>
    rw [recallStep]
    by_cases hback : env.backchannel = true
    · obtain ⟨halloc, hanch⟩ := hsafe hback
      rw [if_pos hback, halloc]
      refine SeqidInv.note h hj rfl rfl ⟨unique_recordAt h.unique, fun o => peek_recordAt⟩
        (fun k hk hlive ho => ?_) rfl rfl
      have hle := h.toSeqidCore.anchored hanch hk hlive ho
      cases hpeek : layoutSeqidPeek s.tracker hd.stateid.other with
      | none =>
        rw [hpeek] at hle
        exact UInt32.le_trans hle (le_recordedSeqid _)
      | some =>
        rw [hpeek] at hle
        exact UInt32.le_trans hle (le_laterSeqid _ _).1
    · rw [if_neg hback]
      exact SeqidInv.setJob h hj rfl rfl trivial
  | call => exact seqidInv_call h hj hsafe
  | revoke =>
    refine SeqidInv.setJob (SeqidInv.withRows h fun _ hrow => ?_) hj rfl rfl trivial
    exact .inl ((mem_layoutReturned hu).mp hrow).1
  | untrack => exact SeqidInv.setJob (SeqidInv.remove h hsafe.1 hsafe.2) hj rfl rfl trivial

theorem seqidInv_persist (h : s.SeqidInv) {r renewal sid dsIds rows} (hu : s.rows.Unique)
    (hj : s.jobs[j]? = some (.persist r renewal sid))
    (hrows : layoutPersistGrant s.rows renewal (r.row sid dsIds) = .ok rows) :
    SeqidInv s.tracker rows s.jobs s.issued := by
  refine SeqidInv.withRows h fun row hrow => ?_
  rcases mem_layoutPersistGrant_cases hu hrows hrow with ⟨hold, -⟩ | ⟨-, hkey⟩
  · exact .inl hold
  · have ho : row.stateid.other = sid.other := congrArg Prod.snd hkey
    rw [ho]
    exact .inr (h.tracked _ (mem_of_getElem? hj))

variable {job : LayoutJob} {o : Other}

theorem seqidInv_goes (h : s.SeqidInv) {job'} (hj : s.jobs[j]? = some job)
    (hgoes : Goes s job job') : LayoutSys.SeqidInv (s.setJob j job') := by
  cases hgoes with
  | stop hearly =>
    cases job with
    | scan | lease => exact SeqidInv.setJob h hj rfl rfl trivial
    | recalling acts =>
      cases acts with
      | nil => exact SeqidInv.setJob h hj rfl rfl trivial
      | cons => cases hearly
    | _ => cases hearly
  | _ => exact SeqidInv.setJob h hj rfl rfl trivial

theorem LayoutOwnerInv.untracked (h : LayoutOwnerInv s) (ho : ownerOf o s.issued = none) :
    layoutSeqidPeek s.tracker o = none := by
  refine layoutSeqidPeek_eq_none.mpr fun e he heq => ?_
  have hsome := h.tracker e he
  rw [heq, ho] at hsome
  cases hsome

theorem seqidInv_jobMove (h : s.SeqidInv) (hown : LayoutOwnerInv s) (hj : s.jobs[j]? = some job)
    (hsafe : job.SeqidSafe s j env) (hmove : JobMove cfg s j env job t) : t.SeqidInv := by
  cases hmove with
  | goes hgoes => exact seqidInv_goes h hj hgoes
  | act => exact seqidInv_recallStep h hown.unique hj hsafe
  | @advance r renewal _ tracker _ hadv =>
    obtain ⟨cur, hpeek, rfl, hpeek', hu⟩ := layoutSeqidAdvance_some hadv
    refine SeqidInv.issue h hj rfl (fun o ho => by cases ho) ⟨hu h.unique, hpeek'⟩
      (fun k hk hlive ho => ?_) (by simp [Issue.Live, GetReq.issues]) ?_
      (fun _ => ⟨rfl, r, renewal, _, rfl, rfl⟩)
    · have hle := h.below k hk hlive cur (by rw [ho]; exact hpeek)
      exact UInt32.lt_of_le_of_lt hle (lt_bumpSeqid (hsafe cur hpeek))
    · change (layoutSeqidPeek tracker r.sid.other).isSome
      rw [hpeek', if_pos rfl]
      rfl
  | probe hget hfile => exact absurd hfile (hsafe _ hget)
  | record => exact (h.tracked _ (mem_of_getElem? hj)).elim
  | @make r renewal other hother =>
    -- The stateid is new: nobody was issued it, and it is not tracked.
    have hfresh := hown.issued.fresh (show other.tail = s.counter by rw [hother])
    have hpeek := hown.untracked hfresh
    have halloc : env.alloc = true := hsafe
    refine SeqidInv.issue h hj rfl (fun o ho => by cases ho) ⟨?_, fun o => ?_⟩
      (fun k hk _ ho => absurd ho (ownerOf_eq_none.mp hfresh k hk))
      (by simp [Issue.Live, GetReq.issues]) ?_ (fun _ => ⟨rfl, r, renewal, _, rfl, rfl⟩)
    · rw [halloc]
      exact unique_cons h.unique hpeek
    · rw [halloc]
      exact peek_recordNew
    · change (layoutSeqidPeek (layoutSeqidRecordNew env.alloc s.tracker other) other).isSome
      rw [halloc, peek_recordNew, if_pos rfl]
      rfl
  | unlisted hout =>
    refine SeqidInv.settle h hj (by decide) (fun _ => hsafe ?_) rfl
    rw [hout]
    decide
  | granted _ hrows =>
    exact SeqidInv.settle (seqidInv_persist h hown.unique hj hrows) hj (by decide)
      (fun hst => by cases hst) rfl
  | failed hne hrows hjob' =>
    refine SeqidInv.settle (seqidInv_persist h hown.unique hj hrows) hj (by decide)
      (fun _ => hsafe hne.2) ?_
    rcases hjob' with rfl | rfl <;> rfl
  | undo =>
    refine SeqidInv.setJob (SeqidInv.withRows h fun _ hrow => ?_) hj rfl rfl trivial
    exact .inl ((mem_layoutReturned hown.unique).mp hrow).1

theorem seqidInv_step {op} (h : s.SeqidInv) (hown : LayoutOwnerInv s) (hsafe : SeqidSafe s op)
    (hstep : layoutStep cfg s op = some t) : t.SeqidInv := by
  obtain ⟨hpres, hsafe⟩ := hsafe
  cases layoutMove_of_step hstep with
  | quiet => exact h
  | start hstart => exact SeqidInv.addJob h (by cases hstart <;> rfl)
  | job hj hmove => exact seqidInv_jobMove h hown hj (hsafe _ hj) hmove
  | layoutreturn hacc =>
    refine SeqidInv.remove (SeqidInv.withRows h fun _ hrow => ?_)
      (no_row_of_layoutReturned hown.unique fun row hrow ho => ?_) (hsafe.2 hacc)
    · exact .inl ((mem_layoutReturned hown.unique).mp hrow).1
    · have hrow' := hown.rows row hrow
      rw [ho] at hrow'
      exact congrArg Prod.snd (hpres hacc _ hrow')
  | restart => exact SeqidInv.restart h hsafe

theorem seqidInv_start (h : LayoutStart s) : s.SeqidInv := by
  obtain ⟨-, htracker, hjobs, hissued, -⟩ := h
  rw [LayoutSys.SeqidInv, htracker, hjobs, hissued]
  exact ⟨⟨nodup_nil, .nil, by simp, by simp⟩, by simp, by simp, by simp⟩

theorem seqidInv_of_reachable (h : Reachable LayoutStart (layoutStep cfg) SeqidSafe s) :
    LayoutOwnerInv s ∧ s.SeqidInv := by
  refine h.invariant (P := fun s => LayoutOwnerInv s ∧ s.SeqidInv) (fun u hu => ?_)
    fun u _ v hu hok hstep => ?_
  · exact ⟨layoutOwnerInv_start hu, seqidInv_start hu⟩
  · exact ⟨layoutOwnerInv_step hu.1 hok.1 hstep, seqidInv_step hu.2 hu.1 hok hstep⟩

/-! ## What the invariant gives -/

theorem LayoutSys.SeqidInv.seqidsIncrease (h : s.SeqidInv) : SeqidsIncrease s := by
  refine h.increase.imp fun hlt hl he ho => hlt ?_ ?_ ho
  · simp [Issue.Live, hl]
  · simp [Issue.Live, he]

theorem issuing_of_calls (h : job.calls = some o) : job.issuing = some o := by
  cases job with
  | recalling acts =>
    cases acts with
    | nil => cases h
    | cons act =>
      cases act with
      | call => exact h
      | _ => cases h
  | _ => cases h

/-- The seqid the tracker has is the highest that reached the client, unless another one is
on its way. -/
theorem LayoutSys.SeqidInv.latest_passes {clientid sid} (h : s.SeqidInv)
    (hown : LayoutOwnerInv s) (hlatest : HasLatest s clientid sid)
    (hquiet : NotIssuing s sid.other) : layoutreturnCheck s.tracker sid = .ok () := by
  obtain ⟨-, ⟨i, hi, hstate, ho, rfl, hseqid⟩, hmax⟩ := hlatest
  have hlive : i.Live := by simp [Issue.Live, hstate]
  rw [layoutreturnCheck, ← ho, ← hseqid]
  cases hpeek : layoutSeqidPeek s.tracker i.other with
  | none => rfl
  | some n =>
    have hle := h.below i hi hlive n hpeek
    have hge : n ≤ i.seqid := by
      rcases h.top i hi hlive n hpeek with ⟨k, hk, hkl, hko, rfl⟩ | ⟨job, hjob, hcalls⟩
      · have hhanded : k.state = .handed := by
          cases hks : k.state with
          | handed => rfl
          | dropped => exact absurd hks hkl
          | pending =>
            obtain ⟨r, _, _, hget, hsid⟩ := h.pending k hk hks
            refine absurd ?_ (hquiet _ (mem_of_getElem? hget))
            exact congrArg some (hsid.trans (hko.trans ho))
        have hclient := (hown.issued k hk).1.symm.trans (hko ▸ (hown.issued i hi).1)
        exact hseqid ▸ hmax k hk hhanded (hko.trans ho) (Prod.mk.inj (some.inj hclient)).1
      · exact absurd (ho ▸ issuing_of_calls hcalls) (hquiet job hjob)
    have heq : i.seqid = n := UInt32.le_antisymm hle hge
    simp [heq]

end Steps

/-- **Layout seqids move forward.**  In every run of steps that keep them in order, the
seqids of a stateid that reached the client increase in the order in which they were issued,
and a LAYOUTRETURN with the highest one the client has of a stateid it holds passes the check. -/
theorem layout_seqids_forward {cfg : LayoutCfg} {s : LayoutSys}
    (h : Reachable LayoutStart (layoutStep cfg) SeqidSafe s) :
    SeqidsIncrease s ∧ ∀ op, SeqidSafe s op → LatestPasses s op := by
  obtain ⟨hown, hinv⟩ := seqidInv_of_reachable h
  refine ⟨hinv.seqidsIncrease, fun op hsafe => ?_⟩
  cases op with
  | layoutreturn => exact fun hlatest => hinv.latest_passes hown hlatest (hsafe.2.1 hlatest)
  | _ => trivial

/-- A client gets a layout and renews it; a second client asks for the same page, and the
first one is called back with the next seqid. -/
def renewThenRecall : List LayoutOp :=
  getPage 1 (firstSid 0) 0 :: runLayoutJob 0 5 false .granted ++
    getPage 1 (firstSid 1) 0 :: runLayoutJob 1 4 false .granted ++
    getPage 2 (firstSid 0) 0 :: runLayoutJob 2 3 true .granted

theorem layout_seqids_forward_renewThenRecall :
    ∃ s, exec (layoutStep plainCfg) newLayoutServer renewThenRecall = some s ∧
      s.issued.map Issue.seqid = [3, 2, 1] ∧ SeqidsIncrease s ∧
      HasLatest s 1 (firstSid 3) ∧ layoutreturnCheck s.tracker (firstSid 3) = .ok () := by
  have hreach : Reachable LayoutStart (layoutStep plainCfg) SeqidSafe _ :=
    .run newLayoutServer renewThenRecall layoutStart_newLayoutServer
  obtain ⟨hinc, hpasses⟩ := layout_seqids_forward hreach
  exact ⟨_, rfl, by decide, hinc, by decide,
    hpasses (.layoutreturn 1 5 (firstSid 3) layout4FlexFiles .file) (by decide) (by decide)⟩

/-- After a restart the probe hands out seqid 3 and records 1: the renewal after it gets
seqid 2, and the client's seqid 3 is no longer accepted. -/
theorem probe_resets_seqid : ∃ t, exec (layoutStep plainCfg) newLayoutServer
        (getPage 1 (firstSid 0) 0 :: runLayoutJob 0 5 false .granted ++
          getPage 1 (firstSid 1) 0 :: runLayoutJob 1 4 false .granted ++ .restart 2 ::
          getPage 1 (firstSid 2) 0 :: runLayoutJob 0 6 false .granted ++
          getPage 1 (firstSid 3) 0 :: runLayoutJob 1 4 false .granted) = some t ∧
      t.issued.map Issue.seqid = [2, 3, 2, 1] ∧ ¬ SeqidsIncrease t ∧
      ¬ LatestPasses t (.layoutreturn 1 5 (firstSid 3) layout4FlexFiles .file) :=
  ⟨_, rfl, by decide, by decide, fun h => absurd (h (by decide)) (by decide)⟩

end PnfsLattice
