import PnfsLattice.ParentTouch.Steps

/-!
# Deferred parent updates are counted

Every commit of a deferred parent update adds one to the pending delta of a bucket. From
there the update moves: a snapshot or an eviction takes it in flight, a callback that
succeeds persists it, and a failed one gives it back. The books balance in every reachable
state once they also have an account for what is dropped: a failed flush looks its bucket up
again, and drops the delta if the bucket is gone. The snapshot leaves the bucket clean, so
that a preparation that is aborted, a clean eviction or a `flush_and_drop` may free it while
the callback runs.
-/

namespace PnfsLattice

open Lib List Option

/-! ## Dirty marks and flying deltas -/

/-- Exactly the buckets with something pending are dirty. -/
def Marked (l : List PtBucket) : Prop := ∀ e ∈ l, (e.dirtyAt = none ↔ e.pendingDelta = 0)

/-- No thread carries an empty delta. -/
def Loaded (k : List PtThread) : Prop := ∀ t ∈ k, ∀ p ∈ t.flying, 0 < p.2

section Lists

variable {l l₁ l₂ l' : List PtBucket} {e : PtBucket} {k₁ k₂ : List PtThread} {t : PtThread}

theorem marked_middle :
    Marked (l₁ ++ e :: l₂) ↔ (e.dirtyAt = none ↔ e.pendingDelta = 0) ∧ Marked (l₁ ++ l₂) := by
  simp only [Marked, mem_middle, forall_eq_or_imp]

theorem Marked.sublist (h : Marked l) (hsub : l'.Sublist l) : Marked l' :=
  fun e he => h e (hsub.subset he)

theorem marked_cons : Marked (e :: l) ↔ (e.dirtyAt = none ↔ e.pendingDelta = 0) ∧ Marked l :=
  forall_mem_cons

theorem loaded_middle : Loaded (k₁ ++ t :: k₂) ↔ (∀ p ∈ t.flying, 0 < p.2) ∧ Loaded (k₁ ++ k₂) := by
  simp only [Loaded, mem_middle, forall_eq_or_imp]

theorem loaded_cons : Loaded (t :: k₁) ↔ (∀ p ∈ t.flying, 0 < p.2) ∧ Loaded k₁ :=
  forall_mem_cons

theorem dirty_restocked {dirtyAt : Option ℕ} {pending delta tick : ℕ} (h : 0 < delta) :
    (if 0 < pending + delta then some tick else dirtyAt) = none ↔ pending + delta = 0 := by
  rw [if_pos (Nat.add_pos_right _ h)]
  simp only [reduceCtorEq, false_iff]
  omega

@[simp] theorem flying_running (tid : ℕ) (job : FlushJob) :
    (PtThread.mk tid job none).flying = job.items := rfl

theorem flying_of_ne {t : PtThread} (h : t.outcome ≠ some true) : t.flying = t.job.items :=
  if_neg h

theorem flying_of_ok {t : PtThread} (h : t.outcome = some true) : t.flying = t.job.items.tail :=
  if_pos h

variable {job : FlushJob} {next : Option FlushJob}

/-- What a thread carries after `goOn`. -/
theorem flatMap_nextThread (h : Rest job next) (tid : ℕ) :
    (nextThread tid next).flatMap PtThread.flying = job.items.tail := by
  rw [← h.items]
  cases next with
  | none => rfl
  | some => simp [nextThread]

theorem loaded_next (h : Rest job next) (hpos : ∀ p ∈ job.items.tail, 0 < p.2)
    (hk : Loaded (k₁ ++ k₂)) (tid : ℕ) : Loaded (k₁ ++ nextThread tid next ++ k₂) := by
  have hnext : Loaded (nextThread tid next) := fun t ht p hp =>
    hpos p (flatMap_nextThread h tid ▸ mem_flatMap.mpr ⟨t, ht, hp⟩)
  simp only [Loaded, forall_mem_append] at hk hnext ⊢
  exact ⟨⟨hk.1, hnext⟩, hk.2⟩

end Lists

/-! ## Amounts along split lists -/

section Amounts

variable {d : Fileid} {l₁ l₂ : List PtBucket} {e : PtBucket} {k₁ k₂ : List PtThread}
  {t : PtThread}

theorem pendingOf_cons (l : List PtBucket) :
    pendingOf d (e :: l) = (if e.fileid = d then e.pendingDelta else 0) + pendingOf d l :=
  tally_cons e l

theorem pendingOf_middle : pendingOf d (l₁ ++ e :: l₂) =
      (if e.fileid = d then e.pendingDelta else 0) + pendingOf d (l₁ ++ l₂) := by
  simp only [pendingOf, tally_append, tally_cons]
  omega

theorem pendingOf_update (e e' : PtBucket) (n : ℕ) (hf : e'.fileid = e.fileid)
    (hp : e'.pendingDelta = e.pendingDelta + n) : pendingOf d (l₁ ++ e' :: l₂) =
      (if e.fileid = d then n else 0) + pendingOf d (l₁ ++ e :: l₂) := by
  rw [pendingOf_middle, pendingOf_middle, hf]
  split <;> omega

theorem pendingOf_remove (hzero : e.pendingDelta = 0) :
    pendingOf d (l₁ ++ e :: l₂) = pendingOf d (l₁ ++ l₂) := by
  rw [pendingOf_middle, hzero, ite_self, Nat.zero_add]

theorem pendingOf_snapshot : pendingOf d (l₁ ++ snapshotTake e :: l₂) = pendingOf d (l₁ ++ l₂) :=
  pendingOf_remove rfl

/-- The deltas of a list for a directory. -/
def deltaOf (d : Fileid) (items : List (Fileid × ℕ)) : ℕ := tally Prod.fst Prod.snd d items

@[simp] theorem deltaOf_nil : deltaOf d [] = 0 := rfl

theorem deltaOf_cons (p : Fileid × ℕ) (items : List (Fileid × ℕ)) :
    deltaOf d (p :: items) = (if p.1 = d then p.2 else 0) + deltaOf d items :=
  tally_cons p items

theorem flyingOf_cons (k : List PtThread) :
    flyingOf d (t :: k) = deltaOf d t.flying + flyingOf d k := by
  simp [flyingOf, deltaOf]

theorem flyingOf_middle :
    flyingOf d (k₁ ++ t :: k₂) = deltaOf d t.flying + flyingOf d (k₁ ++ k₂) := by
  simp only [flyingOf, deltaOf, flatMap_append, flatMap_cons, tally_append]
  omega

variable {fileid : Fileid}

theorem flyingOf_drop (h : t.job = .drop fileid) :
    flyingOf d (k₁ ++ t :: k₂) = flyingOf d (k₁ ++ k₂) := by
  simp [flyingOf_middle, PtThread.flying, h, FlushJob.items, deltaOf_nil]

theorem flyingOf_release {victim seedChange} (hjob : t.job = .evict victim fileid seedChange)
    (hout : t.outcome = some true) : flyingOf d (k₁ ++ t :: k₂) = flyingOf d (k₁ ++ k₂) := by
  rw [flyingOf_middle, flying_of_ok hout, hjob, FlushJob.items, tail_cons, deltaOf_nil,
    Nat.zero_add]

theorem flyingOf_next {job next} (h : Rest job next) (tid : ℕ) :
    flyingOf d (k₁ ++ nextThread tid next ++ k₂) =
      deltaOf d job.items.tail + flyingOf d (k₁ ++ k₂) := by
  simp only [flyingOf, deltaOf, flatMap_append, flatMap_nextThread h, tally_append]
  omega

end Amounts

/-! ## Evictions and snapshots -/

variable {l l' : List PtBucket} {victim : PtBucket} {s : PtSys} {fileid : Fileid} {seedChange : ℕ}
  {t : PtSys} {op : PtOp} {k₁ k₂ : List PtThread}

theorem Evicted.pending_eq (h : Evicted l l') (hm : Marked l) (d : Fileid) :
    pendingOf d l' = pendingOf d l := by
  induction h with
  | refl => rfl
  | step hclean _ ih =>
    obtain ⟨he, hrest⟩ := marked_middle.mp hm
    rw [ih hrest, pendingOf_remove (he.mp hclean)]

variable {l₁ l₂ : List PtBucket} {items : List (Fileid × ℕ)} {r : PrepareResult} {e : PtBucket}
  {delta : ℕ} {rest : List (Fileid × ℕ)}

theorem Evicted.victim_pending (h : Evicted l (l₁ ++ victim :: l₂)) (hm : Marked l)
    (hdirty : victim.dirtyAt ≠ none) : victim.pendingDelta ≠ 0 := by
  obtain ⟨hv, -⟩ := marked_middle.mp (hm.sublist h.sublist)
  exact fun hzero => hdirty (hv.mpr hzero)

theorem Snapped.delta_eq (h : Snapped l items l') (d : Fileid) :
    deltaOf d items + pendingOf d l' = pendingOf d l := by
  induction h with
  | nil => simp
  | step _ _ ih =>
    rw [pendingOf_snapshot] at ih
    rw [deltaOf_cons, pendingOf_middle, Nat.add_assoc, ih]

theorem Snapped.marked (h : Snapped l items l') (hm : Marked l) :
    Marked l' ∧ ∀ p ∈ items, 0 < p.2 := by
  induction h with
  | nil => exact ⟨hm, by simp⟩
  | step hdirty _ ih =>
    obtain ⟨he, hrest⟩ := marked_middle.mp hm
    obtain ⟨hl', hitems⟩ := ih (marked_middle.mpr ⟨by simp [snapshotTake], hrest⟩)
    refine ⟨hl', forall_mem_cons.mpr ⟨?_, hitems⟩⟩
    exact Nat.pos_of_ne_zero fun hzero => hdirty (he.mpr hzero)

/-! ## The marks in every reachable state -/

/-- Buckets are marked, and threads are loaded. -/
structure PtSys.Tidy (s : PtSys) : Prop where
  marked : Marked s.shard.buckets
  loaded : Loaded s.threads

theorem PtSys.Tidy.prepared (h : s.Tidy) (hroom : Room s.shard.buckets fileid seedChange l r)
    (tid : ℕ) : (s.prepared tid fileid seedChange { s.shard with buckets := l } r).Tidy := by
  cases hroom with
  | inserted hev =>
    exact ⟨marked_cons.mpr ⟨by simp [newBucket], h.marked.sublist hev.sublist⟩, h.loaded⟩
  | fallback hev => exact ⟨h.marked.sublist hev.sublist, h.loaded⟩
  | evict hev hdirty =>
    have hrest := (marked_middle.mp (h.marked.sublist hev.sublist)).2
    have hpos := hev.victim_pending h.marked hdirty
    refine ⟨hrest, loaded_cons.mpr ⟨?_, h.loaded⟩⟩
    simp [PtThread.flying, hpos, FlushJob.items, Nat.pos_of_ne_zero hpos]

theorem ptEffect_tidy (hs : s.Tidy) (h : PtEffect s op t) : t.Tidy := by
  obtain ⟨hm, hl⟩ := hs
  cases h with
  | idle | syncBump | noteMiss | readRow | overlay => exact ⟨hm, hl⟩
  | fold hb | unpin hb | note hb =>
    obtain ⟨he, hrest⟩ := marked_middle.mp (hb ▸ hm)
    exact ⟨marked_middle.mpr ⟨he, hrest⟩, hl⟩
  | room _ _ hroom => exact PtSys.Tidy.prepared ⟨hm, hl⟩ hroom _
  | commit hb =>
    exact ⟨marked_middle.mpr ⟨by simp [commitBucket], (marked_middle.mp (hb ▸ hm)).2⟩, hl⟩
  | residue hb => exact ⟨(marked_middle.mp (hb ▸ hm)).2, hl⟩
  | take hb hpos =>
    exact ⟨marked_middle.mpr ⟨by simp [snapshotTake], (marked_middle.mp (hb ▸ hm)).2⟩,
      loaded_cons.mpr ⟨by simpa [FlushJob.items] using hpos, hl⟩⟩
  | launchDrop => exact ⟨hm, loaded_cons.mpr ⟨by simp [FlushJob.items], hl⟩⟩
  | drain hsnap =>
    obtain ⟨hm', hpos⟩ := hsnap.marked hm
    exact ⟨hm', loaded_cons.mpr ⟨hpos, hl⟩⟩
  | callbackOk hk hnone =>
    obtain ⟨hpos, hrest⟩ := loaded_middle.mp (hk ▸ hl)
    rw [flying_of_ne (by simp [hnone])] at hpos
    refine ⟨hm, loaded_middle.mpr ⟨?_, hrest⟩⟩
    exact fun p hp => hpos p (mem_of_mem_tail hp)
  | callbackFail hk hnone =>
    obtain ⟨hpos, hrest⟩ := loaded_middle.mp (hk ▸ hl)
    rw [flying_of_ne (by simp [hnone])] at hpos
    exact ⟨hm, loaded_middle.mpr ⟨hpos, hrest⟩⟩
  | resume _ hk _ _ _ hroom =>
    obtain ⟨-, hk'⟩ := loaded_middle.mp (hk ▸ hl)
    have hs' : (s.withThreads (_ ++ _)).Tidy := ⟨hm, hk'⟩
    exact hs'.prepared hroom _
  | absorb _ hk hjob hout hb =>
    obtain ⟨he, hrest⟩ := marked_middle.mp (hb ▸ hm)
    obtain ⟨hpos, hk'⟩ := loaded_middle.mp (hk ▸ hl)
    rw [flying_of_ne (by simp [hout]), hjob] at hpos
    exact ⟨marked_middle.mpr ⟨dirty_restocked (hpos _ mem_cons_self), hrest⟩, hk'⟩
  | putBack _ hk hjob hout =>
    obtain ⟨hpos, hk'⟩ := loaded_middle.mp (hk ▸ hl)
    rw [flying_of_ne (by simp [hout]), hjob] at hpos
    have hv : 0 < _ := hpos _ mem_cons_self
    exact ⟨marked_cons.mpr ⟨by simp; omega, hm⟩, hk'⟩
  | passed _ hk _ hout hnext =>
    obtain ⟨hpos, hk'⟩ := loaded_middle.mp (hk ▸ hl)
    exact ⟨hm, loaded_next hnext (flying_of_ok hout ▸ hpos) hk' _⟩
  | restored _ hk _ hitems hout hnext hb =>
    obtain ⟨-, hrest⟩ := marked_middle.mp (hb ▸ hm)
    obtain ⟨hpos, hk'⟩ := loaded_middle.mp (hk ▸ hl)
    rw [flying_of_ne (by simp [hout])] at hpos
    have hdelta := hpos _ (hitems ▸ mem_cons_self)
    exact ⟨marked_middle.mpr ⟨dirty_restocked hdelta, hrest⟩,
      loaded_next hnext (fun p hp => hpos p (mem_of_mem_tail hp)) hk' _⟩
  | lost _ hk _ _ hout hnext =>
    obtain ⟨hpos, hk'⟩ := loaded_middle.mp (hk ▸ hl)
    rw [flying_of_ne (by simp [hout])] at hpos
    exact ⟨hm, loaded_next hnext (fun p hp => hpos p (mem_of_mem_tail hp)) hk' _⟩
  | drop hk _ hb => exact ⟨(marked_middle.mp (hb ▸ hm)).2, (loaded_middle.mp (hk ▸ hl)).2⟩
  | dropMiss hk => exact ⟨hm, (loaded_middle.mp (hk ▸ hl)).2⟩

/-! ## The books -/

/-- **Every update is accounted for**: it was persisted, or is in flight, or is pending,
or was dropped. -/
def PtSys.Balanced (s : PtSys) : Prop :=
  ∀ d, (s.returned d).length = s.succeeded d + s.inflight d + s.pending d + s.lost d

section

variable (h : s.Balanced)

include h

theorem PtSys.Balanced.prepared (hm : Marked s.shard.buckets)
    (hroom : Room s.shard.buckets fileid seedChange l r) (tid : ℕ) :
    (s.prepared tid fileid seedChange { s.shard with buckets := l } r).Balanced := by
  intro d
  have hd := h d
  rw [PtSys.pending, PtSys.inflight] at hd ⊢
  cases hroom with
  | @inserted l' hev =>
    have hnew : pendingOf d (newBucket fileid seedChange :: l') = pendingOf d l' :=
      @pendingOf_remove d [] l' _ rfl
    rw [← hev.pending_eq hm, ← hnew] at hd
    exact hd
  | fallback hev => exact (hev.pending_eq hm d).symm ▸ hd
  | evict hev hdirty =>
    have hpos := hev.victim_pending hm hdirty
    rw [← hev.pending_eq hm, pendingOf_middle] at hd
    rw [PtSys.prepared, if_neg hpos, flyingOf_cons, flying_running, FlushJob.items,
      deltaOf_cons, deltaOf_nil]
    dsimp only
    omega

/-- What only moves between the buckets and the threads stays on the books. -/
theorem PtSys.Balanced.of_move (hret : t.returned = s.returned)
    (hsucc : t.succeeded = s.succeeded) (hlost : t.lost = s.lost)
    (hmove : ∀ d, flyingOf d t.threads + pendingOf d t.shard.buckets =
      flyingOf d s.threads + pendingOf d s.shard.buckets) : t.Balanced := by
  intro d
  have hd := h d
  have hmove := hmove d
  rw [PtSys.pending, PtSys.inflight] at hd ⊢
  rw [hret, hsucc, hlost]
  omega

theorem PtSys.Balanced.release {t} (hk : s.threads = k₁ ++ t :: k₂)
    (hjob : t.job = .evict victim fileid seedChange) (hout : t.outcome = some true) :
    (s.withThreads (k₁ ++ k₂)).Balanced := by
  refine h.of_move rfl rfl rfl fun d => ?_
  rw [hk, flyingOf_release hjob hout]
  rfl

theorem PtSys.Balanced.commit (hb : s.shard.buckets = l₁ ++ e :: l₂) (now : Timespec) :
    PtSys.Balanced
      { s.withBuckets (l₁ ++ commitBucket now s.shard.tick e :: l₂) (s.shard.tick + 1) with
        returned := fun d =>
          if e.fileid = d then (e.logicalChange + 1) :: s.returned d else s.returned d } := by
  intro d
  have hd := h d
  have hp : pendingOf d (l₁ ++ commitBucket now s.shard.tick e :: l₂) = _ :=
    pendingOf_update e _ 1 rfl rfl
  rw [PtSys.pending, hb] at hd
  simp only [PtSys.pending, PtSys.inflight, PtSys.withBuckets, hp] at hd ⊢
  split_ifs with heq <;> simp <;> omega

theorem PtSys.Balanced.persist {t} (hk : s.threads = k₁ ++ t :: k₂) (hnone : t.outcome = none)
    (hitems : t.job.items = (fileid, delta) :: rest) : PtSys.Balanced
      { s.withThreads (k₁ ++ { t with outcome := some true } :: k₂) with
        persisted := bump s.persisted fileid delta
        succeeded := bump s.succeeded fileid delta } := by
  intro d
  have hd := h d
  have hfly : flyingOf d (k₁ ++ { t with outcome := some true } :: k₂) = _ := flyingOf_middle
  rw [flying_of_ok rfl, hitems, tail_cons] at hfly
  rw [PtSys.inflight, hk, flyingOf_middle, flying_of_ne (by simp [hnone]), hitems,
    deltaOf_cons] at hd
  simp only [PtSys.pending, PtSys.inflight, PtSys.withThreads, bump_apply] at hd ⊢
  omega

theorem PtSys.Balanced.dropDelta {t next} (hk : s.threads = k₁ ++ t :: k₂)
    (hitems : t.job.items = (fileid, delta) :: rest) (hout : t.outcome = some false)
    (hnext : Rest t.job next) : PtSys.Balanced
      { s.withThreads (k₁ ++ nextThread t.tid next ++ k₂) with
        lost := bump s.lost fileid delta } := by
  intro d
  have hd := h d
  rw [PtSys.inflight, hk, flyingOf_middle, flying_of_ne (by simp [hout]), hitems,
    deltaOf_cons] at hd
  simp only [PtSys.pending, PtSys.inflight, PtSys.withThreads, flyingOf_next hnext, hitems,
    tail_cons, bump_apply] at hd ⊢
  omega

end

theorem ptEffect_balanced (hs : s.Tidy) (hbal : s.Balanced) (h : PtEffect s op t) : t.Balanced := by
  cases h with
  | idle | syncBump | noteMiss | readRow | overlay => exact hbal
  | room _ _ hroom => exact hbal.prepared hs.marked hroom _
  | resume _ hk hjob hout _ hroom => exact (hbal.release hk hjob hout).prepared hs.marked hroom _
  | commit hb => exact hbal.commit hb _
  | callbackOk hk hnone hitems => exact hbal.persist hk hnone hitems
  | lost _ hk _ hitems hout hnext => exact hbal.dropDelta hk hitems hout hnext
  | fold hb =>
    refine hbal.of_move rfl rfl rfl fun d => ?_
    rw [hb, pendingOf_middle, PtSys.withBuckets, pendingOf_middle]
    rfl
  | unpin hb | note hb =>
    refine hbal.of_move rfl rfl rfl fun d => ?_
    rw [hb, pendingOf_middle, PtSys.withBuckets, pendingOf_middle]
  | residue hb hzero =>
    refine hbal.of_move rfl rfl rfl fun d => ?_
    rw [hb, pendingOf_remove hzero]
    rfl
  | take hb =>
    refine hbal.of_move rfl rfl rfl fun d => ?_
    rw [hb, pendingOf_middle]
    simp only [PtSys.withBuckets, PtSys.launch, pendingOf_snapshot, flyingOf_cons,
      flying_running, FlushJob.items, deltaOf_cons, deltaOf_nil]
    omega
  | launchDrop =>
    refine hbal.of_move rfl rfl rfl fun d => ?_
    simp only [PtSys.launch, flyingOf_cons, flying_running, FlushJob.items, deltaOf_nil]
    omega
  | drain hsnap =>
    refine hbal.of_move rfl rfl rfl fun d => ?_
    rw [← hsnap.delta_eq]
    simp only [PtSys.withBuckets, PtSys.launch, flyingOf_cons, flying_running, FlushJob.items]
    omega
  | callbackFail hk hnone =>
    refine hbal.of_move rfl rfl rfl fun d => ?_
    rw [hk, flyingOf_middle, flying_of_ne (by simp [hnone]), PtSys.withThreads, flyingOf_middle]
    rfl
  | @absorb l₁ l₂ e _ _ u victim _ _ _ _ _ _ hk hjob hout hb he =>
    refine hbal.of_move rfl rfl rfl fun d => ?_
    have hp : pendingOf d (l₁ ++ absorbVictim victim s.shard.tick e :: l₂) = _ :=
      pendingOf_update e _ _ rfl rfl
    rw [hk, flyingOf_middle, flying_of_ne (by simp [hout]), hjob, hb, FlushJob.items,
      deltaOf_cons, deltaOf_nil]
    simp only [PtSys.withBuckets, PtSys.withThreads, hp, he]
    omega
  | putBack _ hk hjob hout =>
    refine hbal.of_move rfl rfl rfl fun d => ?_
    rw [hk, flyingOf_middle, flying_of_ne (by simp [hout]), hjob, FlushJob.items, deltaOf_cons,
      deltaOf_nil]
    simp only [PtSys.withBuckets, PtSys.withThreads, pendingOf_cons]
    omega
  | passed _ hk _ hout hnext =>
    refine hbal.of_move rfl rfl rfl fun d => ?_
    rw [hk, flyingOf_middle, flying_of_ok hout, PtSys.withThreads, flyingOf_next hnext]
  | @restored _ _ e _ _ u _ _ _ _ _ _ _ hk _ hitems hout hnext hb =>
    refine hbal.of_move rfl rfl rfl fun d => ?_
    rw [hk, flyingOf_middle, flying_of_ne (by simp [hout]), hitems, deltaOf_cons, hb]
    simp only [PtSys.withBuckets, PtSys.withThreads, flyingOf_next hnext, hitems,
      tail_cons, pendingOf_middle]
    split_ifs <;> omega
  | drop hk hjob hb hzero =>
    refine hbal.of_move rfl rfl rfl fun d => ?_
    rw [hk, flyingOf_drop hjob, hb, pendingOf_remove hzero]
    rfl
  | dropMiss hk hjob =>
    refine hbal.of_move rfl rfl rfl fun d => ?_
    rw [hk, flyingOf_drop hjob]
    rfl

variable (capacity : ℕ) (persisted : Fileid → ℕ)

theorem ptSysInit_tidy : (ptSysInit capacity persisted).Tidy :=
  ⟨by simp [ptSysInit, Marked], by simp [ptSysInit, Loaded]⟩

theorem ptSysInit_balanced : (ptSysInit capacity persisted).Balanced :=
  fun _ => rfl

/-! ## Nothing is lost -/

/-- For each directory, the commits that succeeded are the deltas that were persisted,
those in flight and those pending. -/
def PtSys.Conserved (s : PtSys) : Prop :=
  ∀ d, (s.returned d).length = s.succeeded d + s.inflight d + s.pending d

/-- A flush whose callback failed still finds a bucket of its directory when it has the
lock again. -/
def RestoreOk (s : PtSys) : PtOp → Prop
  | .complete tid _ _ =>
    ∀ t ∈ s.threads.find? (hasTid tid), t.outcome = some false →
      t.job.restores.all fun d => (shardFind s.shard d).isSome
  | _ => True

theorem conserved_iff (h : s.Balanced) : s.Conserved ↔ ∀ d, s.lost d = 0 := by
  refine forall_congr' fun d => ?_
  have hd := h d
  omega

theorem shardFind_isSome_of_mem {sh} (h : e ∈ sh.buckets) : (shardFind sh e.fileid).isSome := by
  rw [shardFind, List.find?_isSome]
  exact ⟨e, h, by simp [isDir]⟩

theorem restoreOk_of_victim {tid t picks alloc} (hfind : s.threads.find? (hasTid tid) = some t)
    (hjob : t.job = .evict victim fileid seedChange) : RestoreOk s (.complete tid picks alloc) := by
  intro u hu _
  obtain rfl : t = u := mem_unique hfind hu
  simp [hjob, FlushJob.restores]

/-- **Exactly the flushes that miss their bucket lose something.** -/
theorem ptEffect_lost (hs : s.Tidy) (h : PtEffect s op t) :
    (RestoreOk s op ∧ t.lost = s.lost) ∨ (¬ RestoreOk s op ∧ ∃ d, s.lost d < t.lost d) := by
  cases h with
  | @lost _ _ u _ fileid _ delta _ _ _ hfind hk hjob hitems hout _ hno =>
    refine .inr ⟨fun hok => ?_, fileid, ?_⟩
    · have hsome : (shardFind s.shard fileid).isSome := by
        simpa [hjob] using hok u hfind hout
      obtain ⟨e, he⟩ := isSome_iff_exists.mp hsome
      obtain ⟨hfile, _, _, hsplit, -⟩ := shardFind_split he
      exact hno e (by rw [hsplit]; simp) hfile
    · obtain ⟨hpos, -⟩ := loaded_middle.mp (hk ▸ hs.loaded)
      rw [flying_of_ne (by simp [hout]), hitems] at hpos
      have hdelta := hpos _ mem_cons_self
      have hbump : bump s.lost fileid delta fileid = s.lost fileid + delta := if_pos rfl
      exact Nat.lt_of_lt_of_eq (Nat.lt_add_of_pos_right hdelta) hbump.symm
  | restored hfind _ hjob _ _ _ hb =>
    refine .inl ⟨fun u hu _ => ?_, rfl⟩
    obtain rfl := mem_unique hfind hu
    rw [hjob]
    exact shardFind_isSome_of_mem (by rw [hb]; simp)
  | passed hfind _ _ hout =>
    refine .inl ⟨fun u hu hfail => ?_, rfl⟩
    obtain rfl := mem_unique hfind hu
    simp [hout] at hfail
  | idle =>
    refine .inl ⟨?_, rfl⟩
    cases op <;> trivial
  | room _ _ hroom => exact .inl ⟨trivial, by cases hroom <;> rfl⟩
  | resume hfind _ hjob _ _ hroom =>
    exact .inl ⟨restoreOk_of_victim hfind hjob, by cases hroom <;> rfl⟩
  | absorb hfind _ hjob | putBack hfind _ hjob => exact .inl ⟨restoreOk_of_victim hfind hjob, rfl⟩
  | _ => exact .inl ⟨trivial, rfl⟩

/-- One step keeps the updates counted exactly if it does not drop a delta. -/
theorem ptStep_conserved_iff (hs : s.Tidy ∧ s.Balanced) (hcons : s.Conserved)
    (h : ptStep s op = some t) : t.Conserved ↔ RestoreOk s op := by
  have heff := ptStep_effect h
  have hzero := (conserved_iff hs.2).mp hcons
  rw [conserved_iff (ptEffect_balanced hs.1 hs.2 heff)]
  rcases ptEffect_lost hs.1 heff with ⟨hok, hlost⟩ | ⟨hno, d, hlt⟩
  · exact ⟨fun _ => hok, fun _ d => by rw [hlost, hzero d]⟩
  · exact ⟨fun hall => absurd (hall d) (by omega), fun hok => absurd hok hno⟩

/-- **A run loses no deferred update exactly if every flush of it that fails still finds a
bucket of its directory.** -/
theorem touches_conserved_iff (capacity : ℕ) (persisted : Fileid → ℕ) (run : List PtOp) :
    AllStates ptStep PtSys.Conserved (ptSysInit capacity persisted) run ↔
      AllSteps ptStep RestoreOk (ptSysInit capacity persisted) run := by
  refine allStates_iff_allSteps (I := fun s => s.Tidy ∧ s.Balanced) ?_ ?_ run
    ⟨ptSysInit_tidy _ _, ptSysInit_balanced _ _⟩ fun _ => rfl
  · rintro s _ t ⟨htidy, hbal⟩ hstep
    have heff := ptStep_effect hstep
    exact ⟨ptEffect_tidy htidy heff, ptEffect_balanced htidy hbal heff⟩
  · exact fun s _ t hs hcons hstep => ptStep_conserved_iff hs hcons hstep

/-- **The accounts of deferred updates.**  At all times each update is persisted, in flight,
pending or dropped, and exactly the buckets with something pending are dirty. -/
theorem touches_accounted (capacity : ℕ) (persisted : Fileid → ℕ) (run : List PtOp) :
    AllStates ptStep (fun s => s.Tidy ∧ s.Balanced) (ptSysInit capacity persisted) run := by
  refine allStates_invariant (fun s op t hs hstep => ?_) run
    ⟨ptSysInit_tidy _ _, ptSysInit_balanced _ _⟩
  have heff := ptStep_effect hstep
  exact ⟨ptEffect_tidy hs.1 heff, ptEffect_balanced hs.1 hs.2 heff⟩

/-- A mutation of directory 7 is committed and flushed; while the callback runs, another
mutation is prepared and aborted, which frees the bucket; then the callback fails. -/
def abortedRun : List PtOp :=
  [.prepare 1 7 0 [] true, .commit 7 ⟨5, 0⟩, .flush 2 7 false, .prepare 1 7 1 [] true, .abort 7,
    .callback 2 false, .complete 2 [] true]

/-- The update of the run is neither persisted nor in flight nor pending. -/
theorem touches_conserved_aborted : ∃ s, Reachable PtInit ptStep anyStep s ∧
    s.returned 7 = [1] ∧ s.succeeded 7 = 0 ∧ s.inflight 7 = 0 ∧ s.pending 7 = 0 ∧
      ¬ s.Conserved := by
  refine ⟨_, .run (ptSysInit 4 fun _ => 0) abortedRun ⟨4, _, Nat.le_refl 4, rfl⟩, rfl, rfl, rfl, rfl,
    fun hcons => ?_⟩
  exact absurd (hcons 7) (by decide)

end PnfsLattice
