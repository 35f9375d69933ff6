import PnfsLattice.Lib.Cached
import PnfsLattice.ParentTouch.Conservation

/-!
# The change attribute of a directory

A bucket is a cached level of the directory's change counter: the counter is what is
persisted together with what is in flight and pending, a commit issues an update from the
level, and a synchronous mutation by-passes it until it is noted. Under the conditions
below each step of the system is a step of that cache, so that the levels stay in their
bounds and the values handed out increase.

The code does not keep the conditions. A bucket may be freed while its delta is in flight,
and the next preparation then seeds a new one from a row that the flush has not reached.
-/

namespace PnfsLattice

open Lib List

/-! ## Levels -/

def PtBucket.level (e : PtBucket) : Fileid × ℕ := (e.fileid, e.logicalChange)

/-- The bucket that a thread has detached and no callback has persisted. -/
def PtThread.detached (t : PtThread) : Option PtBucket :=
  if t.outcome = some true then none else t.job.victim

/-- The levels of the buckets in the shard and of the detached ones. -/
def levelsOf (l : List PtBucket) (k : List PtThread) : List (Fileid × ℕ) :=
  (l ++ k.filterMap PtThread.detached).map PtBucket.level

/-- The change counter of a directory, with all that is on its way to the row. -/
def PtSys.total (s : PtSys) (d : Fileid) : ℕ := s.persisted d + s.inflight d + s.pending d

/-- The system as counters with a cached level. -/
def PtSys.counters (s : PtSys) : Counters Fileid :=
  { levels := levelsOf s.shard.buckets s.threads, seen := s.returned, total := s.total
    unreported := s.unnoted }

section Levels

variable {l l₁ l₂ l' : List PtBucket} {e : PtBucket} {k k₁ k₂ : List PtThread} {t : PtThread}

theorem levelsOf_bucket : (levelsOf (l₁ ++ e :: l₂) k).Perm (e.level :: levelsOf (l₁ ++ l₂) k) := by
  simp [levelsOf]

theorem levelsOf_write {e'} (h : e'.level = e.level) :
    (levelsOf (l₁ ++ e' :: l₂) k).Subperm (levelsOf (l₁ ++ e :: l₂) k) :=
  (List.Perm.of_eq (by simp [levelsOf, h])).subperm

theorem levelsOf_remove : (levelsOf (l₁ ++ l₂) k).Subperm (levelsOf (l₁ ++ e :: l₂) k) :=
  (sublist_cons_self _ _).subperm.trans levelsOf_bucket.symm.subperm

theorem levelsOf_sublist (h : l'.Sublist l) : (levelsOf l' k).Subperm (levelsOf l k) :=
  ((h.append_right _).map _).subperm

theorem levelsOf_idle (h : t.detached = none) :
    levelsOf l (k₁ ++ t :: k₂) = levelsOf l (k₁ ++ k₂) := by
  simp [levelsOf, h]

theorem levelsOf_detached (h : t.detached = some e) :
    (levelsOf l (k₁ ++ t :: k₂)).Perm (e.level :: levelsOf l (k₁ ++ k₂)) := by
  simpa [levelsOf, h] using
    @List.perm_middle _ _ (l.map PtBucket.level ++ (k₁.filterMap _).map PtBucket.level) _

theorem detached_ok (h : t.outcome = some true) : t.detached = none := if_pos h

theorem detached_of_ne (h : t.outcome ≠ some true) : t.detached = t.job.victim := if_neg h

theorem detached_failed {fileid seedChange} (hjob : t.job = .evict e fileid seedChange)
    (hout : t.outcome = some false) : t.detached = some e := by
  rw [detached_of_ne (by simp [hout]), hjob, FlushJob.victim]

theorem detached_drop {fileid} (h : t.job = .drop fileid) : t.detached = none := by
  simp [PtThread.detached, h, FlushJob.victim]

theorem levelsOf_threads (l : List PtBucket) {k k'}
    (h : (k'.filterMap PtThread.detached).Sublist (k.filterMap PtThread.detached)) :
    (levelsOf l k').Subperm (levelsOf l k) :=
  ((h.append_left l).map _).subperm

theorem levelsOf_return {ok} (hnone : t.outcome = none) :
    (levelsOf l (k₁ ++ { t with outcome := some ok } :: k₂)).Subperm
      (levelsOf l (k₁ ++ t :: k₂)) := by
  cases ok with
  | true =>
    rw [levelsOf_idle (detached_ok rfl)]
    exact levelsOf_threads l (((sublist_cons_self t k₂).append_left k₁).filterMap _)
  | false =>
    have hsame : PtThread.detached { t with outcome := some false } = t.detached := by
      simp [PtThread.detached, hnone]
    exact levelsOf_threads l (by simp [filterMap_cons, hsame])

variable {job : FlushJob}

theorem levelsOf_next {next} (h : Rest job next) (tid : ℕ) :
    levelsOf l (k₁ ++ nextThread tid next ++ k₂) = levelsOf l (k₁ ++ k₂) := by
  cases next with
  | none => simp [nextThread]
  | some j =>
    have hnone : (PtThread.mk tid j none).detached = none := h.victim j rfl
    simpa [nextThread] using @levelsOf_idle l k₁ k₂ _ hnone

theorem Snapped.levels {items} (h : Snapped l items l') (k : List PtThread) :
    (levelsOf l' k).Subperm (levelsOf l k) := by
  induction h with
  | nil => exact .refl _
  | step _ _ ih => exact ih.trans (levelsOf_write rfl)

theorem victim_of_restores {d} (h : job.restores = some d) : job.victim = none := by
  cases job <;> simp_all [FlushJob.restores, FlushJob.victim]

theorem flyingOf_pos_of_detached (hk : Loaded k) (ht : t ∈ k) (he : t.detached = some e) :
    0 < flyingOf e.fileid k := by
  obtain ⟨_, _, rfl⟩ := append_of_mem ht
  have hne : t.outcome ≠ some true := fun hok => by simp [detached_ok hok] at he
  have hitems : t.flying = [(e.fileid, e.pendingDelta)] := by
    rw [detached_of_ne hne] at he
    rw [flying_of_ne hne]
    cases hjob : t.job <;> simp_all [FlushJob.victim, FlushJob.items]
  have hpos := (loaded_middle.mp hk).1 (e.fileid, e.pendingDelta) (by simp [hitems])
  rw [flyingOf_middle, hitems, deltaOf_cons, if_pos rfl]
  exact Nat.add_pos_left (Nat.add_pos_left hpos _) _

end Levels

/-! ## The counter -/

variable {s t : PtSys} {fileid : Fileid} {seedChange tid : ℕ} {picks : List Fileid} {alloc : Bool}
  {victim e : PtBucket} {op : PtOp}

theorem total_books (hs : s.Balanced) (ht : t.Balanced) (hlost : t.lost = s.lost) (d : Fileid) :
    t.total d + t.succeeded d + s.persisted d + (s.returned d).length =
      s.total d + s.succeeded d + t.persisted d + (t.returned d).length := by
  have hsd := hs d
  have htd := ht d
  rw [hlost] at htd
  rw [PtSys.total, PtSys.total]
  omega

theorem total_eq_of_books (hs : s.Balanced) (ht : t.Balanced) (hlost : t.lost = s.lost)
    (hrow : ∀ d, t.persisted d + s.succeeded d = s.persisted d + t.succeeded d)
    (hret : t.returned = s.returned) : t.total = s.total := by
  funext d
  have hd := total_books hs ht hlost d
  have hrow := hrow d
  rw [hret] at hd
  omega

theorem total_bump_of_books (hs : s.Balanced) (ht : t.Balanced) (hlost : t.lost = s.lost)
    (hrow : ∀ d, t.persisted d + s.succeeded d + (t.returned d).length =
      s.persisted d + t.succeeded d + (s.returned d).length + if fileid = d then 1 else 0) :
    t.total = bump s.total fileid 1 := by
  funext d
  have hd := total_books hs ht hlost d
  have hrow := hrow d
  rw [bump_apply]
  omega

theorem counters_eq {total} (h : s.total = total) :
    s.counters = ⟨levelsOf s.shard.buckets s.threads, s.returned, total, s.unnoted⟩ := by
  rw [PtSys.counters, h]

/-! ## Conditions -/

/-- A mutation is seeded by an overlaid read of its directory, and a synchronous bump is
noted after it was made. -/
def Issued (s : PtSys) : PtOp → Prop
  | .prepare _ fileid seedChange _ _ => ∃ r ∈ s.reads, r.fileid = fileid ∧ r.value = seedChange
  | .noteSync fileid _ => 0 < s.unnoted fileid
  | _ => True

/-- The bucket a step makes, as its directory and its seed. -/
def PtSys.makes (s : PtSys) : PtOp → Option (Fileid × ℕ)
  | .prepare _ fileid seedChange picks alloc =>
    if (parentTouchPrepare s.shard fileid seedChange picks alloc).map Prod.snd =
        some .inserted then some (fileid, seedChange) else none
  | .complete tid picks alloc =>
    match s.threads.find? (hasTid tid) with
    | some ⟨_, .evict _ fileid seedChange, some true⟩ =>
      if (prepareRoom s.shard fileid seedChange picks alloc).map Prod.snd =
          some .inserted then some (fileid, seedChange) else none
    | _ => none
  | _ => none

/-- The seed is the persisted value, and nothing else of the directory is around. -/
def FreshSeed (s : PtSys) (p : Fileid × ℕ) : Prop :=
  shardFind s.shard p.1 = none ∧ p.2 = s.persisted p.1 ∧ s.inflight p.1 = 0 ∧
    s.unnoted p.1 = 0
deriving Decidable

/-- No seed raises a bucket while a synchronous bump is to be noted. -/
def RaiseOk (s : PtSys) : PtOp → Prop
  | .prepare _ fileid seedChange _ _ =>
    ∀ e ∈ s.shard.buckets, e.fileid = fileid → e.logicalChange < seedChange →
      s.unnoted fileid = 0
  | _ => True

/-- An overlaid read finds a bucket, or read the row while nothing was on its way to it. -/
def ReadOk (s : PtSys) : PtOp → Prop
  | .overlay tid =>
    ∀ r ∈ s.readers.find? (isReader tid), r.settled = true ∨ (shardFind s.shard r.fileid).isSome
  | _ => True

/-- What the interleaving has to keep to. -/
structure ChangeOk (s : PtSys) (op : PtOp) : Prop where
  issued : Issued s op
  restore : RestoreOk s op
  fresh : ∀ p ∈ s.makes op, FreshSeed s p
  raise : RaiseOk s op
  read : ReadOk s op

instance (s : PtSys) (op : PtOp) : Decidable (Issued s op) := by
  cases op <;> unfold Issued <;> infer_instance

instance (s : PtSys) (op : PtOp) : Decidable (RestoreOk s op) := by
  cases op <;> unfold RestoreOk <;> infer_instance

instance (s : PtSys) (op : PtOp) : Decidable (RaiseOk s op) := by
  cases op <;> unfold RaiseOk <;> infer_instance

instance (s : PtSys) (op : PtOp) : Decidable (ReadOk s op) := by
  cases op <;> unfold ReadOk <;> infer_instance

instance (s : PtSys) (op : PtOp) : Decidable (ChangeOk s op) :=
  decidable_of_iff
    (Issued s op ∧ RestoreOk s op ∧ (∀ p ∈ s.makes op, FreshSeed s p) ∧ RaiseOk s op ∧ ReadOk s op)
    ⟨fun ⟨h₁, h₂, h₃, h₄, h₅⟩ => ⟨h₁, h₂, h₃, h₄, h₅⟩,
      fun h => ⟨h.issued, h.restore, h.fresh, h.raise, h.read⟩⟩

/-! ## Reads -/

/-- What overlaid reads have seen. -/
structure PtSys.ReadInv (s : PtSys) : Prop where
  row : ∀ r ∈ s.readers, r.row.change ≤ s.persisted r.fileid
  before : ∀ r ∈ s.readers, r.before ⊆ s.returned r.fileid
  settled : ∀ r ∈ s.readers, r.settled = true → ∀ x ∈ r.before, x ≤ r.row.change
  value : ∀ r ∈ s.reads, r.value ≤ s.total r.fileid
  fresh : ∀ r ∈ s.reads, ∀ x ∈ r.before, x ≤ r.value

/-- A step that is not a read keeps what reads have seen, if nothing goes back. -/
theorem PtSys.ReadInv.mono (h : s.ReadInv) (hreaders : t.readers = s.readers)
    (hreads : t.reads = s.reads) (hrow : ∀ d, s.persisted d ≤ t.persisted d)
    (hret : ∀ d, s.returned d ⊆ t.returned d) (htotal : ∀ d, s.total d ≤ t.total d) :
    t.ReadInv where
  row r hr := Nat.le_trans (h.row r (hreaders ▸ hr)) (hrow _)
  before r hr := List.Subset.trans (h.before r (hreaders ▸ hr)) (hret _)
  settled r hr := h.settled r (hreaders ▸ hr)
  value r hr := Nat.le_trans (h.value r (hreads ▸ hr)) (htotal _)
  fresh r hr := h.fresh r (hreads ▸ hr)

/-! ## A step is a step of the cached counters -/

variable {p : Fileid × ℕ} {l : List PtBucket} {k₁ k₂ : List PtThread} {l₁ l₂ : List PtBucket}

theorem freshSeed_total (h : FreshSeed s p) : p = (p.1, s.total p.1) := by
  obtain ⟨hno, hseed, hfly, -⟩ := h
  have hpend : s.pending p.1 = 0 :=
    tally_eq_zero fun e he hfile => absurd hfile (shardFind_none hno e he)
  rw [PtSys.total, hfly, hpend]
  exact Prod.ext rfl hseed

theorem freshSeed_not_mem (hl : Loaded s.threads) (h : FreshSeed s p)
    (hl' : l.Sublist s.shard.buckets) : p.1 ∉ (levelsOf l s.threads).map Prod.fst := by
  obtain ⟨hno, -, hfly, -⟩ := h
  simp only [levelsOf, mem_map, mem_append, mem_filterMap, not_exists, not_and]
  rintro q ⟨e, he | ⟨t, ht, hdet⟩, rfl⟩ hfile
  · exact shardFind_none hno e (hl'.subset he) hfile
  · have hpos := flyingOf_pos_of_detached hl ht hdet
    rw [show e.fileid = p.1 from hfile] at hpos
    exact absurd hfly (Nat.ne_of_gt hpos)

theorem prepared_counters (hs : s.Tidy) (hbal : s.Balanced) {r}
    (hroom : Room s.shard.buckets fileid seedChange l r)
    (hfresh : r = .inserted → FreshSeed s (fileid, seedChange)) (tid : ℕ) : s.counters.Step
      (s.prepared tid fileid seedChange { s.shard with buckets := l } r).counters := by
  have ht := hbal.prepared hs.marked hroom tid
  cases hroom with
  | @inserted _ hev =>
    have hp := hfresh rfl
    rw [counters_eq (total_eq_of_books hbal ht rfl (fun _ => rfl) rfl)]
    have hlevel : (newBucket fileid seedChange).level = (fileid, s.total fileid) :=
      freshSeed_total hp
    have hstep := @Counters.Step.insert _ _ s.counters fileid _
      (levelsOf_sublist hev.sublist) (freshSeed_not_mem hs.loaded hp hev.sublist) hp.2.2.2
    rw [show s.counters.total fileid = s.total fileid from rfl, ← hlevel] at hstep
    exact hstep
  | fallback hev =>
    rw [counters_eq (total_eq_of_books hbal ht rfl (fun _ => rfl) rfl)]
    exact .keep (levelsOf_sublist hev.sublist)
  | @evict l₁ l₂ victim hev hdirty =>
    rw [counters_eq (total_eq_of_books hbal ht rfl (fun _ => rfl) rfl)]
    have hpos := hev.victim_pending hs.marked hdirty
    have hdet : (PtThread.mk tid (.evict victim fileid seedChange)
        (if victim.pendingDelta = 0 then some true else none)).detached = some victim := by
      rw [if_neg hpos]
      rfl
    have hperm := (@levelsOf_detached _ _ [] s.threads _ hdet).trans
      (@levelsOf_bucket l₁ l₂ victim _).symm
    exact .keep (hperm.subperm.trans (levelsOf_sublist hev.sublist))

theorem makes_complete {t} (hfind : s.threads.find? (hasTid tid) = some t)
    (hjob : t.job = .evict victim fileid seedChange) (hout : t.outcome = some true)
    (hres : (prepareRoom s.shard fileid seedChange picks alloc).map Prod.snd = some .inserted) :
    s.makes (.complete tid picks alloc) = some (fileid, seedChange) := by
  obtain ⟨_, _, _⟩ := t
  subst hjob hout
  rw [PtSys.makes, hfind]
  exact if_pos hres

/-- A preparation of a bucket that is there raises its level to the seed, or leaves it. -/
theorem fold_counters (hbal : s.Balanced)
    (ht : (s.withBuckets (l₁ ++ foldSeed seedChange e :: l₂) s.shard.tick).Balanced)
    (hreads : s.ReadInv) (hok : ChangeOk s (.prepare tid e.fileid seedChange picks alloc))
    (hb : s.shard.buckets = l₁ ++ e :: l₂) : s.counters.Step
      (s.withBuckets (l₁ ++ foldSeed seedChange e :: l₂) s.shard.tick).counters := by
  rw [counters_eq (total_eq_of_books hbal ht rfl (fun _ => rfl) rfl)]
  by_cases hlt : e.logicalChange < seedChange
  · obtain ⟨r, hr, hfile, hvalue⟩ := hok.issued
    have hy : seedChange ≤ s.total e.fileid := hvalue ▸ hfile ▸ hreads.value r hr
    have hnone := hok.raise e (by rw [hb]; simp) rfl hlt
    have hlevel : (foldSeed seedChange e).level = (e.fileid, seedChange) := by
      simp [foldSeed, PtBucket.level, hlt]
    refine Counters.Step.raise (a := s.counters) ?_ (hlevel ▸ levelsOf_bucket)
      (Nat.le_of_lt hlt) hy hnone
    rw [PtSys.counters, hb]
    exact levelsOf_bucket
  · refine Counters.Step.keep (a := s.counters) ?_
    rw [PtSys.counters, hb]
    exact levelsOf_write (by simp [foldSeed, PtBucket.level, hlt])

/-- A detached bucket and a bucket of the shard are of different directories. -/
theorem ne_of_detached (hsound : s.counters.Sound) {t} (hb : s.shard.buckets = l₁ ++ e :: l₂)
    (hk : s.threads = k₁ ++ t :: k₂) (hdet : t.detached = some victim) :
    victim.fileid ≠ e.fileid := by
  have hperm : s.counters.levels.Perm
      (e.level :: victim.level :: levelsOf (l₁ ++ l₂) (k₁ ++ k₂)) := by
    rw [PtSys.counters, hb, hk]
    exact levelsOf_bucket.trans (.cons _ (levelsOf_detached hdet))
  exact (hsound.ne_of_perm hperm).1 _ mem_cons_self

/-- **A step that meets the conditions is a step of the cached counters.** -/
theorem ptEffect_counters (hs : s.Tidy) (hbal : s.Balanced) (hsound : s.counters.Sound)
    (hreads : s.ReadInv) (hok : ChangeOk s op) (h : PtEffect s op t) :
    s.counters.Step t.counters := by
  have ht := ptEffect_balanced hs hbal h
  have hlost : t.lost = s.lost := by
    rcases ptEffect_lost hs h with ⟨-, hlost⟩ | ⟨hno, -⟩
    · exact hlost
    · exact absurd hok.restore hno
  have hquiet : (∀ d, t.persisted d + s.succeeded d = s.persisted d + t.succeeded d) →
      t.returned = s.returned → t.unnoted = s.unnoted →
      (levelsOf t.shard.buckets t.threads).Subperm (levelsOf s.shard.buckets s.threads) →
      s.counters.Step t.counters := by
    intro hrow hret hunnoted hsub
    rw [counters_eq (total_eq_of_books hbal ht hlost hrow hret), hret, hunnoted]
    exact .keep hsub
  cases h with
  | idle | readRow | overlay | launchDrop => exact hquiet (fun _ => rfl) rfl rfl (.refl _)
  | fold hb => exact fold_counters hbal ht hreads hok hb
  | room hno hres hroom =>
    refine prepared_counters hs hbal hroom (fun hr => ?_) _
    refine hok.fresh _ ?_
    rw [PtSys.makes, parentTouchPrepare, hno]
    exact if_pos (hr ▸ hres)
  | @commit _ _ e _ hb =>
    rw [counters_eq (@total_bump_of_books _ _ e.fileid hbal ht hlost fun _ => ?_)]
    swap
    · dsimp
      split <;> rfl
    refine Counters.Step.issue (a := s.counters) ?_ levelsOf_bucket
    rw [PtSys.counters, hb]
    exact levelsOf_bucket
  | unpin hb | take hb =>
    refine hquiet (fun _ => rfl) rfl rfl ?_
    rw [hb]
    exact levelsOf_write rfl
  | residue hb =>
    refine hquiet (fun _ => rfl) rfl rfl ?_
    rw [hb]
    exact levelsOf_remove
  | @syncBump fileid =>
    rw [counters_eq (@total_bump_of_books _ _ fileid hbal ht hlost fun _ => ?_)]
    swap
    · simp only [bump_apply]
      omega
    exact .bypass fileid
  | note hb =>
    rw [counters_eq (total_eq_of_books hbal ht hlost (fun _ => rfl) rfl)]
    refine Counters.Step.report (a := s.counters) ?_ levelsOf_bucket hok.issued
    rw [PtSys.counters, hb]
    exact levelsOf_bucket
  | @noteMiss fileid => exact .reportMiss fileid
  | drain hsnap => exact hquiet (fun _ => rfl) rfl rfl (hsnap.levels _)
  | callbackOk hk hnone =>
    refine hquiet (fun d => ?_) rfl rfl ?_
    · simp only [bump_apply]
      omega
    · rw [hk]
      exact levelsOf_return hnone
  | callbackFail hk hnone =>
    refine hquiet (fun _ => rfl) rfl rfl ?_
    rw [hk]
    exact levelsOf_return hnone
  | @resume _ _ k₁ k₂ _ _ _ _ _ _ _ hfind hk hjob hout hres hroom =>
    have hbal' := hbal.release hk hjob hout
    have hcounters : (s.withThreads (k₁ ++ k₂)).counters = s.counters := by
      rw [counters_eq (total_eq_of_books hbal hbal' rfl (fun _ => rfl) rfl), PtSys.counters, hk,
        levelsOf_idle (detached_ok hout)]
      rfl
    have hs' : (s.withThreads (k₁ ++ k₂)).Tidy :=
      ⟨hs.marked, (loaded_middle.mp (hk ▸ hs.loaded)).2⟩
    rw [← hcounters]
    refine prepared_counters hs' hbal' hroom (fun hr => ?_) _
    obtain ⟨hno, hseed, hfly, hnone⟩ :=
      hok.fresh _ (makes_complete hfind hjob hout (hr ▸ hres))
    rw [PtSys.inflight, hk, flyingOf_release hjob hout] at hfly
    exact ⟨hno, hseed, hfly, hnone⟩
  | absorb _ hk hjob hout hb he =>
    exact absurd he.symm (ne_of_detached hsound hb hk (detached_failed hjob hout))
  | putBack _ hk hjob hout =>
    refine hquiet (fun _ => rfl) rfl rfl ?_
    rw [hk]
    exact (levelsOf_detached (detached_failed hjob hout)).symm.subperm
  | passed _ hk _ hout hnext =>
    refine hquiet (fun _ => rfl) rfl rfl ?_
    rw [hk, levelsOf_idle (detached_ok hout)]
    exact (List.Perm.of_eq (levelsOf_next hnext _)).subperm
  | restored _ hk hjob _ hout hnext hb =>
    refine hquiet (fun _ => rfl) rfl rfl ?_
    have hdet := (detached_of_ne (by simp [hout])).trans (victim_of_restores hjob)
    rw [hk, levelsOf_idle hdet, hb]
    exact (List.Perm.of_eq (levelsOf_next hnext _)).subperm.trans (levelsOf_write rfl)
  | lost _ hk hjob _ hout hnext =>
    refine hquiet (fun _ => rfl) rfl rfl ?_
    have hdet := (detached_of_ne (by simp [hout])).trans (victim_of_restores hjob)
    rw [hk, levelsOf_idle hdet]
    exact (List.Perm.of_eq (levelsOf_next hnext _)).subperm
  | drop hk hjob hb =>
    refine hquiet (fun _ => rfl) rfl rfl ?_
    rw [hk, levelsOf_idle (detached_drop hjob), hb]
    exact levelsOf_remove
  | dropMiss hk hjob =>
    refine hquiet (fun _ => rfl) rfl rfl ?_
    rw [hk, levelsOf_idle (detached_drop hjob)]
    exact .refl _

/-! ## Reads stay behind the counter and ahead of what was handed out -/

theorem ptEffect_persisted_le (h : PtEffect s op t) (d : Fileid) :
    s.persisted d ≤ t.persisted d := by
  cases h with
  | syncBump | callbackOk => exact le_bump _ _ _ _
  | room _ _ hroom | resume _ _ _ _ _ hroom => cases hroom <;> exact Nat.le_refl _
  | _ => exact Nat.le_refl _

section

variable (hsound : s.counters.Sound)

include hsound

/-- The bucket of a directory is in the bounds of its level. -/
theorem level_of_shardFind (h : shardFind s.shard fileid = some e) :
    e.logicalChange ≤ s.total fileid ∧ ∀ x ∈ s.returned fileid, x ≤ e.logicalChange := by
  obtain ⟨rfl, l₁, l₂, hb, -⟩ := shardFind_split h
  have hperm : s.counters.levels.Perm (e.level :: levelsOf (l₁ ++ l₂) s.threads) := by
    rw [PtSys.counters, hb]
    exact levelsOf_bucket
  obtain ⟨hbound, hcovers⟩ := hsound.level hperm
  exact ⟨Nat.le_trans (Nat.le_add_right _ _) hbound, hcovers⟩

theorem overlay_value (hreads : s.ReadInv) {r} (hr : r ∈ s.readers)
    (hok : r.settled = true ∨ (shardFind s.shard r.fileid).isSome) :
    (parentTouchOverlay s.shard r.fileid r.row).change ≤ s.total r.fileid ∧
      ∀ x ∈ r.before, x ≤ (parentTouchOverlay s.shard r.fileid r.row).change := by
  have hrow : r.row.change ≤ s.total r.fileid := by
    have hp := hreads.row r hr
    rw [PtSys.total]
    omega
  rw [parentTouchOverlay]
  cases hfind : shardFind s.shard r.fileid with
  | none =>
    have hsettled : r.settled = true := by simpa [hfind] using hok
    exact ⟨hrow, hreads.settled r hr hsettled⟩
  | some e =>
    obtain ⟨hbound, hcovers⟩ := level_of_shardFind hsound hfind
    have hbefore : ∀ x ∈ r.before, x ≤ e.logicalChange := fun x hx =>
      hcovers x (hreads.before r hr hx)
    dsimp only
    split
    · exact ⟨hbound, hbefore⟩
    · next hle => exact ⟨hrow, fun x hx => Nat.le_trans (hbefore x hx) (Nat.le_of_not_lt hle)⟩

theorem newReader_inv (hreads : s.ReadInv) (tid : ℕ) (fileid : Fileid) (mtime ctime : Timespec) :
    PtSys.ReadInv { s with readers := s.newReader tid fileid mtime ctime :: s.readers } where
  row := forall_mem_cons.mpr ⟨Nat.le_refl _, hreads.row⟩
  before := forall_mem_cons.mpr ⟨List.Subset.refl _, hreads.before⟩
  settled := by
    refine forall_mem_cons.mpr ⟨fun hsettled x hx => ?_, hreads.settled⟩
    have hx' : x ≤ s.total fileid := hsound.within fileid x hx
    simp only [PtSys.newReader, Bool.and_eq_true, beq_iff_eq] at hsettled
    rw [PtSys.total, hsettled.1, hsettled.2] at hx'
    exact hx'
  value := hreads.value
  fresh := hreads.fresh

theorem ptEffect_reads (hreads : s.ReadInv) (hok : ChangeOk s op) (h : PtEffect s op t)
    (hstep : s.counters.Step t.counters) : t.ReadInv := by
  have hrow := ptEffect_persisted_le h
  have hmono : t.readers = s.readers → t.reads = s.reads → t.ReadInv := fun hr hr' =>
    hreads.mono hr hr' hrow hstep.seen_subset hstep.total_le
  cases h with
  | readRow => exact newReader_inv hsound hreads _ _ _ _
  | @overlay k₁ k₂ r _ hfind hk =>
    have hsub : ∀ q ∈ k₁ ++ k₂, q ∈ s.readers := fun q hq => hk ▸ mem_middle.mpr (.inr hq)
    obtain ⟨hvalue, hfresh⟩ :=
      overlay_value hsound hreads (mem_of_find?_eq_some hfind) (hok.read r hfind)
    exact {
      row := fun q hq => hreads.row q (hsub q hq)
      before := fun q hq => hreads.before q (hsub q hq)
      settled := fun q hq => hreads.settled q (hsub q hq)
      value := forall_mem_cons.mpr ⟨hvalue, hreads.value⟩
      fresh := forall_mem_cons.mpr ⟨hfresh, hreads.fresh⟩ }
  | room _ _ hroom | resume _ _ _ _ _ hroom => cases hroom <;> exact hmono rfl rfl
  | _ => exact hmono rfl rfl

end

/-! ## The values do not go back -/

/-- The `out_after` values of a directory, newest first, decrease along the list, and an
overlaid read is not behind what was returned before it began. -/
def PtSys.Monotone (s : PtSys) : Prop :=
  (∀ d, (s.returned d).Pairwise (· > ·)) ∧ ∀ r ∈ s.reads, ∀ x ∈ r.before, x ≤ r.value

/-- What holds in every state that a run under the conditions reaches. -/
structure PtSys.ChangeInv (s : PtSys) : Prop where
  tidy : s.Tidy
  balanced : s.Balanced
  sound : s.counters.Sound
  reads : s.ReadInv

theorem ptStep_changeInv (hs : s.ChangeInv) (hok : ChangeOk s op) (h : ptStep s op = some t) :
    t.ChangeInv := by
  have heff := ptStep_effect h
  have hstep := ptEffect_counters hs.tidy hs.balanced hs.sound hs.reads hok heff
  exact {
    tidy := ptEffect_tidy hs.tidy heff
    balanced := ptEffect_balanced hs.tidy hs.balanced heff
    sound := hstep.sound hs.sound
    reads := ptEffect_reads hs.sound hs.reads hok heff hstep }

/-- **In every run whose steps meet the conditions, the change attribute of a directory
neither goes back nor repeats.** -/
theorem change_monotone {s : PtSys} (h : Reachable PtInit ptStep ChangeOk s) : s.Monotone := by
  have hinv : s.ChangeInv := by
    refine h.invariant (P := PtSys.ChangeInv) ?_ fun s _ t hs hok hstep =>
      ptStep_changeInv hs hok hstep
    rintro s ⟨capacity, persisted, -, rfl⟩
    exact {
      tidy := ptSysInit_tidy capacity persisted
      balanced := ptSysInit_balanced capacity persisted
      sound := by constructor <;> simp [ptSysInit, PtSys.counters, levelsOf]
      reads := by constructor <;> simp [ptSysInit] }
  exact ⟨hinv.sound.increasing, hinv.reads.fresh⟩

/-- Two mutations of directory 7, the first of which is flushed in vain, and a read. -/
def flushedRun : List PtOp :=
  [.readRow 1 7 ⟨0, 0⟩ ⟨0, 0⟩, .overlay 1, .prepare 1 7 0 [] true, .commit 7 ⟨5, 0⟩,
    .flush 2 7 false, .callback 2 false, .complete 2 [] true, .readRow 1 7 ⟨0, 0⟩ ⟨0, 0⟩,
    .overlay 1, .prepare 1 7 1 [] true, .commit 7 ⟨6, 0⟩, .flush 2 7 false, .callback 2 true,
    .complete 2 [] true, .readRow 1 7 ⟨5, 0⟩ ⟨5, 0⟩, .overlay 1]

theorem change_monotone_flushed : ∃ s, Reachable PtInit ptStep ChangeOk s ∧
    s.returned 7 = [2, 1] ∧ s.persisted 7 = 2 ∧ s.Monotone := by
  have hreach : Reachable PtInit ptStep ChangeOk _ :=
    .run (ptSysInit 4 fun _ => 0) flushedRun ⟨4, _, Nat.le_refl 4, rfl⟩
  exact ⟨_, hreach, rfl, rfl, change_monotone hreach⟩

/-- The first mutation of directory 7 is in flight; a second one is prepared and aborted,
which frees the bucket; the third is seeded from the row and commits. -/
def freedBucketRun : List PtOp :=
  [.readRow 1 7 ⟨0, 0⟩ ⟨0, 0⟩, .overlay 1, .prepare 1 7 0 [] true, .commit 7 ⟨5, 0⟩,
    .flush 2 7 false, .readRow 1 7 ⟨0, 0⟩ ⟨0, 0⟩, .overlay 1, .prepare 1 7 1 [] true, .abort 7,
    .readRow 1 7 ⟨0, 0⟩ ⟨0, 0⟩, .overlay 1, .prepare 1 7 0 [] true, .commit 7 ⟨6, 0⟩]

/-- The second commit returns what the first one did, and the read before it went back to
the row. -/
theorem change_monotone_freedBucket : ∃ s, Reachable PtInit ptStep Issued s ∧
    s.returned 7 = [1, 1] ∧ ⟨7, 0, [1]⟩ ∈ s.reads ∧ ¬ s.Monotone := by
  refine ⟨_, .run (ptSysInit 4 fun _ => 0) freedBucketRun ⟨4, _, Nat.le_refl 4, rfl⟩, rfl, ?_,
    fun hmono => ?_⟩
  · exact mem_cons_self
  · exact absurd (hmono.1 7) (by decide)

end PnfsLattice
