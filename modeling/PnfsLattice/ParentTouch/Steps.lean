import PnfsLattice.ParentTouch.System

/-!
# Steps of the parent-touch system

What the critical sections do to the list of buckets, and what one step does to the system.
-/

namespace PnfsLattice

open Lib List Option

/-! ## Evictions -/

/-- `l'` is `l` without some buckets that were clean and unpinned. -/
inductive Evicted : List PtBucket → List PtBucket → Prop
  | refl (l : List PtBucket) : Evicted l l
  | step {l₁ l₂ l' : List PtBucket} {e : PtBucket} (hclean : e.dirtyAt = none)
      (h : Evicted (l₁ ++ l₂) l') : Evicted (l₁ ++ e :: l₂) l'

theorem Evicted.sublist {l l'} (h : Evicted l l') : l'.Sublist l := by
  induction h with
  | refl l => exact .refl l
  | step _ _ ih => exact ih.trans ((sublist_cons_self _ _).append_left _)

variable {sh : PtShard} {picks : List Fileid} {fileid : Fileid} {seedChange : ℕ} {alloc : Bool}
  {s : PtSys} {tid : ℕ} {t : PtSys}

theorem evictClean_evicted {sh'} (h : evictClean sh picks = some sh') :
    Evicted sh.buckets sh'.buckets ∧ sh'.capacity = sh.capacity ∧ sh'.tick = sh.tick := by
  induction picks generalizing sh with
  | nil =>
    simp only [evictClean] at h
    split at h
    · simp at h
    · cases h
      exact ⟨.refl _, rfl, rfl⟩
  | cons d _ ih =>
    simp only [evictClean] at h
    split at h
    · next hcond =>
        simp only [Bool.and_eq_true, List.any_eq_true] at hcond
        obtain ⟨-, x, hx, hpx⟩ := hcond
        obtain ⟨e, he⟩ := Option.isSome_iff_exists.mp
          (List.find?_isSome.mpr ⟨x, hx, by simpa using hpx⟩ :
            (sh.buckets.find? fun e => isDir d e && isCleanUnpinned e).isSome = true)
        obtain ⟨_, _, hsplit, -, -, herase⟩ := split_of_find? he
        obtain ⟨hev, hcap, htick⟩ := ih h
        have hclean : e.dirtyAt = none := by
          have := List.find?_some he
          simp only [isCleanUnpinned, Bool.and_eq_true, isNone_iff_eq_none] at this
          exact this.2.1
        simp only [herase] at hev
        exact ⟨hsplit ▸ .step hclean hev, hcap, htick⟩
    · simp at h

/-- What making room in `l` for a bucket of `fileid` comes to. -/
inductive Room (l : List PtBucket) (fileid : Fileid) (seedChange : ℕ) :
    List PtBucket → PrepareResult → Prop
  | inserted {l'} (h : Evicted l l') :
      Room l fileid seedChange (newBucket fileid seedChange :: l') .inserted
  | fallback {l'} (h : Evicted l l') : Room l fileid seedChange l' .fallback
  | evict {l₁ l₂ victim} (h : Evicted l (l₁ ++ victim :: l₂)) (hdirty : victim.dirtyAt ≠ none) :
      Room l fileid seedChange (l₁ ++ l₂) (.evict victim)

theorem detachLru_split {sh' victim} (h : detachLru sh = some (victim, sh')) :
    ∃ l₁ l₂, sh.buckets = l₁ ++ victim :: l₂ ∧ sh' = { sh with buckets := l₁ ++ l₂ } ∧
      victim.dirtyAt ≠ none := by
  obtain ⟨_, -, h⟩ := bind_eq_some_iff.mp h
  obtain ⟨v, hfind, heq⟩ := map_eq_some_iff.mp h
  obtain ⟨rfl, rfl⟩ := Prod.mk.inj heq
  obtain ⟨l₁, l₂, hsplit, -, -, herase⟩ := split_of_find? hfind
  have hlru := List.find?_some hfind
  simp only [isLru, Bool.and_eq_true, beq_iff_eq] at hlru
  exact ⟨l₁, l₂, hsplit, by rw [herase], by simp [hlru.2]⟩

theorem prepareRoom_room {r} (h : prepareRoom sh fileid seedChange picks alloc = some r) :
    Room sh.buckets fileid seedChange r.1.buckets r.2 ∧
      r.1 = { sh with buckets := r.1.buckets } := by
  obtain ⟨sh₁, hevict, rfl⟩ := map_eq_some_iff.mp h
  obtain ⟨hev, hcap, htick⟩ := evictClean_evicted hevict
  have hsh₁ : ∀ l, { sh₁ with buckets := l } = { sh with buckets := l } := by
    intro l
    rw [PtShard.mk.injEq]
    exact ⟨rfl, hcap, htick⟩
  split
  · cases hlru : detachLru sh₁ with
    | none => exact ⟨.fallback hev, hsh₁ _⟩
    | some =>
      obtain ⟨_, _, hsplit, heq, hdirty⟩ := detachLru_split hlru
      dsimp only
      rw [heq]
      exact ⟨.evict (hsplit ▸ hev) hdirty, hsh₁ _⟩
  · split
    · exact ⟨.inserted hev, hsh₁ _⟩
    · exact ⟨.fallback hev, hsh₁ _⟩

/-! ## Snapshots -/

/-- `l'` is `l` after the snapshots `items` were taken from dirty buckets. -/
inductive Snapped : List PtBucket → List (Fileid × ℕ) → List PtBucket → Prop
  | nil (l : List PtBucket) : Snapped l [] l
  | step {l₁ l₂ l' items e} (hdirty : e.dirtyAt ≠ none)
      (h : Snapped (l₁ ++ snapshotTake e :: l₂) items l') :
      Snapped (l₁ ++ e :: l₂) ((e.fileid, e.pendingDelta) :: items) l'

theorem drainTake_snapped (sh : PtShard) (n : ℕ) :
    Snapped sh.buckets (drainTake sh n).2 (drainTake sh n).1.buckets ∧
      (drainTake sh n).1 = { sh with buckets := (drainTake sh n).1.buckets } := by
  induction n generalizing sh with
  | zero => exact ⟨.nil _, rfl⟩
  | succ n ih =>
    unfold drainTake
    split
    · exact ⟨.nil _, rfl⟩
    · next e htail =>
        obtain ⟨time', -, hmap⟩ := bind_eq_some_iff.mp htail
        obtain ⟨e', hfind, heq⟩ := map_eq_some_iff.mp hmap
        obtain ⟨rfl, rfl⟩ := Prod.mk.inj heq
        obtain ⟨_, _, hsplit, -, hmod, -⟩ := split_of_find? hfind
        have hdirty : e'.dirtyAt = some time' := by simpa using List.find?_some hfind
        obtain ⟨hsnap, hrest⟩ := ih
          { sh with
            buckets := modifyFirst (fun e => e.dirtyAt == some time') _ _ }
        refine ⟨?_, hrest⟩
        simp only [hmod] at hsnap ⊢
        rw [hsplit]
        exact .step (by simp [hdirty]) hsnap

/-! ## What one step does -/

/-- The system with other buckets. -/
def PtSys.withBuckets (s : PtSys) (l : List PtBucket) (tick : ℕ) : PtSys :=
  { s with shard := { s.shard with buckets := l, tick } }

/-- The system with other threads. -/
def PtSys.withThreads (s : PtSys) (k : List PtThread) : PtSys := { s with threads := k }

/-- The bucket that an eviction has detached. -/
def FlushJob.victim : FlushJob → Option PtBucket
  | .evict victim _ _ => some victim
  | _ => none

/-- The directory whose delta a failed flush restores. -/
def FlushJob.restores : FlushJob → Option Fileid
  | .flush fileid _ _ | .drain fileid _ _ => some fileid
  | _ => none

/-- The steps that take the lock again after a callback. -/
def PtOp.completes : PtOp → Bool
  | .complete _ _ _ => true
  | _ => false

/-- A thread goes on with what its job holds after the first delta, and detaches no
bucket. -/
structure Rest (job : FlushJob) (next : Option FlushJob) : Prop where
  items : next.toList.flatMap FlushJob.items = job.items.tail
  victim : ∀ j ∈ next, j.victim = none

/-- The thread `tid` after `goOn`, if it is not done. -/
def nextThread (tid : ℕ) (next : Option FlushJob) : List PtThread :=
  (next.map fun job => ⟨tid, job, none⟩).toList

/-- **What one step does**, with the lists split at the bucket and at the thread it acts
on. -/
inductive PtEffect (s : PtSys) : PtOp → PtSys → Prop
  | idle {op} (hop : op.completes = false) : PtEffect s op s
  | fold {l₁ l₂ e tid seedChange picks alloc} (hs : s.shard.buckets = l₁ ++ e :: l₂) :
      PtEffect s (.prepare tid e.fileid seedChange picks alloc)
        (s.withBuckets (l₁ ++ foldSeed seedChange e :: l₂) s.shard.tick)
  | room {l r tid seedChange fileid picks alloc} (hno : shardFind s.shard fileid = none)
      (hres : (prepareRoom s.shard fileid seedChange picks alloc).map Prod.snd = some r)
      (hroom : Room s.shard.buckets fileid seedChange l r) :
      PtEffect s (.prepare tid fileid seedChange picks alloc)
        (s.prepared tid fileid seedChange { s.shard with buckets := l } r)
  | commit {l₁ l₂ e now} (hs : s.shard.buckets = l₁ ++ e :: l₂) :
      PtEffect s (.commit e.fileid now)
        { s.withBuckets (l₁ ++ commitBucket now s.shard.tick e :: l₂) (s.shard.tick + 1) with
          returned := fun d =>
            if e.fileid = d then (e.logicalChange + 1) :: s.returned d else s.returned d }
  | unpin {l₁ l₂ e} (hs : s.shard.buckets = l₁ ++ e :: l₂) :
      PtEffect s (.abort e.fileid)
        (s.withBuckets (l₁ ++ { e with pinCount := e.pinCount - 1 } :: l₂) s.shard.tick)
  | residue {l₁ l₂ e} (hs : s.shard.buckets = l₁ ++ e :: l₂) (hzero : e.pendingDelta = 0) :
      PtEffect s (.abort e.fileid) (s.withBuckets (l₁ ++ l₂) s.shard.tick)
  | syncBump {fileid : Fileid} :
      PtEffect s (.syncBump fileid)
        { s with persisted := bump s.persisted fileid 1, unnoted := bump s.unnoted fileid 1 }
  | note {l₁ l₂ e now} (hs : s.shard.buckets = l₁ ++ e :: l₂) :
      PtEffect s (.noteSync e.fileid now)
        { s.withBuckets (l₁ ++ { e with
            logicalChange := e.logicalChange + 1, stamp := newerStamp now e.stamp } :: l₂)
            s.shard.tick with
          unnoted := fun d => if e.fileid = d then s.unnoted d - 1 else s.unnoted d }
  | noteMiss {fileid now} (hno : ∀ e ∈ s.shard.buckets, e.fileid ≠ fileid) :
      PtEffect s (.noteSync fileid now)
        { s with unnoted := fun d => if fileid = d then s.unnoted d - 1 else s.unnoted d }
  | take {l₁ l₂ e tid thenDrop} (hs : s.shard.buckets = l₁ ++ e :: l₂) (hpos : 0 < e.pendingDelta) :
      PtEffect s (.flush tid e.fileid thenDrop)
        ((s.withBuckets (l₁ ++ snapshotTake e :: l₂) s.shard.tick).launch tid
          (.flush e.fileid e.pendingDelta thenDrop))
  | launchDrop {fileid : Fileid} {tid} :
      PtEffect s (.flush tid fileid true) (s.launch tid (.drop fileid))
  | drain {l fileid tid delta rest} (hsnap : Snapped s.shard.buckets ((fileid, delta) :: rest) l) :
      PtEffect s (.drain tid)
        ((s.withBuckets l s.shard.tick).launch tid (.drain fileid delta rest))
  | callbackOk {k₁ k₂ t tid delta fileid rest} (hk : s.threads = k₁ ++ t :: k₂)
      (hnone : t.outcome = none) (hitems : t.job.items = (fileid, delta) :: rest) :
      PtEffect s (.callback tid true)
        { s.withThreads (k₁ ++ { t with outcome := some true } :: k₂) with
          persisted := bump s.persisted fileid delta
          succeeded := bump s.succeeded fileid delta }
  | callbackFail {k₁ k₂ t tid} (hk : s.threads = k₁ ++ t :: k₂) (hnone : t.outcome = none) :
      PtEffect s (.callback tid false)
        (s.withThreads (k₁ ++ { t with outcome := some false } :: k₂))
  | resume {l r k₁ k₂ t victim fileid tid seedChange picks alloc}
      (hfind : s.threads.find? (hasTid tid) = some t) (hk : s.threads = k₁ ++ t :: k₂)
      (hjob : t.job = .evict victim fileid seedChange) (hout : t.outcome = some true)
      (hres : (prepareRoom s.shard fileid seedChange picks alloc).map Prod.snd = some r)
      (hroom : Room s.shard.buckets fileid seedChange l r) :
      PtEffect s (.complete tid picks alloc)
        ((s.withThreads (k₁ ++ k₂)).prepared t.tid fileid seedChange
          { s.shard with buckets := l } r)
  | absorb {l₁ l₂ e k₁ k₂ t victim fileid tid seedChange picks alloc}
      (hfind : s.threads.find? (hasTid tid) = some t) (hk : s.threads = k₁ ++ t :: k₂)
      (hjob : t.job = .evict victim fileid seedChange) (hout : t.outcome = some false)
      (hs : s.shard.buckets = l₁ ++ e :: l₂) (he : e.fileid = victim.fileid) :
      PtEffect s (.complete tid picks alloc)
        ((s.withBuckets (l₁ ++ absorbVictim victim s.shard.tick e :: l₂)
          (s.shard.tick + 1)).withThreads (k₁ ++ k₂))
  | putBack {k₁ k₂ t victim fileid tid seedChange picks alloc}
      (hfind : s.threads.find? (hasTid tid) = some t) (hk : s.threads = k₁ ++ t :: k₂)
      (hjob : t.job = .evict victim fileid seedChange) (hout : t.outcome = some false)
      (hno : ∀ e ∈ s.shard.buckets, e.fileid ≠ victim.fileid) :
      PtEffect s (.complete tid picks alloc)
        ((s.withBuckets ({ victim with dirtyAt := some s.shard.tick } :: s.shard.buckets)
          (s.shard.tick + 1)).withThreads (k₁ ++ k₂))
  | passed {k₁ k₂ t next tid picks alloc} (hfind : s.threads.find? (hasTid tid) = some t)
      (hk : s.threads = k₁ ++ t :: k₂) (hjob : t.job.victim = none) (hout : t.outcome = some true)
      (hnext : Rest t.job next) :
      PtEffect s (.complete tid picks alloc)
        (s.withThreads (k₁ ++ nextThread t.tid next ++ k₂))
  | restored {l₁ l₂ e k₁ k₂ t next tid delta rest picks alloc}
      (hfind : s.threads.find? (hasTid tid) = some t) (hk : s.threads = k₁ ++ t :: k₂)
      (hjob : t.job.restores = some e.fileid) (hitems : t.job.items = (e.fileid, delta) :: rest)
      (hout : t.outcome = some false) (hnext : Rest t.job next)
      (hs : s.shard.buckets = l₁ ++ e :: l₂) :
      PtEffect s (.complete tid picks alloc)
        ((s.withBuckets (l₁ ++ { e with
            pendingDelta := e.pendingDelta + delta
            dirtyAt := if 0 < e.pendingDelta + delta then some s.shard.tick
              else e.dirtyAt } :: l₂)
          (s.shard.tick + 1)).withThreads (k₁ ++ nextThread t.tid next ++ k₂))
  | lost {k₁ k₂ t next fileid tid delta rest picks alloc}
      (hfind : s.threads.find? (hasTid tid) = some t) (hk : s.threads = k₁ ++ t :: k₂)
      (hjob : t.job.restores = some fileid) (hitems : t.job.items = (fileid, delta) :: rest)
      (hout : t.outcome = some false) (hnext : Rest t.job next)
      (hno : ∀ e ∈ s.shard.buckets, e.fileid ≠ fileid) :
      PtEffect s (.complete tid picks alloc)
        { s.withThreads (k₁ ++ nextThread t.tid next ++ k₂) with
          lost := bump s.lost fileid delta }
  | drop {l₁ l₂ e k₁ k₂ t tid} (hk : s.threads = k₁ ++ t :: k₂) (hjob : t.job = .drop e.fileid)
      (hs : s.shard.buckets = l₁ ++ e :: l₂) (hzero : e.pendingDelta = 0) :
      PtEffect s (.drop tid)
        ((s.withBuckets (l₁ ++ l₂) s.shard.tick).withThreads (k₁ ++ k₂))
  | dropMiss {k₁ k₂ t fileid tid} (hk : s.threads = k₁ ++ t :: k₂) (hjob : t.job = .drop fileid) :
      PtEffect s (.drop tid) (s.withThreads (k₁ ++ k₂))
  | readRow {tid fileid mtime ctime} :
      PtEffect s (.readRow tid fileid mtime ctime)
        { s with readers := s.newReader tid fileid mtime ctime :: s.readers }
  | overlay {k₁ k₂ r tid} (hfind : s.readers.find? (isReader tid) = some r)
      (hk : s.readers = k₁ ++ r :: k₂) :
      PtEffect s (.overlay tid)
        { s with
          readers := k₁ ++ k₂
          reads := ⟨r.fileid, (parentTouchOverlay s.shard r.fileid r.row).change, r.before⟩ ::
            s.reads }

theorem shardFind_none (h : shardFind sh fileid = none) : ∀ e ∈ sh.buckets, e.fileid ≠ fileid :=
  fun e he => by simpa [isDir] using List.find?_eq_none.mp h e he

theorem shardFind_split {e} (h : shardFind sh fileid = some e) :
    e.fileid = fileid ∧ ∃ l₁ l₂, sh.buckets = l₁ ++ e :: l₂ ∧
      (∀ f, sh.modify fileid f = { sh with buckets := l₁ ++ f e :: l₂ }) ∧
      sh.buckets.eraseP (isDir fileid) = l₁ ++ l₂ := by
  obtain ⟨l₁, l₂, hsplit, -, hmod, herase⟩ := split_of_find? h
  exact ⟨by simpa [isDir] using List.find?_some h, l₁, l₂, hsplit,
    fun f => by rw [PtShard.modify, hmod], herase⟩

theorem threads_split {t} (h : s.threads.find? (hasTid tid) = some t) :
    ∃ k₁ k₂, s.threads = k₁ ++ t :: k₂ ∧
      (∀ next, s.goOn t.tid next = s.withThreads (k₁ ++ nextThread t.tid next ++ k₂)) ∧
      ∀ f, modifyFirst (hasTid t.tid) f s.threads = k₁ ++ f t :: k₂ := by
  have htid : t.tid = tid := by simpa [hasTid] using List.find?_some h
  subst htid
  obtain ⟨k₁, k₂, hsplit, -, hmod, herase⟩ := split_of_find? h
  refine ⟨k₁, k₂, hsplit, fun next => ?_, hmod⟩
  cases next with
  | none => simp [PtSys.goOn, PtSys.withThreads, nextThread, herase]
  | some => simp [PtSys.goOn, PtSys.withThreads, nextThread, hmod]

/-! ## The effect of each operation -/

theorem ptPrepare_effect (h : ptStep s (.prepare tid fileid seedChange picks alloc) = some t) :
    PtEffect s (.prepare tid fileid seedChange picks alloc) t := by
  obtain ⟨r, hprep, rfl⟩ := map_eq_some_iff.mp h
  cases hfind : shardFind s.shard fileid with
  | some e =>
    obtain ⟨rfl, _, _, hs, hmod, -⟩ := shardFind_split hfind
    obtain rfl : r = (s.shard.modify e.fileid (foldSeed seedChange), .folded) := by
      simpa [parentTouchPrepare, hfind] using hprep.symm
    rw [hmod]
    exact .fold hs
  | none =>
    rw [parentTouchPrepare, hfind] at hprep
    obtain ⟨hroom, hsh⟩ := prepareRoom_room hprep
    rw [hsh]
    exact .room hfind (by simp [hprep]) hroom

theorem ptCommit_effect {now} (h : ptStep s (.commit fileid now) = some t) :
    PtEffect s (.commit fileid now) t := by
  cases hfind : shardFind s.shard fileid with
  | none =>
    obtain rfl : s = t := by simpa [ptStep, parentTouchCommitPrepared, hfind] using h
    exact .idle rfl
  | some =>
    obtain ⟨rfl, _, _, hs, hmod, -⟩ := shardFind_split hfind
    simp only [ptStep, parentTouchCommitPrepared, hfind, map_some, hmod, Option.some.injEq] at h
    subst h
    exact .commit hs

theorem ptAbort_effect (h : ptStep s (.abort fileid) = some t) : PtEffect s (.abort fileid) t := by
  cases hfind : shardFind s.shard fileid with
  | none =>
    obtain rfl : s = t := by simpa [ptStep, parentTouchAbortPrepared, hfind] using h
    exact .idle rfl
  | some =>
    obtain ⟨rfl, _, _, hs, hmod, herase⟩ := shardFind_split hfind
    simp only [ptStep, parentTouchAbortPrepared, hfind, hmod, herase, Option.some.injEq] at h
    split at h
    · next hres =>
        subst h
        exact .residue hs (by simp_all [isResidue])
    · subst h
      exact .unpin hs

theorem ptNoteSync_effect {now} (h : ptStep s (.noteSync fileid now) = some t) :
    PtEffect s (.noteSync fileid now) t := by
  cases h
  cases hfind : shardFind s.shard fileid with
  | none =>
    have hmiss : parentTouchNoteSyncBump s.shard fileid now = s.shard := by
      simp [parentTouchNoteSyncBump, PtShard.modify, modifyFirst_of_find?_none hfind]
    rw [hmiss]
    exact .noteMiss (shardFind_none hfind)
  | some =>
    obtain ⟨rfl, _, _, hs, hmod, -⟩ := shardFind_split hfind
    rw [parentTouchNoteSyncBump, hmod]
    exact .note hs

theorem ptFlush_effect {thenDrop} (h : ptStep s (.flush tid fileid thenDrop) = some t) :
    PtEffect s (.flush tid fileid thenDrop) t := by
  cases htake : flushTake s.shard fileid with
  | none =>
    simp only [ptStep, htake, Option.some.injEq] at h
    subst h
    cases thenDrop with
    | false => exact .idle rfl
    | true => exact .launchDrop
  | some =>
    simp only [ptStep, htake, Option.some.injEq] at h
    subst h
    obtain ⟨e, hfind, htake⟩ := bind_eq_some_iff.mp htake
    obtain ⟨rfl, _, _, hs, hmod, -⟩ := shardFind_split hfind
    split at htake
    · contradiction
    · next hdirty =>
        cases htake
        rw [hmod]
        exact .take hs (by simp at hdirty; omega)

theorem ptDrain_effect (h : ptStep s (.drain tid) = some t) : PtEffect s (.drain tid) t := by
  obtain ⟨hsnap, hsh⟩ := drainTake_snapped s.shard ptFlushBatch
  simp only [ptStep] at h
  split at h
  · cases h
    exact .idle rfl
  · next sh _ _ _ hdrain =>
      cases h
      rw [hdrain] at hsnap hsh
      rw [show sh = _ from hsh]
      exact .drain hsnap

theorem ptCallback_effect {ok} (h : ptStep s (.callback tid ok) = some t) :
    PtEffect s (.callback tid ok) t := by
  obtain ⟨u, hfind, h⟩ := bind_eq_some_iff.mp h
  obtain ⟨_, _, hk, -, hmod⟩ := threads_split hfind
  unfold PtSys.returnCallback at h
  split at h
  · next hnone hitems =>
      simp only [hmod, Option.some.injEq] at h
      subst h
      cases ok with
      | true => exact .callbackOk hk hnone hitems
      | false => exact .callbackFail hk hnone
  · contradiction

theorem ptOverlay_effect (h : ptStep s (.overlay tid) = some t) : PtEffect s (.overlay tid) t := by
  obtain ⟨r, hfind, rfl⟩ := map_eq_some_iff.mp h
  obtain ⟨_, _, hk, -, -, herase⟩ := split_of_find? hfind
  rw [herase]
  exact .overlay hfind hk

theorem rest_flush (fileid : Fileid) (delta : ℕ) (thenDrop : Bool) :
    Rest (.flush fileid delta thenDrop) none := ⟨rfl, by simp⟩

theorem rest_thenDrop (fileid : Fileid) (delta : ℕ) (thenDrop : Bool) :
    Rest (.flush fileid delta thenDrop) (if thenDrop then some (.drop fileid) else none) := by
  cases thenDrop with
  | false => exact rest_flush fileid delta false
  | true => exact ⟨rfl, by simp [FlushJob.victim]⟩

theorem rest_drain (fileid : Fileid) (delta : ℕ) (rest : List (Fileid × ℕ)) :
    Rest (.drain fileid delta rest) (drainRest rest) := by
  cases rest with
  | nil => exact ⟨rfl, by simp [drainRest]⟩
  | cons => exact ⟨by simp [drainRest, FlushJob.items], by simp [drainRest, FlushJob.victim]⟩

theorem restore_effect {k₁ k₂ t next delta rest} (hfind : s.threads.find? (hasTid tid) = some t)
    (hk : s.threads = k₁ ++ t :: k₂) (hjob : t.job.restores = some fileid)
    (hitems : t.job.items = (fileid, delta) :: rest) (hout : t.outcome = some false)
    (hnext : Rest t.job next) : PtEffect s (.complete tid picks alloc)
      ((s.withThreads (k₁ ++ nextThread t.tid next ++ k₂)).restore fileid delta) := by
  cases hbucket : shardFind s.shard fileid with
  | none =>
    have heq : (s.withThreads (k₁ ++ nextThread t.tid next ++ k₂)).restore fileid delta =
        { s.withThreads (k₁ ++ nextThread t.tid next ++ k₂) with
          lost := bump s.lost fileid delta } := by
      simp [PtSys.restore, PtSys.withThreads, hbucket]
    rw [heq]
    exact .lost hfind hk hjob hitems hout hnext (shardFind_none hbucket)
  | some =>
    obtain ⟨rfl, _, _, hs, hmod, -⟩ := shardFind_split hbucket
    simp only [PtSys.restore, PtSys.withThreads, hbucket, snapshotRestore, hmod]
    exact .restored hfind hk hjob hitems hout hnext hs

theorem mergeVictim_effect {k₁ k₂ t victim} (hfind : s.threads.find? (hasTid tid) = some t)
    (hk : s.threads = k₁ ++ t :: k₂) (hjob : t.job = .evict victim fileid seedChange)
    (hout : t.outcome = some false) :
    PtEffect s (.complete tid picks alloc)
      { s.withThreads (k₁ ++ k₂) with shard := mergeVictim s.shard victim } := by
  cases hbucket : shardFind s.shard victim.fileid with
  | none =>
    rw [mergeVictim, hbucket]
    exact .putBack hfind hk hjob hout (shardFind_none hbucket)
  | some =>
    obtain ⟨he, _, _, hs, hmod, -⟩ := shardFind_split hbucket
    rw [mergeVictim, hbucket, hmod]
    exact .absorb hfind hk hjob hout hs he

theorem ptComplete_effect (h : ptStep s (.complete tid picks alloc) = some t) :
    PtEffect s (.complete tid picks alloc) t := by
  obtain ⟨u, hfind, h⟩ := bind_eq_some_iff.mp h
  obtain ⟨k₁, k₂, hk, hgo, -⟩ := threads_split hfind
  have hdone : s.goOn u.tid none = s.withThreads (k₁ ++ k₂) := by simp [hgo, nextThread]
  unfold PtSys.relocked at h
  split at h
  · next hout hjob =>
      obtain ⟨r, hprep, rfl⟩ := map_eq_some_iff.mp h
      obtain ⟨hroom, hsh⟩ := prepareRoom_room hprep
      rw [hdone, hsh]
      exact .resume hfind hk hjob hout (by simp [hprep]) hroom
  · next hout hjob =>
      cases h
      rw [hdone]
      exact mergeVictim_effect hfind hk hjob hout
  · next fileid delta _ hout hjob =>
      cases h
      rw [hgo]
      exact .passed hfind hk (by simp [hjob, FlushJob.victim]) hout
        (hjob ▸ rest_thenDrop fileid delta _)
  · next fileid delta _ hout hjob =>
      cases h
      rw [hgo]
      have hitems : u.job.items = [(fileid, delta)] := by rw [hjob, FlushJob.items]
      exact restore_effect hfind hk (by rw [hjob, FlushJob.restores]) hitems hout
        (hjob ▸ rest_flush fileid delta _)
  · next fileid delta rest hout hjob =>
      cases h
      rw [hgo]
      exact .passed hfind hk (by simp [hjob, FlushJob.victim]) hout
        (hjob ▸ rest_drain fileid delta rest)
  · next fileid delta rest hout hjob =>
      cases h
      rw [hgo]
      have hitems : u.job.items = (fileid, delta) :: rest := by rw [hjob, FlushJob.items]
      exact restore_effect hfind hk (by rw [hjob, FlushJob.restores]) hitems hout
        (hjob ▸ rest_drain fileid delta rest)
  · contradiction

theorem ptDrop_effect (h : ptStep s (.drop tid) = some t) : PtEffect s (.drop tid) t := by
  obtain ⟨u, hfind, h⟩ := bind_eq_some_iff.mp h
  obtain ⟨k₁, k₂, hk, hgo, -⟩ := threads_split hfind
  have hdone : s.goOn u.tid none = s.withThreads (k₁ ++ k₂) := by simp [hgo, nextThread]
  split at h
  · next fileid hjob =>
      cases h
      rw [hdone]
      cases hbucket : shardFind s.shard fileid with
      | none =>
        rw [dropBucket, hbucket]
        exact .dropMiss hk hjob
      | some =>
        obtain ⟨rfl, _, _, hs, -, herase⟩ := shardFind_split hbucket
        rw [dropBucket, hbucket, herase]
        dsimp only
        split
        · next hdroppable => exact .drop hk hjob hs (by simp_all [isDroppable])
        · exact .dropMiss hk hjob
  · contradiction

theorem ptStep_effect {op} (h : ptStep s op = some t) : PtEffect s op t := by
  cases op with
  | prepare => exact ptPrepare_effect h
  | commit => exact ptCommit_effect h
  | abort => exact ptAbort_effect h
  | syncBump =>
    cases h
    exact .syncBump
  | noteSync => exact ptNoteSync_effect h
  | flush => exact ptFlush_effect h
  | drain => exact ptDrain_effect h
  | callback => exact ptCallback_effect h
  | complete => exact ptComplete_effect h
  | drop => exact ptDrop_effect h
  | readRow =>
    cases h
    exact .readRow
  | overlay => exact ptOverlay_effect h

end PnfsLattice
