import Mathlib.Data.List.Nodup
import Mathlib.Logic.Function.Basic
import PnfsLattice.Lib.Machine

/-!
# Id allocators of the FoundationDB and the DAOS backend

`fdb_backend_alloc_id` and `daos_backend_alloc_id` hand out ids from pools of the calling thread,
one for each counter. An empty pool is refilled by a transaction that reads the counter and
advances it by a batch. The store applies a commit only if the counter has not been written
since it was read, and a commit nobody waits for any more may still be applied.

A thread is one of any process and an instance one of any process, so that two instances have the
same `instance_seq` in a thread only if they are the same.
-/

namespace PnfsLattice

open Lib Function

/-- `MDS_FILEID_BATCH`. -/
def fileidBatch : ℕ := 1024

/-- `struct id_pool`; `remaining` ids from `next` on are left. -/
structure IdPool (ι : Type) where
  instanceSeq : Option ι
  next : ℕ
  remaining : ℕ

/-- Where the call of a thread is: its body is to run, or has read `cur` and the commit is under
way. -/
inductive AllocPhase (ι κ : Type)
  | idle
  | refilling (i : ι) (c : κ)
  | attempted (i : ι) (c : κ) (cur : ℕ) (landed : Bool)

/-- The counters of each keyspace, the threads, the commits nobody waits for, and the ids that
calls have returned with `MDS_OK`. -/
structure IdSys (τ ι σ κ : Type) where
  stored : σ × κ → Option ℕ
  pools : τ × κ → IdPool ι
  phase : τ → AllocPhase ι κ
  flying : List ((σ × κ) × ℕ)
  issued : List ((σ × κ) × ℕ)

inductive AllocOp (τ ι σ κ : Type)
  | alloc (t : τ) (i : ι) (c : κ)
  | body (t : τ)
  | land (t : τ)
  | leave (t : τ) (again : Bool)
  | refilled (t : τ)
  | late (k : σ × κ) (cur : ℕ)
  | restart (t : τ)

section Model

variable {τ ι σ κ : Type} [DecidableEq τ] [DecidableEq ι] [DecidableEq σ] [DecidableEq κ]
  (space : ι → σ) (boot : σ × κ → Option ℕ)

/-- The call takes its pool; what another instance has left there is discarded. -/
def IdSys.bind (s : IdSys τ ι σ κ) (t : τ) (i : ι) (c : κ) : IdSys τ ι σ κ :=
  if (s.pools (t, c)).instanceSeq = some i then s
  else { s with pools := update s.pools (t, c) ⟨some i, (s.pools (t, c)).next, 0⟩ }

/-- The next id of the pool `p` is returned. -/
def IdSys.hand (s : IdSys τ ι σ κ) (t : τ) (i : ι) (c : κ) (p : IdPool ι) : IdSys τ ι σ κ :=
  { s with
    pools := update s.pools (t, c) { p with next := p.next + 1, remaining := p.remaining - 1 }
    phase := update s.phase t .idle
    issued := ((space i, c), p.next) :: s.issued }

/-- A commit that writes `cur + fileidBatch` over `cur`. -/
def IdSys.write (s : IdSys τ ι σ κ) (k : σ × κ) (cur : ℕ) : Option (IdSys τ ι σ κ) :=
  if s.stored k = some cur then
    some { s with stored := update s.stored k (some (cur + fileidBatch)) }
  else none

/-- The thread goes on to `p` and waits no longer for its commit. -/
def IdSys.leave (s : IdSys τ ι σ κ) (t : τ) (p : AllocPhase ι κ) : IdSys τ ι σ κ :=
  { s with
    phase := update s.phase t p
    flying := match s.phase t with
      | .attempted i c cur false => ((space i, c), cur) :: s.flying
      | _ => s.flying }

def allocStep (s : IdSys τ ι σ κ) : AllocOp τ ι σ κ → Option (IdSys τ ι σ κ)
  | .alloc t i c =>
    match s.phase t with
    | .idle =>
      if ((s.bind t i c).pools (t, c)).remaining = 0 then
        some ((s.bind t i c).leave space t (.refilling i c))
      else some ((s.bind t i c).hand space t i c ((s.bind t i c).pools (t, c)))
    | _ => none
  | .body t =>
    match s.phase t with
    | .refilling i c =>
      match s.stored (space i, c) with
      | none => some (s.leave space t .idle)
      | some cur =>
        -- Above `UINT64_MAX - MDS_FILEID_BATCH` the answer is `MDS_ERR_NOSPC`.
        if cur > 18446744073709551615 - fileidBatch then some (s.leave space t .idle)
        else some (s.leave space t (.attempted i c cur false))
    | _ => none
  | .land t =>
    match s.phase t with
    | .attempted i c cur false =>
      (s.write (space i, c) cur).map fun s' =>
        { s' with phase := update s'.phase t (.attempted i c cur true) }
    | _ => none
  | .leave t again =>
    match s.phase t, again with
    | .attempted i c _ _, true => some (s.leave space t (.refilling i c))
    | _, _ => some (s.leave space t .idle)
  | .refilled t =>
    match s.phase t with
    -- The call has bound the pool to `i` before.
    | .attempted i c cur true => some (s.hand space t i c ⟨some i, cur + 1, fileidBatch⟩)
    | _ => none
  | .late k cur => if (k, cur) ∈ s.flying then s.write k cur else none
  | .restart t =>
    some { s.leave space t .idle with
      pools := fun q => if q.1 = t then ⟨none, 0, 0⟩ else s.pools q }

/-- The counters are as they were bootstrapped and no thread has run. -/
def IdSys.start : IdSys τ ι σ κ :=
  ⟨boot, fun _ => ⟨none, 0, 0⟩, fun _ => .idle, [], []⟩

/-- The `len` ids from `lo` on are those of the thread `t`, and none has been returned. -/
def Held (owner : σ × κ → ℕ → Option τ) (s : IdSys τ ι σ κ) (t : τ) (k : σ × κ)
    (lo len : ℕ) : Prop :=
  ∀ n, lo ≤ n → n < lo + len → owner k n = some t ∧ (k, n) ∉ s.issued

/-- Each id of a landed batch belongs to one thread, up to the stored counter. That `owner` is a
function keeps apart the pools of different threads. -/
structure IdInv (owner : σ × κ → ℕ → Option τ) (s : IdSys τ ι σ κ) : Prop where
  pool : ∀ q i, (s.pools q).instanceSeq = some i →
    Held owner s q.1 (space i, q.2) (s.pools q).next (s.pools q).remaining
  attempt : ∀ t i c cur, s.phase t = .attempted i c cur true →
    Held owner s t (space i, c) (cur + 1) fileidBatch
  owned : ∀ k n t, owner k n = some t →
    (∀ b ∈ boot k, b < n) ∧ ∃ v, s.stored k = some v ∧ n ≤ v
  base : ∀ k v, s.stored k = some v → ∀ b ∈ boot k, b ≤ v
  issued : ∀ e ∈ s.issued, ∃ t, owner e.1 e.2 = some t
  nodup : s.issued.Nodup

variable {space boot} {owner : σ × κ → ℕ → Option τ} {s s' : IdSys τ ι σ κ} {t : τ} {i : ι}
  {c : κ} {k : σ × κ} {cur : ℕ}

omit [DecidableEq ι] [DecidableEq σ] in
theorem IdInv.hand {p : IdPool ι} (hi : IdInv space boot owner s) (hp : p.instanceSeq = some i)
    (hheld : Held owner s t (space i, c) p.next p.remaining) (hpos : 0 < p.remaining) :
    IdInv space boot owner (s.hand space t i c p) := by
  obtain ⟨hown, hnew⟩ := hheld p.next (Nat.le_refl _) (by omega)
  -- What another thread holds, and what this one holds of another counter, is not the id.
  have hkeep : ∀ t' k' lo len, Held owner s t' k' lo len → (t', k'.2) ≠ (t, c) →
      Held owner (s.hand space t i c p) t' k' lo len := by
    intro t' _ _ _ h _ n hlo hhi
    have := h n hlo hhi
    grind [IdSys.hand]
  refine ⟨fun q i' => ?_, fun t' _ _ _ => ?_, hi.owned, hi.base, ?_,
    List.nodup_cons.mpr ⟨hnew, hi.nodup⟩⟩
  · by_cases hq : q = (t, c)
    · subst hq
      simp only [IdSys.hand, update_self, hp, Option.some.injEq]
      rintro rfl n hlo hhi
      have := hheld n (by omega) (by omega)
      grind
    · simp only [IdSys.hand, update_of_ne hq]
      exact fun h => hkeep _ _ _ _ (hi.pool _ _ h) hq
  · by_cases ht : t' = t
    · subst ht
      simp [IdSys.hand]
    · simp only [IdSys.hand, update_of_ne ht]
      exact fun h => hkeep _ _ _ _ (hi.attempt _ _ _ _ h) (by simp [ht])
  · rintro e he
    rcases List.mem_cons.mp he with rfl | he
    · exact ⟨t, hown⟩
    · exact hi.issued e he

omit [DecidableEq ι] [DecidableEq σ] [DecidableEq κ] in
theorem IdInv.leave (hi : IdInv space boot owner s) {p : AllocPhase ι κ}
    (hp : ∀ i c cur, p ≠ .attempted i c cur true) :
    IdInv space boot owner (s.leave space t p) := by
  refine { hi with attempt := fun t' i c cur h => ?_ }
  by_cases ht : t' = t
  · subst ht
    exact absurd (by simpa [IdSys.leave] using h) (hp i c cur)
  · exact hi.attempt t' i c cur (by simpa [IdSys.leave, ht] using h)

/-- The batch above `cur` becomes that of `o`. -/
def grant (owner : σ × κ → ℕ → Option τ) (k : σ × κ) (cur : ℕ) (o : Option τ) :
    σ × κ → ℕ → Option τ :=
  fun k' n => if k' = k ∧ cur < n ∧ n ≤ cur + fileidBatch then o else owner k' n

omit [DecidableEq τ] [DecidableEq ι] in
/-- A commit that lands takes nothing from anybody: its batch lies above the counter. -/
theorem IdInv.write (hi : IdInv space boot owner s) (o : Option τ)
    (h : s.write k cur = some s') :
    IdInv space boot (grant owner k cur o) s' ∧
      ∀ n, cur < n → n ≤ cur + fileidBatch → (k, n) ∉ s'.issued := by
  unfold IdSys.write at h
  split at h
  case isFalse => cases h
  rename_i hk
  cases h
  have hle : ∀ k' n t', owner k' n = some t' → grant owner k cur o k' n = some t' := by
    intro k' n t' ho
    have := hi.owned k' n t' ho
    grind [grant]
  have hheld : ∀ t' k' lo len, Held owner s t' k' lo len →
      Held (grant owner k cur o) s t' k' lo len :=
    fun _ _ _ _ hh n hlo hhi => ⟨hle _ _ _ (hh n hlo hhi).1, (hh n hlo hhi).2⟩
  have hbase := hi.base k cur hk
  refine ⟨⟨fun q i hq => hheld _ _ _ _ (hi.pool q i hq),
    fun t' i c cur' ht => hheld _ _ _ _ (hi.attempt t' i c cur' ht), fun k' n t' ho => ?_,
    fun k' v hv => ?_, fun e he => ?_, hi.nodup⟩, fun n _ _ he => ?_⟩
  · have := hi.owned k' n t'
    grind [grant, update_apply]
  · have := hi.base k' v
    grind [update_apply]
  · obtain ⟨t', ho⟩ := hi.issued e he
    exact ⟨t', hle _ _ _ ho⟩
  · obtain ⟨t', ho⟩ := hi.issued _ he
    obtain ⟨-, v, hv, hn⟩ := hi.owned _ _ _ ho
    simp only [hk, Option.some.injEq] at hv
    omega

omit [DecidableEq σ] in
theorem pools_bind : ((s.bind t i c).pools (t, c)).instanceSeq = some i := by
  by_cases h : (s.pools (t, c)).instanceSeq = some i <;> simp [IdSys.bind, h]

omit [DecidableEq σ] in
theorem IdInv.bind (hi : IdInv space boot owner s) : IdInv space boot owner (s.bind t i c) := by
  unfold IdSys.bind
  split
  · exact hi
  refine { hi with pool := fun q j hq => ?_ }
  by_cases hqt : q = (t, c)
  · subst hqt
    simp only [update_self]
    exact fun n hlo hhi => absurd hhi (Nat.not_lt.mpr hlo)
  · simp only [update_of_ne hqt] at hq ⊢
    exact hi.pool q j hq

theorem IdInv.step {op : AllocOp τ ι σ κ} (hi : IdInv space boot owner s)
    (hst : allocStep space s op = some s') : ∃ owner, IdInv space boot owner s' := by
  cases op <;> simp only [allocStep] at hst
  case alloc t i c =>
    have hb : IdInv space boot owner (s.bind t i c) := hi.bind
    split at hst
    case h_2 => cases hst
    split at hst <;> cases hst
    · exact ⟨owner, hb.leave (by simp)⟩
    · exact ⟨owner, hb.hand pools_bind (hb.pool (t, c) i pools_bind) (by omega)⟩
  case body | leave =>
    repeat' split at hst
    all_goals cases hst <;> exact ⟨owner, hi.leave (by simp)⟩
  case land t =>
    split at hst
    case h_2 => cases hst
    obtain ⟨_, hw, rfl⟩ := Option.map_eq_some_iff.mp hst
    obtain ⟨h, hnew⟩ := hi.write (some t) hw
    refine ⟨_, h.pool, fun t' j c' cur' ht' => ?_, h.owned, h.base, h.issued, h.nodup⟩
    by_cases htt : t' = t
    · subst htt
      simp only [update_self, AllocPhase.attempted.injEq] at ht'
      obtain ⟨rfl, rfl, rfl, -⟩ := ht'
      exact fun n _ _ => ⟨by grind [grant], hnew n (by omega) (by omega)⟩
    · exact h.attempt t' j c' cur' (by simpa [htt] using ht')
  case refilled t =>
    split at hst <;> cases hst
    rename_i i c cur ht
    exact ⟨owner, hi.hand rfl (hi.attempt t i c cur ht) (Nat.zero_lt_succ _)⟩
  case late k cur =>
    obtain ⟨-, hw⟩ := Option.ite_none_right_eq_some.mp hst
    exact ⟨_, (hi.write none hw).1⟩
  case restart t =>
    cases hst
    have h := hi.leave (t := t) (p := .idle) (by simp)
    refine ⟨owner, fun q i hq => ?_, h.attempt, h.owned, h.base, h.issued, h.nodup⟩
    by_cases ht : q.1 = t
    · simp [ht] at hq
    · simp only [if_neg ht] at hq ⊢
      exact h.pool q i hq

/-- **Ids are unique.**  In every state of every run no two calls have returned the same id of a
counter, and each id is above the value the counter was bootstrapped with. -/
theorem allocId_unique (h : Reachable (Eq (IdSys.start boot)) (allocStep space) anyStep s) :
    s.issued.Nodup ∧ ∀ e ∈ s.issued, ∀ b ∈ boot e.1, b < e.2 := by
  have hinv : ∃ owner, IdInv space boot owner s := by
    refine h.invariant (P := fun s => ∃ owner, IdInv space boot owner s) ?_ ?_
    · rintro s rfl
      refine ⟨fun _ _ => none, ?_, ?_, ?_, ?_, ?_, List.nodup_nil⟩ <;> simp [IdSys.start]
      grind
    · rintro s _ _ ⟨owner, hi⟩ - hst
      exact hi.step hst
  obtain ⟨_, hi⟩ := hinv
  refine ⟨hi.nodup, fun e he => ?_⟩
  obtain ⟨t, ho⟩ := hi.issued e he
  exact (hi.owned _ _ _ ho).1

/-- Two threads read the counter of one keyspace; the commit of the first is refused and its body
runs again. -/
def allocRun : List (AllocOp ℕ ℕ ℕ ℕ) :=
  [.alloc 0 5 0, .alloc 1 5 0, .body 0, .body 1, .land 1, .leave 0 true, .body 0, .land 0,
    .refilled 0, .refilled 1]

theorem allocId_unique_two :
    ∃ s, exec (allocStep id) (IdSys.start fun _ => some 1) allocRun = some s ∧
      s.issued = [((5, 0), 2), ((5, 0), 1026)] ∧ s.issued.Nodup := by
  have hrun : exec (allocStep id) (IdSys.start fun _ => some 1) allocRun = some _ := rfl
  exact ⟨_, hrun, rfl, (allocId_unique ((Reachable.start rfl).exec hrun)).1⟩

end Model

end PnfsLattice
