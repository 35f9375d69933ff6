import Mathlib.Tactic
import PnfsLattice.Lib.Machine

/-!
# Session slots and their replay cache

The slot table of one session (`session.c`): SEQUENCE checks the sequence id of a slot,
the dispatcher executes the compound, and afterwards stores the encoded reply in the
slot, in a critical section of its own that is keyed by session and slot only. A
request that repeats the slot's sequence id is answered from that cache.

The machine runs one slot. `accepted` records, oldest first, the requests the slot
accepted, each with the reply its execution produced; it is not in the source.
-/

namespace PnfsLattice

open Lib List Option

/-! ## The slot table -/

/-- `struct nfs4_slot`. -/
structure Slot where
  seqId : UInt32
  inUse : Bool
  cachedReply : Option (List UInt8)
deriving DecidableEq

/-- The outcomes of `session_sequence_check_conn`. -/
inductive SeqStatus
  | badSession
  | badSlot
  | misordered
  | accepted
  | replayUncached
  | replayCached
deriving DecidableEq

/-- The slot part of `session_sequence_check_conn`. A slot that was never used accepts
any sequence id; sequence ids are 32-bit and wrap. -/
def sequenceCheck (slot : Slot) (seqId : UInt32) : Slot × SeqStatus :=
  if !slot.inUse then ({ slot with seqId, inUse := true }, .accepted)
  else if seqId = slot.seqId then
    (slot, if slot.cachedReply.isSome then .replayCached else .replayUncached)
  else if seqId = slot.seqId + 1 then ({ slot with seqId, cachedReply := none }, .accepted)
  else (slot, .misordered)

/-- `session_slot_cache_reply` on a slot: an empty reply is refused, and a failed
allocation loses the old reply. -/
def slotCacheReply (slot : Slot) (alloc : Bool) (reply : List UInt8) : Slot :=
  if reply = [] then slot
  else { slot with cachedReply := if alloc then some reply else none }

/-- `session_slot_get_cached_reply` on a slot, the copy succeeding. -/
def slotGetCachedReply (slot : Slot) : Option (List UInt8) := slot.cachedReply

variable (slots : List Slot) (slotId : ℕ)

/-- `session_sequence_check_conn` over the slots of a session that exists. -/
def sessionSequenceCheck (seqId : UInt32) : List Slot × SeqStatus :=
  (slots.modify slotId fun slot => (sequenceCheck slot seqId).1,
    (slots[slotId]?.map fun slot => (sequenceCheck slot seqId).2).getD .badSlot)

/-- `session_slot_cache_reply` over the slots of a session. -/
def sessionSlotCacheReply (alloc : Bool) (reply : List UInt8) : List Slot :=
  slots.modify slotId fun slot => slotCacheReply slot alloc reply

/-- `session_slot_get_cached_reply` over the slots of a session. -/
def sessionSlotGetCachedReply : Option (List UInt8) :=
  slots[slotId]?.bind slotGetCachedReply

/-! ## One slot as a machine -/

/-- A request the slot accepted, and the reply its execution produced. -/
structure Execution where
  seqId : UInt32
  reply : Option (List UInt8)
deriving DecidableEq

/-- A slot with the executions it accepted, oldest first. -/
structure SlotSys where
  slot : Slot
  accepted : List Execution
deriving DecidableEq

/-- One action on the slot. `store k` is the end of the `k`-th accepted request, which
produces its reply and stores it; `fetch` answers a replay. -/
inductive SlotOp
  | check (seqId : UInt32)
  | store (k : ℕ) (reply : List UInt8) (alloc : Bool)
  | fetch
deriving DecidableEq

/-- One step. An execution stores once. -/
def slotStep (s : SlotSys) : SlotOp → Option SlotSys
  | .check seqId =>
    match sequenceCheck s.slot seqId with
    | (slot', .accepted) => some ⟨slot', s.accepted ++ [⟨seqId, none⟩]⟩
    | (slot', _) => some ⟨slot', s.accepted⟩
  | .store k reply alloc =>
    match s.accepted[k]? with
    | some e =>
      if e.reply = none then
        some ⟨slotCacheReply s.slot alloc reply, s.accepted.set k { e with reply := some reply }⟩
      else none
    | none => none
  | .fetch => some s

/-- A slot as `CREATE_SESSION` allocates it. -/
def slotSysInit : SlotSys := ⟨⟨0, false, none⟩, []⟩

def SlotInit (s : SlotSys) : Prop := s = slotSysInit

/-- The condition on a store: no later request was accepted on the slot before it. -/
def StoreOk (s : SlotSys) : SlotOp → Prop
  | .store k _ _ => k + 1 = s.accepted.length
  | _ => True

/-! ## What one step can do -/

inductive SlotEffect (s : SlotSys) : SlotOp → SlotSys → Prop
  | same (op : SlotOp) : SlotEffect s op s
  | first (q : UInt32) (hidle : s.slot.inUse = false) :
      SlotEffect s (.check q) ⟨{ s.slot with seqId := q, inUse := true }, s.accepted ++ [⟨q, none⟩]⟩
  | advance (hused : s.slot.inUse = true) :
      SlotEffect s (.check (s.slot.seqId + 1))
        ⟨⟨s.slot.seqId + 1, true, none⟩, s.accepted ++ [⟨s.slot.seqId + 1, none⟩]⟩
  | store {k : ℕ} {e : Execution} (reply : List UInt8) (alloc : Bool)
      (hk : s.accepted[k]? = some e) (he : e.reply = none) :
      SlotEffect s (.store k reply alloc) ⟨slotCacheReply s.slot alloc reply,
        s.accepted.set k { e with reply := some reply }⟩

variable {s t : SlotSys} {op : SlotOp}

theorem slotStep_effect (h : slotStep s op = some t) : SlotEffect s op t := by
  cases op with
  | check q =>
    simp only [slotStep, sequenceCheck] at h
    by_cases hused : s.slot.inUse = true
    · by_cases hsame : q = s.slot.seqId
      · cases hc : s.slot.cachedReply <;> simp [hused, hsame, hc] at h <;>
          exact h ▸ .same _
      · by_cases hnext : q = s.slot.seqId + 1
        · subst hnext
          simp [hused] at h
          exact h ▸ .advance hused
        · simp [hused, hsame, hnext] at h
          exact h ▸ .same _
    · simp only [Bool.not_eq_true] at hused
      simp [hused] at h
      exact h ▸ .first q hused
  | store k reply alloc =>
    simp only [slotStep] at h
    cases hk : s.accepted[k]? with
    | none => simp [hk] at h
    | some e =>
      by_cases he : e.reply = none
      · simp only [hk, he, if_true, Option.some.injEq] at h
        exact h ▸ .store reply alloc hk he
      · simp [hk, he] at h
  | fetch =>
    simp only [slotStep, Option.some.injEq] at h
    exact h ▸ .same _

/-! ## The accepted sequence ids -/

/-- The sequence ids the slot accepted, oldest first. -/
def SlotSys.ids (s : SlotSys) : List UInt32 := s.accepted.map Execution.seqId

/-- The ids count up by one, modulo `2 ^ 32`. -/
def Chain (ids : List UInt32) : Prop :=
  ∀ i q, ids[i]? = some q → ∃ q₀, ids[0]? = some q₀ ∧ q = q₀ + UInt32.ofNat i

/-- The slot and its executions fit together. -/
structure SlotInv (s : SlotSys) : Prop where
  used : s.slot.inUse = !s.ids.isEmpty
  unused : s.ids = [] → s.slot.cachedReply = none
  current : ∀ q, s.ids.getLast? = some q → q = s.slot.seqId
  chain : Chain s.ids

theorem chain_singleton (q : UInt32) : Chain [q] := by
  intro i q' h
  cases i with
  | zero => exact ⟨q', h, by simp⟩
  | succ => simp at h

variable {ids : List UInt32} {q : UInt32}

theorem Chain.append (h : Chain ids) (hlast : ids.getLast? = some q) : Chain (ids ++ [q + 1]) := by
  intro i q' hi
  have hlen : 0 < ids.length := by
    cases ids with
    | nil => simp at hlast
    | cons => simp
  rw [List.getElem?_append_left hlen]
  by_cases hlt : i < ids.length
  · rw [List.getElem?_append_left hlt] at hi
    exact h i q' hi
  obtain ⟨n, hn⟩ : ∃ n, ids.length = n + 1 := ⟨ids.length - 1, by omega⟩
  have hin : i = ids.length := by
    have := (List.getElem?_eq_some_iff.mp hi).1
    simp only [length_append, length_singleton] at this
    omega
  rw [hin, List.getElem?_concat_length, Option.some.injEq] at hi
  rw [List.getLast?_eq_getElem?, hn] at hlast
  obtain ⟨q₀, hq₀, hq⟩ := h n q hlast
  refine ⟨q₀, hq₀, ?_⟩
  rw [← hi, hq, hin, hn, UInt32.ofNat_add, UInt32.add_assoc]
  rfl

/-- Within a wrap the ids of a chain are distinct. -/
theorem Chain.ne (h : Chain ids) {i j r} (hi : ids[i]? = some q) (hj : ids[j]? = some r)
    (hij : i < j) (hwrap : j - i < 2 ^ 32) : q ≠ r := by
  obtain ⟨q₀, hq₀, rfl⟩ := h i q hi
  obtain ⟨r₀, hr₀, rfl⟩ := h j r hj
  obtain rfl : q₀ = r₀ := mem_unique hq₀ hr₀
  intro heq
  have hnat := congrArg UInt32.toNat ((UInt32.add_right_inj q₀).mp heq)
  simp only [UInt32.toNat_ofNat'] at hnat
  omega

theorem slotCacheReply_fields (slot : Slot) (alloc : Bool) (reply : List UInt8) :
    (slotCacheReply slot alloc reply).seqId = slot.seqId ∧
      (slotCacheReply slot alloc reply).inUse = slot.inUse := by
  unfold slotCacheReply
  split <;> exact ⟨rfl, rfl⟩

theorem ids_set {k e} (hk : s.accepted[k]? = some e) (reply : List UInt8) (slot : Slot) :
    SlotSys.ids ⟨slot, s.accepted.set k { e with reply := some reply }⟩ = s.ids := by
  obtain ⟨hlt, hget⟩ := List.getElem?_eq_some_iff.mp hk
  rw [SlotSys.ids, SlotSys.ids, map_set, ← hget]
  refine ext_getElem? fun i => ?_
  rw [List.getElem?_set]
  split
  next h => subst h; simp [hlt]
  next => rfl

theorem slotInv_slotStep (h : SlotInv s) (hstep : slotStep s op = some t) : SlotInv t := by
  cases slotStep_effect hstep with
  | same => exact h
  | first q hidle =>
    have hnil : s.ids = [] := by simpa [hidle] using h.used
    have hids : SlotSys.ids ⟨{ s.slot with seqId := q, inUse := true },
        s.accepted ++ [⟨q, none⟩]⟩ = [q] := by
      simp only [SlotSys.ids, map_append] at hnil ⊢
      simp [hnil]
    refine ⟨?_, ?_, ?_, ?_⟩ <;> rw [hids]
    · rfl
    · simp
    · simp
    · exact chain_singleton q
  | advance hused =>
    have hids : SlotSys.ids ⟨⟨s.slot.seqId + 1, true, none⟩,
        s.accepted ++ [⟨s.slot.seqId + 1, none⟩]⟩ = s.ids ++ [s.slot.seqId + 1] := by
      simp [SlotSys.ids]
    refine ⟨?_, fun _ => rfl, ?_, ?_⟩ <;> rw [hids]
    · simp
    · simp
    cases hlast : s.ids.getLast? with
    | none =>
      rw [List.getLast?_eq_none_iff] at hlast
      simp [h.used, hlast] at hused
    | some q =>
      obtain rfl := h.current q hlast
      exact h.chain.append hlast
  | @store k e reply alloc hk =>
    obtain ⟨hseq, huse⟩ := slotCacheReply_fields s.slot alloc reply
    have hids := ids_set hk reply (slotCacheReply s.slot alloc reply)
    refine ⟨?_, fun hnil => ?_, ?_, ?_⟩
    · rw [hids, huse]
      exact h.used
    · have : s.accepted = [] := by simpa [SlotSys.ids] using hnil
      simp [this] at hk
    · rw [hids, hseq]
      exact h.current
    · rw [hids]
      exact h.chain

theorem slotInv_of_reachable {ok} (h : Reachable SlotInit slotStep ok s) : SlotInv s := by
  refine h.invariant ?_ fun _ _ _ hs _ hstep => slotInv_slotStep hs hstep
  rintro _ rfl
  exact ⟨rfl, fun _ => rfl, by simp [SlotSys.ids, slotSysInit],
    by simp [Chain, SlotSys.ids, slotSysInit]⟩

/-! ## The replay cache -/

/-- What a replay should find: a check that answers "replay with cached reply" for `q`,
and a fetch in the same state, return the reply of the execution that was accepted
with `q`, the last one the slot accepted. -/
def ReplayOk (s : SlotSys) : Prop :=
  ∀ q bytes, (sequenceCheck s.slot q).2 = .replayCached →
    slotGetCachedReply s.slot = some bytes →
    ∃ e, s.accepted.getLast? = some e ∧ e.seqId = q ∧ e.reply = some bytes

/-- The cache holds the reply of the last accepted execution. -/
def CacheOk (s : SlotSys) : Prop :=
  ∀ bytes, s.slot.cachedReply = some bytes →
    ∃ e, s.accepted.getLast? = some e ∧ e.reply = some bytes

theorem getLast?_set_last {l : List Execution} {k : ℕ} (hk : k + 1 = l.length)
    (e : Execution) : (l.set k e).getLast? = some e := by
  rw [List.getLast?_eq_getElem?, length_set, ← hk, Nat.add_sub_cancel,
    List.getElem?_set_self (by omega)]

/-- A store by the last accepted execution keeps the cache right; the other steps do so
in any case. -/
theorem cacheOk_slotStep (hinv : SlotInv s) (h : CacheOk s) (hok : StoreOk s op)
    (hstep : slotStep s op = some t) : CacheOk t := by
  cases slotStep_effect hstep with
  | same => exact h
  | first q hidle =>
    intro bytes hb
    have hnone : s.slot.cachedReply = none := hinv.unused (by simpa [hidle] using hinv.used)
    simp [hnone] at hb
  | advance => intro bytes hb; cases hb
  | @store k e reply alloc hk he =>
    intro bytes hb
    simp only [slotCacheReply] at hb
    split at hb
    next hnil =>
      -- An empty reply leaves the cache alone, and it was empty: `e` had no reply yet.
      obtain ⟨_, hlast, hreply⟩ := h bytes hb
      rw [List.getLast?_eq_getElem?, ← hok, Nat.add_sub_cancel, hk, Option.some.injEq] at hlast
      simp [← hlast, he] at hreply
    next hne =>
      cases alloc with
      | false => simp at hb
      | true => exact ⟨_, getLast?_set_last hok _, by simpa using hb⟩

theorem replayOk_of_cacheOk (hinv : SlotInv s) (h : CacheOk s) : ReplayOk s := by
  intro q bytes hcheck hget
  obtain ⟨e, hlast, hreply⟩ := h bytes hget
  refine ⟨e, hlast, ?_, hreply⟩
  have hcur := hinv.current e.seqId (by simp [SlotSys.ids, hlast])
  rw [hcur]
  unfold sequenceCheck at hcheck
  split_ifs at hcheck with hidle hsame hc hnext
  exact hsame.symm

/-- **Slot replay.**  In every run the sequence ids a slot accepts count up by one modulo
`2 ^ 32`, and none is accepted twice within a wrap. In every run in which each execution
stores its reply while it is the last one its slot accepted, a replay that is answered
from the cache gets the reply of the execution accepted with its sequence id. -/
theorem slot_replay_correct {s : SlotSys} (h : Reachable SlotInit slotStep anyStep s) :
    (Chain s.ids ∧ ∀ i j q r, s.ids[i]? = some q → s.ids[j]? = some r → i < j →
        j - i < 2 ^ 32 → q ≠ r) ∧
      (Reachable SlotInit slotStep StoreOk s → ReplayOk s) := by
  refine ⟨?_, fun hstore => ?_⟩
  · have hinv := slotInv_of_reachable h
    exact ⟨hinv.chain, fun i j q r hi hj hij hw => hinv.chain.ne hi hj hij hw⟩
  refine replayOk_of_cacheOk (slotInv_of_reachable h) ?_
  refine hstore.invariant_of (fun _ hs => slotInv_of_reachable hs) ?_
    fun _ _ _ hinv hs hok hstep => cacheOk_slotStep hinv hs hok hstep
  rintro _ rfl _ hb
  cases hb

/-- A request that stores its reply and is then repeated. -/
def replayed : List SlotOp := [.check 5, .store 0 [1, 2] true, .check 5, .fetch]

theorem slot_replay_correct_replayed : ∃ s, exec slotStep slotSysInit replayed = some s ∧
      (sequenceCheck s.slot 5).2 = .replayCached ∧ s.slot.cachedReply = some [1, 2] ∧
      ReplayOk s := by
  have hok : AllSteps slotStep StoreOk slotSysInit replayed :=
    .cons rfl trivial (.cons rfl rfl (.cons rfl trivial (.cons rfl trivial trivial)))
  exact ⟨_, rfl, rfl, rfl, (slot_replay_correct (.run _ replayed rfl)).2 (.run _ _ rfl hok)⟩

/-- Two requests of which the first one stores its reply last. -/
def lateStore : List SlotOp := [.check 1, .check 2, .store 1 [8] true, .store 0 [7] true]

/-- After that run a replay of sequence id 2 is answered from the cache with the reply of
sequence id 1, while its own execution had produced another one. -/
theorem slot_replay_lateStore : ¬ ∀ s, Reachable SlotInit slotStep anyStep s → ReplayOk s := by
  intro hall
  obtain ⟨e, hlast, -, hreply⟩ := hall _ (.run slotSysInit lateStore rfl) 2 [7] rfl rfl
  cases hlast
  cases hreply

end PnfsLattice
