import Mathlib.Algebra.Group.Int.Defs
import Mathlib.Data.List.Sort
import Mathlib.Tactic.Common
import PnfsLattice.Stateid

/-!
# The grace period

`grace.c`: the flag, the deadline and the array of clients that may still reclaim. The
array is sorted by clientid and searched by bisection, so of several entries with one clientid
a search always returns the same one.

`bsearch` of the C library is a parameter with its contract: it returns an entry with the key,
and finds one in a sorted array that has it. Which one it returns is open.
-/

namespace PnfsLattice

open List Option

/-! ## State -/

/-- `struct grace_client_entry`. -/
structure GraceClient where
  clientid : Clientid
  reclaimed : Bool
deriving DecidableEq

/-- `struct grace_state`; `client_count` is the length of `clients`. -/
structure GraceState where
  inGrace : Bool
  durationSec : UInt32
  startTime : ℤ
  clients : List GraceClient
  reclaimedCount : ℕ
deriving DecidableEq

/-- The order of `cmp_clientid`. -/
def cmpClientid (a b : Clientid) : Prop := a.toNat ≤ b.toNat
deriving Decidable

instance : Std.Total cmpClientid := ⟨fun a b => Nat.le_total a.toNat b.toNat⟩

instance : IsTrans Clientid cmpClientid := ⟨fun _ _ _ => Nat.le_trans⟩

/-- `bsearch` over an array of clientids, as the index it returns. -/
structure Bsearch where
  find : List Clientid → Clientid → Option ℕ
  found : ∀ {l c i}, find l c = some i → l[i]? = some c
  missed : ∀ {l c}, l.Pairwise cmpClientid → find l c = none → c ∉ l

/-! ## Calls -/

def graceInit : GraceState :=
  { inGrace := false, durationSec := 0, startTime := 0, clients := [], reclaimedCount := 0 }

def graceExit (g : GraceState) : GraceState :=
  { g with inGrace := false, clients := [], reclaimedCount := 0 }

def graceEnter (durationSec : UInt32) (now : ℤ) : GraceState :=
  { inGrace := true, durationSec, startTime := now, clients := [], reclaimedCount := 0 }

def graceMaxClients : ℕ := 65536

/-- The record list is tracked: it is not too long and the array could be allocated. -/
def graceTracks (recs : List Clientid) (alloc : Bool) : Bool :=
  recs.length ≤ graceMaxClients && alloc

/-- `grace_enter_with_clients`; the entries of equal clientids are equal, so it does not
matter that `qsort` is not stable. -/
def graceEnterWithClients (durationSec : UInt32) (recs : List Clientid) (alloc : Bool) (now : ℤ) :
    GraceState :=
  { graceEnter durationSec now with
    clients := if graceTracks recs alloc then
        (recs.insertionSort cmpClientid).map fun c => ⟨c, false⟩
      else [] }

/-- `(uint32_t)(now - start_time)`. -/
def GraceState.elapsed (g : GraceState) (now : ℤ) : ℕ := ((now - g.startTime) % 2 ^ 32).toNat

/-- `grace_is_active`: a period whose time is up is over from then on. -/
def graceIsActive (g : GraceState) (now : ℤ) : GraceState × Bool :=
  if !g.inGrace then (g, false)
  else if g.durationSec.toNat ≤ g.elapsed now then (graceExit g, false)
  else (g, true)

/-- `find_client`, with the index of the entry. -/
def findClient (b : Bsearch) (g : GraceState) (clientid : Clientid) : Option (ℕ × GraceClient) :=
  (b.find (g.clients.map GraceClient.clientid) clientid).bind fun i =>
    g.clients[i]?.map fun e => (i, e)

/-- One more entry is reclaimed. -/
def markReclaimed (g : GraceState) (i : ℕ) (e : GraceClient) : GraceState :=
  { g with
    clients := g.clients.set i { e with reclaimed := true }
    reclaimedCount := g.reclaimedCount + 1 }

/-- `grace_client_reclaimed`; the answer is `true` for 0. -/
def graceClientReclaimed (b : Bsearch) (g : GraceState) (clientid : Clientid) : GraceState × Bool :=
  if !g.inGrace then (g, false)
  else match findClient b g clientid with
    | none => (g, false)
    | some (i, e) =>
      if e.reclaimed then (g, false)
      else if (markReclaimed g i e).clients.length ≤ (markReclaimed g i e).reclaimedCount then
        (graceExit g, true)
      else (markReclaimed g i e, true)

def graceClientIsRecovering (b : Bsearch) (g : GraceState) (clientid : Clientid) : Bool :=
  g.inGrace && (findClient b g clientid).any fun e => !e.2.reclaimed

/-! ## The array -/

abbrev GraceState.keys (g : GraceState) : List Clientid := g.clients.map GraceClient.clientid

/-- The array is sorted, the counter counts its reclaimed entries, and while the period goes
on one of them is still open. -/
structure GraceState.Wf (g : GraceState) : Prop where
  sorted : g.keys.Pairwise cmpClientid
  counted : g.reclaimedCount = g.clients.countP GraceClient.reclaimed
  pending : g.inGrace = true → g.clients ≠ [] → g.reclaimedCount < g.clients.length

variable {b : Bsearch} {g : GraceState} {c : Clientid}

variable {i : ℕ} {e x : GraceClient}

theorem findClient_some (h : findClient b g c = some (i, e)) :
    g.clients[i]? = some e ∧ e.clientid = c := by
  obtain ⟨j, hj, he⟩ := bind_eq_some_iff.mp h
  obtain ⟨_, he', heq⟩ := map_eq_some_iff.mp he
  obtain ⟨rfl, rfl⟩ := Prod.mk.inj heq
  have hkey := b.found hj
  rw [List.getElem?_map, he'] at hkey
  exact ⟨he', some.inj hkey⟩

theorem findClient_isSome (hg : g.Wf) (hc : c ∈ g.keys) : (findClient b g c).isSome := by
  cases hj : b.find g.keys c with
  | none => exact absurd hc (b.missed hg.sorted hj)
  | some j =>
    have hkey := b.found hj
    rw [List.getElem?_map] at hkey
    obtain ⟨e, he, -⟩ := map_eq_some_iff.mp hkey
    have hfind : findClient b g c = some (j, e) := by
      unfold findClient
      rw [hj, bind_some, he, map_some]
    rw [hfind]
    rfl

theorem keys_markReclaimed (h : g.clients[i]? = some e) : (markReclaimed g i e).keys = g.keys := by
  obtain ⟨hi, rfl⟩ := List.getElem?_eq_some_iff.mp h
  have hkey : (g.clients.map GraceClient.clientid)[i]? = some g.clients[i].clientid := by
    rw [List.getElem?_map, h, map_some]
  obtain ⟨hi', hkey⟩ := List.getElem?_eq_some_iff.mp hkey
  unfold markReclaimed GraceState.keys
  rw [map_set]
  rw [← hkey, set_getElem_self]

theorem countP_markReclaimed (h : g.clients[i]? = some e) (he : e.reclaimed = false) :
    (markReclaimed g i e).clients.countP GraceClient.reclaimed =
      g.clients.countP GraceClient.reclaimed + 1 := by
  obtain ⟨hi, rfl⟩ := List.getElem?_eq_some_iff.mp h
  simp [markReclaimed, countP_set hi, he]

theorem mem_markReclaimed (hx : x ∈ (markReclaimed g i e).clients) :
    x ∈ g.clients ∨ x = { e with reclaimed := true } :=
  mem_or_eq_of_mem_set hx

/-! ## What a call can do -/

/-- The cases of `grace_client_reclaimed`. -/
inductive ReclaimCase (b : Bsearch) (g : GraceState) (c : Clientid) : GraceState → Prop
  | idle (h : g.inGrace = false) : ReclaimCase b g c g
  | unknown (h : findClient b g c = none) : ReclaimCase b g c g
  | again {i : ℕ} {e} (hf : findClient b g c = some (i, e)) (he : e.reclaimed = true) :
  ReclaimCase b g c g
  | last {i : ℕ} {e} (hf : findClient b g c = some (i, e)) (he : e.reclaimed = false)
      (hall : g.clients.length ≤ g.reclaimedCount + 1) : ReclaimCase b g c (graceExit g)
  | marked {i : ℕ} {e} (hf : findClient b g c = some (i, e)) (he : e.reclaimed = false)
      (hopen : g.reclaimedCount + 1 < g.clients.length) : ReclaimCase b g c (markReclaimed g i e)

theorem graceClientReclaimed_cases (b : Bsearch) (g : GraceState) (c : Clientid) :
    ReclaimCase b g c (graceClientReclaimed b g c).1 := by
  have hlen (i : ℕ) (e : GraceClient) : (markReclaimed g i e).clients.length = g.clients.length :=
    length_set
  unfold graceClientReclaimed
  split
  next h => exact .idle (by simpa using h)
  next h =>
    split
    next hf => exact .unknown hf
    next hf =>
      split
      next he => exact .again hf he
      next he =>
        rw [hlen]
        split
        next hall => exact .last hf (by simpa using he) hall
        next hopen => exact .marked hf (by simpa using he) (Nat.lt_of_not_le hopen)

theorem graceIsActive_cases (g : GraceState) (now : ℤ) :
    graceIsActive g now = (g, g.inGrace) ∧ (g.inGrace → g.elapsed now < g.durationSec.toNat) ∨
      g.inGrace ∧ g.durationSec.toNat ≤ g.elapsed now ∧
        graceIsActive g now = (graceExit g, false) := by
  unfold graceIsActive
  cases hg : g.inGrace with
  | false => exact .inl ⟨rfl, nofun⟩
  | true =>
    by_cases hup : g.durationSec.toNat ≤ g.elapsed now
    · exact .inr ⟨rfl, hup, by simp [hup]⟩
    · exact .inl ⟨by simp [hup], fun _ => Nat.lt_of_not_le hup⟩

/-! ## Invariants of the calls -/

theorem wf_of_clients_nil (hc : g.clients = []) (hn : g.reclaimedCount = 0) : g.Wf where
  sorted := by simp [GraceState.keys, hc]
  counted := by simp [hc, hn]
  pending _ h := absurd hc h

theorem wf_graceEnterWithClients (durationSec : UInt32) (recs : List Clientid) (alloc : Bool)
    (now : ℤ) : (graceEnterWithClients durationSec recs alloc now).Wf := by
  unfold graceEnterWithClients
  split
  next h =>
    have hkeys : (recs.insertionSort cmpClientid).map
        (GraceClient.clientid ∘ fun c => ⟨c, false⟩) = recs.insertionSort cmpClientid :=
      map_id _
    refine ⟨?_, ?_, fun _ hne => List.length_pos_iff.mpr hne⟩
    · rw [GraceState.keys, List.map_map, hkeys]
      exact List.pairwise_insertionSort _ recs
    · rw [countP_map]
      exact (countP_eq_zero.mpr fun _ _ => by simp).symm
  · exact wf_of_clients_nil rfl rfl

theorem wf_graceIsActive (hg : g.Wf) (now : ℤ) : (graceIsActive g now).1.Wf := by
  rcases graceIsActive_cases g now with ⟨h, -⟩ | ⟨-, -, h⟩
  · rwa [h]
  · rw [h]
    exact wf_of_clients_nil rfl rfl

theorem wf_graceClientReclaimed (hg : g.Wf) (c : Clientid) : (graceClientReclaimed b g c).1.Wf := by
  have hcase := graceClientReclaimed_cases b g c
  generalize (graceClientReclaimed b g c).1 = g' at hcase ⊢
  cases hcase with
  | idle | unknown | again => exact hg
  | last => exact wf_of_clients_nil rfl rfl
  | marked hf he hopen =>
    have hget := (findClient_some hf).1
    refine ⟨?_, ?_, fun _ _ => ?_⟩
    · rw [keys_markReclaimed hget]
      exact hg.sorted
    · rw [countP_markReclaimed hget he, ← hg.counted]
      rfl
    · exact hopen.trans_eq length_set.symm

/-- A call that finds the last open entry finds every other one reclaimed. -/
theorem reclaimed_of_last (hg : g.Wf) (hf : findClient b g c = some (i, e))
    (he : e.reclaimed = false) (hall : g.clients.length ≤ g.reclaimedCount + 1)
    (hx : x ∈ g.clients) : x.reclaimed = true ∨ x.clientid = c := by
  obtain ⟨hget, hkey⟩ := findClient_some hf
  obtain ⟨j, hj, rfl⟩ := getElem_of_mem hx
  by_cases hij : i = j
  · subst hij
    obtain ⟨_, heq⟩ := List.getElem?_eq_some_iff.mp hget
    exact .inr (heq ▸ hkey)
  · left
    -- The marked array counts as many reclaimed entries as it has.
    have hcount : (markReclaimed g i e).clients.countP GraceClient.reclaimed =
        (markReclaimed g i e).clients.length := by
      have hle : (markReclaimed g i e).clients.countP GraceClient.reclaimed ≤ _ :=
        countP_le_length
      rw [countP_markReclaimed hget he, ← hg.counted] at hle ⊢
      have hlen : (markReclaimed g i e).clients.length = g.clients.length := length_set
      omega
    have hmem : g.clients[j] ∈ (markReclaimed g i e).clients := by
      have hset : (g.clients.set i { e with reclaimed := true })[j]? = some g.clients[j] := by
        rw [List.getElem?_set_ne hij, List.getElem?_eq_getElem hj]
      exact mem_of_getElem? hset
    exact countP_eq_length.mp hcount _ hmem

/-- **What ends a period by reclaim.**  The array had entries, and all but those of the client
were reclaimed. -/
theorem graceClientReclaimed_ends (hg : g.Wf) (hin : g.inGrace = true)
    (hend : (graceClientReclaimed b g c).1.inGrace = false) :
    g.clients ≠ [] ∧ ∀ x ∈ g.clients, x.reclaimed = true ∨ x.clientid = c := by
  have hcase := graceClientReclaimed_cases b g c
  generalize (graceClientReclaimed b g c).1 = g' at hcase hend
  cases hcase with
  | idle h => exact absurd (hin.symm.trans h) nofun
  | unknown | again | marked => exact absurd (hin.symm.trans hend) nofun
  | last hf he hall =>
    refine ⟨fun hnil => ?_, fun x hx => reclaimed_of_last hg hf he hall hx⟩
    have hget := (findClient_some hf).1
    rw [hnil] at hget
    cases hget

/-- A reclaim makes only entries of its client reclaimed, and leaves the keys of a period that
goes on. -/
theorem graceClientReclaimed_frame (hin : (graceClientReclaimed b g c).1.inGrace = true) :
    (graceClientReclaimed b g c).1.keys = g.keys ∧
      (∀ x ∈ (graceClientReclaimed b g c).1.clients, x ∈ g.clients ∨
        x.clientid = c ∧ x.reclaimed = true) := by
  have hcase := graceClientReclaimed_cases b g c
  generalize (graceClientReclaimed b g c).1 = g' at hcase hin ⊢
  cases hcase with
  | idle | unknown | again => exact ⟨rfl, fun _ => .inl⟩
  | last => cases hin
  | marked hf =>
    obtain ⟨hget, hkey⟩ := findClient_some hf
    refine ⟨keys_markReclaimed hget, fun x hx => ?_⟩
    rcases mem_markReclaimed hx with hx | rfl
    · exact .inl hx
    · exact .inr ⟨hkey, rfl⟩

theorem reclaimed_graceClientReclaimed (hg : g.Wf) (hn : g.keys.Nodup)
    (hin : (graceClientReclaimed b g c).1.inGrace = true)
    (hx : x ∈ (graceClientReclaimed b g c).1.clients) (hc : x.clientid = c) :
    x.reclaimed = true := by
  have hcase := graceClientReclaimed_cases b g c
  generalize (graceClientReclaimed b g c).1 = g' at hcase hin hx
  -- Two entries with the client's id are one.
  have huniq : ∀ y ∈ g.clients, y.clientid = c → ∀ z ∈ g.clients, z.clientid = c → y = z :=
    fun y hy hyc z hz hzc => inj_on_of_nodup_map hn hy hz (hyc.trans hzc.symm)
  cases hcase with
  | idle h => exact absurd (hin.symm.trans h) nofun
  | unknown h =>
    have hsome := findClient_isSome (b := b) hg (mem_map.mpr ⟨x, hx, hc⟩)
    rw [h] at hsome
    cases hsome
  | again hf =>
    obtain ⟨hget, hkey⟩ := findClient_some hf
    rwa [huniq x hx hc _ (mem_of_getElem? hget) hkey]
  | last => cases hin
  | @marked i e hf =>
    obtain ⟨hget, hkey⟩ := findClient_some hf
    rcases mem_markReclaimed hx with hxg | rfl
    · -- The old entry would be `e`, whose place was overwritten.
      obtain rfl := huniq x hxg hc e (mem_of_getElem? hget) hkey
      have hnod : (markReclaimed g i x).keys.Nodup := by rwa [keys_markReclaimed hget]
      obtain ⟨hi, -⟩ := List.getElem?_eq_some_iff.mp hget
      have hmem : ({ x with reclaimed := true } : GraceClient) ∈ (markReclaimed g i x).clients :=
        mem_set hi _
      exact (congrArg _ (inj_on_of_nodup_map hnod hx hmem rfl))
    · rfl

end PnfsLattice
