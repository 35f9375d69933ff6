import Mathlib.Tactic
import PnfsLattice.Lease.Table

/-!
# Stripe-lease exclusion

What the lease table is for: no byte of a stripe is leased to two clients, and a range
that was granted and not returned stays covered by leases of its client.

The check at the entry of a LAYOUTGET and its acquisition are two steps, and the
acquisition looks at nothing: it can run into a lease taken in between, and a renewal at
an offset takes the new length, be it shorter. Exclusion and coverage hold of the runs in
which neither happens.
-/

namespace PnfsLattice

open Lib List Option

/-! ## Slices -/

section Slices

variable {u room idx off rem : ℕ} {sl : List StripeSlice}

/-- The file byte at which a slice starts. -/
def StripeSlice.start (u : ℕ) (s : StripeSlice) : ℕ := s.stripeIndex * u + s.dsOffset

def StripeSlice.bytes (u : ℕ) (s : StripeSlice) : List ℕ := List.range' (s.start u) s.dsLength

theorem sliceLoop_ok_cases (h : sliceLoop u (room + 1) idx off rem = .ok sl) (hrem : 0 < rem) :
    (rem ≤ u - off ∧ sl = [{ stripeIndex := idx, dsOffset := off, dsLength := rem }]) ∨
    (u - off < rem ∧ ∃ rest, sliceLoop u room (idx + 1) 0 (rem - (u - off)) = .ok rest ∧
      sl = { stripeIndex := idx, dsOffset := off, dsLength := u - off } :: rest) := by
  rw [sliceLoop, if_pos hrem] at h
  by_cases hlast : rem ≤ u - off
  · left
    rw [Nat.min_eq_right hlast, if_neg (by omega)] at h
    cases h
    exact ⟨hlast, rfl⟩
  · right
    rw [Nat.min_eq_left (by omega), if_pos (by omega)] at h
    by_cases hmax : idx = uint32MaxNat
    · rw [if_pos hmax] at h
      cases h
    rw [if_neg hmax] at h
    cases hrest : sliceLoop u room (idx + 1) 0 (rem - (u - off)) with
    | error => rw [hrest] at h; cases h
    | ok rest =>
      rw [hrest] at h
      cases h
      exact ⟨by omega, rest, rfl, rfl⟩

theorem div_mod_of_stripe (idx : ℕ) (hoff : off < u) :
    (idx * u + off) / u = idx ∧ (idx * u + off) % u = off := by
  rw [Nat.add_comm, Nat.add_mul_div_right _ _ (by omega), Nat.add_mul_mod_self_right,
    Nat.div_eq_of_lt hoff, Nat.mod_eq_of_lt hoff]
  omega

/-- **The slices tile the range**: their bytes, in order, are its bytes. They are not empty,
each lies in one stripe, and the stripes differ. -/
theorem sliceLoop_tiles (hoff : off < u) (h : sliceLoop u room idx off rem = .ok sl) :
    sl.flatMap (StripeSlice.bytes u) = List.range' (idx * u + off) rem ∧
      (∀ s ∈ sl, idx ≤ s.stripeIndex ∧ 0 < s.dsLength ∧ s.dsOffset + s.dsLength ≤ u) ∧
      sl.Pairwise fun s s' => s.stripeIndex ≠ s'.stripeIndex := by
  induction room generalizing idx off rem sl with
  | zero =>
    rw [sliceLoop] at h
    split_ifs at h
    simp_all
  | succ _ ih =>
    by_cases hrem : 0 < rem
    · rcases sliceLoop_ok_cases h hrem with ⟨hlast, rfl⟩ | ⟨hmore, rest, hrest, rfl⟩
      · simp only [flatMap_singleton, mem_singleton, forall_eq, pairwise_singleton]
        exact ⟨rfl, ⟨le_rfl, hrem, by omega⟩, trivial⟩
      · obtain ⟨hbytes, hall, hpw⟩ := ih (by omega) hrest
        have hnext : (idx + 1) * u + 0 = idx * u + off + (u - off) := by rw [Nat.add_mul]; omega
        refine ⟨?_, fun s hs => ?_, pairwise_cons.mpr ⟨fun s hs => ?_, hpw⟩⟩
        · rw [flatMap_cons, hbytes, hnext, StripeSlice.bytes, StripeSlice.start,
            List.range'_append_1]
          rw [Nat.add_sub_of_le hmore.le]
        · rcases mem_cons.mp hs with rfl | hs
          · exact ⟨le_rfl, by dsimp only; omega, by dsimp only; omega⟩
          · exact ⟨Nat.le_of_succ_le (hall s hs).1, (hall s hs).2⟩
        · have := (hall s hs).1
          dsimp only
          omega
    · rw [sliceLoop] at h
      simp_all

/-- The loop on a range that ends where a later slice starts: the slices before it. -/
theorem sliceLoop_narrow (hoff : off < u) {s₀ s pre post}
    (h : sliceLoop u room idx off rem = .ok (s₀ :: pre ++ s :: post)) :
    idx * u + off < s.start u ∧ s.start u < idx * u + off + rem ∧
      sliceLoop u room idx off (s.start u - (idx * u + off)) = .ok (s₀ :: pre) := by
  induction room generalizing idx off rem s₀ pre with
  | zero =>
    rw [sliceLoop] at h
    split_ifs at h
    cases h
  | succ room ih =>
    have hrem : 0 < rem := by
      by_contra hno
      rw [sliceLoop, if_neg hno] at h
      cases h
    rcases sliceLoop_ok_cases h hrem with ⟨-, hsl⟩ | ⟨hmore, rest, hrest, hsl⟩
    · simp at hsl
    rw [cons_append] at hsl
    obtain ⟨rfl, rfl⟩ := hsl
    have hmul : (idx + 1) * u = idx * u + u := by rw [Nat.add_mul]; omega
    have hmax : idx ≠ uint32MaxNat := by
      intro he
      rw [sliceLoop, if_pos hrem, if_pos (by omega), if_pos he] at h
      cases h
    cases pre with
    | nil =>
      -- The slice is the next one, at the start of its stripe.
      have hrem' : 0 < rem - (u - off) := by omega
      cases room with
      | zero => rw [sliceLoop, if_pos hrem'] at hrest; cases hrest
      | succ =>
        have hs : s.start u = (idx + 1) * u := by
          rcases sliceLoop_ok_cases hrest hrem' with ⟨-, hsl⟩ | ⟨-, _, -, hsl⟩ <;>
          · rw [nil_append, List.cons.injEq] at hsl
            simp [StripeSlice.start, hsl.1]
        refine ⟨by omega, by omega, ?_⟩
        rw [sliceLoop, if_pos (by omega), Nat.min_eq_left (by omega), if_neg (by omega)]
    | cons =>
      obtain ⟨hlo, hhi, hnarrow⟩ := ih (by omega) hrest
      refine ⟨by omega, by omega, ?_⟩
      rw [sliceLoop, if_pos (by omega), Nat.min_eq_left (by omega), if_pos (by omega),
        if_neg hmax, show s.start u - (idx * u + off) - (u - off) =
          s.start u - ((idx + 1) * u + 0) by omega, hnarrow]
      rfl

end Slices

theorem sltUnit_pos (cfg : LeaseCfg) : 0 < cfg.sltUnit := by
  unfold LeaseCfg.sltUnit
  split_ifs <;> omega

variable {cfg : LeaseCfg} {g : LeaseRange} {tbl : List SltEntry} {now : ℕ} {s : LeaseSys}

/-- Slicing ends well when the length is in bounds, the first index exists, and its loop
does. -/
theorem slices_ok_iff {sl} :
    g.slices cfg = .ok sl ↔ 0 < g.length ∧ g.length < 2 ^ 64 - 1 ∧
      g.offset / cfg.sltUnit ≤ uint32MaxNat ∧
      sliceLoop cfg.sltUnit mdsMaxStripes (g.offset / cfg.sltUnit) (g.offset % cfg.sltUnit)
        g.length = .ok sl := by
  have hu := sltUnit_pos cfg
  have hmax : mdsMaxStripes ≠ 0 := by decide
  unfold LeaseRange.slices leaseRangeToStripeSlices
  split_ifs with h1 h2
  · exact iff_of_false nofun (by omega)
  · exact iff_of_false nofun (by omega)
  · exact ⟨fun h => ⟨by omega, by omega, by omega, h⟩, fun h => h.2.2.2⟩

theorem slices_tile {sl} (h : g.slices cfg = .ok sl) :
    sl.flatMap (StripeSlice.bytes cfg.sltUnit) = List.range' g.offset g.length ∧
      (∀ s ∈ sl, 0 < s.dsLength ∧ s.dsOffset + s.dsLength ≤ cfg.sltUnit) ∧
      sl.Pairwise fun s s' => s.stripeIndex ≠ s'.stripeIndex := by
  obtain ⟨hbytes, hall, hpw⟩ := sliceLoop_tiles (Nat.mod_lt _ (sltUnit_pos cfg))
    (slices_ok_iff.mp h).2.2.2
  rw [Nat.div_add_mod'] at hbytes
  exact ⟨hbytes, fun s hs => (hall s hs).2, hpw⟩

theorem exists_slice_of_byte {sl} (h : g.slices cfg = .ok sl) {b} (hlo : g.offset ≤ b)
    (hhi : b < g.offset + g.length) :
    ∃ s ∈ sl, s.stripeIndex = b / cfg.sltUnit ∧ s.dsOffset ≤ b % cfg.sltUnit ∧
      b % cfg.sltUnit < s.dsOffset + s.dsLength := by
  obtain ⟨hbytes, hall, -⟩ := slices_tile h
  have hb : b ∈ sl.flatMap (StripeSlice.bytes cfg.sltUnit) := by
    rw [hbytes, mem_range'_1]
    exact ⟨hlo, hhi⟩
  obtain ⟨s, hs, hbs⟩ := mem_flatMap.mp hb
  rw [StripeSlice.bytes, StripeSlice.start, mem_range'_1] at hbs
  have hin := (hall s hs).2
  -- In its stripe the byte is at `b - s.stripeIndex * u`.
  obtain ⟨hdiv, hmod⟩ := @div_mod_of_stripe cfg.sltUnit (b - s.stripeIndex * cfg.sltUnit)
    _ (by omega)
  rw [Nat.add_sub_of_le (by omega)] at hdiv hmod
  exact ⟨s, hs, hdiv.symm, by omega, by omega⟩

/-! ## The check -/

/-- No other client has a lease on the slice. -/
def SliceFree (tbl : List SltEntry) (g : LeaseRange) (s : StripeSlice) : Prop :=
  ∀ e ∈ tbl, e.conflicts g.fileid g.clientid s = false

/-- No other client has a lease on the slice that has not expired. -/
def LiveFree (now : ℕ) (tbl : List SltEntry) (g : LeaseRange) (s : StripeSlice) : Prop :=
  ∀ e ∈ tbl, now < e.expiryNs → e.conflicts g.fileid g.clientid s = false

theorem mem_shardEvictExpired {shard e} :
    e ∈ shardEvictExpired tbl shard now ↔
      e ∈ tbl ∧ ¬ (shardIndex e.fileid e.stripeIndex = shard ∧ e.expiryNs ≤ now) := by
  simp [shardEvictExpired, imp_iff_not_or]

theorem shardEvictExpired_eq (h : ∀ e ∈ tbl, now < e.expiryNs) (shard : UInt64) :
    shardEvictExpired tbl shard now = tbl := by
  refine filter_eq_self.mpr fun e he => ?_
  have hlt := h e he
  have hle : ¬ e.expiryNs ≤ now := by omega
  simp [hle]

theorem stripeLeaseCheckConflict_iff {s} (hs : 0 < s.dsLength) :
    (stripeLeaseCheckConflict tbl now g.fileid g.clientid s).2 = false ↔ LiveFree now tbl g s := by
  rw [stripeLeaseCheckConflict, if_neg (by omega)]
  simp only [List.any_eq_false, mem_shardEvictExpired, Bool.not_eq_true]
  refine ⟨fun h e he hlive => ?_, fun h e he => ?_⟩
  · exact h e ⟨he, fun _ => by omega⟩
  by_contra hc
  rw [Bool.not_eq_false] at hc
  have hsame := hc
  simp only [SltEntry.conflicts, Bool.and_eq_true, beq_iff_eq] at hsame
  -- A lease on the slice is in its shard, so it has been found not to have expired.
  obtain ⟨⟨⟨hf, hi⟩, -⟩, -⟩ := hsame
  have hlive : now < e.expiryNs := by
    by_contra hle
    exact he.2 ⟨by rw [hf, hi], by omega⟩
  exact Bool.false_ne_true ((h e he.1 hlive).symm.trans hc)

theorem liveFree_checked {s s'} :
    LiveFree now (stripeLeaseCheckConflict tbl now g.fileid g.clientid s).1 g s' ↔
      LiveFree now tbl g s' := by
  rw [stripeLeaseCheckConflict]
  split_ifs
  · rfl
  · refine forall_congr' fun e => ⟨fun h he hlive => ?_, fun h he => ?_⟩
    · exact h (mem_shardEvictExpired.mpr ⟨he, fun _ => by omega⟩) hlive
    · exact h (mem_shardEvictExpired.mp he).1

instance (now : ℕ) (tbl : List SltEntry) (g : LeaseRange) (s : StripeSlice) :
    Decidable (LiveFree now tbl g s) := by
  unfold LiveFree
  infer_instance

/-- The first slice on which another client has a lease. -/
def firstBusy (now : ℕ) (tbl : List SltEntry) (g : LeaseRange) (sl : List StripeSlice) :
    Option StripeSlice :=
  sl.find? fun s => !decide (LiveFree now tbl g s)

theorem prefixLoop_eq (u : ℕ) (g : LeaseRange) (tbl : List SltEntry) (sl : List StripeSlice)
    (hpos : ∀ s ∈ sl, 0 < s.dsLength) :
    (prefixLoop now u g.offset g.length g.fileid g.clientid tbl sl).2 =
      ((firstBusy now tbl g sl).map fun s => s.start u - g.offset).getD g.length := by
  induction sl generalizing tbl with
  | nil => rfl
  | cons s _ ih =>
    have hcheck := @stripeLeaseCheckConflict_iff g tbl now s (hpos s (by simp))
    have hkeep := @liveFree_checked g tbl now s
    rw [prefixLoop, firstBusy, find?_cons]
    split
    next hck =>
      rw [hck] at hcheck
      simp [← hcheck, StripeSlice.start]
    next tbl' hck =>
      rw [hck] at hcheck hkeep
      simp [ih tbl' fun s hs => hpos s (by simp [hs]), firstBusy, hkeep, ← hcheck]

/-- **What the check decides.**  A range that can be sliced passes as it is, is refused because
another client has a lease on its first slice, or is cut before the first slice that is
leased. -/
theorem layoutgetCheck_cases {sl} (hsl : g.slices cfg = .ok sl) :
    (firstBusy now tbl g sl = none ∧ (layoutgetCheck cfg tbl now g).2 = some g) ∨
    ∃ s, firstBusy now tbl g sl = some s ∧
      (s.start cfg.sltUnit = g.offset ∧ (layoutgetCheck cfg tbl now g).2 = none ∨
        g.offset < s.start cfg.sltUnit ∧ s.start cfg.sltUnit < g.offset + g.length ∧
        let g' := { g with length := s.start cfg.sltUnit - g.offset }
        (layoutgetCheck cfg tbl now g).2 = some g' ∧
          ∃ sl', g'.slices cfg = .ok sl' ∧ ∀ s ∈ sl', LiveFree now tbl g s) := by
  obtain ⟨hpos, hmax, hidx, hloop⟩ := slices_ok_iff.mp hsl
  have hmod := Nat.mod_lt g.offset (sltUnit_pos cfg)
  have hbase : g.offset / cfg.sltUnit * cfg.sltUnit + g.offset % cfg.sltUnit = g.offset :=
    Nat.div_add_mod' ..
  have hlen : ¬ (cfg.sltUnit = 0 ∨ g.length = 0) := by omega
  have hpre := @prefixLoop_eq now cfg.sltUnit g tbl sl fun s hs => ((slices_tile hsl).2.1 s hs).1
  simp only [layoutgetCheck, hsl, stripeLeasePrefixConflictFreeLength, if_neg hlen, hpre]
  cases hbusy : firstBusy now tbl g sl with
  | none => simp [hpos.ne']
  | some s =>
    obtain ⟨-, pre, post, rfl, hfree⟩ := find?_eq_some_iff_append.mp hbusy
    refine .inr ⟨s, rfl, ?_⟩
    cases pre with
    | nil =>
      -- The first slice starts with the range: the request is to be tried later.
      have hstart : s.start cfg.sltUnit = g.offset := by
        rcases sliceLoop_ok_cases hloop hpos with ⟨-, hs⟩ | ⟨-, _, -, hs⟩ <;>
        · rw [nil_append, List.cons.injEq] at hs
          rw [hs.1]
          exact hbase
      simp [hstart]
    | cons s₀ pre =>
      obtain ⟨hlo, hhi, hnarrow⟩ := sliceLoop_narrow hmod hloop
      rw [hbase] at hlo hhi hnarrow
      refine .inr ⟨hlo, hhi, ?_, s₀ :: pre, ?_, by simpa using hfree⟩
      · rw [map_some, getD_some, if_neg (by omega), Nat.min_eq_left (by omega)]
      · exact slices_ok_iff.mpr ⟨by dsimp only; omega, by dsimp only; omega, hidx, hnarrow⟩

/-- A range that can be sliced is refused only if another client has a lease on one of its
slices, and one that passes goes on with slices that are free. -/
theorem layoutgetCheck_spec {sl} (hsl : g.slices cfg = .ok sl) :
    ((layoutgetCheck cfg tbl now g).2 = none ∧ ∃ s ∈ sl, ¬ LiveFree now tbl g s) ∨
      ∃ n sl', (layoutgetCheck cfg tbl now g).2 = some { g with length := n } ∧
        ({ g with length := n } : LeaseRange).slices cfg = .ok sl' ∧
        ∀ s ∈ sl', LiveFree now tbl g s := by
  rcases @layoutgetCheck_cases cfg g tbl now sl hsl with
    ⟨hno, hok⟩ | ⟨s, hbusy, ⟨-, hnone⟩ | ⟨-, -, hok, sl', hsl', hfree⟩⟩
  · exact .inr ⟨g.length, sl, hok, hsl, by simpa [firstBusy] using hno⟩
  · exact .inl ⟨hnone, s, mem_of_find?_eq_some hbusy, by simpa using find?_some hbusy⟩
  · exact .inr ⟨_, sl', hok, hsl', hfree⟩

/-! ## Leases and bytes -/

/-- The lease covers byte `o` of stripe `i` of the file. -/
def SltEntry.Covers (e : SltEntry) (fileid : Fileid) (i o : ℕ) : Prop :=
  e.fileid = fileid ∧ e.stripeIndex = i ∧ e.dsOffset ≤ o ∧ o < e.dsOffset + e.dsLength

/-- No byte is leased to two clients. -/
def LeasesExclusive (tbl : List SltEntry) : Prop :=
  ∀ e ∈ tbl, ∀ e' ∈ tbl, e.clientid ≠ e'.clientid →
    ∀ fileid i o, e.Covers fileid i o → ¬ e'.Covers fileid i o

def HasLease (tbl : List SltEntry) (clientid : Clientid) (fileid : Fileid) (i o : ℕ) : Prop :=
  ∃ e ∈ tbl, e.clientid = clientid ∧ e.Covers fileid i o

/-- The bytes of what was granted and not returned are leased to its client. -/
def GrantsCovered (cfg : LeaseCfg) (s : LeaseSys) : Prop :=
  ∀ g ∈ s.granted, ∀ b, g.offset ≤ b → b < g.offset + g.length →
    HasLease s.tbl g.clientid g.fileid (b / cfg.sltUnit) (b % cfg.sltUnit)

theorem conflicts_of_covers {e e' : SltEntry} {sl : StripeSlice} {i o : ℕ}
    (he : e.Covers g.fileid i o) (hc : e.clientid ≠ g.clientid) (he' : e'.Covers g.fileid i o)
    (hi : e'.stripeIndex = sl.stripeIndex) (ho : e'.dsOffset = sl.dsOffset)
    (hl : e'.dsLength = sl.dsLength) : e.conflicts g.fileid g.clientid sl = true := by
  obtain ⟨hf, hi₁, hlo, hhi⟩ := he
  obtain ⟨-, hi₂, hlo', hhi'⟩ := he'
  have hidx : e.stripeIndex = sl.stripeIndex := by omega
  have h1 : e.dsOffset < sl.dsOffset + sl.dsLength := by omega
  have h2 : sl.dsOffset < e.dsOffset + e.dsLength := by omega
  simp [SltEntry.conflicts, leasesOverlap, hf, hidx, hc, h1, h2]

/-! ## The acquisition -/

/-- An acquisition of a slice in a table meets the condition: no other client has a lease
on it, there is an entry to renew or one can be allocated, and a renewal does not shorten
the lease. -/
structure SliceReady (tbl : List SltEntry) (alloc : StripeSlice → Bool) (g : LeaseRange)
    (sl : StripeSlice) : Prop where
  free : SliceFree tbl g sl
  entry : alloc sl = true ∨ ∃ e ∈ tbl, e.renews g.fileid g.clientid sl = true
  longer : ∀ e ∈ tbl, e.renews g.fileid g.clientid sl = true → e.dsLength ≤ sl.dsLength

/-- **What an acquisition does.**  It leaves one entry for the slice; the entries that are
gone are ones it renewed. -/
def Acquires (tbl tbl' : List SltEntry) (now : ℕ) (g : LeaseRange) (sl : StripeSlice) : Prop :=
  ∃ ne : SltEntry, ne.fileid = g.fileid ∧ ne.clientid = g.clientid ∧
    ne.stripeIndex = sl.stripeIndex ∧ ne.dsOffset = sl.dsOffset ∧
    ne.dsLength = sl.dsLength ∧ now < ne.expiryNs ∧ ne ∈ tbl' ∧
    (∀ e ∈ tbl', e = ne ∨ e ∈ tbl) ∧
    ∀ e ∈ tbl, e ∈ tbl' ∨ e.renews g.fileid g.clientid sl = true

section Acquire

variable {tbl tbl' : List SltEntry} {now durationMs : ℕ} {alloc : StripeSlice → Bool}
  {g : LeaseRange} {sl : StripeSlice} {dsId : UInt32}

theorem acquires_stripeLeaseAcquire (hnow : ∀ e ∈ tbl, now < e.expiryNs) (hd : 0 < durationMs)
    (hpos : 0 < sl.dsLength)
    (hentry : alloc sl = true ∨ ∃ e ∈ tbl, e.renews g.fileid g.clientid sl = true)
    (htbl' : tbl' = stripeLeaseAcquire tbl now (alloc sl) g.fileid g.clientid dsId sl durationMs) :
    Acquires tbl tbl' now g sl := by
  have hno : ¬ (durationMs = 0 ∨ sl.dsLength = 0) := by omega
  have hexp : now < now + durationMs * 1000000 := by omega
  rw [stripeLeaseAcquire, if_neg hno, shardEvictExpired_eq hnow] at htbl'
  dsimp only at htbl'
  cases hf : tbl.find? (SltEntry.renews g.fileid g.clientid sl) with
  | some e₀ =>
    obtain ⟨_, _, rfl, -, hmod, -⟩ := split_of_find? hf
    have hren : e₀.renews g.fileid g.clientid sl = true := List.find?_some hf
    rw [hf] at htbl'
    rw [hmod] at htbl'
    have hkey := hren
    simp only [SltEntry.renews, Bool.and_eq_true, beq_iff_eq] at hkey
    obtain ⟨⟨⟨h1, h2⟩, h3⟩, h4⟩ := hkey
    refine ⟨{ e₀ with dsLength := sl.dsLength, dsId, expiryNs := now + durationMs * 1000000 },
      h1, h2, h3, h4, rfl, hexp, htbl' ▸ by simp, fun e he => ?_, fun e he => ?_⟩
    · rw [htbl'] at he
      rcases mem_middle.mp he with rfl | he
      · exact .inl rfl
      · exact .inr (mem_middle.mpr (.inr he))
    · rcases mem_middle.mp he with rfl | he
      · exact .inr hren
      · exact .inl (htbl' ▸ mem_middle.mpr (.inr he))
  | none =>
    have halloc : alloc sl = true := by
      rcases hentry with h | ⟨e, he, hren⟩
      · exact h
      · exact absurd hren (List.find?_eq_none.mp hf e he)
    rw [hf] at htbl'
    dsimp only at htbl'
    rw [if_pos halloc] at htbl'
    refine ⟨_, rfl, rfl, rfl, rfl, rfl, hexp, htbl' ▸ mem_cons_self, fun e he => ?_,
      fun e he => .inl (htbl' ▸ mem_cons_of_mem _ he)⟩
    rw [htbl'] at he
    exact mem_cons.mp he

section

variable (h : Acquires tbl tbl' now g sl)

include h

theorem Acquires.exclusive (hready : SliceReady tbl alloc g sl) (hex : LeasesExclusive tbl) :
    LeasesExclusive tbl' := by
  obtain ⟨ne, hf, hc, hi, ho, hl, -, -, hnew, -⟩ := h
  -- An old lease of another client shares no byte with the new one.
  have hapart : ∀ e ∈ tbl, e.clientid ≠ ne.clientid → ∀ f i o, e.Covers f i o →
      ¬ ne.Covers f i o := by
    intro e he hne f i o hcov hcov'
    obtain rfl : f = g.fileid := hcov'.1.symm.trans hf
    have hconf := conflicts_of_covers hcov (hc ▸ hne) hcov' hi ho hl
    rw [hready.free e he] at hconf
    cases hconf
  intro e he e' he' hne f i o hcov hcov'
  rcases hnew e he with rfl | he <;> rcases hnew e' he' with rfl | he'
  · exact hne rfl
  · exact hapart e' he' hne.symm f i o hcov' hcov
  · exact hapart e he hne f i o hcov hcov'
  · exact hex e he e' he' hne f i o hcov hcov'

theorem Acquires.keeps (hready : SliceReady tbl alloc g sl) {c f i o}
    (hlease : HasLease tbl c f i o) : HasLease tbl' c f i o := by
  obtain ⟨ne, hnf, hnc, hni, hno, hnl, -, hmem, -, hold⟩ := h
  obtain ⟨e, he, rfl, hcov⟩ := hlease
  rcases hold e he with he' | hren
  · exact ⟨e, he', rfl, hcov⟩
  -- The entry was renewed, for at least as long.
  have hlong := hready.longer e he hren
  simp only [SltEntry.renews, Bool.and_eq_true, beq_iff_eq] at hren
  obtain ⟨⟨⟨hf, hc⟩, hi⟩, ho⟩ := hren
  obtain ⟨hcf, hci, hlo, hhi⟩ := hcov
  refine ⟨ne, hmem, hnc.trans hc.symm, hnf.trans (hf.symm.trans hcf), ?_, ?_, ?_⟩ <;> omega

theorem Acquires.hasLease {o} (hlo : sl.dsOffset ≤ o) (hhi : o < sl.dsOffset + sl.dsLength) :
    HasLease tbl' g.clientid g.fileid sl.stripeIndex o := by
  obtain ⟨ne, hf, hc, hi, ho, hl, -, hmem, -, -⟩ := h
  exact ⟨ne, hmem, hc, hf, hi, by omega, by omega⟩

end

/-- What the loop of acquisitions needs of the slices that are still to come. -/
structure LoopReady (tbl : List SltEntry) (now : ℕ) (alloc : StripeSlice → Bool)
    (g : LeaseRange) (slices : List StripeSlice) : Prop where
  timely : ∀ e ∈ tbl, now < e.expiryNs
  distinct : slices.Pairwise fun s s' => s.stripeIndex ≠ s'.stripeIndex
  pos : ∀ s ∈ slices, 0 < s.dsLength
  ready : ∀ s ∈ slices, SliceReady tbl alloc g s

/-- Acquiring the first slice leaves the others ready: they are on other stripes. -/
theorem LoopReady.tail {slices} (h : LoopReady tbl now alloc g (sl :: slices))
    (hacq : Acquires tbl tbl' now g sl) : LoopReady tbl' now alloc g slices := by
  obtain ⟨_, -, hc, hi, -, -, hexp, -, hnew, hold⟩ := hacq
  obtain ⟨hdist, hrest⟩ := pairwise_cons.mp h.distinct
  refine ⟨fun e he => ?_, hrest, fun s hs => h.pos s (by simp [hs]), fun s hs => ?_⟩
  · rcases hnew e he with rfl | he
    · exact hexp
    · exact h.timely e he
  · have hs' := h.ready s (by simp [hs])
    have hne := hdist s hs
    constructor
    · intro e he
      rcases hnew e he with rfl | he
      · simp [SltEntry.conflicts, hc]
      · exact hs'.free e he
    · rcases hs'.entry with halloc | ⟨e, he, hren⟩
      · exact .inl halloc
      · refine .inr ⟨e, (hold e he).resolve_right fun hren' => hne ?_, hren⟩
        simp only [SltEntry.renews, Bool.and_eq_true, beq_iff_eq] at hren hren'
        exact hren'.1.2.symm.trans hren.1.2
    · intro e he hren
      rcases hnew e he with rfl | he
      · simp only [SltEntry.renews, Bool.and_eq_true, beq_iff_eq] at hren
        exact absurd (hi.symm.trans hren.1.2) hne
      · exact hs'.longer e he hren

/-- The loop of acquisitions: leases stay apart, none is lost, every slice has one. -/
theorem acquireLoop_spec (hd : 0 < durationMs) {slices} (h : LoopReady tbl now alloc g slices)
    (hex : LeasesExclusive tbl) : let tbl' := slices.foldl (fun tbl sl =>
      stripeLeaseAcquire tbl now (alloc sl) g.fileid g.clientid dsId sl durationMs) tbl
    LeasesExclusive tbl' ∧ (∀ c f i o, HasLease tbl c f i o → HasLease tbl' c f i o) ∧
      ∀ s ∈ slices, ∀ o, s.dsOffset ≤ o → o < s.dsOffset + s.dsLength →
        HasLease tbl' g.clientid g.fileid s.stripeIndex o := by
  induction slices generalizing tbl with
  | nil => exact ⟨hex, fun _ _ _ _ hl => hl, by simp⟩
  | cons sl _ ih =>
    have hready := h.ready sl (by simp)
    have hacq := @acquires_stripeLeaseAcquire tbl _ now _ alloc g sl dsId h.timely hd
      (h.pos sl (by simp)) hready.entry rfl
    obtain ⟨hex', hkeep, hcov⟩ := ih (h.tail hacq) (hacq.exclusive hready hex)
    refine ⟨hex', fun c f i o hl => hkeep c f i o (hacq.keeps hready hl),
      forall_mem_cons.mpr ⟨fun o hlo hhi => ?_, hcov⟩⟩
    exact hkeep _ _ _ _ (hacq.hasLease hlo hhi)

end Acquire

/-! ## Runs -/

/-- The condition on an acquisition: every slice of its range is ready in the table as it
is by then. -/
def AcquiresFree (cfg : LeaseCfg) (s : LeaseSys) : LeaseOp → Prop
  | .acquire _ alloc i =>
    match s.checked[i]? with
    | none => True
    | some g =>
      match g.slices cfg with
      | .error _ => True
      | .ok slices => ∀ sl ∈ slices, SliceReady s.tbl alloc g sl
  | _ => True

/-- The invariant: both halves, and ranges that passed the check can be sliced again. -/
structure LeaseInv (cfg : LeaseCfg) (s : LeaseSys) : Prop where
  exclusive : LeasesExclusive s.tbl
  covered : GrantsCovered cfg s
  sliced : ∀ g ∈ s.checked, ∃ sl, g.slices cfg = .ok sl

theorem layoutgetCheck_tbl (hnow : ∀ e ∈ tbl, now < e.expiryNs) (g : LeaseRange) :
    (layoutgetCheck cfg tbl now g).1 = tbl := by
  have hloop : ∀ sl : List StripeSlice,
      (prefixLoop now cfg.sltUnit g.offset g.length g.fileid g.clientid tbl sl).1 = tbl := by
    intro sl
    induction sl with
    | nil => rfl
    | cons s _ ih =>
      have hkeep : (stripeLeaseCheckConflict tbl now g.fileid g.clientid s).1 = tbl := by
        rw [stripeLeaseCheckConflict]
        split_ifs
        · rfl
        · exact shardEvictExpired_eq hnow _
      rw [prefixLoop]
      split
      next hck =>
        rw [hck] at hkeep
        exact hkeep
      next hck =>
        rw [hck] at hkeep
        obtain rfl := hkeep
        exact ih
  rw [layoutgetCheck]
  split
  · rfl
  rw [stripeLeasePrefixConflictFreeLength]
  all_goals
    dsimp only
    split_ifs <;> simp [hloop]

theorem leaseInv_check (h : LeaseInv cfg s) (hnow : NoneExpired s (.check now g)) :
    LeaseInv cfg { s with
      tbl := (layoutgetCheck cfg s.tbl now g).1
      checked := (layoutgetCheck cfg s.tbl now g).2.toList ++ s.checked } := by
  have htbl : (layoutgetCheck cfg s.tbl now g).1 = s.tbl := layoutgetCheck_tbl hnow g
  refine ⟨?_, ?_, ?_⟩
  · rw [htbl]
    exact h.exclusive
  · rw [htbl]
    exact h.covered
  · intro g' hg'
    rcases mem_append.mp hg' with hg' | hg'
    · rw [mem_toList] at hg'
      cases hsl : g.slices cfg with
      | error => simp [layoutgetCheck, hsl] at hg'
      | ok sl =>
        rcases @layoutgetCheck_spec cfg g s.tbl now sl hsl with ⟨hno, -⟩ | ⟨n, sl', hok, hsl', -⟩
        · cases hno.symm.trans hg'
        · cases hok.symm.trans hg'
          exact ⟨sl', hsl'⟩
    · exact h.sliced g' hg'

theorem leaseInv_acquire {i alloc} (h : LeaseInv cfg s) (hg : s.checked[i]? = some g)
    (hnow : NoneExpired s (.acquire now alloc i))
    (hfree : AcquiresFree cfg s (.acquire now alloc i)) :
    LeaseInv cfg { tbl := layoutgetAcquire cfg s.tbl now alloc g
                   checked := s.checked.eraseIdx i, granted := g :: s.granted } := by
  obtain ⟨sl, hsl⟩ := h.sliced g (mem_of_getElem? hg)
  obtain ⟨-, hall, hdistinct⟩ := slices_tile hsl
  have hready : LoopReady s.tbl now alloc g sl := by
    refine ⟨hnow, hdistinct, fun s hs => (hall s hs).1, ?_⟩
    simpa only [AcquiresFree, hg, hsl] using hfree
  obtain ⟨hex, hkeep, hcov⟩ :=
    @acquireLoop_spec s.tbl now _ alloc g 0 cfg.active sl hready h.exclusive
  have htbl : layoutgetAcquire cfg s.tbl now alloc g = sl.foldl (fun tbl sl =>
      stripeLeaseAcquire tbl now (alloc sl) g.fileid g.clientid 0 sl cfg.durationMs) s.tbl := by
    rw [layoutgetAcquire, hsl]
  rw [htbl]
  refine ⟨hex, ?_, fun g' hg' => h.sliced g' (mem_of_mem_eraseIdx hg')⟩
  intro g' hg' b hlo hhi
  rcases mem_cons.mp hg' with rfl | hg'
  · obtain ⟨s', hs', hidx, hlo', hhi'⟩ := exists_slice_of_byte hsl hlo hhi
    rw [← hidx]
    exact hcov s' hs' _ hlo' hhi'
  · exact hkeep _ _ _ _ (h.covered g' hg' b hlo hhi)

theorem leaseInv_layoutreturn (h : LeaseInv cfg s) (fileid : Fileid) (clientid : Clientid) :
    LeaseInv cfg { s with
      tbl := stripeLeaseReleaseAllFor s.tbl fileid clientid
      granted := s.granted.filter fun g => !(g.fileid == fileid && g.clientid == clientid) } := by
  refine ⟨fun e he e' he' => ?_, ?_, h.sliced⟩
  · exact h.exclusive e (mem_of_mem_filter he) e' (mem_of_mem_filter he')
  intro g hg b hlo hhi
  obtain ⟨hg, hkept⟩ := mem_filter.mp hg
  obtain ⟨e, he, hc, hcov⟩ := h.covered g hg b hlo hhi
  refine ⟨e, mem_filter.mpr ⟨he, ?_⟩, hc, hcov⟩
  rw [hc, hcov.1]
  exact hkept

/-- **Stripe-lease exclusion.**  While no lease expires, in every run of LAYOUTGETs and
LAYOUTRETURNs whose acquisitions find every slice of their range free of other clients'
leases, with an entry, and not leased for longer from the same offset, no byte is leased
to two clients, and every byte granted and not returned is leased to its client. -/
theorem stripe_lease_exclusion {cfg : LeaseCfg} {s : LeaseSys}
    (h : Reachable LeaseStart (leaseStep cfg)
      (fun s op => NoneExpired s op ∧ AcquiresFree cfg s op) s) :
    LeasesExclusive s.tbl ∧ GrantsCovered cfg s := by
  suffices hinv : LeaseInv cfg s from ⟨hinv.exclusive, hinv.covered⟩
  refine h.invariant ?_ ?_
  · rintro s rfl
    exact ⟨by simp [LeasesExclusive, leaseInit], by simp [GrantsCovered, leaseInit],
      by simp [leaseInit]⟩
  · intro s op t hinv hok hstep
    obtain ⟨hnow, hfree⟩ := hok
    cases op with
    | check =>
      cases hstep
      exact leaseInv_check hinv hnow
    | acquire _ _ i =>
      cases hg : s.checked[i]? with
      | none => simp [leaseStep, hg] at hstep
      | some =>
        obtain rfl : _ = t := by simpa [leaseStep, hg] using hstep
        exact leaseInv_acquire hinv hg hnow hfree
    | layoutreturn fileid clientid =>
      cases hstep
      exact leaseInv_layoutreturn hinv fileid clientid

instance (tbl : List SltEntry) (alloc : StripeSlice → Bool) (g : LeaseRange)
    (sl : StripeSlice) : Decidable (SliceReady tbl alloc g sl) :=
  decidable_of_iff ((∀ e ∈ tbl, e.conflicts g.fileid g.clientid sl = false) ∧
      (alloc sl = true ∨ ∃ e ∈ tbl, e.renews g.fileid g.clientid sl = true) ∧
      ∀ e ∈ tbl, e.renews g.fileid g.clientid sl = true → e.dsLength ≤ sl.dsLength)
    ⟨fun h => ⟨h.1, h.2.1, h.2.2⟩, fun h => ⟨h.free, h.entry, h.longer⟩⟩

instance (cfg : LeaseCfg) (s : LeaseSys) (op : LeaseOp) : Decidable (AcquiresFree cfg s op) := by
  cases op with
  | acquire now alloc i =>
    unfold AcquiresFree
    dsimp only
    cases s.checked[i]? with
    | none => exact instDecidableTrue
    | some g =>
      dsimp only
      cases g.slices cfg with
      | error e => exact instDecidableTrue
      | ok slices => exact List.decidableBAll _ _
  | check now g | layoutreturn fileid clientid => exact instDecidableTrue

/-- Ten-byte stripes, leases of one millisecond. -/
def tenByteStripes : LeaseCfg := { cfgStripeUnit := 10, durationMs := 1, active := by decide }

/-- Client 11 leases the first stripe of file 7, then client 12 the bytes 10 to 24. -/
def inTurn : List LeaseOp :=
  [.check 0 ⟨11, 7, 0, 10⟩, .acquire 0 (fun _ => true) 0,
    .check 0 ⟨12, 7, 10, 15⟩, .acquire 0 (fun _ => true) 0]

theorem stripe_lease_inTurn :
    ∃ s : LeaseSys, exec (leaseStep tenByteStripes) leaseInit inTurn = some s ∧
      s.granted.length = 2 ∧ LeasesExclusive s.tbl ∧ GrantsCovered tenByteStripes s := by
  exact ⟨_, rfl, rfl, stripe_lease_exclusion (.run leaseInit inTurn rfl)⟩

/-- Two clients pass the check on the same range before either acquires. -/
def raced : List LeaseOp :=
  [.check 0 ⟨11, 7, 0, 10⟩, .check 0 ⟨12, 7, 0, 10⟩,
    .acquire 0 (fun _ => true) 0, .acquire 0 (fun _ => true) 0]

/-- A client leases twenty bytes, and then fifteen from the same offset. -/
def shortened : List LeaseOp :=
  [.check 0 ⟨11, 7, 0, 20⟩, .acquire 0 (fun _ => true) 0,
    .check 0 ⟨11, 7, 0, 15⟩, .acquire 0 (fun _ => true) 0]

/-- In the race both clients get a lease on byte 0. The second LAYOUTGET of one client
takes its lease on byte 17 away, which it was granted and has not returned. -/
theorem stripe_lease_raced_or_shortened :
    (∃ s : LeaseSys, Reachable LeaseStart (leaseStep tenByteStripes) NoneExpired s ∧
      HasLease s.tbl 11 7 0 0 ∧ HasLease s.tbl 12 7 0 0) ∧
    (∃ s : LeaseSys, Reachable LeaseStart (leaseStep tenByteStripes) NoneExpired s ∧
      ⟨11, 7, 0, 20⟩ ∈ s.granted ∧ ¬ HasLease s.tbl 11 7 1 7) := by
  constructor
  · refine ⟨_, .run leaseInit raced rfl, ?_, ?_⟩
    · exact ⟨_, mem_cons_self, rfl, rfl, rfl, by decide, by decide⟩
    · exact ⟨_, mem_cons_of_mem _ mem_cons_self, rfl, rfl, rfl, by decide, by decide⟩
  · refine ⟨_, .run leaseInit shortened rfl, by decide, ?_⟩
    have hnone : ∀ e ∈ ((exec (leaseStep tenByteStripes) leaseInit shortened).get rfl).tbl,
        ¬ (e.stripeIndex = 1 ∧ 7 < e.dsOffset + e.dsLength) := by decide
    rintro ⟨e, he, -, -, hi, -, hhi⟩
    exact hnone e he ⟨hi, hhi⟩

end PnfsLattice
