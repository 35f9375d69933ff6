import PnfsLattice.Layout.Grant
import PnfsLattice.Lease.Exclusion

/-!
# What a LAYOUTGET's answer says about leases

A LAYOUTGET on an HPC-shared file is answered with NFS4ERR_LAYOUTTRYLATER if another client
has a lease on the start of its lease range, and also if the range has no slices: it lies on
too many stripes, or on a stripe without an index. The range of a grant is cut to the
configured maximum and to what is free of leases, whatever `loga_minlength` asks for.
-/

namespace PnfsLattice

open Lib

/-- The loop needs room and an index for every stripe. -/
theorem sliceLoop_exists_iff {u room idx off rem} (hoff : off < u) (hrem : 0 < rem)
    (hidx : idx ≤ uint32MaxNat) : (∃ sl, sliceLoop u room idx off rem = .ok sl) ↔
      (off + rem - 1) / u < room ∧ idx + (off + rem - 1) / u ≤ uint32MaxNat := by
  induction room generalizing idx off rem with
  | zero => simp [sliceLoop, hrem]
  | succ room ih =>
    rw [sliceLoop, if_pos hrem]
    by_cases hlast : rem ≤ u - off
    · rw [Nat.min_eq_right hlast, Nat.div_eq_of_lt (by omega)]
      simpa using hidx
    -- One stripe is done, and the rest starts the next one.
    have hdiv : (off + rem - 1) / u = (0 + (rem - (u - off)) - 1) / u + 1 := by
      rw [← Nat.add_div_right _ (by omega)]
      congr 1
      omega
    rw [Nat.min_eq_left (by omega), if_pos (by omega), hdiv]
    by_cases hmax : idx = uint32MaxNat
    · simp [hmax]
    · have hrest := @ih (idx + 1) 0 (rem - (u - off)) (by omega) (by omega) (by omega)
      rw [if_neg hmax, Nat.add_lt_add_iff_right, ← Nat.add_assoc, Nat.add_right_comm, ← hrest]
      cases sliceLoop u room (idx + 1) 0 (rem - (u - off)) <;> simp [Except.map]

def LeaseRange.lastStripe (cfg : LeaseCfg) (g : LeaseRange) : ℕ :=
  (g.offset + g.length - 1) / cfg.sltUnit

/-- A range of some bytes can be sliced if it lies on at most `MDS_MAX_STRIPES` stripes and all
of them have an index. -/
theorem slices_exist_iff {cfg : LeaseCfg} {g : LeaseRange} (hpos : 0 < g.length)
    (hlen : g.length < 2 ^ 64 - 1) : (∃ sl, g.slices cfg = .ok sl) ↔
      g.lastStripe cfg - g.offset / cfg.sltUnit < mdsMaxStripes ∧
        g.lastStripe cfg ≤ uint32MaxNat := by
  have hu := sltUnit_pos cfg
  have hlast : g.lastStripe cfg =
      g.offset / cfg.sltUnit + (g.offset % cfg.sltUnit + g.length - 1) / cfg.sltUnit := by
    rw [LeaseRange.lastStripe, Nat.add_comm (g.offset / _), ← Nat.add_mul_div_right _ _ hu]
    have hbase := Nat.div_add_mod' g.offset cfg.sltUnit
    congr 1
    omega
  simp only [slices_ok_iff, hpos, hlen, true_and, exists_and_left, hlast]
  rw [Nat.add_sub_cancel_left]
  by_cases hidx : g.offset / cfg.sltUnit ≤ uint32MaxNat
  · rw [sliceLoop_exists_iff (Nat.mod_lt _ hu) hpos hidx, and_iff_right hidx]
  · constructor
    · exact fun h => absurd h.1 hidx
    · exact fun h => absurd ((Nat.le_add_right _ _).trans h.2) hidx

/-- The lease range of a LAYOUTGET with a window of `w` bytes. -/
def leaseRangeOf (cfg : LayoutCfg) (a : LayoutgetArgs) (w : ℕ) (clientid : Clientid)
    (fileid : Fileid) : LeaseRange :=
  { clientid, fileid, offset := a.offset, length := layoutgetLeaseLength cfg a w }

/-- **A refused LAYOUTGET.**  On an HPC-shared file, with no unexpired lease of another client
on the file, a LAYOUTGET is refused exactly if its lease range lies on more than
`MDS_MAX_STRIPES` stripes or beyond the last stripe index. One that goes on has a prefix of
its lease range, whose slices are its bytes, each once and within one stripe, and no slice
meets an unexpired lease of another client. -/
theorem layoutget_trylater_iff (cfg : LayoutCfg) (a : LayoutgetArgs) {size w : ℕ}
    (hw : layoutSelectGrantRange cfg a size = .ok w) {durationMs : ℕ} (hd : 0 < durationMs)
    (tbl : List SltEntry) (now : ℕ) (clientid : Clientid) (fileid : Fileid) :
    let lcfg : LeaseCfg := ⟨cfg.stripeUnit, durationMs, hd⟩
    let g := leaseRangeOf cfg a w clientid fileid
    ((∀ e ∈ tbl, e.fileid = fileid → now < e.expiryNs → e.clientid = clientid) →
      ((layoutgetCheck lcfg tbl now g).2 = none ↔
        mdsMaxStripes ≤ g.lastStripe lcfg - g.offset / lcfg.sltUnit ∨
          uint32MaxNat < g.lastStripe lcfg)) ∧
    ∀ g', (layoutgetCheck lcfg tbl now g).2 = some g' → g' = { g with length := g'.length } ∧
      ∃ sl, g'.slices lcfg = .ok sl ∧
        sl.flatMap (StripeSlice.bytes lcfg.sltUnit) = List.range' g'.offset g'.length ∧
        (∀ s ∈ sl, 0 < s.dsLength ∧ s.dsOffset + s.dsLength ≤ lcfg.sltUnit) ∧
        ∀ s ∈ sl, LiveFree now tbl g s := by
  intro lcfg g
  obtain ⟨hwpos, hwend⟩ := layoutSelectGrantRange_ok hw
  have hunit : 0 < cfg.unit := by
    rw [LayoutCfg.unit]
    split_ifs <;> omega
  have hg : 0 < g.length ∧ g.length < 2 ^ 64 - 1 := by
    simp only [g, leaseRangeOf, layoutgetLeaseLength, uint64MaxNat] at hwend ⊢
    omega
  have hslices := @slices_exist_iff lcfg g hg.1 hg.2
  cases hsl : g.slices lcfg with
  | error =>
    simp only [hsl, reduceCtorEq, exists_false, false_iff] at hslices
    have hnone : (layoutgetCheck lcfg tbl now g).2 = none := by simp [layoutgetCheck, hsl]
    refine ⟨fun _ => ⟨fun _ => by omega, fun _ => hnone⟩, fun g' hg' => ?_⟩
    cases hnone.symm.trans hg'
  | ok sl =>
    have hfit := hslices.mp ⟨sl, hsl⟩
    rcases @layoutgetCheck_spec lcfg g tbl now sl hsl with
      ⟨hnone, s, -, hbusy⟩ | ⟨n, sl', hok, hsl', hfree⟩
    · refine ⟨fun hquiet => absurd (fun e he hlive => ?_) hbusy, fun g' hg' => ?_⟩
      · by_cases hf : e.fileid = fileid
        · simp [SltEntry.conflicts, g, leaseRangeOf, hquiet e he hf hlive]
        · simp [SltEntry.conflicts, g, leaseRangeOf, hf]
      · cases hnone.symm.trans hg'
    · refine ⟨fun _ => ⟨fun hnone => ?_, fun h => by omega⟩, fun _ hg' => ?_⟩
      · cases hok.symm.trans hnone
      · cases hok.symm.trans hg'
        obtain ⟨hbytes, hall, -⟩ := slices_tile hsl'
        exact ⟨rfl, sl', hsl', hbytes, hall, hfree⟩

/-- Stripes of one byte and the lowest maximum for a grant. -/
def byteStripes : LayoutCfg :=
  { mdsId := 1, stripeUnit := 1, grantMaxLength := 65536, grantMax_ge := LayoutCfg.grantMin_le
    serveLayouts := true, hpcServeLayouts := true, autoWidenLeaseOn4k := false }

/-- A request for `n` bytes at offset 0. -/
def firstBytes (n : ℕ) : LayoutgetArgs :=
  { layoutType := layout4FlexFiles, offset := 0, length := n, minlength := n }

theorem layoutget_trylater_twoBytes :
    (layoutgetCheck ⟨1, 1, Nat.one_pos⟩ [] 0 (leaseRangeOf byteStripes (firstBytes 2) 65536 11 7)).2
      ≠ none := by
  have hw : layoutSelectGrantRange byteStripes (firstBytes 2) 0 = .ok 65536 := rfl
  have hiff := (layoutget_trylater_iff byteStripes (firstBytes 2) hw Nat.one_pos [] 0 11 7).1
    (List.forall_mem_nil _)
  exact fun h => absurd (hiff.mp h) (by decide)

/-- The lease table is empty, and a request for 1025 stripes is to be tried later. -/
theorem trylater_without_contention :
    layoutSelectGrantRange byteStripes (firstBytes 1025) 0 = .ok 65536 ∧
      (layoutgetCheck ⟨1, 1, Nat.one_pos⟩ [] 0
        (leaseRangeOf byteStripes (firstBytes 1025) 65536 11 7)).2 = none := by
  refine ⟨rfl, ?_⟩
  have hsl : (leaseRangeOf byteStripes (firstBytes 1025) 65536 11 7).slices
      ⟨1, 1, Nat.one_pos⟩ = .error .enospc := by
    decide +kernel
  simp [layoutgetCheck, hsl]

/-! ## The granted range -/

/-- The lease table as a LAYOUTGET on an HPC-shared file finds it. -/
structure StripeLeases where
  durationMs : ℕ
  active : 0 < durationMs
  tbl : List SltEntry
  now : ℕ
  clientid : Clientid
  fileid : Fileid

variable (cfg : LayoutCfg) (a : LayoutgetArgs) (size : ℕ) (leases : Option StripeLeases)

def StripeLeases.leaseCfg (l : StripeLeases) : LeaseCfg := ⟨cfg.stripeUnit, l.durationMs, l.active⟩

/-- The length of the range in the answer of `op_layoutget`, which starts at the requested
offset. Only a LAYOUTGET on an HPC-shared file looks at leases. -/
def layoutgetLength : Except LayoutErr ℕ :=
  match layoutSelectGrantRange cfg a size, leases with
  | .error e, _ => .error e
  | .ok grantLength, none => .ok grantLength
  | .ok grantLength, some l =>
    let g := leaseRangeOf cfg a grantLength l.clientid l.fileid
    match (layoutgetCheck (l.leaseCfg cfg) l.tbl l.now g).2 with
    | none => .error .layouttrylater
    | some g' => .ok (if g'.length < g.length then min grantLength g'.length else grantLength)

/-- The bytes from the requested offset that a grant must have. -/
def LayoutgetArgs.needed : ℕ :=
  if a.minlength = uint64MaxNat then size - a.offset
  else min a.minlength (uint64MaxNat - a.offset)

/-- The window has what is needed, and so has the part of the lease range before the first slice
on which another client has a lease. If that is the slice at the offset, the request is
refused. -/
def MinimumInReach : Prop :=
  match leases with
  | none => a.needed size ≤ cfg.window a.offset
  | some l =>
    let g := leaseRangeOf cfg a (cfg.window a.offset) l.clientid l.fileid
    ∀ sl, g.slices (l.leaseCfg cfg) = .ok sl →
      match firstBusy l.now l.tbl g sl with
      | none => a.needed size ≤ cfg.window a.offset
      | some s => s.start (l.leaseCfg cfg).sltUnit = a.offset ∨
          a.offset + a.needed size ≤ s.start (l.leaseCfg cfg).sltUnit

/-- **The granted range.**  It has the byte at the requested offset and ends below 2^64. It has
what the client needs in every answer exactly if the request is refused for its range, or
the minimum is in reach. -/
theorem layoutget_minimum_iff :
    (∀ n, layoutgetLength cfg a size leases = .ok n → 0 < n ∧ a.offset + n ≤ uint64MaxNat) ∧
    ((∀ n, layoutgetLength cfg a size leases = .ok n → a.needed size ≤ n) ↔
      a.Wraps ∨ cfg.window a.offset = 0 ∨ MinimumInReach cfg a size leases) := by
  have hw := layoutSelectGrantRange_eq cfg a size
  rw [← or_assoc]
  by_cases hbad : a.Wraps ∨ cfg.window a.offset = 0
  · rw [if_pos hbad] at hw
    simp [layoutgetLength, hw, hbad]
  rw [if_neg hbad] at hw
  obtain ⟨hpos, hend⟩ := layoutSelectGrantRange_ok hw
  simp only [layoutgetLength, hw, MinimumInReach, or_iff_right hbad]
  cases leases with
  | none => simp [hpos, hend.le]
  | some l =>
    dsimp only
    have hlen : (leaseRangeOf cfg a (cfg.window a.offset) l.clientid l.fileid).length ≤
        cfg.window a.offset := Nat.min_le_right ..
    have hoff : a.offset = (leaseRangeOf cfg a (cfg.window a.offset) l.clientid l.fileid).offset :=
      rfl
    generalize leaseRangeOf cfg a (cfg.window a.offset) l.clientid l.fileid = g at hlen hoff ⊢
    cases hsl : g.slices (l.leaseCfg cfg) with
    | error => simp [layoutgetCheck, hsl]
    | ok sl =>
      rcases @layoutgetCheck_cases (l.leaseCfg cfg) g l.tbl l.now sl hsl with
        ⟨hno, hok⟩ | ⟨s, hbusy, ⟨hstart, hnone⟩ | ⟨hlo, hhi, hok, -⟩⟩
      · simp [hno, hok, hpos, hend.le]
      · simp [hbusy, hnone, hstart, hoff]
      · have hcut : s.start (l.leaseCfg cfg).sltUnit - g.offset < g.length := by omega
        simp [hbusy, hok, hcut]
        omega

/-- Stripes of 64 KiB and windows of up to two of them. -/
def smallGrants : LayoutCfg :=
  { byteStripes with
    stripeUnit := 65536, grantMaxLength := 131072, grantMax_ge := Nat.le_add_right 65536 65536 }

/-- Client 12 has a lease on the second stripe of file 7. -/
def secondStripeLeased : StripeLeases :=
  { durationMs := 1, active := Nat.one_pos, now := 0, clientid := 11, fileid := 7
    tbl := [⟨7, 12, 0, 65536, 1, 1, 0⟩] }

/-- A minimum above the maximum for a grant, and one that meets another client's lease. -/
theorem layoutget_below_minimum :
    layoutgetLength smallGrants (firstBytes 131073) 0 none = .ok 131072 ∧
      layoutgetLength smallGrants (firstBytes 131072) 0 (some secondStripeLeased) = .ok 65536 := by
  decide +kernel

end PnfsLattice
