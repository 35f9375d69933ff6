import PnfsLattice.Catalogue.Memdb

/-!
# Stripe maps

Where the bytes of a file are. A map of `stripe_count` stripes with `mirror_count` mirrors each
is stored row by row; the proxy finds the stripe of an offset by `compute_stripe_addr`.
-/

namespace PnfsLattice

/-- A stripe map. Entry `stripe * mirrorCount + mirror` is the file of a mirror of a stripe. -/
structure FileMap where
  stripeCount : ℕ
  stripeUnit : ℕ
  mirrorCount : ℕ
  entries : List DsMapEntry
  unit_pos : 0 < stripeUnit
  unit_lt : stripeUnit < 2 ^ 32
  stripes_pos : 0 < stripeCount
  stripes_le : stripeCount ≤ mdsMaxStripes
  mirrors_pos : 0 < mirrorCount
  mirrors_le : mirrorCount ≤ mdsMaxMirrors
  length_entries : entries.length = stripeCount * mirrorCount
  handles_le : ∀ e ∈ entries, e.nfsFh.length ≤ mdsNfsFhMax

/-- `compute_stripe_addr`: the stripe of a byte and its offset in the data-server file. -/
def computeStripeAddr (offset stripeUnit stripeCount : ℕ) : ℕ × ℕ :=
  if stripeUnit = 0 ∨ stripeCount = 0 then (0, offset)
  else (offset / stripeUnit % stripeCount, offset)

namespace FileMap

variable (map : FileMap)

/-- The number of data-server files. -/
def files : ℕ := map.stripeCount * map.mirrorCount

/-- `entries[idx]`. -/
def entry (idx : ℕ) : DsMapEntry := map.entries.getD idx ⟨0, []⟩

def stripeOf (offset : ℕ) : ℕ := offset / map.stripeUnit % map.stripeCount

theorem computeStripeAddr_eq (offset : ℕ) :
    computeStripeAddr offset map.stripeUnit map.stripeCount = (map.stripeOf offset, offset) := by
  have hunit := map.unit_pos
  have hcount := map.stripes_pos
  exact if_neg (by omega)

theorem stripeOf_lt (offset : ℕ) : map.stripeOf offset < map.stripeCount :=
  Nat.mod_lt _ map.stripes_pos

theorem files_pos : 0 < map.files := Nat.mul_pos map.stripes_pos map.mirrors_pos

theorem files_le : map.files ≤ 4096 := Nat.mul_le_mul map.stripes_le map.mirrors_le

theorem idx_lt {stripe mirror} (hs : stripe < map.stripeCount) (hm : mirror < map.mirrorCount) :
    stripe * map.mirrorCount + mirror < map.files := by
  calc stripe * map.mirrorCount + mirror
      < (stripe + 1) * map.mirrorCount := by rw [Nat.succ_mul]; omega
    _ ≤ map.files := Nat.mul_le_mul_right _ hs

theorem entry_mem {idx} (h : idx < map.files) : map.entry idx ∈ map.entries := by
  have hlen : idx < map.entries.length := by rw [map.length_entries]; exact h
  rw [entry, List.getD_eq_getElem?_getD, List.getElem?_eq_getElem hlen]
  exact List.getElem_mem hlen

end FileMap

end PnfsLattice
