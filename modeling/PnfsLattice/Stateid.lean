import Mathlib.Algebra.Group.Nat.Defs
import Mathlib.Data.List.Basic

/-!
# Stateids

The identifiers every state table of the metadata server hands out. `other` is the
12-byte field of a stateid: four bytes of `mds_id` and an 8-byte big-endian tail, read
here as a number. Each table mints tails from a 64-bit counter seeded from the wall
clock; the counter is a natural number in the model, because it cannot wrap within the
life of a server.
-/

namespace PnfsLattice

/-- A file, by its catalogue id. -/
abbrev Fileid := UInt64

/-- A client, by the id EXCHANGE_ID gave it. -/
abbrev Clientid := UInt64

/-- `stateid.other`: the minting server and the 8-byte tail. -/
structure Other where
  mdsId : UInt32
  tail : ℕ
deriving DecidableEq

/-- `struct nfs4_stateid`. -/
structure Stateid where
  seqid : UInt32
  other : Other
deriving DecidableEq

/-- The order of OP_FREE_STATEID: an open, a lock, a revoked delegation, a layout. The first that
has the stateid settles it. -/
def freeStateidProbes {ρ : Type} (opened lock revoked layout : Option ρ) (bad : ρ) : ρ :=
  (opened.or (lock.or (revoked.or layout))).getD bad

/-- What holds of each answer and of the refusal. -/
theorem freeStateidProbes_of {ρ : Type} {P : ρ → Prop} {opened lock revoked layout : Option ρ}
    {bad : ρ} (h₁ : ∀ r, opened = some r → P r) (h₂ : ∀ r, lock = some r → P r)
    (h₃ : ∀ r, revoked = some r → P r) (h₄ : ∀ r, layout = some r → P r) (hbad : P bad) :
    P (freeStateidProbes opened lock revoked layout bad) := by
  cases opened with
  | some r => exact h₁ r rfl
  | none =>
    cases lock with
    | some r => exact h₂ r rfl
    | none =>
      cases revoked with
      | some r => exact h₃ r rfl
      | none =>
        cases layout with
        | some r => exact h₄ r rfl
        | none => exact hbad

/-- The later of two seqids, as the code takes it: the second one if it is greater. -/
def laterSeqid (a b : UInt32) : UInt32 := if a < b then b else a

theorem laterSeqid_cases (a b : UInt32) : laterSeqid a b = a ∨ laterSeqid a b = b := by
  by_cases h : a < b
  · exact .inr (if_pos h)
  · exact .inl (if_neg h)

theorem le_laterSeqid (a b : UInt32) : a ≤ laterSeqid a b ∧ b ≤ laterSeqid a b := by
  rw [laterSeqid]
  by_cases h : a < b
  · rw [if_pos h]
    exact ⟨UInt32.le_of_lt h, UInt32.le_refl b⟩
  · rw [if_neg h]
    exact ⟨UInt32.le_refl a, UInt32.not_lt.mp h⟩

end PnfsLattice
