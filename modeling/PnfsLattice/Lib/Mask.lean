import Mathlib.Data.List.Basic

/-!
# Bit masks

Facts about 32-bit masks used as sets of flags: `a &&& b = 0` says that the two share no
flag, `a &&& ~~~b = 0` that every flag of `a` is one of `b`.
-/

namespace Lib

/-- Every flag of `a` is a flag of `b`, as the test `(a & ~b) == 0` has it. -/
def Within (a b : UInt32) : Prop := a &&& ~~~b = 0
deriving Decidable

variable {a b c : UInt32}

private theorem eq_of_bits (h : ∀ i < 32, a.toBitVec.getLsbD i = b.toBitVec.getLsbD i) : a = b :=
  UInt32.toBitVec_inj.mp (BitVec.eq_of_getLsbD_eq h)

theorem or_and_distrib (a b c : UInt32) : (a ||| b) &&& c = a &&& c ||| b &&& c :=
  eq_of_bits fun i _ => by simp [Bool.and_or_distrib_right]

theorem and_or_distrib (a b c : UInt32) : a &&& (b ||| c) = (a &&& b) ||| (a &&& c) := by
  rw [UInt32.and_comm, or_and_distrib, UInt32.and_comm b, UInt32.and_comm c]

theorem within_refl (a : UInt32) : Within a a := by simp [Within]

theorem or_and_cancel (a b : UInt32) : (a ||| b) &&& a = a :=
  eq_of_bits fun i _ => by cases h : a.toBitVec.getLsbD i <;> simp [h]

theorem within_or_left (a b : UInt32) : Within a (a ||| b) :=
  eq_of_bits fun i _ => by cases h : a.toBitVec.getLsbD i <;> simp [h]

theorem and_not_and_self (a b : UInt32) : a &&& ~~~b &&& b = 0 := by
  simp [UInt32.and_assoc]

theorem or_and_eq_zero (hac : a &&& c = 0) (hbc : b &&& c = 0) : (a ||| b) &&& c = 0 := by
  simp [or_and_distrib, hac, hbc]

/-- What shares no flag with `c` may be cut out first. -/
theorem and_not_and_of_disjoint (h : b &&& c = 0) (a : UInt32) : a &&& ~~~b &&& c = a &&& c := by
  have hsplit : (a &&& ~~~b &&& c) ||| (a &&& (b &&& c)) = a &&& c :=
    eq_of_bits fun i hi => by cases hb : b.toBitVec[i] <;> simp [hb, hi]
  simpa [h] using hsplit

theorem Within.and_eq_zero (hab : Within a b) (hbc : b &&& c = 0) : a &&& c = 0 := by
  have h := and_not_and_of_disjoint hbc a
  rw [show a &&& ~~~b = 0 from hab] at h
  simpa using h.symm

theorem Within.eq_and_zero (hab : Within a b) (hbc : c &&& b = 0) : c &&& a = 0 := by
  rw [UInt32.and_comm] at hbc ⊢
  exact hab.and_eq_zero hbc

end Lib
