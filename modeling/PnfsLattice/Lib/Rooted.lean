import Mathlib.Logic.Relation

/-!
# Trees as relations

A relation from parents to children, seen from a root. What is reached from the root is
still reached after part of the relation has gone or a subtree has been hung up elsewhere,
provided that it is not hung up below itself.
-/

namespace Lib

open Relation

variable {α : Type*} {r r' : α → α → Prop} {root x y p : α}

/-- A path to a node of `P` uses only edges into `P`, if `P` is closed under predecessors. -/
theorem reach_of_closed {P : α → Prop} (hback : ∀ a b, r a b → P b → P a)
    (hkeep : ∀ a b, r a b → P b → r' a b) (h : ReflTransGen r x y) (hy : P y) :
    ReflTransGen r' x y := by
  induction h with
  | refl => exact .refl
  | tail _ hbc ih => exact (ih (hback _ _ hbc hy)).tail (hkeep _ _ hbc hy)

/-- The node `x` is hung up under `p`. Unless `p` lies below `x`, whatever was reached from
the root still is. -/
theorem reach_graft (hkeep : ∀ a b, r a b → b ≠ x → r' a b) (hnew : r' p x)
    (hp : ReflTransGen r root p) (hbelow : ¬ ReflTransGen r x p) (hy : ReflTransGen r root y) :
    ReflTransGen r' root y := by
  -- Nodes that do not lie below `x` keep their paths.
  have hout : ∀ z, ReflTransGen r root z → ¬ ReflTransGen r x z → ReflTransGen r' root z := by
    intro z hz hxz
    refine reach_of_closed (P := fun z => ¬ ReflTransGen r x z)
      (fun a b hab hb ha => hb (ha.tail hab)) (fun a b hab hb => hkeep a b hab ?_) hz hxz
    rintro rfl
    exact hb .refl
  have hx : ReflTransGen r' root x := (hout p hp hbelow).tail hnew
  by_cases hxy : ReflTransGen r x y
  · -- Those below `x` are reached through it.
    clear hy
    induction hxy with
    | refl => exact hx
    | @tail b c _ hbc ih =>
      by_cases hc : c = x
      · exact hc ▸ hx
      · exact ih.tail (hkeep b c hbc hc)
  · exact hout y hy hxy

/-- If the root has no predecessor and every inner node has only one, what is reached from
the root lies on no cycle. -/
theorem not_cycle_of_rooted (hroot : ∀ a, ¬ r a root)
    (huniq : ∀ a b c d, r a c → r b c → r c d → a = b) (hx : ReflTransGen r root x) :
    ¬ TransGen r x x := by
  induction hx with
  | refl =>
    intro hcycle
    obtain ⟨b, -, hb⟩ := TransGen.tail'_iff.mp hcycle
    exact hroot b hb
  | @tail b c _ hbc ih =>
    intro hcycle
    obtain ⟨b', hcb', hb'c⟩ := TransGen.tail'_iff.mp hcycle
    obtain ⟨d, hcd, -⟩ := TransGen.head'_iff.mp hcycle
    obtain rfl := huniq b b' c d hbc hb'c hcd
    exact ih (TransGen.head' hbc hcb')

end Lib
