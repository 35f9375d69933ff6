import Mathlib.Logic.Relation

/-!
# Exploring a graph with a worklist

A traversal takes a node from its list, does something to it and puts the node's successors
in its place. It need not remember what it has seen: the invariant does.
-/

namespace Lib

open List

variable {α : Type*} {child : α → α → Prop} {root a : α} {seen : α → Prop} {todo kids : List α}

/-- Everything next to the seen nodes was seen or is on the list. -/
structure Explored (child : α → α → Prop) (root : α) (seen : α → Prop) (todo : List α) :
    Prop where
  root : seen root ∨ root ∈ todo
  next : ∀ a b, seen a → child a b → seen b ∨ b ∈ todo

theorem Explored.start : Explored child root (fun _ => False) [root] where
  root := .inr (mem_singleton_self root)
  next := fun _ _ h => h.elim

theorem Explored.visit (h : Explored child root seen (a :: todo))
    (hkids : ∀ b, child a b → b ∈ kids) :
    Explored child root (fun x => seen x ∨ x = a) (kids ++ todo) := by
  have hmove : ∀ b, seen b ∨ b ∈ a :: todo → (seen b ∨ b = a) ∨ b ∈ kids ++ todo := by
    intro b hb
    rcases hb with hb | hb
    · exact .inl (.inl hb)
    · rcases mem_cons.mp hb with rfl | hb
      · exact .inl (.inr rfl)
      · exact .inr (mem_append_right kids hb)
  refine ⟨hmove root h.root, fun x b hx hxb => ?_⟩
  rcases hx with hx | rfl
  · exact hmove b (h.next x b hx hxb)
  · exact .inr (mem_append_left todo (hkids b hxb))

theorem Explored.complete (h : Explored child root seen [])
    (hreach : Relation.ReflTransGen child root a) : seen a := by
  induction hreach with
  | refl => exact h.root.resolve_right not_mem_nil
  | tail _ hstep ih => exact (h.next _ _ ih hstep).resolve_right not_mem_nil

/-- The list and the successors may be read anew from a graph that has the same edges out of
the seen nodes. -/
theorem Explored.congr {child' : α → α → Prop} (h : Explored child root seen todo)
    (hchild : ∀ a b, seen a → child' a b → child a b) : Explored child' root seen todo where
  root := h.root
  next := fun a b ha hab => h.next a b ha (hchild a b ha hab)

end Lib
