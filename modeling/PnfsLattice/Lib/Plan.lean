import Mathlib.Data.List.Basic

/-!
# Guarded plans

A request handler as a chain of guards that ends in a list of actions. A handler computes
its plan from the state without changing it; the actions are then carried out one after
the other. A guard that fails ends the chain with an error and no action.

The membership lemmas turn "this action is in the plan" into the conjunction of all the
guards on its way, and so a policy is proved for a handler by simplification.
-/

namespace Lib

/-- What a handler does: its actions in order, the context it leaves, and its answer. -/
structure Plan (α σ ε ρ : Type*) where
  acts : List α
  ctx : σ
  res : Except ε ρ

namespace Plan

variable {α σ ε ρ β s : Type*}

def fail (ctx : σ) (e : ε) : Plan α σ ε ρ := { acts := [], ctx, res := .error e }

/-- An answer and no action. -/
def reply (ctx : σ) (r : ρ) : Plan α σ ε ρ := { acts := [], ctx, res := .ok r }

/-- Go on if the test holds. -/
def need (ctx : σ) (test : Bool) (e : ε) (p : Plan α σ ε ρ) : Plan α σ ε ρ :=
  if test then p else fail ctx e

/-- Go on with what a lookup finds. -/
def get (ctx : σ) (found : Option β) (e : ε) (k : β → Plan α σ ε ρ) : Plan α σ ε ρ :=
  match found with
  | none => fail ctx e
  | some b => k b

/-- Go on with what a fallible check returns. -/
def check (ctx : σ) (r : Except ε β) (k : β → Plan α σ ε ρ) : Plan α σ ε ρ :=
  match r with
  | .error e => fail ctx e
  | .ok b => k b

variable {ctx : σ} {e : ε} {a : α}

@[simp] theorem acts_fail : (fail ctx e : Plan α σ ε ρ).acts = [] := rfl

@[simp] theorem acts_reply (r : ρ) : (reply ctx r : Plan α σ ε ρ).acts = [] := rfl

variable {test : Bool}

@[simp] theorem mem_need {p : Plan α σ ε ρ} :
    a ∈ (need ctx test e p).acts ↔ test = true ∧ a ∈ p.acts := by
  cases test <;> simp [need]

@[simp] theorem mem_get {found : Option β} {k : β → Plan α σ ε ρ} :
    a ∈ (get ctx found e k).acts ↔ ∃ b, found = some b ∧ a ∈ (k b).acts := by
  cases found <;> simp [get]

@[simp] theorem mem_check {r : Except ε β} {k : β → Plan α σ ε ρ} :
    a ∈ (check ctx r k).acts ↔ ∃ b, r = .ok b ∧ a ∈ (k b).acts := by
  cases r <;> simp [check]

theorem need_congr {p q : Plan α σ ε ρ} (h : test = true → p = q) :
    need ctx test e p = need ctx test e q := by
  cases test with
  | false => rfl
  | true => exact h rfl

theorem get_congr {found : Option β} {k k' : β → Plan α σ ε ρ}
    (h : ∀ b, found = some b → k b = k' b) : get ctx found e k = get ctx found e k' := by
  cases found with
  | none => rfl
  | some b => exact h b rfl

theorem check_congr {r : Except ε β} {k k' : β → Plan α σ ε ρ} (h : ∀ b, r = .ok b → k b = k' b) :
    check ctx r k = check ctx r k' := by
  cases r with
  | error => rfl
  | ok b => exact h b rfl

/-- A check whose value only carries more. -/
theorem check_map {γ δ : Type*} {r : Except δ β} {f : δ → ε} {g : β → γ} {k : γ → Plan α σ ε ρ}
    {k' : β → Plan α σ ε ρ} (h : ∀ b, k (g b) = k' b) :
    check ctx ((r.map g).mapError f) k = check ctx (r.mapError f) k' := by
  cases r with
  | error => rfl
  | ok b => exact h b

section Guards

variable {P : Plan α σ ε ρ → Prop} (hfail : ∀ e, P (fail ctx e))

include hfail

/-- What holds of refusals and of what follows a guard holds of the guarded plan. -/
theorem of_need {test : Bool} {p : Plan α σ ε ρ} (h : P p) : P (need ctx test e p) := by
  cases test with
  | false => exact hfail e
  | true => exact h

theorem of_get {found : Option β} {k : β → Plan α σ ε ρ} (h : ∀ b, found = some b → P (k b)) :
    P (get ctx found e k) := by
  cases found with
  | none => exact hfail e
  | some b => exact h b rfl

theorem of_check {r : Except ε β} {k : β → Plan α σ ε ρ} (h : ∀ b, r = .ok b → P (k b)) :
    P (check ctx r k) := by
  cases r with
  | error e => exact hfail e
  | ok b => exact h b rfl

end Guards

/-- The state after the actions. -/
def run (apply : s → α → s) (st : s) (p : Plan α σ ε ρ) : s := p.acts.foldl apply st

/-- What every action of a plan keeps, the plan keeps. -/
theorem run_induction {apply : s → α → s} {P : s → Prop} {st : s} {p : Plan α σ ε ρ}
    (h0 : P st) (hact : ∀ a ∈ p.acts, ∀ t, P t → P (apply t a)) : P (p.run apply st) := by
  have key : ∀ l : List α, (∀ a ∈ l, ∀ t, P t → P (apply t a)) →
      ∀ t, P t → P (l.foldl apply t) := by
    intro l
    induction l with
    | nil => exact fun _ t ht => ht
    | cons a l ih =>
      intro hl t ht
      exact ih (fun b hb => hl b (List.mem_cons_of_mem a hb)) _
        (hl a List.mem_cons_self t ht)
  exact key p.acts hact st h0

end Plan

end Lib
