import Mathlib.Data.List.Basic

/-!
# Two runs that look alike

A machine answers each input. If, in the states that keep an invariant and for inputs that
meet a condition, states that look alike to an observer give the same answer and are followed
by states that look alike, then two runs of the same inputs from such states give the same
answers.
-/

namespace Lib

variable {σ ℓ ω : Type*}

def answers (step : σ → ℓ → σ) (out : σ → ℓ → ω) : σ → List ℓ → List ω
  | _, [] => []
  | s, a :: as => out s a :: answers step out (step s a) as

/-- Each input meets the condition in the state that receives it. -/
def EveryInput (step : σ → ℓ → σ) (C : σ → ℓ → Prop) : σ → List ℓ → Prop
  | _, [] => True
  | s, a :: as => C s a ∧ EveryInput step C (step s a) as

variable {step : σ → ℓ → σ} {out : σ → ℓ → ω} {R : σ → σ → Prop} {I : σ → Prop}
  {C : σ → ℓ → Prop}

/-- **Two runs from states that look alike give the same answers.** -/
theorem answers_eq_of_alike (hI : ∀ s a, I s → C s a → I (step s a))
    (hout : ∀ s t a, I s → I t → C s a → C t a → R s t → out s a = out t a)
    (hnext : ∀ s t a, I s → I t → C s a → C t a → R s t → R (step s a) (step t a))
    {s t : σ} {as : List ℓ} (hs : I s) (ht : I t) (hCs : EveryInput step C s as)
    (hCt : EveryInput step C t as) (hR : R s t) :
    answers step out s as = answers step out t as := by
  induction as generalizing s t with
  | nil => rfl
  | cons a _ ih =>
    obtain ⟨has, hass⟩ := hCs
    obtain ⟨hat, hast⟩ := hCt
    have hhead := hout s t a hs ht has hat hR
    have htail := ih (hI s a hs has) (hI t a ht hat) hass hast (hnext s t a hs ht has hat hR)
    rw [answers, answers, hhead, htail]

end Lib
