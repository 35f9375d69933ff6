import Mathlib.Data.List.Basic

/-!
# Labelled machines and their runs

A component of a server is modelled as a partial step function
`step : σ → ℓ → Option σ`: a label names one atomic action (a call, or one critical
section of a call), and `none` says that the action is not enabled in that state.
The scheduler is a list of labels, so a statement about every reachable state is a
statement about every interleaving.
-/

namespace Lib

variable {σ ℓ : Type*}

/-- States reachable from `init` by steps that all meet the side condition `ok`, which
reads the state before the step and the label. -/
inductive Reachable (init : σ → Prop) (step : σ → ℓ → Option σ) (ok : σ → ℓ → Prop) :
    σ → Prop
  | start {s : σ} (h : init s) : Reachable init step ok s
  | next {s t : σ} {a : ℓ} (hs : Reachable init step ok s) (hok : ok s a)
      (h : step s a = some t) : Reachable init step ok t

/-- The side condition every step meets. -/
def anyStep : σ → ℓ → Prop := fun _ _ => True

namespace Reachable

variable {init init' : σ → Prop} {step : σ → ℓ → Option σ} {ok ok' : σ → ℓ → Prop}

/-- The invariant rule for a property that needs facts already known of every
reachable state. -/
theorem invariant_of {P Q : σ → Prop} (hQ : ∀ s, Reachable init step ok s → Q s)
    (h0 : ∀ s, init s → P s) (hstep : ∀ s a t, Q s → P s → ok s a → step s a = some t → P t)
    {s : σ} (hs : Reachable init step ok s) : P s := by
  induction hs with
  | start h => exact h0 _ h
  | next hs hok h ih => exact hstep _ _ _ (hQ _ hs) ih hok h

/-- **The invariant rule.** -/
theorem invariant {P : σ → Prop} (h0 : ∀ s, init s → P s)
    (hstep : ∀ s a t, P s → ok s a → step s a = some t → P t)
    {s : σ} (hs : Reachable init step ok s) : P s :=
  hs.invariant_of (fun _ _ => trivial) h0 fun s a t (_ : True) => hstep s a t

/-- More initial states and a weaker side condition reach at least as much. -/
theorem mono (hinit : ∀ s, init s → init' s) (hok : ∀ s a, ok s a → ok' s a) {s : σ}
    (hs : Reachable init step ok s) : Reachable init' step ok' s := by
  induction hs with
  | start h => exact .start (hinit _ h)
  | next _ h hst ih => exact .next ih (hok _ _ h) hst

end Reachable

/-! ## Runs as lists of labels -/

/-- The state after the labels `as`, if each was enabled when it was taken. -/
def exec (step : σ → ℓ → Option σ) : σ → List ℓ → Option σ
  | s, [] => some s
  | s, a :: as => (step s a).bind fun t => exec step t as

variable {step : σ → ℓ → Option σ}

@[simp] theorem exec_nil (s : σ) : exec step s [] = some s := rfl

@[simp] theorem exec_cons (s : σ) (a : ℓ) (as : List ℓ) :
    exec step s (a :: as) = (step s a).bind fun t => exec step t as := rfl

/-- `P` holds in every state the run visits, the first one included. -/
def AllStates (step : σ → ℓ → Option σ) (P : σ → Prop) : σ → List ℓ → Prop
  | s, [] => P s
  | s, a :: as => P s ∧ ∀ t, step s a = some t → AllStates step P t as

/-- Every enabled step of the run meets the condition `C`, read in the state it is
taken from. -/
def AllSteps (step : σ → ℓ → Option σ) (C : σ → ℓ → Prop) : σ → List ℓ → Prop
  | _, [] => True
  | s, a :: as => ∀ t, step s a = some t → C s a ∧ AllSteps step C t as

variable {as : List ℓ}

theorem AllSteps.cons {C : σ → ℓ → Prop} {s t : σ} {a : ℓ} (h : step s a = some t) (hC : C s a)
    (hrest : AllSteps step C t as) : AllSteps step C s (a :: as) := by
  intro u hu
  obtain rfl : t = u := Option.mem_unique h hu
  exact ⟨hC, hrest⟩

theorem AllSteps.mono {C D : σ → ℓ → Prop} (hCD : ∀ s a, C s a → D s a) {s : σ}
    (h : AllSteps step C s as) : AllSteps step D s as := by
  induction as generalizing s with
  | nil => trivial
  | cons a _ ih => exact fun t ht => ⟨hCD s a (h t ht).1, ih (h t ht).2⟩

/-- A run can be checked step by step. -/
instance decidableAllSteps {C : σ → ℓ → Prop} [∀ s a, Decidable (C s a)] :
    ∀ (s : σ) (as : List ℓ), Decidable (AllSteps step C s as)
  | _, [] => isTrue trivial
  | s, a :: as =>
    match h : step s a with
    | none => isTrue fun t ht => absurd (h.symm.trans ht) (by simp)
    | some t =>
      haveI : Decidable (AllSteps step C t as) := decidableAllSteps t as
      decidable_of_iff (C s a ∧ AllSteps step C t as)
        ⟨fun hC => .cons h hC.1 hC.2, fun hall => hall t h⟩

/-- A run from a reachable state, all of whose steps meet the side condition, ends in a
reachable state. -/
theorem Reachable.exec_of_allSteps {init : σ → Prop} {ok : σ → ℓ → Prop} {s t : σ}
    (hs : Reachable init step ok s) (hall : AllSteps step ok s as) (h : exec step s as = some t) :
    Reachable init step ok t := by
  induction as generalizing s with
  | nil =>
    obtain rfl : s = t := by simpa using h
    exact hs
  | cons a _ ih =>
    obtain ⟨u, hu, ht⟩ := Option.bind_eq_some_iff.mp h
    obtain ⟨hok, hrest⟩ := hall u hu
    exact ih (hs.next hok hu) hrest ht

/-- A condition on the labels of a run is one on its steps. -/
theorem allSteps_of_forall {C : ℓ → Prop} (h : ∀ a ∈ as, C a) (s : σ) :
    AllSteps step (fun _ a => C a) s as := by
  induction as generalizing s with
  | nil => trivial
  | cons a _ ih => exact fun t _ => ⟨h a (by simp), ih (fun b hb => h b (by simp [hb])) t⟩

theorem allSteps_anyStep (s : σ) (as : List ℓ) : AllSteps step anyStep s as :=
  allSteps_of_forall (C := fun _ => True) (fun _ _ => trivial) s

/-- A run from a reachable state ends in a reachable state. -/
theorem Reachable.exec {init : σ → Prop} {s t : σ} (hs : Reachable init step anyStep s)
    (h : exec step s as = some t) : Reachable init step anyStep t :=
  hs.exec_of_allSteps (allSteps_anyStep s as) h

/-- The end of a run from a start; its steps are checked by evaluation. -/
theorem Reachable.run {init : σ → Prop} {ok : σ → ℓ → Prop} {t : σ} (s : σ) (as : List ℓ)
    (hs : init s) (hall : AllSteps step ok s as := by first | exact allSteps_anyStep _ _ | decide)
    (h : Lib.exec step s as = some t := by exact rfl) : Reachable init step ok t :=
  (Reachable.start hs).exec_of_allSteps hall h

/-- What every step keeps holds throughout a run. -/
theorem allStates_invariant {P : σ → Prop} (hP : ∀ s a t, P s → step s a = some t → P t) {s : σ}
    (as : List ℓ) (hs : P s) : AllStates step P s as := by
  induction as generalizing s with
  | nil => exact hs
  | cons a _ ih => exact ⟨hs, fun t ht => ih (hP s a t hs ht)⟩

theorem AllStates.head {P : σ → Prop} {s : σ} (h : AllStates step P s as) : P s := by
  cases as with
  | nil => exact h
  | cons => exact h.1

/-- **Exact conditions lift to runs.**  If, in states that keep the invariant `I`, a step
that meets `ok` leads from a state with `P` to one with `P` exactly when it meets `C`,
then a run of such steps has `P` throughout exactly when all its steps meet `C`. -/
theorem allStates_iff_allSteps_of {I P : σ → Prop} {ok C : σ → ℓ → Prop}
    (hI : ∀ s a t, I s → step s a = some t → I t)
    (hP : ∀ s a t, I s → P s → ok s a → step s a = some t → (P t ↔ C s a)) {s : σ}
    (hall : AllSteps step ok s as) (hs : I s) (hp : P s) :
    AllStates step P s as ↔ AllSteps step C s as := by
  induction as generalizing s with
  | nil => simp [AllStates, AllSteps, hp]
  | cons a _ ih =>
    refine (and_iff_right hp).trans (forall_congr' fun t => imp_congr_right fun ht => ?_)
    obtain ⟨hok, hrest⟩ := hall t ht
    have hstep := hP s a t hs hp hok ht
    have hiff := ih hrest (hI s a t hs ht)
    exact ⟨fun h => ⟨hstep.mp h.head, (hiff h.head).mp h⟩, fun h => (hiff (hstep.mpr h.1)).mpr h.2⟩

theorem allStates_iff_allSteps {I P : σ → Prop} {C : σ → ℓ → Prop}
    (hI : ∀ s a t, I s → step s a = some t → I t)
    (hP : ∀ s a t, I s → P s → step s a = some t → (P t ↔ C s a))
    {s : σ} (as : List ℓ) (hs : I s) (hp : P s) : AllStates step P s as ↔ AllSteps step C s as :=
  allStates_iff_allSteps_of hI (fun s a t hs hp _ hstep => hP s a t hs hp hstep)
    (allSteps_anyStep s as) hs hp

/-- Every enabled step of the run goes from a state to one related to it by `R`. -/
def AllMoves (step : σ → ℓ → Option σ) (R : σ → σ → Prop) : σ → List ℓ → Prop
  | _, [] => True
  | s, a :: as => ∀ t, step s a = some t → R s t ∧ AllMoves step R t as

theorem allMoves_iff_allSteps {I : σ → Prop} {R : σ → σ → Prop} {C : σ → ℓ → Prop}
    (hI : ∀ s a t, I s → step s a = some t → I t)
    (hR : ∀ s a t, I s → step s a = some t → (R s t ↔ C s a))
    {s : σ} (as : List ℓ) (hs : I s) : AllMoves step R s as ↔ AllSteps step C s as := by
  induction as generalizing s with
  | nil => exact Iff.rfl
  | cons a _ ih =>
    refine forall_congr' fun t => imp_congr_right fun ht => ?_
    exact and_congr (hR s a t hs ht) (ih (hI s a t hs ht))

end Lib
