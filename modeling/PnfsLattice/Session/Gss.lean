import Mathlib.Data.List.Nodup
import Mathlib.Order.Nat
import PnfsLattice.Lib.Machine

/-!
# The sequence window of RPCSEC_GSS

`mds_gss_validate` keeps, for each established context, the numbers it has seen in a window of
64, and the RPC layer refuses a request whose number it has seen or that lies below the window.
The window is moved and marked before the service is compared with the configured minimum and
before the checksum of the header is verified.
-/

namespace PnfsLattice

open Lib

/-- `seq_window_low` and `seq_seen` of a context; bit `i` stands for the number `low + i + 1`. -/
structure GssWindow where
  low : ℕ
  seen : ℕ
deriving DecidableEq

/-- A request with `RPCSEC_GSS_DATA`: the number and the service of its credential, and whether
the checksum of its header verifies. -/
structure GssRequest where
  seqNum : ℕ
  service : ℕ
  micOk : Bool

/-- The window of a context, and the numbers of the requests that were accepted. -/
structure GssContext where
  win : GssWindow
  accepted : List ℕ
deriving DecidableEq

/-- The window moved up as far as the number needs. -/
def GssWindow.advance (w : GssWindow) (seq : ℕ) : GssWindow :=
  let offset := seq - w.low
  if 64 < offset then
    { low := seq - 64, seen := if 64 ≤ offset - 64 then 0 else w.seen >>> (offset - 64) }
  else w

/-- `mds_gss_validate` on an established context: the window it leaves, and whether it succeeds. -/
def mdsGssValidate (w : GssWindow) (seq : ℕ) : GssWindow × Bool :=
  if seq ≤ w.low then (w, false)
  else
    let w := w.advance seq
    if w.seen.testBit (seq - w.low - 1) then (w, false)
    else ({ w with seen := w.seen ||| 1 <<< (seq - w.low - 1) }, true)

variable (negotiatedSvc minAuth : ℕ)

/-- The checks of the RPC layer. The service that counts is the negotiated one at most, and a
service of 0 is not verified. -/
def gssAccepts (w : GssWindow) (r : GssRequest) : Bool :=
  let effSvc := min r.service negotiatedSvc
  (mdsGssValidate w r.seqNum).2 && minAuth ≤ effSvc && (effSvc = 0 || r.micOk)

def gssStep (s : GssContext) (r : GssRequest) : Option GssContext :=
  some { win := (mdsGssValidate s.win r.seqNum).1
         accepted := if gssAccepts negotiatedSvc minAuth s.win r then r.seqNum :: s.accepted
           else s.accepted }

/-- A context that `mds_gss_accept_token` has just established. -/
def gssEstablished : GssContext := { win := { low := 0, seen := 0 }, accepted := [] }

/-- The number lies below the window, or was seen. -/
def GssWindow.Has (w : GssWindow) (x : ℕ) : Prop := x ≤ w.low ∨ w.seen.testBit (x - w.low - 1)

/-- An authentic request whose number was not accepted before and is not 64 or more below one
that was. -/
structure GssContext.Due (s : GssContext) (r : GssRequest) : Prop where
  micOk : r.micOk
  fresh : r.seqNum ∉ s.accepted
  near : ∀ x ∈ s.accepted, x < r.seqNum + 64

/-- Requests that are due are accepted, and those that are not authentic leave the window as it
is. -/
def GssRight (s : GssContext) (r : GssRequest) : Prop :=
  (s.Due r → gssAccepts negotiatedSvc minAuth s.win r) ∧
    (r.micOk = false → (mdsGssValidate s.win r.seqNum).1 = s.win)

/-- Requests that are due have a number other than 0, which no window covers, and the service
that is asked for; those that are not authentic repeat a number. -/
def GssCareful (s : GssContext) (r : GssRequest) : Prop :=
  (s.Due r → 0 < r.seqNum ∧ minAuth ≤ min r.service negotiatedSvc) ∧
    (r.micOk = false → s.win.Has r.seqNum)

/-! ## One request -/

section Window

variable {w : GssWindow} {seq : ℕ}

/-- Moving the window changes what it covers, and no mark in it. -/
theorem advance_spec (hwidth : ∀ x, w.Has x → x ≤ w.low + 64) (hseq : w.low < seq) :
    w.low ≤ (w.advance seq).low ∧ seq ≤ (w.advance seq).low + 64 ∧
      ((w.advance seq).low = w.low ∨ (w.advance seq).low + 64 = seq) ∧
      ∀ x, (w.advance seq).Has x ↔ x ≤ (w.advance seq).low ∨ w.Has x := by
  by_cases hfar : 64 < seq - w.low
  · simp only [GssWindow.advance, if_pos hfar]
    refine ⟨by omega, by omega, by omega, fun x => or_congr_right' fun hx => ?_⟩
    dsimp only at hx ⊢
    have hidx : seq - w.low - 64 + (x - (seq - 64) - 1) = x - w.low - 1 := by omega
    have hlow : ¬ x ≤ w.low := by omega
    by_cases hgone : 64 ≤ seq - w.low - 64
    · have hno : ¬ w.Has x := fun h => by
        have := hwidth x h
        omega
      simpa [hgone] using hno
    · simp [GssWindow.Has, hgone, hlow, Nat.testBit_shiftRight, hidx]
  · rw [show w.advance seq = w from if_neg hfar]
    exact ⟨le_rfl, by omega, .inl rfl, fun _ => ⟨.inr, fun h => h.elim .inl id⟩⟩

theorem mdsGssValidate_of_has (hwidth : ∀ x, w.Has x → x ≤ w.low + 64) (h : w.Has seq) :
    mdsGssValidate w seq = (w, false) := by
  have hstay : w.advance seq = w := if_neg (by have := hwidth seq h; omega)
  rw [mdsGssValidate, hstay]
  rcases h with hlow | hbit
  · exact if_pos hlow
  · simp [hbit]

theorem mdsGssValidate_of_new (hwidth : ∀ x, w.Has x → x ≤ w.low + 64) (h : ¬ w.Has seq) :
    ∃ w', mdsGssValidate w seq = (w', true) ∧ w.low ≤ w'.low ∧ seq ≤ w'.low + 64 ∧
      (w'.low = w.low ∨ w'.low + 64 = seq) ∧
      ∀ x, w'.Has x ↔ x ≤ w'.low ∨ x = seq ∨ w.Has x := by
  have hlow : ¬ seq ≤ w.low := fun hlow => h (.inl hlow)
  obtain ⟨hle, htop, hmoved, hhas⟩ := advance_spec hwidth (Nat.lt_of_not_le hlow)
  rw [mdsGssValidate, if_neg hlow]
  have hnew : ¬ (w.advance seq).Has seq := by
    simp only [hhas, h, or_false]
    omega
  generalize w.advance seq = v at *
  obtain ⟨hv, hbit⟩ := not_or.mp hnew
  refine ⟨{ v with seen := v.seen ||| 1 <<< (seq - v.low - 1) }, by simp [hbit], hle, htop,
    hmoved, fun x => or_congr_right' fun hx => ?_⟩
  dsimp only at hx
  have hsame : seq - v.low - 1 = x - v.low - 1 ↔ x = seq := by omega
  have hold : w.Has x ↔ v.seen.testBit (x - v.low - 1) := by
    simpa [GssWindow.Has, hx] using (hhas x).symm
  simp [hold, Nat.testBit_or, Nat.one_shiftLeft, Nat.testBit_two_pow, hsame, or_comm]

end Window

/-! ## Runs -/

variable {negotiatedSvc minAuth : ℕ} {s t : GssContext} {r : GssRequest}

/-- The window has every accepted number. -/
structure GssInv (s : GssContext) : Prop where
  width : ∀ x, s.win.Has x → x ≤ s.win.low + 64
  has : ∀ x ∈ s.accepted, s.win.Has x
  nodup : s.accepted.Nodup

/-- Only accepted numbers are marked, and the highest of them ends the window. -/
structure GssExact (s : GssContext) : Prop extends GssInv s where
  owed : ∀ x, s.win.Has x → x ≤ s.win.low ∨ x ∈ s.accepted
  top : s.win.low = 0 ∨ s.win.low + 64 ∈ s.accepted

theorem gssInv_step (h : GssInv s) (hstep : gssStep negotiatedSvc minAuth s r = some t) :
    GssInv t := by
  cases hstep
  by_cases hhas : s.win.Has r.seqNum
  · simpa [gssAccepts, mdsGssValidate_of_has h.width hhas] using h
  obtain ⟨w', hok, hle, htop, -, hw'⟩ := mdsGssValidate_of_new h.width hhas
  have hold : ∀ x ∈ s.accepted, w'.Has x := fun x hx => (hw' x).mpr (.inr (.inr (h.has x hx)))
  rw [hok]
  refine ⟨fun x hx => ?_, ?_, ?_⟩
  · rcases (hw' x).mp hx with hx | rfl | hx
    · exact Nat.le_add_right_of_le hx
    · exact htop
    · exact (h.width x hx).trans (Nat.add_le_add_right hle 64)
  · dsimp only
    split_ifs
    · exact List.forall_mem_cons.mpr ⟨(hw' _).mpr (.inr (.inl rfl)), hold⟩
    · exact hold
  · dsimp only
    split_ifs
    · exact List.nodup_cons.mpr ⟨fun hx => hhas (h.has _ hx), h.nodup⟩
    · exact h.nodup

/-- Of the authentic requests, the window has no number other than 0 that is due, and all
others. -/
theorem GssExact.due_iff (h : GssExact s) :
    s.Due r ∧ 0 < r.seqNum ↔ r.micOk ∧ ¬ s.win.Has r.seqNum := by
  constructor
  · rintro ⟨⟨hmic, hfresh, hnear⟩, hpos⟩
    refine ⟨hmic, fun hhas => ?_⟩
    have hlow := (h.owed _ hhas).resolve_right hfresh
    have htop := h.top.imp_right (hnear _)
    omega
  · rintro ⟨hmic, hnew⟩
    have hlow : ¬ r.seqNum ≤ s.win.low := fun hlow => hnew (.inl hlow)
    refine ⟨⟨hmic, fun hx => hnew (h.has _ hx), fun x hx => ?_⟩, by omega⟩
    have hwidth := h.width x (h.has x hx)
    omega

theorem GssExact.right_iff (h : GssExact s) :
    GssRight negotiatedSvc minAuth s r ↔ GssCareful negotiatedSvc minAuth s r := by
  refine and_congr (imp_congr_right fun hdue => ?_) (imp_congr_right fun _ => ?_)
  · by_cases hpos : 0 < r.seqNum
    · obtain ⟨hmic, hnew⟩ := h.due_iff.mp ⟨hdue, hpos⟩
      obtain ⟨w', hok, -⟩ := mdsGssValidate_of_new h.width hnew
      simp [gssAccepts, hok, hmic, hpos]
    · have hhas : s.win.Has r.seqNum := .inl (by omega)
      simp [gssAccepts, mdsGssValidate_of_has h.width hhas, hpos]
  · by_cases hhas : s.win.Has r.seqNum
    · simp [mdsGssValidate_of_has h.width hhas, hhas]
    · -- The window has the number now.
      obtain ⟨w', hok, -, -, -, hw'⟩ := mdsGssValidate_of_new h.width hhas
      have hne : w' ≠ s.win := fun he => hhas (he ▸ (hw' _).mpr (.inr (.inl rfl)))
      simp [hok, hne, hhas]

theorem gssExact_step (h : GssExact s) (hc : GssCareful negotiatedSvc minAuth s r)
    (hstep : gssStep negotiatedSvc minAuth s r = some t) : GssExact t := by
  have hinv := gssInv_step h.toGssInv hstep
  cases hstep
  by_cases hhas : s.win.Has r.seqNum
  · simpa [gssAccepts, mdsGssValidate_of_has h.width hhas] using h
  have hdue : s.Due r := (h.due_iff.mpr ⟨by simpa using mt hc.2 hhas, hhas⟩).1
  have hacc := (h.right_iff.mpr hc).1 hdue
  obtain ⟨w', hok, hle, -, hmoved, hw'⟩ := mdsGssValidate_of_new h.width hhas
  refine ⟨hinv, fun x hx => ?_, ?_⟩ <;> simp only [hok, if_pos hacc, List.mem_cons] at *
  · rcases (hw' x).mp hx with hx | rfl | hx
    · exact .inl hx
    · exact .inr (.inl rfl)
    · exact (h.owed x hx).imp (·.trans hle) .inr
  · rcases hmoved with hlow | htop
    · rw [hlow]
      exact h.top.imp_right .inr
    · exact .inr (.inl htop)

theorem allSteps_right_iff (h : GssExact s) (rs : List GssRequest) :
    AllSteps (gssStep negotiatedSvc minAuth) (GssRight negotiatedSvc minAuth) s rs ↔
      AllSteps (gssStep negotiatedSvc minAuth) (GssCareful negotiatedSvc minAuth) s rs := by
  induction rs generalizing s with
  | nil => exact Iff.rfl
  | cons r _ ih =>
    refine forall_congr' fun t => imp_congr_right fun ht => ?_
    rw [h.right_iff]
    exact and_congr_right fun hc => ih (gssExact_step h hc ht)

/-- **The window of a context.**  No number is accepted twice. The requests of a run are answered
as they should be exactly if those that are due have a number other than 0 and the service that
is asked for, and those that are not authentic repeat a number. -/
theorem gss_window_iff (negotiatedSvc minAuth : ℕ) (rs : List GssRequest) :
    let step := gssStep negotiatedSvc minAuth
    (∀ t, exec step gssEstablished rs = some t → t.accepted.Nodup) ∧
      (AllSteps step (GssRight negotiatedSvc minAuth) gssEstablished rs ↔
        AllSteps step (GssCareful negotiatedSvc minAuth) gssEstablished rs) := by
  have hstart : GssExact gssEstablished := by
    refine ⟨⟨?_, nofun, List.nodup_nil⟩, ?_, .inl rfl⟩ <;> simp [GssWindow.Has, gssEstablished]
  refine ⟨fun t ht => ?_, allSteps_right_iff hstart rs⟩
  have hreach : Reachable (gssEstablished = ·) (gssStep negotiatedSvc minAuth) anyStep t :=
    (Reachable.start rfl).exec ht
  have hinv : GssInv t := hreach.invariant (fun _ h => h ▸ hstart.toGssInv)
    fun _ _ _ h _ hstep => gssInv_step h hstep
  exact hinv.nodup

/-- The first authentic request is refused after a forged one with a large number. -/
theorem forged_shuts_out_authentic :
    gssAccepts 1 1 gssEstablished.win ⟨1, 1, true⟩ = true ∧
      ∃ s, exec (gssStep 1 1) gssEstablished [⟨1000, 1, false⟩] = some s ∧
        s.win ≠ gssEstablished.win ∧ s.Due ⟨1, 1, true⟩ ∧
        gssAccepts 1 1 s.win ⟨1, 1, true⟩ = false :=
  ⟨by decide, _, rfl, by decide, ⟨rfl, List.not_mem_nil, List.forall_mem_nil _⟩, by decide⟩

end PnfsLattice
