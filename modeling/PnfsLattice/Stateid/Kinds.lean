import Mathlib.Order.Nat
import PnfsLattice.Lock.Table

/-!
# The five tables that mint stateids

Opens, locks, layouts, delegations of files and delegations of directories have a table each,
and each table mints the 12 bytes of `other` from a counter of its own. There is no tag for
the kind of state. Three of the counters start at the wall clock in nanoseconds, those of the
two kinds of delegations at one. Consumers of a stateid ask one table after the other.
-/

namespace PnfsLattice

open Lib List Option

inductive StateKind
  | open
  | lock
  | layout
  | deleg
  | dirDeleg
  deriving DecidableEq

/-- The tail of `other` that a table mints at a value of its counter: `make_stateid_other`,
`make_lock_stateid`, `make_layout_stateid`, `make_deleg_stateid`, `make_dir_deleg_stateid`.
That of a lock has the stripe of the file in its top byte. -/
def mintTail (kind : StateKind) (fileid : Fileid) (counter : ℕ) : ℕ :=
  match kind with
  | .lock => stripe fileid * 2 ^ 56 + counter % 2 ^ 56
  | _ => counter % 2 ^ 64

/-- A state in one of the tables. A revoked delegation has left its table but is remembered
until its client frees it. -/
structure KindState where
  kind : StateKind
  other : Other
  clientid : Clientid
  revoked : Bool
  deriving DecidableEq

/-- The tables, of a server with this id. -/
structure KindSys where
  mdsId : UInt32
  seed : StateKind → ℕ
  counter : StateKind → ℕ
  live : List KindState

/-- A state of this kind with this `other`, as the lookup of its table finds it. -/
def lookupKind (s : KindSys) (kind : StateKind) (other : Other) : Option KindState :=
  s.live.find? fun e => e.kind = kind && !e.revoked && e.other = other

/-- The state that `op_delegreturn` removes: `deleg_return`, then `dir_deleg_return`. -/
def delegreturnTarget (s : KindSys) (other : Other) (clientid : Clientid) : Option KindState :=
  let mine := fun (kind : StateKind) (e : KindState) =>
    e.kind = kind && !e.revoked && e.other = other && e.clientid = clientid
  (s.live.find? (mine .deleg)).or (s.live.find? (mine .dirDeleg))

/-- The state that OP_FREE_STATEID removes, whoever asks; `rangesHeld` is the answer of
`lock_free_stateid`. -/
def freeStateidTarget (s : KindSys) (other : Other) (rangesHeld : Bool) : Option KindState :=
  freeStateidProbes ((lookupKind s .open other).map fun _ => none)
    ((lookupKind s .lock other).map fun e => if rangesHeld then none else some e)
    ((s.live.find? fun e => e.kind = .deleg && e.revoked && e.other = other).map some)
    ((lookupKind s .layout other).map some) none

/-- What changes the tables. -/
inductive KindOp
  /-- OPEN, LOCK, LAYOUTGET, the grant of a delegation or GET_DIR_DELEGATION makes a new
  state. -/
  | mint (kind : StateKind) (clientid : Clientid) (fileid : Fileid)
  /-- A locked range, or one that a LOCKU splits off, takes its `lock_id` from the counter of
  the lock stateids. -/
  | lockId
  /-- CLOSE, LAYOUTRETURN, the end of a lock, a new grant in place of one or the expiry of a
  client removes a state. -/
  | release (i : ℕ)
  /-- A delegation is revoked. -/
  | revoke (i : ℕ)
  | delegreturn (other : Other) (clientid : Clientid)
  | freeStateid (other : Other) (rangesHeld : Bool)

/-- The state that the next mint of a table makes. -/
def KindSys.next (s : KindSys) (kind : StateKind) (clientid : Clientid) (fileid : Fileid) :
    KindState where
  kind := kind
  other := { mdsId := s.mdsId, tail := mintTail kind fileid (s.counter kind) }
  clientid := clientid
  revoked := false

/-- Without the state that an operation acts on. -/
def KindSys.remove (s : KindSys) (target : Option KindState) : KindSys :=
  { s with live := target.elim s.live s.live.erase }

/-- The counter of a table moves on. -/
def KindSys.tick (s : KindSys) (kind : StateKind) : KindSys :=
  { s with counter := Function.update s.counter kind (s.counter kind + 1) }

def kindStep (s : KindSys) : KindOp → Option KindSys
  | .mint kind clientid fileid =>
    some { s.tick kind with live := s.live ++ [s.next kind clientid fileid] }
  | .lockId => some (s.tick .lock)
  | .release i => some { s with live := s.live.eraseIdx i }
  | .revoke i =>
    match s.live[i]? with
    | none => none
    | some e =>
      if e.kind = .deleg then some { s with live := s.live.set i { e with revoked := true } }
      else none
  | .delegreturn other clientid => some (s.remove (delegreturnTarget s other clientid))
  | .freeStateid other rangesHeld => some (s.remove (freeStateidTarget s other rangesHeld))

/-- The counter of a table that mints has not come round, and no other counter has passed, since
its seed, a value with the same tail. -/
def MintsApart (s : KindSys) : KindOp → Prop
  | .mint kind _ fileid => s.counter kind < s.seed kind + 2 ^ 56 ∧
    ∀ k, k ≠ kind → ∀ n f, s.seed k ≤ n → n < s.counter k →
      mintTail k f n ≠ mintTail kind fileid (s.counter kind)
  | _ => True

/-! ## What an operation acts on -/

section Targets

variable {s t : KindSys} {e x : KindState} {other : Other} {clientid : Clientid}

end Targets

/-! ## One table -/

/-- A table does not mint a value twice before its counter has come round. -/
theorem mintTail_ne_of_lt {kind f g i j} (hij : i < j) (hround : j < i + 2 ^ 56) :
    mintTail kind f i ≠ mintTail kind g j := by
  cases kind with
  | lock | «open» | layout | deleg | dirDeleg =>
    simp only [mintTail]
    omega

/-- Every state was minted by its table at some earlier value of the counter. -/
structure MintedInv (s : KindSys) : Prop where
  counters : ∀ k, s.seed k ≤ s.counter k
  minted : ∀ e ∈ s.live, ∃ i f, s.seed e.kind ≤ i ∧ i < s.counter e.kind ∧
    e.other = { mdsId := s.mdsId, tail := mintTail e.kind f i }

section Minted

variable {s t : KindSys}

theorem MintedInv.sub (h : MintedInv s) {live}
    (hsub : ∀ e ∈ live, ∃ e' ∈ s.live, e.kind = e'.kind ∧ e.other = e'.other) :
    MintedInv { s with live } where
  counters := h.counters
  minted := by
    intro e he
    obtain ⟨e', he', hkind, hother⟩ := hsub e he
    rw [hkind, hother]
    exact h.minted e' he'

theorem MintedInv.remove (h : MintedInv s) (target : Option KindState) :
    MintedInv (s.remove target) := by
  refine h.sub fun e he => ⟨e, ?_, rfl, rfl⟩
  cases target with
  | none => exact he
  | some => exact mem_of_mem_erase he

theorem MintedInv.tick (h : MintedInv s) (k : StateKind) : MintedInv (s.tick k) := by
  have hle : s.counter ≤ Function.update s.counter k (s.counter k + 1) :=
    le_update_self_iff.mpr (Nat.le_succ _)
  refine ⟨fun k' => (h.counters k').trans (hle k'), fun e he => ?_⟩
  obtain ⟨i, g, hlo, hhi, hother⟩ := h.minted e he
  exact ⟨i, g, hlo, hhi.trans_le (hle e.kind), hother⟩

theorem MintedInv.step (h : MintedInv s) {op} (hst : kindStep s op = some t) : MintedInv t := by
  cases op with
  | mint k c f =>
    cases hst
    refine ⟨(h.tick k).counters, fun e he => ?_⟩
    rcases mem_append.mp he with he | he
    · exact (h.tick k).minted e he
    obtain rfl := mem_singleton.mp he
    refine ⟨s.counter k, f, h.counters k, ?_, rfl⟩
    show s.counter k < Function.update s.counter k (s.counter k + 1) k
    rw [Function.update_self]
    exact Nat.lt_succ_self _
  | lockId =>
    cases hst
    exact h.tick .lock
  | release =>
    cases hst
    exact h.sub fun e he => ⟨e, mem_of_mem_eraseIdx he, rfl, rfl⟩
  | revoke =>
    simp only [kindStep] at hst
    split at hst
    · cases hst
    next e he =>
      split at hst <;> cases hst
      refine h.sub fun x hx => ?_
      rcases mem_or_eq_of_mem_set hx with hx | rfl
      · exact ⟨x, hx, rfl, rfl⟩
      · exact ⟨e, mem_of_getElem? he, rfl, rfl⟩
  | delegreturn | freeStateid =>
    cases hst
    exact h.remove _

theorem MintedInv.fresh (h : MintedInv s) {kind clientid fileid}
    (hok : MintsApart s (.mint kind clientid fileid)) :
    ∀ e ∈ s.live, e.other ≠ (s.next kind clientid fileid).other := by
  intro e he heq
  obtain ⟨i, g, hlo, hhi, hother⟩ := h.minted e he
  have htail := congrArg Other.tail (hother.symm.trans heq)
  by_cases hkind : e.kind = kind
  · subst hkind
    have hround := hok.1
    exact mintTail_ne_of_lt hhi (by omega) htail
  · exact hok.2 e.kind hkind i g hlo hhi htail

end Minted

end PnfsLattice
