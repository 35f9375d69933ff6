import PnfsLattice.Catalogue.Memdb

/-!
# Flushing the copies of a file

`mds_proxy_flush_file` syncs the files of all stripes and mirrors, before a COPY is answered with
`FILE_SYNC4`. A stripe is the list of what its mirrors are met with.
-/

namespace PnfsLattice

open List

/-- What `proxy_flush_entry` meets at a file. A cached descriptor is an opened file. -/
inductive FlushTry
  | noMount
  | noPath
  | noEntry
  | noOpen
  | opened (synced : Bool)

/-- The status, none for `MDS_OK`, and whether the other mirrors are abandoned. -/
def proxyFlushEntry : FlushTry → Option MdsStatus × Bool
  | .noMount => (some .notfound, true)
  | .noPath | .noOpen => (some .io, true)
  | .noEntry | .opened true => (none, false)
  | .opened false => (some .io, false)

/-- The loop over the mirrors: the status of an entry replaces that of the last one. -/
def flushMirrors : List FlushTry → Option MdsStatus → Option MdsStatus
  | [], st => st
  | t :: ts, _ =>
    if (proxyFlushEntry t).2 then (proxyFlushEntry t).1
    else flushMirrors ts (proxyFlushEntry t).1

/-- The loop over the stripes, which ends at a failure. -/
def flushStripes : List (List FlushTry) → Option MdsStatus
  | [] => none
  | ts :: stripes => match flushMirrors ts none with
    | none => flushStripes stripes
    | some st => some st

/-- `map` is the outcome of `proxy_stripe_map_get`. -/
def mdsProxyFlushFile (map : Except MdsStatus (List (List FlushTry))) : Option MdsStatus :=
  match map with
  | .error st => some st
  | .ok stripes => flushStripes stripes

/-- The end of `mds_proxy_copy_data`, after a loop with this status that wrote `total` bytes. -/
def copyDataFlush (st : Option MdsStatus) (total : ℕ)
    (map : Except MdsStatus (List (List FlushTry))) : Option MdsStatus :=
  if st = none ∧ 0 < total then mdsProxyFlushFile map else st

/-- Every file is synced or not there. -/
def Flushed (stripes : List (List FlushTry)) : Prop :=
  ∀ ts ∈ stripes, ∀ t ∈ ts, t = .noEntry ∨ t = .opened true

/-- A mirror is not reached, or the sync of the last one fails. -/
def Noticed (ts : List FlushTry) : Prop :=
  ts.getLast? = some (.opened false) ∨ ∃ t ∈ ts, (proxyFlushEntry t).2 = true

/-- If a sync fails, then a failure is noticed. -/
def FailureSeen (stripes : List (List FlushTry)) : Prop :=
  (∃ ts ∈ stripes, .opened false ∈ ts) → ∃ ts ∈ stripes, Noticed ts

variable {stripes : List (List FlushTry)} {ts : List FlushTry}

theorem flushMirrors_eq_none {st} :
    flushMirrors ts st = none ↔ ¬ Noticed ts ∧ (ts = [] → st = none) := by
  induction ts generalizing st with
  | nil => simp [flushMirrors, Noticed]
  | cons t ts =>
    rw [flushMirrors]
    cases ts with
    | nil => rcases t with _ | _ | _ | _ | _ | _ <;> simp [Noticed, flushMirrors, proxyFlushEntry]
    | cons u ts =>
      have hstop : (proxyFlushEntry t).2 = true → (proxyFlushEntry t).1 ≠ none := by
        rcases t with _ | _ | _ | _ | _ | _ <;> simp [proxyFlushEntry]
      have hnotice : Noticed (t :: u :: ts) ↔
          (proxyFlushEntry t).2 = true ∨ Noticed (u :: ts) := by
        rw [Noticed, exists_mem_cons_iff, or_left_comm]
        rfl
      by_cases h : (proxyFlushEntry t).2 = true <;> simp_all

theorem flushStripes_eq_none : flushStripes stripes = none ↔ ¬ ∃ ts ∈ stripes, Noticed ts := by
  induction stripes with
  | nil => simp [flushStripes]
  | cons ts =>
    rw [flushStripes]
    have hts := @flushMirrors_eq_none ts none
    cases hf : flushMirrors ts none <;> simp_all

theorem flushed_of_seen (hseen : FailureSeen stripes) (h : flushStripes stripes = none) :
    Flushed stripes := by
  rw [flushStripes_eq_none] at h
  intro ts hts t ht
  have hstop : (proxyFlushEntry t).2 ≠ true := fun hstop => h ⟨ts, hts, .inr ⟨t, ht, hstop⟩⟩
  rcases t with _ | _ | _ | _ | _ | _
  case opened.false => exact absurd (hseen ⟨ts, hts, ht⟩) h
  all_goals simp_all [proxyFlushEntry]

/-- A flush that returns `MDS_OK` has covered every file just if the failures are seen; a copy
that is answered with `FILE_SYNC4` has then, too. -/
theorem flush_covers_iff (stripes : List (List FlushTry)) :
    ((mdsProxyFlushFile (.ok stripes) = none → Flushed stripes) ↔ FailureSeen stripes) ∧
    ∀ st total, 0 < total → copyDataFlush st total (.ok stripes) = none →
      FailureSeen stripes → Flushed stripes := by
  refine ⟨⟨fun h ⟨ts, hts, hfail⟩ => ?_, flushed_of_seen⟩, fun _ _ _ h hseen => ?_⟩
  · by_contra hno
    have := h (flushStripes_eq_none.mpr hno) ts hts _ hfail
    simp at this
  · apply flushed_of_seen hseen
    unfold copyDataFlush at h
    split at h
    · exact h
    · simp_all

theorem flush_covers_last : Flushed [[.opened true, .noEntry]] :=
  (flush_covers_iff _).1.mpr (by simp [FailureSeen]) rfl

/-- The sync of a first mirror fails, and that of the second one answers `MDS_OK`. -/
theorem flush_forgets_failure :
    mdsProxyFlushFile (.ok [[.opened false, .opened true]]) = none ∧
      ¬ Flushed [[.opened false, .opened true]] := by
  refine ⟨rfl, fun h => ?_⟩
  simp [Flushed] at h

end PnfsLattice
