import Mathlib.Order.Nat
import PnfsLattice.Lib.FirstMatch
import PnfsLattice.Lib.Machine

/-!
# Operations that extend a file

The size of a file while operations that write beyond its end run side by side, each in steps: it
reads the size, once or twice, and then sets it. A step is one call of the catalogue. An operation
that finds the file inline promotes it first, and `promote_inline_to_ds` stores the whole inode as
it was read before.
-/

namespace PnfsLattice

open Lib List Option

inductive ExtendOp
  | write
  | writeSame
  | allocate
  /-- Source and destination may be one file. -/
  | copy (within : Bool)
  | clone (within : Bool)
  | layoutcommit

/-- The calls of the catalogue that matter for the size. -/
inductive ExtendCall
  /-- The read of `promote_if_inline`, or the first one of a WRITE. -/
  | probe
  /-- The put of the flag `PROMOTING`. -/
  | mark
  /-- The put that ends a promotion, or that of `clear_promoting_flag`. -/
  | flip
  | read
  /-- A read that ends the operation if it finds the size large enough. -/
  | look
  | set

/-- The calls of a handler, in their order. -/
def ExtendOp.calls : ExtendOp → List ExtendCall
  | .write => [.probe, .look, .read, .set]
  | .writeSame => [.probe, .look, .look, .set]
  | .allocate => [.read, .probe, .set]
  | .copy within => .probe :: if within then [.probe, .look, .look, .set] else [.look, .look, .set]
  | .clone within => .read :: .probe :: if within then [.probe, .set] else [.set]
  | .layoutcommit => [.look, .set]

/-- Whether the mask is `MDS_ATTR_SIZE`, and not `MDS_ATTR_SIZE_EXTEND`. -/
def ExtendOp.absolute : ExtendOp → Bool
  | .write | .layoutcommit => false
  | .writeSame | .allocate | .copy _ | .clone _ => true

/-- An operation under way: the calls that are left, the size that the last read found, and the
size in the inode that a promotion stores. -/
structure ExtendJob where
  op : ExtendOp
  newEnd : ℕ
  calls : List ExtendCall
  seen : ℕ
  snap : ℕ

/-- What the last call leaves as the size. An absolute one is not made if the size that was read
is large enough. -/
def ExtendJob.set (job : ExtendJob) (size : ℕ) : ℕ :=
  if job.op.absolute then if job.newEnd ≤ job.seen then size else job.newEnd
  else max size (max job.seen job.newEnd)

/-- `ends` are the ends of the operations that have completed. -/
structure SizeSys where
  size : ℕ
  jobs : List ExtendJob
  ends : List ℕ

/-- What a call meets: the flags of the inode, and whether the promotion succeeds. -/
structure InlineEnv where
  inline : Bool := false
  promoting : Bool := false
  promoted : Bool := true

inductive SizeStep
  | call (op : ExtendOp) (newEnd : ℕ)
  | next (i : ℕ) (env : InlineEnv)

/-- The operation completes and leaves `size`. -/
def SizeSys.finish (s : SizeSys) (i : ℕ) (job : ExtendJob) (size : ℕ) : SizeSys :=
  { size, jobs := s.jobs.eraseIdx i, ends := job.newEnd :: s.ends }

/-- The next call of the operation `job`, which is at `i`. -/
def callNext (s : SizeSys) (i : ℕ) (env : InlineEnv) (job : ExtendJob) : Option SizeSys :=
  match job.calls with
  | [] => none
  | .probe :: rest =>
    if !env.inline then some { s with jobs := s.jobs.set i { job with calls := rest } }
    else if env.promoting then some { s with jobs := s.jobs.eraseIdx i }
    else
      let job := { job with calls := .mark :: .flip :: rest, snap := s.size }
      some { s with jobs := s.jobs.set i job }
  | .mark :: rest =>
    some { s with size := job.snap, jobs := s.jobs.set i { job with calls := rest } }
  | .flip :: rest =>
    some { s with
      size := job.snap
      jobs := if env.promoted then s.jobs.set i { job with calls := rest } else s.jobs.eraseIdx i }
  | .read :: rest =>
    some { s with jobs := s.jobs.set i { job with calls := rest, seen := s.size } }
  | .look :: rest =>
    some (if job.newEnd ≤ s.size then s.finish i job s.size
      else { s with jobs := s.jobs.set i { job with calls := rest, seen := s.size } })
  | .set :: _ => some (s.finish i job (job.set s.size))

def sizeStep (s : SizeSys) : SizeStep → Option SizeSys
  | .call op newEnd => some { s with jobs := s.jobs ++ [⟨op, newEnd, op.calls, 0, 0⟩] }
  | .next i env => s.jobs[i]?.bind (callNext s i env)

/-- The size that the next call stores in place of the file's. -/
def ExtendJob.replaces (job : ExtendJob) : Option ℕ :=
  match job.calls with
  | .mark :: _ | .flip :: _ => some job.snap
  | .set :: _ => if job.op.absolute ∧ job.seen < job.newEnd then some job.newEnd else none
  | _ => none

/-- The size that an operation stores in place of the file's is not below it. -/
def Grows (s : SizeSys) : SizeStep → Prop
  | .call .. => True
  | .next i _ => ∀ job ∈ s.jobs[i]?, ∀ size ∈ job.replaces, s.size ≤ size

instance (s : SizeSys) : DecidablePred (Grows s)
  | .call .. => inferInstanceAs (Decidable True)
  | .next i _ => inferInstanceAs (Decidable (∀ job ∈ s.jobs[i]?, ∀ size ∈ job.replaces, _))

/-- The size is the largest of the ends and of what it was at first, and no operation has read a
larger one. -/
structure SizeInv (size₀ : ℕ) (s : SizeSys) : Prop where
  size : s.size = s.ends.foldr max size₀
  read : ∀ job ∈ s.jobs, job.seen ≤ s.size ∧ job.snap ≤ s.size

variable {s t : SizeSys} {a : SizeStep} {size₀ size : ℕ} {i : ℕ} {job : ExtendJob} {env : InlineEnv}

theorem size_le_iff (h : sizeStep s a = some t) : s.size ≤ t.size ↔ Grows s a := by
  cases a with
  | call =>
    cases h
    simp [Grows]
  | next =>
    obtain ⟨job, hjob, hnext⟩ := bind_eq_some_iff.mp h
    simp only [Grows, hjob, mem_some_iff, forall_eq', ExtendJob.replaces]
    unfold callNext at hnext
    split at hnext
    · cases hnext
    · split_ifs at hnext <;> cases hnext <;> simp_all
    · cases hnext
      simp_all
    · cases hnext
      simp_all
    · cases hnext
      simp_all
    · split_ifs at hnext <;> cases hnext <;> simp_all [SizeSys.finish]
    · next hcalls =>
      cases hnext
      simp only [hcalls, SizeSys.finish, ExtendJob.set]
      cases job.op.absolute
      · exact iff_of_true (le_max_left _ _) (by simp)
      · rcases Nat.lt_or_ge job.seen job.newEnd with hseen | hseen
        · simp [hseen, hseen.not_ge]
        · simp [hseen, hseen.not_gt]

namespace SizeInv

variable (h : SizeInv size₀ s)

include h

theorem finish (hsize : size = max job.newEnd s.size) : SizeInv size₀ (s.finish i job size) := by
  refine ⟨hsize.trans (by rw [h.size]; rfl), fun j hj => ?_⟩
  obtain ⟨hseen, hsnap⟩ := h.read j (mem_of_mem_eraseIdx hj)
  have hle : s.size ≤ size := hsize ▸ le_max_right _ _
  exact ⟨hseen.trans hle, hsnap.trans hle⟩

theorem setJob (hseen : job.seen ≤ s.size) (hsnap : job.snap ≤ s.size) :
    SizeInv size₀ { s with jobs := s.jobs.set i job } :=
  ⟨h.size, forall_mem_set h.read ⟨hseen, hsnap⟩⟩

theorem eraseJob : SizeInv size₀ { s with jobs := s.jobs.eraseIdx i } :=
  ⟨h.size, fun j hj => h.read j (mem_of_mem_eraseIdx hj)⟩

theorem callNext (hjob : s.jobs[i]? = some job) (hok : ∀ n ∈ job.replaces, s.size ≤ n)
    (hnext : callNext s i env job = some t) : SizeInv size₀ t := by
  obtain ⟨hseen, hsnap⟩ := h.read job (mem_of_getElem? hjob)
  -- A promotion stores the size that the file has.
  have hsame (hput : job.snap ∈ job.replaces) : s.size = job.snap := (hok _ hput).antisymm hsnap
  unfold PnfsLattice.callNext at hnext
  split at hnext
  · cases hnext
  · split_ifs at hnext <;> cases hnext
    · exact h.setJob hseen hsnap
    · exact h.eraseJob
    · exact h.setJob hseen le_rfl
  · next hcalls =>
    cases hnext
    rw [← hsame (by simp [ExtendJob.replaces, hcalls])]
    exact h.setJob hseen le_rfl
  · next hcalls =>
    cases hnext
    rw [← hsame (by simp [ExtendJob.replaces, hcalls])]
    split_ifs
    · exact h.setJob hseen le_rfl
    · exact h.eraseJob
  · cases hnext
    exact h.setJob le_rfl hsnap
  · split_ifs at hnext with henough <;> cases hnext
    · exact h.finish (max_eq_right henough).symm
    · exact h.setJob le_rfl hsnap
  · next hcalls =>
    cases hnext
    refine h.finish ?_
    unfold ExtendJob.set
    split_ifs with habs henough
    · omega
    · have hgrows := hok job.newEnd
        (by simp [ExtendJob.replaces, hcalls, habs, Nat.lt_of_not_le henough])
      omega
    · omega

theorem step (hok : Grows s a) (hst : sizeStep s a = some t) : SizeInv size₀ t := by
  cases a with
  | call =>
    cases hst
    exact ⟨h.size,
      forall_mem_append.mpr ⟨h.read, forall_mem_singleton.mpr ⟨Nat.zero_le _, Nat.zero_le _⟩⟩⟩
  | next =>
    obtain ⟨job, hjob, hnext⟩ := bind_eq_some_iff.mp hst
    exact h.callNext hjob (hok job hjob) hnext

end SizeInv

/-- A step lets the size shrink just if it stores a smaller one in its place; in a run without such
a step the size is the largest of what it was at first and the ends of the completed operations. -/
theorem size_extends (size₀ : ℕ) (s : SizeSys) :
    (∀ a t, sizeStep s a = some t → (s.size ≤ t.size ↔ Grows s a)) ∧
    (Reachable (· = ⟨size₀, [], []⟩) sizeStep Grows s → s.size = s.ends.foldr max size₀) := by
  refine ⟨fun a t => size_le_iff, fun h => ?_⟩
  have hinv : SizeInv size₀ s := by
    refine h.invariant ?_ fun s a t hi hok hst => hi.step hok hst
    rintro s rfl
    exact ⟨rfl, forall_mem_nil _⟩
  exact hinv.size

/-- An ALLOCATE up to byte 300 reads the size and promotes the file, a WRITE up to byte 200 runs
to its end, and the setattr of the ALLOCATE follows. -/
def writeWithinAllocate : List SizeStep :=
  [.call .allocate 300, .next 0 {}, .next 0 { inline := true }, .call .write 200, .next 0 {},
   .next 0 {}, .next 1 {}, .next 1 {}, .next 1 {}, .next 1 {}, .next 0 {}]

theorem size_extends_write :
    (exec sizeStep ⟨0, [], []⟩ writeWithinAllocate).map SizeSys.size =
      some ([300, 200].foldr max 0) := by
  have hrun : Reachable (· = ⟨0, [], []⟩) sizeStep Grows ⟨300, [], [300, 200]⟩ :=
    .run _ writeWithinAllocate rfl
  exact congrArg some ((size_extends 0 _).2 hrun)

/-- The steps of an ALLOCATE up to byte 100, with those of a WRITE up to byte 200 between its read
and its setattr. -/
def allocateAroundWrite : List SizeStep :=
  [.call .allocate 100, .next 0 {}, .next 0 {}, .call .write 200, .next 1 {}, .next 1 {},
   .next 1 {}, .next 1 {}, .next 0 {}]

theorem allocate_shrinks :
    (exec sizeStep ⟨0, [], []⟩ (allocateAroundWrite.take 8)).map SizeSys.size = some 200 ∧
      (exec sizeStep ⟨0, [], []⟩ allocateAroundWrite).map SizeSys.size = some 100 :=
  ⟨rfl, rfl⟩

end PnfsLattice
