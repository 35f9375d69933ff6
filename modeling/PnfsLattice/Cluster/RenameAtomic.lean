import PnfsLattice.Cluster.RenameSteps

/-!
# The cross-shard rename is atomic

A rename whose journal rows are gone has left the file under exactly one of the two names,
and no step of the protocol takes a name from another file. Neither holds of every run: the
clean-up removes the source name whatever it is bound to by then, a commit writes over a
destination bound since it was looked up, and recovery deletes a row it saw prepared even if
it is committed by now.
-/

namespace PnfsLattice

open Lib List Option

section Step

variable {s s' : R2pcSys} {j : ℕ} {env : R2pcEnv} {job : R2pcJob}

/-! ## What a step takes away -/

theorem binding_initiateStep (hst : initiateStep s j env job = some s') (k : NameKey) :
    s'.cat.binding k = s.cat.binding k := by
  unfold initiateStep at hst
  repeat' split at hst
  all_goals
    cases hst
    try rfl

theorem binding_onPrepareStep (hst : onPrepareStep s j env job = some s') (k : NameKey) :
    s'.cat.binding k = s.cat.binding k := by
  unfold onPrepareStep at hst
  repeat' split at hst
  all_goals
    cases hst
    try rfl

theorem binding_recoverStep (hst : recoverStep s j job = some s') (k : NameKey) :
    s'.cat.binding k = s.cat.binding k := by
  unfold recoverStep at hst
  repeat' split at hst
  all_goals
    cases hst
    try rfl

theorem binding_cleanupSourceStep (hst : cleanupSourceStep s j env job = some s') (k : NameKey) :
    s'.cat.binding k = s.cat.binding k ∨ ∃ t rest, job = .cleanupDel t rest ∧ k = t.src := by
  unfold cleanupSourceStep at hst
  split at hst
  case h_2 t rest =>
    split at hst <;> cases hst
    next hdel =>
      by_cases hk : k = t.src
      · exact .inr ⟨t, rest, rfl, hk⟩
      · left
        rw [memDirentDel_ok hdel]
        exact (binding_direntDrop s.cat _ _ k).trans (if_neg hk)
    · exact .inl rfl
    · exact .inl rfl
  case h_4 =>
    split at hst <;> cases hst
    next hput => exact .inl (binding_congr (sameNames_memInodePut hput).dirents k)
    · exact .inl rfl
  all_goals
    repeat' split at hst
    all_goals
      cases hst
      try exact .inl rfl

theorem binding_onCommitStep (hst : onCommitStep s j env job = some s') (k : NameKey) :
    s'.cat.binding k = s.cat.binding k ∨ ∃ r type, job = .commitDirent r type ∧ k = r.dst := by
  unfold onCommitStep at hst
  split at hst
  case h_4 | h_7 =>
    split at hst <;> cases hst
    next hput => exact .inl (binding_congr (sameNames_memInodePut hput).dirents k)
    · exact .inl rfl
  case h_5 r type =>
    split at hst <;> cases hst
    next hput =>
      by_cases hk : k = r.dst
      · exact .inr ⟨r, type, rfl, hk⟩
      · exact .inl ((binding_memDirentPut hput k).trans (if_neg hk))
    · exact .inl rfl
  all_goals
    repeat' split at hst
    all_goals
      cases hst
      try exact .inl rfl

theorem R2pcInv.moved_of_jobStep (h : R2pcInv s) (hj : s.jobs[j]? = some job)
    (hst : r2pcJobStep s j env job = some s') {k f} (hk : s.cat.binding k = some f)
    (hgone : s'.cat.binding k ≠ some f) : job.moved = some f := by
  have hfits := h.jobs job (mem_of_getElem? hj)
  simp only [r2pcJobStep, or_eq_some_iff] at hst
  rcases hst with hst | ⟨-, hst | ⟨-, hst | ⟨-, hst | ⟨-, hst⟩⟩⟩⟩
  · exact absurd ((binding_initiateStep hst k).trans hk) hgone
  · rcases binding_cleanupSourceStep hst k with hsame | ⟨t, _, rfl, rfl⟩
    · exact absurd (hsame.trans hk) hgone
    · exact congrArg some (hfits.claims _ mem_cons_self f hk).symm
  · exact absurd ((binding_onPrepareStep hst k).trans hk) hgone
  · rcases binding_onCommitStep hst k with hsame | ⟨r, _, rfl, rfl⟩
    · exact absurd (hsame.trans hk) hgone
    · exact congrArg some (hfits.claims _ mem_cons_self f hk).symm
  · exact absurd ((binding_recoverStep hst k).trans hk) hgone

theorem R2pcInv.removesOnlyMoved {op} (h : R2pcInv s) (hst : r2pcStep s op = some s') :
    RemovesOnlyMoved s op s' := by
  cases op with
  | call => trivial
  | job =>
    simp only [r2pcStep, bind_eq_some_iff] at hst
    obtain ⟨job, hj, hst⟩ := hst
    exact fun k f hk hgone => ⟨job, hj, h.moved_of_jobStep hj hst hk hgone⟩
  | initiate | recover | crash =>
    cases hst
    rfl
  | onPrepare | onCommit | onAbort =>
    simp only [r2pcStep, ite_none_right_eq_some] at hst
    obtain ⟨-, hst⟩ := hst
    cases hst
    rfl

theorem R2pcInv.exactlyOneName (h : R2pcInv s) : ExactlyOneName s := by
  intro b hb hleft hsettled
  have hok := h.txns b hb hleft
  cases hdst : s.cat.names b.txn.dst b.txn.child with
  | false =>
    rcases hok.named with hsrc | hd
    · exact hsrc
    · cases hdst.symm.trans hd
  | true =>
    rcases hok.recorded (hok.decided hdst) with ⟨r, hr, hkey, -⟩ | hsrc
    · exact absurd (Prod.mk.inj hkey).1 (hsettled r hr)
    · exact hsrc

end Step

/-- **The cross-shard rename is atomic** in every run in which names are bound only where no
unfinished rename of another file claims them, and recovery deletes no commit record: a rename
that is settled has the file under one name, and no step takes a name from another file. -/
theorem rename_atomic {s : R2pcSys} (h : Reachable R2pcStart r2pcStep RespectsClaims s) :
    ExactlyOneName s ∧
      ∀ op t, r2pcStep s op = some t → RemovesOnlyMoved s op t := by
  have hinv : R2pcInv s :=
    h.invariant (P := R2pcInv) (fun _ h => .start h) fun _ _ _ h hok hst => h.step hok hst
  exact ⟨hinv.exactlyOneName, fun _ t hst => hinv.removesOnlyMoved hst⟩

/-- Every node idle over an empty catalogue. -/
def r2pcNew : R2pcSys :=
  { cat := memdbNew 0, journal := [], jobs := [], prepares := [], votes := [], commits := []
    acks := [], aborts := [], begun := [] }

/-- A step of job `j` at `now`, with a vote for the commit and an acknowledgement. -/
def r2pcJobAt (now j : ℕ) : R2pcOp := .job j { now, vote := some true, acked := true }

/-- A file in the root and a directory, and a rename of the file into it up to its record. -/
def renamePrepared : List R2pcOp :=
  [.call 1 (.create ⟨2, [97], .reg, 0o644, 0, 0⟩), .call 2 (.create ⟨2, [100], .dir, 0o755, 0, 0⟩),
    .initiate (2, [97]) (4, [98]), r2pcJobAt 3 0, r2pcJobAt 4 0, r2pcJobAt 5 0, r2pcJobAt 6 0]

/-- The participant votes for the commit, and the coordinator records it. -/
def renameCommitted (j : ℕ) : List R2pcOp :=
  [.onPrepare ⟨5, (2, [97]), (4, [98]), 3⟩, r2pcJobAt 7 j, r2pcJobAt 8 j, r2pcJobAt 9 j,
    r2pcJobAt 10 0, r2pcJobAt 11 0]

/-- The participant binds the destination name. -/
def renameBound (j : ℕ) : List R2pcOp :=
  [.onCommit 5, r2pcJobAt 12 j, r2pcJobAt 13 j, r2pcJobAt 14 j, r2pcJobAt 15 j, r2pcJobAt 16 j]

/-- The coordinator crashes after the commit record and the participant after it has bound the
name, and then recovery finishes the rename. -/
def renameRecovered : List R2pcOp :=
  renamePrepared ++ renameCommitted 1 ++ .crash 0 :: renameBound 2 ++ .crash 2 :: .recover ::
    (List.range 10).map fun i => r2pcJobAt (20 + i) 3

theorem rename_atomic_recovered :
    ∃ s, Reachable R2pcStart r2pcStep RespectsClaims s ∧ s.journal = [] ∧
      (∃ b ∈ s.begun, b.left = false ∧ s.cat.names b.txn.dst b.txn.child = true) ∧
      ExactlyOneName s ∧ ∀ op t, r2pcStep s op = some t → RemovesOnlyMoved s op t := by
  have hs : Reachable R2pcStart r2pcStep RespectsClaims _ := .run r2pcNew renameRecovered
    ⟨⟨0, rfl⟩, rfl, rfl, rfl, rfl, rfl, rfl, rfl, rfl⟩
  exact ⟨_, hs, rfl, ⟨_, mem_cons_self, rfl, rfl⟩, rename_atomic hs⟩

/-- After the commit the source name is removed and bound to a new file, before the
coordinator's clean-up. -/
def renameReused : List R2pcOp :=
  renamePrepared ++ renameCommitted 1 ++ renameBound 2 ++
    [r2pcJobAt 17 2, r2pcJobAt 18 2, r2pcJobAt 19 2, r2pcJobAt 20 0, .call 21 (.remove 2 [97]),
      .call 22 (.create ⟨2, [97], .reg, 0o644, 0, 0⟩)]

/-- Recovery reads the prepared row; it deletes it once it is the commit record and the name is
bound, and the coordinator crashes. -/
def renameForgotten : List R2pcOp :=
  renamePrepared ++ .recover :: renameCommitted 2 ++ renameBound 3 ++
    [r2pcJobAt 17 3, r2pcJobAt 18 3, r2pcJobAt 19 3, r2pcJobAt 20 1, r2pcJobAt 21 1, .crash 0]

/-- The clean-up removes the name of another file, and recovery leaves a file with both names
and no row. -/
theorem rename_not_atomic : (∃ s t, exec r2pcStep r2pcNew renameReused = some s ∧
      r2pcStep s (r2pcJobAt 23 0) = some t ∧ s.cat.binding (2, [97]) = some 6 ∧
      ¬RemovesOnlyMoved s (r2pcJobAt 23 0) t) ∧
    ∃ s, exec r2pcStep r2pcNew renameForgotten = some s ∧ s.journal = [] ∧ ¬ExactlyOneName s := by
  refine ⟨⟨_, _, rfl, rfl, rfl, fun h => ?_⟩, _, rfl, rfl, fun h => ?_⟩
  · obtain ⟨_, hjob, hmoved⟩ := h (2, [97]) 6 rfl (by decide)
    cases hjob
    cases hmoved
  · exact absurd (h _ mem_cons_self rfl (fun _ hr => nomatch hr)) (by decide)

end PnfsLattice
