import PnfsLattice.Deleg.Exclusive

/-!
# What a recall leaves

`deleg_recall_file` promises to recall all delegations other clients hold on a file. The
walk that detaches them stops after `DELEG_RECALL_MAX_PER_FILE`, in the belief that a file
cannot have more of them. It can: an OPEN is granted a delegation beside those its own
client already holds on the file, so that one client collects one with every OPEN.
-/

namespace PnfsLattice

open Lib List Option

section Detach

variable (fileid : Fileid) (clientid : Clientid)

/-- The walk detaches the first `cap` conflicting grants and keeps the others, in order. -/
theorem delegRecallDetach_spec (cap : ℕ) (es : List DelegEntry) :
    (delegRecallDetach fileid clientid cap es).2 =
        (es.filter (heldByOther fileid clientid)).take cap ∧
      (delegRecallDetach fileid clientid cap es).1.filter (heldByOther fileid clientid) =
        (es.filter (heldByOther fileid clientid)).drop cap ∧
      (delegRecallDetach fileid clientid cap es).1.filter
          (fun e => !heldByOther fileid clientid e) =
        es.filter fun e => !heldByOther fileid clientid e := by
  fun_induction delegRecallDetach fileid clientid cap es with
  | case1 => simp
  | case2 e _ h => simp [h]
  | case3 _ _ h _ _ _ heq ih | case4 _ _ _ h _ _ heq ih =>
    rw [heq] at ih
    simpa [h] using ih

variable (dt : DelegTable) (lostRevoked lostPending : List Other)

/-- The grant is in the revoked set and in the ledger of pending recalls. -/
def DelegTable.Notes (dt : DelegTable) (e : DelegEntry) : Prop :=
  ⟨e.stateid.other, e.clientid⟩ ∈ dt.revoked ∧ ⟨e.stateid, e.clientid, e.fileid⟩ ∈ dt.pending
deriving Decidable

/-- What a recall promises: no grant of another client on the file stays, those that went
are noted, and every other grant, of whatever file, is where it was. -/
def Recalled (dt dt' : DelegTable) : Prop :=
  (∀ e ∈ dt'.entries, heldByOther fileid clientid e = false) ∧
    (∀ e ∈ dt.entries, e ∉ dt'.entries → dt'.Notes e) ∧
    (dt'.entries.filter fun e => !heldByOther fileid clientid e) =
      dt.entries.filter fun e => !heldByOther fileid clientid e

/-- The allocations of the notes on a grant succeed, or the grant was noted before. -/
def Notable (e : DelegEntry) : Prop :=
  (e.stateid.other ∉ lostRevoked ∨ ⟨e.stateid.other, e.clientid⟩ ∈ dt.revoked) ∧
    (e.stateid.other ∉ lostPending ∨ ⟨e.stateid, e.clientid, e.fileid⟩ ∈ dt.pending)

theorem notes_delegRecallFile {e}
    (he : e ∈ (delegRecallDetach fileid clientid delegRecallMaxPerFile dt.entries).2) :
    (delegRecallFile dt fileid clientid lostRevoked lostPending).Notes e ↔
      Notable dt lostRevoked lostPending e := by
  simp only [DelegTable.Notes, Notable, delegRecallFile, List.mem_append, List.mem_map,
    List.mem_reverse, List.mem_filter, RevokedDeleg.mk.injEq, PendingRecall.mk.injEq,
    Bool.not_eq_true', List.contains_eq_mem, decide_eq_false_iff_not]
  refine and_congr (or_congr_left ⟨?_, fun h => ⟨e, ⟨he, h⟩, rfl, rfl⟩⟩)
    (or_congr_left ⟨?_, fun h => ⟨e, ⟨he, h⟩, rfl, rfl, rfl⟩⟩)
  · rintro ⟨d, ⟨-, hlost⟩, hother, -⟩
    exact hother ▸ hlost
  · rintro ⟨d, ⟨-, hlost⟩, hsid, -⟩
    exact hsid ▸ hlost

/-- Nothing is left to recall exactly if the walk did not reach its bound. -/
theorem cleared_iff : (∀ e ∈ (delegRecallFile dt fileid clientid lostRevoked lostPending).entries,
        heldByOther fileid clientid e = false) ↔
      (dt.entries.filter (heldByOther fileid clientid)).length ≤ delegRecallMaxPerFile := by
  have hspec := (delegRecallDetach_spec fileid clientid delegRecallMaxPerFile dt.entries).2.1
  rw [← drop_eq_nil_iff, ← hspec]
  simp [delegRecallFile]

/-- **What a recall clears.**  A recall does all that it promises exactly if other clients
hold at most `DELEG_RECALL_MAX_PER_FILE` delegations on the file, and no allocation of a
note fails. -/
theorem recall_clears_conflicts :
    Recalled fileid clientid dt (delegRecallFile dt fileid clientid lostRevoked lostPending) ↔
      (dt.entries.filter (heldByOther fileid clientid)).length ≤ delegRecallMaxPerFile ∧
        ∀ e ∈ dt.entries, heldByOther fileid clientid e = true →
          Notable dt lostRevoked lostPending e := by
  obtain ⟨htargets, -, hothers⟩ :=
    delegRecallDetach_spec fileid clientid delegRecallMaxPerFile dt.entries
  rw [Recalled, cleared_iff]
  refine and_congr_right fun hle =>
    ⟨fun h e he hheld => ?_, fun h => ⟨fun e he hgone => ?_, hothers⟩⟩
  all_goals rw [take_of_length_le hle] at htargets
  · -- A conflicting grant has gone, for none is left.
    have hgone : e ∉ (delegRecallFile dt fileid clientid lostRevoked lostPending).entries :=
      fun hin => by simpa [hheld] using (cleared_iff ..).mpr hle e hin
    refine (notes_delegRecallFile fileid clientid dt lostRevoked lostPending ?_).mp
      (h.1 e he hgone)
    simp [htargets, he, hheld]
  · -- A grant that has gone is a conflicting one.
    have hheld : heldByOther fileid clientid e = true := by
      by_contra hfree
      have hmem : e ∈ dt.entries.filter fun e => !heldByOther fileid clientid e := by
        simpa [he] using hfree
      exact hgone (mem_of_mem_filter (hothers ▸ hmem))
    refine (notes_delegRecallFile fileid clientid dt lostRevoked lostPending ?_).mpr
      (h e he hheld)
    simp [htargets, he, hheld]

end Detach

/-! ## A client with more delegations than a recall clears -/

/-- An OPEN for reading by client 1, from its arrival to the grant. -/
def openAndGrant : List DelegOp :=
  [.arrive 0 ⟨1, [1], 5, 1, 0⟩, .publish 0 true, .recallFile 0 [] [], .probeWriter 0,
   .probeConflict 0, .grant 0 true]

/-- After 65 OPENs of a file by one client, a recall for another client leaves the first of
the delegations in place. -/
theorem recall_leaves_grant : ∃ s, Reachable DelegInit delegStep anyStep s ∧
      ¬ Recalled 5 2 s.dt (delegRecallFile s.dt 5 2 [] []) ∧
      delegCheckConflict (delegRecallFile s.dt 5 2 [] []) 5 2 = true := by
  have hend : (exec delegStep delegStart (List.replicate 65 openAndGrant).flatten).map
      (fun s => delegCheckConflict (delegRecallFile s.dt 5 2 [] []) 5 2) = some true := by
    decide +kernel
  obtain ⟨s, hrun, hleft⟩ := map_eq_some_iff.mp hend
  refine ⟨s, (Reachable.start delegStart_init).exec hrun, fun h => ?_, hleft⟩
  obtain ⟨e, he, hheld⟩ := any_eq_true.mp hleft
  simp [h.1 e he] at hheld

end PnfsLattice
