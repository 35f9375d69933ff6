import PnfsLattice.Cluster.Stream

/-!
# How a migration ends

After the freeze `migration_initiate` has eight exits, each with its own clean-up, and other
threads write the subtree map meanwhile. The exits before the hand-over set the entry to ACTIVE
again, without looking at the answer; those from the hand-over on do not.
-/

namespace PnfsLattice

open Lib List

/-- The migration makes a step, or other threads have written the map. -/
inductive EndOp
  | migrate (env : StreamEnv)
  | others (map : List SubtreeEntry)

def endStep (s : StreamSys) : EndOp → Option StreamSys
  | .migrate env => migrateStep s env s.job
  | .others map => some { s with map }

def StreamSys.entry (s : StreamSys) : Option SubtreeEntry := findExact s.map s.args.path

/-- The subtree is the source's and is MIGRATING. -/
def StreamSys.OnSource (s : StreamSys) : Prop :=
  ∃ e, s.entry = some e ∧ e.ownerMdsId = s.args.selfId ∧ e.state = .migrating

/-- The freeze has just succeeded. -/
def PastFreeze (s : StreamSys) : Prop := s.job = .collect [(s.args.root, 0)] [] ∧ s.OnSource

/-- The fileids are registered as they were, and the entry is ACTIVE, with the owner that the
answer stands for. -/
def EndsClean (s₀ s : StreamSys) (ok : Bool) : Prop :=
  s.frozen ~ s₀.frozen ∧ ∃ e, s.entry = some e ∧ e.state = .active ∧
    e.ownerMdsId = if ok then s.args.destId else s.args.selfId

/-- The path is absolute, the membership lets the destination own subtrees, and no other
thread writes the entry. -/
def LeftAlone (s : StreamSys) : EndOp → Prop
  | .migrate env => s.args.path.head? = some 47 ∧ env.roleOk = true
  | .others map => findExact map s.args.path = s.entry

instance (s : StreamSys) : (op : EndOp) → Decidable (LeftAlone s op)
  | .migrate _ => inferInstanceAs (Decidable (_ ∧ _))
  | .others _ => inferInstanceAs (Decidable (_ = _))

/-! ## The stages -/

/-- What is registered at a stage. -/
def StreamJob.holds : StreamJob → List CatFileid
  | .sendBegin fids | .stream fids _ _ | .sendFinish fids | .commitLookup fids | .transfer fids
  | .activeLookup fids | .activeSet fids | .junction fids | .unfreeze fids _
  | .rollback fids => fids
  | _ => []

/-- The subtree is the destination's. -/
def StreamJob.moved : StreamJob → Bool
  | .activeLookup _ | .activeSet _ | .junction _ => true
  | .unfreeze _ ok | .returned ok => ok
  | _ => false

/-- The entry is ACTIVE again. -/
def StreamJob.settled : StreamJob → Bool
  | .junction _ | .unfreeze _ _ | .returned _ => true
  | _ => false

/-- The version that was read is about to be used. -/
def StreamJob.versioned : StreamJob → Bool
  | .transfer _ | .activeSet _ | .rollbackSet => true
  | _ => false

/-- The freeze is over. -/
def StreamJob.late : StreamJob → Bool
  | .lookup | .freeze => false
  | _ => true

/-- What holds at each stage after the freeze. -/
structure EndInv (s₀ s : StreamSys) : Prop where
  late : s.job.late = true
  frozen : s.frozen ~ s₀.frozen ++ s.job.holds
  entry : ∃ e, s.entry = some e ∧
    e.ownerMdsId = (if s.job.moved then s.args.destId else s.args.selfId) ∧
    e.state = (if s.job.settled then .active else .migrating) ∧
    (s.job.versioned = true → e.version = s.version)

theorem unfreezeFileids_perm {fids frozen l} (h : l ~ frozen ++ fids) :
    unfreezeFileids fids l ~ frozen ++ [] := by
  induction fids generalizing l with
  | nil => exact h
  | cons f fids ih =>
    refine ih ((h.erase f).trans ?_)
    exact ((perm_middle.erase f).trans (by rw [erase_cons_head]))

theorem EndInv.migrate {s₀ s t env} (h : EndInv s₀ s) (habs : s.args.path.head? = some 47)
    (hrole : env.roleOk = true) (hst : migrateStep s env s.job = some t) : EndInv s₀ t := by
  obtain ⟨args, map, frozen, src, dest, job, version, muts, handedOver⟩ := s
  obtain ⟨hlate, hfrozen, e, he, howner, hstate, hversion⟩ := h
  have hexact : findExact map args.path = some e := he
  have hlook := subtreeMapLookup_of_findExact habs hexact
  -- A write at the version that was read goes through.
  have hset : ∀ {g : SubtreeEntry → SubtreeEntry}, (∀ e, (g e).path = e.path) →
      findExact (setEntry args.path g map) args.path = some (g e) :=
    fun hg => (findExact_of_set hg he _).trans (if_pos rfl)
  cases job with
  | lookup | freeze => cases hlate
  | collect | sendBegin | stream | sendFinish
  | junction =>
    simp only [migrateStep] at hst
    repeat' split at hst
    all_goals
      cases hst
      exact ⟨rfl, hfrozen, e, he, howner, hstate, Bool.noConfusion⟩
  | freezeFileids fids =>
    simp only [migrateStep] at hst
    split at hst <;> cases hst
    · exact ⟨rfl, by simpa [StreamJob.holds] using hfrozen.append_right fids, e, he,
        howner, hstate, Bool.noConfusion⟩
    · exact ⟨rfl, hfrozen, e, he, howner, hstate, Bool.noConfusion⟩
  | commitLookup | activeLookup | rollbackLookup =>
    simp only [migrateStep, hlook] at hst
    cases hst
    exact ⟨rfl, hfrozen, e, he, howner, hstate, fun _ => rfl⟩
  | transfer =>
    obtain rfl := hversion rfl
    have hmig : e.state = .migrating := hstate
    simp only [migrateStep, transferOwnerIfMigrating, hrole, hexact, hmig, Bool.not_true,
      Bool.false_eq_true, ne_eq, not_true_eq_false, if_false] at hst
    cases hst
    exact ⟨rfl, hfrozen, _, hset fun _ => rfl, rfl, hstate, Bool.noConfusion⟩
  | activeSet | rollbackSet =>
    obtain rfl := hversion rfl
    simp only [migrateStep, subtreeMapSetState, hexact, ne_eq, not_true_eq_false, if_false] at hst
    cases hst
    exact ⟨rfl, hfrozen, _, hset fun _ => rfl, howner, rfl, Bool.noConfusion⟩
  | unfreeze | rollback =>
    cases hst
    exact ⟨rfl, unfreezeFileids_perm hfrozen, e, he, howner, hstate, Bool.noConfusion⟩
  | returned => cases hst

/-- **An undisturbed migration ends clean**: from the freeze on, in every run in which no other
thread writes the entry and the destination may own subtrees, whatever the transport, the
catalogue and the allocator answer. -/
theorem migration_ends_clean {s₀ s : StreamSys} {ok : Bool} (h₀ : PastFreeze s₀)
    (h : Reachable (Eq s₀) endStep LeftAlone s) (hret : s.job = .returned ok) :
    EndsClean s₀ s ok := by
  have hinv : EndInv s₀ s := by
    refine h.invariant ?_ ?_
    · rintro _ rfl
      obtain ⟨hjob, e, he, howner, hstate⟩ := h₀
      refine ⟨?_, by simp [hjob, StreamJob.holds], e, he, ?_⟩ <;> rw [hjob]
      · rfl
      · exact ⟨howner, hstate, Bool.noConfusion⟩
    · intro s op t hs hok hst
      cases op with
      | migrate => exact hs.migrate hok.1 hok.2 hst
      | others =>
        cases hst
        obtain ⟨hlate, hfrozen, e, he, hrest⟩ := hs
        exact ⟨hlate, hfrozen, e, hok.trans he, hrest⟩
  obtain ⟨-, hfrozen, e, he, howner, hstate, -⟩ := hinv
  rw [hret] at hfrozen howner hstate
  exact ⟨by simpa [StreamJob.holds] using hfrozen, e, he, hstate, howner⟩

/-- The node after the freeze. -/
def frozenExample : StreamSys :=
  (exec streamStep oneFileExample [smooth, smooth]).getD oneFileExample

/-- A step that meets no failure. -/
def smoothEnd : EndOp :=
  .migrate { ok := true, roleOk := true, visitOk := true, room := fullRoom, now := 1 }

theorem pastFreeze_frozenExample : PastFreeze frozenExample := ⟨rfl, _, rfl, rfl, rfl⟩

def failedSend : EndOp :=
  .migrate { ok := false, roleOk := true, visitOk := true, room := fullRoom, now := 1 }

/-- A migration without failures, and one that cannot send the file in the root directory. -/
theorem migration_ends_clean_sendFails :
    (∃ s, exec endStep frozenExample (replicate 15 smoothEnd) = some s ∧
      s.job = .returned true ∧ EndsClean frozenExample s true) ∧
    ∃ s, exec endStep frozenExample
        (replicate 6 smoothEnd ++ failedSend :: replicate 4 smoothEnd) = some s ∧
      s.job = .returned false ∧ EndsClean frozenExample s false := by
  constructor
  · exact ⟨_, rfl, rfl, migration_ends_clean pastFreeze_frozenExample
      (.run _ (replicate 15 smoothEnd) rfl) rfl⟩
  · exact ⟨_, rfl, rfl, migration_ends_clean pastFreeze_frozenExample
      (.run _ (replicate 6 smoothEnd ++ failedSend :: replicate 4 smoothEnd) rfl) rfl⟩

/-- Another thread writes the entry, with the state that it has, between the last lookup and the
transfer: the migration fails and the subtree stays MIGRATING. -/
theorem migration_leaves_migrating :
    ∃ map s, subtreeMapSetState rootPath .migrating 2 frozenExample.map = .ok map ∧
      exec endStep frozenExample
        (replicate 10 smoothEnd ++ .others map :: replicate 2 smoothEnd) = some s ∧
      s.job = .returned false ∧ s.entry.map SubtreeEntry.state = some .migrating :=
  ⟨_, _, rfl, rfl, rfl, rfl⟩

end PnfsLattice
