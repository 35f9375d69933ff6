import PnfsLattice.Catalogue.Memdb

/-!
# What a successful catalogue call has found and done

One lemma for each call that changes the namespace: what its checks have established, and
the catalogue it leaves. Everything else about a call is derived from these.
-/

namespace PnfsLattice

open Lib Option

variable {m m' : Memdb} {now : ℕ}

theorem memNsCreate_ok {a child} (h : memNsCreate now a m = .ok (child, m')) :
    (∃ p, m.inodeFind a.parent = some p ∧ p.type = .dir) ∧
      m.direntFind a.parent a.name = none ∧ child = a.child m.nextFileid now ∧
      ∃ m₁, m₁ = (({ m with nextFileid := m.nextFileid + 1 } : Memdb).inodeStore child).direntSet
          a.parent a.name m.nextFileid a.type ∧
        m' = (if a.type = .dir then m₁.inodeModify a.parent nlinkInc else m₁).inodeModify a.parent
          (parentTouch now) := by
  unfold memNsCreate at h
  split at h
  · cases h
  split at h
  · cases h
  next p hp =>
    split at h
    · cases h
    next hdir =>
      split at h
      · cases h
      next hfree =>
        split at h
        · cases h
        cases h
        exact ⟨⟨p, hp, by simpa using hdir⟩, by simpa using hfree, rfl, _, rfl, rfl⟩

theorem memNsCreateWide_ok {alloc a} (h : memNsCreateWide now alloc a m = .ok m') :
    (∃ p, m.inodeFind a.parentFileid = some p ∧ p.type = .dir) ∧
      m.direntFind a.parentFileid a.name = none ∧ m.inodeFind a.child.fileid = none ∧
      a.child.parentFileid = a.parentFileid ∧ a.child.type = .reg ∧
      ∃ m₁, m₁ = (m.inodeStore a.child).direntSet a.parentFileid a.name a.child.fileid
          a.child.type ∧
        m' = ({ m₁ with stripes := a.stripe :: m₁.stripes } : Memdb).inodeModify a.parentFileid
          (parentTouch now) := by
  unfold memNsCreateWide at h
  split at h
  · cases h
  next hok =>
    split at h
    · cases h
    split at h
    · cases h
    next p hp =>
      split at h
      · cases h
      next hdir =>
        split at h
        · cases h
        next hfree =>
          split at h
          · cases h
          cases h
          simp only [CreateWideArgs.ok, Bool.not_eq_true, Bool.not_eq_false', Bool.and_eq_true,
            decide_eq_true_eq] at hok
          simp only [Bool.or_eq_true, not_or, not_isSome_iff_eq_none] at hfree
          exact ⟨⟨p, hp, by simpa using hdir⟩, hfree.1, hfree.2, hok.1.1.1.1.1.1.1.2,
            hok.1.1.1.1.1.1.2, _, rfl, rfl⟩

variable {name : Name}

variable {parent : CatFileid}

theorem memNsLink_ok {target} (h : memNsLink now parent name target m = .ok m') :
    ∃ p t, m.inodeFind parent = some p ∧ p.type = .dir ∧ m.direntFind parent name = none ∧
      m.inodeFind target = some t ∧ t.type ≠ .dir ∧
      m' = ((m.direntSet parent name target t.type).inodeModify target
        fun t => linkTouch now (nlinkInc t)).inodeModify parent (parentTouch now) := by
  unfold memNsLink at h
  split at h
  · cases h
  split at h
  next p t hp ht =>
    split at h
    · cases h
    next hdir =>
      split at h
      · cases h
      next hfile =>
        split at h
        · cases h
        next hfree =>
          split at h
          · cases h
          cases h
          exact ⟨p, t, hp, by simpa using hdir, by simpa using hfree, ht, hfile, rfl⟩
  next => cases h

/-- What a remove does: the entry dangles, or an empty directory, the last link of a file or
one of several links goes. -/
inductive Unlinking (now : ℕ) (parent : CatFileid) (name : Name) (d : MemdbDirent) (gc : GcPlan)
    (m : Memdb) : Bool → Memdb → Prop
  | dangling (hc : m.inodeFind d.childFileid = none) :
      Unlinking now parent name d gc m false (m.direntDrop parent name)
  | dir {c : MdsInode} (hc : m.inodeFind d.childFileid = some c) (ht : c.type = .dir)
      (hempty : m.dirHasEntries d.childFileid = false) :
      Unlinking now parent name d gc m true
        ((unlinkChild now d.childFileid true gc (m.direntDrop parent name)).inodeModify parent
          nlinkDec)
  | file {c : MdsInode} (hc : m.inodeFind d.childFileid = some c) (ht : c.type ≠ .dir) :
      Unlinking now parent name d gc m (c.nlink ≤ 1)
        (unlinkChild now d.childFileid (c.nlink ≤ 1) gc (m.direntDrop parent name))

theorem unlinkLocked_ok {guard gc final}
    (h : unlinkLocked now parent name guard gc m = .ok (final, m')) :
    ∃ d m₁, m.direntFind parent name = some d ∧ (∀ g ∈ guard, d.childFileid = g.fileid) ∧
      Unlinking now parent name d gc m final m₁ ∧ m' = m₁.inodeModify parent (parentTouch now) ∧
      ∀ g ∈ guard, ∀ c, m.inodeFind d.childFileid = some c → c.type ≠ .dir →
        decide (g.nlink ≤ 1) = final := by
  unfold unlinkLocked at h
  split at h
  · cases h
  next d hd =>
    split at h
    · cases h
    next hguard =>
      have hsame : ∀ g ∈ guard, d.childFileid = g.fileid := by
        rintro g rfl
        simpa using hguard
      split at h
      next hc =>
        cases h
        exact ⟨d, _, hd, hsame, .dangling hc, rfl, fun g _ c hc' => by rw [hc] at hc'; cases hc'⟩
      next c hc =>
        dsimp only at h
        split at h
        · cases h
        next hempty =>
          split at h
          · cases h
          next hstale =>
            split at h
            · cases h
            cases h
            refine ⟨d, _, hd, hsame, ?_, rfl, ?_⟩
            · by_cases ht : c.type = .dir
              · simp only [ht, decide_true, Bool.true_or, if_true]
                exact .dir hc ht (by simpa [ht] using hempty)
              · simp only [ht, decide_false, Bool.false_or, Bool.false_eq_true, if_false]
                exact .file hc ht
            · rintro g rfl _ hc' ht'
              obtain rfl := mem_unique hc hc'
              simpa [ht'] using hstale

/-- What a RENAME does: nothing if both names are links of one file, or the entry moves, to a
free name or to one whose child goes. -/
inductive Renaming (now : ℕ) (src : MemdbDirent) (dp : CatFileid) (dn : Name) (nsFlags : UInt32)
    (m : Memdb) : Memdb → Prop
  | noop {dst : MemdbDirent} (hdst : m.direntFind dp dn = some dst)
      (hsame : dst.childFileid = src.childFileid) : Renaming now src dp dn nsFlags m m
  | free (hfree : m.direntFind dp dn = none) :
      Renaming now src dp dn nsFlags m (renameMove now src (m.childIsDir src) dp dn m)
  | victim {dst : MemdbDirent} (hdst : m.direntFind dp dn = some dst)
      (hne : dst.childFileid ≠ src.childFileid)
      (hempty : m.childIsDir dst = true → m.dirHasEntries dst.childFileid = false) :
      Renaming now src dp dn nsFlags m (renameMove now src (m.childIsDir src) dp dn
        ((renameDropVictim now nsFlags (m.childIsDir dst) dst m).direntDrop dp dn))

variable {sp dp : CatFileid} {sn dn : Name} {nsFlags : UInt32}

theorem renameLocked_ok (h : renameLocked now sp sn dp dn nsFlags m = .ok m') :
    ∃ src q, m.direntFind sp sn = some src ∧ m.inodeFind dp = some q ∧ q.type = .dir ∧
      Renaming now src dp dn nsFlags m m' := by
  unfold renameLocked renameCheck at h
  by_cases hnotdir : m.parentNotDir sp || m.parentNotDir dp
  · rw [if_pos hnotdir] at h
    cases h
  rw [if_neg hnotdir] at h
  cases hsrc : m.direntFind sp sn with
  | none =>
    rw [hsrc] at h
    cases h
  | some src =>
    rw [hsrc] at h
    cases hdp : m.inodeFind dp with
    | none =>
      simp only [hdp, isNone_none, if_true] at h
      cases h
    | some q =>
      have hq : q.type = .dir := by
        simp only [Memdb.parentNotDir, hdp, any_some, Bool.or_eq_true,
          decide_eq_true_eq, not_or, not_not] at hnotdir
        exact hnotdir.2
      simp only [hdp, isNone_some, Bool.false_eq_true, if_false] at h
      refine ⟨src, q, rfl, rfl, hq, ?_⟩
      cases hdst : m.direntFind dp dn with
      | none =>
        simp only [hdst, Bool.false_eq_true, if_false] at h
        cases h
        exact .free hdst
      | some dst =>
        simp only [hdst] at h
        by_cases hsame : dst.childFileid = src.childFileid
        · simp only [hsame, if_true] at h
          cases h
          exact .noop hdst hsame
        · -- Past the checks the victim is a file, or a directory without entries.
          have hpast : (m.childIsDir dst = true → m.dirHasEntries dst.childFileid = false) ∧
              m' = renameMove now src (m.childIsDir src) dp dn
                ((renameDropVictim now nsFlags (m.childIsDir dst) dst m).direntDrop dp dn) := by
            cases hdd : m.childIsDir dst <;> cases hsd : m.childIsDir src <;>
              cases he : m.dirHasEntries dst.childFileid <;> simp_all
          obtain ⟨hempty, rfl⟩ := hpast
          exact .victim hdst hsame hempty

theorem memNsRenameFlags_ok (h : memNsRenameFlags now sp sn dp dn nsFlags m = .ok m') :
    ∃ src q, m.direntFind sp sn = some src ∧ m.inodeFind dp = some q ∧ q.type = .dir ∧
      Renaming now src dp dn nsFlags m m' := by
  unfold memNsRenameFlags at h
  split at h
  · cases h
  · exact renameLocked_ok h

/-- The delete-at-ack submit: the name goes and the file is marked for the drainer. -/
theorem enqueueUnlink_ok {dir child gen}
    (h : memRemovePendingEnqueueUnlink dir name child gen m = .ok m') :
    ∃ d ino, m.direntFind dir name = some d ∧ d.childFileid = child ∧
      m.inodeFind child = some ino ∧
      m' = ((m.inodeModify child (setFlag iflagDeletePending)).direntDrop dir
        name).removePendingInsert dir name child gen := by
  unfold memRemovePendingEnqueueUnlink at h
  split at h
  · cases h
  split at h
  · cases h
  next hname =>
    split at h
    · cases h
    next hgen =>
      split at h
      · cases h
      cases h
      simp only [all_eq_true, decide_eq_true_eq, not_forall, not_not] at hname hgen
      obtain ⟨d, hd, hchild⟩ := hname
      obtain ⟨ino, hino, -⟩ := hgen
      exact ⟨d, ino, hd, hchild, hino, rfl⟩

theorem gcInserts_eq (f : CatFileid) (hint : UInt32) (es : List DsMapEntry) (m : Memdb) :
    ∃ rows seq, es.foldl (fun m e => m.gcInsert f hint e) m =
      { m with gc := rows, nextGcSeq := seq } ∧ ∀ r ∈ rows, r ∈ m.gc ∨ r.fileid = f := by
  induction es generalizing m with
  | nil => exact ⟨m.gc, _, rfl, fun _ => .inl⟩
  | cons e _ ih =>
    obtain ⟨rows, seq, heq, hrows⟩ := ih _
    refine ⟨rows, seq, heq, fun r hr => ?_⟩
    rcases hrows r hr with hr | hr
    · rcases List.mem_cons.mp hr with rfl | hr
      · exact .inr rfl
      · exact .inl hr
    · exact .inr hr

/-- Everything but the inodes. -/
def Memdb.bare (m : Memdb) : Memdb := { m with inodes := [] }

theorem bare_renameDropVictim (nsFlags : UInt32) (dstIsDir : Bool) (dst : MemdbDirent)
    (m : Memdb) : (renameDropVictim now nsFlags dstIsDir dst m).bare = m.bare := by
  unfold renameDropVictim
  repeat' split
  all_goals rfl

theorem bare_renameMove (src : MemdbDirent) (srcIsDir : Bool) (dp : CatFileid) (dn : Name)
    (m : Memdb) : (renameMove now src srcIsDir dp dn m).bare =
      ((m.direntDrop src.parent src.name).direntSet dp dn src.childFileid src.childType).bare := by
  unfold renameMove
  repeat' split
  all_goals rfl

end PnfsLattice
