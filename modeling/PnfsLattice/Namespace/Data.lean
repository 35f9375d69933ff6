import PnfsLattice.Namespace.Steps

/-!
# A named file keeps its data

The clean-up of a file — rows for the garbage collector, the stripe map, the inode — is
done after its last name has gone. The namespace without the doomed files shows when that
is so: a file is dead once it is no node of it, and dead files stay dead. REMOVE and RENAME
decide on a clean-up from a snapshot. If the snapshot still holds when the name goes, and no
LINK takes a doomed file, only dead files are cleaned up.
-/

namespace PnfsLattice

open Lib List Option Memdb Function PnfsLattice.Graph

/-! ## Dead files -/

/-- A file under a name has its inode, no row of it waits for the garbage collector, and its
stripe map has not been deleted. -/
def DataKept (s : NsSys) : Prop :=
  ∀ d ∈ s.cat.dirents, d.childType = .reg →
    (s.cat.inodeFind d.childFileid).isSome ∧ (∀ r ∈ s.cat.gc, r.fileid ≠ d.childFileid) ∧
      d.childFileid ∉ s.lost
deriving Decidable

/-- The fileid is taken, and is that of no file but a doomed one. -/
def Dead (m : Memdb) (f : CatFileid) : Prop :=
  f < m.nextFileid ∧ (m.graph true).node f = none

section Dead

variable {m m' : Memdb} {f : CatFileid}

theorem dead_of_inodeFind (hlt : f < m.nextFileid) (h : m.inodeFind f = none) : Dead m f :=
  ⟨hlt, by simp [h]⟩

theorem dead_of_doomed (hok : InodesOk m) {ino} (hi : m.inodeFind f = some ino)
    (hd : ino.doomed = true) : Dead m f := by
  have hhid := MdsInode.not_shown_of_doomed (hok.doomed f ino hi hd) hd
  exact ⟨hok.lt f ino hi, by simp [hi, Option.filter, hhid]⟩

theorem Dead.evolve (h : Dead m f) (hev : Evolves m m') : Dead m' f := by
  refine ⟨h.1.trans_le hev.next_le, ?_⟩
  cases hn : (m'.graph true).node f with
  | none => rfl
  | some =>
    -- A node would be that of an inode, which was there before and was not hidden.
    obtain ⟨ino', hi', hshown, -⟩ := inodeFind_of_node hn
    rcases hev.inode f ino' hi' with ⟨ino, hi, ht, -, hk⟩ | ⟨hle, -, -⟩
    · have hnone := h.2
      have hs : ino.shown true = true := by
        simp only [MdsInode.shown, Bool.not_true, Bool.false_or, Bool.or_eq_true,
          decide_eq_true_eq, Bool.not_eq_true'] at hshown ⊢
        rcases hshown with hdir | hlive
        · exact .inl (ht ▸ hdir)
        · refine .inr (Bool.eq_false_iff.mpr fun hd => ?_)
          simp only [MdsInode.doomed, Bool.or_eq_true, Bool.or_eq_false_iff] at hd hlive
          simpa [hlive] using hd.imp (hk _) (hk _)
      rw [node_of_inodeFind hi hs] at hnone
      cases hnone
    · exact absurd h.1 hle.not_gt

/-- Data goes from dead files only: new garbage rows are theirs, and so are the stripe maps
that have gone. -/
structure Spares (m m' : Memdb) : Prop where
  gc : ∀ r ∈ m'.gc, r ∈ m.gc ∨ Dead m' r.fileid
  stripes : ∀ t ∈ m.stripes, m'.stripeFind t.fileid = none → Dead m' t.fileid

theorem stripeFind_of_mem {t} (ht : t ∈ m.stripes) : m.stripeFind t.fileid ≠ none := by
  intro hnone
  exact findKey_eq_none.mp hnone t ht rfl

theorem Spares.of_tables (hgc : m'.gc = m.gc) (hst : m.stripes ⊆ m'.stripes) : Spares m m' := by
  refine ⟨fun r hr => .inl (hgc ▸ hr), fun t ht hnone => ?_⟩
  exact absurd hnone (stripeFind_of_mem (hst ht))

theorem Spares.of_dead (hdead : Dead m' f) (hgc : ∀ r ∈ m'.gc, r ∈ m.gc ∨ r.fileid = f)
    (hst : ∀ x, x ≠ f → m'.stripeFind x = m.stripeFind x) : Spares m m' := by
  refine ⟨fun r hr => ?_, fun t ht hnone => ?_⟩
  · rcases hgc r hr with hold | rfl
    · exact .inl hold
    · exact .inr hdead
  by_cases hf : t.fileid = f
  · exact hf ▸ hdead
  · rw [hst _ hf] at hnone
    exact absurd hnone (stripeFind_of_mem ht)

end Dead

/-! ## The calls -/

section Calls

variable {m m' : Memdb} {now : ℕ}

theorem unlinkChild_final (now : ℕ) (child : CatFileid) (gc : GcPlan) (m : Memdb) :
    (∀ r ∈ (unlinkChild now child true gc m).gc, r ∈ m.gc ∨ r.fileid = child) ∧
      (∀ x, x ≠ child → (unlinkChild now child true gc m).stripeFind x = m.stripeFind x) ∧
      (unlinkChild now child true gc m).inodeFind child = none := by
  obtain ⟨_, _, heq, hrows⟩ :=
    gcInserts_eq child _ _ _
  rw [unlinkChild, heq]
  refine ⟨hrows, fun x hx => ?_, ?_⟩
  · exact (findKey_eraseKey ..).trans (if_neg hx)
  · exact (m.inodeFind_inodeDrop child child).trans (if_pos rfl)

variable {name : Name}

variable {gc : GcPlan} {final : Bool} {dp : CatFileid} {dn : Name} {nsFlags : UInt32}
  {a : CreateArgs} {p : CatFileid}

/-- A remove either leaves the data alone, and then the child has other links, or it deletes
the child. -/
theorem Unlinking.data {parent d} (h : Unlinking now parent name d gc m final m') :
    (m'.gc = m.gc ∧ m'.stripes = m.stripes ∧
      ∀ c, m.inodeFind d.childFileid = some c → 1 < c.nlink ∧ final = false) ∨
    ((∀ r ∈ m'.gc, r ∈ m.gc ∨ r.fileid = d.childFileid) ∧
      (∀ x, x ≠ d.childFileid → m'.stripeFind x = m.stripeFind x) ∧
      m'.inodeFind d.childFileid = none) := by
  have hfinal : (∀ r ∈ _, r ∈ m.gc ∨ r.fileid = d.childFileid) ∧
      (∀ x, x ≠ d.childFileid → _ = m.stripeFind x) ∧ _ :=
    unlinkChild_final now _ gc (m.direntDrop parent name)
  cases h with
  | dangling hc =>
    refine .inl ⟨rfl, rfl, fun c hc' => ?_⟩
    cases hc.symm.trans hc'
  | dir => exact .inr ⟨hfinal.1, hfinal.2.1, inodeModify_of_none _ (fun _ => rfl) hfinal.2.2⟩
  | @file c hc =>
    by_cases hlast : c.nlink ≤ 1
    · rw [decide_eq_true hlast]
      exact .inr hfinal
    · rw [decide_eq_false hlast]
      refine .inl ⟨rfl, rfl, fun _ hc' => ?_⟩
      obtain rfl := mem_unique hc hc'
      exact ⟨by omega, rfl⟩

theorem Renaming.tables {src} (h : Renaming now src dp dn nsFlags m m') :
    m'.gc = m.gc ∧ m'.stripes = m.stripes := by
  cases h with
  | noop => exact ⟨rfl, rfl⟩
  | free =>
    have hmove := @bare_renameMove now src (m.childIsDir src) dp dn m
    exact ⟨(congrArg Memdb.gc hmove :), (congrArg Memdb.stripes hmove :)⟩
  | @victim dst =>
    have hdrop := @bare_renameDropVictim now nsFlags (m.childIsDir dst) dst m
    have hmove := @bare_renameMove now src (m.childIsDir src) dp dn
      ((renameDropVictim now nsFlags (m.childIsDir dst) dst m).direntDrop dp dn)
    exact ⟨(congrArg Memdb.gc hmove).trans (congrArg Memdb.gc hdrop :),
      (congrArg Memdb.stripes hmove).trans (congrArg Memdb.stripes hdrop :)⟩

section

variable (hg : (m.graph true).Good)

include hg

theorem data_memNsCreate {child} (h : memNsCreate now a m = .ok (child, m')) :
    (m'.graph true).Good ∧ Spares m m' := by
  refine ⟨good_memNsCreate hg h, ?_⟩
  obtain ⟨-, -, -, _, rfl, rfl⟩ := memNsCreate_ok h
  split <;> exact .of_tables rfl fun _ ht => ht

theorem data_createWideCall {alloc w} :
    ((createWideCall now alloc a w m).graph true).Good ∧
      Spares m (createWideCall now alloc a w m) := by
  have halloc : (({ m with nextFileid := m.nextFileid + 1 } : Memdb).graph true).Good :=
    ⟨hg.shape.alloc, ⟨hg.counts.live, hg.counts.fileLinks, hg.counts.dirLinks⟩,
      ⟨hg.cookies.distinct, hg.cookies.lt⟩⟩
  unfold createWideCall memAllocFileid
  dsimp only
  split
  next hm' =>
    have hshown : (w.child a m.nextFileid now).shown true = true := by
      simp [MdsInode.shown, w.not_doomed]
    refine ⟨good_memNsCreateWide halloc hshown (Nat.lt_succ_self _) rfl hm', ?_⟩
    obtain ⟨-, -, -, -, -, _, rfl, rfl⟩ := memNsCreateWide_ok hm'
    exact .of_tables rfl (subset_cons_self _ _)
  next => exact ⟨halloc, .of_tables rfl fun _ ht => ht⟩

theorem data_memNsLink {target} (hlive : ∀ t, m.inodeFind target = some t → t.doomed = false)
    (h : memNsLink now p name target m = .ok m') : (m'.graph true).Good ∧ Spares m m' := by
  refine ⟨good_memNsLink hg (fun t ht => ?_) h, ?_⟩
  · simp [MdsInode.shown, hlive t ht]
  · obtain ⟨p, t, -, -, -, -, -, rfl⟩ := memNsLink_ok h
    exact .of_tables rfl fun _ ht => ht

theorem data_unlinkLocked {guard} (h : unlinkLocked now p name guard gc m = .ok (final, m')) :
    (m'.graph true).Good ∧ Spares m m' := by
  refine ⟨good_unlinkLocked hg h, ?_⟩
  have hnext := (keeps_unlinkLocked h).next_le
  obtain ⟨d, _, hd, -, hun, rfl, -⟩ := unlinkLocked_ok h
  rcases hun.data with ⟨hgc, hst, -⟩ | ⟨hgc, hst, hgone⟩
  · exact .of_tables hgc fun t ht => hst ▸ ht
  · have hlt := hg.shape.childLt d (mem_of_find hd)
    refine .of_dead (dead_of_inodeFind (hlt.trans_le hnext) ?_) hgc hst
    exact inodeModify_of_none _ (fun _ => rfl) hgone

theorem data_memNsRenameFlags {sp sn} (h : memNsRenameFlags now sp sn dp dn nsFlags m = .ok m') :
    (m'.graph true).Good ∧ Spares m m' := by
  refine ⟨good_memNsRenameFlags hg h, ?_⟩
  obtain ⟨_, q, -, -, -, hren⟩ := memNsRenameFlags_ok h
  exact .of_tables hren.tables.1 fun t ht => hren.tables.2 ▸ ht

theorem data_enqueueUnlink {dir child gen} (hfile : FileAt m child)
    (hlast : ∀ ino, m.inodeFind child = some ino → ino.nlink ≤ 1)
    (h : memRemovePendingEnqueueUnlink dir name child gen m = .ok m') :
    (m'.graph true).Good ∧ Spares m m' := by
  obtain ⟨d, ino, hd, rfl, hino, rfl⟩ := enqueueUnlink_ok h
  refine ⟨?_, .of_tables rfl fun _ ht => ht⟩
  have hn := node_of_inodeFind hino (hg.counts.shown (mem_of_find hd) hino)
  have hun : (m.graph true).Unlinked dir name d
      (((m.graph true).unbind dir name).setNode d.childFileid none) :=
    .last hn (hfile.2 ino hino) (hlast ino hino)
  have hgraph : (((m.inodeModify d.childFileid (setFlag iflagDeletePending)).direntDrop dir
      name).removePendingInsert dir name d.childFileid gen).graph true =
      ((m.graph true).unbind dir name).setNode d.childFileid none :=
    congrArg (fun g : Graph => g.unbind dir name) (graph_deletePending hfile.2)
  rw [hgraph]
  exact hun.good hd hg

end

/-- The calls that touch a file's data. -/
def CleanupAct.touches : CleanupAct → Bool
  | .complete _ => false
  | _ => true

theorem data_cleanupStep (hg : (m.graph true).Good) {c f act rest}
    (hdead : act.touches = true → Dead m f) :
    ((cleanupStep c m f rest act).1.graph true).Good ∧ Spares m (cleanupStep c m f rest act).1 := by
  have hev : Evolves m (cleanupStep c m f rest act).1 := evolves_cleanupStep
  have hcall := @cleanupCall m f c rest act
  generalize (cleanupStep c m f rest act).1 = m' at hcall hev
  cases hcall with
  | none | complete => exact ⟨hg, .of_tables rfl fun _ ht => ht⟩
  | gc =>
    exact ⟨hg, .of_dead ((hdead rfl).evolve hev)
      (forall_mem_cons.mpr ⟨.inr rfl, fun _ => .inl⟩) fun _ _ => rfl⟩
  | stripeDel =>
    refine ⟨hg, .of_dead ((hdead rfl).evolve hev) (fun r hr => .inl hr) fun x hx => ?_⟩
    exact (findKey_eraseKey ..).trans (if_neg hx)
  | inodeDel =>
    -- The file was hidden already.
    have hgraph : (m.inodeDrop f).graph true = m.graph true := by
      rw [graph_inodeDrop]
      exact Graph.ext (update_eq_self_iff.mpr (hdead rfl).2.symm) rfl rfl rfl
    exact ⟨hgraph ▸ hg, .of_tables rfl fun _ ht => ht⟩

end Calls

/-! ## The condition -/

/-- The name is the only one of the file, unless the file has gone. -/
def LastName (m : Memdb) (p : CatFileid) (name : Name) (f : CatFileid) : Prop :=
  m.inodeFind f = none ∨
    ((m.direntFind p name).map MemdbDirent.childFileid = some f ∧
      ∀ ino ∈ m.inodeFind f, ino.nlink ≤ 1)
deriving Decidable

/-- What the snapshot of a REMOVE or RENAME showed, the last link of a file, still holds when
the name goes. A REMOVE that folds the garbage rows into the removal is checked by the
catalogue, and a RENAME that keeps the file takes no data. -/
def Job.SnapshotHolds (c : Choice) (m : Memdb) : Job → Prop
  | .removeSubmit _ _ child _ => c.async = true → ∀ ino ∈ m.inodeFind child.fileid, ino.nlink ≤ 1
  | .removeCommit p name (some child) map =>
    child.finalData = true → fusedRows c child map = none → LastName m p name child.fileid
  | .renameCommit a (some victim) false _ => LastName m a.dstParent a.dstName victim.fileid
  | _ => True

/-- The condition on a step: snapshots still hold, and LINK takes no doomed file. -/
def DataSafe (s : NsSys) : NsOp → Prop
  | .job j c => ∀ job ∈ s.jobs[j]?, job.SnapshotHolds c s.cat
  | .link i _ _ => ∀ cd ∈ s.compounds[i]?, ∀ target ∈ cd.saved,
    ∀ ino ∈ s.cat.inodeFind target.fileid, ino.doomed = false
  | _ => True

/-! ## Jobs -/

/-- What a job has decided to clean up is dead; a RENAME is between two names. -/
def JobDead (m : Memdb) : Job → Prop
  | .renameCommit a _ _ _ => (a.srcParent, a.srcName) ≠ (a.dstParent, a.dstName)
  | .cleanup f todo => (∃ act ∈ todo, act.touches = true) → Dead m f
  | _ => True

section Jobs

variable {m m' : Memdb} {c : Choice}

variable {job : Job} {p : CatFileid} {name : Name} {f : CatFileid} {map : Option StripeSnap}

theorem JobDead.evolve (hj : JobDead m job) (h : Evolves m m') : JobDead m' job := by
  cases job with
  | renameCommit => exact hj
  | cleanup => exact fun hact => (hj hact).evolve h
  | _ => trivial

theorem JobDead.of_fresh (h : job.fresh = true) : JobDead m job := by
  cases job <;> trivial

variable {now : ℕ} {sp dp : CatFileid} {sn dn : Name} {child : MdsInode} {a : RenameArgs}

theorem dead_of_unlinkLocked {guard gc final} (hfile : FileAt m f) (hlast : LastName m p name f)
    (h : unlinkLocked now p name guard gc m = .ok (final, m')) : Dead m' f := by
  have hev := (keeps_unlinkLocked h).evolves
  rcases hlast with hgone | ⟨hname, hlinks⟩
  · exact (dead_of_inodeFind hfile.1 hgone).evolve hev
  obtain ⟨d, _, hd, -, hun, rfl, -⟩ := unlinkLocked_ok h
  rw [hd] at hname
  cases hname
  rcases hun.data with ⟨-, -, hmore⟩ | ⟨-, -, hgone⟩
  · -- The file would have another link.
    cases hi : m.inodeFind d.childFileid with
    | none => exact (dead_of_inodeFind hfile.1 hi).evolve hev
    | some ino => exact absurd (hlinks ino hi) (hmore ino hi).1.not_ge
  · refine dead_of_inodeFind (hfile.1.trans_le hev.next_le) ?_
    exact inodeModify_of_none _ (fun _ => rfl) hgone

theorem Graph.Counts.two_links {g : Graph} (hs : g.Shape) (hc : g.Counts) {src dst : MemdbDirent}
    {n : Node} (hsrc : g.find sp sn = some src) (hdst : g.find dp dn = some dst)
    (hne : (sp, sn) ≠ (dp, dn)) (hsame : dst.childFileid = src.childFileid)
    (hn : g.node src.childFileid = some n) (ht : n.type ≠ .dir) : 1 < n.nlink := by
  have hrest : (g.unbind sp sn).links src.childFileid ≠ 0 := by
    rw [Ne, links_eq_zero]
    intro hno
    refine hno dst (mem_eraseKey.mpr ⟨mem_of_find hdst, ?_⟩) hsame
    rw [key_of_findKey hdst]
    exact hne.symm
  have hlinks := links_unbind hs.names hsrc src.childFileid
  rw [if_pos rfl] at hlinks
  have hcount := hc.fileLinks _ n hn ht
  omega

theorem dead_of_memNsRenameFlags (hg : (m.graph true).Good) (hfile : FileAt m f)
    (hne : (sp, sn) ≠ (dp, dn)) (hlast : LastName m dp dn f)
    (h : memNsRenameFlags now sp sn dp dn 0 m = .ok m') : Dead m' f := by
  have hev := (keeps_renameFlags h).evolves
  rcases hlast with hgone | ⟨hname, hlinks⟩
  · exact (dead_of_inodeFind hfile.1 hgone).evolve hev
  obtain ⟨_, q, hsrc, -, -, hren⟩ := memNsRenameFlags_ok h
  cases hi : m.inodeFind f with
  | none => exact (dead_of_inodeFind hfile.1 hi).evolve hev
  | some ino =>
    have ht := hfile.2 ino hi
    have hone := hlinks ino hi
    cases hren with
    | @noop _ hdst hsame =>
      -- Both names are links of the file, which has only one.
      rw [hdst] at hname
      cases hname
      have hn := node_of_inodeFind hi (hg.counts.shown (mem_of_find hdst) hi)
      rw [hsame] at hn
      exact absurd hone (hg.counts.two_links hg.shape hsrc hdst hne hsame hn ht).not_ge
    | free hfree =>
      rw [hfree] at hname
      cases hname
    | @victim dst hdst =>
      rw [hdst] at hname
      cases hname
      have hdrop : renameDropVictim now 0 (m.childIsDir dst) dst m =
          m.inodeDrop dst.childFileid := by
        have hdir : m.childIsDir dst = false := by simp [Memdb.childIsDir, hi, ht]
        simp only [renameDropVictim, hi, hdir, fileid_of_inodeFind hi]
        rw [if_neg (by decide), if_neg (by omega), if_neg (by simp)]
      rw [hdrop]
      refine Dead.evolve ?_ (keeps_renameMove (.refl _) _ _ _ _).evolves
      refine dead_of_inodeFind hfile.1 ?_
      exact (m.inodeFind_inodeDrop _ _).trans (if_pos rfl)

theorem jobDead_removeKnown (hfile : child.finalData = true → FileAt m child.fileid)
    (hsafe : child.finalData = true → LastName m p name child.fileid) :
    JobDead (removeKnown c m p name child map).1 (removeKnown c m p name child map).2 := by
  unfold removeKnown memNsRemove
  split
  · trivial
  next h =>
    split
    next hfinal =>
      have hdata := (Bool.and_eq_true_iff.mp hfinal).1
      have hdead := dead_of_unlinkLocked (hfile hdata) (hsafe hdata) h
      split <;> exact fun _ => hdead
    next => trivial

theorem finalData_of_fusedRows {rows} (h : fusedRows c child map = some rows) : child.finalData =
    true := by
  unfold fusedRows at h
  split at h
  next hfinal => exact (Bool.and_eq_true_iff.mp hfinal).1
  next => cases h

theorem jobDead_removeCommit {child} (hfile : JobFiles m (.removeCommit p name child map))
    (hsafe : Job.SnapshotHolds c m (.removeCommit p name child map)) :
    JobDead (removeCommit c m p name child map).1 (removeCommit c m p name child map).2 := by
  unfold removeCommit
  split
  · split <;> trivial
  next child =>
    split
    next hrows => exact jobDead_removeKnown (hfile child rfl) fun hfinal => hsafe hfinal hrows
    next hrows =>
      split
      · trivial
      · trivial
      next h =>
        -- The catalogue found the link count of the snapshot, so the inode went with the name.
        intro _
        have hfinal := finalData_of_fusedRows hrows
        have hev := (keeps_unlinkLocked h).evolves
        have hlt := (hfile child rfl hfinal).1
        obtain ⟨d, _, -, hguard, -, rfl, hlinks⟩ := unlinkLocked_ok h
        have hchild := hguard child rfl
        cases hi : m.inodeFind child.fileid with
        | none => exact (dead_of_inodeFind hlt hi).evolve hev
        | some ino =>
          have ht := (hfile child rfl hfinal).2 ino hi
          simp only [MdsInode.finalData, Bool.and_eq_true, decide_eq_true_eq] at hfinal
          have hone := hlinks child rfl ino (hchild ▸ hi) ht
          rw [hfinal.2] at hone
          cases hone

theorem jobDead_renameCommit (hg : (m.graph true).Good) {victim keep}
    (hne : (a.srcParent, a.srcName) ≠ (a.dstParent, a.dstName))
    (hfile : JobFiles m (.renameCommit a victim keep map))
    (hsafe : Job.SnapshotHolds c m (.renameCommit a victim keep map)) :
    JobDead (renameCommit c m a victim keep map).1 (renameCommit c m a victim keep map).2 := by
  unfold renameCommit
  split
  · trivial
  next h =>
    split
    · trivial
    next v =>
      cases keep with
      | true => trivial
      | false =>
        have hdead := dead_of_memNsRenameFlags hg (hfile v rfl) hne hsafe h
        simp only [Bool.false_eq_true, if_false]
        split <;> exact fun _ => hdead

theorem jobDead_renameSnapshot : JobDead m (renameSnapshot c m a) := by
  unfold renameSnapshot
  dsimp only
  split
  · trivial
  next hne =>
    have hnames : (a.srcParent, a.srcName) ≠ (a.dstParent, a.dstName) := by
      simpa [Prod.ext_iff] using hne
    split
    · trivial
    split
    · trivial
    split <;> exact hnames

theorem jobDead_closeRead (hok : InodesOk m) : JobDead m (closeRead c m f) := by
  unfold closeRead
  split
  · trivial
  next ino hino =>
    split
    next horphan =>
      have hd : ino.doomed = true := by simp [MdsInode.doomed, horphan]
      exact fun _ => dead_of_doomed hok (filter_eq_some_iff.mp hino).1 hd
    next => trivial

theorem jobDead_drainAttr (hok : InodesOk m) {row} : JobDead m (drainAttr m row) := by
  have hcomplete : ¬ ∃ act ∈ [CleanupAct.complete row.removeSeq], act.touches = true := by
    simp [CleanupAct.touches]
  unfold drainAttr
  split
  · exact fun h => absurd h hcomplete
  next ino hi =>
    split
    next hpending =>
      simp only [Bool.and_eq_true] at hpending
      have hd : ino.doomed = true := by simp [MdsInode.doomed, hpending.1.1]
      exact fun _ => dead_of_doomed hok hi hd
    next => exact fun h => absurd h hcomplete

theorem jobDead_cleanupStep {act rest} (hj : JobDead m (.cleanup f (act :: rest))) :
    JobDead (cleanupStep c m f rest act).1 (cleanupStep c m f rest act).2 := by
  refine JobDead.evolve ?_ evolves_cleanupStep
  obtain ⟨_, heq, -, hnone⟩ := @cleanup_rest m f c rest act
  rw [heq]
  by_cases hact : act.touches = true
  · -- The file is dead, whatever remains to be done.
    exact fun _ => hj ⟨act, mem_cons_self, hact⟩
  · rw [hnone fun _ hfetch => hact (hfetch ▸ rfl)]
    rintro ⟨act, hmem, hact⟩
    exact hj ⟨act, mem_cons_of_mem _ hmem, hact⟩

theorem jobDead_jobStep (hok : InodesOk m) (hg : (m.graph true).Good) (hfile : JobFiles m job)
    (hj : JobDead m job) (hsafe : job.SnapshotHolds c m) :
    JobDead (jobStep c m job).1 (jobStep c m job).2 := by
  cases job with
  | removeSnapshot =>
    simp only [jobStep, removeSnapshot]
    split
    · trivial
    split
    · split <;> trivial
    · trivial
  | removePrefetch => trivial
  | removeSubmit =>
    simp only [jobStep, removeSubmit]
    split
    · split <;> trivial
    · trivial
  | removeCommit => exact jobDead_removeCommit hfile hsafe
  | renameSnapshot => exact jobDead_renameSnapshot
  | renameCommit => exact jobDead_renameCommit hg hj hfile hsafe
  | closeRead => exact jobDead_closeRead hok
  | drainDirent =>
    simp only [jobStep]
    split <;> trivial
  | drainAttr => exact jobDead_drainAttr hok
  | cleanup f todo =>
    cases todo with
    | nil => trivial
    | cons => exact jobDead_cleanupStep hj
  | done => trivial

/-- A step of a job keeps the namespace in order and takes data from dead files only. -/
theorem data_jobStep (hg : (m.graph true).Good) (hfile : JobFiles m job) (hj : JobDead m job)
    (hsafe : job.SnapshotHolds c m) :
    ((jobStep c m job).1.graph true).Good ∧ Spares m (jobStep c m job).1 := by
  have hcall := jobCall c m job
  generalize (jobStep c m job).1 = m' at hcall
  cases hcall with
  | none => exact ⟨hg, .of_tables rfl fun _ ht => ht⟩
  | submit hasync h => exact data_enqueueUnlink hg hfile (hsafe hasync) h
  | remove h => exact data_unlinkLocked hg h
  | rename h => exact data_memNsRenameFlags hg h
  | cleanup => exact data_cleanupStep hg fun hact => hj ⟨_, mem_cons_self, hact⟩

end Jobs

/-! ## The system -/

/-- What every reachable state satisfies. -/
structure NsSys.DataInv (s : NsSys) : Prop where
  files : s.Files
  good : (s.cat.graph true).Good
  gc : ∀ r ∈ s.cat.gc, Dead s.cat r.fileid
  lost : ∀ f ∈ s.lost, Dead s.cat f
  jobs : ∀ job ∈ s.jobs, JobDead s.cat job

section System

variable {s s' : NsSys} {op : NsOp}

theorem dataInv_start (h : NsStart s) : s.DataInv := by
  have hfiles := files_start h
  obtain ⟨now, rfl⟩ := h
  exact ⟨hfiles, good_start ⟨now, rfl⟩ true, nofun, nofun, nofun⟩

theorem NsSys.DataInv.dataKept (hs : s.DataInv) : DataKept s := by
  intro d hd _
  obtain ⟨n, hn⟩ := hs.good.counts.live d hd
  obtain ⟨_, hi, -, -⟩ := inodeFind_of_node hn
  have halive : ¬ Dead s.cat d.childFileid := by
    rintro ⟨-, hnone⟩
    cases hn.symm.trans hnone
  refine ⟨by rw [hi]; rfl, fun r hr heq => ?_, fun hlost => halive (hs.lost _ hlost)⟩
  exact halive (heq ▸ hs.gc r hr)

theorem NsSys.DataInv.setCat (hs : s.DataInv) {cat} (hev : Evolves s.cat cat)
    (h : Spares s.cat cat) :
    (∀ r ∈ cat.gc, Dead cat r.fileid) ∧ ∀ f ∈ (s.setCat cat).lost, Dead cat f := by
  refine ⟨fun r hr => ?_, fun f hf => ?_⟩
  · rcases h.gc r hr with hold | hdead
    · exact (hs.gc r hold).evolve hev
    · exact hdead
  · rcases mem_append.mp hf with hgone | hold
    · obtain ⟨hmem, hnone⟩ := mem_filter.mp hgone
      obtain ⟨t, ht, rfl⟩ := mem_map.mp hmem
      exact h.stripes t ht (by simpa using hnone)
    · exact (hs.lost f hold).evolve hev

theorem dataInv_step (hs : s.DataInv) (hsafe : DataSafe s op) (h : nsSysStep s op = some s') :
    s'.DataInv := by
  have hstep := sysStep h
  have hfiles := files_step hs.files hstep
  have hev := evolves_step hs.files hstep
  have hold : ∀ job ∈ s.jobs, JobDead s'.cat job := fun job hjob => (hs.jobs job hjob).evolve hev
  cases hstep with
  | other hcat hlost hjobs =>
    refine ⟨hfiles, hcat ▸ hs.good, hcat ▸ hs.gc, hcat ▸ hlost ▸ hs.lost, fun job hjob => ?_⟩
    exact hold job (hjobs ▸ hjob)
  | create hok =>
    obtain ⟨hgood, hspares⟩ := data_memNsCreate hs.good hok
    obtain ⟨hgc, hlost⟩ := hs.setCat hev hspares
    exact ⟨hfiles, hgood, hgc, hlost, hold⟩
  | createWide =>
    obtain ⟨hgood, hspares⟩ := data_createWideCall hs.good
    obtain ⟨hgc, hlost⟩ := hs.setCat hev hspares
    exact ⟨hfiles, hgood, hgc, hlost, hold⟩
  | link hcd hsaved hok =>
    obtain ⟨hgood, hspares⟩ := data_memNsLink hs.good (hsafe _ hcd _ hsaved) hok
    obtain ⟨hgc, hlost⟩ := hs.setCat hev hspares
    exact ⟨hfiles, hgood, hgc, hlost, hold⟩
  | queue hnew =>
    exact ⟨hfiles, hs.good, hs.gc, hs.lost, forall_mem_cons.mpr ⟨.of_fresh hnew, hold⟩⟩
  | job hj =>
    have hmem := mem_of_getElem? hj
    have hf := hs.files.jobs _ hmem
    have hd := hs.jobs _ hmem
    obtain ⟨hgood, hspares⟩ := data_jobStep hs.good hf hd (hsafe _ hj)
    obtain ⟨hgc, hlost⟩ := hs.setCat hev hspares
    refine ⟨hfiles, hgood, hgc, hlost, forall_mem_set hold ?_⟩
    exact jobDead_jobStep hs.files.inodes hs.good hf hd (hsafe _ hj)

end System

/-- A named file keeps its inode and its data, in every interleaving of creates, LINKs,
REMOVEs, RENAMEs, CLOSEs and drainer passes whose steps meet the condition. -/
theorem named_file_keeps_data {s : NsSys} (h : Reachable NsStart nsSysStep DataSafe s) :
    DataKept s :=
  (h.invariant (fun _ => dataInv_start) fun _ _ _ hs hsafe hstep =>
    dataInv_step hs hsafe hstep).dataKept

/-! ### Runs -/

instance (c : Choice) (m : Memdb) (job : Job) : Decidable (job.SnapshotHolds c m) := by
  unfold Job.SnapshotHolds
  split <;> infer_instance

instance (s : NsSys) (op : NsOp) : Decidable (DataSafe s op) := by
  cases op <;> unfold DataSafe <;> infer_instance

/-- A striped file on one data server. -/
def makeStriped (name : Name) : NsOp :=
  .createWide 0 1 true name 0o644 0 0 ⟨1, 4096, 1, [⟨7, [1]⟩], false⟩

/-- The row that a delete-at-ack submit of the first file leaves. -/
def firstRow : RemovePendingEntry := ⟨1, fileidRoot, [97], fileidRoot + 1, 1⟩

/-- A compound that makes `/a`, and keeps it as the saved filehandle. -/
def savedFile : List NsOp :=
  [.compound, .fh 0 .putrootfh, makeStriped [97], .fh 0 (.lookup [97]), .fh 0 .savefh,
    .fh 0 .putrootfh]

/-- All steps of the drainer for the first row. -/
def drainFirst : List NsOp := .drain firstRow :: List.replicate 7 (runJob 0 true)

/-- `/a` is removed and drained; `/b` and its link stay. -/
def removeInTurn : List NsOp :=
  savedFile ++ [.remove 0 [97], runJob 0 true, runJob 0 true, runJob 0 true, makeStriped [98]] ++
    drainFirst

theorem named_file_keeps_data_inTurn :
    ∃ s, exec nsSysStep newServer removeInTurn = some s ∧ fileidRoot + 1 ∈ s.lost ∧
      s.cat.direntFind fileidRoot [98] ≠ none ∧ DataKept s := by
  exact ⟨_, rfl, by decide, by decide,
    named_file_keeps_data (.run newServer removeInTurn nsStart_newServer)⟩

/-- `/b` is made a link of `/a` between the snapshot of the REMOVE and its submit. -/
def linkBeforeSubmit : List NsOp :=
  savedFile ++ [.remove 0 [97], runJob 0 true, runJob 0 true, .link 0 1 [98], runJob 0 true] ++
    drainFirst

/-- `/b` is made a link of the file after the submit, when it has no name. -/
def linkAfterSubmit : List NsOp :=
  savedFile ++ [.remove 0 [97], runJob 0 true, runJob 0 true, runJob 0 true, .link 0 1 [98]] ++
    drainFirst

/-- `/c` is made a link of `/a` between the snapshot of a RENAME of `/b` over it and the
change. -/
def linkBeforeRename : List NsOp :=
  savedFile ++ [.compound, .fh 0 .putrootfh, makeStriped [98], .fh 0 .savefh,
    .rename 0 [98] [97], runJob 0 false, .link 1 1 [99]] ++ List.replicate 4 (runJob 0 false)

theorem named_file_loses_data :
    (∃ s, exec nsSysStep newServer linkBeforeSubmit = some s ∧ ¬ DataKept s) ∧
    (∃ s, exec nsSysStep newServer linkAfterSubmit = some s ∧ ¬ DataKept s) ∧
    ∃ s, exec nsSysStep newServer linkBeforeRename = some s ∧ ¬ DataKept s :=
  ⟨⟨_, rfl, by decide⟩, ⟨_, rfl, by decide⟩, ⟨_, rfl, by decide⟩⟩

end PnfsLattice
