import PnfsLattice.Catalogue.Calls
import PnfsLattice.Catalogue.Graph

/-!
# The calls of the catalogue on the namespace

Each call of the in-memory catalogue does to the namespace one of the graph operations,
or two in the case of a RENAME over an existing name.
-/

namespace PnfsLattice

open Lib Option Memdb PnfsLattice.Graph

/-! ## What the helpers do to the namespace -/

namespace Memdb

variable (m : Memdb) (f x p : CatFileid) (name : Name) (hide : Bool)

@[simp] theorem node_graph :
    (m.graph hide).node f = ((m.inodeFind f).filter (MdsInode.shown hide)).map MdsInode.node := rfl

theorem inodeFind_inodeStore (ino : MdsInode) :
    (m.inodeStore ino).inodeFind x = if x = ino.fileid then some ino else m.inodeFind x := by
  simp [inodeFind, inodeStore, eq_comm]

theorem inodeFind_inodeDrop : (m.inodeDrop f).inodeFind x = if x = f then none else m.inodeFind x :=
  findKey_eraseKey ..

variable {m f hide}

variable {ino : MdsInode} {g : MdsInode → MdsInode}

theorem node_of_inodeFind (h : m.inodeFind f = some ino) (hs : ino.shown hide = true) :
    (m.graph hide).node f = some ino.node := by
  simp [h, Option.filter, hs]

theorem node_of_dir (h : m.inodeFind f = some ino) (hd : ino.type = .dir) :
    ∃ n, (m.graph hide).node f = some n ∧ n.type = .dir :=
  ⟨ino.node, node_of_inodeFind h (by simp [MdsInode.shown, hd]), hd⟩

theorem inodeFind_of_node {n} (h : (m.graph hide).node f = some n) :
    ∃ ino, m.inodeFind f = some ino ∧ ino.shown hide = true ∧ n = ino.node := by
  obtain ⟨ino, hino, rfl⟩ := map_eq_some_iff.mp h
  obtain ⟨hfind, hs⟩ := filter_eq_some_iff.mp hino
  exact ⟨ino, hfind, hs, rfl⟩

theorem inodeFind_inodeModify (hg : ∀ i, (g i).fileid = i.fileid) :
    (m.inodeModify f g).inodeFind x = if x = f then (m.inodeFind x).map g else m.inodeFind x :=
  findKey_modifyKey hg ..

theorem inodeModify_of_none (hg : ∀ i, (g i).fileid = i.fileid) (h : m.inodeFind x = none) :
    (m.inodeModify f g).inodeFind x = none := by
  rw [inodeFind_inodeModify x hg, h]
  split <;> rfl

theorem fileid_of_inodeFind (h : m.inodeFind f = some ino) : ino.fileid = f :=
  key_of_findKey h

theorem graph_inodeModify {a} (hg : ∀ i, (g i).fileid = i.fileid)
    (ha : ∀ i, (g i).node = a i.node) (hs : ∀ i, (g i).shown hide = i.shown hide) :
    (m.inodeModify f g).graph hide = (m.graph hide).adjust f a := by
  refine Graph.ext (funext fun x => ?_) rfl rfl rfl
  rw [node_graph, inodeFind_inodeModify x hg, node_adjust, node_graph]
  split
  · cases m.inodeFind x with
    | none => rfl
    | some i =>
      cases hi : i.shown hide with
      | false => simp [Option.filter, hs, hi]
      | true => simp [Option.filter, hs, hi, ha]
  · rfl

theorem graph_inodeTouch (hg : ∀ i, (g i).fileid = i.fileid) (ha : ∀ i, (g i).node = i.node)
    (hs : ∀ i, (g i).shown hide = i.shown hide) :
    (m.inodeModify f g).graph hide = m.graph hide := by
  rw [graph_inodeModify (a := id) hg ha hs, adjust_id]

@[simp] theorem graph_parentTouch (now : ℕ) :
    (m.inodeModify f (parentTouch now)).graph hide = m.graph hide :=
  graph_inodeTouch (fun _ => rfl) (fun _ => rfl) fun _ => rfl

theorem graph_nlinkInc :
    (m.inodeModify f nlinkInc).graph hide = (m.graph hide).adjust f (Node.addLinks 1) :=
  graph_inodeModify (fun _ => rfl) (fun _ => rfl) fun _ => rfl

theorem graph_nlinkDec :
    (m.inodeModify f nlinkDec).graph hide = (m.graph hide).adjust f (Node.subLinks 1) :=
  graph_inodeModify (fun _ => rfl) (fun _ => rfl) fun _ => rfl

theorem graph_linkInc (now : ℕ) : (m.inodeModify f fun i => linkTouch now (nlinkInc i)).graph hide =
      (m.graph hide).adjust f (Node.addLinks 1) :=
  graph_inodeModify (fun _ => rfl) (fun _ => rfl) fun _ => rfl

theorem graph_linkDec (now : ℕ) : (m.inodeModify f fun i => linkTouch now (nlinkDec i)).graph hide =
      (m.graph hide).adjust f (Node.subLinks 1) :=
  graph_inodeModify (fun _ => rfl) (fun _ => rfl) fun _ => rfl

theorem graph_setParent :
    (m.inodeModify f (setParent p)).graph hide = (m.graph hide).adjust f (Node.under p) :=
  graph_inodeModify (fun _ => rfl) (fun _ => rfl) fun _ => rfl

/-- Without hiding, flags are not seen. -/
theorem graph_setFlag (flag : UInt32) :
    (m.inodeModify f (setFlag flag)).graph false = m.graph false :=
  graph_inodeTouch (fun _ => rfl) (fun _ => rfl) fun _ => rfl

theorem graph_orphan (now : ℕ) (flag : UInt32) :
    (m.inodeModify f fun i => linkTouch now (setFlag flag (nlinkDec i))).graph false =
      (m.graph false).adjust f (Node.subLinks 1) :=
  graph_inodeModify (fun _ => rfl) (fun _ => rfl) fun _ => rfl

theorem graph_inodeModify_doomed (hg : ∀ i, (g i).fileid = i.fileid)
    (hs : ∀ i, m.inodeFind f = some i → (g i).shown true = false) :
    (m.inodeModify f g).graph true = (m.graph true).setNode f none := by
  refine Graph.ext (funext fun x => ?_) rfl rfl rfl
  rw [node_graph, inodeFind_inodeModify x hg, node_setNode]
  split
  next hx =>
    subst hx
    cases hi : m.inodeFind x with
    | none => rfl
    | some i => simp [Option.filter, hs i hi]
  next => rfl

theorem graph_deletePending (hfile : ∀ i, m.inodeFind f = some i → i.type ≠ .dir) :
    (m.inodeModify f (setFlag iflagDeletePending)).graph true = (m.graph true).setNode f none := by
  refine graph_inodeModify_doomed (fun _ => rfl) fun i hi => ?_
  have hflag : (setFlag iflagDeletePending i).has iflagDeletePending = true :=
    has_setFlag (by decide) i
  exact MdsInode.not_shown_of_doomed (hfile i hi) (by simp [MdsInode.doomed, hflag])

theorem graph_unlinkOrphan (now : ℕ) (hfile : ∀ i, m.inodeFind f = some i → i.type ≠ .dir) :
    (m.inodeModify f fun i => linkTouch now (setFlag iflagUnlinkOrphan (nlinkDec i))).graph true =
      (m.graph true).setNode f none := by
  refine graph_inodeModify_doomed (fun _ => rfl) fun i hi => ?_
  have hflag : (linkTouch now (setFlag iflagUnlinkOrphan (nlinkDec i))).has iflagUnlinkOrphan :=
    has_setFlag (by decide) _
  exact MdsInode.not_shown_of_doomed (hfile i hi) (by simp [MdsInode.doomed, hflag])

theorem graph_inodeStore (hs : ino.shown hide = true) :
    (m.inodeStore ino).graph hide = (m.graph hide).setNode ino.fileid (some ino.node) := by
  refine Graph.ext (funext fun x => ?_) rfl rfl rfl
  rw [node_graph, inodeFind_inodeStore, node_setNode]
  split
  · simp [Option.filter, hs]
  · rfl

theorem graph_inodeDrop : (m.inodeDrop f).graph hide = (m.graph hide).setNode f none := by
  refine Graph.ext (funext fun x => ?_) rfl rfl rfl
  rw [node_graph, inodeFind_inodeDrop, node_setNode]
  split <;> rfl

@[simp] theorem graph_direntSet (child : CatFileid) (type : FileType) :
    (m.direntSet p name child type).graph hide = (m.graph hide).bind p name child type := rfl

@[simp] theorem graph_direntDrop :
    (m.direntDrop p name).graph hide = (m.graph hide).unbind p name := rfl

theorem not_dirHasEntries (h : m.dirHasEntries f = false) : ∀ d ∈ m.dirents, d.parent ≠ f := by
  simpa [dirHasEntries] using h

end Memdb

/-! ## What a call does to the namespace -/

section Calls

variable {m m' : Memdb} {now : ℕ} {hide : Bool}

theorem CreateArgs.not_doomed (a : CreateArgs) (fileid : CatFileid) (now : ℕ) :
    (a.child fileid now).doomed = false := by
  unfold MdsInode.doomed MdsInode.has CreateArgs.child
  by_cases ht : a.type = .reg
  · simp only [ht, if_true]
    decide
  · simp only [ht, if_false]
    decide

theorem CreateArgs.shown_child (a : CreateArgs) (fileid : CatFileid) (now : ℕ) (hide : Bool) :
    (a.child fileid now).shown hide = true := by
  simp [MdsInode.shown, a.not_doomed]

theorem graph_memNsCreate {a child} (h : memNsCreate now a m = .ok (child, m')) :
    (∃ p, (m.graph hide).node a.parent = some p ∧ p.type = .dir) ∧
      (m.graph hide).find a.parent a.name = none ∧
      child = a.child m.nextFileid now ∧
      (m'.graph hide) = (((m.graph hide).alloc.setNode m.nextFileid (some child.node)).bind
        a.parent a.name m.nextFileid child.node.type).adjust a.parent
          (Node.addLinks (if child.node.type = .dir then 1 else 0)) := by
  obtain ⟨⟨p, hp, hdir⟩, hfree, rfl, _, rfl, rfl⟩ := memNsCreate_ok h
  refine ⟨node_of_dir hp hdir, hfree, rfl, ?_⟩
  have htype : (a.child m.nextFileid now).node.type = a.type := rfl
  have hshown := CreateArgs.shown_child a m.nextFileid now hide
  rw [graph_parentTouch, htype]
  split
  · rw [graph_nlinkInc, graph_direntSet, graph_inodeStore hshown]
    rfl
  · have hzero : Node.addLinks 0 = id := rfl
    rw [hzero, adjust_id, graph_direntSet, graph_inodeStore hshown]
    rfl

theorem graph_memNsCreateWide {alloc a} (hshown : a.child.shown hide = true)
    (h : memNsCreateWide now alloc a m = .ok m') :
    (∃ p, (m.graph hide).node a.parentFileid = some p ∧ p.type = .dir) ∧
      (m.graph hide).find a.parentFileid a.name = none ∧ (m.graph hide).node a.child.fileid = none ∧
      a.child.node.parent = a.parentFileid ∧ a.child.node.type = .reg ∧
      (m'.graph hide) = ((m.graph hide).setNode a.child.fileid (some a.child.node)).bind
        a.parentFileid a.name a.child.fileid a.child.node.type := by
  obtain ⟨⟨p, hp, hdir⟩, hfree, hnone, hpar, htype, _, rfl, rfl⟩ := memNsCreateWide_ok h
  refine ⟨node_of_dir hp hdir, hfree, by simp [hnone], hpar, htype, ?_⟩
  rw [graph_parentTouch]
  exact congrArg (fun g : Graph => g.bind _ a.name _ _)
    (graph_inodeStore hshown)

theorem graph_memNsLink {parent name target}
    (hshown : ∀ t, m.inodeFind target = some t → t.shown hide = true)
    (h : memNsLink now parent name target m = .ok m') :
    ∃ t, (∃ p, (m.graph hide).node parent = some p ∧ p.type = .dir) ∧
      (m.graph hide).find parent name = none ∧
      (m.graph hide).node target = some t ∧ t.type ≠ .dir ∧
      (m'.graph hide) = ((m.graph hide).bind parent name target t.type).adjust target
        (Node.addLinks 1) := by
  obtain ⟨p, t, hp, hdir, hfree, ht, hfile, rfl⟩ := memNsLink_ok h
  refine ⟨t.node, node_of_dir hp hdir, hfree, node_of_inodeFind ht (hshown t ht), hfile, ?_⟩
  rw [graph_parentTouch, graph_linkInc]
  rfl

end Calls

/-! ### An entry goes -/

/-- The ways in which an entry and what it names can go: it dangles, it names an empty
directory, it is the last name of a file, or the file stays. -/
inductive Graph.Unlinked (g : Graph) (p : CatFileid) (name : Name) (d : MemdbDirent) : Graph → Prop
  | dangling (hn : g.node d.childFileid = none) : Unlinked g p name d (g.unbind p name)
  | dir {n : Node} (hn : g.node d.childFileid = some n) (hdir : n.type = .dir)
      (hempty : ∀ e ∈ g.entries, e.parent ≠ d.childFileid) :
      Unlinked g p name d
        (((g.unbind p name).setNode d.childFileid none).adjust p (Node.subLinks 1))
  | last {n : Node} (hn : g.node d.childFileid = some n) (hfile : n.type ≠ .dir)
      (hlast : n.nlink ≤ 1) : Unlinked g p name d ((g.unbind p name).setNode d.childFileid none)
  | kept {n : Node} (hn : g.node d.childFileid = some n) (hfile : n.type ≠ .dir) :
      Unlinked g p name d ((g.unbind p name).adjust d.childFileid (Node.subLinks 1))

namespace Graph.Unlinked

variable {g g' : Graph} {p : CatFileid} {name : Name} {d : MemdbDirent}

section

variable (h : g.Unlinked p name d g')

include h

theorem entries_eq : g'.entries = (g.unbind p name).entries := by
  cases h <;> rfl

theorem parent_kept (hd : g.find p name = some d) (hp : ∃ q, g.node p = some q ∧ q.type = .dir) :
    ∃ q, g'.node p = some q ∧ q.type = .dir := by
  obtain ⟨q, hq, ht⟩ := hp
  cases h with
  | dangling => exact ⟨q, hq, ht⟩
  | dir _ _ hempty =>
    have hne : p ≠ d.childFileid :=
      fun heq => hempty d (mem_of_find hd) ((parent_of_find hd).trans heq)
    refine ⟨q.subLinks 1, ?_, ht⟩
    rw [node_adjust, if_pos rfl, node_setNode, if_neg hne, node_unbind, hq]
    rfl
  | last hn hfile =>
    have hne : p ≠ d.childFileid := by
      rintro rfl
      exact hfile (mem_unique hq hn ▸ ht)
    exact ⟨q, by rw [node_setNode, if_neg hne, node_unbind, hq], ht⟩
  | kept hn hfile =>
    have hne : p ≠ d.childFileid := by
      rintro rfl
      exact hfile (mem_unique hq hn ▸ ht)
    exact ⟨q, by rw [node_adjust, if_neg hne, node_unbind, hq], ht⟩

theorem shape (hd : g.find p name = some d) (hs : g.Shape) : g'.Shape := by
  have hdmem := mem_of_find hd
  cases h with
  | dangling hn =>
    refine hs.unbindFile hd fun ht => ?_
    obtain ⟨n, hn'⟩ := hs.dirs d hdmem ht
    cases hn.symm.trans hn'
  | dir hn hdir hempty =>
    exact (hs.removeDir hd hn hdir hempty).adjust (fun _ => rfl) fun _ _ _ => rfl
  | last hn hfile =>
    have hrec := hs.recorded d hdmem _ hn
    refine (hs.unbindFile hd fun ht => hfile (hrec.symm.trans ht)).dropFile fun _ hn' => ?_
    exact mem_unique hn hn' ▸ hfile
  | kept hn hfile =>
    have hrec := hs.recorded d hdmem _ hn
    exact (hs.unbindFile hd fun ht => hfile (hrec.symm.trans ht)).adjust (fun _ => rfl)
      fun _ _ _ => rfl

theorem counts (hd : g.find p name = some d) (hs : g.Shape) (hc : g.Counts) : g'.Counts := by
  have hs' := h.shape hd hs
  cases h with
  | dangling hn =>
    obtain ⟨n, hn'⟩ := hc.live d (mem_of_find hd)
    cases hn.symm.trans hn'
  | dir hn hdir => exact hc.removeDir hs hs' hd hn hdir rfl
  | last hn hfile hlast => exact hc.unlinkLast hs hs' hd hn hfile hlast rfl
  | kept hn hfile => exact hc.unlinkFile hs hs' hd hn hfile rfl

end

end Graph.Unlinked

section Calls

variable {m m' : Memdb} {now : ℕ} {hide : Bool}

theorem graph_unlinkChild_final (child : CatFileid) (gc : GcPlan) :
    (unlinkChild now child true gc m).graph hide = (m.graph hide).setNode child none := by
  obtain ⟨_, _, heq, -⟩ := gcInserts_eq child _ _ _
  rw [unlinkChild, heq]
  exact graph_inodeDrop

theorem graph_unlinkLocked {parent name guard gc final}
    (hshown : ∀ d c, m.direntFind parent name = some d → m.inodeFind d.childFileid = some c →
      c.shown hide = true)
    (h : unlinkLocked now parent name guard gc m = .ok (final, m')) :
    ∃ d, (m.graph hide).find parent name = some d ∧
      (m.graph hide).Unlinked parent name d (m'.graph hide) := by
  obtain ⟨d, _, hd, -, hun, rfl, -⟩ := unlinkLocked_ok h
  refine ⟨d, hd, ?_⟩
  rw [graph_parentTouch]
  have hnode : ∀ {c}, m.inodeFind d.childFileid = some c →
      (m.graph hide).node d.childFileid = some c.node := fun hc =>
    node_of_inodeFind hc (hshown d _ hd hc)
  cases hun with
  | dangling hc => exact .dangling (by simp [hc])
  | dir hc ht hempty =>
    rw [graph_nlinkDec, graph_unlinkChild_final]
    exact .dir (hnode hc) ht (not_dirHasEntries hempty)
  | @file c hc ht =>
    by_cases hlast : c.nlink ≤ 1
    · rw [decide_eq_true hlast, graph_unlinkChild_final]
      exact .last (hnode hc) ht hlast
    · rw [decide_eq_false hlast, unlinkChild, if_pos (by decide), graph_linkDec]
      exact .kept (hnode hc) ht

/-! ### RENAME -/

variable {nsFlags : UInt32} {dp : CatFileid} {dn : Name}

theorem graph_renameDropVictim {dst dstName}
    (hshown : ∀ v, m.inodeFind dst.childFileid = some v → v.shown hide = true)
    (hempty : m.childIsDir dst = true → m.dirHasEntries dst.childFileid = false) :
    (m.graph hide).Unlinked dst.parent dstName dst
      (((renameDropVictim now nsFlags (m.childIsDir dst) dst m).direntDrop dst.parent
        dstName).graph hide) := by
  unfold renameDropVictim
  cases hv : m.inodeFind dst.childFileid with
  | none => exact .dangling (by simp [hv])
  | some v =>
    have hn : (m.graph hide).node dst.childFileid = some v.node :=
      node_of_inodeFind hv (hshown v hv)
    have hdir : m.childIsDir dst = decide (v.type = .dir) := by simp [Memdb.childIsDir, hv]
    have hfid := fileid_of_inodeFind hv
    simp only [hdir, hfid]
    by_cases ht : v.type = .dir
    · rw [if_pos (decide_eq_true ht), graph_direntDrop, graph_nlinkDec, graph_inodeDrop]
      exact .dir hn ht (not_dirHasEntries (hempty (by simp [hdir, ht])))
    rw [if_neg (by simpa using ht)]
    split
    · rw [graph_direntDrop, graph_linkDec]
      exact .kept hn ht
    next hmore =>
      have hlast : v.node.nlink ≤ 1 := by
        rw [MdsInode.nlink_node]
        omega
      split
      · -- The last link of a file that is kept: it is doomed now.
        rw [graph_direntDrop]
        cases hide with
        | false =>
          rw [graph_orphan]
          exact .kept hn ht
        | true =>
          have hfile : ∀ i, m.inodeFind dst.childFileid = some i → i.type ≠ .dir :=
            fun i hi => mem_unique hv hi ▸ ht
          rw [graph_unlinkOrphan now hfile]
          exact .last hn ht hlast
      · rw [graph_direntDrop, graph_inodeDrop]
        exact .last hn ht hlast

/-- An entry moves to another name; between directories the child gets its new parent, and
`k` links go from the one to the other. -/
def Graph.moved (g : Graph) (src : MemdbDirent) (k : ℕ) (dp : CatFileid) (dn : Name) : Graph :=
  if src.parent = dp then
    (g.unbind src.parent src.name).bind dp dn src.childFileid src.childType
  else
    ((((g.unbind src.parent src.name).bind dp dn src.childFileid src.childType).adjust
      src.childFileid (Node.under dp)).adjust src.parent (Node.subLinks k)).adjust dp
      (Node.addLinks k)

theorem graph_renameMove {src srcIsDir} :
    (renameMove now src srcIsDir dp dn m).graph hide =
      (m.graph hide).moved src (if srcIsDir then 1 else 0) dp dn := by
  unfold renameMove Graph.moved
  by_cases hp : src.parent = dp
  · rw [if_neg (not_not.mpr hp), if_pos hp, graph_parentTouch]
    rfl
  rw [if_pos hp, if_neg hp, graph_parentTouch, graph_parentTouch, graph_setParent]
  cases srcIsDir with
  | false =>
    have hsub : Node.subLinks 0 = id := rfl
    have hadd : Node.addLinks 0 = id := rfl
    simp only [Bool.false_eq_true, if_false, hsub, hadd, adjust_id]
    rfl
  | true =>
    simp only [if_true, graph_nlinkInc, graph_nlinkDec]
    -- The parent and the links of a node are changed independently.
    have hadd : ∀ n, Node.under dp (n.addLinks 1) = (Node.under dp n).addLinks 1 := fun _ => rfl
    have hsub : ∀ n, Node.under dp (n.subLinks 1) = (Node.under dp n).subLinks 1 := fun _ => rfl
    rw [adjust_comm _ _ _ hadd, adjust_comm _ _ _ hsub]
    rfl

/-- What RENAME leaves before the move: the namespace itself, or without the destination. -/
inductive Graph.Cleared (g : Graph) (src : MemdbDirent) (dp : CatFileid) (dn : Name) :
    Graph → Prop
  | free (hfree : g.find dp dn = none) : Cleared g src dp dn g
  | victim {dst : MemdbDirent} {g' : Graph} (hdst : g.find dp dn = some dst)
      (hne : dst.childFileid ≠ src.childFileid) (h : g.Unlinked dp dn dst g') :
      Cleared g src dp dn g'

/-- RENAME: nothing, or the destination is cleared and the entry moved. -/
theorem graph_renameLocked {sp sn}
    (hshown : ∀ d v, m.direntFind dp dn = some d → m.inodeFind d.childFileid = some v →
      v.shown hide = true)
    (h : renameLocked now sp sn dp dn nsFlags m = .ok m') :
    m' = m ∨ ∃ src g₁, (m.graph hide).find sp sn = some src ∧
      (∃ q, (m.graph hide).node dp = some q ∧ q.type = .dir) ∧ (m.graph hide).Cleared src dp dn g₁ ∧
      (m'.graph hide) = g₁.moved src (if m.childIsDir src then 1 else 0) dp dn := by
  obtain ⟨src, q, hsrc, hdp, hq, hren⟩ := renameLocked_ok h
  have hp := @Memdb.node_of_dir _ _ hide _ hdp hq
  cases hren with
  | noop => exact .inl rfl
  | free hfree => exact .inr ⟨src, m.graph hide, hsrc, hp, .free hfree, graph_renameMove⟩
  | @victim dst hdst hne hempty =>
    refine .inr ⟨src, _, hsrc, hp, .victim hdst hne ?_, graph_renameMove⟩
    have hpar : dst.parent = dp := parent_of_find (g := m.graph hide) hdst
    have hgone : (m.graph hide).Unlinked dst.parent dn dst
        (((renameDropVictim now nsFlags (m.childIsDir dst) dst m).direntDrop
          dst.parent dn).graph hide) :=
      graph_renameDropVictim (fun v hv => hshown dst v hdst hv) hempty
    rw [hpar] at hgone
    exact hgone

end Calls

end PnfsLattice
