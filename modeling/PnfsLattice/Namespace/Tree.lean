import PnfsLattice.Lib.Rooted
import PnfsLattice.Namespace.Steps

/-!
# The directory tree

Every directory can be reached from the root as long as no RENAME moves a directory into
itself or below itself. The catalogue does not look for that, and the test of `op_rename`
compares the path of the *source directory* with that of the destination: it does not see
the name that moves, and after PUTFH it has no paths to compare.
-/

namespace PnfsLattice

open Lib Relation List Option Memdb PnfsLattice.Graph

/-! ## Paths -/

namespace Graph

/-- An entry of `p` names `c`. -/
def Edge (g : Graph) (p c : CatFileid) : Prop := ∃ d ∈ g.entries, d.parent = p ∧ d.childFileid = c

def IsDir (g : Graph) (f : CatFileid) : Prop := ∃ n, g.node f = some n ∧ n.type = .dir

/-- Every directory is reached from the root. -/
def Rooted (g : Graph) : Prop := ∀ f, g.IsDir f → ReflTransGen g.Edge fileidRoot f

variable {g g' : Graph}

variable {p f x : CatFileid}

theorem Edge.of_entries {c} (h : g.Edge p c) (hsub : g.entries ⊆ g'.entries) : g'.Edge p c := by
  obtain ⟨d, hd, hp, hc⟩ := h
  exact ⟨d, hsub hd, hp, hc⟩

theorem reach_of_entries {a b} (h : ReflTransGen g.Edge a b) (hsub : g.entries ⊆ g'.entries) :
    ReflTransGen g'.Edge a b :=
  ReflTransGen.mono (fun _ _ he => Edge.of_entries he hsub) a b h

theorem isDir_adjust {a} (ht : ∀ n, (a n).type = n.type) : (g.adjust f a).IsDir x ↔ g.IsDir x := by
  constructor
  · rintro ⟨n, hn, hdir⟩
    obtain ⟨n', hn', rfl⟩ := exists_of_node_adjust hn
    refine ⟨n', hn', ?_⟩
    split at hdir
    · rwa [ht] at hdir
    · exact hdir
  · rintro ⟨n, hn, hdir⟩
    rw [IsDir, node_adjust, hn]
    split
    · exact ⟨a n, rfl, (ht n).trans hdir⟩
    · exact ⟨n, rfl, hdir⟩

theorem Shape.eq_of_find (hs : g.Shape) {name d e} (hd : g.find p name = some d)
    (he : e ∈ g.entries) (hkey : e.key = (p, name)) : e = d := by
  have hfound := findKey_of_mem hs.names he
  rw [hkey] at hfound
  exact mem_unique hfound hd

theorem isDir_of_setNode_none (h : (g.setNode f none).IsDir x) : g.IsDir x ∧ x ≠ f := by
  obtain ⟨n, hn, hdir⟩ := h
  rw [node_setNode] at hn
  split at hn
  · cases hn
  next hne => exact ⟨⟨n, hn, hdir⟩, hne⟩

namespace Rooted

theorem mono (h : g.Rooted) (hdir : ∀ f, g'.IsDir f → g.IsDir f)
    (hsub : g.entries ⊆ g'.entries) : g'.Rooted := fun f hf =>
  reach_of_entries (h f (hdir f hf)) hsub

variable {f p : CatFileid}

theorem adjust (h : g.Rooted) {a} (ht : ∀ n, (a n).type = n.type) : (g.adjust f a).Rooted :=
  h.mono (fun _ => (isDir_adjust ht).mp) fun _ hd => hd

theorem insert (h : g.Rooted) {n} (hp : g.IsDir p) (name : Name) :
    ((g.setNode f (some n)).bind p name f n.type).Rooted := by
  have hold : ∀ x, ReflTransGen g.Edge fileidRoot x →
      ReflTransGen ((g.setNode f (some n)).bind p name f n.type).Edge fileidRoot x := fun x hx =>
    reach_of_entries hx (subset_cons_self _ _)
  intro x hx
  by_cases hxf : x = f
  · exact (hold p (h p hp)).tail ⟨_, mem_cons_self, rfl, hxf.symm⟩
  · obtain ⟨n', hn', hdir⟩ := hx
    rw [node_bind, node_setNode, if_neg hxf] at hn'
    exact hold x (h x ⟨n', hn', hdir⟩)

theorem link (h : g.Rooted) (p : CatFileid) (name : Name) (f : CatFileid) (t : FileType) :
    (g.bind p name f t).Rooted :=
  h.mono (fun _ hf => hf) (subset_cons_self _ _)

theorem dropNode (h : g.Rooted) (f : CatFileid) : (g.setNode f none).Rooted :=
  h.mono (fun _ hf => (isDir_of_setNode_none hf).1) fun _ hd => hd

variable {name : Name} {d src : MemdbDirent} {dp : CatFileid} {dn : Name}

/-- The entry of a child that has no entries of its own, and is a directory no longer. -/
theorem unbindLeaf (h : g.Rooted) (hd : g.find p name = some d)
    (hleaf : ∀ e ∈ g.entries, e.parent ≠ d.childFileid)
    (hdir : ∀ f, g'.IsDir f → g.IsDir f ∧ f ≠ d.childFileid)
    (hentries : g'.entries = (g.unbind p name).entries) (hs : g.Shape) : g'.Rooted := by
  intro f hf
  obtain ⟨hf, hne⟩ := hdir f hf
  -- Nothing is reached through the leaf.
  refine reach_of_closed (P := fun x => x ≠ d.childFileid) ?_ ?_ (h f hf) hne
  · rintro a b ⟨e, he, rfl, -⟩ -
    exact hleaf e he
  rintro a b ⟨e, he, rfl, rfl⟩ hb
  refine ⟨e, ?_, rfl, rfl⟩
  rw [hentries]
  refine mem_eraseKey.mpr ⟨he, fun hkey => hb ?_⟩
  rw [hs.eq_of_find hd he hkey]

theorem unlinked (h : g.Rooted) (hu : g.Unlinked p name d g') (hd : g.find p name = some d)
    (hs : g.Shape) : g'.Rooted := by
  have hentries := hu.entries_eq
  -- Only a directory has entries.
  have hfile : ¬ g.IsDir d.childFileid → ∀ e ∈ g.entries, e.parent ≠ d.childFileid := by
    intro hno e he heq
    exact hno (heq ▸ hs.parents e he)
  have hnot : ∀ {n}, g.node d.childFileid = some n → n.type ≠ .dir → ¬ g.IsDir d.childFileid := by
    rintro n hn ht ⟨_, hn', ht'⟩
    exact ht (mem_unique hn hn' ▸ ht')
  cases hu with
  | dangling hn =>
    have hno : ¬ g.IsDir d.childFileid := by
      rintro ⟨n, hn', -⟩
      cases hn.symm.trans hn'
    exact h.unbindLeaf hd (hfile hno) (fun f hf => ⟨hf, fun heq => hno (heq ▸ hf)⟩) hentries hs
  | dir _ _ hempty =>
    refine h.unbindLeaf hd hempty (fun f hf => ?_) hentries hs
    exact isDir_of_setNode_none ((isDir_adjust fun n => n.type_subLinks 1).mp hf)
  | last hn ht =>
    exact h.unbindLeaf hd (hfile (hnot hn ht)) (fun f hf => isDir_of_setNode_none hf) hentries hs
  | kept hn ht =>
    refine h.unbindLeaf hd (hfile (hnot hn ht)) (fun f hf => ?_) hentries hs
    have hf' : g.IsDir f := (isDir_adjust fun n => n.type_subLinks 1).mp hf
    exact ⟨hf', fun heq => hnot hn ht (heq ▸ hf')⟩

theorem entries_moved (g : Graph) (src : MemdbDirent) (k : ℕ) (dp : CatFileid) (dn : Name) :
    (g.moved src k dp dn).entries =
      ((g.unbind src.parent src.name).bind dp dn src.childFileid src.childType).entries := by
  unfold Graph.moved
  split <;> rfl

theorem isDir_of_moved {k} (h : (g.moved src k dp dn).IsDir f) : g.IsDir f := by
  unfold Graph.moved at h
  split at h
  · exact h
  · have hadd := (isDir_adjust fun n => n.type_addLinks k).mp h
    have hsub := (isDir_adjust fun n => n.type_subLinks k).mp hadd
    exact (isDir_adjust (a := Node.under dp) fun _ => rfl).mp hsub

theorem moved (h : g.Rooted) {sp sn} (k : ℕ) (hsrc : g.find sp sn = some src) (hp : g.IsDir dp)
    (hout : ¬ ReflTransGen g.Edge src.childFileid dp) (hs : g.Shape) :
    (g.moved src k dp dn).Rooted := by
  obtain ⟨rfl, rfl⟩ := name_of_find hsrc
  intro f hf
  refine reach_graft ?_ ?_ (h dp hp) hout (h f (isDir_of_moved hf))
  · rintro a b ⟨e, he, rfl, rfl⟩ hb
    refine ⟨e, ?_, rfl, rfl⟩
    rw [entries_moved]
    refine mem_cons_of_mem _ (mem_eraseKey.mpr ⟨he, fun hkey => hb ?_⟩)
    rw [hs.eq_of_find hsrc he hkey]
  · unfold Edge
    rw [entries_moved]
    exact ⟨_, mem_cons_self, rfl, rfl⟩

end Rooted

/-- A rooted graph of the right shape has no cycle. -/
theorem Shape.acyclic (hs : g.Shape) (h : g.Rooted) (f : CatFileid) : ¬ TransGen g.Edge f f := by
  intro hcycle
  have hdir : ∀ {a b}, g.Edge a b → g.IsDir a := by
    rintro a b ⟨d, hd, rfl, -⟩
    exact hs.parents d hd
  obtain ⟨b, hfb, -⟩ := TransGen.head'_iff.mp hcycle
  refine not_cycle_of_rooted ?_ ?_ (h f (hdir hfb)) hcycle
  · rintro a ⟨d, hd, -, hroot⟩
    exact hs.rootless d hd hroot
  -- A directory other than the root has one entry, in the parent it records.
  rintro a b c d ⟨e, he, rfl, rfl⟩ ⟨e', he', rfl, hec⟩ hcd
  obtain ⟨n, hn, ht⟩ := hdir hcd
  have hnamed := (hs.named _ n hn ht (hs.rootless e he)).2
  exact (hnamed e he rfl).symm.trans (hnamed e' he' hec)

end Graph

/-! ## The system -/

/-- Every directory is reached from the root, and none lies above itself. -/
structure DirTree (m : Memdb) : Prop where
  reached : ∀ f ino, m.inodeFind f = some ino → ino.type = .dir →
    ReflTransGen (m.graph false).Edge fileidRoot f
  acyclic : ∀ f, ¬ TransGen (m.graph false).Edge f f

/-- The change of a RENAME does not move a directory into itself or below itself. -/
def RenameOutside (s : NsSys) : NsOp → Prop
  | .job j _ => ∀ a victim keep map, s.jobs[j]? = some (.renameCommit a victim keep map) →
    ∀ d, s.cat.direntFind a.srcParent a.srcName = some d →
      ¬ ReflTransGen (s.cat.graph false).Edge d.childFileid a.dstParent
  | _ => True

structure Graph.Tree (g : Graph) : Prop where
  shape : g.Shape
  rooted : g.Rooted

theorem Graph.Tree.dirTree {m} (h : (m.graph false).Tree) : DirTree m :=
  ⟨fun f ino hi ht => h.rooted f ⟨ino.node, node_of_inodeFind hi rfl, ht⟩, h.shape.acyclic h.rooted⟩

section Calls

variable {m m' : Memdb} {now : ℕ}

variable {a : CreateArgs} {p sp dp : CatFileid} {sn dn : Name} {nsFlags : UInt32}

theorem tree_memNsCreate (ht : (m.graph false).Tree) {child}
    (h : memNsCreate now a m = .ok (child, m')) : (m'.graph false).Tree := by
  refine ⟨shape_memNsCreate ht.shape h, ?_⟩
  obtain ⟨hp, -, -, heq⟩ := @graph_memNsCreate _ _ _ false _ _ h
  have halloc : (m.graph false).alloc.Rooted := ht.rooted.mono (fun _ hf => hf) fun _ hd => hd
  rw [heq]
  exact (halloc.insert hp a.name).adjust fun _ => rfl

theorem tree_createWideCall (ht : (m.graph false).Tree) {alloc w} :
    ((createWideCall now alloc a w m).graph false).Tree := by
  have halloc : (({ m with nextFileid := m.nextFileid + 1 } : Memdb).graph false).Tree :=
    ⟨ht.shape.alloc, ht.rooted.mono (fun _ hf => hf) fun _ hd => hd⟩
  unfold createWideCall memAllocFileid
  dsimp only
  split
  next hm' =>
    obtain ⟨hp, -, -, -, -, heq⟩ := @graph_memNsCreateWide _ _ _ false _ _ rfl hm'
    refine ⟨shape_memNsCreateWide halloc.shape rfl (Nat.lt_succ_self _) ?_ hm', ?_⟩
    · exact fun d hd => (ht.shape.childLt d hd).ne
    · rw [heq]
      exact halloc.rooted.insert hp a.name
  next => exact halloc

variable {name : Name}

section

variable (ht : (m.graph false).Tree)

include ht

theorem tree_memNsLink {target} (h : memNsLink now p name target m = .ok m') :
    (m'.graph false).Tree := by
  refine ⟨shape_memNsLink ht.shape (fun _ _ => rfl) h, ?_⟩
  obtain ⟨t, -, -, -, -, heq⟩ := @graph_memNsLink _ _ _ false _ _ _ (fun _ _ => rfl) h
  rw [heq]
  exact (ht.rooted.link p name target t.type).adjust fun _ => rfl

theorem tree_unlinkLocked {guard gc final}
    (h : unlinkLocked now p name guard gc m = .ok (final, m')) : (m'.graph false).Tree := by
  obtain ⟨d, hd, hu⟩ := @graph_unlinkLocked _ _ _ false _ _ _ _ _ (fun _ _ _ _ => rfl) h
  exact ⟨hu.shape hd ht.shape, ht.rooted.unlinked hu hd ht.shape⟩

theorem tree_renameLocked
    (hout : ∀ d, m.direntFind sp sn = some d → ¬ ReflTransGen (m.graph false).Edge d.childFileid dp)
    (h : renameLocked now sp sn dp dn nsFlags m = .ok m') : (m'.graph false).Tree := by
  rcases @graph_renameLocked _ _ _ false _ _ _ _ _ (fun _ _ _ _ => rfl) h with
    rfl | ⟨src, g₁, hsrc, hp, hcl, heq⟩
  · exact ht
  obtain ⟨hsrc₁, hfree, hp₁⟩ := hcl.ready hsrc hp
  have hs₁ := hcl.shape ht.shape
  -- What the overwritten entry leaves is a tree, with no more entries than before.
  have hleft : g₁.Rooted ∧ g₁.entries ⊆ (m.graph false).entries := by
    cases hcl with
    | free => exact ⟨ht.rooted, fun _ hd => hd⟩
    | victim hdst _ hu =>
      refine ⟨ht.rooted.unlinked hu hdst ht.shape, fun e he => ?_⟩
      rw [hu.entries_eq] at he
      exact (mem_entries_unbind he).1
  rw [heq]
  refine ⟨hs₁.moved hsrc₁ hfree hp₁ _, hleft.1.moved _ hsrc₁ hp₁ (fun hbelow => ?_) hs₁⟩
  exact hout src hsrc (reach_of_entries hbelow hleft.2)

theorem tree_enqueueUnlink {dir child gen} (hfile : FileAt m child)
    (h : memRemovePendingEnqueueUnlink dir name child gen m = .ok m') : (m'.graph false).Tree := by
  obtain ⟨d, ino, hd, rfl, hino, rfl⟩ := enqueueUnlink_ok h
  have hn : (m.graph false).node d.childFileid = some ino.node := node_of_inodeFind hino rfl
  have htype := hfile.2 ino hino
  have hgraph : (((m.inodeModify d.childFileid (setFlag iflagDeletePending)).direntDrop dir
      name).removePendingInsert dir name d.childFileid gen).graph false =
      (m.graph false).unbind dir name :=
    congrArg (fun g : Graph => g.unbind dir name) (graph_setFlag _)
  have hrec := ht.shape.recorded d (mem_of_find hd) _ hn
  have hno : ¬ (m.graph false).IsDir d.childFileid := by
    rintro ⟨n, hn', hdir⟩
    obtain rfl := mem_unique hn hn'
    exact htype hdir
  rw [hgraph]
  refine ⟨ht.shape.unbindFile hd fun hdir => htype (hrec.symm.trans hdir),
    ht.rooted.unbindLeaf hd (fun e he heq => hno (heq ▸ ht.shape.parents e he))
      (fun f hf => ⟨hf, fun heq => hno (heq ▸ hf)⟩) rfl ht.shape⟩

theorem tree_cleanupStep {c f act rest} (hfile : act = .inodeDel → FileAt m f) :
    ((cleanupStep c m f rest act).1.graph false).Tree := by
  have hcall := @cleanupCall m f c rest act
  generalize (cleanupStep c m f rest act).1 = m' at hcall
  cases hcall with
  | inodeDel =>
    rw [graph_inodeDrop]
    refine ⟨ht.shape.dropFile fun n hn => ?_, ht.rooted.dropNode f⟩
    obtain ⟨ino, hi, -, rfl⟩ := inodeFind_of_node hn
    exact (hfile rfl).2 ino hi
  | _ => exact ht

end

end Calls

/-- What every reachable state satisfies. -/
structure NsSys.TreeInv (s : NsSys) : Prop where
  files : s.Files
  tree : (s.cat.graph false).Tree

variable {s : NsSys}

theorem treeInv_start (h : NsStart s) : s.TreeInv := by
  refine ⟨files_start h, ?_⟩
  obtain ⟨now, rfl⟩ := h
  refine ⟨(good_start ⟨now, rfl⟩ false).shape, ?_⟩
  rintro f ⟨n, hn, -⟩
  -- There is no directory but the root.
  obtain ⟨ino, hi, -, -⟩ := inodeFind_of_node hn
  have hino : ino = rootInode now := mem_singleton.mp (mem_of_findKey hi)
  have hf := fileid_of_inodeFind hi
  rw [hino] at hf
  exact hf ▸ .refl

theorem tree_jobStep (hs : s.TreeInv) {j c job} (hj : s.jobs[j]? = some job)
    (hout : RenameOutside s (.job j c)) : ((jobStep c s.cat job).1.graph false).Tree := by
  have hfiles := hs.files.jobs job (mem_of_getElem? hj)
  have hcall := jobCall c s.cat job
  generalize (jobStep c s.cat job).1 = m' at hcall
  cases hcall with
  | none => exact hs.tree
  | submit _ h => exact tree_enqueueUnlink hs.tree hfiles h
  | remove h => exact tree_unlinkLocked hs.tree h
  | rename h =>
    unfold memNsRenameFlags at h
    split at h
    · cases h
    · exact tree_renameLocked hs.tree (hout _ _ _ _ hj) h
  | cleanup =>
    refine tree_cleanupStep hs.tree fun hact => hfiles ?_
    exact hact ▸ mem_cons_self

variable {op : NsOp}

theorem treeInv_step {s'} (hs : s.TreeInv) (hout : RenameOutside s op)
    (h : nsSysStep s op = some s') : s'.TreeInv := by
  have hstep := sysStep h
  refine ⟨files_step hs.files hstep, ?_⟩
  cases hstep with
  | other hcat => exact hcat ▸ hs.tree
  | create hok => exact tree_memNsCreate hs.tree hok
  | createWide => exact tree_createWideCall hs.tree
  | link _ _ hok => exact tree_memNsLink hs.tree hok
  | queue => exact hs.tree
  | job hj => exact tree_jobStep hs hj hout

/-- The directory tree stays a tree, in every interleaving of creates, LINKs, REMOVEs and
RENAMEs through filehandles of any kind, if no RENAME moves a directory below itself. -/
theorem directories_rooted {s : NsSys} (h : Reachable NsStart nsSysStep RenameOutside s) :
    DirTree s.cat :=
  (h.invariant (fun _ => treeInv_start) fun _ _ _ hs hout hstep =>
    treeInv_step hs hout hstep).tree.dirTree

/-- What the job moves is a file or an empty directory, and is not moved into itself. -/
def Job.MovesLeaf (m : Memdb) : Job → Prop
  | .renameCommit a _ _ _ =>
    ∀ d ∈ m.direntFind a.srcParent a.srcName, d.childFileid ≠ a.dstParent ∧
      ∀ e ∈ m.dirents, e.parent ≠ d.childFileid
  | _ => True

instance (m : Memdb) : (job : Job) → Decidable (job.MovesLeaf m)
  | .renameCommit a _ _ _ => inferInstanceAs
      (Decidable (∀ d ∈ m.direntFind a.srcParent a.srcName, _ ≠ _ ∧ ∀ e ∈ m.dirents, _ ≠ _))
  | .removeSnapshot .. | .removePrefetch .. | .removeSubmit .. | .removeCommit ..
  | .renameSnapshot .. | .closeRead .. | .drainDirent .. | .drainAttr .. | .cleanup .. | .done =>
    instDecidableTrue

/-- RENAMEs move files and empty directories. -/
def RenameLeaf (s : NsSys) : NsOp → Prop
  | .job j _ => ∀ job ∈ s.jobs[j]?, job.MovesLeaf s.cat
  | _ => True

instance (s : NsSys) : (op : NsOp) → Decidable (RenameLeaf s op)
  | .job j _ => inferInstanceAs (Decidable (∀ job ∈ s.jobs[j]?, job.MovesLeaf s.cat))
  | .compound | .fh .. | .create .. | .createWide .. | .link .. | .remove .. | .rename ..
  | .close .. | .drain .. => instDecidableTrue

theorem RenameLeaf.outside (h : RenameLeaf s op) : RenameOutside s op := by
  cases op with
  | job =>
    intro a _ _ _ hj d hd hbelow
    obtain ⟨hne, hempty⟩ := h _ hj d hd
    rcases hbelow.cases_head with heq | ⟨f, ⟨e, he, hp, -⟩, -⟩
    · exact hne heq
    · exact hempty e he hp
  | _ => trivial

/-! ### Runs -/

def makeDir (name : Name) : NsOp := .create 0 1 name .dir 0o755 0 0

/-- Two directories; the first one is moved into the second. -/
def moveIntoSibling : List NsOp :=
  [.compound, .fh 0 .putrootfh, makeDir [97], makeDir [98], .fh 0 .savefh, .fh 0 (.lookup [98]),
    .rename 0 [97] [99], runJob 0 false, runJob 0 false]

theorem directories_rooted_sibling : ∃ s, exec nsSysStep newServer moveIntoSibling = some s ∧
      s.cat.direntFind (fileidRoot + 2) [99] ≠ none ∧ DirTree s.cat := by
  have hreach : Reachable NsStart nsSysStep RenameLeaf _ :=
    .run newServer moveIntoSibling nsStart_newServer
  exact ⟨_, rfl, by decide, directories_rooted (hreach.mono (fun _ => id) fun _ _ =>
    RenameLeaf.outside)⟩

/-- RENAME of `/a` to `/a/b`, with the paths of LOOKUP: the saved one is `/`. -/
def moveBelowByPath : List NsOp :=
  [.compound, .fh 0 .putrootfh, makeDir [97], .fh 0 .savefh, .fh 0 (.lookup [97]),
    .rename 0 [97] [98], runJob 0 false, runJob 0 false]

/-- The same below a directory `/d`, with the filehandles of PUTFH, which have no paths. -/
def moveBelowByHandle : List NsOp :=
  [.compound, .fh 0 .putrootfh, makeDir [100], .fh 0 (.putfh (fileidRoot + 1)), makeDir [97],
    .fh 0 .savefh, .fh 0 (.putfh (fileidRoot + 2)), .rename 0 [97] [98], runJob 0 false,
    runJob 0 false]

theorem directory_below_itself : (∃ s, exec nsSysStep newServer moveBelowByPath = some s ∧
      TransGen (s.cat.graph false).Edge (fileidRoot + 1) (fileidRoot + 1) ∧ ¬ DirTree s.cat) ∧
    ∃ s, exec nsSysStep newServer moveBelowByHandle = some s ∧
      TransGen (s.cat.graph false).Edge (fileidRoot + 2) (fileidRoot + 2) ∧ ¬ DirTree s.cat := by
  have hpath : ∀ (m : Memdb) (f : CatFileid), (∃ d ∈ m.dirents, d.parent = f ∧ d.childFileid = f) →
      TransGen (m.graph false).Edge f f ∧ ¬ DirTree m := fun m f hd =>
    ⟨.single hd, fun ht => ht.acyclic f (.single hd)⟩
  exact ⟨⟨_, rfl, hpath _ _ (by decide)⟩, ⟨_, rfl, hpath _ _ (by decide)⟩⟩

/-! ## The cycle test -/

/-- The path that PUTROOTFH and LOOKUPs of these names leave. -/
def lookupPath (names : List Name) : Name :=
  names.foldl (fun path name => PathFh.child ⟨0, path⟩ name) [slash]

section CycleTest

variable {names src dst : List Name}

theorem name_of_validateName {n} (h : validateName n = true) : n ≠ [] ∧ slash ∉ n := by
  simp only [validateName, Bool.and_eq_true, Bool.not_eq_true', isEmpty_eq_false_iff,
    decide_eq_true_eq] at h
  exact ⟨h.1.1.1, h.2⟩

/-- Below the root a path is its names, each after a slash. -/
theorem lookupPath_eq (hvalid : ∀ n ∈ names, validateName n = true) :
    lookupPath names = if names = [] then [slash] else names.flatMap (slash :: ·) := by
  induction names using List.reverseRecOn with
  | nil => rfl
  | append_singleton names n ih =>
    have hlast : lookupPath (names ++ [n]) = PathFh.child ⟨0, lookupPath names⟩ n := by
      simp [lookupPath]
    rw [hlast, ih fun m hm => hvalid m (mem_append_left _ hm), PathFh.child]
    cases names with
    | nil => simp
    | cons m =>
      have hm := (name_of_validateName (hvalid m (by simp))).1
      simp [hm]

variable {a b : Name}

theorem name_append_inj {x y} (ha : slash ∉ a) (hb : slash ∉ b) (hx : x.head? = some slash)
    (hy : ∀ c ∈ y.head?, c = slash) (h : a ++ x = b ++ y) : a = b ∧ x = y := by
  induction a generalizing b with
  | nil =>
    cases b with
    | nil => exact ⟨rfl, h⟩
    | cons =>
      rw [nil_append] at h
      rw [h] at hx
      cases hx
      exact absurd mem_cons_self hb
  | cons d a ih =>
    cases b with
    | nil =>
      rw [nil_append] at h
      rw [← h] at hy
      exact absurd (hy d rfl ▸ mem_cons_self) ha
    | cons =>
      obtain ⟨rfl, htail⟩ := List.cons.inj h
      obtain ⟨rfl, hrest⟩ := ih (fun hin => ha (mem_cons_of_mem _ hin))
        (fun hin => hb (mem_cons_of_mem _ hin)) htail
      exact ⟨rfl, hrest⟩

/-- A path that goes on below another has its names in front. -/
theorem prefix_of_flatMap (hsrc : ∀ n ∈ src, slash ∉ n) (hdst : ∀ n ∈ dst, slash ∉ n) {t : Name}
    (h : src.flatMap (slash :: ·) ++ slash :: t = dst.flatMap (slash :: ·)) :
    ∃ r, r ≠ [] ∧ dst = src ++ r := by
  induction src generalizing dst with
  | nil =>
    refine ⟨dst, ?_, rfl⟩
    rintro rfl
    cases h
  | cons a src ih =>
    cases dst with
    | nil => cases h
    | cons b dst =>
      rw [forall_mem_cons] at hsrc hdst
      simp only [flatMap_cons, cons_append, append_assoc] at h
      obtain ⟨rfl, hrest⟩ := name_append_inj hsrc.1 hdst.1
        (by cases src <;> rfl) (by cases dst <;> simp) (List.cons.inj h).2
      obtain ⟨r, hr, rfl⟩ := ih hsrc.2 hdst.2 hrest
      exact ⟨r, hr, rfl⟩

theorem pathAbove_iff : pathAbove a b = true ↔ a ≠ [] ∧ ∃ t, b = a ++ slash :: t := by
  simp only [pathAbove, Bool.and_eq_true, Bool.not_eq_true', isEmpty_eq_false_iff,
    isPrefixOf_iff_prefix, beq_iff_eq]
  constructor
  · rintro ⟨⟨⟨ha, -⟩, t, rfl⟩, hslash⟩
    cases t with
    | nil => simp at hslash
    | cons c t =>
      simp at hslash
      exact ⟨ha, t, by rw [hslash]⟩
  · rintro ⟨ha, t, rfl⟩
    exact ⟨⟨⟨ha, by simp⟩, prefix_append _ _⟩, by simp⟩

/-- **The cycle test of RENAME lets a move pass** exactly if the source directory is the root, is
the destination directory, or is not above it, whatever the name that moves. -/
theorem cycle_test_passes_iff (hsrc : ∀ n ∈ src, validateName n = true)
    (hdst : ∀ n ∈ dst, validateName n = true) :
    pathAbove (lookupPath src) (lookupPath dst) = false ↔
      src = [] ∨ src = dst ∨ ¬ src <+: dst := by
  have hs := fun n hn => name_of_validateName (hsrc n hn)
  have hd := fun n hn => name_of_validateName (hdst n hn)
  rw [← not_iff_not, Bool.not_eq_false, pathAbove_iff, lookupPath_eq hsrc, lookupPath_eq hdst,
    not_or, not_or, not_not]
  constructor
  · rintro ⟨-, t, ht⟩
    cases src with
    | nil =>
      -- No name begins with a slash.
      cases dst with
      | nil => simp at ht
      | cons n =>
        obtain ⟨hne, -⟩ := hd n mem_cons_self
        cases n with
        | nil => exact absurd rfl hne
        | cons => simp_all
    | cons =>
      cases dst with
      | nil => simp at ht
      | cons =>
        obtain ⟨r, hr, heq⟩ := prefix_of_flatMap (fun n hn => (hs n hn).2)
          (fun n hn => (hd n hn).2) ht.symm
        refine ⟨cons_ne_nil _ _, fun hsame => hr ?_, heq ▸ prefix_append _ _⟩
        exact append_cancel_left ((hsame.trans heq).symm.trans (append_nil _).symm)
  · rintro ⟨hne, hsame, r, rfl⟩
    cases r with
    | nil => exact absurd (append_nil _).symm hsame
    | cons => simp [hne, exists_mem_of_ne_nil]

/-- From one directory below the root into another. -/
theorem cycle_test_passes_across :
    pathAbove (lookupPath [[97]]) (lookupPath [[98], [99]]) = false :=
  (cycle_test_passes_iff (by decide) (by decide)).mpr (.inr (.inr (by decide)))

/-- A file `/a/f` is to be moved into `/a/b`: the test takes it for a cycle. -/
theorem cycle_test_refuses_subdirectory : ¬ [[97], [102]] <+: ([[97], [98]] : List Name) ∧
      pathAbove (lookupPath [[97]]) (lookupPath [[97], [98]]) = true := by
  decide

end CycleTest

end PnfsLattice
