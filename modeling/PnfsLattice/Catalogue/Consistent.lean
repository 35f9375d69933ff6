import PnfsLattice.Catalogue.Refine
import PnfsLattice.Lib.Machine

/-!
# The namespace of the catalogue is consistent

From a catalogue with only the root directory, link counts are the numbers of entries after
any calls.
-/

namespace PnfsLattice

open Lib List Option Memdb PnfsLattice.Graph

/-! ## Moving within the invariant -/

namespace Graph

variable {g g₁ : Graph} {src : MemdbDirent} {sp dp : CatFileid} {sn dn : Name}

theorem find_unbind (g : Graph) (p : CatFileid) (name : Name) :
    (g.unbind p name).find p name = none := by
  rw [find, findKey_eq_none]
  exact fun e he => (mem_entries_unbind he).2

theorem find_unbind_of_ne (g : Graph) {p q name name'} (hne : (p, name) ≠ (q, name')) :
    (g.unbind q name').find p name = g.find p name := by
  rw [find, unbind, findKey_eraseKey, if_neg hne, find]

theorem find_congr {g' : Graph} (h : g'.entries = g.entries) (p : CatFileid) (name : Name) :
    g'.find p name = g.find p name := by
  rw [find, find, h]

theorem Cleared.ready (h : g.Cleared src dp dn g₁) (hsrc : g.find sp sn = some src)
    (hp : ∃ q, g.node dp = some q ∧ q.type = .dir) :
    g₁.find sp sn = some src ∧ g₁.find dp dn = none ∧ ∃ q, g₁.node dp = some q ∧ q.type = .dir := by
  cases h with
  | free hfree => exact ⟨hsrc, hfree, hp⟩
  | victim hdst hne hun =>
    have hkey : (sp, sn) ≠ (dp, dn) := by
      intro heq
      cases heq
      exact hne (congrArg _ (mem_unique hdst hsrc))
    rw [find_congr hun.entries_eq, find_congr hun.entries_eq, find_unbind_of_ne g hkey]
    exact ⟨hsrc, find_unbind g dp dn, hun.parent_kept hdst hp⟩

theorem Cleared.shape (h : g.Cleared src dp dn g₁) (hs : g.Shape) : g₁.Shape := by
  cases h with
  | free => exact hs
  | victim hdst _ hun => exact hun.shape hdst hs

theorem name_of_find (hd : g.find sp sn = some src) : src.parent = sp ∧ src.name = sn :=
  ⟨parent_of_find hd, congrArg Prod.snd (key_of_findKey hd)⟩

theorem Shape.moved (hs : g.Shape) (hsrc : g.find sp sn = some src) (hfree : g.find dp dn = none)
    (hp : ∃ q, g.node dp = some q ∧ q.type = .dir) (k : ℕ) : (g.moved src k dp dn).Shape := by
  obtain ⟨rfl, rfl⟩ := name_of_find hsrc
  unfold Graph.moved
  split
  next hsame =>
    have hmove := hs.move hsrc hp hfree (a := id) (fun _ => rfl) fun n hn ht => ?_
    · rw [adjust_id] at hmove
      exact hmove
    · have hroot := hs.rootless src (mem_of_find hsrc)
      exact ((hs.named _ n hn ht hroot).2 src (mem_of_find hsrc) rfl).trans hsame
  next hne =>
    have hmove := hs.move hsrc hp hfree (a := Node.under dp) (fun _ => rfl) fun _ _ _ => rfl
    refine Shape.adjust (Shape.adjust hmove ?_ ?_) ?_ ?_
    all_goals intros; rfl

theorem Counts.moved (hs : g.Shape) (hc : g.Counts) (hsrc : g.find sp sn = some src)
    (hs' : (g.moved src (if src.childType = .dir then 1 else 0) dp dn).Shape) :
    (g.moved src (if src.childType = .dir then 1 else 0) dp dn).Counts := by
  obtain ⟨rfl, rfl⟩ := name_of_find hsrc
  by_cases hsame : src.parent = dp
  · exact hc.move_within hs hs' hsrc (by rw [Graph.moved, if_pos hsame, ← hsame])
  · exact hc.move_across hs hs' hsrc hsame (a := Node.under dp) (fun _ => rfl) (fun _ => rfl)
      (if_neg hsame)

theorem Cookies.moved (h : g.Cookies) (k : ℕ) : (g.moved src k dp dn).Cookies := by
  have hbind := (h.unbind src.parent src.name).bind dp dn src.childFileid src.childType
  unfold Graph.moved
  split
  · exact hbind
  · exact { hbind with }

/-- The invariant of the namespace. -/
structure Good (g : Graph) : Prop where
  shape : g.Shape
  counts : g.Counts
  cookies : g.Cookies

theorem Unlinked.good {p name d} (h : g.Unlinked p name d g₁) (hd : g.find p name = some d)
    (hg : g.Good) : g₁.Good := by
  refine ⟨h.shape hd hg.shape, h.counts hd hg.shape hg.counts, ?_⟩
  have hunbind := hg.cookies.unbind p name
  cases h <;> exact { hunbind with }

end Graph

variable {m : Memdb}

theorem childIsDir_eq {hide} (hs : (m.graph hide).Shape) {d} (hd : d ∈ m.dirents) : m.childIsDir d =
    decide (d.childType = .dir) := by
  unfold Memdb.childIsDir
  cases hi : m.inodeFind d.childFileid with
  | none => rfl
  | some ino =>
    cases hshown : ino.shown hide with
    | true =>
      have hrec := hs.recorded d hd _ (node_of_inodeFind hi hshown)
      rw [hrec, MdsInode.type_node]
    | false =>
      -- A doomed file: neither it nor its entry is one of a directory.
      have hino : ino.type ≠ .dir := fun ht => by simp [MdsInode.shown, ht] at hshown
      have hentry : d.childType ≠ .dir := by
        intro ht
        obtain ⟨n, hn⟩ := hs.dirs d hd ht
        simp [hi, Option.filter, hshown] at hn
      simp [hino, hentry]

/-! ## The calls keep the invariant -/

section Keep

variable {m m' : Memdb} {now : ℕ} {hide : Bool}

theorem Graph.Counts.shown (hc : (m.graph hide).Counts) {d} (hd : d ∈ (m.graph hide).entries) {c}
    (h : m.inodeFind d.childFileid = some c) : c.shown hide = true := by
  obtain ⟨n, hn⟩ := hc.live d hd
  obtain ⟨_, hino, hs, -⟩ := inodeFind_of_node hn
  exact mem_unique hino h ▸ hs

theorem shape_memNsCreate (hs : (m.graph hide).Shape) {a child}
    (h : memNsCreate now a m = .ok (child, m')) : (m'.graph hide).Shape := by
  obtain ⟨hp, hfree, rfl, heq⟩ := graph_memNsCreate h
  have hnone : (m.graph hide).node m.nextFileid = none := by
    cases hn : (m.graph hide).node m.nextFileid with
    | none => rfl
    | some n => exact absurd (hs.nodeLt _ n hn) (lt_irrefl _)
  have hnew : ∀ d ∈ (m.graph hide).entries, d.childFileid ≠ m.nextFileid := fun d hd =>
    (hs.childLt d hd).ne
  have hinsert : (((m.graph hide).alloc.setNode m.nextFileid
      (some (a.child m.nextFileid now).node)).bind a.parent a.name m.nextFileid
      (a.child m.nextFileid now).node.type).Shape :=
    hs.alloc.insert hp hfree hnone (Nat.lt_succ_self _) rfl (fun _ => hnew)
      fun d hd hc => absurd hc (hnew d hd)
  rw [heq]
  exact hinsert.adjust (fun _ => rfl) fun _ _ _ => rfl

theorem good_memNsCreate (hg : (m.graph hide).Good) {a child}
    (h : memNsCreate now a m = .ok (child, m')) : (m'.graph hide).Good := by
  have hshape := shape_memNsCreate hg.shape h
  obtain ⟨-, -, rfl, heq⟩ := graph_memNsCreate h
  have hnone : (m.graph hide).node m.nextFileid = none := by
    cases hn : (m.graph hide).node m.nextFileid with
    | none => rfl
    | some n => exact absurd (hg.shape.nodeLt _ n hn) (lt_irrefl _)
  have halloc : (m.graph hide).alloc.Counts :=
    ⟨hg.counts.live, hg.counts.fileLinks, hg.counts.dirLinks⟩
  have hcounts := halloc.insert hg.shape.alloc hshape hnone rfl heq
  have hcookies := hg.cookies.bind a.parent a.name m.nextFileid a.type
  rw [heq] at hshape hcounts ⊢
  exact ⟨hshape, hcounts, { hcookies with }⟩

theorem shape_memNsCreateWide (hs : (m.graph hide).Shape) {alloc a}
    (hshown : a.child.shown hide = true) (hlt : a.child.fileid < m.nextFileid)
    (hnew : ∀ d ∈ m.dirents, d.childFileid ≠ a.child.fileid)
    (h : memNsCreateWide now alloc a m = .ok m') : (m'.graph hide).Shape := by
  obtain ⟨hp, hfree, hnone, hpar, -, heq⟩ := graph_memNsCreateWide hshown h
  rw [heq]
  exact hs.insert hp hfree hnone hlt hpar (fun _ => hnew) fun d hd hc => absurd hc (hnew d hd)

theorem good_memNsCreateWide (hg : (m.graph hide).Good) {alloc a}
    (hshown : a.child.shown hide = true) (hlt : a.child.fileid < m.nextFileid)
    (hnlink : a.child.nlink = 1) (h : memNsCreateWide now alloc a m = .ok m') :
    (m'.graph hide).Good := by
  obtain ⟨-, -, hnone, -, htype, heq⟩ := graph_memNsCreateWide hshown h
  have hnew : ∀ d ∈ m.dirents, d.childFileid ≠ a.child.fileid := by
    intro d hd hc
    obtain ⟨n, hn⟩ := hg.counts.live d hd
    rw [hc, hnone] at hn
    cases hn
  have hshape := shape_memNsCreateWide hg.shape hshown hlt hnew h
  have hfile : ¬ a.child.node.type = .dir := by rw [htype]; decide
  have hzero : Node.addLinks 0 = id := rfl
  have hcounts := hg.counts.insert hg.shape hshape hnone (n := a.child.node)
    (by rw [if_neg hfile]; exact hnlink) (by rw [if_neg hfile, hzero, adjust_id]; exact heq)
  have hcookies := hg.cookies.bind a.parentFileid a.name a.child.fileid a.child.type
  rw [heq] at hshape hcounts ⊢
  exact ⟨hshape, hcounts, { hcookies with }⟩

variable {parent : CatFileid} {name : Name}

theorem shape_memNsLink (hs : (m.graph hide).Shape) {target}
    (hshown : ∀ t, m.inodeFind target = some t → t.shown hide = true)
    (h : memNsLink now parent name target m = .ok m') : (m'.graph hide).Shape := by
  obtain ⟨t, hp, hfree, ht, hfile, heq⟩ := graph_memNsLink hshown h
  rw [heq]
  exact (hs.link hp hfree ht hfile).adjust (fun _ => rfl) fun _ _ _ => rfl

section

variable (hg : (m.graph hide).Good)

include hg

theorem good_memNsLink {target} (hshown : ∀ t, m.inodeFind target = some t → t.shown hide = true)
    (h : memNsLink now parent name target m = .ok m') : (m'.graph hide).Good := by
  have hshape := shape_memNsLink hg.shape hshown h
  obtain ⟨t, -, -, ht, hfile, heq⟩ := graph_memNsLink hshown h
  have hcookies := hg.cookies.bind parent name target t.type
  rw [heq] at hshape ⊢
  exact ⟨hshape, hg.counts.link hg.shape hshape ht hfile rfl, { hcookies with }⟩

theorem good_renameLocked {sp dp sn dn nsFlags}
    (h : renameLocked now sp sn dp dn nsFlags m = .ok m') : (m'.graph hide).Good := by
  rcases graph_renameLocked (fun d v hd => hg.counts.shown (mem_of_find hd)) h with
    rfl | ⟨src, g₁, hsrc, hp, hcl, heq⟩
  · exact hg
  obtain ⟨hsrc₁, hfree, hp₁⟩ := hcl.ready hsrc hp
  have hg₁ : g₁.Good := by
    cases hcl with
    | free => exact hg
    | victim hdst _ hun => exact hun.good hdst hg
  have hmem : src ∈ m.dirents := mem_of_find hsrc
  have hkind : (if m.childIsDir src then 1 else 0) = if src.childType = .dir then 1 else 0 := by
    simp [childIsDir_eq hg.shape hmem]
  rw [heq, hkind]
  refine ⟨hg₁.shape.moved hsrc₁ hfree hp₁ _, hg₁.counts.moved hg₁.shape hsrc₁ ?_,
    hg₁.cookies.moved _⟩
  exact hg₁.shape.moved hsrc₁ hfree hp₁ _

theorem good_memNsRenameFlags {sp dp sn dn nsFlags}
    (h : memNsRenameFlags now sp sn dp dn nsFlags m = .ok m') : (m'.graph hide).Good := by
  unfold memNsRenameFlags at h
  split at h
  · cases h
  · exact good_renameLocked hg h

theorem good_unlinkLocked {guard gc final}
    (h : unlinkLocked now parent name guard gc m = .ok (final, m')) : (m'.graph hide).Good := by
  obtain ⟨d, hd, hun⟩ :=
    graph_unlinkLocked (fun d c hd => hg.counts.shown (mem_of_find hd)) h
  exact hun.good hd hg

end

end Keep

/-! ## Every sequence of calls -/

/-- The namespace calls with their arguments. The clock is read in each of them. -/
inductive NsCall
  | allocFileid
  | create (a : CreateArgs)
  | createWide (alloc : Bool) (a : CreateWideArgs)
  | link (parent : CatFileid) (name : Name) (target : CatFileid)
  | rename (srcParent : CatFileid) (srcName : Name) (dstParent : CatFileid) (dstName : Name)
  | renameFlags (srcParent : CatFileid) (srcName : Name) (dstParent : CatFileid) (dstName : Name)
      (nsFlags : UInt32)
  | remove (parent : CatFileid) (name : Name)
  | removeKnownGc (parent : CatFileid) (name : Name) (child : MdsInode) (gc : GcPlan)

/-- The catalogue after a call; a call that fails leaves it as it was. -/
def nsCall (now : ℕ) (m : Memdb) : NsCall → Except MdsStatus Memdb
  | .allocFileid => .ok (memAllocFileid m).2
  | .create a => (memNsCreate now a m).map Prod.snd
  | .createWide alloc a => memNsCreateWide now alloc a m
  | .link parent name target => memNsLink now parent name target m
  | .rename sp sn dp dn => memNsRename now sp sn dp dn m
  | .renameFlags sp sn dp dn flags => memNsRenameFlags now sp sn dp dn flags m
  | .remove parent name => (memNsRemove now parent name m).map Prod.snd
  | .removeKnownGc parent name child gc =>
    (memNsRemoveKnownGc now parent name child gc m).map Prod.snd

/-- One call at some time. -/
def nsStep (m : Memdb) (c : ℕ × NsCall) : Option Memdb :=
  match nsCall c.1 m c.2 with
  | .ok m' => some m'
  | .error _ => some m

/-- A catalogue that holds only the root directory. -/
def MemdbStart (m : Memdb) : Prop := ∃ now, m = memdbNew now

/-- A wide create is given one link and a fileid that the allocator has handed out. -/
def WideFromAllocator (m : Memdb) : ℕ × NsCall → Prop
  | (_, .createWide _ a) => a.child.nlink = 1 ∧ a.child.fileid < m.nextFileid
  | _ => True

instance (m : Memdb) (c : ℕ × NsCall) : Decidable (WideFromAllocator m c) := by
  obtain ⟨now, c⟩ := c
  cases c <;> unfold WideFromAllocator <;> infer_instance

/-- Entries and inodes agree. -/
structure NsConsistent (m : Memdb) : Prop where
  /-- Every entry names an inode and records its type. -/
  typed : ∀ d ∈ m.dirents, ∃ ino, m.inodeFind d.childFileid = some ino ∧ d.childType = ino.type
  /-- Names are unique in each directory. -/
  names : (m.dirents.map MemdbDirent.key).Nodup
  /-- A file has as many links as entries. -/
  fileLinks : ∀ f ino, m.inodeFind f = some ino → ino.type ≠ .dir →
    ino.nlink = m.dirents.countP fun d => d.childFileid = f
  /-- A directory has two links and one for each directory in it. -/
  dirLinks : ∀ f ino, m.inodeFind f = some ino → ino.type = .dir →
    ino.nlink = 2 + m.dirents.countP fun d => d.parent = f ∧ d.childType = .dir
  /-- A directory that is not the root has exactly one entry, in its parent. -/
  dirNamed : ∀ f ino, m.inodeFind f = some ino → ino.type = .dir → f ≠ fileidRoot →
    (m.dirents.countP fun d => d.childFileid = f) = 1 ∧
      ∀ d ∈ m.dirents, d.childFileid = f → ino.parentFileid = d.parent
  /-- Cookies differ. -/
  cookies : (m.dirents.map MemdbDirent.cookie).Nodup

theorem Graph.Good.consistent (h : (m.graph false).Good) : NsConsistent m := by
  have hnode : ∀ f ino, m.inodeFind f = some ino → (m.graph false).node f = some ino.node := by
    intro f ino hf
    exact node_of_inodeFind hf rfl
  refine ⟨fun d hd => ?_, h.shape.names, fun f ino hf => h.counts.fileLinks f _ (hnode f ino hf),
    fun f ino hf => h.counts.dirLinks f _ (hnode f ino hf),
    fun f ino hf => h.shape.named f _ (hnode f ino hf), h.cookies.distinct⟩
  obtain ⟨n, hn⟩ := h.counts.live d hd
  have hrec := h.shape.recorded d hd n hn
  obtain ⟨ino, hino, -, rfl⟩ := inodeFind_of_node hn
  exact ⟨ino, hino, hrec⟩

theorem good_start (h : MemdbStart m) (hide : Bool) : (m.graph hide).Good := by
  obtain ⟨now, rfl⟩ := h
  have hroot : ∀ f n, ((memdbNew now).graph hide).node f = some n → f = fileidRoot ∧
      n = (rootInode now).node := by
    intro f n hn
    obtain ⟨ino, hino, -, rfl⟩ := inodeFind_of_node hn
    have hmem := mem_of_findKey hino
    obtain rfl : ino = rootInode now := mem_singleton.mp hmem
    exact ⟨(fileid_of_inodeFind hino).symm, rfl⟩
  have hnone : ∀ d, d ∉ ((memdbNew now).graph hide).entries := fun d => not_mem_nil
  refine ⟨⟨nodup_nil, fun d hd => absurd hd (hnone d), fun d hd => absurd hd (hnone d),
    fun d hd => absurd hd (hnone d), fun f n hn _ hne => absurd (hroot f n hn).1 hne, ?_,
    fun d hd => absurd hd (hnone d), fun f n hn => ?_, fun d hd => absurd hd (hnone d)⟩,
    ⟨fun d hd => absurd hd (hnone d), fun f n hn ht => ?_, fun f n hn _ => ?_⟩,
    ⟨nodup_nil, fun d hd => absurd hd (hnone d)⟩⟩
  · exact node_of_dir (m := memdbNew now) rfl rfl
  · rw [(hroot f n hn).1]
    exact Nat.lt_succ_self _
  · rw [(hroot f n hn).2] at ht
    exact absurd rfl ht
  · rw [(hroot f n hn).2]
    rfl

theorem exists_of_map_ok {ε α β : Type*} {x : Except ε α} {f : α → β} {b : β}
    (h : x.map f = .ok b) : ∃ a, x = .ok a ∧ f a = b := by
  cases x with
  | error => cases h
  | ok a => exact ⟨a, rfl, Except.ok.inj h⟩

theorem good_nsCall {m' now c} (hg : (m.graph false).Good) (hok : WideFromAllocator m (now, c))
    (h : nsCall now m c = .ok m') : (m'.graph false).Good := by
  cases c with
  | allocFileid =>
    cases h
    exact ⟨hg.shape.alloc, ⟨hg.counts.live, hg.counts.fileLinks, hg.counts.dirLinks⟩,
      ⟨hg.cookies.distinct, hg.cookies.lt⟩⟩
  | create =>
    obtain ⟨⟨_, m'⟩, hcall, rfl⟩ := exists_of_map_ok h
    exact good_memNsCreate hg hcall
  | createWide => exact good_memNsCreateWide hg rfl hok.2 hok.1 h
  | link => exact good_memNsLink hg (fun _ _ => rfl) h
  | rename | renameFlags => exact good_memNsRenameFlags hg h
  | remove | removeKnownGc =>
    obtain ⟨⟨_, _⟩, hcall, rfl⟩ := exists_of_map_ok h
    exact good_unlinkLocked hg hcall

/-- **The namespace is consistent** after every sequence of calls, with any arguments and
whatever they answer. -/
theorem namespace_consistent {m : Memdb} (h : Reachable MemdbStart nsStep WideFromAllocator m) :
    NsConsistent m := by
  have hgood : (m.graph false).Good := by
    refine h.invariant (fun _ h => good_start h false) fun m c _ hg hok hst => ?_
    unfold nsStep at hst
    split at hst <;> cases hst
    next hcall => exact good_nsCall hg hok hcall
    · exact hg
  exact hgood.consistent

/-- File 5 in directory 3, as given to a wide create. -/
def wideChild : MdsInode :=
  { rootInode 5 with fileid := 5, type := .reg, nlink := 1, parentFileid := 3 }

/-- A directory, a file with two names, a wide file, renames over a directory and over the
wide file, and a remove. -/
def namespaceTour : List (ℕ × NsCall) :=
  [(1, .create ⟨2, [97], .dir, 0o755, 0, 0⟩), (2, .create ⟨2, [98], .reg, 0o644, 0, 0⟩),
    (3, .link 3 [99] 4), (4, .allocFileid),
    (5, .createWide true ⟨3, [100], wideChild, 1, 65536, 1, [⟨1, [7]⟩]⟩),
    (6, .create ⟨2, [101], .dir, 0o755, 0, 0⟩), (7, .create ⟨2, [102], .dir, 0o755, 0, 0⟩),
    (8, .rename 2 [101] 2 [102]), (9, .rename 2 [98] 3 [100]), (10, .remove 3 [99])]

theorem namespace_consistent_tour : ∃ m, Reachable MemdbStart nsStep WideFromAllocator m ∧
      m.dirents.map (fun d => (d.key, d.childFileid)) =
        [((3, [100]), 4), ((2, [102]), 6), ((2, [97]), 3)] ∧ NsConsistent m := by
  have hs : Reachable MemdbStart nsStep WideFromAllocator _ :=
    .run (memdbNew 0) namespaceTour ⟨0, rfl⟩
  exact ⟨_, hs, by decide, namespace_consistent hs⟩

end PnfsLattice
