import Mathlib.Tactic
import PnfsLattice.Catalogue.Memdb
import PnfsLattice.Lib.Mask

/-!
# The namespace as a graph

What a catalogue is for: nodes with a type, a link count and a parent, and named entries
from directories to nodes. An operation on it is made of four small ones — writing a
node, changing it, adding an entry, dropping one — and two properties are kept.
`Graph.Shape` is about the directories alone: names are unique, entries lie in
directories and record the type of their child, and every directory but the root has one
name, under its parent. `Graph.Counts` is the rest: no entry dangles, link counts are
the numbers of entries, cookies differ.

The two are apart because the asynchronous remove keeps the first and not the second,
unless a file that it has marked is no longer counted.
-/

namespace PnfsLattice

open Lib List Option Function

/-! ## The graph -/

/-- What the namespace keeps of an inode. -/
structure Node where
  type : FileType
  nlink : ℕ
  parent : CatFileid
deriving DecidableEq

def MdsInode.node (ino : MdsInode) : Node :=
  { type := ino.type, nlink := ino.nlink, parent := ino.parentFileid }

@[simp] theorem MdsInode.type_node (ino : MdsInode) : ino.node.type = ino.type := rfl
@[simp] theorem MdsInode.nlink_node (ino : MdsInode) : ino.node.nlink = ino.nlink := rfl

def Node.addLinks (k : ℕ) (n : Node) : Node := { n with nlink := n.nlink + k }

def Node.subLinks (k : ℕ) (n : Node) : Node := { n with nlink := n.nlink - k }

def Node.under (p : CatFileid) (n : Node) : Node := { n with parent := p }

section Links

variable (k : ℕ) (n : Node)

@[simp] theorem Node.type_addLinks : (n.addLinks k).type = n.type := rfl
@[simp] theorem Node.type_subLinks : (n.subLinks k).type = n.type := rfl
@[simp] theorem Node.nlink_subLinks : (n.subLinks k).nlink = n.nlink - k := rfl
end Links

@[ext]
structure Graph where
  node : CatFileid → Option Node
  entries : List MemdbDirent
  nextFileid : CatFileid
  nextCookie : ℕ

/-- A file whose removal has been decided: it is to be finalized by the drainer or by the
last CLOSE. -/
def MdsInode.doomed (ino : MdsInode) : Bool :=
  ino.has iflagDeletePending || ino.has iflagUnlinkOrphan

/-- Whether an inode is a node of the namespace. Doomed files can be left out. -/
def MdsInode.shown (hide : Bool) (ino : MdsInode) : Bool :=
  !hide || ino.type = .dir || !ino.doomed

theorem has_setFlag {flag} (hflag : flag ≠ 0) (ino : MdsInode) :
    (setFlag flag ino).has flag = true := by
  have habsorb : (ino.flags ||| flag) &&& flag = flag := by rw [UInt32.or_comm, or_and_cancel]
  simpa [MdsInode.has, setFlag, habsorb] using hflag

theorem MdsInode.not_shown_of_doomed {ino : MdsInode} (hfile : ino.type ≠ .dir)
    (h : ino.doomed = true) : ino.shown true = false := by
  simp [MdsInode.shown, hfile, h]

/-- The namespace a catalogue stands for, with or without the doomed files. -/
def Memdb.graph (hide : Bool) (m : Memdb) : Graph where
  node f := ((m.inodeFind f).filter (MdsInode.shown hide)).map MdsInode.node
  entries := m.dirents
  nextFileid := m.nextFileid
  nextCookie := m.nextCookie

namespace Graph

section

variable (g : Graph)

def find (p : CatFileid) (name : Name) : Option MemdbDirent :=
  findKey MemdbDirent.key (p, name) g.entries

/-- How many entries name the node. -/
def links (f : CatFileid) : ℕ := g.entries.countP fun d => d.childFileid = f

/-- How many entries of the directory are directories. -/
def subdirs (f : CatFileid) : ℕ :=
  g.entries.countP fun d => d.parent = f ∧ d.childType = .dir

/-- Write a node, or delete it. -/
def setNode (f : CatFileid) (n : Option Node) : Graph :=
  { g with node := Function.update g.node f n }

def adjust (f : CatFileid) (h : Node → Node) : Graph :=
  { g with node := Function.update g.node f ((g.node f).map h) }

/-- Add an entry under a fresh cookie. -/
def bind (p : CatFileid) (name : Name) (child : CatFileid) (type : FileType) : Graph :=
  { g with
    entries := { parent := p, name, childFileid := child, childType := type
                 cookie := g.nextCookie } :: g.entries
    nextCookie := g.nextCookie + 1 }

/-- Drop an entry. -/
def unbind (p : CatFileid) (name : Name) : Graph :=
  { g with entries := eraseKey MemdbDirent.key (p, name) g.entries }

def alloc : Graph := { g with nextFileid := g.nextFileid + 1 }

end

section Primitives

variable (g : Graph) (f x p : CatFileid) (name : Name) (child : CatFileid) (type : FileType)

@[simp] theorem node_setNode (n : Option Node) :
    (g.setNode f n).node x = if x = f then n else g.node x := update_apply ..

@[simp] theorem node_adjust (h : Node → Node) :
    (g.adjust f h).node x = if x = f then (g.node x).map h else g.node x := by
  simp only [adjust, update_apply]
  split
  next hx => rw [hx]
  next => rfl

@[simp] theorem node_bind : (g.bind p name child type).node = g.node := rfl
@[simp] theorem node_unbind : (g.unbind p name).node = g.node := rfl
@[simp] theorem links_setNode (n : Option Node) : (g.setNode f n).links x = g.links x := rfl
@[simp] theorem links_adjust (h : Node → Node) : (g.adjust f h).links x = g.links x := rfl
@[simp] theorem links_bind :
    (g.bind p name child type).links x = g.links x + if child = x then 1 else 0 := by
  simp [links, bind, countP_cons]

/-- Changes that commute on a node commute on the graph. -/
theorem adjust_comm {a b} (hab : ∀ n, a (b n) = b (a n)) :
    (g.adjust f b).adjust x a = (g.adjust x a).adjust f b := by
  refine Graph.ext (funext fun y => ?_) rfl rfl rfl
  simp only [node_adjust]
  split_ifs
  · cases g.node y with
    | none => rfl
    | some n => exact congrArg some (hab n)
  all_goals rfl

theorem adjust_id : g.adjust f id = g := by
  rw [adjust, Option.map_id, id, update_eq_self]

end Primitives

variable {g : Graph}

variable {f p : CatFileid} {name : Name}

variable {x : CatFileid} {d : MemdbDirent}

theorem exists_of_node_adjust {a n} (h : (g.adjust f a).node x = some n) :
    ∃ n', g.node x = some n' ∧ n = if x = f then a n' else n' := by
  rw [node_adjust] at h
  split at h
  next hx =>
    obtain ⟨n', hn', rfl⟩ := map_eq_some_iff.mp h
    exact ⟨n', hn', (if_pos hx).symm⟩
  next hx => exact ⟨n, h, (if_neg hx).symm⟩

theorem exists_node_adjust (a : Node → Node) (h : ∃ n, g.node x = some n) :
    ∃ n, (g.adjust f a).node x = some n := by
  obtain ⟨n, hn⟩ := h
  rw [node_adjust, hn]
  split
  · exact ⟨a n, rfl⟩
  · exact ⟨n, rfl⟩

theorem mem_entries_bind {child} {type : FileType} (h : d ∈ (g.bind p name child type).entries) :
    (d.parent = p ∧ d.childFileid = child ∧ d.childType = type ∧ d.cookie = g.nextCookie ∧
      d.key = (p, name)) ∨ d ∈ g.entries := by
  rcases mem_cons.mp h with rfl | h
  · exact .inl ⟨rfl, rfl, rfl, rfl, rfl⟩
  · exact .inr h

theorem mem_entries_unbind (h : d ∈ (g.unbind p name).entries) :
    d ∈ g.entries ∧ d.key ≠ (p, name) :=
  mem_eraseKey.mp h

theorem nodup_unbind (h : (g.entries.map MemdbDirent.key).Nodup) (p : CatFileid) (name : Name) :
    ((g.unbind p name).entries.map MemdbDirent.key).Nodup :=
  nodup_filter_key h _

theorem nodup_bind (h : (g.entries.map MemdbDirent.key).Nodup) (hfree : g.find p name = none)
    (child : CatFileid) (type : FileType) :
    ((g.bind p name child type).entries.map MemdbDirent.key).Nodup := by
  refine nodup_cons.mpr ⟨fun hmem => ?_, h⟩
  obtain ⟨d, hd, hkey⟩ := mem_map.mp hmem
  exact findKey_eq_none.mp hfree d hd hkey

section Unbind

variable {p : CatFileid} {name : Name} {d : MemdbDirent}

theorem links_unbind (h : (g.entries.map MemdbDirent.key).Nodup) (hd : g.find p name = some d)
    (f : CatFileid) :
    g.links f = (g.unbind p name).links f + if d.childFileid = f then 1 else 0 := by
  have hcount := (perm_cons_eraseKey h hd).countP_eq fun d => decide (d.childFileid = f)
  rw [countP_cons] at hcount
  simpa [links, unbind] using hcount

theorem mem_of_find (hd : g.find p name = some d) : d ∈ g.entries := mem_of_findKey hd

theorem parent_of_find (hd : g.find p name = some d) : d.parent = p :=
  congrArg Prod.fst (key_of_findKey hd)

end Unbind

theorem links_eq_zero : g.links f = 0 ↔ ∀ d ∈ g.entries, d.childFileid ≠ f := by
  simp [links, countP_eq_zero]

/-! ## The directories -/

/-- The directories form a tree, as far as one level shows: names are unique, entries lie
in directories and record the type of their child, and every directory but the root has
exactly one name, in its parent. -/
structure Shape (g : Graph) : Prop where
  names : (g.entries.map MemdbDirent.key).Nodup
  parents : ∀ d ∈ g.entries, ∃ n, g.node d.parent = some n ∧ n.type = .dir
  recorded : ∀ d ∈ g.entries, ∀ n, g.node d.childFileid = some n → d.childType = n.type
  dirs : ∀ d ∈ g.entries, d.childType = .dir → ∃ n, g.node d.childFileid = some n
  named : ∀ f n, g.node f = some n → n.type = .dir → f ≠ fileidRoot →
    g.links f = 1 ∧ ∀ d ∈ g.entries, d.childFileid = f → n.parent = d.parent
  root : ∃ n, g.node fileidRoot = some n ∧ n.type = .dir
  rootless : ∀ d ∈ g.entries, d.childFileid ≠ fileidRoot
  nodeLt : ∀ f n, g.node f = some n → f < g.nextFileid
  childLt : ∀ d ∈ g.entries, d.childFileid < g.nextFileid

namespace Shape

theorem alloc (h : g.Shape) : g.alloc.Shape :=
  { h with
    nodeLt := fun f n hn => (h.nodeLt f n hn).trans (Nat.lt_succ_self _)
    childLt := fun d hd => (h.childLt d hd).trans (Nat.lt_succ_self _) }

variable {f p : CatFileid} {name : Name} {n : Node} {d : MemdbDirent}

/-- The part of the shape that is about one entry. -/
structure EntryOk (g : Graph) (d : MemdbDirent) : Prop where
  parent : ∃ n, g.node d.parent = some n ∧ n.type = .dir
  recorded : ∀ n, g.node d.childFileid = some n → d.childType = n.type
  dir : d.childType = .dir → ∃ n, g.node d.childFileid = some n
  rootless : d.childFileid ≠ fileidRoot
  childLt : d.childFileid < g.nextFileid

/-- The shape after a change: new entries are in order, nodes keep their type or fit the
entries that are there, and a directory that goes is neither a parent nor a child. -/
theorem change (h : g.Shape) {g'} (hnames : (g'.entries.map MemdbDirent.key).Nodup)
    (hnext : g'.nextFileid = g.nextFileid)
    (hentry : ∀ e ∈ g'.entries, e ∈ g.entries ∨ EntryOk g' e)
    (hback : ∀ x n', g'.node x = some n' → (∃ n, g.node x = some n ∧ n'.type = n.type) ∨
      x < g.nextFileid ∧ ∀ d ∈ g.entries, d.childFileid = x → d.childType = n'.type)
    (hfwd : ∀ x n, g.node x = some n → n.type = .dir →
      (∃ n', g'.node x = some n' ∧ n'.type = .dir) ∨ x ≠ fileidRoot ∧
      ∀ e ∈ g'.entries, e.parent ≠ x ∧ e.childFileid ≠ x)
    (hnamed : ∀ x n, g'.node x = some n → n.type = .dir → x ≠ fileidRoot → g'.links x = 1 ∧
      ∀ d ∈ g'.entries, d.childFileid = x → n.parent = d.parent) : g'.Shape := by
  have hok : ∀ e ∈ g'.entries, EntryOk g' e := by
    intro e he
    rcases hentry e he with hold | hok
    · refine ⟨?_, fun n' hn' => ?_, fun ht => ?_, h.rootless e hold, hnext ▸ h.childLt e hold⟩
      · obtain ⟨n, hn, ht⟩ := h.parents e hold
        exact (hfwd _ n hn ht).resolve_right fun hgone => (hgone.2 e he).1 rfl
      · rcases hback _ n' hn' with ⟨n, hn, ht⟩ | ⟨-, hfits⟩
        · exact (h.recorded e hold n hn).trans ht.symm
        · exact hfits e hold rfl
      · obtain ⟨n, hn⟩ := h.dirs e hold ht
        obtain ⟨n', hn', -⟩ := (hfwd _ n hn ((h.recorded e hold n hn).symm.trans ht)).resolve_right
          fun hgone => (hgone.2 e he).2 rfl
        exact ⟨n', hn'⟩
    · exact hok
  refine ⟨hnames, fun e he => (hok e he).parent, fun e he => (hok e he).recorded,
    fun e he => (hok e he).dir, hnamed, ?_, fun e he => (hok e he).rootless, fun x n' hn' => ?_,
    fun e he => (hok e he).childLt⟩
  · obtain ⟨n, hn, ht⟩ := h.root
    exact (hfwd _ n hn ht).resolve_right fun hgone => hgone.1 rfl
  · rw [hnext]
    rcases hback x n' hn' with ⟨n, hn, -⟩ | ⟨hlt, -⟩
    · exact h.nodeLt x n hn
    · exact hlt

variable {a : Node → Node}

theorem adjust (h : g.Shape) (htype : ∀ n, (a n).type = n.type)
    (hpar : ∀ n, g.node f = some n → n.type = .dir → (a n).parent = n.parent) :
    (g.adjust f a).Shape := by
  refine h.change h.names rfl (fun e he => .inl he) (fun x n' hn' => .inl ?_)
    (fun x n hn ht => .inl ?_) fun x _ hn' ht hx => ?_
  · obtain ⟨n, hn, rfl⟩ := exists_of_node_adjust hn'
    exact ⟨n, hn, by split <;> simp [htype]⟩
  · rw [node_adjust, hn]
    split
    · exact ⟨a n, rfl, (htype n).trans ht⟩
    · exact ⟨n, rfl, ht⟩
  · obtain ⟨n, hn, rfl⟩ := exists_of_node_adjust hn'
    split at ht
    next hxf =>
      subst hxf
      rw [htype] at ht
      rw [if_pos rfl, hpar n hn ht]
      exact h.named x n hn ht hx
    next hxf =>
      rw [if_neg hxf]
      exact h.named x n hn ht hx

theorem insert (h : g.Shape) (hp : ∃ q, g.node p = some q ∧ q.type = .dir)
    (hfree : g.find p name = none) (hnew : g.node f = none) (hlt : f < g.nextFileid)
    (hpar : n.parent = p) (hdir : n.type = .dir → ∀ d ∈ g.entries, d.childFileid ≠ f)
    (hrec : ∀ d ∈ g.entries, d.childFileid = f → d.childType = n.type) :
    ((g.setNode f (some n)).bind p name f n.type).Shape := by
  have hne : ∀ x q, g.node x = some q → x ≠ f := by
    rintro x q hq rfl
    cases hnew.symm.trans hq
  have hold : ∀ x q, g.node x = some q →
      ((g.setNode f (some n)).bind p name f n.type).node x = some q := by
    intro x q hq
    rw [node_bind, node_setNode, if_neg (hne x q hq), hq]
  have hnode : ∀ x q, ((g.setNode f (some n)).bind p name f n.type).node x = some q →
      (x = f ∧ q = n) ∨ x ≠ f ∧ g.node x = some q := by
    intro x q hq
    rw [node_bind, node_setNode] at hq
    split at hq
    next hx => exact .inl ⟨hx, (some.inj hq).symm⟩
    next hx => exact .inr ⟨hx, hq⟩
  refine h.change (nodup_bind h.names hfree _ _) rfl (fun e he => ?_) (fun x q hq => ?_)
    (fun x q hq ht => .inl ⟨q, hold x q hq, ht⟩) fun x q hq ht hx => ?_
  · rcases mem_entries_bind he with ⟨hep, hc, ht, -⟩ | he
    · obtain ⟨q, hq, hqt⟩ := hp
      obtain ⟨r, hr, -⟩ := h.root
      refine .inr ⟨⟨q, hold _ q (hep ▸ hq), hqt⟩, fun q hq => ?_, fun _ => ⟨n, ?_⟩, ?_, hc ▸ hlt⟩
      · rcases hnode _ q hq with ⟨-, rfl⟩ | ⟨hne, -⟩
        · exact ht
        · exact absurd hc hne
      · rw [node_bind, node_setNode, if_pos hc]
      · exact fun heq => hne _ r hr (heq.symm.trans hc)
    · exact .inl he
  · rcases hnode x q hq with ⟨rfl, rfl⟩ | ⟨-, hq⟩
    · exact .inr ⟨hlt, hrec⟩
    · exact .inl ⟨q, hq, rfl⟩
  · rw [links_bind, links_setNode]
    rcases hnode x q hq with ⟨rfl, rfl⟩ | ⟨hxf, hq⟩
    · have hzero := links_eq_zero.mpr (hdir ht)
      refine ⟨by simp [hzero], fun d hd hc => ?_⟩
      rcases mem_entries_bind hd with ⟨rfl, -⟩ | hd
      · exact hpar
      · exact absurd hc (hdir ht d hd)
    · obtain ⟨hlinks, hparent⟩ := h.named x q hq ht hx
      refine ⟨by rw [if_neg fun h => hxf h.symm, hlinks], fun d hd hc => ?_⟩
      rcases mem_entries_bind hd with ⟨-, hc', -⟩ | hd
      · exact absurd (hc.symm.trans hc') hxf
      · exact hparent d hd hc

theorem link (h : g.Shape) (hp : ∃ q, g.node p = some q ∧ q.type = .dir)
    (hfree : g.find p name = none) (hf : g.node f = some n) (hfile : n.type ≠ .dir) :
    (g.bind p name f n.type).Shape := by
  have hdir : ∀ x q, g.node x = some q → q.type = .dir → f ≠ x := by
    rintro x q hq ht rfl
    exact hfile (mem_unique hf hq ▸ ht)
  refine h.change (nodup_bind h.names hfree _ _) rfl (fun e he => ?_)
    (fun x q hq => .inl ⟨q, hq, rfl⟩) (fun x q hq ht => .inl ⟨q, hq, ht⟩)
    fun x q hq ht hx => ?_
  · rcases mem_entries_bind he with ⟨hep, hc, ht, -⟩ | he
    · obtain ⟨r, hr, hrt⟩ := h.root
      refine .inr ⟨hep ▸ hp, fun q hq => ?_, fun _ => ⟨n, hc ▸ hf⟩, ?_, h.nodeLt _ n (hc ▸ hf)⟩
      · rw [ht, some.inj (hf.symm.trans (hc ▸ hq))]
      · exact fun heq => hdir _ r hr hrt (hc.symm.trans heq)
    · exact .inl he
  · have hxf := hdir x q hq ht
    obtain ⟨hlinks, hparent⟩ := h.named x q hq ht hx
    refine ⟨by rw [links_bind, if_neg hxf, hlinks], fun d hd hc => ?_⟩
    rcases mem_entries_bind hd with ⟨-, hc', -⟩ | hd
    · exact absurd (hc'.symm.trans hc) hxf
    · exact hparent d hd hc

theorem unbindFile (h : g.Shape) (hd : g.find p name = some d) (hfile : d.childType ≠ .dir) :
    (g.unbind p name).Shape := by
  refine h.change (nodup_unbind h.names p name) rfl
    (fun e he => .inl (mem_entries_unbind he).1) (fun x q hq => .inl ⟨q, hq, rfl⟩)
    (fun x q hq ht => .inl ⟨q, hq, ht⟩) fun x q hq ht hx => ?_
  have hne : ¬ d.childFileid = x := by
    rintro rfl
    exact hfile ((h.recorded d (mem_of_find hd) q hq).trans ht)
  obtain ⟨hlinks, hparent⟩ := h.named x q hq ht hx
  have hcount := links_unbind h.names hd x
  rw [if_neg hne] at hcount
  exact ⟨by omega, fun e he => hparent e (mem_entries_unbind he).1⟩

theorem of_node_dropped {x} (hn : (g.setNode f none).node x = some n) :
    x ≠ f ∧ g.node x = some n := by
  rw [node_setNode] at hn
  split at hn
  · cases hn
  next hx => exact ⟨hx, hn⟩

/-- A node that is no directory goes, with or without names. -/
theorem dropFile (h : g.Shape) (hfile : ∀ n, g.node f = some n → n.type ≠ .dir) :
    (g.setNode f none).Shape := by
  refine h.change h.names rfl (fun e he => .inl he)
    (fun x n hn => .inl ⟨n, (of_node_dropped hn).2, rfl⟩) (fun x n hn ht => .inl ⟨n, ?_, ht⟩)
    fun x n hn => h.named x n (of_node_dropped hn).2
  have hx : x ≠ f := fun hx => hfile n (hx ▸ hn) ht
  rw [node_setNode, if_neg hx, hn]

/-- After its one name is dropped nothing names a directory. -/
theorem child_ne_of_unbind (h : g.Shape) (hd : g.find p name = some d)
    (hn : g.node d.childFileid = some n) (hdir : n.type = .dir) :
    ∀ e ∈ (g.unbind p name).entries, e.childFileid ≠ d.childFileid := by
  have hone := (h.named _ n hn hdir (h.rootless d (mem_of_find hd))).1
  have hcount := links_unbind h.names hd d.childFileid
  rw [if_pos rfl] at hcount
  exact links_eq_zero.mp (by omega)

theorem removeDir (h : g.Shape) (hd : g.find p name = some d) (hn : g.node d.childFileid = some n)
    (hdir : n.type = .dir) (hempty : ∀ e ∈ g.entries, e.parent ≠ d.childFileid) :
    ((g.unbind p name).setNode d.childFileid none).Shape := by
  have hgone := h.child_ne_of_unbind hd hn hdir
  refine h.change (nodup_unbind h.names p name) rfl (fun e he => .inl (mem_entries_unbind he).1)
    (fun x q hq => .inl ⟨q, (of_node_dropped hq).2, rfl⟩) (fun x q hq ht => ?_)
    fun x q hq ht hx => ?_
  · by_cases hx : x = d.childFileid
    · exact .inr ⟨hx ▸ h.rootless d (mem_of_find hd), fun e he =>
        ⟨hx ▸ hempty e (mem_entries_unbind he).1, hx ▸ hgone e he⟩⟩
    · exact .inl ⟨q, by rw [node_setNode, if_neg hx, node_unbind, hq], ht⟩
  · obtain ⟨hne, hq⟩ := of_node_dropped hq
    obtain ⟨hlinks, hparent⟩ := h.named x q hq ht hx
    have hcount := links_unbind h.names hd x
    rw [if_neg fun h => hne h.symm] at hcount
    refine ⟨?_, fun e he => hparent e (mem_entries_unbind he).1⟩
    rw [links_setNode]
    omega

/-- An entry moves to a free name; a directory that moves gets the new parent. -/
theorem move (h : g.Shape) {sp sn} (hd : g.find sp sn = some d) {dp dn}
    (hp : ∃ q, g.node dp = some q ∧ q.type = .dir) (hfree : g.find dp dn = none)
    (htype : ∀ n, (a n).type = n.type)
    (hpar : ∀ n, g.node d.childFileid = some n → n.type = .dir → (a n).parent = dp) :
    (((g.unbind sp sn).bind dp dn d.childFileid d.childType).adjust d.childFileid a).Shape := by
  have hdmem := mem_of_find hd
  have hsub : ∀ e ∈ (g.unbind sp sn).entries, e ∈ g.entries := fun e he =>
    (mem_entries_unbind he).1
  have hfree' : (g.unbind sp sn).find dp dn = none := by
    rw [find, findKey_eq_none] at hfree ⊢
    exact fun e he => hfree e (hsub e he)
  have hback : ∀ x q, (((g.unbind sp sn).bind dp dn d.childFileid d.childType).adjust
      d.childFileid a).node x = some q → ∃ q', g.node x = some q' ∧ q.type = q'.type ∧
        q = if x = d.childFileid then a q' else q' := by
    intro x q hq
    obtain ⟨q', hq', rfl⟩ := exists_of_node_adjust hq
    exact ⟨q', hq', by split <;> simp [htype], rfl⟩
  have hfwd : ∀ x q, g.node x = some q → ∃ q', (((g.unbind sp sn).bind dp dn d.childFileid
      d.childType).adjust d.childFileid a).node x = some q' ∧ q'.type = q.type := by
    intro x q hq
    rw [node_adjust, node_bind, node_unbind, hq]
    split
    · exact ⟨a q, rfl, htype q⟩
    · exact ⟨q, rfl, rfl⟩
  refine h.change (nodup_bind (nodup_unbind h.names sp sn) hfree' _ _) rfl (fun e he => ?_)
    (fun x q hq => ?_) (fun x q hq ht => ?_) fun x q hq ht hx => ?_
  · rcases mem_entries_bind he with ⟨hep, hc, ht, -⟩ | he
    · refine .inr ⟨?_, fun q hq => ?_, fun hdir => ?_, hc ▸ h.rootless d hdmem,
        hc ▸ h.childLt d hdmem⟩
      · obtain ⟨q, hq, hqt⟩ := hp
        obtain ⟨q', hq', ht'⟩ := hfwd _ q hq
        exact ⟨q', hep ▸ hq', ht'.trans hqt⟩
      · obtain ⟨q', hq', hqt, -⟩ := hback _ q hq
        exact ht.trans ((h.recorded d hdmem q' (hc ▸ hq')).trans hqt.symm)
      · obtain ⟨q, hq⟩ := h.dirs d hdmem (ht.symm.trans hdir)
        obtain ⟨q', hq', -⟩ := hfwd _ q hq
        exact ⟨q', hc ▸ hq'⟩
    · exact .inl (hsub e he)
  · obtain ⟨q', hq', ht, -⟩ := hback x q hq
    exact .inl ⟨q', hq', ht⟩
  · obtain ⟨q', hq', ht'⟩ := hfwd x q hq
    exact .inl ⟨q', hq', ht'.trans ht⟩
  · obtain ⟨q', hq', ht', hnow⟩ := hback x q hq
    obtain ⟨hlinks, hparent⟩ := h.named x q' hq' (ht'.symm.trans ht) hx
    have hcount := links_unbind h.names hd x
    refine ⟨by rw [links_adjust, links_bind]; omega, fun e he hc => ?_⟩
    by_cases hxd : x = d.childFileid
    · -- The moved directory has only its new name.
      subst hxd
      rcases mem_entries_bind he with ⟨hpe, -⟩ | he
      · rw [hnow, if_pos rfl, hpe]
        exact hpar q' hq' (ht'.symm.trans ht)
      · exact absurd hc (h.child_ne_of_unbind hd hq' (ht'.symm.trans ht) e he)
    · rw [hnow, if_neg hxd]
      rcases mem_entries_bind he with ⟨-, hc', -⟩ | he
      · exact absurd (hc.symm.trans hc') hxd
      · exact hparent e (hsub e he) hc

end Shape

/-! ## The counts -/

/-- Cookies are fresh and differ. -/
structure Cookies (g : Graph) : Prop where
  distinct : (g.entries.map MemdbDirent.cookie).Nodup
  lt : ∀ d ∈ g.entries, d.cookie < g.nextCookie

theorem Cookies.unbind (h : g.Cookies) (p : CatFileid) (name : Name) : (g.unbind p name).Cookies :=
  ⟨nodup_filter_key h.distinct _, fun d hd => h.lt d (mem_entries_unbind hd).1⟩

theorem Cookies.bind (h : g.Cookies) (p : CatFileid) (name : Name) (child : CatFileid)
    (type : FileType) : (g.bind p name child type).Cookies := by
  refine ⟨nodup_cons.mpr ⟨fun hmem => ?_, h.distinct⟩, fun d hd => ?_⟩
  · obtain ⟨d, hd, hcookie⟩ := mem_map.mp hmem
    exact absurd hcookie (h.lt d hd).ne
  · rcases mem_entries_bind hd with ⟨-, -, -, hcookie, -⟩ | hd
    · exact hcookie ▸ Nat.lt_succ_self _
    · exact (h.lt d hd).trans (Nat.lt_succ_self _)

/-- Every entry names a node, and link counts are numbers of entries. -/
structure Counts (g : Graph) : Prop where
  live : ∀ d ∈ g.entries, ∃ n, g.node d.childFileid = some n
  fileLinks : ∀ f n, g.node f = some n → n.type ≠ .dir → n.nlink = g.links f
  dirLinks : ∀ f n, g.node f = some n → n.type = .dir → n.nlink = 2 + g.subdirs f

/-- The node that has a link for an entry: its child, or the parent of a directory. -/
def linked (p child : CatFileid) (type : FileType) : CatFileid := if type = .dir then p else child

/-- How many entries give the node a link. -/
def credit (g : Graph) (x : CatFileid) : ℕ := 
  g.entries.countP fun d => linked d.parent d.childFileid d.childType = x

/-- The link counts are right up to `δ`. -/
structure Off (g : Graph) (δ : CatFileid → ℤ) : Prop where
  live : ∀ d ∈ g.entries, ∃ n, g.node d.childFileid = some n
  links : ∀ x n, g.node x = some n →
    (n.nlink : ℤ) = (if n.type = .dir then 2 else 0) + g.credit x + δ x

section Credit

variable {n : Node}

theorem credit_of_file (hs : g.Shape) (hn : g.node x = some n) (hfile : n.type ≠ .dir) :
    g.credit x = g.links x := by
  refine countP_congr fun d hd => ?_
  obtain ⟨q, hq, hqdir⟩ := hs.parents d hd
  have hpar : d.parent ≠ x := by
    rintro rfl
    exact hfile (mem_unique hq hn ▸ hqdir)
  have hrec : d.childFileid = x → d.childType ≠ .dir := by
    rintro rfl
    exact hs.recorded d hd n hn ▸ hfile
  by_cases hdir : d.childType = .dir <;> simp_all [linked]

theorem credit_of_dir (hs : g.Shape) (hn : g.node x = some n) (hdir : n.type = .dir) :
    g.credit x = g.subdirs x := by
  refine countP_congr fun d hd => ?_
  have hrec : d.childFileid = x → d.childType = .dir := by
    rintro rfl
    exact (hs.recorded d hd n hn).trans hdir
  by_cases hd : d.childType = .dir <;> simp_all [linked]

theorem Counts.off (h : g.Counts) (hs : g.Shape) : g.Off 0 := by
  refine ⟨h.live, fun x n hn => ?_⟩
  by_cases ht : n.type = .dir
  · simp [ht, credit_of_dir hs hn ht, h.dirLinks x n hn ht]
  · simp [ht, credit_of_file hs hn ht, h.fileLinks x n hn ht]

end Credit

namespace Off

variable {δ : CatFileid → ℤ} {d : MemdbDirent} {a : Node → Node} {k : ℤ} {n : Node}

theorem counts (h : g.Off δ) (hs : g.Shape) (hδ : ∀ x n, g.node x = some n → δ x = 0) :
    g.Counts := by
  refine ⟨h.live, fun x n hn ht => ?_, fun x n hn ht => ?_⟩ <;> have hlinks := h.links x n hn
  · rw [if_neg ht, credit_of_file hs hn ht, hδ x n hn] at hlinks
    omega
  · rw [if_pos ht, credit_of_dir hs hn ht, hδ x n hn] at hlinks
    omega

theorem adjust (h : g.Off δ) (htype : ∀ n, (a n).type = n.type)
    (hk : ∀ n, g.node f = some n → ((a n).nlink : ℤ) = n.nlink + k) :
    (g.adjust f a).Off (δ + Pi.single f k) := by
  refine ⟨fun d hd => exists_node_adjust a (h.live d hd), fun x _ hn' => ?_⟩
  obtain ⟨n, hn, rfl⟩ := exists_of_node_adjust hn'
  have hold := h.links x n hn
  rw [Pi.add_apply]
  split
  next hx =>
    subst hx
    rw [htype, hk n hn, hold, Pi.single_eq_same]
    exact add_assoc _ _ _
  next hx =>
    rw [Pi.single_eq_of_ne hx, add_zero]
    exact hold

theorem addLinks (h : g.Off δ) (f : CatFileid) (k : ℕ) :
    (g.adjust f (Node.addLinks k)).Off (δ + Pi.single f (k : ℤ)) :=
  h.adjust (fun _ => rfl) fun _ _ => Int.natCast_add _ _

theorem subLinks (h : g.Off δ) {k : ℕ} (hk : k ≤ δ f) :
    (g.adjust f (Node.subLinks k)).Off (δ + Pi.single f (-k : ℤ)) := by
  refine h.adjust (fun _ => rfl) fun n hn => ?_
  have hlinks := h.links f n hn
  rw [Node.nlink_subLinks]
  split at hlinks <;> omega

theorem bind (h : g.Off δ) {child} (hc : ∃ n, g.node child = some n) (p : CatFileid) (name : Name)
    (type : FileType) :
    (g.bind p name child type).Off (δ + Pi.single (linked p child type) (-1)) := by
  refine ⟨forall_mem_cons.mpr ⟨hc, h.live⟩, fun x n hn => ?_⟩
  rw [h.links x n hn, credit, credit, Graph.bind, countP_cons, Pi.add_apply, Pi.single_apply]
  simp only [decide_eq_true_eq, eq_comm (a := x)]
  split_ifs <;> push_cast <;> omega

theorem unbind (h : g.Off δ) (hs : g.Shape) (hd : g.find p name = some d) :
    (g.unbind p name).Off (δ + Pi.single (linked p d.childFileid d.childType) 1) := by
  refine ⟨fun e he => h.live e (mem_entries_unbind he).1, fun x n hn => ?_⟩
  have hcount := (perm_cons_eraseKey hs.names hd).countP_eq
    fun d => decide (linked d.parent d.childFileid d.childType = x)
  rw [countP_cons, parent_of_find hd] at hcount
  rw [h.links x n hn, credit, credit, Graph.unbind, hcount, Pi.add_apply, Pi.single_apply]
  simp only [decide_eq_true_eq, eq_comm (a := x)]
  split_ifs <;> push_cast <;> omega

theorem drop (h : g.Off δ) (hgone : ∀ d ∈ g.entries, d.childFileid ≠ f) :
    (g.setNode f none).Off δ := by
  refine ⟨fun d hd => ?_, fun x n hn => h.links x n (Shape.of_node_dropped hn).2⟩
  rw [node_setNode, if_neg (hgone d hd)]
  exact h.live d hd

theorem new (h : g.Off 0) (hzero : g.credit f = 0)
    (hn : (n.nlink : ℤ) = (if n.type = .dir then 2 else 0) + k) :
    (g.setNode f (some n)).Off (Pi.single f k) := by
  refine ⟨fun d hd => ?_, fun x q hq => ?_⟩
  · rw [node_setNode]
    split
    · exact ⟨n, rfl⟩
    · exact h.live d hd
  · rw [node_setNode] at hq
    split at hq
    next hx =>
      cases hq
      rw [hx, Pi.single_eq_same, show (g.setNode f (some n)).credit f = 0 from hzero, hn]
      rw [Nat.cast_zero, add_zero]
    next hx =>
      rw [Pi.single_eq_of_ne hx]
      exact h.links x q hq

end Off

namespace Counts

variable {g' : Graph} {n : Node} (hs : g.Shape) (h : g.Counts) (hs' : g'.Shape)

include hs h hs'

theorem insert {p name f} (hnew : g.node f = none)
    (hnlink : n.nlink = if n.type = .dir then 2 else 1)
    (hg : g' = ((g.setNode f (some n)).bind p name f n.type).adjust p
      (Node.addLinks (if n.type = .dir then 1 else 0))) : g'.Counts := by
  have hzero : g.credit f = 0 := by
    refine countP_eq_zero.mpr fun d hd hc => ?_
    obtain ⟨q, hq, -⟩ := hs.parents d hd
    obtain ⟨c, hc'⟩ := h.live d hd
    unfold linked at hc
    split at hc <;> simp_all
  have hnode : (g.setNode f (some n)).node f = some n := by rw [node_setNode, if_pos rfl]
  have hnew := (h.off hs).new hzero (n := n) (k := if n.type = .dir then 0 else 1)
    (by rw [hnlink]; split <;> rfl)
  have hoff := (hnew.bind ⟨n, hnode⟩ p name n.type).addLinks p (if n.type = .dir then 1 else 0)
  refine (hg ▸ hoff).counts hs' fun x _ _ => ?_
  by_cases hdir : n.type = .dir <;> simp [linked, hdir, ← sub_eq_add_neg, Pi.single_neg]

theorem link {p name f} (hf : g.node f = some n) (hfile : n.type ≠ .dir)
    (hg : g' = (g.bind p name f n.type).adjust f (Node.addLinks 1)) : g'.Counts := by
  have hoff := ((h.off hs).bind ⟨n, hf⟩ p name n.type).addLinks f 1
  refine (hg ▸ hoff).counts hs' fun x _ _ => ?_
  simp [linked, hfile, Pi.single_neg]

section Unbind

variable {p : CatFileid} {name : Name} {d : MemdbDirent} (hd : g.find p name = some d)
  (hn : g.node d.childFileid = some n)

include hd hn

theorem unlinkFile (hfile : n.type ≠ .dir)
    (hg : g' = (g.unbind p name).adjust d.childFileid (Node.subLinks 1)) : g'.Counts := by
  have hrec := hs.recorded d (mem_of_find hd) n hn
  have hoff := ((h.off hs).unbind hs hd).subLinks (f := d.childFileid) (k := 1)
    (by simp [linked, hrec, hfile])
  refine (hg ▸ hoff).counts hs' fun x _ _ => ?_
  simp [linked, hrec, hfile, Pi.single_neg]

theorem unlinkLast (hfile : n.type ≠ .dir) (hlast : n.nlink ≤ 1)
    (hg : g' = (g.unbind p name).setNode d.childFileid none) : g'.Counts := by
  have hrec := hs.recorded d (mem_of_find hd) n hn
  have hcount := h.fileLinks _ n hn hfile
  have hlinks := links_unbind hs.names hd d.childFileid
  rw [if_pos rfl] at hlinks
  have hgone := links_eq_zero.mp (show (g.unbind p name).links d.childFileid = 0 by omega)
  subst hg
  refine (((h.off hs).unbind hs hd).drop hgone).counts hs' fun x q hq => ?_
  simp [linked, hrec, hfile, (Shape.of_node_dropped hq).1]

theorem removeDir (hdir : n.type = .dir)
    (hg : g' = ((g.unbind p name).setNode d.childFileid none).adjust p (Node.subLinks 1)) :
    g'.Counts := by
  have hrec := hs.recorded d (mem_of_find hd) n hn
  have hoff := (((h.off hs).unbind hs hd).drop (hs.child_ne_of_unbind hd hn hdir)).subLinks
    (f := p) (k := 1) (by simp [linked, hrec, hdir])
  refine (hg ▸ hoff).counts hs' fun x _ _ => ?_
  simp [linked, hrec, hdir, Pi.single_neg]

end Unbind

section Move

variable {sp dp : CatFileid} {sn dn : Name} {d : MemdbDirent} {a : Node → Node}
  (hd : g.find sp sn = some d)

include hd

theorem move_within (hg : g' = (g.unbind sp sn).bind sp dn d.childFileid d.childType) :
    g'.Counts := by
  have hoff := ((h.off hs).unbind hs hd).bind (h.live d (mem_of_find hd)) sp dn d.childType
  refine (hg ▸ hoff).counts hs' fun x _ _ => ?_
  simp [Pi.single_neg]

/-- An entry moves to another directory, with the link of `..` if it is a directory. -/
theorem move_across (hne : sp ≠ dp) (htype : ∀ n, (a n).type = n.type)
    (hnlink : ∀ n, (a n).nlink = n.nlink)
    (hg : g' = ((((g.unbind sp sn).bind dp dn d.childFileid d.childType).adjust d.childFileid
      a).adjust sp (Node.subLinks (if d.childType = .dir then 1 else 0))).adjust dp
      (Node.addLinks (if d.childType = .dir then 1 else 0))) : g'.Counts := by
  have hbind := ((h.off hs).unbind hs hd).bind (h.live d (mem_of_find hd)) dp dn d.childType
  have hmove := hbind.adjust (f := d.childFileid) (a := a) (k := 0) htype
    fun n _ => by rw [hnlink, add_zero]
  have hoff := (hmove.subLinks (f := sp) (k := if d.childType = .dir then 1 else 0)
    ?_).addLinks dp (if d.childType = .dir then 1 else 0)
  · refine (hg ▸ hoff).counts hs' fun x _ _ => ?_
    by_cases hdir : d.childType = .dir <;> simp [linked, hdir, Pi.single_neg]
  · by_cases hdir : d.childType = .dir <;> simp [linked, hdir, hne, Pi.single_neg]

end Move

end Counts

end Graph

end PnfsLattice
