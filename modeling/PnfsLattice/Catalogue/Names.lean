import PnfsLattice.Catalogue.Consistent

/-!
# What a name is bound to

The namespace calls as changes of a map from names to fileids: a call binds at most one name
and otherwise only frees some. The row writes `inode_put`, `dirent_put` and `dirent_del`,
which the cross-shard protocols use, are here as well.
-/

namespace PnfsLattice

open Lib

/-- A name in a directory. -/
abbrev NameKey := CatFileid × Name

def Memdb.binding (m : Memdb) (k : NameKey) : Option CatFileid :=
  (m.direntFind k.1 k.2).map MemdbDirent.childFileid

/-! ## Row writes -/

def memInodePut (ino : MdsInode) (m : Memdb) : Except MdsStatus Memdb :=
  match m.inodeFind ino.fileid with
  | some _ => .ok (m.inodeModify ino.fileid fun _ => ino)
  | none => if m.inodeRoom then .ok (m.inodeStore ino) else .error .nospc

/-- `mem_dirent_put`: insert or overwrite, and no look at the parent. -/
def memDirentPut (k : NameKey) (child : CatFileid) (type : FileType) (m : Memdb) :
    Except MdsStatus Memdb :=
  if !memdbNameOk k.2 then .error .inval
  else if (m.direntFind k.1 k.2).isNone && !m.direntRoom then .error .nospc
  else .ok ((m.direntDrop k.1 k.2).direntSet k.1 k.2 child type)

def memDirentDel (k : NameKey) (m : Memdb) : Except MdsStatus Memdb :=
  if (m.direntFind k.1 k.2).isNone then .error .notfound else .ok (m.direntDrop k.1 k.2)

/-! ## Bindings after a write -/

variable {m m' : Memdb} {now : ℕ}

/-- The entries and the allocator are as before. -/
structure SameNames (m m' : Memdb) : Prop where
  dirents : m'.dirents = m.dirents
  nextFileid : m'.nextFileid = m.nextFileid

theorem binding_congr (h : m'.dirents = m.dirents) (k : NameKey) : m'.binding k = m.binding k := by
  rw [Memdb.binding, Memdb.binding, Memdb.direntFind, Memdb.direntFind, h]

theorem binding_direntSet (m : Memdb) (p f : CatFileid) (name : Name) (t : FileType) (k : NameKey) :
    (m.direntSet p name f t).binding k = if (p, name) = k then some f else m.binding k := by
  unfold Memdb.binding Memdb.direntFind Memdb.direntSet
  rw [findKey_cons]
  exact apply_ite _ _ _ _

theorem binding_direntDrop (m : Memdb) (p : CatFileid) (name : Name) (k : NameKey) :
    (m.direntDrop p name).binding k = if k = (p, name) then none else m.binding k := by
  unfold Memdb.binding Memdb.direntFind Memdb.direntDrop
  rw [findKey_eraseKey]
  exact apply_ite _ _ _ _

theorem sameNames_memInodePut {ino} (h : memInodePut ino m = .ok m') : SameNames m m' := by
  unfold memInodePut at h
  split at h
  · cases h
    exact ⟨rfl, rfl⟩
  · split at h <;> cases h
    exact ⟨rfl, rfl⟩

variable {k : NameKey}

variable {f : CatFileid}

theorem memDirentPut_ok {t : FileType} (h : memDirentPut k f t m = .ok m') :
    m' = (m.direntDrop k.1 k.2).direntSet k.1 k.2 f t := by
  unfold memDirentPut at h
  split at h
  · cases h
  · split at h <;> cases h
    rfl

theorem binding_memDirentPut {t : FileType} (h : memDirentPut k f t m = .ok m') (j : NameKey) :
    m'.binding j = if j = k then some f else m.binding j := by
  rw [memDirentPut_ok h, binding_direntSet, binding_direntDrop]
  by_cases hj : j = k
  · subst hj
    rw [if_pos rfl, if_pos rfl]
  · rw [if_neg hj, if_neg fun he : k = j => hj he.symm, if_neg hj]

theorem memDirentDel_ok (h : memDirentDel k m = .ok m') : m' = m.direntDrop k.1 k.2 := by
  unfold memDirentDel at h
  split at h <;> cases h
  rfl

theorem memDirentDel_error {st} (h : memDirentDel k m = .error st) :
    st = .notfound ∧ m.binding k = none := by
  unfold memDirentDel at h
  split at h <;> cases h
  next hfree =>
    rw [Memdb.binding, Option.isNone_iff_eq_none.mp hfree]
    exact ⟨rfl, rfl⟩

/-! ## Bindings after a call -/

/-- Names keep their file or lose it, but for one bound anew. -/
structure RebindsOnly (m m' : Memdb) (new : Option (NameKey × CatFileid)) : Prop where
  binding : ∀ k, m'.binding k = m.binding k ∨ m'.binding k = none ∨
    ∃ f, new = some (k, f) ∧ m'.binding k = some f
  nextFileid : m.nextFileid ≤ m'.nextFileid

/-- The name that a call binds if it succeeds, and the file. -/
def NsCall.binds (m : Memdb) : NsCall → Option (NameKey × CatFileid)
  | .allocFileid => none
  | .create a => some ((a.parent, a.name), m.nextFileid)
  | .createWide _ a => some ((a.parentFileid, a.name), a.child.fileid)
  | .link parent name target => some ((parent, name), target)
  | .rename sp sn dp dn
  | .renameFlags sp sn dp dn _ => (m.binding (sp, sn)).map fun f => ((dp, dn), f)
  | .remove _ _ | .removeKnownGc _ _ _ _ => none

def NsCall.names : NsCall → List NameKey
  | .allocFileid => []
  | .create a => [(a.parent, a.name)]
  | .createWide _ a => [(a.parentFileid, a.name)]
  | .link parent name _ => [(parent, name)]
  | .rename sp sn dp dn | .renameFlags sp sn dp dn _ => [(sp, sn), (dp, dn)]
  | .remove parent name | .removeKnownGc parent name _ _ => [(parent, name)]

/-- The names in `ks` keep their file or lose it, but for one bound anew; the others keep theirs. -/
structure Rebinds (ks : List NameKey) (m m' : Memdb) (new : Option (NameKey × CatFileid)) :
    Prop where
  binding : ∀ k, m'.binding k = m.binding k ∨ k ∈ ks ∧ (m'.binding k = none ∨
    ∃ f, new = some (k, f) ∧ m'.binding k = some f)
  nextFileid : m.nextFileid ≤ m'.nextFileid

namespace Rebinds

variable {new : Option (NameKey × CatFileid)} {ks : List NameKey} {m₁ : Memdb} {p : CatFileid}
  {name : Name}

theorem only (h : Rebinds ks m m' new) : RebindsOnly m m' new :=
  ⟨fun k => (h.binding k).imp_right And.right, h.nextFileid⟩

theorem keeps (h : Rebinds ks m m' new) (hk : k ∉ ks) : m'.binding k = m.binding k :=
  (h.binding k).resolve_right fun hmem => hk hmem.1

theorem of_sameNames (h : SameNames m m') : Rebinds ks m m' new :=
  ⟨fun k => .inl (binding_congr h.dirents k), h.nextFileid.ge⟩

theorem of_set {t : FileType} (hk : (p, name) ∈ ks) :
    Rebinds ks m (m.direntSet p name f t) (some ((p, name), f)) := by
  refine ⟨fun k => ?_, le_rfl⟩
  rw [binding_direntSet]
  split
  next heq =>
    subst heq
    exact .inr ⟨hk, .inr ⟨f, rfl, rfl⟩⟩
  · exact .inl rfl

theorem of_drop (hk : (p, name) ∈ ks) : Rebinds ks m (m.direntDrop p name) new := by
  refine ⟨fun k => ?_, le_rfl⟩
  rw [binding_direntDrop]
  split
  next heq => exact .inr ⟨heq ▸ hk, .inl rfl⟩
  · exact .inl rfl

theorem after (h₁ : Rebinds ks m m₁ none) (h₂ : Rebinds ks m₁ m' new) : Rebinds ks m m' new := by
  refine ⟨fun k => ?_, h₁.nextFileid.trans h₂.nextFileid⟩
  rcases h₂.binding k with heq | hnew
  · rw [heq]
    exact (h₁.binding k).imp_right fun ⟨hk, h⟩ => ⟨hk, h.imp_right fun ⟨_, h, _⟩ => nomatch h⟩
  · exact .inr hnew

theorem before (h₁ : Rebinds ks m m₁ new) (h₂ : SameNames m₁ m' := by exact ⟨rfl, rfl⟩) :
    Rebinds ks m m' new := by
  refine ⟨fun k => ?_, h₁.nextFileid.trans h₂.nextFileid.ge⟩
  rw [binding_congr h₂.dirents]
  exact h₁.binding k

end Rebinds

theorem sameNames_of_bare (h : m'.bare = m.bare) : SameNames m m' :=
  ⟨(congrArg Memdb.dirents h :), (congrArg Memdb.nextFileid h :)⟩

theorem sameNames_unlinkChild (child : CatFileid) (final : Bool) (gc : GcPlan) (m : Memdb) :
    SameNames m (unlinkChild now child final gc m) := by
  unfold unlinkChild
  split
  · exact ⟨rfl, rfl⟩
  · obtain ⟨_, _, heq, -⟩ := gcInserts_eq child _ _ _
    rw [heq]
    exact ⟨rfl, rfl⟩

theorem rebinds_unlinkLocked {parent name guard gc final}
    (h : unlinkLocked now parent name guard gc m = .ok (final, m')) :
    Rebinds [(parent, name)] m m' none := by
  obtain ⟨d, _, -, -, hun, rfl, -⟩ := unlinkLocked_ok h
  have hdrop : Rebinds [(parent, name)] m (m.direntDrop parent name) none :=
    .of_drop List.mem_cons_self
  have hgone (final : Bool) :
      Rebinds _ m (unlinkChild now d.childFileid final gc (m.direntDrop parent name)) none :=
    hdrop.before (sameNames_unlinkChild _ _ _ _)
  cases hun with
  | dangling => exact hdrop.before
  | dir => exact (hgone true).before
  | file => exact (hgone _).before

theorem rebinds_renameFlags {sp dp sn dn nsFlags}
    (h : memNsRenameFlags now sp sn dp dn nsFlags m = .ok m') :
    Rebinds [(sp, sn), (dp, dn)] m m' ((m.binding (sp, sn)).map fun f => ((dp, dn), f)) := by
  obtain ⟨src, q, hsrc, -, -, hren⟩ := memNsRenameFlags_ok h
  have hnew : (m.binding (sp, sn)).map (fun f => ((dp, dn), f)) =
      some ((dp, dn), src.childFileid) := by
    rw [Memdb.binding, hsrc]
    rfl
  have hkey : src.key = (sp, sn) := key_of_findKey hsrc
  rw [hnew]
  -- The move frees the source name and binds the destination.
  have hmove (m₁ : Memdb) (b : Bool) : Rebinds [(sp, sn), (dp, dn)] m₁
      (renameMove now src b dp dn m₁) (some ((dp, dn), src.childFileid)) := by
    have hfreed : Rebinds [(sp, sn), (dp, dn)] m₁ (m₁.direntDrop src.parent src.name) none :=
      .of_drop (by rw [show (src.parent, src.name) = (sp, sn) from hkey]; simp)
    exact (hfreed.after (.of_set (by simp))).before (sameNames_of_bare (bare_renameMove ..))
  cases hren with
  | noop => exact .of_sameNames ⟨rfl, rfl⟩
  | free => exact hmove m _
  | victim =>
    refine .after (.after (.of_sameNames ?_) (.of_drop (by simp))) (hmove _ _)
    exact sameNames_of_bare (bare_renameDropVictim ..)

/-- A call binds one name at most, and touches no name that is not in its arguments. -/
theorem rebinds_nsCall {c} (h : nsCall now m c = .ok m') : Rebinds c.names m m' (c.binds m) := by
  cases c with
  | allocFileid =>
    cases h
    exact ⟨fun k => .inl rfl, Nat.le_succ _⟩
  | create a =>
    obtain ⟨⟨_, m₁⟩, hc, rfl⟩ := exists_of_map_ok h
    obtain ⟨-, -, rfl, _, rfl, rfl⟩ := memNsCreate_ok hc
    have hstored : Rebinds [(a.parent, a.name)] m (({ m with nextFileid := m.nextFileid + 1 } :
        Memdb).inodeStore (a.child m.nextFileid now)) none :=
      ⟨fun k => .inl rfl, Nat.le_succ _⟩
    have hset := hstored.after (Rebinds.of_set (f := m.nextFileid) (t := a.type) List.mem_cons_self)
    split <;> exact hset.before
  | createWide _ a =>
    obtain ⟨-, -, -, -, -, m₁, rfl, rfl⟩ := memNsCreateWide_ok h
    have hstored : Rebinds [(a.parentFileid, a.name)] m (m.inodeStore a.child) none :=
      .of_sameNames ⟨rfl, rfl⟩
    exact (hstored.after (.of_set List.mem_cons_self)).before
  | link =>
    obtain ⟨p, t, -, -, -, -, -, rfl⟩ := memNsLink_ok h
    exact (Rebinds.of_set List.mem_cons_self).before
  | rename | renameFlags => exact rebinds_renameFlags h
  | remove | removeKnownGc =>
    obtain ⟨⟨_, _⟩, hc, rfl⟩ := exists_of_map_ok h
    exact rebinds_unlinkLocked hc

theorem rebindsOnly_nsStep {c} (h : nsStep m c = some m') : RebindsOnly m m' (c.2.binds m) := by
  unfold nsStep at h
  split at h <;> cases h
  next hc => exact (rebinds_nsCall hc).only
  · exact ⟨fun k => .inl rfl, le_rfl⟩

end PnfsLattice
