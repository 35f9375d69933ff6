import PnfsLattice.Catalogue.Names

/-!
# What the namespace calls keep

Of the inodes that are there a namespace call changes link counts, parents, flags and times.
Owner, group, mode, type and size stay as they are; only SETATTR writes them.
-/

namespace PnfsLattice

open Lib List Option

/-- Two versions of an inode with the same owner, group, mode, type and size. -/
structure MdsInode.SameAttrs (a b : MdsInode) : Prop where
  type : a.type = b.type
  mode : a.mode = b.mode
  uid : a.uid = b.uid
  gid : a.gid = b.gid
  size : a.size = b.size

theorem MdsInode.SameAttrs.refl (a : MdsInode) : a.SameAttrs a := ⟨rfl, rfl, rfl, rfl, rfl⟩

theorem MdsInode.SameAttrs.trans {a b c : MdsInode} (h : a.SameAttrs b) (h' : b.SameAttrs c) :
    a.SameAttrs c :=
  ⟨h.type.trans h'.type, h.mode.trans h'.mode, h.uid.trans h'.uid, h.gid.trans h'.gid,
    h.size.trans h'.size⟩

/-- What a change of link counts, parents and times leaves alone. -/
def MdsInode.lasting (i : MdsInode) :
    CatFileid × UInt32 × FileType × UInt32 × UInt64 × UInt64 × UInt64 :=
  (i.fileid, i.flags, i.type, i.mode, i.uid, i.gid, i.size)

/-- A later version of an inode. Flags stay, and no directory gets a mark for removal. -/
structure MdsInode.Later (a b : MdsInode) : Prop extends a.SameAttrs b where
  flags : ∀ flag, b.has flag = true → a.has flag = true
  doomed : a.doomed = true → b.doomed = true ∨ b.type ≠ .dir

namespace MdsInode.Later

variable {a b c : MdsInode}

theorem of_lasting (h : a.lasting = b.lasting) : a.Later b := by
  simp only [MdsInode.lasting, Prod.mk.injEq] at h
  obtain ⟨-, hflags, htype, hmode, huid, hgid, hsize⟩ := h
  refine ⟨⟨htype, hmode, huid, hgid, hsize⟩, ?_, ?_⟩ <;> simp_all [MdsInode.has, MdsInode.doomed]

theorem refl (a : MdsInode) : a.Later a := of_lasting rfl

theorem trans (h : a.Later b) (h' : b.Later c) : a.Later c where
  toSameAttrs := h.toSameAttrs.trans h'.toSameAttrs
  flags flag hf := h.flags flag (h'.flags flag hf)
  doomed hd := (h.doomed hd).elim h'.doomed fun hfile => .inr (h'.type ▸ hfile)

theorem setFlag (flag : UInt32) (hfile : a.type ≠ .dir) : (setFlag flag a).Later a := by
  refine ⟨⟨rfl, rfl, rfl, rfl, rfl⟩, fun _ h => ?_, fun _ => .inr hfile⟩
  simp only [MdsInode.has, PnfsLattice.setFlag, bne_iff_ne, ne_eq, or_and_distrib,
    UInt32.or_eq_zero_iff] at h ⊢
  exact fun hzero => h hzero.1

end MdsInode.Later

/-- The inodes of the second catalogue are later versions of those of the first. -/
structure Memdb.Keeps (m m' : Memdb) : Prop where
  next_le : m.nextFileid ≤ m'.nextFileid
  inode : ∀ f ino', m'.inodeFind f = some ino' → ∃ ino, m.inodeFind f = some ino ∧ ino'.Later ino

namespace Memdb.Keeps

variable {m m₁ m' : Memdb} {g : MdsInode → MdsInode}

theorem of_inodes (h : m'.inodes = m.inodes) (hn : m.nextFileid ≤ m'.nextFileid) :
    Keeps m m' := by
  refine ⟨hn, fun f ino' hino' => ⟨ino', ?_, .refl ino'⟩⟩
  rwa [Memdb.inodeFind, h] at hino'

theorem refl (m : Memdb) : Keeps m m := of_inodes rfl le_rfl

section

variable (h : Keeps m m₁)

include h

theorem trans (h' : Keeps m₁ m') : Keeps m m' := by
  refine ⟨h.next_le.trans h'.next_le, fun f ino' hino' => ?_⟩
  obtain ⟨ino₁, hino₁, hlater₁⟩ := h'.inode f ino' hino'
  obtain ⟨ino, hino, hlater⟩ := h.inode f ino₁ hino₁
  exact ⟨ino, hino, hlater₁.trans hlater⟩

theorem modify {x} (hid : ∀ i, (g i).fileid = i.fileid)
    (hg : ∀ i, m₁.inodeFind x = some i → (g i).Later i) : Keeps m (m₁.inodeModify x g) := by
  refine h.trans ⟨le_rfl, fun f ino' hino' => ?_⟩
  rw [Memdb.inodeFind_inodeModify f hid] at hino'
  split at hino'
  next heq =>
    subst heq
    obtain ⟨ino, hino, rfl⟩ := map_eq_some_iff.mp hino'
    exact ⟨ino, hino, hg ino hino⟩
  · exact ⟨ino', hino', .refl ino'⟩

theorem touch {x} (hg : ∀ i, (g i).lasting = i.lasting) : Keeps m (m₁.inodeModify x g) :=
  h.modify (fun i => congrArg Prod.fst (hg i)) fun i _ => .of_lasting (hg i)

theorem drop (x : CatFileid) : Keeps m (m₁.inodeDrop x) := by
  refine h.trans ⟨le_rfl, fun f ino' hino' => ?_⟩
  rw [Memdb.inodeFind_inodeDrop] at hino'
  split at hino'
  · cases hino'
  · exact ⟨ino', hino', .refl ino'⟩

theorem same (heq : m'.inodes = m₁.inodes) (hn : m₁.nextFileid ≤ m'.nextFileid) : Keeps m m' :=
  h.trans (of_inodes heq hn)

end

end Memdb.Keeps

variable {m m' m₁ : Memdb} {now : ℕ} {name : Name} {f : CatFileid} {c : NsCall}
  {parent : CatFileid} {guard : Option MdsInode} {gc : GcPlan} {final : Bool}
  {sp dp : CatFileid} {sn dn : Name} {nsFlags : UInt32} {ino' : MdsInode} {p : CatFileid}

theorem keeps_unlinkChild (h : m.Keeps m₁) (child : CatFileid) (final : Bool) (gc : GcPlan) :
    m.Keeps (unlinkChild now child final gc m₁) := by
  unfold unlinkChild
  split
  · exact h.touch fun _ => rfl
  · obtain ⟨_, _, heq, -⟩ := gcInserts_eq child _ _ _
    rw [heq]
    exact (h.drop child).same rfl le_rfl

theorem keeps_unlinkLocked (h : unlinkLocked now parent name guard gc m = .ok (final, m')) :
    m.Keeps m' := by
  obtain ⟨d, _, -, -, hun, rfl, -⟩ := unlinkLocked_ok h
  have hdrop : m.Keeps (m.direntDrop parent name) := .of_inodes rfl le_rfl
  refine .touch ?_ fun _ => rfl
  cases hun with
  | dangling => exact hdrop
  | dir => exact .touch (keeps_unlinkChild hdrop _ _ _) fun _ => rfl
  | file => exact keeps_unlinkChild hdrop _ _ _

theorem keeps_renameDropVictim (nsFlags : UInt32) (dstIsDir : Bool) (dst : MemdbDirent)
    (m : Memdb) : m.Keeps (renameDropVictim now nsFlags dstIsDir dst m) := by
  unfold renameDropVictim
  have h := Memdb.Keeps.refl m
  split
  · exact h
  next v hv =>
    have hfid := Memdb.fileid_of_inodeFind hv
    split_ifs with _ _ hreg
    · exact .touch (h.drop _) fun _ => rfl
    · exact h.touch fun _ => rfl
    · -- Only a regular file is kept as an orphan.
      refine h.modify (fun _ => rfl) fun i hi => MdsInode.Later.trans (b := setFlag _ i)
        (.of_lasting rfl) (.setFlag _ ?_)
      rw [hfid] at hi
      obtain rfl : v = i := mem_unique hv hi
      have htype : v.type = .reg := by simpa using (Bool.and_eq_true_iff.mp hreg).1
      rw [htype]
      decide
    · exact h.drop _

theorem keeps_renameMove (h : m.Keeps m₁) (src : MemdbDirent) (srcIsDir : Bool) (dp : CatFileid)
    (dn : Name) : m.Keeps (renameMove now src srcIsDir dp dn m₁) := by
  have hmoved : m.Keeps ((m₁.direntDrop src.parent src.name).direntSet dp dn src.childFileid
      src.childType) := h.same rfl le_rfl
  unfold renameMove
  split
  · refine .touch (.touch (.touch ?_ ?_) ?_) fun _ => rfl
    on_goal 1 => split
    · exact .touch (.touch hmoved (by intro; rfl)) fun _ => rfl
    · exact hmoved
    all_goals exact fun _ => rfl
  · exact hmoved.touch fun _ => rfl

theorem keeps_renameFlags (h : memNsRenameFlags now sp sn dp dn nsFlags m = .ok m') :
    m.Keeps m' := by
  obtain ⟨_, q, -, -, -, hren⟩ := memNsRenameFlags_ok h
  cases hren with
  | noop => exact .refl m
  | free => exact keeps_renameMove (.refl m) _ _ _ _
  | victim =>
    refine keeps_renameMove ?_ _ _ _ _
    exact (keeps_renameDropVictim _ _ _ m).same rfl le_rfl

theorem keeps_link {target} (h : memNsLink now parent name target m = .ok m') : m.Keeps m' := by
  obtain ⟨p, t, -, -, -, -, -, rfl⟩ := memNsLink_ok h
  exact .touch (.touch (.of_inodes (by rfl) (by rfl)) (by intro; rfl)) fun _ => rfl

theorem keeps_create {a child} (h : memNsCreate now a m = .ok (child, m')) :
    (({ m with nextFileid := m.nextFileid + 1 } : Memdb).inodeStore
      (a.child m.nextFileid now)).Keeps m' := by
  obtain ⟨-, -, rfl, _, rfl, rfl⟩ := memNsCreate_ok h
  refine .touch ?_ fun _ => rfl
  split
  · exact .touch (.of_inodes (by rfl) (by rfl)) fun _ => rfl
  · exact .of_inodes rfl le_rfl

theorem attrs_create {a child} (h : memNsCreate now a m = .ok (child, m'))
    (hf : m'.inodeFind f = some ino') :
    (∃ ino, m.inodeFind f = some ino ∧ ino'.SameAttrs ino) ∨
      f = m.nextFileid ∧ ino'.SameAttrs (a.child m.nextFileid now) := by
  obtain ⟨ino, hino, hlater⟩ := (keeps_create h).inode f ino' hf
  have hsame := hlater.toSameAttrs
  rw [Memdb.inodeFind_inodeStore] at hino
  split at hino
  next heq =>
    cases hino
    exact .inr ⟨heq, hsame⟩
  next => exact .inl ⟨ino, hino, hsame⟩

theorem keeps_of_not_create (hc : ∀ a, c ≠ .create a)
    (hw : ∀ alloc a, c ≠ .createWide alloc a) (h : nsCall now m c = .ok m') :
    m.Keeps m' := by
  cases c with
  | allocFileid =>
    cases h
    exact .of_inodes rfl (Nat.le_succ _)
  | create a => exact absurd rfl (hc a)
  | createWide alloc a => exact absurd rfl (hw alloc a)
  | link => exact keeps_link h
  | rename | renameFlags => exact keeps_renameFlags h
  | remove | removeKnownGc =>
    obtain ⟨⟨_, _⟩, hok, rfl⟩ := exists_of_map_ok h
    exact keeps_unlinkLocked hok

/-- The inodes after a namespace call are those before it, and the child of a create. A wide
create may be given a fileid that is not the allocator's next. -/
theorem attrs_nsCall (hw : ∀ alloc a, c ≠ .createWide alloc a) (h : nsCall now m c = .ok m')
    (hf : m'.inodeFind f = some ino') : (∃ ino, m.inodeFind f = some ino ∧ ino'.SameAttrs ino) ∨
      ∃ a, c = .create a ∧ f = m.nextFileid ∧ ino'.SameAttrs (a.child m.nextFileid now) := by
  by_cases hc : ∀ a, c ≠ .create a
  · obtain ⟨ino, hino, hlater⟩ := (keeps_of_not_create hc hw h).inode f ino' hf
    exact .inl ⟨ino, hino, hlater.toSameAttrs⟩
  obtain ⟨a, rfl⟩ := by simpa using hc
  obtain ⟨⟨_, _⟩, hok, rfl⟩ := exists_of_map_ok h
  rcases attrs_create hok hf with hold | hnew
  · exact .inl hold
  · exact .inr ⟨a, rfl, hnew⟩

end PnfsLattice
