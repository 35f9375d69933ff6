import PnfsLattice.Catalogue.Consistent

/-!
# The catalogue without some directories' entries

`Memdb.veil D m` is the catalogue `m` without the entries of the directories in `D`. A call
that neither names such a directory nor removes one does the same on both, as long as the
table of entries has room.
-/

namespace PnfsLattice

open Lib Memdb

/-- The catalogue without the entries of the directories in `D`. -/
def Memdb.veil (D : CatFileid → Bool) (m : Memdb) : Memdb :=
  { m with dirents := m.dirents.filter fun d => !D d.parent }

namespace Memdb

variable {D : CatFileid → Bool} {m : Memdb} {p : CatFileid} {name : Name}

@[simp] theorem inodeFind_veil (f : CatFileid) : (m.veil D).inodeFind f = m.inodeFind f := rfl

@[simp] theorem veil_veil : (m.veil D).veil D = m.veil D := by
  simp [veil, List.filter_filter]

theorem direntFind_veil (hp : D p = false) :
    (m.veil D).direntFind p name = m.direntFind p name := by
  simp only [direntFind, veil, findKey, List.find?_filter]
  congr 1
  funext d
  by_cases hd : d.key = (p, name)
  · simp [hd, show d.parent = p from congrArg Prod.fst hd, hp]
  · simp [hd]

theorem dirHasEntries_veil (hp : D p = false) : (m.veil D).dirHasEntries p = m.dirHasEntries p := by
  unfold dirHasEntries veil
  rw [List.any_filter]
  congr 1
  funext d
  by_cases hd : d.parent = p
  · simp [hd, hp]
  · simp [hd]

theorem direntRoom_veil (h : m.direntRoom = true) : (m.veil D).direntRoom = true := by
  rw [direntRoom, decide_eq_true_eq] at h ⊢
  exact (List.length_filter_le ..).trans_lt h

theorem veil_direntSet (hp : D p = false) (child : CatFileid) (type : FileType) :
    (m.direntSet p name child type).veil D = (m.veil D).direntSet p name child type := by
  simp [veil, direntSet, hp]

theorem veil_direntDrop : (m.direntDrop p name).veil D = (m.veil D).direntDrop p name := by
  simp [veil, direntDrop, eraseKey, Bool.and_comm]

end Memdb

section Calls

variable {D : CatFileid → Bool} {m : Memdb} {now : ℕ} {p sp dp : CatFileid} {name sn dn : Name}

theorem memNsLookup_veil (hp : D p = false) :
    memNsLookup (m.veil D) p name = memNsLookup m p name := by
  simp [memNsLookup, direntFind_veil hp]

theorem memNsCreate_veil {a} (hp : D a.parent = false) (hroom : m.direntRoom = true) :
    memNsCreate now a (m.veil D) =
      (memNsCreate now a m).map fun r => (r.1, r.2.veil D) := by
  have hroom' := (direntRoom_veil hroom : (m.veil D).direntRoom = true)
  unfold memNsCreate
  simp only [inodeFind_veil, direntFind_veil hp, hroom, hroom']
  split
  · rfl
  split
  · rfl
  split
  · rfl
  split
  · rfl
  have hin : (m.veil D).inodeRoom = m.inodeRoom := rfl
  rw [hin]
  split
  · rfl
  · simp only [Except.map]
    split <;>
      simp [Memdb.veil, Memdb.direntSet, Memdb.inodeStore, Memdb.inodeModify, hp]

theorem memNsLink_veil {target} (hp : D p = false) (hroom : m.direntRoom = true) :
    memNsLink now p name target (m.veil D) =
      (memNsLink now p name target m).map (Memdb.veil D) := by
  have hroom' := (direntRoom_veil hroom : (m.veil D).direntRoom = true)
  unfold memNsLink
  simp only [inodeFind_veil, direntFind_veil hp, hroom, hroom']
  split
  · rfl
  split
  · split
    · rfl
    split
    · rfl
    split
    · rfl
    · rw [← veil_direntSet hp]
      rfl
  · rfl

theorem unlinkChild_veil (child : CatFileid) (final : Bool) (gc : GcPlan) (m : Memdb) :
    unlinkChild now child final gc (m.veil D) = (unlinkChild now child final gc m).veil D := by
  have hins : ∀ (es : List DsMapEntry) (m : Memdb),
      es.foldl (fun m e => m.gcInsert child gc.sweepHint e) (m.veil D) =
        (es.foldl (fun m e => m.gcInsert child gc.sweepHint e) m).veil D := by
    intro es
    induction es with
    | nil => exact fun _ => rfl
    | cons e _ ih => exact fun m => ih (m.gcInsert child _ e)
  unfold unlinkChild
  split
  · rfl
  · exact hins _ ((m.inodeDrop child).stripeDrop child)

theorem memNsRemove_veil (hp : D p = false)
    (hchild : ∀ d, m.direntFind p name = some d → D d.childFileid = false) :
    memNsRemove now p name (m.veil D) =
      (memNsRemove now p name m).map fun r => (r.1, r.2.veil D) := by
  unfold memNsRemove unlinkLocked
  rw [direntFind_veil hp]
  cases hd : m.direntFind p name with
  | none => rfl
  | some d =>
    simp only [Option.any_none, Bool.false_eq_true, if_false, inodeFind_veil,
      dirHasEntries_veil (hchild d hd), ← veil_direntDrop]
    cases m.inodeFind d.childFileid with
    | none => rfl
    | some =>
      have hgc : (m.veil D).gcFreeCount = m.gcFreeCount := rfl
      simp only [hgc, unlinkChild_veil]
      split
      · rfl
      split
      · rfl
      split
      · rfl
      · split <;> rfl

theorem renameCheck_veil (hs : D sp = false) (hd : D dp = false)
    (hchild : ∀ d, m.direntFind dp dn = some d → D d.childFileid = false) :
    renameCheck (m.veil D) sp sn dp dn = renameCheck m sp sn dp dn := by
  unfold renameCheck
  rw [direntFind_veil hs, direntFind_veil hd]
  cases hdst : m.direntFind dp dn with
  | none => rfl
  | some dst =>
    simp only [dirHasEntries_veil (hchild dst hdst)]
    rfl

theorem renameDropVictim_veil (nsFlags : UInt32) (dstIsDir : Bool) (dst : MemdbDirent) (m : Memdb) :
    renameDropVictim now nsFlags dstIsDir dst (m.veil D) =
      (renameDropVictim now nsFlags dstIsDir dst m).veil D := by
  unfold renameDropVictim
  rw [inodeFind_veil]
  cases m.inodeFind dst.childFileid with
  | none => rfl
  | some =>
    dsimp only
    split_ifs <;> rfl

theorem renameMove_veil {src srcIsDir} (hd : D dp = false) (m : Memdb) :
    renameMove now src srcIsDir dp dn (m.veil D) =
      (renameMove now src srcIsDir dp dn m).veil D := by
  unfold renameMove
  rw [← veil_direntDrop, ← veil_direntSet hd]
  split_ifs <;> rfl

theorem memNsRenameFlags_veil {nsFlags} (hs : D sp = false) (hd : D dp = false)
    (hchild : ∀ d, m.direntFind dp dn = some d → D d.childFileid = false) :
    memNsRenameFlags now sp sn dp dn nsFlags (m.veil D) =
      (memNsRenameFlags now sp sn dp dn nsFlags m).map (Memdb.veil D) := by
  unfold memNsRenameFlags
  split
  · rfl
  unfold renameLocked
  rw [renameCheck_veil hs hd hchild]
  cases renameCheck m sp sn dp dn with
  | error => rfl
  | ok plan =>
    dsimp only
    split
    · rfl
    cases plan.dst with
    | none =>
      simp only [renameMove_veil hd]
      rfl
    | some =>
      simp only [renameDropVictim_veil, ← veil_direntDrop, renameMove_veil hd]
      rfl

end Calls

/-- A call that stays away from the veiled directories: it binds and removes names in others
only, removes none of them, and finds room. -/
def CallApart (D : CatFileid → Bool) (m : Memdb) : NsCall → Prop
  | .create a => D a.parent = false ∧ m.direntRoom = true
  | .link p _ _ => D p = false ∧ m.direntRoom = true
  | .remove p name => D p = false ∧ ∀ d, m.direntFind p name = some d → D d.childFileid = false
  | .renameFlags sp _ dp dn _ =>
    D sp = false ∧ D dp = false ∧ ∀ d, m.direntFind dp dn = some d → D d.childFileid = false
  | _ => False

theorem nsCall_veil {D m c} (now : ℕ) (h : CallApart D m c) : nsCall now (m.veil D) c =
    (nsCall now m c).map (Memdb.veil D) := by
  cases c with
  | create a =>
    simp only [nsCall, memNsCreate_veil h.1 h.2]
    cases memNsCreate now a m <;> rfl
  | link => exact memNsLink_veil h.1 h.2
  | remove p name =>
    simp only [nsCall, memNsRemove_veil h.1 h.2]
    cases memNsRemove now p name m <;> rfl
  | renameFlags => exact memNsRenameFlags_veil h.1 h.2.1 h.2.2
  | _ => exact h.elim

end PnfsLattice
