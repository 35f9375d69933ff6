import PnfsLattice.Layout.Rows
import PnfsLattice.Layout.Tracker

/-!
# The grant window

What `op_layoutget` of `compound_layout.c` decides before it touches any layout state: its
checks in the order of the source, the window it will grant, and the range it will recall
from other holders. The window is anchored at the requested offset and widened up to the
configured maximum; a `GetPlan` always has a byte in it and ends below `UINT64_MAX`.
-/

namespace PnfsLattice

def layout4Nfsv41Files : UInt32 := 1

def layout4FlexFiles : UInt32 := 4

/-- The failures of LAYOUTGET and LAYOUTRETURN that are decided here. -/
inductive LayoutErr
  | stale
  | inval
  | notsupp
  | layoutunavailable
  | layouttrylater
  | resource
  | oldStateid
  | badStateid
deriving DecidableEq

/-- The settings LAYOUTGET reads. `compound_layout_set_grant_max_length` raises a lower maximum
to 64 KiB. -/
structure LayoutCfg where
  mdsId : UInt32
  stripeUnit : ℕ
  grantMaxLength : ℕ
  grantMax_ge : 65536 ≤ grantMaxLength
  serveLayouts : Bool
  hpcServeLayouts : Bool
  autoWidenLeaseOn4k : Bool
deriving DecidableEq

/-- `compound_layout_set_grant_max_length` takes its least value. -/
theorem LayoutCfg.grantMin_le : 65536 ≤ 65536 := Nat.le_refl _

/-- `struct nfs4_arg_layoutget`, without the stateid. -/
structure LayoutgetArgs where
  layoutType : UInt32
  offset : ℕ
  length : ℕ
  minlength : ℕ
deriving DecidableEq

variable (cfg : LayoutCfg)

/-- The configured stripe unit, or 64 KiB. -/
def LayoutCfg.unit : ℕ := if 0 < cfg.stripeUnit then cfg.stripeUnit else 65536

def layoutClampGrantLength (offset length : ℕ) : ℕ :=
  if uint64MaxNat - 1 ≤ offset then 0
  else min length (min cfg.grantMaxLength (uint64MaxNat - 1 - offset))

/-- `layout_select_grant_range`: the length of the window at `a.offset`. -/
def layoutSelectGrantRange (a : LayoutgetArgs) (size : ℕ) : Except LayoutErr ℕ :=
  if a.length ≠ uint64MaxNat ∧ uint64MaxNat - a.offset < a.length then .error .inval
  else if a.offset = uint64MaxNat then .error .inval
  else
    let window := cfg.unit
    let window := if a.length ≠ uint64MaxNat then max window a.length else window
    let window := if a.minlength ≠ uint64MaxNat then max window a.minlength else window
    let window := max window (size - a.offset)
    let window := max (max window 1) cfg.grantMaxLength
    let window := layoutClampGrantLength cfg a.offset window
    if window = 0 then .error .inval else .ok window

/-- The length of the stripe lease, which is also the length of the recall. -/
def layoutgetLeaseLength (a : LayoutgetArgs) (grantLength : ℕ) : ℕ :=
  let lease :=
    if a.minlength ≠ uint64MaxNat ∧ 0 < a.minlength then a.minlength else cfg.unit
  let lease :=
    if cfg.autoWidenLeaseOn4k ∧ a.minlength = 4096 ∧ a.length = uint64MaxNat then uint64MaxNat
    else lease
  min (max lease cfg.unit) grantLength

/-- The window of every request at `offset`: the widening reaches the configured maximum, and
the clamp brings it back to that. -/
def LayoutCfg.window (offset : ℕ) : ℕ := min cfg.grantMaxLength (uint64MaxNat - 1 - offset)

/-- The request's range wraps. -/
def LayoutgetArgs.Wraps (a : LayoutgetArgs) : Prop :=
  a.length ≠ uint64MaxNat ∧ uint64MaxNat - a.offset < a.length

instance : DecidablePred LayoutgetArgs.Wraps := fun _ => instDecidableAnd

theorem layoutSelectGrantRange_eq (a : LayoutgetArgs) (size : ℕ) :
    layoutSelectGrantRange cfg a size =
      if a.Wraps ∨ cfg.window a.offset = 0 then .error .inval else .ok (cfg.window a.offset) := by
  have hclamp : ∀ n, cfg.grantMaxLength ≤ n →
      layoutClampGrantLength cfg a.offset n = cfg.window a.offset := by
    intro n _
    rw [layoutClampGrantLength, LayoutCfg.window]
    split_ifs <;> omega
  rw [layoutSelectGrantRange]
  change (if a.Wraps then _ else _) = _
  by_cases hwraps : a.Wraps
  · simp [hwraps]
  simp only [hwraps, if_false, false_or, hclamp _ (Nat.le_max_right ..)]
  split_ifs with hoff hzero
  · rfl
  · rw [LayoutCfg.window] at hzero
    omega
  · rfl
  · rfl

theorem layoutSelectGrantRange_ok {cfg a size w} (h : layoutSelectGrantRange cfg a size = .ok w) :
    0 < w ∧ a.offset + w < uint64MaxNat := by
  rw [layoutSelectGrantRange_eq] at h
  split_ifs at h
  cases h
  rw [LayoutCfg.window] at *
  omega

/-- The window a LAYOUTGET is about to grant, and the length it recalls from others. The
window has a byte in it and ends below `UINT64_MAX`, so that the row that stores it means
these bytes. -/
structure GetPlan where
  offset : ℕ
  length : ℕ
  leaseLength : ℕ
  length_pos : 0 < length
  end_lt : offset + length < uint64MaxNat
deriving DecidableEq

/-- The checks of `op_layoutget` up to the recall scan. `inode` is what the inode lookup
returned, and `isRenewal` says whether the presented stateid was tracked at entry. -/
def layoutgetPlan (cfg : LayoutCfg) (a : LayoutgetArgs) (inode : Option MdsInode)
    (tracker : SeqidTable) (isRenewal : Bool) : Except LayoutErr GetPlan :=
  if a.layoutType ≠ layout4Nfsv41Files ∧ a.layoutType ≠ layout4FlexFiles then .error .notsupp
  else
    match inode with
    | none => .error .stale
    | some inode =>
      if inode.type ≠ .reg then .error .inval
      else if inode.has iflagInline ∧ ¬ inode.has iflagDsPending then
        .error .layoutunavailable
      else if cfg.serveLayouts = false then .error .layoutunavailable
      else if inode.has iflagHpcShared ∧ cfg.hpcServeLayouts = false then
        .error .layoutunavailable
      else
        match hlen : layoutSelectGrantRange cfg a inode.size.toNat with
        | .error e => .error e
        | .ok length =>
          -- A full tracker refuses new stateids, before anything has to be undone.
          if layoutSeqidAtCapacity tracker ∧ isRenewal = false then .error .resource
          else
            .ok { offset := a.offset, length
                  leaseLength := layoutgetLeaseLength cfg a length
                  length_pos := (layoutSelectGrantRange_ok hlen).1
                  end_lt := (layoutSelectGrantRange_ok hlen).2 }

/-- The narrowing of a grant to the longest prefix without a lease conflict; a prefix of
zero is NFS4ERR_LAYOUTTRYLATER. -/
def narrowGrant (p : GetPlan) (slotPrefix : ℕ) : Except LayoutErr GetPlan :=
  if h : slotPrefix = 0 then .error .layouttrylater
  else if slotPrefix < p.leaseLength then
    .ok { offset := p.offset, length := min p.length slotPrefix, leaseLength := slotPrefix
          length_pos := by have := p.length_pos; omega
          end_lt := by have := p.end_lt; omega }
  else .ok p

end PnfsLattice
