import Mathlib.Tactic
import PnfsLattice.Lock.Table

/-!
# Byte-range lock exclusion

What the lock table is for: at every byte of a file the owners that hold it either all
hold it for reading, or there is one of them. The abstract view is the per-byte one,
`HeldAt rs t b` (some range of `rs` has type `t` and covers byte `b`); carving is set
difference there, and a grant is an update.
-/

namespace PnfsLattice

open Lib List Option

/-! ## Bytes of a range -/

@[simp] theorem toNat_uint64Max : uint64Max.toNat = 2 ^ 64 - 1 := rfl

theorem toNat_rangeEnd (offset length : UInt64) :
    (rangeEnd offset length).toNat = min (offset.toNat + length.toNat) (2 ^ 64 - 1) := by
  have hl := length.toNat_lt
  have hadd : (offset + length).toNat = (offset.toNat + length.toNat) % 2 ^ 64 :=
    UInt64.toNat_add offset length
  unfold rangeEnd
  split
  next h =>
    rw [toNat_uint64Max]
    rcases h with rfl | h
    · rw [toNat_uint64Max]; omega
    · rw [UInt64.lt_iff_toNat_lt] at h
      omega
  next h =>
    rw [UInt64.lt_iff_toNat_lt] at h
    omega

/-- Byte `b` lies in the half-open interval of the range. -/
def LockRange.Covers (r : LockRange) (b : ℕ) : Prop :=
  r.offset.toNat ≤ b ∧ b < (rangeEnd r.offset r.length).toNat
deriving Decidable

/-- Two ranges share no byte. -/
def Apart (r r' : LockRange) : Prop := ∀ b, r.Covers b → ¬ r'.Covers b

/-- The ranges hold byte `b` with type `t`. -/
def HeldAt (rs : List LockRange) (t : LockType) (b : ℕ) : Prop :=
  ∃ r ∈ rs, r.lockType = t ∧ r.Covers b

@[simp] theorem heldAt_nil (t : LockType) (b : ℕ) : ¬ HeldAt [] t b := by simp [HeldAt]

@[simp] theorem heldAt_cons (r : LockRange) (rs : List LockRange) (t : LockType) (b : ℕ) :
    HeldAt (r :: rs) t b ↔ (r.lockType = t ∧ r.Covers b) ∨ HeldAt rs t b := by
  simp [HeldAt]

variable {r : LockRange} {lt : LockTable}

/-- Two ranges that share a byte overlap in the source's sense. -/
theorem rangesOverlap_of_covers {r' : LockRange} {b : ℕ} (h : r.Covers b) (h' : r'.Covers b) :
    rangesOverlap r.offset r.length r'.offset r'.length = true := by
  simp only [rangesOverlap, Bool.and_eq_true, decide_eq_true_eq, UInt64.lt_iff_toNat_lt]
  exact ⟨lt_of_le_of_lt h.1 h'.2, lt_of_le_of_lt h'.1 h.2⟩

/-! ## Carving one range -/

variable {offset : UInt64} {a : LockArgs} {lt' : LockTable} {op : LockOp}

theorem covers_head (h : r.offset < offset) (b : ℕ) :
    { r with length := offset - r.offset }.Covers b ↔
      r.offset.toNat ≤ b ∧ b < offset.toNat := by
  rw [UInt64.lt_iff_toNat_lt] at h
  have ho := offset.toNat_lt
  have hsub : (offset - r.offset).toNat = offset.toNat - r.offset.toNat :=
    UInt64.toNat_sub_of_le _ _ (by rw [UInt64.le_iff_toNat_le]; omega)
  simp only [LockRange.Covers, toNat_rangeEnd, hsub]
  omega

theorem covers_tail {stop} (id : ℕ) (h : stop < rangeEnd r.offset r.length) (b : ℕ) :
    { r with
      offset := stop, length := tailLength (rangeEnd r.offset r.length) stop,
      lockId := id }.Covers b ↔
      stop.toNat ≤ b ∧ b < (rangeEnd r.offset r.length).toNat := by
  rw [UInt64.lt_iff_toNat_lt] at h
  have hr := (rangeEnd r.offset r.length).toNat_lt
  simp only [LockRange.Covers, toNat_rangeEnd stop, tailLength]
  split
  next hmax => rw [hmax, toNat_uint64Max]; omega
  next hmax =>
    have hsub : (rangeEnd r.offset r.length - stop).toNat =
        (rangeEnd r.offset r.length).toNat - stop.toNat :=
      UInt64.toNat_sub_of_le _ _ (by rw [UInt64.le_iff_toNat_le]; omega)
    omega

/-! ## Carving the list -/

section Carve

variable (lt : LockTable) (os : LockOwnerState) (offset stop : UInt64) (seq : ℕ)

/-- Byte `b` lies in the carved region. -/
abbrev InRegion (offset stop : UInt64) (b : ℕ) : Prop := offset.toNat ≤ b ∧ b < stop.toNat

@[simp] theorem ranges_push (r : LockRange) (calls : List LockCatCall) (c : Carved) :
    (c.push r calls).ranges = r :: c.ranges := rfl

variable {rs : List LockRange}

/-- **What a carve leaves of one range**: a piece, nothing, or the two pieces of a split, after
which the other ranges are left alone. -/
theorem ranges_carveRange_cons (r : LockRange) (rest : List LockRange) :
    (∃ r', (carveRange lt os offset stop seq (r :: rest)).ranges =
        r' :: (carveRange lt os offset stop seq rest).ranges ∧ r'.lockType = r.lockType ∧
      ∀ b, r'.Covers b ↔ r.Covers b ∧ ¬ InRegion offset stop b) ∨
    ((carveRange lt os offset stop seq (r :: rest)).ranges =
        (carveRange lt os offset stop seq rest).ranges ∧
      ∀ b, r.Covers b → InRegion offset stop b) ∨ ∃ left right,
      (carveRange lt os offset stop seq (r :: rest)).ranges = left :: right :: rest ∧
      left.lockType = r.lockType ∧ right.lockType = r.lockType ∧
      (∀ b, left.Covers b ↔ r.Covers b ∧ b < offset.toNat) ∧
      (∀ b, right.Covers b ↔ r.Covers b ∧ stop.toNat ≤ b) ∧
      ∀ b, InRegion offset stop b → r.Covers b := by
  rw [carveRange]
  split_ifs with h₁ h₂ h₃ h₄
  · simp only [UInt64.le_iff_toNat_le] at h₁
    refine .inl ⟨r, rfl, rfl, fun b => ?_⟩
    simp only [LockRange.Covers, InRegion]
    omega
  · refine .inr (.inr ⟨_, _, rfl, rfl, rfl, fun b => ?_, fun b => ?_, fun b => ?_⟩)
    · rw [covers_head h₂.1]
      simp only [UInt64.le_iff_toNat_le, UInt64.lt_iff_toNat_lt] at h₁ h₂
      simp only [LockRange.Covers]
      omega
    · rw [covers_tail _ h₂.2]
      simp only [UInt64.le_iff_toNat_le, UInt64.lt_iff_toNat_lt] at h₁ h₂
      simp only [LockRange.Covers]
      omega
    · simp only [UInt64.lt_iff_toNat_lt] at h₂
      simp only [LockRange.Covers, InRegion]
      omega
  · simp only [UInt64.le_iff_toNat_le] at h₃
    refine .inr (.inl ⟨rfl, fun b => ?_⟩)
    simp only [LockRange.Covers, InRegion]
    omega
  · refine .inl ⟨_, rfl, rfl, fun b => ?_⟩
    rw [covers_head h₄]
    simp only [UInt64.le_iff_toNat_le, UInt64.lt_iff_toNat_lt] at h₁ h₂ h₄
    simp only [LockRange.Covers, InRegion]
    omega
  · simp only [UInt64.le_iff_toNat_le, UInt64.lt_iff_toNat_lt] at h₁ h₂ h₃ h₄
    refine .inl ⟨_, rfl, rfl, fun b => ?_⟩
    rw [covers_tail _ (by rw [UInt64.lt_iff_toNat_lt]; omega)]
    simp only [LockRange.Covers, InRegion]
    omega

/-- **Carving is set difference, byte by byte and type by type.**  Stopping after a split
loses nothing: the region then lies inside the split range, which the others avoid. -/
theorem heldAt_carveRange (hrs : rs.Pairwise Apart) (t : LockType) (b : ℕ) :
    HeldAt (carveRange lt os offset stop seq rs).ranges t b ↔
      HeldAt rs t b ∧ ¬ InRegion offset stop b := by
  induction rs with
  | nil => simp [carveRange]
  | cons r rest =>
    obtain ⟨hr, hrest⟩ := pairwise_cons.mp hrs
    rw [heldAt_cons]
    rcases ranges_carveRange_cons lt os offset stop seq r rest with ⟨r', heq, htype, hcov⟩ |
      ⟨heq, hcov⟩ | ⟨left, right, heq, hleft, hright, hcovl, hcovr, hin⟩
    · rw [heq, heldAt_cons, htype, hcov]
      tauto
    · rw [heq]
      have := hcov b
      tauto
    · have hout : HeldAt rest t b → ¬ InRegion offset stop b := by
        rintro ⟨r', hr', -, hb'⟩ hb
        exact hr r' hr' b (hin b hb) hb'
      have hsides : ¬ InRegion offset stop b ↔ b < offset.toNat ∨ stop.toNat ≤ b := by omega
      rw [heq, heldAt_cons, heldAt_cons, hleft, hright, hcovl, hcovr, hsides]
      rw [hsides] at hout
      constructor
      · rintro (⟨ht, hc, hb⟩ | ⟨ht, hc, hb⟩ | hb)
        exacts [⟨.inl ⟨ht, hc⟩, .inl hb⟩, ⟨.inl ⟨ht, hc⟩, .inr hb⟩, ⟨.inr hb, hout hb⟩]
      · rintro ⟨⟨ht, hc⟩ | hh, hb⟩
        exacts [hb.imp (⟨ht, hc, ·⟩) fun hb => .inl ⟨ht, hc, hb⟩, .inr (.inr hh)]

/-- Carving takes bytes away only, also from ranges that overlap. -/
theorem heldAt_of_carveRange {t : LockType} {b}
    (h : HeldAt (carveRange lt os offset stop seq rs).ranges t b) : HeldAt rs t b := by
  induction rs with
  | nil => exact h
  | cons r rest ih =>
    rw [heldAt_cons]
    rcases ranges_carveRange_cons lt os offset stop seq r rest with ⟨_, heq, htype, hcov⟩ |
      ⟨heq, -⟩ | ⟨_, _, heq, hleft, hright, hcovl, hcovr, -⟩
    · rw [heq, heldAt_cons, htype, hcov] at h
      exact h.imp (fun h => ⟨h.1, h.2.1⟩) ih
    · exact .inr (ih (heq ▸ h))
    · rw [heq, heldAt_cons, heldAt_cons, hleft, hright, hcovl, hcovr] at h
      tauto

theorem heldAt_of_mem_carveRange (hrs : rs.Pairwise Apart) {r}
    (hr : r ∈ (carveRange lt os offset stop seq rs).ranges) {b} (hb : r.Covers b) :
    HeldAt rs r.lockType b ∧ ¬ InRegion offset stop b :=
  (heldAt_carveRange lt os offset stop seq hrs r.lockType b).mp ⟨r, hr, rfl, hb⟩

/-- **Carving keeps one owner's ranges disjoint.** -/
theorem carveRange_pairwise (hle : offset ≤ stop) (hrs : rs.Pairwise Apart) :
    (carveRange lt os offset stop seq rs).ranges.Pairwise Apart := by
  induction rs with
  | nil => simp [carveRange]
  | cons r rest ih =>
    obtain ⟨hr, hrest⟩ := pairwise_cons.mp hrs
    rcases ranges_carveRange_cons lt os offset stop seq r rest with ⟨_, heq, -, hcov⟩ |
      ⟨heq, -⟩ | ⟨_, _, heq, -, -, hcovl, hcovr, -⟩
    · -- The piece of `r` is apart from whatever the carve leaves of the other ranges.
      refine heq ▸ pairwise_cons.mpr ⟨fun x hx b hb hb' => ?_, ih hrest⟩
      obtain ⟨⟨r₀, hr₀, -, hb₀⟩, -⟩ := heldAt_of_mem_carveRange lt os offset stop seq hrest hx hb'
      exact hr r₀ hr₀ b ((hcov b).mp hb).1 hb₀
    · exact heq ▸ ih hrest
    · rw [heq]
      refine pairwise_cons.mpr ⟨fun x hx b hb => ?_, pairwise_cons.mpr ⟨fun x hx b hb => ?_, hrest⟩⟩
      · rw [hcovl] at hb
        rcases mem_cons.mp hx with rfl | hx
        · rw [hcovr]
          rw [UInt64.le_iff_toNat_le] at hle
          omega
        · exact hr x hx b hb.1
      · exact hr x hx b ((hcovr b).mp hb).1

end Carve

/-! ## The invariant -/

/-- What identifies an owner state: the file, and the owner as client and owner bytes. -/
def LockOwnerState.key (os : LockOwnerState) : Fileid × Clientid × List UInt8 :=
  (os.fileid, os.clientid, os.owner)

/-- Two sets of ranges may coexist: where they share a byte, both read. -/
def Shareable (rs rs' : List LockRange) : Prop :=
  ∀ r ∈ rs, ∀ r' ∈ rs', ∀ b, r.Covers b → r'.Covers b →
    r.lockType = .readLt ∧ r'.lockType = .readLt

theorem Shareable.symm {rs rs'} (h : Shareable rs rs') : Shareable rs' rs :=
  fun r hr r' hr' b hb hb' => (h r' hr' r hr b hb' hb).symm

/-- **The invariant of the lock table.** -/
structure Exclusive (lt : LockTable) : Prop where
  /-- Different owners of one file share a byte only for reading. -/
  shared : ∀ x ∈ lt.owners, ∀ y ∈ lt.owners, x.fileid = y.fileid → x.key ≠ y.key →
    Shareable x.ranges y.ranges
  /-- One owner's ranges on one file are disjoint. -/
  disjoint : ∀ x ∈ lt.owners, x.ranges.Pairwise Apart
  /-- One state for each owner and file. -/
  oneState : (lt.owners.map LockOwnerState.key).Nodup

namespace Exclusive

variable {lt lt' : LockTable}

theorem of_sublist (h : Exclusive lt) (hsub : lt'.owners.Sublist lt.owners) : Exclusive lt' where
  shared x hx y hy := h.shared x (hsub.subset hx) y (hsub.subset hy)
  disjoint x hx := h.disjoint x (hsub.subset hx)
  oneState := h.oneState.sublist (hsub.map _)

variable {os' : LockOwnerState}

/-- One owner state is written or added, with disjoint ranges that are shareable with the other
owners of the file. -/
theorem put (h : Exclusive lt) (hmem : ∀ x ∈ lt'.owners, x = os' ∨ x ∈ lt.owners)
    (hdisj : os'.ranges.Pairwise Apart)
    (hshare : ∀ y ∈ lt.owners, y.fileid = os'.fileid → y.key ≠ os'.key →
      Shareable os'.ranges y.ranges)
    (hone : (lt'.owners.map LockOwnerState.key).Nodup) : Exclusive lt' := by
  refine ⟨fun x hx y hy hf hne => ?_, fun x hx => ?_, hone⟩
  · rcases hmem x hx with rfl | hx <;> rcases hmem y hy with rfl | hy
    · exact absurd rfl hne
    · exact hshare y hy hf.symm hne.symm
    · exact (hshare x hx hf hne).symm
    · exact h.shared x hx y hy hf hne
  · rcases hmem x hx with rfl | hx
    · exact hdisj
    · exact h.disjoint x hx

theorem modify (h : Exclusive lt) {p os} (hfind : lt.owners.find? p = some os)
    (hkey : os'.key = os.key) (hdisj : os'.ranges.Pairwise Apart)
    (hshare : ∀ y ∈ lt.owners, y.fileid = os.fileid → y.key ≠ os.key →
      Shareable os'.ranges y.ranges)
    (hlt' : lt'.owners = modifyFirst p (fun _ => os') lt.owners) : Exclusive lt' := by
  have hfile : os'.fileid = os.fileid := congrArg Prod.fst hkey
  refine h.put (fun x hx => ?_) hdisj (hkey ▸ hfile ▸ hshare) ?_
  · rcases mem_modifyFirst (hlt' ▸ hx) with hx | ⟨_, _, rfl⟩
    · exact .inr hx
    · exact .inl rfl
  · rw [hlt', map_modifyFirst hfind hkey]
    exact h.oneState

theorem insert (h : Exclusive lt) (hnew : ∀ y ∈ lt.owners, y.key ≠ os'.key)
    (hdisj : os'.ranges.Pairwise Apart)
    (hshare : ∀ y ∈ lt.owners, y.fileid = os'.fileid → y.key ≠ os'.key →
      Shareable os'.ranges y.ranges)
    (hlt' : lt'.owners = os' :: lt.owners) : Exclusive lt' :=
  h.put (by simp [hlt']) hdisj hshare (hlt' ▸ nodup_map_cons.mpr ⟨hnew, h.oneState⟩)

end Exclusive

/-! ## Granting a range -/

/-- A scan that finds nothing: what other owners hold in the way, they read, and so does
the request. -/
theorem read_of_scanConflict_none {fileid clientid owner} {eff : LockType} {length}
    (h : scanConflict lt fileid clientid owner eff offset length = none) {y} (hy : y ∈ lt.owners)
    (hf : y.fileid = fileid) (hne : ¬ (y.clientid = clientid ∧ y.owner = owner))
    (hr : r ∈ y.ranges) (ho : rangesOverlap r.offset r.length offset length = true) :
    r.lockType = .readLt ∧ eff = .readLt := by
  have hy' := List.findSome?_eq_none_iff.mp h y hy
  have hm : ownerMatch y clientid owner = false := by
    rw [Bool.eq_false_iff, ne_eq, ownerMatch, Bool.and_eq_true, beq_iff_eq, beq_iff_eq]
    exact hne
  simp only [hf, hm, beq_self_eq_true, Bool.not_false, Bool.and_self, if_true,
    map_eq_none_iff, List.find?_eq_none] at hy'
  simpa [rangeConflicts, ho] using hy' r hr

theorem le_rangeEnd (offset length : UInt64) : offset ≤ rangeEnd offset length := by
  have := offset.toNat_lt
  rw [UInt64.le_iff_toNat_le, toNat_rangeEnd]
  omega

section Grant

variable (lt : LockTable) (os : LockOwnerState) (eff : LockType) (offset length : UInt64)
  (openStateid : Option Stateid)

@[simp] theorem key_grantRange :
    (grantRange lt os eff offset length openStateid).1.key = os.key := rfl

theorem grantRange_pairwise (h : os.ranges.Pairwise Apart) :
    (grantRange lt os eff offset length openStateid).1.ranges.Pairwise Apart := by
  refine pairwise_cons.mpr ⟨fun r hr b hb hb' => ?_,
    carveRange_pairwise _ _ _ _ _ (le_rangeEnd offset length) h⟩
  exact (heldAt_of_mem_carveRange _ _ _ _ _ h hr hb').2 hb

/-- What an owner holds after a grant is shareable with any owner it was shareable with
before and that the new range does not conflict with. -/
theorem grantRange_shareable {y : LockOwnerState} (h : os.ranges.Pairwise Apart)
    (hold : Shareable os.ranges y.ranges)
    (hscan : ∀ r ∈ y.ranges, rangesOverlap r.offset r.length offset length = true →
      r.lockType = .readLt ∧ eff = .readLt) :
    Shareable (grantRange lt os eff offset length openStateid).1.ranges y.ranges := by
  intro r hr r' hr' b hb hb'
  rcases mem_cons.mp hr with rfl | hr
  · exact (hscan r' hr' (rangesOverlap_of_covers hb' hb)).symm
  · obtain ⟨⟨r₀, hr₀, ht, hb₀⟩, -⟩ := heldAt_of_mem_carveRange _ _ _ _ _ h hr hb
    exact ht ▸ hold r₀ hr₀ r' hr' b hb₀ hb'

end Grant

/-! ## The actions -/

theorem resolve_some {os} (h : a.resolve lt = .ok (some os)) :
    lt.owners.find? a.resolves = some os ∧ os.fileid = a.fileid := by
  unfold LockArgs.resolve at h
  cases hf : lt.owners.find? a.resolves with
  | none =>
    rw [hf] at h
    by_cases hn : a.newLockOwner = true <;> simp [hn] at h
  | some os₀ =>
    rw [hf] at h
    by_cases hn : a.newLockOwner = true
    · obtain rfl : os₀ = os := by simpa [hn] using h
      have hres := List.find?_some hf
      simp only [LockArgs.resolves, hn, if_true, isOwnerOf, Bool.and_eq_true, beq_iff_eq] at hres
      exact ⟨rfl, hres.1⟩
    · by_cases hfile : os₀.fileid = a.fileid
      · cases hs : seqidCheck os₀ a.lockStateid.seqid <;>
          simp [hn, hfile, hs, Except.map] at h
        exact ⟨congrArg some h, h ▸ hfile⟩
      · simp [hn, hfile] at h

/-- A request that resolves to no state is on the new-owner arm, and its owner has no
state on the file. -/
theorem resolve_none (h : a.resolve lt = .ok none) :
    findOwner lt a.fileid a.clientid (a.owner.take lockOwnerMax) = none := by
  unfold LockArgs.resolve at h
  by_cases hn : a.newLockOwner = true
  · have hres : a.resolves = isOwnerOf a.fileid a.clientid (a.owner.take lockOwnerMax) := by
      simp [LockArgs.resolves, hn]
    cases hf : lt.owners.find? a.resolves with
    | none => rwa [hres] at hf
    | some => simp [hf, hn] at h
  · cases hf : lt.owners.find? a.resolves with
    | none => simp [hf, hn] at h
    | some os =>
      by_cases hfile : os.fileid = a.fileid
      · cases hs : seqidCheck os a.lockStateid.seqid <;>
          simp [hf, hn, hfile, hs, Except.map] at h
      · simp [hf, hn, hfile] at h

/-- **What a LOCK can do to the table:** nothing, rewrite the requester's state, or add
one. -/
theorem lockAcquire_cases (lt : LockTable) (alloc : LockAlloc) (a : LockArgs) :
    (lockAcquire lt alloc a).1 = lt ∨
    (∃ eff os, lt.owners.find? a.resolves = some os ∧ os.fileid = a.fileid ∧
      scanConflict lt a.fileid os.clientid os.owner eff a.offset (effLength a.length) = none ∧
      (lockAcquire lt alloc a).1.owners = modifyFirst a.resolves
          (fun _ => (grantRange lt os eff a.offset (effLength a.length) a.openStateid).1)
          lt.owners) ∨ (∃ eff, findOwner lt a.fileid a.clientid (a.owner.take lockOwnerMax) = none ∧
      scanConflict lt a.fileid a.clientid (a.owner.take lockOwnerMax) eff a.offset
        (effLength a.length) = none ∧ (lockAcquire lt alloc a).1.owners =
        (grantRange { lt with nextSeq := lt.nextSeq + 1 } (a.newOwnerState lt) eff a.offset
          (effLength a.length) a.openStateid).1 :: lt.owners) := by
  unfold lockAcquire
  cases heff : effType a.lockType with
  | none => exact .inl rfl
  | some eff =>
    cases halloc : alloc.nodes with
    | false => exact .inl rfl
    | true =>
      cases hres : a.resolve lt with
      | error => exact .inl rfl
      | ok found =>
        cases found with
        | some os =>
          obtain ⟨hfind, hfile⟩ := resolve_some hres
          cases hscan : scanConflict lt a.fileid os.clientid os.owner eff a.offset
              (effLength a.length) with
          | some => simp [hscan]
          | none =>
            right; left
            exact ⟨eff, os, hfind, hfile, hscan, by simp [hscan]⟩
        | none =>
          cases hscan : scanConflict lt a.fileid a.clientid
              (a.owner.take lockOwnerMax) eff a.offset (effLength a.length) with
          | some => simp [hscan]
          | none =>
            cases howner : alloc.ownerState with
            | false => simp [hscan]
            | true =>
              right; right
              exact ⟨eff, resolve_none hres, hscan, by simp [hscan]⟩

theorem exclusive_lockAcquire (h : Exclusive lt) (alloc : LockAlloc) (a : LockArgs) :
    Exclusive (lockAcquire lt alloc a).1 := by
  rcases lockAcquire_cases lt alloc a with hsame | ⟨_, os, hfind, hfile, hscan, howners⟩ |
    ⟨_, hnone, hscan, howners⟩
  · rwa [hsame]
  · have hos : os ∈ lt.owners := mem_of_find?_eq_some hfind
    have hdisj := h.disjoint os hos
    refine h.modify hfind (key_grantRange _ _ _ _ _ _) (grantRange_pairwise _ _ _ _ _ _ hdisj)
      (fun y hy hyf hne => ?_) howners
    refine grantRange_shareable _ _ _ _ _ _ hdisj (h.shared os hos y hy hyf.symm hne.symm)
      fun r hr ho => read_of_scanConflict_none hscan hy (hyf.trans hfile) ?_ hr ho
    rintro ⟨hc, ho⟩
    exact hne (by simp [LockOwnerState.key, hyf, hc, ho])
  · have hkey : ∀ y ∈ lt.owners, y.key ≠ (a.newOwnerState lt).key := by
      intro y hy hk
      have hno := List.find?_eq_none.mp hnone y hy
      simp only [LockOwnerState.key, LockArgs.newOwnerState, Prod.mk.injEq] at hk
      simp [isOwnerOf, ownerMatch, hk] at hno
    have hnil : (a.newOwnerState lt).ranges.Pairwise Apart := List.Pairwise.nil
    refine h.insert ?_ (grantRange_pairwise _ _ _ _ _ _ hnil) (fun y hy hyf _ => ?_) howners
    · rwa [key_grantRange]
    have hyf : y.fileid = a.fileid := hyf
    refine grantRange_shareable _ _ _ _ _ _ hnil (by intro r hr; cases hr)
      fun r hr ho => read_of_scanConflict_none hscan hy hyf ?_ hr ho
    rintro ⟨hc, ho⟩
    exact hkey y hy (by simp [LockOwnerState.key, LockArgs.newOwnerState, hc, ho, hyf])

theorem exclusive_lockRelease (h : Exclusive lt) (alloc : Bool) (sid : Stateid)
    (offset length : UInt64) : Exclusive (lockRelease lt alloc sid offset length).1 := by
  unfold lockRelease
  cases alloc with
  | false => exact h
  | true =>
    cases hfind : lt.owners.find? (hasSid (stateidStripe sid.other) sid.other) with
    | none => simpa [hfind] using h
    | some os =>
      cases hs : seqidCheck os sid.seqid with
      | error => simpa [hfind, hs] using h
      | ok =>
        have hos : os ∈ lt.owners := mem_of_find?_eq_some hfind
        have hdisj := h.disjoint os hos
        simp only [hfind, hs, Bool.not_true, Bool.false_eq_true, if_false]
        refine h.modify hfind (by rfl)
          (carveRange_pairwise _ _ _ _ _ (le_rangeEnd _ _) hdisj)
          (fun y hy hyf hne r hr r' hr' b hb hb' => ?_) rfl
        obtain ⟨⟨r₀, hr₀, ht, hb₀⟩, -⟩ := heldAt_of_mem_carveRange _ _ _ _ _ hdisj hr hb
        exact ht ▸ h.shared os hos y hy hyf.symm hne.symm r₀ hr₀ r' hr' b hb₀ hb'

/-- **Every action but LOCK and LOCKU only drops owner states.** -/
theorem sublist_lockStep (hstep : lockStep lt op = some lt') :
    (∃ alloc a, op = .acquire alloc a) ∨ (∃ alloc sid o l, op = .release alloc sid o l) ∨
      lt'.owners.Sublist lt.owners := by
  cases op <;> simp only [lockStep, Option.some.injEq] at hstep <;> subst hstep
  case acquire alloc a => exact .inl ⟨alloc, a, rfl⟩
  case release alloc sid o l => exact .inr (.inl ⟨alloc, sid, o, l, rfl⟩)
  all_goals refine .inr (.inr ?_)
  case freeStateid other =>
    simp only [lockFreeStateid]
    split
    · exact .refl _
    · split
      · exact .refl _
      · exact eraseP_sublist
  case releaseAllForClient clientid =>
    rw [lockReleaseAllForClient, reapClients_owners]
    generalize List.range lockStripes = stripes
    induction stripes generalizing lt with
    | nil => exact .refl _
    | cons s _ ih => exact ih.trans filter_sublist
  case releaseStripe s clientid => exact filter_sublist
  case revokeExpiredForFile leaseExpired fileid =>
    rw [lockRevokeExpiredForFile_eq]
    dsimp only
    split
    · rw [reapClients_owners]
      exact filter_sublist
    · exact filter_sublist
  case revokeStates fileid expired => exact filter_sublist
  case reapClients cids =>
    rw [reapClients_owners]

/-- **Every action of the table keeps the invariant.** -/
theorem exclusive_lockStep (h : Exclusive lt) (hstep : lockStep lt op = some lt') :
    Exclusive lt' := by
  rcases sublist_lockStep hstep with ⟨alloc, a, rfl⟩ | ⟨alloc, sid, o, l, rfl⟩ | hsub
  · cases hstep
    exact exclusive_lockAcquire h alloc a
  · cases hstep
    exact exclusive_lockRelease h alloc sid o l
  · exact h.of_sublist hsub

theorem exclusive_of_reachable (h : Reachable LockInit lockStep anyStep lt) : Exclusive lt := by
  refine h.invariant ?_ fun _ _ _ hs _ hstep => exclusive_lockStep hs hstep
  rintro _ ⟨_, _, _, _, rfl⟩
  exact ⟨by simp [lockTableInit], by simp [lockTableInit], by simp [lockTableInit]⟩

/-! ## The result -/

/-- **Byte-range lock exclusion.**  In every reachable table: different owners of a file
share a byte only if both ranges are read locks; the ranges of one owner on one file
share no byte; and no two owner states have the same file, client and owner. -/
theorem lock_exclusion {lt : LockTable} (h : Reachable LockInit lockStep anyStep lt) :
    (∀ x ∈ lt.owners, ∀ y ∈ lt.owners, x.fileid = y.fileid →
      (x.clientid ≠ y.clientid ∨ x.owner ≠ y.owner) →
      ∀ r ∈ x.ranges, ∀ r' ∈ y.ranges, (∃ b, r.Covers b ∧ r'.Covers b) →
        r.lockType = .readLt ∧ r'.lockType = .readLt) ∧
    (∀ x ∈ lt.owners, x.ranges.Pairwise fun r r' => ¬ ∃ b, r.Covers b ∧ r'.Covers b) ∧
    lt.owners.Pairwise fun x y =>
      ¬ (x.fileid = y.fileid ∧ x.clientid = y.clientid ∧ x.owner = y.owner) := by
  have hinv := exclusive_of_reachable h
  refine ⟨?_, fun x hx => ?_, ?_⟩
  · rintro x hx y hy hf hne r hr r' hr' ⟨b, hb, hb'⟩
    refine hinv.shared x hx y hy hf (fun hk => ?_) r hr r' hr' b hb hb'
    simp only [LockOwnerState.key, Prod.mk.injEq] at hk
    rcases hne with hne | hne
    · exact hne hk.2.1
    · exact hne hk.2.2
  · refine (hinv.disjoint x hx).imp ?_
    rintro r _ ha ⟨b, hb, hb'⟩
    exact ha b hb hb'
  · refine (pairwise_map.mp hinv.oneState).imp fun hne hk => hne ?_
    simp [LockOwnerState.key, hk]

/-- Two readers of overlapping ranges, one of which then unlocks a hole. -/
def twoReaders : List LockOp :=
  [.acquire {} ⟨3, 1, 0, 10, 11, [1], none, true, ⟨0, ⟨0, 0⟩⟩⟩,
   .acquire {} ⟨3, 3, 5, 0, 12, [1], none, true, ⟨0, ⟨0, 0⟩⟩⟩,
   .release true ⟨0, ⟨1, 3 * 2 ^ 56 + 7⟩⟩ 4 2]

/-- After that run one owner holds to end of file and the other the two sides of its hole;
they share bytes, all for reading. -/
theorem lock_exclusion_twoReaders :
    ∃ lt, exec lockStep (lockTableInit 1 7 true 0) twoReaders = some lt ∧
      lt.owners.map (fun os => os.ranges.map fun r => (r.offset, r.length)) =
        [[(5, 0xFFFFFFFFFFFFFFFF)], [(0, 4), (6, 4)]] ∧
      ∀ x ∈ lt.owners, x.ranges.Pairwise fun r r' => ¬ ∃ b, r.Covers b ∧ r'.Covers b := by
  exact ⟨_, rfl, by decide, (lock_exclusion (.run _ twoReaders ⟨1, 7, true, 0, rfl⟩)).2.1⟩

end PnfsLattice
