import PnfsLattice.Lib.Keyed
import PnfsLattice.Lock.Exclusion

/-!
# The per-byte lock map

What LOCK and LOCKU do, byte by byte, and what a LOCKU of a whole file leaves.
-/

namespace PnfsLattice

open Lib List Option

/-- An owner of locks on a file: the file, the client and the owner bytes. -/
abbrev LockKey := Fileid × Clientid × List UInt8

/-- The type with which the ranges hold byte `b`. -/
def typeAt (rs : List LockRange) (b : ℕ) : Option LockType :=
  (rs.find? fun r => r.Covers b).map LockRange.lockType

/-- The type with which each owner holds each byte. -/
def lockMap (lt : LockTable) (k : LockKey) (b : ℕ) : Option LockType :=
  (findKey LockOwnerState.key k lt.owners).bind fun os => typeAt os.ranges b

/-- The map with one owner's bytes in `[offset, stop)` set to `t`. -/
def setBytes (m : LockKey → ℕ → Option LockType) (k : LockKey) (offset stop : UInt64)
    (t : Option LockType) (k' : LockKey) (b : ℕ) : Option LockType :=
  if k' = k ∧ InRegion offset stop b then t else m k' b

def LockArgs.ownerKey (a : LockArgs) (lt : LockTable) : LockKey :=
  (lt.owners.find? a.resolves).elim (a.fileid, a.clientid, a.owner.take lockOwnerMax)
    LockOwnerState.key

/-! ## One owner's bytes -/

section Bytes

variable {lt : LockTable} {os : LockOwnerState} {rs : List LockRange} {offset length : UInt64}

/-- Disjoint ranges hold a byte with one type at most. -/
theorem typeAt_eq_some (hrs : rs.Pairwise Apart) {t : LockType} {b} :
    typeAt rs b = some t ↔ HeldAt rs t b := by
  induction rs with
  | nil => simp [typeAt]
  | cons r rs ih =>
    obtain ⟨hr, hrest⟩ := pairwise_cons.mp hrs
    by_cases hb : r.Covers b
    · have hno : ¬ HeldAt rs t b := by
        rintro ⟨r', hr', -, hb'⟩
        exact hr r' hr' b hb hb'
      simp [typeAt, hb, hno]
    · simp [← ih hrest, typeAt, hb]

theorem typeAt_carveRange (hrs : rs.Pairwise Apart) (seq b : ℕ) :
    typeAt (carveRange lt os offset (rangeEnd offset length) seq rs).ranges b =
      if InRegion offset (rangeEnd offset length) b then none else typeAt rs b := by
  refine Option.ext fun t => ?_
  rw [typeAt_eq_some (carveRange_pairwise _ _ _ _ _ (le_rangeEnd offset length) hrs),
    heldAt_carveRange _ _ _ _ _ hrs]
  split
  next hin => simp [hin]
  next hout => simp [hout, typeAt_eq_some hrs]

theorem typeAt_grantRange (hrs : os.ranges.Pairwise Apart) (eff : LockType)
    (openStateid : Option Stateid) (b : ℕ) :
    typeAt (grantRange lt os eff offset length openStateid).1.ranges b =
      if InRegion offset (rangeEnd offset length) b then some eff else typeAt os.ranges b := by
  have hcarved := @typeAt_carveRange lt os _ offset length hrs lt.nextSeq b
  by_cases hin : InRegion offset (rangeEnd offset length) b
  · simp [typeAt, grantRange, LockRange.Covers, hin]
  · rw [if_neg hin] at hcarved ⊢
    rw [← hcarved]
    simp [typeAt, grantRange, LockRange.Covers, hin]

end Bytes

/-! ## The table -/

section Table

variable {lt lt' : LockTable} {os os' : LockOwnerState} {k : LockKey} {offset stop : UInt64}
  {t : Option LockType}

theorem lockMap_write (os' : LockOwnerState)
    (hfind : ∀ k', findKey LockOwnerState.key k' lt'.owners =
      if k' = k then some os' else findKey LockOwnerState.key k' lt.owners)
    (hbytes : ∀ b, typeAt os'.ranges b = if InRegion offset stop b then t else lockMap lt k b) :
    lockMap lt' = setBytes (lockMap lt) k offset stop t := by
  funext k' b
  by_cases hk : k' = k
  · subst hk
    simp only [lockMap, hfind, if_true, bind_some, setBytes, true_and] at hbytes ⊢
    exact hbytes b
  · simp [lockMap, setBytes, hfind, hk]

variable {p : LockOwnerState → Bool} {alloc : LockAlloc} {r : Except LockErr Stateid}

theorem Exclusive.findKey_modifyFirst (h : Exclusive lt) (hfind : lt.owners.find? p = some os)
    (hkey : os'.key = os.key) (k : LockKey) :
    findKey LockOwnerState.key k (modifyFirst p (fun _ => os') lt.owners) =
      if k = os.key then some os' else findKey LockOwnerState.key k lt.owners := by
  obtain ⟨l₁, _, heq, -, hmod, -⟩ := split_of_find? hfind
  have hone := h.oneState
  rw [heq] at hone
  have hfirst : findKey LockOwnerState.key os.key l₁ = none :=
    findKey_eq_none.mpr fun a ha => (nodup_map_middle.mp hone).1 a (mem_append_left _ ha)
  rw [hmod, heq, findKey, findKey]
  by_cases hk : k = os.key
  · rw [findKey] at hfirst
    simp [hk, hkey, hfirst]
  · simp [Ne.symm hk, hkey, hk]

theorem Exclusive.lockMap_of_find (h : Exclusive lt) (hfind : lt.owners.find? p = some os) (b : ℕ) :
    lockMap lt os.key b = typeAt os.ranges b := by
  rw [lockMap, findKey_of_mem h.oneState (mem_of_find?_eq_some hfind), bind_some]

variable {a : LockArgs}

theorem effType_of_admission {eff : LockType} {found}
    (h : a.admission lt alloc = .ok (eff, found)) : effType a.lockType = some eff := by
  unfold LockArgs.admission at h
  split at h
  · cases h
  next heff =>
    split at h
    · cases h
    split at h
    · cases h
    · dsimp only at h
      split at h <;> cases h
      exact heff

theorem find?_of_resolve_none (h : a.resolve lt = .ok none) :
    lt.owners.find? a.resolves = none := by
  unfold LockArgs.resolve at h
  split at h
  next os _ =>
    split_ifs at h
    · cases h
    · cases hs : seqidCheck os a.lockStateid.seqid <;> simp [hs, Except.map] at h
  next hnone => exact hnone

theorem Exclusive.lockMap_acquire (h : Exclusive lt) (hacq : lockAcquire lt alloc a = (lt', r)) :
    (∃ e, r = .error e ∧ lockMap lt' = lockMap lt) ∨
    (∃ sid, r = .ok sid) ∧ ∃ eff, effType a.lockType = some eff ∧
      lockMap lt' = setBytes (lockMap lt) (a.ownerKey lt) a.offset
        (rangeEnd a.offset (effLength a.length)) (some eff) := by
  rw [lockAcquire_eq] at hacq
  cases hadm : a.admission lt alloc with
  | error e =>
    rw [hadm] at hacq
    cases hacq
    exact .inl ⟨e, rfl, rfl⟩
  | ok p =>
    obtain ⟨eff, found⟩ := p
    rw [hadm] at hacq
    have heff := effType_of_admission hadm
    have hres := LockArgs.resolve_of_admission hadm
    cases found with
    | some os =>
      cases hacq
      obtain ⟨hfind, -⟩ := resolve_some hres
      have hkey : a.ownerKey lt = os.key := by rw [LockArgs.ownerKey, hfind, elim_some]
      have hdisj := h.disjoint os (mem_of_find?_eq_some hfind)
      refine .inr ⟨⟨_, rfl⟩, eff, heff, ?_⟩
      rw [hkey]
      refine lockMap_write _ (h.findKey_modifyFirst hfind rfl) fun b => ?_
      rw [h.lockMap_of_find hfind]
      exact typeAt_grantRange hdisj eff a.openStateid b
    | none =>
      dsimp only at hacq
      split at hacq <;> cases hacq
      · exact .inl ⟨_, rfl, rfl⟩
      have hkey : a.ownerKey lt = (a.newOwnerState lt).key := by
        rw [LockArgs.ownerKey, find?_of_resolve_none hres]
        rfl
      have hnew : findKey LockOwnerState.key (a.newOwnerState lt).key lt.owners = none := by
        refine findKey_eq_none.mpr fun y hy hk => ?_
        have hno := List.find?_eq_none.mp (resolve_none hres) y hy
        simp only [LockOwnerState.key, LockArgs.newOwnerState, Prod.mk.injEq] at hk
        simp [isOwnerOf, ownerMatch, hk] at hno
      refine .inr ⟨⟨_, rfl⟩, eff, heff, ?_⟩
      rw [hkey]
      refine lockMap_write (grantRange { lt with nextSeq := lt.nextSeq + 1 } (a.newOwnerState lt)
        eff a.offset (effLength a.length) a.openStateid).1 (fun _ => ?_) fun b => ?_
      · rw [findKey_cons]
        exact if_congr eq_comm rfl rfl
      · rw [typeAt_grantRange List.Pairwise.nil, lockMap, hnew]
        rfl

theorem Exclusive.lockMap_release (h : Exclusive lt) {alloc sid length}
    (hrel : lockRelease lt alloc sid offset length = (lt', r)) :
    (∃ e, r = .error e ∧ lockMap lt' = lockMap lt) ∨ (∃ sid', r = .ok sid') ∧
      ∃ os, findBySid lt (stateidStripe sid.other) sid.other = some os ∧
        lockMap lt' = setBytes (lockMap lt) os.key offset
          (rangeEnd offset (effLength length)) none := by
  unfold lockRelease at hrel
  dsimp only at hrel
  split_ifs at hrel
  · cases hrel
    exact .inl ⟨_, rfl, rfl⟩
  split at hrel
  · cases hrel
    exact .inl ⟨_, rfl, rfl⟩
  next os hfind =>
    split at hrel <;> cases hrel
    · exact .inl ⟨_, rfl, rfl⟩
    · have hdisj := h.disjoint os (mem_of_find?_eq_some hfind)
      refine .inr ⟨⟨_, rfl⟩, os, hfind, ?_⟩
      refine lockMap_write _ (h.findKey_modifyFirst hfind rfl) fun b => ?_
      rw [typeAt_carveRange hdisj, h.lockMap_of_find hfind]

end Table

variable {lt : LockTable} {os : LockOwnerState}

/-- **LOCK and LOCKU refine the per-byte lock map**: a LOCK that succeeds sets the owner's bytes
of its region to its type, a LOCKU that succeeds clears them, nothing else changes, and after
an error nothing has changed. Both lengths that mean to end of file give the last offset. -/
theorem lock_ops_refine_map (h : Reachable LockInit lockStep anyStep lt) :
    (∀ alloc a lt' r, lockAcquire lt alloc a = (lt', r) →
      (∃ e, r = .error e ∧ lockMap lt' = lockMap lt) ∨
      (∃ sid, r = .ok sid) ∧ ∃ eff, effType a.lockType = some eff ∧
        lockMap lt' = setBytes (lockMap lt) (a.ownerKey lt) a.offset
          (rangeEnd a.offset (effLength a.length)) (some eff)) ∧
    (∀ alloc sid offset length lt' r, lockRelease lt alloc sid offset length = (lt', r) →
      (∃ e, r = .error e ∧ lockMap lt' = lockMap lt) ∨ (∃ sid', r = .ok sid') ∧ ∃ os,
        findBySid lt (stateidStripe sid.other) sid.other = some os ∧
        lockMap lt' = setBytes (lockMap lt) os.key offset
          (rangeEnd offset (effLength length)) none) ∧
    ∀ offset, rangeEnd offset (effLength 0) = uint64Max ∧
      rangeEnd offset (effLength uint64Max) = uint64Max := by
  have hinv := exclusive_of_reachable h
  refine ⟨fun _ _ _ _ hacq => hinv.lockMap_acquire hacq, fun _ _ _ _ _ _ hrel =>
    hinv.lockMap_release hrel, fun o => ?_⟩
  simp [rangeEnd, effLength, uint64Max]

/-- A read lock on the first ten bytes of file 3. -/
def readTen : LockArgs := ⟨3, 1, 0, 10, 11, [1], none, true, ⟨0, ⟨0, 0⟩⟩⟩

def lockedTen : LockTable := (lockAcquire (lockTableInit 1 7 true 0) {} readTen).1

/-- A write lock of the same owner in the middle of it. -/
def writeMiddle : LockArgs := { readTen with lockType := 2, offset := 3, length := 3 }

/-- The lock is cut in two, by a write lock over its middle or by an unlock there. -/
theorem lock_ops_refine_map_middle :
    lockMap (lockAcquire lockedTen {} writeMiddle).1 =
        setBytes (lockMap lockedTen) (3, 11, [1]) 3 6 (some .writeLt) ∧
      lockMap (lockRelease lockedTen true ⟨1, ⟨1, 0x300000000000007⟩⟩ 3 3).1 =
        setBytes (lockMap lockedTen) (3, 11, [1]) 3 6 none := by
  have hreach : Reachable LockInit lockStep anyStep lockedTen :=
    .run (lockTableInit 1 7 true 0) [.acquire {} readTen] ⟨1, 7, true, 0, rfl⟩
  obtain ⟨hacq, hrel, -⟩ := lock_ops_refine_map hreach
  constructor
  · rcases hacq {} writeMiddle _ _ rfl with ⟨e, he, -⟩ | ⟨-, _, heff, hmap⟩
    · cases he
    · cases heff
      exact hmap
  · rcases hrel true ⟨1, ⟨1, 0x300000000000007⟩⟩ 3 3 _ _ rfl with ⟨e, he, -⟩ | ⟨-, _, hfind, hmap⟩
    · cases he
    · cases hfind
      exact hmap

/-! ## Unlocking the whole file -/

/-- No range is empty by its length. -/
def NonemptyRanges (lt : LockTable) : Prop :=
  ∀ os ∈ lt.owners, ∀ r ∈ os.ranges, r.length ≠ 0

theorem sub_ne_zero {a b : UInt64} (h : a < b) : b - a ≠ 0 := by
  intro h0
  have hsub := UInt64.toNat_sub_of_le b a (UInt64.le_of_lt h)
  rw [UInt64.lt_iff_toNat_lt] at h
  rw [h0, UInt64.toNat_zero] at hsub
  omega

variable {stop offset : UInt64} {seq : ℕ} {rs : List LockRange}

theorem tailLength_ne_zero {rend : UInt64} (h : stop < rend) : tailLength rend stop ≠ 0 := by
  unfold tailLength
  split
  · decide
  · exact sub_ne_zero h

theorem length_carveRange (h : ∀ r ∈ rs, r.length ≠ 0) :
    ∀ r ∈ (carveRange lt os offset stop seq rs).ranges, r.length ≠ 0 := by
  induction rs with
  | nil => exact forall_mem_nil _
  | cons r _ ih =>
    obtain ⟨hr, hrest⟩ := forall_mem_cons.mp h
    rw [carveRange]
    split_ifs with h₁ h₂ h₃ h₄
    · exact forall_mem_cons.mpr ⟨hr, ih hrest⟩
    · simp only [forall_mem_cons]
      exact ⟨sub_ne_zero h₂.1, tailLength_ne_zero h₂.2, hrest⟩
    · exact ih hrest
    · exact forall_mem_cons.mpr ⟨sub_ne_zero h₄, ih hrest⟩
    · have hstop : stop < rangeEnd r.offset r.length := by
        simp only [UInt64.le_iff_toNat_le, UInt64.lt_iff_toNat_lt] at h₁ h₂ h₃ h₄ ⊢
        omega
      exact forall_mem_cons.mpr ⟨tailLength_ne_zero hstop, ih hrest⟩

theorem length_grantRange {eff : LockType} {length openStateid}
    (h : ∀ r ∈ os.ranges, r.length ≠ 0) :
    ∀ r ∈ (grantRange lt os eff offset (effLength length) openStateid).1.ranges,
      r.length ≠ 0 := by
  refine forall_mem_cons.mpr ⟨?_, length_carveRange h⟩
  simp only [effLength]
  split
  · decide
  · assumption

theorem nonemptyRanges_lockStep {lt' op} (h : NonemptyRanges lt)
    (hstep : lockStep lt op = some lt') : NonemptyRanges lt' := by
  have hmodify : ∀ {p : LockOwnerState → Bool} {os' : LockOwnerState},
      (∀ os ∈ lt.owners, lt.owners.find? p = some os → ∀ r ∈ os'.ranges, r.length ≠ 0) →
      ∀ x ∈ modifyFirst p (fun _ => os') lt.owners, ∀ r ∈ x.ranges, r.length ≠ 0 := by
    intro p _ hos x hx
    rcases mem_modifyFirst hx with hx | ⟨os, hfind, rfl⟩
    · exact h x hx
    · exact hos os (mem_of_find?_eq_some hfind) hfind
  rcases sublist_lockStep hstep with ⟨alloc, a, rfl⟩ | ⟨alloc, _, o, l, rfl⟩ | hsub
  · cases hstep
    unfold NonemptyRanges
    rcases lockAcquire_cases lt alloc a with hsame | ⟨_, os, hfind, -, -, howners⟩ |
      ⟨_, -, -, howners⟩
    · rwa [hsame]
    · rw [howners]
      refine hmodify fun os₀ hos hfind₀ => ?_
      cases mem_unique hfind hfind₀
      exact length_grantRange (h os hos)
    · rw [howners]
      exact forall_mem_cons.mpr ⟨length_grantRange (forall_mem_nil _), h⟩
  · cases hstep
    unfold NonemptyRanges lockRelease
    dsimp only
    split_ifs
    · exact h
    split
    · exact h
    next os hfind =>
      split
      · exact h
      · refine hmodify fun _ hos hfind₀ => ?_
        cases mem_unique hfind hfind₀
        exact length_carveRange (h os hos)
  · exact fun os hos => h os (hsub.subset hos)

/-- Carving the whole offset space leaves the ranges that start at its last offset. -/
theorem carveRange_whole (h : ∀ r ∈ rs, r.length ≠ 0) :
    (carveRange lt os 0 uint64Max seq rs).ranges = rs.filter fun r => r.offset = uint64Max := by
  induction rs with
  | nil => rfl
  | cons r _ ih =>
    obtain ⟨hr, hrest⟩ := forall_mem_cons.mp h
    rw [carveRange]
    by_cases hmax : r.offset = uint64Max
    · simp [hmax, ih hrest]
    have hlen : 0 < r.length.toNat := by
      rw [Nat.pos_iff_ne_zero]
      exact fun h0 => hr (UInt64.toNat_inj.mp h0)
    have hlt := r.offset.toNat_lt
    have hne : r.offset.toNat ≠ 2 ^ 64 - 1 := fun heq => hmax (UInt64.toNat_inj.mp heq)
    have hend := toNat_rangeEnd r.offset r.length
    rw [if_neg, if_neg, if_pos, filter_cons_of_neg (by simpa using hmax), ih hrest]
    all_goals
      simp only [UInt64.le_iff_toNat_le, UInt64.lt_iff_toNat_lt, toNat_uint64Max, UInt64.toNat_zero]
      omega

/-- **After a LOCKU of the whole file the stateid can be freed** exactly if none of the owner's
ranges starts at the last offset, `UINT64_MAX`. -/
theorem freed_after_unlock_iff {lt' : LockTable} {alloc : Bool} {sid sid' : Stateid}
    {length : UInt64} (h : Reachable LockInit lockStep anyStep lt)
    (hlen : length = 0 ∨ length = uint64Max)
    (hrel : lockRelease lt alloc sid 0 length = (lt', .ok sid')) :
    ∃ os os', findBySid lt (stateidStripe sid.other) sid.other = some os ∧
      findBySid lt' (stateidStripe sid.other) sid.other = some os' ∧
      (os'.ranges = [] ↔ ∀ r ∈ os.ranges, r.offset ≠ uint64Max) ∧
      ((lockFreeStateid lt' sid.other).2 = .ok () ↔ ∀ r ∈ os.ranges, r.offset ≠ uint64Max) := by
  have heff : rangeEnd 0 (effLength length) = uint64Max := by rcases hlen with rfl | rfl <;> rfl
  have hpos : NonemptyRanges lt := by
    refine h.invariant ?_ fun _ _ _ hs _ hstep => nonemptyRanges_lockStep hs hstep
    rintro _ ⟨_, _, _, _, rfl⟩
    exact forall_mem_nil _
  unfold lockRelease at hrel
  dsimp only at hrel
  split_ifs at hrel
  · cases hrel
  split at hrel
  · cases hrel
  next os hfind =>
  split at hrel
  · cases hrel
  cases hrel
  have hsid := List.find?_some hfind
  have hfind' := find?_modifyFirst (f := fun _ => { os with
    ranges := (carveRange lt os 0 (rangeEnd 0 (effLength length)) lt.nextSeq os.ranges).ranges
    stateid := { os.stateid with seqid := os.stateid.seqid + 1 } }) hfind hsid
  have hgone : (carveRange lt os 0 (rangeEnd 0 (effLength length)) lt.nextSeq os.ranges).ranges =
      [] ↔ ∀ r ∈ os.ranges, r.offset ≠ uint64Max := by
    rw [heff, carveRange_whole (hpos os (mem_of_find?_eq_some hfind))]
    simp
  refine ⟨os, _, hfind, hfind', hgone, ?_⟩
  rw [← hgone]
  simp only [lockFreeStateid, hfind']
  split
  next hheld => simpa using hheld
  next hnone => simpa using hnone

def oneByte (offset : UInt64) : LockArgs := ⟨3, 2, offset, 1, 11, [1], none, true, ⟨0, ⟨0, 0⟩⟩⟩

/-- A new server after one LOCK. -/
def lockedOnce (a : LockArgs) : LockTable := (lockAcquire (lockTableInit 1 7 true 0) {} a).1

theorem reachable_lockedOnce (a : LockArgs) : Reachable LockInit lockStep anyStep (lockedOnce a) :=
  (Reachable.start ⟨1, 7, true, 0, rfl⟩).next (a := .acquire {} a) trivial rfl

def onceSid : Stateid := ⟨1, ⟨1, 3 * 2 ^ 56 + 7⟩⟩

/-- A lock on the first byte is unlocked with the whole file. -/
theorem freed_after_unlock_firstByte :
    ∃ lt sid, lockRelease (lockedOnce (oneByte 0)) true onceSid 0 0 = (lt, .ok sid) ∧
      (lockFreeStateid lt onceSid.other).2 = .ok () := by
  have hrel : lockRelease (lockedOnce (oneByte 0)) true onceSid 0 0 = (_, .ok _) := rfl
  obtain ⟨_, _, hos, -, -, hfree⟩ :=
    freed_after_unlock_iff (reachable_lockedOnce _) (.inl rfl) hrel
  refine ⟨_, _, hrel, hfree.mpr ?_⟩
  cases hos
  decide

/-- A lock at `UINT64_MAX` is not touched by a LOCKU of the whole file, and FREE_STATEID answers
`NFS4ERR_LOCKS_HELD`. -/
theorem top_byte_pins_stateid :
    ∃ lt sid, lockRelease (lockedOnce (oneByte uint64Max)) true onceSid 0 0 = (lt, .ok sid) ∧
      (lockFreeStateid lt onceSid.other).2 = .error .locksHeld :=
  ⟨_, _, rfl, rfl⟩

end PnfsLattice
