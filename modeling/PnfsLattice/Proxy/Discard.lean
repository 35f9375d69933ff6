import Mathlib.Data.List.GetD
import PnfsLattice.Proxy.Stripe

/-!
# Bytes that were discarded

READ, WRITE and DEALLOCATE through the proxy, on the data-server files of one file. A backing file
is addressed by the offset in the file, and reads as zero in its holes and past its end.
-/

namespace PnfsLattice

open List

/-- A file: its map, the bytes of each mirror of each stripe, and the size in the catalogue. -/
structure ProxyFile where
  map : FileMap
  byte : ℕ → ℕ → ℕ → UInt8
  size : ℕ

namespace ProxyFile

variable (f : ProxyFile)

/-- The bytes up to the next stripe boundary. -/
def room (off : ℕ) : ℕ := f.map.stripeUnit - off % f.map.stripeUnit

theorem room_pos (off : ℕ) : 0 < f.room off := Nat.sub_pos_of_lt (Nat.mod_lt _ f.map.unit_pos)

/-- The loop of `mds_proxy_read` over `n` bytes, which ends at a chunk that no mirror gives. `up`
says which mirror can be read at the chunk with this offset. -/
def readChunks (up : ℕ → ℕ → Bool) (off n : ℕ) : List UInt8 :=
  if n = 0 then []
  else
    let addr := computeStripeAddr off f.map.stripeUnit f.map.stripeCount
    let chunk := min n (f.room off)
    match (range f.map.mirrorCount).find? (up off) with
    | none => []
    | some m => (range chunk).map (fun i => f.byte addr.1 m (addr.2 + i)) ++
        readChunks up (off + chunk) (n - chunk)
termination_by n
decreasing_by
  have := f.room_pos off
  omega

/-- `mds_proxy_read`: the bytes and the eof flag. -/
def mdsProxyRead (up : ℕ → ℕ → Bool) (offset count : ℕ) : Except MdsStatus (List UInt8 × Bool) :=
  if f.size ≤ offset then .ok ([], true)
  else if min count (f.size - offset) = 0 then .ok ([], false)
  else match f.readChunks up offset (min count (f.size - offset)) with
    | [] => .error .io
    | b :: bytes => .ok (b :: bytes, f.size ≤ offset + bytes.length + 1)

/-- `FALLOC_FL_PUNCH_HOLE` in the files of some mirrors. -/
def punch (stripe : ℕ) (ms : List ℕ) (off len : ℕ) : ProxyFile :=
  { f with byte := fun s k x =>
      if s = stripe ∧ k ∈ ms ∧ off ≤ x ∧ x < off + len then 0 else f.byte s k x }

end ProxyFile

/-- The mirrors in `mds_proxy_deallocate`, up to one that fails. -/
def punchMirrors (fails : ℕ → Option MdsStatus) (stripe off len : ℕ) :
    List ℕ → ProxyFile → ProxyFile × Option MdsStatus
  | [], f => (f, none)
  | m :: ms, f => match fails m with
    | some st => (f, some st)
    | none => punchMirrors fails stripe off len ms (f.punch stripe [m] off len)

/-- `mds_proxy_deallocate`. -/
def mdsProxyDeallocate (fails : ℕ → Option MdsStatus) (offset length : ℕ) (f : ProxyFile) :
    ProxyFile × Option MdsStatus :=
  let addr := computeStripeAddr offset f.map.stripeUnit f.map.stripeCount
  punchMirrors fails addr.1 addr.2 length (range f.map.mirrorCount) f

/-- What changes the file afterwards. ALLOCATE and the setattr of a WRITE raise the size; a write
to the mirrors, which may fail at any of them, leaves anything in its range. -/
inductive FileOp
  | setattr (size : ℕ)
  | grow (size : ℕ)
  | write (offset length : ℕ) (new : ℕ → ℕ → ℕ → UInt8)
  | deallocate (fails : ℕ → Option MdsStatus) (offset length : ℕ)

def fileStep (f : ProxyFile) : FileOp → ProxyFile
  | .setattr size => { f with size }
  | .grow size => { f with size := max f.size size }
  | .write offset length new => { f with byte := fun s m x =>
      if offset ≤ x ∧ x < offset + length then new s m x else f.byte s m x }
  | .deallocate fails offset length => (mdsProxyDeallocate fails offset length f).1

def fileRun (ops : List FileOp) (f : ProxyFile) : ProxyFile := ops.foldl fileStep f

/-- The operation writes the byte. -/
def FileOp.Writes (x : ℕ) : FileOp → Prop
  | .write offset length _ => offset ≤ x ∧ x < offset + length
  | _ => False

variable {f g : ProxyFile} {x s m : ℕ}

/-- No mirror of the stripe of the byte has another value. -/
def ProxyFile.Holds (f : ProxyFile) (x : ℕ) (b : UInt8) : Prop :=
  ∀ m < f.map.mirrorCount, f.byte (f.map.stripeOf x) m x = b

/-- Every READ that gives the byte gives this value, whichever mirrors can be read. -/
def ProxyFile.Shows (f : ProxyFile) (x : ℕ) (b : UInt8) : Prop :=
  ∀ up offset count bytes eof i, f.mdsProxyRead up offset count = .ok (bytes, eof) →
    offset + i = x → ∀ c ∈ bytes[i]?, c = b

theorem stripeOf_chunk {off i : ℕ} (hi : i < f.room off) :
    f.map.stripeOf (off + i) = f.map.stripeOf off := by
  have hunit := f.map.unit_pos
  have hlt : off % f.map.stripeUnit + i < f.map.stripeUnit := by
    simp only [ProxyFile.room] at hi
    omega
  have hdiv : (off + i) / f.map.stripeUnit = off / f.map.stripeUnit := by
    conv_lhs => rw [← Nat.div_add_mod off f.map.stripeUnit, Nat.add_assoc]
    rw [Nat.mul_add_div hunit, Nat.div_eq_of_lt hlt, Nat.add_zero]
  rw [FileMap.stripeOf, hdiv]
  rfl

theorem getElem?_readChunks {up off n i c} (h : (f.readChunks up off n)[i]? = some c) :
    ∃ m < f.map.mirrorCount, c = f.byte (f.map.stripeOf (off + i)) m (off + i) := by
  induction n using Nat.strongRecOn generalizing off i with
  | ind n ih =>
    rw [ProxyFile.readChunks] at h
    split at h
    · simp at h
    have hpos := f.room_pos off
    simp only [f.map.computeStripeAddr_eq] at h
    split at h
    · simp at h
    next m hm =>
      by_cases hi : i < min n (f.room off)
      · rw [getElem?_append_left (by rwa [length_map, length_range])] at h
        simp [hi] at h
        exact ⟨m, mem_range.mp (mem_of_find?_eq_some hm), by rw [stripeOf_chunk (by omega), ← h]⟩
      · rw [getElem?_append_right (by rw [length_map, length_range]; omega), length_map,
          length_range] at h
        have hoff : off + min n (f.room off) + (i - min n (f.room off)) = off + i := by omega
        have hrest := ih _ (by omega) h
        rwa [hoff] at hrest

theorem mdsProxyRead_one (hx : x < f.size) (hm : m < f.map.mirrorCount) :
    f.mdsProxyRead (fun _ k => k = m) x 1 =
      .ok ([f.byte (f.map.stripeOf x) m x], f.size ≤ x + 1) := by
  have hfind : (range f.map.mirrorCount).find? (fun k => decide (k = m)) = some m := by
    rw [find?_eq_some_iff_getElem]
    exact ⟨by simp, m, by simpa, by simp, fun j _ => by simp; omega⟩
  have hone : min 1 (f.size - x) = 1 := by omega
  have hchunk : min 1 (f.room x) = 1 := Nat.min_eq_left (f.room_pos x)
  rw [ProxyFile.mdsProxyRead, if_neg (by omega), hone, ProxyFile.readChunks, hfind]
  simp [hchunk, f.map.computeStripeAddr_eq, ProxyFile.readChunks]

theorem shows_iff {b} (hx : x < f.size) : f.Shows x b ↔ f.Holds x b := by
  constructor
  · exact fun h m hm => h _ x 1 _ _ 0 (mdsProxyRead_one hx hm) rfl _ rfl
  · rintro h up offset count _ _ i hread rfl c hc
    have hmem : (f.readChunks up offset (min count (f.size - offset)))[i]? = some c := by
      unfold ProxyFile.mdsProxyRead at hread
      split_ifs at hread
      · cases hread; simp at hc
      · cases hread; simp at hc
      · split at hread <;> cases hread
        next heq => rw [heq]; exact hc
    obtain ⟨m, hm, rfl⟩ := getElem?_readChunks hmem
    exact h m hm

/-- **A striped file reads as one flat file**, by every READ and whichever mirrors can be read,
exactly if all mirrors of a byte's stripe have the byte. -/
theorem striped_reads_flat (f : ProxyFile) (flat : ℕ → UInt8) :
    (∀ x < f.size, f.Shows x (flat x)) ↔ ∀ x < f.size, f.Holds x (flat x) :=
  forall₂_congr fun _ => shows_iff

theorem punchMirrors_eq (fails : ℕ → Option MdsStatus) (stripe off len : ℕ) (ms : List ℕ)
    (f : ProxyFile) : ∃ done, (punchMirrors fails stripe off len ms f).1 =
      f.punch stripe done off len ∧ ((punchMirrors fails stripe off len ms f).2 = none →
        done = ms) := by
  induction ms generalizing f with
  | nil => exact ⟨[], by simp [punchMirrors, ProxyFile.punch], fun _ => rfl⟩
  | cons m _ ih =>
    rw [punchMirrors]
    split
    · exact ⟨[], by simp [ProxyFile.punch], nofun⟩
    · obtain ⟨done, heq, hok⟩ := ih _
      refine ⟨m :: done, ?_, fun h => by rw [hok h]⟩
      rw [heq]
      simp only [ProxyFile.punch, mem_cons, not_mem_nil, or_false]
      grind

theorem fileStep_zero {op : FileOp} (hx : ¬op.Writes x) : (fileStep f op).map = f.map ∧
    (f.byte s m x = 0 → (fileStep f op).byte s m x = 0) := by
  cases op with
  | setattr | grow => exact ⟨rfl, id⟩
  | write => exact ⟨rfl, fun h => (if_neg hx).trans h⟩
  | deallocate fails _ length =>
    obtain ⟨_, heq, -⟩ := punchMirrors_eq fails _ _ length _ f
    rw [fileStep, mdsProxyDeallocate, heq]
    exact ⟨rfl, fun h => by simp [ProxyFile.punch, h]⟩

theorem holds_run {ops : List FileOp} (hops : ∀ op ∈ ops, ¬op.Writes x) (h : f.Holds x 0) :
    (fileRun ops f).Holds x 0 := by
  induction ops generalizing f with
  | nil => exact h
  | cons op _ ih =>
    obtain ⟨hop, hops⟩ := forall_mem_cons.mp hops
    refine ih hops fun m hm => ?_
    have hmap := (@fileStep_zero f x 0 0 op hop).1
    rw [hmap] at hm ⊢
    exact (fileStep_zero hop).2 (h m hm)

/-- Bytes beyond a size that SETATTR sets are read as zero just if they are zero in the files; a
hole is punched just if the bytes in other stripes than that of its first byte are zero. -/
theorem discarded_bytes_iff (f : ProxyFile) :
    (∀ n, (∀ ops x, n ≤ x → x < (fileRun (.setattr n :: ops) f).size →
        (∀ op ∈ ops, ¬op.Writes x) → (fileRun (.setattr n :: ops) f).Shows x 0) ↔
      ∀ x, n ≤ x → f.Holds x 0) ∧
    ∀ fails offset length g, mdsProxyDeallocate fails offset length f = (g, none) →
      ((∀ x, offset ≤ x → x < offset + length → x < f.size → g.Shows x 0) ↔
        ∀ x, offset ≤ x → x < offset + length → x < f.size →
          f.map.stripeOf x ≠ f.map.stripeOf offset → f.Holds x 0) ∧
      ∀ s m x, ¬(offset ≤ x ∧ x < offset + length) → g.byte s m x = f.byte s m x := by
  refine ⟨fun n => ⟨fun h x hx => ?_, fun h _ x hx hlt hops => ?_⟩,
    fun fails offset length g hok => ?_⟩
  · have hraised := h [.setattr (x + 1)] x hx (Nat.lt_succ_self x) (by simp [FileOp.Writes])
    exact (@shows_iff { f with size := x + 1 } x 0 (Nat.lt_succ_self x)).mp hraised
  · exact (shows_iff hlt).mpr (@holds_run (fileStep f (.setattr n)) _ _ hops (h x hx))
  · obtain ⟨_, heq, hdone⟩ := punchMirrors_eq fails (f.map.stripeOf offset) offset length
      (range f.map.mirrorCount) f
    rw [mdsProxyDeallocate, f.map.computeStripeAddr_eq] at hok
    rw [hok] at heq hdone
    obtain rfl := hdone rfl
    obtain rfl : g = _ := heq
    refine ⟨forall_congr' fun x => ?_, fun s m x hx => if_neg fun h => hx h.2.2⟩
    refine forall_congr' fun hle => forall_congr' fun hlt => forall_congr' fun hsize => ?_
    rw [@shows_iff (f.punch _ _ _ _) x 0 hsize]
    by_cases hs : f.map.stripeOf x = f.map.stripeOf offset <;>
      simp +contextual [ProxyFile.Holds, ProxyFile.punch, hs, hle, hlt]

theorem two_le_mdsMaxStripes : 2 ≤ mdsMaxStripes := by decide

theorem one_le_mdsMaxMirrors : 1 ≤ mdsMaxMirrors := by decide

/-- A file of two bytes, with a stripe for each. -/
def twoBytes : ProxyFile where
  map :=
    { stripeCount := 2, stripeUnit := 1, mirrorCount := 1, entries := [⟨1, []⟩, ⟨2, []⟩]
      unit_pos := Nat.one_pos, unit_lt := by decide, stripes_pos := Nat.two_pos
      stripes_le := two_le_mdsMaxStripes, mirrors_pos := Nat.one_pos
      mirrors_le := one_le_mdsMaxMirrors
      length_entries := rfl, handles_le := by decide }
  byte _ _ x := if x < 2 then 7 else 0
  size := 2

/-- The same file with a zero in the second stripe. -/
def zeroSecond : ProxyFile := { twoBytes with byte := fun _ _ x => if x = 0 then 7 else 0 }

/-- A hole over both stripes is read as zero, and so is the second byte after the size was 1. -/
theorem discarded_bytes_crossing :
    (mdsProxyDeallocate (fun _ => none) 0 2 zeroSecond).1.Shows 0 0 ∧
      (mdsProxyDeallocate (fun _ => none) 0 2 zeroSecond).1.Shows 1 0 ∧
      (fileRun [.setattr 1, .grow 2] zeroSecond).Shows 1 0 := by
  have hzero : ∀ x, 1 ≤ x → zeroSecond.Holds x 0 := fun x hx _ _ => if_neg (by omega)
  obtain ⟨hsize, hpunch⟩ := discarded_bytes_iff zeroSecond
  have hhole := (hpunch (fun _ => none) 0 2 _ rfl).1.mpr fun x _ _ _ hs =>
    hzero x (Nat.one_le_iff_ne_zero.mpr fun hx => hs (by rw [hx]))
  exact ⟨hhole 0 (by decide) (by decide) (by decide), hhole 1 (by decide) (by decide) (by decide),
    (hsize 1).mpr hzero [.grow 2] 1 (Nat.le_refl 1) (by decide) (by simp [FileOp.Writes])⟩

/-- Both bytes come back after the size was 0, and the second one survives a hole over both. -/
theorem discarded_bytes_back :
    (fileRun [.setattr 0, .grow 2] twoBytes).mdsProxyRead (fun _ _ => true) 0 2 =
        .ok ([7, 7], true) ∧
      (mdsProxyDeallocate (fun _ => none) 0 2 twoBytes).2 = none ∧
      (mdsProxyDeallocate (fun _ => none) 0 2 twoBytes).1.mdsProxyRead (fun _ _ => true) 0 2 =
        .ok ([0, 7], true) := by
  refine ⟨?_, rfl, ?_⟩ <;> decide +kernel

end PnfsLattice
