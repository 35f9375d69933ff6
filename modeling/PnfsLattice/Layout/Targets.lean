import Mathlib.Data.Finset.Image
import PnfsLattice.Layout.Wire

/-!
# Where client and proxy put a byte

A flex-files body as RFC 8435 defines it, its reading by a client, and the comparison with the
proxy: each `ff_mirror4` is a complete copy of the file, whose data servers take the stripe units
in turn, and every data-server file is addressed by the offset in the file.

The legacy form has one data server in each of its `stripe_count * mirror_count` mirrors, so a
client takes every stripe for a copy of the file; the striped form has all of them in one mirror,
so a client takes every mirror for a stripe of its own.
-/

namespace PnfsLattice

open Lib List Option

/-! ## RFC 8435 -/

structure FfDataServer4 where
  deviceid : List UInt8
  efficiency : UInt32
  seqid : UInt32
  other : List UInt8
  fhVers : List (List UInt8)
  user : List UInt8
  group : List UInt8
deriving DecidableEq

/-- `ff_layout4`; a mirror is the list of its data servers. -/
structure FfLayout4 where
  stripeUnit : UInt64
  mirrors : List (List FfDataServer4)
  flags : UInt32
  statsCollectHint : UInt32
deriving DecidableEq

def ffDataServer4 : Dec FfDataServer4 := do
  let deviceid ← Dec.fixedOpaque 16
  let efficiency ← Dec.uint32
  let seqid ← Dec.uint32
  let other ← Dec.fixedOpaque 12
  let fhVers ← Dec.array Dec.varOpaque
  let user ← Dec.varOpaque
  let group ← Dec.varOpaque
  return { deviceid, efficiency, seqid, other, fhVers, user, group }

/-- The decoder of a body. -/
def ffLayout4 : Dec FfLayout4 := do
  let stripeUnit ← Dec.uint64
  let mirrors ← Dec.array (Dec.array ffDataServer4)
  let flags ← Dec.uint32
  let statsCollectHint ← Dec.uint32
  return { stripeUnit, mirrors, flags, statsCollectHint }

/-- A data server, a filehandle there, and an offset in that file. -/
abbrev Target := UInt32 × List UInt8 × ℕ

/-- Where a client goes for a byte: in each mirror to the data server whose turn it is. -/
def clientTargets (l : FfLayout4) (o : ℕ) : Finset Target :=
  (l.mirrors.filterMap fun servers =>
    (servers[o / l.stripeUnit.toNat % servers.length]?).map fun d =>
      (deviceidToDsId d.deviceid, d.fhVers.headD [], o)).toFinset

/-- Where the proxy goes for a byte: to the mirrors of its stripe. -/
def proxyTargets (map : FileMap) (o : ℕ) : Finset Target :=
  ((List.range map.mirrorCount).map fun m =>
    let addr := computeStripeAddr o map.stripeUnit map.stripeCount
    let e := map.entry (addr.1 * map.mirrorCount + m)
    (e.dsId, e.nfsFh, addr.2)).toFinset

/-! ## One data server on the wire -/

def opaqueBytes (bs : List UInt8) : List UInt8 := be32 bs.length.toUInt32 ++ padded bs

/-- The bytes of a data server. -/
def FfDs.bytes (fds : FfDs) : List UInt8 :=
  padded fds.deviceid ++ (be32 fds.efficiency ++ ((be32 fds.stateid.seqid ++
    padded fds.stateid.other.bytes) ++ (be32 1 ++ (opaqueBytes fds.nfsFh ++
      (opaqueBytes (decimal fds.fflUser) ++ opaqueBytes (decimal fds.fflGroup))))))

/-- What a client makes of them. -/
def FfDs.server (fds : FfDs) : FfDataServer4 :=
  { deviceid := fds.deviceid, efficiency := fds.efficiency, seqid := fds.stateid.seqid
    other := fds.stateid.other.bytes, fhVers := [fds.nfsFh], user := decimal fds.fflUser
    group := decimal fds.fflGroup }

/-- A device id of the right size and a filehandle within the limit. -/
structure FfDs.Wf (fds : FfDs) : Prop where
  deviceid : fds.deviceid.length = 16
  nfsFh : fds.nfsFh.length ≤ mdsNfsFhMax

theorem length_decimal_le (n : UInt32) : (decimal n).length ≤ 10 := by
  unfold decimal
  split
  · decide
  · rw [length_map, length_reverse, Nat.digits_length_le_iff (by decide)]
    have hn := n.toNat_lt
    omega

theorem writes_xdrBytesEncode (bs : List UInt8) : Writes (xdrBytesEncode bs) (opaqueBytes bs) := by
  refine (Writes.put _).andThen ?_
  cases bs with
  | nil => exact Writes.nothing
  | cons => exact Writes.put _

theorem writes_encodeFfDataServer4 (fds : FfDs) : Writes (encodeFfDataServer4 fds) fds.bytes := by
  refine (Writes.put _).andThen ((Writes.put _).andThen (Writes.andThen ?_ ?_))
  · exact (Writes.put _).andThen (Writes.put _)
  · exact (Writes.put _).andThen ((writes_xdrBytesEncode _).andThen
      ((writes_xdrBytesEncode _).andThen (writes_xdrBytesEncode _)))

theorem reads_opaqueBytes {bs} (h : bs.length ≤ mdsNfsFhMax) :
    Reads Dec.varOpaque (opaqueBytes bs) bs := by
  unfold mdsNfsFhMax at h
  exact Reads.varOpaque (by omega)

theorem reads_decimal (n : UInt32) : Reads Dec.varOpaque (opaqueBytes (decimal n)) (decimal n) :=
  reads_opaqueBytes ((length_decimal_le n).trans (by decide))

theorem reads_fhVers {fh} (h : fh.length ≤ mdsNfsFhMax) :
    Reads (Dec.array Dec.varOpaque) (be32 1 ++ opaqueBytes fh) [fh] := by
  have harray := Reads.array (f := id) (l := [fh]) (by simp) fun a ha => by
    obtain rfl := mem_singleton.mp ha
    exact reads_opaqueBytes h
  simpa using harray

variable {fds : FfDs} {form : FfXdrForm}

theorem reads_ffDataServer4 (h : fds.Wf) : Reads ffDataServer4 fds.bytes fds.server := by
  have hid : Reads (Dec.fixedOpaque 16) (padded fds.deviceid) fds.deviceid :=
    h.deviceid ▸ Reads.fixedOpaque _
  have hother : Reads (Dec.fixedOpaque 12) (padded fds.stateid.other.bytes)
      fds.stateid.other.bytes := Reads.fixedOpaque fds.stateid.other.bytes
  exact hid.bind ((Reads.uint32 _).bind ((Reads.uint32 _).bind (hother.bind
    ((reads_fhVers h.nfsFh).bind ((reads_decimal _).bind ((reads_decimal _).map _))))))

theorem padding_le (n : ℕ) : padding n ≤ 3 := by
  unfold padding
  omega

/-- A data server takes less than `FF_DATA_SERVER4_MAX_BYTES`. -/
theorem length_bytes_le (h : fds.Wf) : fds.bytes.length ≤ 256 := by
  have huser := length_decimal_le fds.fflUser
  have hgroup := length_decimal_le fds.fflGroup
  have hfh := h.nfsFh
  have hpad₁ := padding_le fds.nfsFh.length
  have hpad₂ := padding_le (decimal fds.fflUser).length
  have hpad₃ := padding_le (decimal fds.fflGroup).length
  have hother : (padded fds.stateid.other.bytes).length = 12 := by simp [Other.bytes, padding]
  have hid : (padded fds.deviceid).length = 16 := by
    rw [length_padded, h.deviceid]
    rfl
  unfold mdsNfsFhMax at hfh
  simp only [FfDs.bytes, opaqueBytes, length_append, length_be32, hid, hother, length_padded]
  omega

/-! ## The body on the wire -/

def mirrorBytes (servers : List FfDs) : List UInt8 :=
  be32 servers.length.toUInt32 ++ servers.flatMap FfDs.bytes

def bodyBytes (lg : ResLayoutget) (mirrors : List (List FfDs)) : List UInt8 :=
  be64 lg.stripeUnit.toUInt64 ++ (be32 mirrors.length.toUInt32 ++ (mirrors.flatMap mirrorBytes ++
    (be32 lg.ffFlags ++ be32 0)))

/-- The layout a client sees. -/
def layoutSeen (lg : ResLayoutget) (mirrors : List (List FfDs)) : FfLayout4 :=
  { stripeUnit := lg.stripeUnit.toUInt64, mirrors := mirrors.map fun l => l.map FfDs.server
    flags := lg.ffFlags, statsCollectHint := 0 }

variable {lg : ResLayoutget} {c : FillCtx} {map : FileMap} {r : ResLayoutget} {o : ℕ} {t : Target}

theorem reads_bodyBytes {mirrors} (hlen : mirrors.length < 2 ^ 32)
    (h : ∀ l ∈ mirrors, l.length < 2 ^ 32 ∧ ∀ fds ∈ l, FfDs.Wf fds) :
    Reads ffLayout4 (bodyBytes lg mirrors) (layoutSeen lg mirrors) := by
  have hmirrors := Reads.array (d := Dec.array _) hlen fun l hl =>
    Reads.array (h l hl).1 fun fds hfds => reads_ffDataServer4 ((h l hl).2 fds hfds)
  exact (Reads.uint64 _).bind (hmirrors.bind ((Reads.uint32 _).bind ((Reads.uint32 _).map _)))

theorem writes_encodeFfLayout4Footer (lg : ResLayoutget) :
    Writes (encodeFfLayout4Footer lg) (be32 lg.ffFlags ++ be32 0) :=
  (Writes.put _).andThen (Writes.put _)

theorem writes_encodeFfLayout4BodyStriped {l} (h : lg.ffMirrors = [l]) :
    Writes (encodeFfLayout4BodyStriped lg) (bodyBytes lg lg.ffMirrors) := by
  have hbytes : bodyBytes lg lg.ffMirrors = be64 lg.stripeUnit.toUInt64 ++ (be32 1 ++
      (be32 l.length.toUInt32 ++ (l.flatMap FfDs.bytes ++ (be32 lg.ffFlags ++ be32 0)))) := by
    simp [bodyBytes, mirrorBytes, h]
  rw [hbytes]
  unfold encodeFfLayout4BodyStriped
  rw [h]
  exact (Writes.put _).andThen ((Writes.put _).andThen ((Writes.put _).andThen
    ((Writes.foldlM fun fds _ => writes_encodeFfDataServer4 fds).andThen
      (writes_encodeFfLayout4Footer lg))))

/-- There are as many slots as mirrors, so that each mirror is written with one data server. -/
theorem legacyCounts_self (n : ℕ) : legacyCounts n n = (n, 1) := by
  simp only [legacyCounts, lt_irrefl, and_false, if_false, zero_lt_one, if_true, Nat.div_one]
  split
  · rfl
  · rfl

theorem writes_encodeFfLayout4BodyLegacy {n : ℕ} {slot : ℕ → FfDs}
    (h : lg.ffMirrors = (List.range n).map fun i => [slot i]) (hds : lg.ds.length = n) :
    Writes (encodeFfLayout4BodyLegacy lg) (bodyBytes lg lg.ffMirrors) := by
  have hgroup : ∀ s ∈ List.range n, Writes (fun x => (XdrMem.put (be32 (1 : ℕ).toUInt32) x).bind
      (encodeGroup lg ((List.range 1).map fun m => s * 1 + m))) (mirrorBytes [slot s]) := by
    intro s hs
    have hslot : lg.ffMirrors[s]?.bind List.head? = some (slot s) := by
      simp [h, List.getElem?_range (mem_range.mp hs)]
    have hone : encodeGroup lg ((List.range 1).map fun m => s * 1 + m) =
        fun x => (encodeFfDataServer4 (slot s) x).bind some := by
      simp [encodeGroup, hslot]
    rw [hone]
    refine (Writes.put _).andThen ?_
    simpa using (writes_encodeFfDataServer4 _).andThen Writes.nothing
  have hbytes : bodyBytes lg lg.ffMirrors = be64 lg.stripeUnit.toUInt64 ++ (be32 n.toUInt32 ++
      ((List.range n).flatMap (fun s => mirrorBytes [slot s]) ++ (be32 lg.ffFlags ++ be32 0))) := by
    simp [bodyBytes, h, flatMap_map]
  rw [hbytes]
  unfold encodeFfLayout4BodyLegacy
  rw [h, length_map, length_range, hds, legacyCounts_self]
  exact (Writes.put _).andThen ((Writes.put _).andThen ((Writes.foldlM hgroup).andThen
    (writes_encodeFfLayout4Footer lg)))

theorem length_flatMap_le {α : Type*} {f : α → List UInt8} {l : List α} {k : ℕ}
    (h : ∀ a ∈ l, (f a).length ≤ k) : (l.flatMap f).length ≤ l.length * k := by
  induction l with
  | nil => simp
  | cons a l ih =>
    have ha := h a mem_cons_self
    have hl := ih fun b hb => h b (mem_cons_of_mem _ hb)
    rw [flatMap_cons, length_append, length_cons, Nat.succ_mul]
    omega

/-- The buffer is large enough for the mirrors, however they are grouped. -/
theorem length_bodyBytes_le {k : ℕ} (hk : ∀ l ∈ lg.ffMirrors, l.length ≤ k)
    (hwf : ∀ l ∈ lg.ffMirrors, ∀ fds ∈ l, FfDs.Wf fds)
    (hcap : lg.ffMirrors.length * k ≤ max lg.ffMirrors.length (lg.ffMirrors.headD []).length) :
    (bodyBytes lg lg.ffMirrors).length ≤ bodyCap lg := by
  have hmirrors : (lg.ffMirrors.flatMap mirrorBytes).length ≤
      lg.ffMirrors.length * (4 + k * 256) := by
    refine length_flatMap_le fun l hl => ?_
    have hservers := length_flatMap_le (f := FfDs.bytes) fun fds hfds =>
      length_bytes_le (hwf l hl fds hfds)
    have hle := Nat.mul_le_mul_right 256 (hk l hl)
    rw [mirrorBytes, length_append, length_be32]
    omega
  rw [Nat.mul_add, ← Nat.mul_assoc] at hmirrors
  simp only [bodyBytes, bodyCap, length_append, length_be64, length_be32]
  split <;> omega

/-! ## The result -/

/-- A slot of the reply, as a data server of a mirror. -/
def slot (c : FillCtx) (map : FileMap) (user : ℕ → UInt32) (i : ℕ) : FfDs :=
  ffDs c (layoutDs c map i) (user i)

theorem mapIdx_map_range {α β : Type*} (f : ℕ → α) (g : ℕ → α → β) (n : ℕ) :
    ((List.range n).map f).mapIdx g = (List.range n).map fun i => g i (f i) := by
  refine ext_getElem (by simp) fun i _ _ => ?_
  simp

/-- The mirrors of a result: one for each slot, or one with all of them. -/
inductive Filled (c : FillCtx) (map : FileMap) : FfXdrForm → List (List FfDs) → Prop
  | striped (user : ℕ → UInt32) :
      Filled c map .striped [(List.range map.files).map (slot c map user)]
  | legacy (user : ℕ → UInt32) :
      Filled c map .legacy ((List.range map.files).map fun i => [slot c map user i])

theorem fillLayoutgetResult_ok (hflex : c.layoutType = layout4FlexFiles)
    (h : fillLayoutgetResult c map = .ok r) :
    r.ffXdrForm = selectXdrForm c.hpcXdrForm c.layoutType c.hpcShared map ∧
      r.stripeUnit = map.stripeUnit ∧ r.ds.length = map.files ∧
      Filled c map r.ffXdrForm r.ffMirrors := by
  have hfiles := map.files_pos
  unfold fillLayoutgetResult at h
  simp only [hflex, if_true] at h
  rw [← hflex] at h
  cases hform : selectXdrForm c.hpcXdrForm c.layoutType c.hpcShared map with
  | striped =>
    have hcond : FfXdrForm.striped = .striped ∧
        wantFfMirrorCount c.layoutType .striped map = 1 ∧
        0 < ((List.range map.files).map (layoutDs c map)).length := by
      simp [wantFfMirrorCount, hflex, hfiles]
    rw [hform] at h
    repeat' split at h
    all_goals cases h
    next hm =>
      obtain ⟨-, hm⟩ := ite_none_right_eq_some.mp hm
      cases hm
      rw [mapIdx_map_range]
      exact ⟨rfl, rfl, by simp, .striped fun k => c.fflUser k 0⟩
  | legacy =>
    have hcount : wantFfMirrorCount c.layoutType .legacy map = map.files := by
      simp [wantFfMirrorCount, hflex]
    rw [hform, hcount] at h
    repeat' split at h
    all_goals cases h
    next hm =>
      obtain ⟨-, hm⟩ := ite_none_right_eq_some.mp hm
      cases hm
      rw [take_of_length_le (by simp), mapIdx_map_range]
      exact ⟨rfl, rfl, by simp,
        .legacy fun m => c.fflUser _ _⟩

theorem layoutDs_eq (c : FillCtx) (map : FileMap) (i : ℕ) : layoutDs c map i =
      { dsId := (map.entry i).dsId
        deviceid := buildDeviceid c.mdsId (map.entry i).dsId (c.ioGen (map.entry i).dsId)
        nfsFh := (map.entry i).nfsFh } := by
  have hidx : (0 + i / map.mirrorCount) * map.mirrorCount + i % map.mirrorCount = i := by
    rw [Nat.zero_add, Nat.div_add_mod']
  simp only [layoutDs, hidx]

theorem slot_wf (c : FillCtx) (user : ℕ → UInt32) {i} (h : i < map.files) :
    (slot c map user i).Wf := by
  unfold slot
  rw [layoutDs_eq]
  exact ⟨rfl, map.handles_le _ (map.entry_mem h)⟩

theorem encode_filled (hds : r.ds.length = map.files) (h : Filled c map r.ffXdrForm r.ffMirrors) :
    encodeFfLayout4Body r true = some (bodyBytes r r.ffMirrors) ∧
      Reads ffLayout4 (bodyBytes r r.ffMirrors) (layoutSeen r r.ffMirrors) := by
  have hfiles := map.files_le
  generalize hform : r.ffXdrForm = form at h
  generalize hmirrors : r.ffMirrors = mirrors at h
  have hroom {e : XdrMem → Option XdrMem} (hwrites : Writes e (bodyBytes r r.ffMirrors))
      (hle : (bodyBytes r r.ffMirrors).length ≤ bodyCap r) :
      (e { bytes := [], cap := bodyCap r }).map XdrMem.bytes =
        some (bodyBytes r r.ffMirrors) := by
    rw [hwrites _ (by simpa using hle)]
    rfl
  rw [← hmirrors]
  cases h with
  | striped user =>
    have hwf : ∀ l ∈ r.ffMirrors, ∀ fds ∈ l, FfDs.Wf fds := by
      rw [hmirrors]
      simp only [List.mem_singleton, forall_eq, List.mem_map, List.mem_range]
      rintro _ ⟨i, hi, rfl⟩
      exact slot_wf c user hi
    have hlen : ∀ l ∈ r.ffMirrors, l.length ≤ map.files := by simp [hmirrors]
    refine ⟨?_, reads_bodyBytes (by simp [hmirrors])
      fun l hl => ⟨by have := hlen l hl; omega, hwf l hl⟩⟩
    simp only [encodeFfLayout4Body, hform, if_true]
    exact hroom (writes_encodeFfLayout4BodyStriped hmirrors)
      (length_bodyBytes_le hlen hwf (by simp [hmirrors]))
  | legacy user =>
    have hwf : ∀ l ∈ r.ffMirrors, ∀ fds ∈ l, FfDs.Wf fds := by
      rw [hmirrors]
      simp only [List.mem_map, List.mem_range]
      rintro _ ⟨i, hi, rfl⟩ _ hfds
      obtain rfl := mem_singleton.mp hfds
      exact slot_wf c user hi
    have hlen : ∀ l ∈ r.ffMirrors, l.length ≤ 1 := by simp [hmirrors]
    refine ⟨?_, reads_bodyBytes (by simp only [hmirrors, length_map, length_range]; omega)
      fun l hl => ⟨by have := hlen l hl; omega, hwf l hl⟩⟩
    simp only [encodeFfLayout4Body, hform, if_true]
    exact hroom (writes_encodeFfLayout4BodyLegacy hmirrors hds)
      (length_bodyBytes_le hlen hwf (by simp))

/-! ## Targets -/

/-- A byte of a data-server file. -/
def fileTarget (e : DsMapEntry) (o : ℕ) : Target := (e.dsId, e.nfsFh, o)

theorem fileTarget_inj {e e'} : fileTarget e o = fileTarget e' o ↔ e = e' := by
  cases e
  cases e'
  simp [fileTarget]

@[simp] theorem slot_dsId (c : FillCtx) (map : FileMap) (user : ℕ → UInt32) (i : ℕ) :
    deviceidToDsId (slot c map user i).server.deviceid = (map.entry i).dsId := by
  unfold slot
  rw [layoutDs_eq]
  exact ofBe32_be32 _

@[simp] theorem slot_fhVers (c : FillCtx) (map : FileMap) (user : ℕ → UInt32) (i : ℕ) :
    (slot c map user i).server.fhVers = [(map.entry i).nfsFh] := by
  unfold slot
  rw [layoutDs_eq]
  rfl

theorem mem_proxyTargets : t ∈ proxyTargets map o ↔
      ∃ m < map.mirrorCount,
        fileTarget (map.entry (map.stripeOf o * map.mirrorCount + m)) o = t := by
  simp [proxyTargets, map.computeStripeAddr_eq, fileTarget]

theorem mem_clientTargets_legacy (user : ℕ → UInt32) :
    t ∈ clientTargets (layoutSeen r ((List.range map.files).map fun i => [slot c map user i])) o ↔
      ∃ i < map.files, fileTarget (map.entry i) o = t := by
  simp [clientTargets, layoutSeen, filterMap_map, Function.comp_def, Nat.mod_one, fileTarget]

theorem mem_clientTargets_striped (hunit : r.stripeUnit = map.stripeUnit) (user : ℕ → UInt32) :
    t ∈ clientTargets (layoutSeen r [(List.range map.files).map (slot c map user)]) o ↔
      fileTarget (map.entry (o / map.stripeUnit % map.files)) o = t := by
  have hlt := map.unit_lt
  have hidx : o / map.stripeUnit % map.files < map.files := Nat.mod_lt _ map.files_pos
  have hwire : r.stripeUnit.toUInt64.toNat = map.stripeUnit := by
    rw [hunit, UInt64.toNat_ofNat', Nat.mod_eq_of_lt (by omega)]
  simp [clientTargets, layoutSeen, hwire, List.getElem?_range hidx, fileTarget, eq_comm]

/-- The form suits the map at a byte: in the legacy form every file of the map is a mirror of the
byte's stripe, and in the striped form every mirror of the stripe is the file whose turn it is
among all of them. -/
def FormFits (form : FfXdrForm) (map : FileMap) (o : ℕ) : Prop :=
  match form with
  | .legacy => ∀ i < map.files, ∃ m < map.mirrorCount,
      map.entry i = map.entry (map.stripeOf o * map.mirrorCount + m)
  | .striped => ∀ m < map.mirrorCount,
      map.entry (map.stripeOf o * map.mirrorCount + m) = map.entry (o / map.stripeUnit % map.files)

theorem clientTargets_eq_iff (hunit : r.stripeUnit = map.stripeUnit)
    (h : Filled c map form r.ffMirrors) (o : ℕ) :
    clientTargets (layoutSeen r r.ffMirrors) o = proxyTargets map o ↔ FormFits form map o := by
  generalize r.ffMirrors = mirrors at h
  rw [Finset.ext_iff]
  cases h with
  | legacy =>
    simp only [mem_clientTargets_legacy, mem_proxyTargets]
    constructor
    · intro heq i hi
      obtain ⟨m, hm, hfile⟩ := (heq _).mp ⟨i, hi, rfl⟩
      exact ⟨m, hm, (fileTarget_inj.mp hfile).symm⟩
    · rintro hfits t
      constructor
      · rintro ⟨i, hi, rfl⟩
        obtain ⟨m, hm, hfile⟩ := hfits i hi
        exact ⟨m, hm, by rw [hfile]⟩
      · rintro ⟨m, hm, rfl⟩
        exact ⟨_, map.idx_lt (map.stripeOf_lt o) hm, rfl⟩
  | striped =>
    simp only [mem_clientTargets_striped hunit, mem_proxyTargets]
    constructor
    · intro heq m hm
      exact (fileTarget_inj.mp ((heq _).mpr ⟨m, hm, rfl⟩)).symm
    intro hfits t
    constructor
    · rintro rfl
      exact ⟨0, map.mirrors_pos, by rw [hfits 0 map.mirrors_pos]⟩
    · rintro ⟨m, hm, rfl⟩
      rw [hfits m hm]

theorem entry_inj (h : map.entries.Nodup) {i j} (hi : i < map.files) (hj : j < map.files)
    (heq : map.entry i = map.entry j) : i = j := by
  have hlen {k : ℕ} (hk : k < map.files) : k < map.entries.length := by
    rw [map.length_entries]
    exact hk
  unfold FileMap.entry at heq
  rw [getD_eq_getElem?_getD, getD_eq_getElem?_getD,
    List.getElem?_eq_getElem (hlen hi), List.getElem?_eq_getElem (hlen hj)] at heq
  exact (h.getElem_inj_iff).mp heq

/-- With different files for different indices the legacy form is for one stripe, and the striped
form for one mirror. -/
theorem formFits_iff (h : map.entries.Nodup) (o : ℕ) : FormFits form map o ↔
      form = .legacy ∧ map.stripeCount = 1 ∨ form = .striped ∧ map.mirrorCount = 1 := by
  have hs := map.stripes_pos
  have hm := map.mirrors_pos
  have hstripe := map.stripeOf_lt o
  cases form with
  | legacy =>
    simp only [FormFits, reduceCtorEq, false_and, or_false, true_and]
    constructor
    · intro hfits
      by_contra hne
      -- A stripe other than the byte's, and its first mirror.
      obtain ⟨s, hlt, hother⟩ : ∃ s < map.stripeCount, s ≠ map.stripeOf o := by
        by_cases hzero : map.stripeOf o = 0
        · exact ⟨1, by omega, by omega⟩
        · exact ⟨0, hs, fun heq => hzero heq.symm⟩
      obtain ⟨m, hlt', heq⟩ := hfits _ (map.idx_lt hlt hm)
      have hidx := entry_inj h (map.idx_lt hlt hm) (map.idx_lt hstripe hlt') heq
      have hdiv := congrArg (· / map.mirrorCount) hidx
      simp only [Nat.mul_comm _ map.mirrorCount, Nat.mul_add_div hm,
        Nat.mul_div_cancel_left _ hm, Nat.div_eq_of_lt hlt', Nat.add_zero] at hdiv
      exact hother hdiv
    · intro hone i hi
      have hzero : map.stripeOf o = 0 := by omega
      refine ⟨i, ?_, by rw [hzero, Nat.zero_mul, Nat.zero_add]⟩
      rwa [FileMap.files, hone, Nat.one_mul] at hi
  | striped =>
    simp only [FormFits, reduceCtorEq, false_and, false_or, true_and]
    constructor
    · intro hfits
      by_contra hne
      have htwo : 1 < map.mirrorCount := by omega
      have hidx := entry_inj h (map.idx_lt hstripe hm) (map.idx_lt hstripe htwo)
        ((hfits 0 hm).trans (hfits 1 htwo).symm)
      omega
    · intro hone m _
      obtain rfl : m = 0 := by omega
      rw [FileMap.files, hone, Nat.mul_one, Nat.mul_one]
      rfl

/-- **Client and proxy on a byte.**  Every flex-files LAYOUTGET that is answered with success has
a body that parses as an `ff_layout4` with nothing left over; for every byte the files a client
goes to are those the proxy goes to exactly if the form fits the map there, and with different
files in the map that is one stripe in the legacy form and one mirror in the striped form. -/
theorem body_read_as_map {c : FillCtx} {map : FileMap} {r : ResLayoutget}
    (hflex : c.layoutType = layout4FlexFiles) (hok : fillLayoutgetResult c map = .ok r) :
    let form := selectXdrForm c.hpcXdrForm c.layoutType c.hpcShared map
    ∃ body layout, encodeFfLayout4Body r true = some body ∧
      ffLayout4.run body = some (layout, []) ∧
      ∀ o, (clientTargets layout o = proxyTargets map o ↔ FormFits form map o) ∧
        (map.entries.Nodup → (FormFits form map o ↔
          form = .legacy ∧ map.stripeCount = 1 ∨ form = .striped ∧ map.mirrorCount = 1)) := by
  obtain ⟨hform, hunit, hds, hfilled⟩ := fillLayoutgetResult_ok hflex hok
  obtain ⟨hbody, hreads⟩ := encode_filled hds hfilled
  rw [hform] at hfilled
  refine ⟨_, _, hbody, ?_, fun o => ⟨clientTargets_eq_iff hunit hfilled o, fun h =>
    formFits_iff h o⟩⟩
  simpa using hreads []

/-- A LAYOUTGET of root for a plain file. -/
def plainGet : FillCtx :=
  { mdsId := 1, hpcXdrForm := .auto, dsSynthOwner := false, synthUid := none, ioGen := fun _ => 0
    layoutType := layout4FlexFiles, iomode := .rw, credUid := 0, maxcount := 4096
    grantStateid := ⟨1, ⟨1, 5⟩⟩, grantIomode := .rw, grantOffset := 0, grantLength := 2 ^ 64 - 1
    hpcShared := false, gid := 0, synthSuid := 0, synthSgid := 0, allocOuter := true
    allocMirror := fun _ => true }

/-- One stripe with two mirrors. -/
def mirroredFile : FileMap :=
  { stripeCount := 1, stripeUnit := 65536, mirrorCount := 2, entries := [⟨1, [11]⟩, ⟨2, [12]⟩]
    unit_pos := by decide, unit_lt := by decide, stripes_pos := Nat.one_pos
    stripes_le := by decide, mirrors_pos := Nat.two_pos, mirrors_le := by decide
    length_entries := rfl, handles_le := by decide }

def stripedFile : FileMap :=
  { mirroredFile with
    stripeCount := 2, mirrorCount := 1, stripes_pos := Nat.two_pos, stripes_le := by decide
    mirrors_pos := Nat.one_pos, mirrors_le := by decide, length_entries := rfl }

/-- On a mirrored file with one stripe client and proxy agree on every byte. -/
theorem mirrors_read_as_map : ∃ r, fillLayoutgetResult plainGet mirroredFile = .ok r ∧
    ∃ body layout, encodeFfLayout4Body r true = some body ∧
      ffLayout4.run body = some (layout, []) ∧
      ∀ o, clientTargets layout o = proxyTargets mirroredFile o := by
  refine ⟨_, rfl, ?_⟩
  obtain ⟨body, layout, hbody, hrun, htargets⟩ :=
    body_read_as_map (c := plainGet) rfl (rfl : fillLayoutgetResult _ mirroredFile = _)
  refine ⟨body, layout, hbody, hrun, fun o => (htargets o).1.mpr ?_⟩
  exact ((htargets o).2 (by decide)).mpr (.inl ⟨rfl, rfl⟩)

/-- The same for a shared file, with the striped form forced. -/
def sharedGet : FillCtx := { plainGet with hpcShared := true, hpcXdrForm := .striped }

/-- Where a client goes for a byte after a LAYOUTGET. -/
def targetsSeen (c : FillCtx) (map : FileMap) (o : ℕ) : Option (Finset Target) :=
  match fillLayoutgetResult c map with
  | .ok r => do
    let body ← encodeFfLayout4Body r true
    let (layout, rest) ← ffLayout4.run body
    if rest = [] then some (clientTargets layout o) else none
  | .error _ => none

/-- A plain file with two stripes: the client takes both stripes for copies of the file and goes
to both for the first byte, the proxy goes to the first. A shared file with two mirrors under
`hpc_xdr_form = striped`: the client goes to one of the two mirrors. -/
theorem plain_stripes_misread :
    (targetsSeen plainGet stripedFile 0 = some {(1, [11], 0), (2, [12], 0)} ∧
      proxyTargets stripedFile 0 = {(1, [11], 0)}) ∧
    (targetsSeen sharedGet mirroredFile 0 = some {(1, [11], 0)} ∧
      proxyTargets mirroredFile 0 = {(1, [11], 0), (2, [12], 0)}) :=
  ⟨⟨by decide +kernel, by decide +kernel⟩, by decide +kernel, by decide +kernel⟩

end PnfsLattice
