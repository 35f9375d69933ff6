import Mathlib.Data.Nat.Digits.Lemmas
import PnfsLattice.Layout.Grant
import PnfsLattice.Lib.Xdr
import PnfsLattice.Proxy.Stripe

/-!
# The reply of LAYOUTGET

The last part of `op_layoutget` of `compound_layout.c`, from the choice of the wire form on, and
the encoder of a flex-files body of `xdr_ops_layout.c`. The stripe map has been read by then and
the grant recorded; what remains is to fill in the result and to write it.
-/

namespace PnfsLattice

open Lib

/-! ## Device ids and sizes -/

def buildDeviceid (mdsId dsId generation : UInt32) : List UInt8 :=
  be32 mdsId ++ be32 dsId ++ be32 generation ++ [0, 0, 0, 0]

def deviceidToDsId (did : List UInt8) : UInt32 :=
  ofBe32 (did.getD 4 0) (did.getD 5 0) (did.getD 6 0) (did.getD 7 0)

/-- `snprintf` with `%u`. -/
def decimal (n : UInt32) : List UInt8 :=
  if n = 0 then [48] else (Nat.digits 10 n.toNat).reverse.map fun d => (48 + d).toUInt8

def ffDataServer4WireBytes (fhLen : ℕ) (uid gid : UInt32) : ℕ :=
  16 + 4 + 16 + 4 + 4 + (fhLen + padding fhLen) +
    4 + ((decimal uid).length + padding (decimal uid).length) +
    4 + ((decimal gid).length + padding (decimal gid).length)

/-! ## The result -/

/-- `enum mds_hpc_xdr_form`, the setting. -/
inductive HpcXdrForm
  | auto
  | legacy
  | striped
deriving DecidableEq

/-- `enum nfs4_ff_xdr_form`, the form of a reply. -/
inductive FfXdrForm
  | legacy
  | striped
deriving DecidableEq

/-- `struct nfs4_layout_ds`. -/
structure LayoutDs where
  dsId : UInt32
  deviceid : List UInt8
  nfsFh : List UInt8
deriving DecidableEq

/-- `struct nfs4_ff_ds`. -/
structure FfDs where
  dsId : UInt32
  deviceid : List UInt8
  efficiency : UInt32
  stateid : Stateid
  nfsFh : List UInt8
  fflUser : UInt32
  fflGroup : UInt32
deriving DecidableEq

/-- `struct nfs4_res_layoutget`. A mirror is the list of its data servers, and one that has not
been allocated is empty. -/
structure ResLayoutget where
  stateid : Stateid
  layoutType : UInt32
  iomode : LayoutIomode
  offset : ℕ
  length : ℕ
  stripeUnit : ℕ
  ds : List LayoutDs
  ffMirrors : List (List FfDs)
  ffFlags : UInt32
  ffXdrForm : FfXdrForm
deriving DecidableEq

/-- What the last part of `op_layoutget` reads besides the map. -/
structure FillCtx where
  mdsId : UInt32
  hpcXdrForm : HpcXdrForm
  dsSynthOwner : Bool
  /-- `synth_uid_from_secret` by stripe and mirror, if there is a secret. -/
  synthUid : Option (ℕ → ℕ → UInt32)
  /-- The I/O-limit generation of each data server. -/
  ioGen : UInt32 → UInt32
  layoutType : UInt32
  /-- The mode that was asked for, and the caller. -/
  iomode : LayoutIomode
  credUid : UInt32
  maxcount : ℕ
  /-- The grant. -/
  grantStateid : Stateid
  grantIomode : LayoutIomode
  grantOffset : ℕ
  grantLength : ℕ
  /-- From the inode. -/
  hpcShared : Bool
  gid : UInt32
  synthSuid : UInt32
  synthSgid : UInt32
  /-- Whether the allocations succeed: the outer arrays, and the array of each mirror. -/
  allocOuter : Bool
  allocMirror : ℕ → Bool

inductive FillErr
  | toosmall
  | resource
  | layoutunavailable
deriving DecidableEq

/-- The wire form of a reply. -/
def selectXdrForm (cfg : HpcXdrForm) (layoutType : UInt32) (hpcShared : Bool)
    (map : FileMap) : FfXdrForm :=
  if layoutType = layout4FlexFiles ∧ hpcShared then
    match cfg with
    | .striped => .striped
    | .legacy => .legacy
    | .auto => if map.mirrorCount = 1 ∧ 1 < map.stripeCount then .striped else .legacy
  else .legacy

/-- The number of `ff_mirror4` entries. -/
def wantFfMirrorCount (layoutType : UInt32) (form : FfXdrForm) (map : FileMap) : ℕ :=
  if layoutType = layout4FlexFiles then
    match form with
    | .legacy => map.files
    | .striped => 1
  else 0

/-- The length that stands for a filehandle in the estimate. -/
def estimatedFhLen (e : DsMapEntry) : ℕ :=
  if 0 < e.nfsFh.length ∧ e.nfsFh.length ≤ mdsNfsFhMax then e.nfsFh.length else mdsNfsFhMax

/-- The estimated size of the reply. -/
def estimatedBytes (layoutType : UInt32) (form : FfXdrForm) (map : FileMap) : ℕ :=
  if layoutType = layout4FlexFiles then
    let dsBytes := ((List.range map.files).map fun i =>
      ffDataServer4WireBytes (estimatedFhLen (map.entry i)) 0xFFFFFFFF 0xFFFFFFFF).sum
    52 + (8 + 4 + 4 * wantFfMirrorCount layoutType form map + dsBytes + 4 + 4)
  else 52 + (64 + map.files * (4 + mdsNfsFhMax + 4))

variable (c : FillCtx)

/-- `r->ds[i]`. The trim of the stripes to the request is switched off, so that slot `i` is
entry `i`. -/
def layoutDs (map : FileMap) (i : ℕ) : LayoutDs :=
  let emitStripe := 0 + i / map.mirrorCount
  let emitMirror := i % map.mirrorCount
  let e := map.entry (emitStripe * map.mirrorCount + emitMirror)
  { dsId := e.dsId, deviceid := buildDeviceid c.mdsId e.dsId (c.ioGen e.dsId), nfsFh := e.nfsFh }

def FillCtx.useStoredSynth : Bool := c.dsSynthOwner && c.synthSuid != 0

/-- The user a data server is to see, at a stripe and mirror. -/
def FillCtx.fflUser (stripe mirror : ℕ) : UInt32 :=
  if c.useStoredSynth then c.synthSuid
  else
    match c.synthUid with
    | some synth => synth stripe mirror
    | none => if c.iomode = .read then c.credUid else 0

/-- The data server of a flex-files mirror, from a slot of `r->ds`. -/
def ffDs (ds : LayoutDs) (user : UInt32) : FfDs :=
  { dsId := ds.dsId, deviceid := ds.deviceid, efficiency := 0, stateid := c.grantStateid
    nfsFh := ds.nfsFh, fflUser := user
    fflGroup := if c.useStoredSynth then c.synthSgid else c.gid }

/-- The mirrors of the legacy form, one data server each. -/
def legacyMirrors (map : FileMap) (ds : List LayoutDs) (n : ℕ) : Option (List (List FfDs)) :=
  if (List.range n).all c.allocMirror then
    some (ds.take n |>.mapIdx fun m d =>
      [ffDs c d (c.fflUser (m / map.mirrorCount) (m % map.mirrorCount))])
  else none

/-- The one mirror of the striped form. -/
def stripedMirrors (ds : List LayoutDs) : Option (List (List FfDs)) :=
  if c.allocMirror 0 then some [ds.mapIdx fun k d => ffDs c d (c.fflUser k 0)] else none

/-- `op_layoutget` from `fill_layoutget_result` on. A failure revokes the grant. -/
def fillLayoutgetResult (map : FileMap) : Except FillErr ResLayoutget :=
  let form := selectXdrForm c.hpcXdrForm c.layoutType c.hpcShared map
  let ffMirrorCount := wantFfMirrorCount c.layoutType form map
  if 0 < c.maxcount ∧ c.maxcount < 2 ^ 32 - 1 ∧
      c.maxcount < estimatedBytes c.layoutType form map then .error .toosmall
  else if c.allocOuter = false then .error .resource
  else if map.mirrorCount = 0 then .error .layoutunavailable
  else
    let ds := (List.range map.files).map (layoutDs c map)
    let r : ResLayoutget :=
      { stateid := c.grantStateid, layoutType := c.layoutType, iomode := c.grantIomode
        offset := c.grantOffset, length := c.grantLength, stripeUnit := map.stripeUnit
        ds, ffMirrors := [], ffFlags := 0, ffXdrForm := form }
    if c.layoutType = layout4FlexFiles then
      let mirrors :=
        if form = .striped ∧ ffMirrorCount = 1 ∧ 0 < ds.length then stripedMirrors c ds
        else legacyMirrors c map ds ffMirrorCount
      match mirrors with
      | some ffMirrors => .ok { r with ffMirrors }
      | none => .error .resource
    else .ok r

/-! ## The encoder -/

/-- The twelve bytes of `stateid.other`. -/
def Other.bytes (o : Other) : List UInt8 := be32 o.mdsId ++ be64 o.tail.toUInt64

def xdrNfs4StateidEncode (sid : Stateid) (x : XdrMem) : Option XdrMem := do
  let x ← x.put (be32 sid.seqid)
  x.put (padded sid.other.bytes)

/-- A length and, unless it is 0, the bytes. -/
def xdrBytesEncode (bs : List UInt8) (x : XdrMem) : Option XdrMem := do
  let x ← x.put (be32 bs.length.toUInt32)
  if 0 < bs.length then x.put (padded bs) else some x

def encodeFfDataServer4 (fds : FfDs) (x : XdrMem) : Option XdrMem := do
  let x ← x.put (padded fds.deviceid)
  let x ← x.put (be32 fds.efficiency)
  let x ← xdrNfs4StateidEncode fds.stateid x
  let x ← x.put (be32 1)
  let x ← xdrBytesEncode fds.nfsFh x
  let x ← xdrBytesEncode (decimal fds.fflUser) x
  xdrBytesEncode (decimal fds.fflGroup) x

def encodeFfLayout4Footer (lg : ResLayoutget) (x : XdrMem) : Option XdrMem := do
  let x ← x.put (be32 lg.ffFlags)
  x.put (be32 0)

/-- The inner loop of the legacy encoder over the given slots, which stops at one that is out of
range or not allocated. -/
def encodeGroup (lg : ResLayoutget) : List ℕ → XdrMem → Option XdrMem
  | [], x => some x
  | flatIdx :: rest, x =>
    match lg.ffMirrors[flatIdx]?.bind List.head? with
    | none => some x
    | some fds => (encodeFfDataServer4 fds x).bind (encodeGroup lg rest)

/-- The counts that the legacy encoder derives: mirrors on the wire, and data servers in each. -/
def legacyCounts (total dsCount : ℕ) : ℕ × ℕ :=
  let mcPerStripe :=
    if 0 < dsCount ∧ dsCount < total then
      if total / dsCount = 0 then 1 else total / dsCount
    else 1
  let sc := if 0 < mcPerStripe then total / mcPerStripe else total
  if sc = 0 then (total, 1) else (sc, mcPerStripe)

variable (lg : ResLayoutget)

def encodeFfLayout4BodyLegacy (x : XdrMem) : Option XdrMem := do
  let (sc, mcPerStripe) := legacyCounts lg.ffMirrors.length lg.ds.length
  let x ← x.put (be64 lg.stripeUnit.toUInt64)
  let x ← x.put (be32 sc.toUInt32)
  let x ← (List.range sc).foldlM (fun x s => do
    let x ← x.put (be32 mcPerStripe.toUInt32)
    encodeGroup lg ((List.range mcPerStripe).map fun m => s * mcPerStripe + m) x) x
  encodeFfLayout4Footer lg x

def encodeFfLayout4BodyStriped (x : XdrMem) : Option XdrMem := do
  let inner := lg.ffMirrors.headD []
  let x ← x.put (be64 lg.stripeUnit.toUInt64)
  let x ← x.put (be32 1)
  let x ← x.put (be32 inner.length.toUInt32)
  let x ← inner.foldlM (fun x fds => encodeFfDataServer4 fds x) x
  encodeFfLayout4Footer lg x

/-- The size of the buffer that `encode_ff_layout4_body` allocates. -/
def bodyCap : ℕ :=
  let worst := max lg.ffMirrors.length (lg.ffMirrors.headD []).length
  (if worst = 0 then 1 else worst) * 256 + (64 + 4 * lg.ffMirrors.length)

/-- `encode_ff_layout4_body`: the contents of `loc_body`, if the buffer can be had. -/
def encodeFfLayout4Body (malloc : Bool) : Option (List UInt8) :=
  if malloc then
    let x : XdrMem := { bytes := [], cap := bodyCap lg }
    (match lg.ffXdrForm with
      | .striped => encodeFfLayout4BodyStriped lg x
      | .legacy => encodeFfLayout4BodyLegacy lg x).map XdrMem.bytes
  else none

end PnfsLattice
