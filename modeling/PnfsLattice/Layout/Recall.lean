import PnfsLattice.Layout.Rows
import PnfsLattice.Layout.Tracker

/-!
# Whom a recall reaches

The scans of `layout_recall.c`: the holders a byte-range recall, a final unlink or a lost
data server collects from the layout table, and the acts the recall then performs one by
one. A scan reads the table and the tracker once; the acts are steps of their own, so
that anything can happen between the scan and an act.
-/

namespace PnfsLattice

open Lib List

/-- `iomode_conflicts`: one of the two can write. -/
def iomodeConflicts (holder requester : LayoutIomode) : Bool :=
  holder ≠ .read || requester ≠ .read

def rangeIntersect (aOff aLen bOff bLen : ℕ) : Option (ℕ × ℕ) :=
  let lo := max aOff bOff
  let hi := min (layoutRangeEnd aOff aLen) (layoutRangeEnd bOff bLen)
  if hi ≤ lo then none
  else some (lo, if hi = uint64MaxNat then uint64MaxNat else hi - lo)

/-- `struct byte_range_holder`, without the fields that only the callback's encoding
reads. -/
structure Holder where
  clientid : Clientid
  fileid : Fileid
  stateid : Stateid
  iomode : LayoutIomode
  offset : ℕ
  length : ℕ
  recallOffset : ℕ
  recallLength : ℕ
  sendCb : Bool
deriving DecidableEq

/-- `struct byte_range_collect_ctx`: what a scan asks for. -/
structure CollectCtx where
  fileid : Fileid
  reqClientid : Clientid
  reqIomode : LayoutIomode
  reqOffset : ℕ
  reqLength : ℕ
  skipReqClient : Bool
  requireIomodeConflict : Bool
  requireRangeOverlap : Bool
  keepDuplicateRows : Bool
deriving DecidableEq

def layoutByteRangeMaxHolders : ℕ := 256

/-- The catalogue's part of `byte_range_resolve_hold`: the seqid and the range of the
first row of the stateid, or the whole file. -/
def byteRangeReadHold (rows : LayoutTable) (c : CollectCtx) (stateid : Stateid) : UInt32 × ℕ × ℕ :=
  if c.requireRangeOverlap then
    match memLayoutGetByStateid rows stateid.other with
    | none => (stateid.seqid, 0, uint64MaxNat)
    | some row => (laterSeqid stateid.seqid row.stateid.seqid, row.offset, row.length)
  else (stateid.seqid, 0, uint64MaxNat)

/-- `byte_range_resolve_hold`: the seqid, raised to the latest known one, and the range of
a holder. -/
def byteRangeResolveHold (rows : LayoutTable) (tracker : SeqidTable) (c : CollectCtx)
    (stateid : Stateid) : UInt32 × ℕ × ℕ :=
  let (seqid, range) := byteRangeReadHold rows c stateid
  match layoutSeqidPeek tracker stateid.other with
  | some latest => (laterSeqid seqid latest, range)
  | none => (seqid, range)

/-- `byte_range_dedupe_holder` and the append of its caller. One holder is kept for a
client, the one with the highest seqid; a scan that keeps the rows only settles which of
them gets the callback. -/
def byteRangeDedupeHolder (keepDuplicateRows : Bool) (holders : List Holder) (h : Holder) :
    List Holder :=
  if keepDuplicateRows then
    let supersedes := fun k : Holder =>
      k.clientid = h.clientid ∧ k.stateid.seqid < h.stateid.seqid
    let yields := holders.any fun k =>
      k.clientid = h.clientid && !decide (k.stateid.seqid < h.stateid.seqid) && k.sendCb
    holders.map (fun k => if supersedes k then { k with sendCb := false } else k) ++
      [{ h with sendCb := !yields }]
  else if holders.any fun k => k.clientid = h.clientid then
    modifyFirst (fun k => k.clientid = h.clientid)
      (fun k => if k.stateid.seqid < h.stateid.seqid then h else k) holders
  else holders ++ [h]

def byteRangeCollectCb (rows : LayoutTable) (tracker : SeqidTable) (c : CollectCtx)
    (holders : List Holder) (row : LayoutRow) : List Holder :=
  if c.skipReqClient ∧ row.clientid = c.reqClientid then holders
  else if c.requireIomodeConflict ∧ ¬ iomodeConflicts row.iomode c.reqIomode then holders
  else if layoutByteRangeMaxHolders ≤ holders.length then holders
  else
    let (seqid, off, len) := byteRangeResolveHold rows tracker c row.stateid
    let overlap :=
      if c.requireRangeOverlap then rangeIntersect c.reqOffset c.reqLength off len
      else some (c.reqOffset, c.reqLength)
    match overlap with
    | none => holders
    | some (recallOffset, recallLength) =>
      byteRangeDedupeHolder c.keepDuplicateRows holders
        { clientid := row.clientid, fileid := c.fileid
          stateid := { row.stateid with seqid }
          iomode := row.iomode, offset := off, length := len
          recallOffset, recallLength, sendCb := true }

def byteRangeCollectHolders (rows : LayoutTable) (tracker : SeqidTable) (c : CollectCtx) :
    List Holder :=
  (memLayoutIterFile rows c.fileid).foldl (byteRangeCollectCb rows tracker c) []

/-! ## What a recall goes on to do -/

inductive RecallAct
  /-- `byte_range_recall_stateid`, the seqid recorded before it is advanced. -/
  | note (h : Holder)
  /-- The seqid advanced and sent to the holder in CB_LAYOUTRECALL. -/
  | call (h : Holder)
  /-- `revoke_layout`. -/
  | revoke (fileid : Fileid) (other : Other)
  /-- `layout_seqid_remove` after the revoke. -/
  | untrack (other : Other)
deriving DecidableEq

/-- `byte_range_revoke_holders`, transient answers included. -/
def byteRangeRevokeHolders (holders : List Holder) : List RecallAct :=
  holders.flatMap fun h => [.revoke h.fileid h.stateid.other, .untrack h.stateid.other]

section

variable (rows : LayoutTable)

/-- `layout_recall_byte_range_for_holders`: all callbacks, then all revokes. -/
def layoutRecallByteRange (tracker : SeqidTable) (fileid : Fileid) (reqClientid : Clientid)
    (reqIomode : LayoutIomode) (reqOffset reqLength : ℕ) : List RecallAct :=
  let holders := byteRangeCollectHolders rows tracker
    { fileid, reqClientid, reqIomode, reqOffset, reqLength, skipReqClient := true
      requireIomodeConflict := true, requireRangeOverlap := true, keepDuplicateRows := false }
  holders.map .note ++ byteRangeRevokeHolders holders

/-- `layout_recall_revoke_all_for_unlink`: every holder, without a callback. -/
def layoutRecallUnlink (tracker : SeqidTable) (fileid : Fileid) : List RecallAct :=
  byteRangeRevokeHolders <| byteRangeCollectHolders rows tracker
    { fileid, reqClientid := 0, reqIomode := .any, reqOffset := 0, reqLength := uint64MaxNat
      skipReqClient := false, requireIomodeConflict := false, requireRangeOverlap := false
      keepDuplicateRows := true }

/-- `mem_ds_layout_idx_scan`: the clients and files with a layout on a data server, each
pair once. -/
def memDsLayoutIdxScan (dsId : UInt32) : List (Clientid × Fileid) :=
  (used rows).foldl (fun seen row =>
    if dsId ∈ row.dsIds ∧ (row.clientid, row.fileid) ∉ seen then
      seen ++ [(row.clientid, row.fileid)]
    else seen) []

/-- `layout_recall_for_ds`. The callback recalls all layouts and carries no stateid; the
row that is revoked is the first one of the client on the file. -/
def layoutRecallForDs (dsId : UInt32) : List RecallAct :=
  (memDsLayoutIdxScan rows dsId).filterMap fun (clientid, fileid) =>
    ((memLayoutIterFile rows fileid).find? fun row => row.clientid = clientid).map fun row =>
      .revoke fileid row.stateid.other

/-! ## Holders are rows -/

/-- A holder stands for a row of the file: it has the row's client and stateid, and a seqid
that a row or the tracker has for that stateid. -/
def Holder.Of (tracker : SeqidTable) (fileid : Fileid) (h : Holder) : Prop :=
  h.fileid = fileid ∧
    (∃ row ∈ used rows, row.fileid = fileid ∧ row.clientid = h.clientid ∧
      row.stateid.other = h.stateid.other) ∧
    ((∃ row ∈ used rows, row.stateid = h.stateid) ∨
      layoutSeqidPeek tracker h.stateid.other = some h.stateid.seqid)

end

variable {rows : LayoutTable} {tracker : SeqidTable}

variable {c : CollectCtx}

variable {row : LayoutRow} {h : Holder}

theorem seqid_byteRangeReadHold (hrow : row ∈ used rows) : ∃ r ∈ used rows,
      r.stateid = { row.stateid with seqid := (byteRangeReadHold rows c row.stateid).1 } := by
  rw [byteRangeReadHold]
  by_cases hreq : c.requireRangeOverlap = true
  · rw [if_pos hreq]
    cases hget : memLayoutGetByStateid rows row.stateid.other with
    | none => exact ⟨row, hrow, rfl⟩
    | some r =>
      have hr : r.stateid.other = row.stateid.other := by simpa using List.find?_some hget
      have hmem : r ∈ used rows := mem_of_find?_eq_some hget
      rcases laterSeqid_cases row.stateid.seqid r.stateid.seqid with h | h
      · exact ⟨row, hrow, by simp [h]⟩
      · exact ⟨r, hmem, by simp [h, ← hr]⟩
  · rw [if_neg hreq]
    exact ⟨row, hrow, rfl⟩

/-- The seqid of a resolved holder is one that a row or the tracker has. -/
theorem seqid_byteRangeResolveHold (hrow : row ∈ used rows) :
    (∃ r ∈ used rows, r.stateid =
      { row.stateid with seqid := (byteRangeResolveHold rows tracker c row.stateid).1 }) ∨
      layoutSeqidPeek tracker row.stateid.other =
        some (byteRangeResolveHold rows tracker c row.stateid).1 := by
  have hread := @seqid_byteRangeReadHold rows c row hrow
  simp only [byteRangeResolveHold]
  cases hpeek : layoutSeqidPeek tracker row.stateid.other with
  | none => exact .inl hread
  | some latest =>
    rcases laterSeqid_cases (byteRangeReadHold rows c row.stateid).1 latest with h | h
    · simp only [h]
      exact .inl hread
    · exact .inr (by simp [h])

/-- What holds of holders whatever their callback mark holds of a deduplicated list. -/
theorem forall_mem_byteRangeDedupeHolder {P : Holder → Prop} {keep : Bool} {holders : List Holder}
    (hP : ∀ k b, P k → P { k with sendCb := b }) (hs : ∀ k ∈ holders, P k) (hh : P h) :
    ∀ k ∈ byteRangeDedupeHolder keep holders h, P k := by
  intro k hk
  rw [byteRangeDedupeHolder] at hk
  cases keep with
  | true =>
    rcases mem_append.mp hk with hk | hk
    · obtain ⟨k', hk', rfl⟩ := mem_map.mp hk
      split
      · exact hP k' false (hs k' hk')
      · exact hs k' hk'
    · rw [mem_singleton.mp hk]
      exact hP h _ hh
  | false =>
    simp only [Bool.false_eq_true, if_false] at hk
    split at hk
    · rcases mem_modifyFirst hk with hk | ⟨k', hk', rfl⟩
      · exact hs k hk
      · split
        · exact hh
        · exact hs k' (mem_of_find?_eq_some hk')
    · exact forall_mem_append.mpr ⟨hs, forall_mem_singleton.mpr hh⟩ k hk

theorem mem_byteRangeCollectHolders (hmem : h ∈ byteRangeCollectHolders rows tracker c) :
    h.Of rows tracker c.fileid := by
  -- Along the scan every holder stands for a row that was seen.
  suffices hfold : ∀ (l : List LayoutRow) (holders : List Holder),
      (∀ row ∈ l, row ∈ used rows ∧ row.fileid = c.fileid) →
      (∀ k ∈ holders, k.Of rows tracker c.fileid) →
      ∀ k ∈ l.foldl (byteRangeCollectCb rows tracker c) holders, k.Of rows tracker c.fileid by
    refine hfold _ [] (fun row hrow => ?_) (by simp) h hmem
    simpa [memLayoutIterFile] using hrow
  intro l
  induction l with
  | nil =>
    intro holders _ hs
    exact hs
  | cons row l ih =>
    intro _ hl hs
    obtain ⟨hrow, hfile⟩ := hl row (by simp)
    refine ih _ (fun r hr => hl r (by simp [hr])) ?_
    simp only [byteRangeCollectCb]
    split
    · exact hs
    split
    · exact hs
    split
    · exact hs
    · split
      · exact hs
      · refine forall_mem_byteRangeDedupeHolder (fun _ _ hk => hk) hs ?_
        exact ⟨rfl, ⟨row, hrow, hfile, rfl, rfl⟩, seqid_byteRangeResolveHold hrow⟩

end PnfsLattice
