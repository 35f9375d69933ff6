import PnfsLattice.Session.ClientSteps

/-!
# Clientids

Whether live records have distinct clientids. Ids come from two sources: the mint
counter under the table's `mds_id` and nonce, and, in the grace period, the recovery row
of the owner and verifier that EXCHANGE_ID presents. A minted id is new as long as the
counter has not wrapped. A recovered id need not be: a record that EXCHANGE_ID
superseded stays live until its replacement is confirmed, keeps its recovery row, and the
row is found again when the owner returns with the old verifier.
-/

namespace PnfsLattice

open Lib List Option

/-! ## Tables with no new ids -/

/-- `t` has no ids that `s` lacks, and mints the same ids next. -/
structure IdsWithin (s t : SessionTable) : Prop where
  ids : (t.clients.map ClientRec.clientid).Sublist (s.clients.map ClientRec.clientid)
  nextClientid : t.nextClientid = s.nextClientid
  mdsId : t.mdsId = s.mdsId
  restartNonce : t.restartNonce = s.restartNonce

namespace IdsWithin

variable {s t u : SessionTable}

theorem refl (s : SessionTable) : IdsWithin s s := ⟨List.Sublist.refl _, rfl, rfl, rfl⟩

theorem trans (h : IdsWithin s t) (h' : IdsWithin t u) : IdsWithin s u :=
  ⟨h'.ids.trans h.ids, h'.nextClientid.trans h.nextClientid, h'.mdsId.trans h.mdsId,
    h'.restartNonce.trans h.restartNonce⟩

theorem tag_eq (h : IdsWithin s t) : t.tag = s.tag := by
  unfold SessionTable.tag
  rw [h.mdsId, h.restartNonce]

theorem write (s : SessionTable) (rid : ℕ) {f} (hf : ∀ c, (f c).clientid = c.clientid) :
    IdsWithin s (s.write rid f) :=
  ⟨(s.map_write rid f hf).symm ▸ List.Sublist.refl _, rfl, rfl, rfl⟩

theorem dropClient (s : SessionTable) (c : ClientRec) (delOk : Bool) :
    IdsWithin s (dropClient s c delOk) :=
  ⟨filter_sublist.map _, rfl, rfl, rfl⟩

theorem destroySuperseded (s : SessionTable) (clientid : Clientid) (delOk : Bool) :
    IdsWithin s (destroySuperseded s clientid delOk) := by
  unfold PnfsLattice.destroySuperseded
  split
  · exact refl s
  · split
    · exact dropClient s _ delOk
    · exact refl s

theorem confirmClient (s : SessionTable) (c : ClientRec) (env : CsEnv) :
    IdsWithin s (confirmClient s c env) := by
  have h₁ : IdsWithin s (s.write c.rid (confirmRec s.nextSessionSeq env.now)) :=
    write s c.rid fun _ => rfl
  have h₂ : IdsWithin s (linkSession s c env.now) := ⟨h₁.ids, rfl, rfl, rfl⟩
  have h₃ := h₂.trans (destroySuperseded _ c.supersededClientid env.delOk)
  have h₄ := h₃.trans (write _ c.rid (f := settleRec s.nextSessionSeq) fun _ => rfl)
  exact { h₄ with }

theorem sessionDestroySession (s : SessionTable) (sessionId : ℕ) :
    IdsWithin s (sessionDestroySession s sessionId) := by
  unfold PnfsLattice.sessionDestroySession
  split
  · exact refl s
  split
  · next c _ =>
      have h := write s c.rid
        (f := fun c => { c with sessions := c.sessions.erase sessionId }) fun _ => rfl
      exact ⟨h.ids, rfl, rfl, rfl⟩
  · exact ⟨List.Sublist.refl _, rfl, rfl, rfl⟩

theorem eidBase {a env superseded} (hbase : eidBase s a env = some (t, superseded)) :
    IdsWithin s t := by
  rcases eidBase_cases hbase with ⟨rfl, -, -⟩ | ⟨c, -, -, rfl, -⟩ | ⟨c, -, rfl, -⟩
  · exact refl _
  · exact write s c.rid fun _ => rfl
  · exact dropClient s c _

end IdsWithin

/-- A step that comes to linking a record, and what it does to the old one first. -/
def Links (st : SessionTable) (op : ClientOp) (base : SessionTable) (a : EidArgs)
    (env : EidEnv) (superseded : Clientid) : Prop :=
  op = .exchangeId a env ∧ env.alloc = true ∧ eidBase st a env = some (base, superseded)

variable {st : SessionTable} {op : ClientOp} {s t : SessionTable}

theorem Links.unique {base base' a a' env env' superseded superseded'}
    (h : Links st op base a env superseded) (h' : Links st op base' a' env' superseded') :
    base = base' ∧ a = a' ∧ env = env' ∧ superseded = superseded' := by
  obtain ⟨rfl, -, hbase⟩ := h
  obtain ⟨hop, -, hbase'⟩ := h'
  cases hop
  simpa [hbase] using hbase'

theorem clientStep_ids (h : clientStep s op = some t) :
    (IdsWithin s t ∧ ∀ base a env superseded, ¬ Links s op base a env superseded) ∨
    ∃ base a env superseded, Links s op base a env superseded ∧
      t = linkClient base a env superseded := by
  by_cases hlinks : ∃ base a env superseded, Links s op base a env superseded
  · obtain ⟨base, a, env, sup, rfl, halloc, hbase⟩ := hlinks
    rw [clientStep_exchangeId hbase, if_pos halloc] at h
    exact .inr ⟨base, a, env, sup, ⟨rfl, halloc, hbase⟩, (some.inj h).symm⟩
  · refine .inl ⟨?_, fun base a env sup hl => hlinks ⟨base, a, env, sup, hl⟩⟩
    cases clientStep_effect h with
    | idle => exact .refl s
    | renew rid => exact .write s rid fun _ => rfl
    | refused hbase => exact .eidBase hbase
    | link hbase halloc => exact absurd ⟨_, _, _, _, rfl, halloc, hbase⟩ hlinks
    | drop delOk => exact .dropClient s _ delOk
    | confirm => exact .confirmClient s _ _
    | unlink => exact .sessionDestroySession s _
    | reap => exact ⟨filter_sublist.map _, rfl, rfl, rfl⟩
    | finish => exact ⟨List.Sublist.refl _, rfl, rfl, rfl⟩

/-! ## The mint counter -/

/-- Ids under the table's own tag lie below the mint counter, in every run. -/
structure MintInv (st : SessionTable) : Prop where
  mds : st.mdsId.toNat < 2 ^ 16
  pos : 1 ≤ st.nextClientid
  below : ∀ id ∈ st.clients.map ClientRec.clientid, id.toNat / 2 ^ 32 = st.tag →
    id.toNat % 2 ^ 32 < st.nextClientid

theorem MintInv.within (h : MintInv s) (hst : IdsWithin s t) : MintInv t where
  mds := hst.mdsId ▸ h.mds
  pos := hst.nextClientid ▸ h.pos
  below := by
    intro id hid htag
    rw [hst.nextClientid]
    exact h.below id (hst.ids.subset hid) (hst.tag_eq ▸ htag)

theorem tag_lt (st : SessionTable) : st.tag < 2 ^ 32 := by
  unfold SessionTable.tag
  omega

theorem mintClientid_toNat (st : SessionTable) :
    (mintClientid st).toNat = st.tag * 2 ^ 32 + st.nextClientid % 2 ^ 32 := by
  have htag := tag_lt st
  unfold mintClientid
  rw [UInt64.toNat_ofNat_of_lt']
  have hsize : UInt64.size = 2 ^ 64 := rfl
  omega

/-- The counter moves past the id it gives out, minted or recovered. -/
theorem takenId_below (h : MintInv st) (a : EidArgs) (env : EidEnv)
    (htag : (takenId st a env).toNat / 2 ^ 32 = st.tag) :
    (takenId st a env).toNat % 2 ^ 32 < takenCounter st a env := by
  unfold takenId takenCounter at *
  cases hrec : recoveredId st a env with
  | none =>
    simp only [getD_none, mintClientid_toNat] at *
    omega
  | some id =>
    rw [hrec] at htag
    simp only [getD_some] at *
    have hmds := h.mds
    unfold SessionTable.tag at htag
    rw [counterPast, if_pos (by omega)]
    omega

theorem nextClientid_le_takenCounter (st : SessionTable) (a : EidArgs) (env : EidEnv) :
    st.nextClientid ≤ takenCounter st a env := by
  unfold takenCounter counterPast
  split
  · split <;> omega
  · omega

theorem MintInv.link (h : MintInv st) (a : EidArgs) (env : EidEnv) (superseded : Clientid) :
    MintInv (linkClient st a env superseded) where
  mds := h.mds
  pos := Nat.le_trans h.pos (nextClientid_le_takenCounter st a env)
  below := by
    intro id hid htag
    rcases mem_cons.mp hid with rfl | hid'
    · exact takenId_below h a env htag
    · exact Nat.lt_of_lt_of_le (h.below id hid' htag) (nextClientid_le_takenCounter st a env)

theorem mintInv_clientStep (h : MintInv s) (hstep : clientStep s op = some t) : MintInv t := by
  rcases clientStep_ids hstep with ⟨hst, -⟩ | ⟨_, a, env, sup, ⟨-, -, hbase⟩, rfl⟩
  · exact h.within hst
  · exact (h.within (.eidBase hbase)).link a env sup

/-! ## Distinct ids -/

/-- Live records have distinct clientids. -/
def ClientidsDistinct (st : SessionTable) : Prop :=
  (st.clients.map ClientRec.clientid).Nodup

/-- A step that mints an id does so before the 32-bit counter has wrapped. Recovered ids move
the counter too, so that fewer than 2³² minted ids are not enough. -/
def MintOk (st : SessionTable) (op : ClientOp) : Prop :=
  ∀ base a env superseded, Links st op base a env superseded →
    recoveredId base a env = none → st.nextClientid < 2 ^ 32

/-- A step that recovers an id finds no live record with it, other than the one it
frees. -/
def RecoverOk (st : SessionTable) (op : ClientOp) : Prop :=
  ∀ base a env superseded, Links st op base a env superseded →
    ∀ id, recoveredId base a env = some id → ∀ c ∈ base.clients, c.clientid ≠ id

/-- The condition on a step. -/
structure ClientidOk (st : SessionTable) (op : ClientOp) : Prop where
  mint : MintOk st op
  recover : RecoverOk st op

/-- The scan of an EXCHANGE_ID stops at no row of a live record. -/
theorem recoverOk_of_scan {a env} (h : ∀ c ∈ st.clients, some c.clientid ≠ env.scan) :
    RecoverOk st (.exchangeId a env) := by
  rintro _ _ _ _ ⟨hop, -, hbase⟩ _ hid c hc rfl
  cases hop
  have hmem := (IdsWithin.eidBase hbase).ids.subset (mem_map_of_mem hc)
  obtain ⟨d, hd, heq⟩ := mem_map.mp hmem
  refine h d hd ?_
  unfold recoveredId at hid
  split at hid
  · rw [heq, (filter_eq_some_iff.mp hid).1]
  · simp at hid

theorem mintClientid_notMem (h : MintInv st) (hwrap : st.nextClientid < 2 ^ 32) :
    mintClientid st ∉ st.clients.map ClientRec.clientid := by
  intro hmem
  have hid := mintClientid_toNat st
  have hlt := h.below _ hmem (by omega)
  omega

/-- A step that mints no wrapped id keeps ids distinct exactly if it recovers no id of a
live record. -/
theorem clientidsDistinct_clientStep_iff (hinv : MintInv s) (h : ClientidsDistinct s)
    (hmint : MintOk s op) (hstep : clientStep s op = some t) :
    ClientidsDistinct t ↔ RecoverOk s op := by
  rcases clientStep_ids hstep with ⟨hst, hno⟩ | ⟨base, a, env, sup, hlinks, rfl⟩
  · exact iff_of_true (h.sublist hst.ids) fun base a env sup hl => absurd hl (hno base a env sup)
  have hwithin := IdsWithin.eidBase hlinks.2.2
  have hnodup : ClientidsDistinct base := h.sublist hwithin.ids
  rw [show ClientidsDistinct (linkClient base a env sup) ↔ _ from
    nodup_cons.trans (and_iff_left hnodup)]
  cases hrec : recoveredId base a env with
  | none =>
    have hwrap : base.nextClientid < 2 ^ 32 :=
      hwithin.nextClientid ▸ hmint base a env sup hlinks hrec
    have hnew := mintClientid_notMem (hinv.within hwithin) hwrap
    refine iff_of_true (by rwa [takenId, hrec]) ?_
    intro base' a' env' sup' hlinks' id hid
    obtain ⟨rfl, rfl, rfl, rfl⟩ := hlinks.unique hlinks'
    simp [hrec] at hid
  | some id =>
    rw [takenId, hrec, List.mem_map]
    constructor
    · intro hni _ _ _ _ hlinks' id' hid' c hc heq
      obtain ⟨rfl, rfl, rfl, rfl⟩ := hlinks.unique hlinks'
      obtain rfl : id = id' := by simpa [hrec] using hid'
      exact hni ⟨c, hc, heq⟩
    · rintro hok ⟨c, hc, heq⟩
      exact hok base a env sup hlinks id hrec c hc heq

/-! ## Whole runs -/

/-- **Distinct clientids.**  Live records have distinct clientids in every state of a run that
mints no id after the 32-bit counter has wrapped and recovers no id of a record that stays live.
Where the counter does not wrap, the condition on recovered ids is also necessary. -/
theorem clientids_distinct (mdsId : UInt32) (nonce : UInt64) (lease : ℕ) (persists cat : Bool)
    (rows : List RecoveryRow) (ops : List ClientOp) (hmds : mdsId.toNat < 2 ^ 16) :
    let init := sessionTableInit mdsId nonce lease persists cat rows
    (AllSteps clientStep ClientidOk init ops → AllStates clientStep ClientidsDistinct init ops) ∧
      (AllSteps clientStep MintOk init ops → AllStates clientStep ClientidsDistinct init ops →
        AllSteps clientStep RecoverOk init ops) := by
  intro init
  have hiff : AllSteps clientStep MintOk init ops →
      (AllStates clientStep ClientidsDistinct init ops ↔
        AllSteps clientStep RecoverOk init ops) := by
    intro hmint
    refine allStates_iff_allSteps_of (I := MintInv)
      (fun _ _ _ hs hstep => mintInv_clientStep hs hstep)
      (fun _ _ _ hs hp hok hstep => clientidsDistinct_clientStep_iff hs hp hok hstep) hmint ?_ ?_
    · exact ⟨hmds, Nat.le_refl 1, by simp [init, sessionTableInit]⟩
    · exact nodup_nil
  refine ⟨fun h => ?_, fun hmint => (hiff hmint).mp⟩
  exact (hiff (h.mono fun _ _ hok => hok.mint)).mpr (h.mono fun _ _ hok => hok.recover)

/-- The principal of requests that carry none. -/
def noPrincipal : Principal := ⟨0, 0, 0⟩

/-- A new owner registers, and one that an earlier boot knew recovers its id. -/
def recoveringRun : List ClientOp :=
  [.exchangeId ⟨[2], [5], false, noPrincipal⟩ ⟨10, true, none, true, true⟩,
   .exchangeId ⟨[1], [4], false, noPrincipal⟩ ⟨11, true, some 9, true, true⟩]

/-- The table that run starts from has the recovery row of the second owner. -/
def recoveringInit : SessionTable := sessionTableInit 1 7 90 true true [⟨9, [1], [4]⟩]

theorem clientids_distinct_recovered :
    AllStates clientStep ClientidsDistinct recoveringInit recoveringRun := by
  refine (clientids_distinct 1 7 90 true true [⟨9, [1], [4]⟩] recoveringRun (by decide)).1 ?_
  exact .cons rfl ⟨fun _ _ _ _ _ _ => by decide, recoverOk_of_scan (by decide)⟩
    (.cons rfl ⟨fun _ _ _ _ _ _ => by decide, recoverOk_of_scan (by decide)⟩ trivial)

/-- In the grace period an owner registers and is confirmed, returns with a new verifier,
and then with the old one. -/
def returningOwner : List ClientOp :=
  [.exchangeId ⟨[1], [4], false, noPrincipal⟩ ⟨10, true, none, true, true⟩,
   .createSession 0x1000700000001 1 noPrincipal ⟨11, true, true, true⟩,
   .exchangeId ⟨[1], [5], false, noPrincipal⟩ ⟨12, true, none, true, true⟩,
   .exchangeId ⟨[1], [4], false, noPrincipal⟩ ⟨13, true, some 0x1000700000001, true, true⟩]

/-- The last call frees the unconfirmed record and gives its replacement the id of the
confirmed one, which is still live. -/
theorem clientids_distinct_returningOwner :
    ¬ ∀ st, Reachable ClientInit clientStep MintOk st → ClientidsDistinct st := by
  intro hall
  have hreach : Reachable ClientInit clientStep MintOk _ :=
    .run (sessionTableInit 1 7 90 true true []) returningOwner
      ⟨1, 7, 90, true, true, [], by decide, rfl⟩
      (.cons rfl (fun _ _ _ _ _ _ => by decide) (.cons rfl (fun _ _ _ _ _ _ => by decide)
        (.cons rfl (fun _ _ _ _ _ _ => by decide) (.cons rfl (fun _ _ _ _ _ _ => by decide)
          trivial))))
  exact absurd (hall _ hreach) (by unfold ClientidsDistinct; decide)

end PnfsLattice
