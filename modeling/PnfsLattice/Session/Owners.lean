import PnfsLattice.Session.Clientids

/-!
# One confirmed record per owner

EXCHANGE_ID keeps a confirmed record alive when its owner returns with a new verifier: the
record leaves the owner hash, and the new unconfirmed record names it as superseded, so
that the CREATE_SESSION that confirms the new one destroys the old one. That link is the
only thing that leads to the old record. If the new record is freed first, by another
EXCHANGE_ID of the owner, a DESTROY_CLIENTID, or the expiry of its lease, the old record is
stranded, and a later record of the owner is confirmed beside it.
-/

namespace PnfsLattice

open Lib List Option

/-! ## The invariant -/

/-- The owner hash and the records out of it. -/
structure OwnerInv (st : SessionTable) : Prop where
  hashed : ∀ c ∈ st.clients, ∀ d ∈ st.clients, c.ownerHashed = true → d.ownerHashed = true →
    c.coOwnerid = d.coOwnerid → c.rid = d.rid
  deferred : ∀ c ∈ st.clients, c.ownerHashed = false → c.confirmed = true ∧
    ∃ d ∈ st.clients, d.ownerHashed = true ∧ d.confirmed = false ∧
      d.coOwnerid = c.coOwnerid ∧ d.supersededClientid = c.clientid
  nonzero : ∀ c ∈ st.clients, c.clientid ≠ 0

/-- The fields the invariant reads. -/
def ClientRec.ownerKey (c : ClientRec) : ℕ × Clientid × List UInt8 × Bool × Clientid × Bool :=
  (c.rid, c.clientid, c.coOwnerid, c.confirmed, c.supersededClientid, c.ownerHashed)

namespace OwnerInv

variable {st t : SessionTable}

section

variable (h : OwnerInv st)

include h

variable {f : ClientRec → ClientRec} {rid : ℕ} {a : EidArgs} {env : EidEnv}

theorem map (hclients : t.clients = st.clients.map f) (hf : ∀ c, (f c).ownerKey = c.ownerKey) :
    OwnerInv t := by
  simp only [ClientRec.ownerKey, Prod.mk.injEq] at hf
  constructor
  · intro c hc d hd
    rw [hclients, List.mem_map] at hc hd
    obtain ⟨x, hx, rfl⟩ := hc
    obtain ⟨y, hy, rfl⟩ := hd
    simpa [hf] using h.hashed x hx y hy
  · intro c hc hout
    rw [hclients, List.mem_map] at hc
    obtain ⟨x, hx, rfl⟩ := hc
    obtain ⟨hconf, d, hd, hrest⟩ := h.deferred x hx (by simpa [hf] using hout)
    refine ⟨by simpa [hf] using hconf, f d, hclients ▸ mem_map_of_mem hd, ?_⟩
    simpa [hf] using hrest
  · intro c hc
    rw [hclients, List.mem_map] at hc
    obtain ⟨x, hx, rfl⟩ := hc
    simpa [hf] using h.nonzero x hx

theorem write (hclients : t.clients = (st.write rid f).clients)
    (hf : ∀ c, (f c).ownerKey = c.ownerKey) : OwnerInv t := by
  refine h.map hclients fun c => ?_
  split
  · exact hf c
  · rfl

/-- Records go, and with an unconfirmed one the record it supersedes. -/
theorem remove {p} (hclients : t.clients = st.clients.filter p)
    (hstrand : ∀ d ∈ st.clients, p d = false → d.confirmed = false → ∀ c ∈ st.clients, c.clientid =
      d.supersededClientid → p c = false) : OwnerInv t := by
  constructor
  · intro c hc d hd
    rw [hclients, mem_filter] at hc hd
    exact h.hashed c hc.1 d hd.1
  · intro c hc hout
    rw [hclients, mem_filter] at hc
    obtain ⟨hconf, d, hd, hhashed, hunconf, howner, hsup⟩ := h.deferred c hc.1 hout
    refine ⟨hconf, d, ?_, hhashed, hunconf, howner, hsup⟩
    rw [hclients, mem_filter]
    refine ⟨hd, ?_⟩
    by_contra hp
    have hpc := hstrand d hd (by simpa using hp) hunconf c hc.1 hsup.symm
    simp [hc.2] at hpc
  · intro c hc
    rw [hclients] at hc
    exact h.nonzero c (mem_of_mem_filter hc)

/-- A record is linked for an owner that has none in the owner hash. -/
theorem linkFresh {superseded}
    (hnone : ∀ c ∈ st.clients, c.ownerHashed = true → c.coOwnerid ≠ a.coOwnerid)
    (hid : takenId st a env ≠ 0) : OwnerInv (linkClient st a env superseded) := by
  constructor
  · intro c hc d hd hch hdh howner
    rcases mem_cons.mp hc with rfl | hc' <;> rcases mem_cons.mp hd with rfl | hd'
    · rfl
    · exact absurd howner.symm (hnone d hd' hdh)
    · exact absurd howner (hnone c hc' hch)
    · exact h.hashed c hc' d hd' hch hdh howner
  · intro c hc hout
    rcases mem_cons.mp hc with rfl | hc'
    · simp [newClient] at hout
    · obtain ⟨hconf, d, hd, hrest⟩ := h.deferred c hc' hout
      exact ⟨hconf, d, mem_cons_of_mem _ hd, hrest⟩
  · exact forall_mem_cons.mpr ⟨hid, h.nonzero⟩

/-- The one confirmed record of an owner leaves the owner hash, and the record linked for
the owner supersedes it. -/
theorem linkDeferred (hinv : TableInv st) {c} (hc : c ∈ st.clients)
    (hhashed : c.ownerHashed = true) (hconf : c.confirmed = true)
    (howner : c.coOwnerid = a.coOwnerid) (hid : takenId (unhashOwner st c) a env ≠ 0) :
    OwnerInv (linkClient (unhashOwner st c) a env c.clientid) := by
  have hother : ∀ x ∈ st.clients, x.ownerHashed = true → x.rid ≠ c.rid →
      x.coOwnerid ≠ a.coOwnerid := fun x hx hxh hne heq =>
    hne (h.hashed x hx c hc hxh hhashed (heq.trans howner.symm))
  constructor
  · intro x hx y hy hxh hyh heq
    rcases mem_cons.mp hx with rfl | hx' <;> rcases mem_cons.mp hy with rfl | hy'
    · rfl
    · rcases (mem_unhashOwner hinv hc).mp hy' with rfl | ⟨hy'', hne⟩
      · simp at hyh
      · exact absurd heq.symm (hother y hy'' hyh hne)
    · rcases (mem_unhashOwner hinv hc).mp hx' with rfl | ⟨hx'', hne⟩
      · simp at hxh
      · exact absurd heq (hother x hx'' hxh hne)
    · rcases (mem_unhashOwner hinv hc).mp hx' with rfl | ⟨hx'', -⟩
      · simp at hxh
      · rcases (mem_unhashOwner hinv hc).mp hy' with rfl | ⟨hy'', -⟩
        · simp at hyh
        · exact h.hashed x hx'' y hy'' hxh hyh heq
  · intro x hx hout
    rcases mem_cons.mp hx with rfl | hx'
    · simp [newClient] at hout
    rcases (mem_unhashOwner hinv hc).mp hx' with rfl | ⟨hx'', -⟩
    · exact ⟨hconf, _, mem_cons_self, rfl, rfl, howner.symm, rfl⟩
    obtain ⟨hxconf, d, hd, hdh, hdconf, hrest⟩ := h.deferred x hx'' hout
    -- The record that supersedes `x` is unconfirmed, so it is not the one deferred here.
    have hne : d.rid ≠ c.rid := by
      intro heq
      obtain rfl := hinv.eq_of_rid hd hc heq
      simp [hconf] at hdconf
    exact ⟨hxconf, d, mem_cons_of_mem _ ((mem_unhashOwner hinv hc).mpr (.inr ⟨hd, hne⟩)),
      hdh, hdconf, hrest⟩
  · intro x hx
    rcases mem_cons.mp hx with rfl | hx'
    · exact hid
    · rcases (mem_unhashOwner hinv hc).mp hx' with rfl | ⟨hx'', -⟩
      · exact h.nonzero c hc
      · exact h.nonzero x hx''

/-- A record that supersedes no live one is confirmed. -/
theorem settle {sessionId now}
    (hclients : t.clients = st.clients.map fun x =>
      if x.rid == rid then settleRec sessionId (confirmRec sessionId now x) else x)
    (hfree : ∀ d ∈ st.clients, d.rid = rid → ∀ x ∈ st.clients, x.ownerHashed = false →
      x.clientid ≠ d.supersededClientid) :
    OwnerInv t := by
  have hkept : ∀ x : ClientRec, ∀ y,
      (if x.rid == rid then settleRec sessionId (confirmRec sessionId now x) else x) = y →
      y.rid = x.rid ∧ y.clientid = x.clientid ∧ y.coOwnerid = x.coOwnerid ∧
        y.ownerHashed = x.ownerHashed ∧ (x.confirmed = true → y.confirmed = true) := by
    rintro x y rfl
    split
    · exact ⟨rfl, rfl, rfl, rfl, fun _ => rfl⟩
    · exact ⟨rfl, rfl, rfl, rfl, id⟩
  constructor
  · intro x hx y hy
    rw [hclients, List.mem_map] at hx hy
    obtain ⟨x', hx', hxeq⟩ := hx
    obtain ⟨y', hy', hyeq⟩ := hy
    obtain ⟨hxr, -, hxo, hxh, -⟩ := hkept x' x hxeq
    obtain ⟨hyr, -, hyo, hyh, -⟩ := hkept y' y hyeq
    rw [hxr, hxo, hxh, hyr, hyo, hyh]
    exact h.hashed x' hx' y' hy'
  · intro x hx hout
    rw [hclients, List.mem_map] at hx
    obtain ⟨x', hx', hxeq⟩ := hx
    obtain ⟨-, hxid, hxo, hxh, hxc⟩ := hkept x' x hxeq
    obtain ⟨hconf, d, hd, hdh, hdconf, hdo, hsup⟩ := h.deferred x' hx' (hxh ▸ hout)
    have hne : ¬ (d.rid == rid) = true := fun heq =>
      hfree d hd (by simpa using heq) x' hx' (hxh ▸ hout) hsup.symm
    refine ⟨hxc hconf, d, ?_, hdh, hdconf, hdo.trans hxo.symm, hsup.trans hxid.symm⟩
    rw [hclients, List.mem_map]
    exact ⟨d, hd, if_neg hne⟩
  · intro x hx
    rw [hclients, List.mem_map] at hx
    obtain ⟨x', hx', hxeq⟩ := hx
    rw [(hkept x' x hxeq).2.1]
    exact h.nonzero x' hx'

end

end OwnerInv

/-! ## Steps that strand no record -/

/-- The record is not the link to a live one. -/
def Unlinked (st : SessionTable) (d : ClientRec) : Prop :=
  d.confirmed = false → ∀ c ∈ st.clients, c.clientid ≠ d.supersededClientid
deriving Decidable

/-- The records a step looks up to free are not links to live ones: the record of the owner
that an EXCHANGE_ID replaces, the one a CREATE_SESSION finds expired or its record
supersedes, the one DESTROY_CLIENTID names. The reaper may free a link together with the
record it leads to. -/
def StrandOk (st : SessionTable) : ClientOp → Prop
  | .exchangeId a _ =>
    a.update = false → ∀ d ∈ findClientByOwner st a.coOwnerid, Unlinked st d
  | .createSession clientid seqid principal env => ∀ c ∈ findClientById st clientid,
    if c.confirmed = false ∧ leaseOver st c env.now = true then Unlinked st c
    else c.confirmed = true ∨ principalMatches c.principal principal = true →
      seqid = c.createSeq → env.alloc = true → c.supersededClientid ≠ 0 →
        ∀ d ∈ findClientById st c.supersededClientid, Unlinked st d
  | .destroyClient clientid _ => ∀ d ∈ findClientById st clientid, Unlinked st d
  | .reap now => ∀ d ∈ st.clients, d.confirmed = false → reaperExpired st now d = true →
    ∀ c ∈ st.clients, c.clientid = d.supersededClientid → reaperExpired st now c = true
  | _ => True

instance (st : SessionTable) : DecidablePred (StrandOk st)
  | .exchangeId _ _ => inferInstanceAs (Decidable (_ → ∀ d ∈ findClientByOwner st _, _))
  | .createSession _ _ _ _ => inferInstanceAs (Decidable (∀ c ∈ findClientById st _, _))
  | .destroyClient _ _ => inferInstanceAs (Decidable (∀ d ∈ findClientById st _, _))
  | .reap _ => inferInstanceAs (Decidable (∀ d ∈ st.clients, _))
  | .destroySession _ | .sequence _ _ | .finishExpired _ _ => inferInstanceAs (Decidable True)

/-- The steps that keep the link from a record to the one it supersedes: the id of a new
record is new and not zero, a deferred record gets the new record that leads to it, and
none is stranded. -/
structure OwnerOk (st : SessionTable) (op : ClientOp) : Prop where
  mint : MintOk st op
  recover : RecoverOk st op
  nonzero : ∀ base a env superseded, Links st op base a env superseded →
    recoveredId base a env ≠ some 0
  linked : ∀ base a env superseded, op = .exchangeId a env →
    eidBase st a env = some (base, superseded) → superseded ≠ 0 → env.alloc = true
  strand : StrandOk st op

variable {st : SessionTable} {c : ClientRec} {t : SessionTable} {op : ClientOp}

variable {a : EidArgs} {env : EidEnv}

theorem OwnerInv.drop (h : OwnerInv st) (hinv : TableInv st) (hc : c ∈ st.clients)
    (hun : Unlinked st c) (hclients : t.clients = st.clients.filter fun x => x.rid != c.rid) :
    OwnerInv t := by
  refine h.remove hclients fun d hd hpd hconf x hx hid => ?_
  obtain rfl := hinv.eq_of_rid hd hc (by simpa using hpd)
  exact absurd hid (hun hconf x hx)

/-- The step does not strand the record that a deletion's look-up found. -/
theorem StrandOk.unlinked_of_drops (hok : StrandOk st op) (hdrop : Drops st op c) :
    Unlinked st c := by
  cases op with
  | createSession =>
    obtain ⟨hfind, hover⟩ := hdrop
    have hc := hok c hfind
    rwa [if_pos hover] at hc
  | destroyClient => exact hok c hdrop
  | exchangeId | destroySession | sequence | reap | finishExpired => exact hdrop.elim

theorem OwnerInv.dropSuperseded {clientid seqid principal} {cs : CsEnv} (h : OwnerInv st)
    (hinv : TableInv st) (hok : StrandOk st (.createSession clientid seqid principal cs))
    (hconf : Confirms st clientid seqid principal cs c)
    (hclients : t.clients =
      st.clients.filter fun x => supersededRid st c.supersededClientid ≠ some x.rid) :
    OwnerInv t := by
  refine h.remove hclients fun d hd hpd hunconf x hx hid => ?_
  unfold supersededRid at hpd
  split at hpd
  · simp at hpd
  next hzero =>
  simp only [ne_eq, decide_not, Bool.not_eq_false', decide_eq_true_eq, map_eq_some_iff] at hpd
  obtain ⟨old, hold, hrid⟩ := hpd
  obtain rfl := hinv.eq_of_rid (findClientById_some hold).1 hd hrid
  have hc := hok c hconf.found
  rw [if_neg hconf.inLease] at hc
  exact absurd hid (hc hconf.principal hconf.seqid hconf.alloc hzero old hold hunconf x hx)

theorem takenId_ne_zero (h : MintInv st)
    (hmint : recoveredId st a env = none → st.nextClientid < 2 ^ 32)
    (hrec : recoveredId st a env ≠ some 0) : takenId st a env ≠ 0 := by
  unfold takenId
  cases hid : recoveredId st a env with
  | none =>
    intro hzero
    have hnat := mintClientid_toNat st
    rw [show mintClientid st = 0 from hzero] at hnat
    have hpos := h.pos
    have hlt := hmint hid
    have h0 : (0 : Clientid).toNat = 0 := rfl
    omega
  | some =>
    rintro rfl
    exact hrec hid

theorem not_superseded_of_confirm (hinv : TableInv st) (hdist : ClientidsDistinct st)
    (h : OwnerInv st) (hc : c ∈ st.clients) :
    ∀ d ∈ st.clients.filter fun x => supersededRid st c.supersededClientid ≠ some x.rid,
      d.rid = c.rid →
      ∀ x ∈ st.clients.filter fun x => supersededRid st c.supersededClientid ≠ some x.rid,
        x.ownerHashed = false → x.clientid ≠ d.supersededClientid := by
  intro d hd hrid x hx _ heq
  obtain rfl := hinv.eq_of_rid (mem_of_mem_filter hd) hc hrid
  obtain ⟨hx', hkeep⟩ := mem_filter.mp hx
  have hzero : d.supersededClientid ≠ 0 := heq ▸ h.nonzero x hx'
  have hsome : (findClientById st d.supersededClientid).isSome = true := by
    rw [findClientById, List.find?_isSome]
    exact ⟨x, hx', by simp [heq]⟩
  obtain ⟨y, hy⟩ := isSome_iff_exists.mp hsome
  obtain ⟨hy', hyid⟩ := findClientById_some hy
  obtain rfl : y = x := inj_on_of_nodup_map hdist hy' hx' (hyid.trans heq.symm)
  simp [supersededRid, hzero, hy] at hkeep

theorem ownerInv_clientStep (hinv : TableInv st) (hmint : MintInv st)
    (hdist : ClientidsDistinct st) (h : OwnerInv st) (hok : OwnerOk st op)
    (hstep : clientStep st op = some t) : OwnerInv t := by
  cases clientStep_effect hstep with
  | idle => exact h
  | renew => exact h.write rfl fun _ => rfl
  | @refused a env _ sup hbase halloc =>
    rcases eidBase_cases hbase with
      ⟨rfl, -, -⟩ | ⟨c, hfind, -, rfl, hsup⟩ | ⟨c, hfind, rfl, -, hupd⟩
    · exact h
    · have hc := (findClientByOwner_some hfind).1
      have := hok.linked _ a env sup rfl hbase (hsup ▸ h.nonzero c hc)
      simp [this] at halloc
    · exact h.drop hinv (findClientByOwner_some hfind).1 (hok.strand hupd c hfind) rfl
  | @link a env base sup hbase halloc =>
    have hlinks : Links st (.exchangeId a env) base a env sup := ⟨rfl, halloc, hbase⟩
    have hid := takenId_ne_zero (hmint.within (.eidBase hbase))
      (fun hrec => (IdsWithin.eidBase hbase).nextClientid ▸ hok.mint base a env sup hlinks hrec)
      (hok.nonzero base a env sup hlinks)
    rcases eidBase_cases hbase with
      ⟨rfl, -, hfind⟩ | ⟨c, hfind, hconf, rfl, rfl⟩ | ⟨c, hfind, rfl, -, hupd⟩
    · refine h.linkFresh (fun c hc hch => ?_) hid
      simpa [hch] using List.find?_eq_none.mp hfind c hc
    · obtain ⟨hc, hch, hco⟩ := findClientByOwner_some hfind
      exact h.linkDeferred hinv hc hch hconf hco hid
    · obtain ⟨hc, hch, hco⟩ := findClientByOwner_some hfind
      have hbaseInv : OwnerInv (dropClient st c env.delOk) :=
        h.drop hinv hc (hok.strand hupd c hfind) rfl
      refine hbaseInv.linkFresh (fun x hx hxh heq => ?_) hid
      obtain ⟨hx', hne⟩ := mem_filter.mp hx
      exact absurd (h.hashed x hx' c hc hxh hch (heq.trans hco.symm)) (by simpa using hne)
  | drop _ hc hdrop => exact h.drop hinv hc (hok.strand.unlinked_of_drops hdrop) rfl
  | reap now =>
    refine h.remove (p := fun c => !reaperExpired st now c) rfl fun d hd hpd hconf c hc hid => ?_
    simpa using hok.strand d hd hconf (by simpa using hpd) c hc hid
  | @confirm _ _ _ env c hc hconf =>
    let kept := st.clients.filter fun x => supersededRid st c.supersededClientid ≠ some x.rid
    have hkept : OwnerInv { st with clients := kept } :=
      h.dropSuperseded hinv hok.strand hconf rfl
    exact hkept.settle (confirmClient_clients st c env)
      (not_superseded_of_confirm hinv hdist h hc)
  | unlink =>
    unfold sessionDestroySession
    split
    · exact h
    · split
      · exact h.write rfl fun _ => rfl
      · exact h.map (f := id) (by simp) fun _ => rfl
  | finish => exact h.map (f := id) (by simp [sessionFinishExpiredClient]) fun _ => rfl

/-! ## Whole runs -/

/-- An owner has at most one confirmed record. -/
def OneConfirmed (st : SessionTable) : Prop :=
  ∀ c ∈ st.clients, ∀ d ∈ st.clients, c.confirmed = true → d.confirmed = true →
    c.coOwnerid = d.coOwnerid → c = d

/-- The record `d`, with all its sessions, is gone. -/
def Gone (st : SessionTable) (d : ClientRec) : Prop :=
  (∀ x ∈ st.clients, x.rid ≠ d.rid) ∧ ∀ s ∈ st.sessions, s.owner ≠ d.rid

theorem OwnerInv.oneConfirmed (h : OwnerInv st) (hinv : TableInv st)
    (hdist : ClientidsDistinct st) : OneConfirmed st := by
  -- A record out of the owner hash excludes a confirmed one in the hash.
  have hexcl : ∀ c ∈ st.clients, ∀ d ∈ st.clients, c.ownerHashed = false →
      d.ownerHashed = true → d.confirmed = true → c.coOwnerid ≠ d.coOwnerid := by
    intro c hc d hd hcout hdh hdconf howner
    obtain ⟨-, e, he, heh, heconf, heo, -⟩ := h.deferred c hc hcout
    obtain rfl := hinv.eq_of_rid he hd (h.hashed e he d hd heh hdh (heo.trans howner))
    simp [hdconf] at heconf
  intro c hc d hd hcc hdc howner
  cases hch : c.ownerHashed <;> cases hdh : d.ownerHashed
  · obtain ⟨-, e, he, heh, -, heo, hes⟩ := h.deferred c hc hch
    obtain ⟨-, e', he', heh', -, heo', hes'⟩ := h.deferred d hd hdh
    obtain rfl := hinv.eq_of_rid he he'
      (h.hashed e he e' he' heh heh' (heo.trans (howner.trans heo'.symm)))
    exact inj_on_of_nodup_map hdist hc hd (hes.symm.trans hes')
  · exact absurd howner (hexcl c hc d hd hch hdh hdc)
  · exact absurd howner.symm (hexcl d hd c hc hdh hch hcc)
  · exact hinv.eq_of_rid hc hd (h.hashed c hc d hd hch hdh howner)

/-- What the runs of steps that strand no record keep. -/
theorem ownerInv_of_reachable (h : Reachable ClientInit clientStep OwnerOk st) :
    MintInv st ∧ ClientidsDistinct st ∧ OwnerInv st := by
  refine h.invariant_of (P := fun st => MintInv st ∧ ClientidsDistinct st ∧ OwnerInv st)
    (Q := TableInv) (fun s hs => tableInv_of_reachable hs) ?_ ?_
  · rintro s ⟨_, _, _, _, _, _, hmds, rfl⟩
    exact ⟨⟨hmds, Nat.le_refl 1, by simp [sessionTableInit]⟩, nodup_nil,
      by constructor <;> simp [sessionTableInit]⟩
  · rintro s _ t hinv ⟨hmint, hdist, howner⟩ hok hstep
    exact ⟨mintInv_clientStep hmint hstep,
      (clientidsDistinct_clientStep_iff hmint hdist hok.mint hstep).mpr hok.recover,
      ownerInv_clientStep hinv hmint hdist howner hok hstep⟩

theorem createSession_keeps {clientid seqid principal env} (hinv : TableInv st)
    (hstep : clientStep st (.createSession clientid seqid principal env) = some t) {d x}
    (hd : d ∈ st.clients) (hx : x ∈ t.clients) (heq : x.rid = d.rid) :
    x.coOwnerid = d.coOwnerid ∧ (d.confirmed = true → x.confirmed = true) := by
  generalize hop : ClientOp.createSession clientid seqid principal env = op at hstep
  cases clientStep_effect hstep with
  | idle =>
    obtain rfl := hinv.eq_of_rid hx hd heq
    exact ⟨rfl, id⟩
  | renew =>
    obtain ⟨y, hy, rfl⟩ := (st.mem_write _ _).mp hx
    obtain rfl : y = d := hinv.eq_of_rid hy hd (by rw [← heq]; split <;> rfl)
    split <;> exact ⟨rfl, id⟩
  | drop =>
    obtain rfl := hinv.eq_of_rid (mem_of_mem_filter hx) hd heq
    exact ⟨rfl, id⟩
  | @confirm =>
    rw [confirmClient_clients, List.mem_map] at hx
    obtain ⟨y, hy, rfl⟩ := hx
    obtain rfl : y = d :=
      hinv.eq_of_rid (mem_of_mem_filter hy) hd (by rw [← heq]; split <;> rfl)
    split
    · exact ⟨rfl, fun _ => rfl⟩
    · exact ⟨rfl, id⟩
  | refused | link | unlink | reap | finish => cases hop

/-- **One confirmed record per owner.**  In a run whose steps strand no record, an owner
has at most one confirmed record and every session is listed by the live record that owns
it; and after a CREATE_SESSION, of the confirmed records an owner had, all but the one it
has now are gone with their sessions. -/
theorem one_confirmed_per_owner {st : SessionTable}
    (h : Reachable ClientInit clientStep OwnerOk st) : OneConfirmed st ∧
    (∀ s ∈ st.sessions, ∃ c ∈ st.clients, c.rid = s.owner ∧ s.sessionId ∈ c.sessions) ∧
    ∀ clientid seqid principal env t,
      OwnerOk st (.createSession clientid seqid principal env) →
      clientStep st (.createSession clientid seqid principal env) = some t →
      ∀ c ∈ t.clients, c.confirmed = true → ∀ d ∈ st.clients, d.confirmed = true →
        d.coOwnerid = c.coOwnerid → d.rid ≠ c.rid → Gone t d := by
  have hinv := tableInv_of_reachable h
  obtain ⟨-, hdist, howner⟩ := ownerInv_of_reachable h
  refine ⟨howner.oneConfirmed hinv hdist, hinv.owned, ?_⟩
  intro _ _ _ _ t hok hstep c hc hconf d hd hdconf hdo hne
  have ht := h.next hok hstep
  have htinv := tableInv_of_reachable ht
  obtain ⟨-, htdist, htowner⟩ := ownerInv_of_reachable ht
  have hgone : ∀ x ∈ t.clients, x.rid ≠ d.rid := by
    intro x hx heq
    obtain ⟨hxo, hxconf⟩ := createSession_keeps hinv hstep hd hx heq
    obtain rfl := htowner.oneConfirmed htinv htdist x hx c hc (hxconf hdconf) hconf
      (hxo.trans hdo)
    exact hne heq.symm
  refine ⟨hgone, fun s hs hso => ?_⟩
  obtain ⟨x, hx, hxs, -⟩ := htinv.owned s hs
  exact hgone x hx (hxs.trans hso)

theorem ownerOk_exchangeId (hcounter : st.nextClientid < 2 ^ 32)
    (hscan : ∀ c ∈ st.clients, some c.clientid ≠ env.scan) (hzero : env.scan ≠ some 0)
    (halloc : env.alloc = true) (hstrand : StrandOk st (.exchangeId a env)) :
    OwnerOk st (.exchangeId a env) where
  mint := fun _ _ _ _ _ _ => hcounter
  recover := recoverOk_of_scan hscan
  nonzero := by
    rintro base a' env' sup ⟨hop, -, -⟩ hrec
    cases hop
    unfold recoveredId at hrec
    split at hrec
    · exact hzero (filter_eq_some_iff.mp hrec).1
    · simp at hrec
  linked := by
    rintro _ _ _ _ hop - -
    cases hop
    exact halloc
  strand := hstrand

theorem ownerOk_other (hop : ∀ a env, op ≠ .exchangeId a env) (hstrand : StrandOk st op) :
    OwnerOk st op where
  mint := fun _ a env _ hlinks => absurd hlinks.1 (hop a env)
  recover := fun _ a env _ hlinks => absurd hlinks.1 (hop a env)
  nonzero := fun _ a env _ hlinks => absurd hlinks.1 (hop a env)
  linked := fun _ a env _ heq => absurd heq (hop a env)
  strand := hstrand

/-- An owner registers, is confirmed, and returns with a new verifier. -/
def restartingOwner : List ClientOp :=
  [.exchangeId ⟨[1], [4], false, noPrincipal⟩ ⟨10, false, none, true, true⟩,
   .createSession 0x1000700000001 1 noPrincipal ⟨11, true, true, true⟩,
   .exchangeId ⟨[1], [5], false, noPrincipal⟩ ⟨12, false, none, true, true⟩]

/-- The CREATE_SESSION of the new record. -/
def confirmRestarted : ClientOp :=
  .createSession 0x1000700000002 1 noPrincipal ⟨13, true, true, true⟩

/-- When the new record of a restarted owner is confirmed, the old one goes. -/
theorem one_confirmed_restartingOwner :
    ∃ st t c d, Reachable ClientInit clientStep OwnerOk st ∧ OneConfirmed st ∧
      clientStep st confirmRestarted = some t ∧ c ∈ t.clients ∧ d ∈ st.clients ∧
      c.coOwnerid = d.coOwnerid ∧ d.confirmed = true ∧ Gone t d := by
  have hst : Reachable ClientInit clientStep OwnerOk _ :=
    .run (sessionTableInit 1 7 90 true true []) restartingOwner
      ⟨1, 7, 90, true, true, [], by decide, rfl⟩
      (.cons rfl (ownerOk_exchangeId (by decide) (by decide) (by decide) rfl (by decide))
        (.cons rfl (ownerOk_other (by simp) (by decide))
          (.cons rfl (ownerOk_exchangeId (by decide) (by decide) (by decide) rfl (by decide))
            trivial)))
  obtain ⟨hone, -, hgone⟩ := one_confirmed_per_owner hst
  refine ⟨_, _, _, _, hst, hone, rfl, .head _, .tail _ (.head _), rfl, rfl, ?_⟩
  exact hgone 0x1000700000002 1 noPrincipal ⟨13, true, true, true⟩ _
    (ownerOk_other (by simp) (by decide)) rfl _ (.head _) rfl _ (.tail _ (.head _)) rfl rfl
    (by decide)

/-- An owner is confirmed, returns with a second verifier and then with a third, and the
record of the third is confirmed. -/
def returningTwice : List ClientOp :=
  restartingOwner ++
  [.exchangeId ⟨[1], [6], false, noPrincipal⟩ ⟨13, false, none, true, true⟩,
   .createSession 0x1000700000003 1 noPrincipal ⟨14, true, true, true⟩]

/-- The record of the second verifier was the only link to the first, so that two
confirmed records of the owner remain. -/
theorem one_confirmed_returningTwice :
    ¬ ∀ st, Reachable ClientInit clientStep anyStep st → OneConfirmed st := by
  intro hall
  have hone := hall _ (.run (sessionTableInit 1 7 90 true true []) returningTwice
    ⟨1, 7, 90, true, true, [], by decide, rfl⟩)
  exact absurd (hone _ (.head _) _ (.tail _ (.head _)) rfl rfl rfl) (by decide)

end PnfsLattice
