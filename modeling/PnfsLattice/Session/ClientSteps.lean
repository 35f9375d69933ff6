import PnfsLattice.Session.Clients

/-!
# Steps of the client table

What one step does to the client table, and what holds of the table in every run: the
records are distinct objects, and every session belongs to a live record that lists it.
-/

namespace PnfsLattice

open Lib List Option Function

/-! ## Writes and removals -/

section Write

variable (st : SessionTable) (rid : ℕ) (f : ClientRec → ClientRec)

theorem SessionTable.write_clients :
    (st.write rid f).clients = st.clients.map fun c => if c.rid == rid then f c else c := rfl

theorem SessionTable.mem_write {c} : c ∈ (st.write rid f).clients ↔
      ∃ x ∈ st.clients, (if x.rid == rid then f x else x) = c := by
  simp [SessionTable.write_clients]

theorem SessionTable.map_write {α : Type*} {g : ClientRec → α} (hg : ∀ c, g (f c) = g c) :
    (st.write rid f).clients.map g = st.clients.map g := by
  simp only [SessionTable.write_clients, List.map_map]
  refine List.map_congr_left fun c _ => ?_
  simp only [comp_apply]
  split
  · exact hg c
  · rfl

end Write

variable {st : SessionTable} {c : ClientRec} {t : SessionTable} {op : ClientOp}

theorem findClientById_some {clientid} (h : findClientById st clientid = some c) :
    c ∈ st.clients ∧ c.clientid = clientid :=
  ⟨mem_of_find?_eq_some h, by simpa using List.find?_some h⟩

theorem findClientByOwner_some {owner} (h : findClientByOwner st owner = some c) :
    c ∈ st.clients ∧ c.ownerHashed = true ∧ c.coOwnerid = owner :=
  ⟨mem_of_find?_eq_some h, by simpa using List.find?_some h⟩

/-! ## The cases of EXCHANGE_ID -/

/-- The id that a new record gets. -/
def takenId (st : SessionTable) (a : EidArgs) (env : EidEnv) : Clientid :=
  (recoveredId st a env).getD (mintClientid st)

/-- The mint counter after a new record got its id. -/
def takenCounter (st : SessionTable) (a : EidArgs) (env : EidEnv) : ℕ :=
  match recoveredId st a env with
  | some id => counterPast st id
  | none => st.nextClientid + 1

/-- The table with a new record. -/
def linkClient (st : SessionTable) (a : EidArgs) (env : EidEnv) (superseded : Clientid) :
    SessionTable :=
  { st with
    clients := newClient st a env (takenId st a env) superseded :: st.clients
    nextClientid := takenCounter st a env
    nextRid := st.nextRid + 1 }

theorem sessionAllocNewClient_fst (st : SessionTable) (a : EidArgs) (env : EidEnv)
    (superseded : Clientid) : (sessionAllocNewClient st a env superseded).1 =
      if env.alloc = true then linkClient st a env superseded else st := by
  unfold sessionAllocNewClient linkClient takenId takenCounter
  cases env.alloc <;> cases recoveredId st a env <;> rfl

/-- The table with a record out of the owner hash. -/
def unhashOwner (st : SessionTable) (c : ClientRec) : SessionTable :=
  st.write c.rid fun c => { c with ownerHashed := false }

/-- The table in which an EXCHANGE_ID allocates its record, and the id the record
supersedes; none if the call allocates no record. -/
def eidBase (st : SessionTable) (a : EidArgs) (env : EidEnv) : Option (SessionTable × Clientid) :=
  match eidCase st a with
  | .fail _ | .renew _ => none
  | .fresh => some (st, 0)
  | .defer c => some (unhashOwner st c, c.clientid)
  | .replace c => some (dropClient st c env.delOk, 0)

/-- What is known of the old record in each case that allocates a new one. -/
theorem eidBase_cases {base a env superseded} (h : eidBase st a env = some (base, superseded)) :
    (base = st ∧ superseded = 0 ∧ findClientByOwner st a.coOwnerid = none) ∨
    (∃ c, findClientByOwner st a.coOwnerid = some c ∧ c.confirmed = true ∧
      base = unhashOwner st c ∧ superseded = c.clientid) ∨
    (∃ c, findClientByOwner st a.coOwnerid = some c ∧
      base = dropClient st c env.delOk ∧ superseded = 0 ∧ a.update = false) := by
  unfold eidBase eidCase at h
  cases hfind : findClientByOwner st a.coOwnerid with
  | none | some => grind

theorem clientStep_exchangeId {base a env superseded}
    (h : eidBase st a env = some (base, superseded)) :
    clientStep st (.exchangeId a env) =
      some (if env.alloc = true then linkClient base a env superseded else base) := by
  rw [← sessionAllocNewClient_fst]
  simp only [clientStep, clientNext, sessionExchangeId]
  unfold eidBase at h
  cases hcase : eidCase st a <;> simp_all [unhashOwner]

/-! ## Effects -/

/-- The record `c` that a CREATE_SESSION finds expired, or a DESTROY_CLIENTID finds. -/
def Drops (st : SessionTable) : ClientOp → ClientRec → Prop
  | .createSession clientid _ _ env, c =>
    findClientById st clientid = some c ∧ c.confirmed = false ∧ leaseOver st c env.now = true
  | .destroyClient clientid _, c => findClientById st clientid = some c
  | _, _ => False

/-- The record `c` that a CREATE_SESSION finds and confirms. -/
structure Confirms (st : SessionTable) (clientid : Clientid) (seqid : UInt32)
    (principal : Principal) (env : CsEnv) (c : ClientRec) : Prop where
  found : findClientById st clientid = some c
  inLease : ¬ (c.confirmed = false ∧ leaseOver st c env.now = true)
  principal : c.confirmed = true ∨ principalMatches c.principal principal = true
  seqid : seqid = c.createSeq
  alloc : env.alloc = true

/-- What one step does to the table. -/
inductive ClientEffect (st : SessionTable) : ClientOp → SessionTable → Prop
  | idle {op : ClientOp} : ClientEffect st op st
  | renew {op : ClientOp} (rid now : ℕ) :
      ClientEffect st op (st.write rid fun c => { c with lastRenewed := now })
  | refused {a env base superseded} (hbase : eidBase st a env = some (base, superseded))
      (halloc : env.alloc = false) : ClientEffect st (.exchangeId a env) base
  | link {a env base superseded} (hbase : eidBase st a env = some (base, superseded))
      (halloc : env.alloc = true) :
      ClientEffect st (.exchangeId a env) (linkClient base a env superseded)
  | drop {op : ClientOp} {c} (delOk : Bool) (hc : c ∈ st.clients) (hdrop : Drops st op c) :
      ClientEffect st op (dropClient st c delOk)
  | confirm {clientid seqid principal env c} (hc : c ∈ st.clients)
      (hconf : Confirms st clientid seqid principal env c) :
      ClientEffect st (.createSession clientid seqid principal env) (confirmClient st c env)
  | unlink (sessionId : ℕ) :
      ClientEffect st (.destroySession sessionId) (sessionDestroySession st sessionId)
  | reap (now : ℕ) : ClientEffect st (.reap now) (leaseReaper st now)
  | finish (clientid : Clientid) (delOk : Bool) :
      ClientEffect st (.finishExpired clientid delOk)
        (sessionFinishExpiredClient st clientid delOk)

theorem sessionCreateSession_effect (st : SessionTable) (clientid : Clientid) (seqid : UInt32)
    (principal : Principal) (env : CsEnv) :
    ClientEffect st (.createSession clientid seqid principal env)
      (sessionCreateSession st clientid seqid principal env).1 := by
  unfold sessionCreateSession
  cases hfind : findClientById st clientid with
  | none => exact .idle
  | some =>
    have hc := (findClientById_some hfind).1
    dsimp only
    split
    · next hover => exact .drop _ hc ⟨hfind, by simpa using hover⟩
    next hlive =>
    split
    · exact .idle
    next hprinc =>
    split
    · next hseq =>
      split
      · exact .idle
      · next halloc =>
        refine .confirm hc ⟨hfind, by simpa using hlive, ?_, hseq, by simpa using halloc⟩
        simpa [or_iff_not_imp_left] using hprinc
    · split
      · split <;> exact .idle
      · exact .idle

theorem clientNext_of_clientStep (h : clientStep st op = some t) : clientNext st op = t := by
  unfold clientStep at h
  split at h
  · split at h
    · exact some.inj h
    · exact absurd h (by simp)
  · exact some.inj h

theorem clientStep_effect (h : clientStep st op = some t) : ClientEffect st op t := by
  obtain rfl := clientNext_of_clientStep h
  cases op with
  | exchangeId a env =>
    have hlink {base sup} (hbase : eidBase st a env = some (base, sup)) :
        ClientEffect st (.exchangeId a env) (sessionAllocNewClient base a env sup).1 := by
      rw [sessionAllocNewClient_fst]
      split
      · next halloc => exact .link hbase halloc
      · next halloc => exact .refused hbase (by simpa using halloc)
    simp only [clientNext, sessionExchangeId]
    cases hcase : eidCase st a with
    | fail => exact .idle
    | renew => exact .renew _ _
    | fresh | defer | replace => exact hlink (by simp [eidBase, hcase, unhashOwner])
  | createSession _ seqid _ env => exact sessionCreateSession_effect st _ seqid _ env
  | destroySession => exact .unlink _
  | destroyClient clientid =>
    simp only [clientNext, sessionDestroyClient]
    cases hfind : findClientById st clientid with
    | none => exact .idle
    | some =>
      dsimp only
      split
      · exact .idle
      · exact .drop _ (findClientById_some hfind).1 hfind
  | sequence =>
    simp only [clientNext, sequenceRenew]
    split
    · exact .idle
    · exact .renew _ _
  | reap now => exact .reap now
  | finishExpired _ delOk => exact .finish _ delOk

/-! ## The invariant of every run -/

/-- The records are distinct objects, and every session is listed by the live record that
owns it. -/
structure TableInv (st : SessionTable) : Prop where
  rids : (st.clients.map ClientRec.rid).Nodup
  ridsLt : ∀ c ∈ st.clients, c.rid < st.nextRid
  owned : ∀ s ∈ st.sessions, ∃ c ∈ st.clients, c.rid = s.owner ∧ s.sessionId ∈ c.sessions

namespace TableInv

variable {st t : SessionTable}

variable {c : ClientRec}

section

variable (h : TableInv st)

include h

theorem eq_of_rid {d} (hc : c ∈ st.clients) (hd : d ∈ st.clients) (heq : c.rid = d.rid) : c = d :=
  inj_on_of_nodup_map h.rids hc hd heq

theorem remove {p} (hclients : t.clients = st.clients.filter p) (hrid : t.nextRid = st.nextRid)
    (hsub : ∀ s ∈ t.sessions, s ∈ st.sessions)
    (hgone : ∀ s ∈ t.sessions, ∀ c ∈ st.clients, p c = false → s.sessionId ∉ c.sessions) :
    TableInv t where
  rids := by
    rw [hclients]
    exact h.rids.sublist (filter_sublist.map _)
  ridsLt := by
    intro c hc
    rw [hrid]
    exact h.ridsLt c (mem_of_mem_filter (hclients ▸ hc))
  owned := by
    intro s hs
    obtain ⟨c, hc, howner, hlist⟩ := h.owned s (hsub s hs)
    refine ⟨c, ?_, howner, hlist⟩
    rw [hclients, mem_filter]
    refine ⟨hc, ?_⟩
    by_contra hp
    exact hgone s hs c hc (by simpa using hp) hlist

theorem write {rid : ℕ} {f : ClientRec → ClientRec}
    (hclients : t.clients = (st.write rid f).clients) (hrid : t.nextRid = st.nextRid)
    (hf : ∀ c, (f c).rid = c.rid) (hsub : ∀ s ∈ t.sessions, s ∈ st.sessions)
    (hlist : ∀ s ∈ t.sessions, ∀ c, s.sessionId ∈ c.sessions → s.sessionId ∈ (f c).sessions) :
    TableInv t where
  rids := by
    rw [hclients, st.map_write rid f hf]
    exact h.rids
  ridsLt := by
    intro c hc
    rw [hclients, st.mem_write rid f] at hc
    obtain ⟨x, hx, rfl⟩ := hc
    rw [hrid]
    have hxlt := h.ridsLt x hx
    split
    · rwa [hf]
    · exact hxlt
  owned := by
    intro s hs
    obtain ⟨c, hc, howner, hin⟩ := h.owned s (hsub s hs)
    refine ⟨if c.rid == rid then f c else c, ?_, ?_, ?_⟩
    · rw [hclients, st.mem_write rid f]
      exact ⟨c, hc, rfl⟩
    · split
      · rw [hf, howner]
      · exact howner
    · split
      · exact hlist s hs c hin
      · exact hin

theorem congr (hclients : t.clients = st.clients) (hsessions : t.sessions = st.sessions)
    (hrid : t.nextRid = st.nextRid) : TableInv t :=
  h.remove (p := fun _ => true) (by simp [hclients]) hrid (fun s hs => hsessions ▸ hs)
    (fun _ _ _ _ hp => by simp at hp)

theorem dropClient (hc : c ∈ st.clients) (delOk : Bool) : TableInv (dropClient st c delOk) := by
  refine h.remove (p := fun x => x.rid != c.rid) rfl rfl
    (fun s hs => mem_of_mem_filter hs) ?_
  intro s hs x hx hp
  obtain rfl : x = c := h.eq_of_rid hx hc (by simpa using hp)
  simpa using (mem_filter.mp hs).2

theorem leaseReaper (now : ℕ) : TableInv (leaseReaper st now) := by
  refine h.remove (p := fun c => !reaperExpired st now c) rfl rfl
    (fun s hs => mem_of_mem_filter hs) ?_
  intro s hs c hc hp hin
  have hkeep := (List.mem_filter.mp hs).2
  simp only [Bool.not_eq_true', List.any_eq_false] at hkeep
  refine hkeep c (List.mem_filter.mpr ⟨hc, by simpa using hp⟩) ?_
  simpa using hin

theorem linkClient (a : EidArgs) (env : EidEnv) (superseded : Clientid) :
    TableInv (linkClient st a env superseded) where
  rids := by
    refine nodup_cons.mpr ⟨?_, h.rids⟩
    intro hmem
    obtain ⟨c, hc, heq⟩ := mem_map.mp hmem
    have hlt := h.ridsLt c hc
    simp only [newClient] at heq
    omega
  ridsLt := forall_mem_cons.mpr
    ⟨Nat.lt_succ_self _, fun c hc => Nat.lt_succ_of_lt (h.ridsLt c hc)⟩
  owned := by
    intro s hs
    obtain ⟨c, hc, hrest⟩ := h.owned s hs
    exact ⟨c, mem_cons_of_mem _ hc, hrest⟩

theorem unhashOwner (c : ClientRec) : TableInv (unhashOwner st c) :=
  h.write rfl rfl (fun _ => rfl) (fun _ hs => hs) (fun _ _ _ hin => hin)

theorem eidBase {a env superseded} (hbase : eidBase st a env = some (t, superseded)) :
    TableInv t := by
  rcases eidBase_cases hbase with ⟨rfl, -, -⟩ | ⟨c, -, -, rfl, -⟩ | ⟨c, hfind, rfl, -⟩
  · exact h
  · exact h.unhashOwner c
  · exact h.dropClient (findClientByOwner_some hfind).1 _

theorem sessionDestroySession (sessionId : ℕ) : TableInv (sessionDestroySession st sessionId) := by
  unfold PnfsLattice.sessionDestroySession
  split
  · exact h
  split
  · refine h.write rfl rfl (fun _ => rfl) (fun _ hs => mem_of_mem_filter hs) ?_
    intro s hs c hin
    have hne : s.sessionId ≠ sessionId := by simpa using (mem_filter.mp hs).2
    exact (mem_erase_of_ne hne).mpr hin
  · exact h.remove (p := fun _ => true) (by simp) rfl
      (fun _ hs => mem_of_mem_filter hs) (fun _ _ _ _ hp => by simp at hp)

theorem linkSession (hc : c ∈ st.clients) (now : ℕ) : TableInv (linkSession st c now) := by
  have hw : TableInv (st.write c.rid (confirmRec st.nextSessionSeq now)) :=
    h.write rfl rfl (fun _ => rfl) (fun _ hs => hs)
      (fun _ _ _ hin => mem_cons_of_mem _ hin)
  refine ⟨hw.rids, hw.ridsLt, fun s hs => ?_⟩
  rcases mem_cons.mp hs with rfl | hs'
  · exact ⟨confirmRec _ now c, (st.mem_write _ _).mpr ⟨c, hc, by simp⟩, rfl, mem_cons_self⟩
  · exact hw.owned s hs'

theorem destroySuperseded (clientid : Clientid) (delOk : Bool) :
    TableInv (destroySuperseded st clientid delOk) := by
  unfold PnfsLattice.destroySuperseded
  split
  · exact h
  · split
    · next hfind => exact h.dropClient (findClientById_some hfind).1 delOk
    · exact h

theorem confirmClient (hc : c ∈ st.clients) (env : CsEnv) : TableInv (confirmClient st c env) := by
  have h' := (h.linkSession hc env.now).destroySuperseded c.supersededClientid env.delOk
  exact h'.write rfl rfl (fun _ => rfl) (fun _ hs => hs) (fun _ _ _ hin => hin)

end

end TableInv

theorem mem_unhashOwner (h : TableInv st) {x} (hc : c ∈ st.clients) :
    x ∈ (unhashOwner st c).clients ↔
      x = { c with ownerHashed := false } ∨ (x ∈ st.clients ∧ x.rid ≠ c.rid) := by
  rw [unhashOwner, st.mem_write]
  constructor
  · rintro ⟨y, hy, rfl⟩
    by_cases heq : y.rid = c.rid
    · obtain rfl := h.eq_of_rid hy hc heq
      exact .inl (by simp)
    · exact .inr (by simp [heq, hy])
  · rintro (rfl | ⟨hx, hne⟩)
    · exact ⟨c, hc, by simp⟩
    · exact ⟨x, hx, by simp [hne]⟩

/-- The record that the confirmation of one which supersedes `clientid` destroys. -/
def supersededRid (st : SessionTable) (clientid : Clientid) : Option ℕ :=
  if clientid = 0 then none else (findClientById st clientid).map ClientRec.rid

theorem destroySuperseded_clients (st : SessionTable) (clientid : Clientid) (delOk : Bool) :
    (destroySuperseded st clientid delOk).clients =
      st.clients.filter fun x => supersededRid st clientid ≠ some x.rid := by
  unfold destroySuperseded supersededRid
  by_cases hzero : clientid = 0
  · simp [hzero]
  rw [if_neg hzero, if_neg hzero]
  cases hfind : findClientById st clientid with
  | none => simp
  | some old =>
    refine filter_congr fun x _ => ?_
    by_cases hx : x.rid = old.rid
    · simp [bne, hx]
    · simp [bne, hx, Ne.symm hx]

theorem supersededRid_write (st : SessionTable) (clientid : Clientid) (rid : ℕ) {f}
    (hid : ∀ c, (f c).clientid = c.clientid) (hrid : ∀ c, (f c).rid = c.rid) :
    supersededRid (st.write rid f) clientid = supersededRid st clientid := by
  have hcomp : ((fun c : ClientRec => c.clientid == clientid) ∘
      fun c => if c.rid == rid then f c else c) = fun c => c.clientid == clientid := by
    funext c
    simp only [comp_apply]
    split
    · rw [hid]
    · rfl
  have hmap : (ClientRec.rid ∘ fun c => if c.rid == rid then f c else c) = ClientRec.rid := by
    funext c
    simp only [comp_apply]
    split
    · rw [hrid]
    · rfl
  unfold supersededRid findClientById
  rw [SessionTable.write_clients, List.find?_map, Option.map_map, hcomp, hmap]

theorem confirmClient_clients (st : SessionTable) (c : ClientRec) (env : CsEnv) :
    (confirmClient st c env).clients =
      (st.clients.filter fun x => supersededRid st c.supersededClientid ≠ some x.rid).map
        fun x => if x.rid == c.rid then
          settleRec st.nextSessionSeq (confirmRec st.nextSessionSeq env.now x) else x := by
  have hsup : supersededRid (linkSession st c env.now) c.supersededClientid =
      supersededRid st c.supersededClientid :=
    supersededRid_write st _ c.rid (fun _ => rfl) (fun _ => rfl)
  simp only [confirmClient, SessionTable.write_clients, destroySuperseded_clients, hsup]
  simp only [linkSession, SessionTable.write_clients, List.filter_map, List.map_map]
  have hkeep : (st.clients.filter ((fun x : ClientRec =>
      decide (supersededRid st c.supersededClientid ≠ some x.rid)) ∘ fun x =>
        if x.rid == c.rid then confirmRec st.nextSessionSeq env.now x else x)) =
      st.clients.filter fun x => supersededRid st c.supersededClientid ≠ some x.rid := by
    refine filter_congr fun x _ => ?_
    simp only [comp_apply]
    split <;> rfl
  rw [hkeep]
  refine List.map_congr_left fun x _ => ?_
  simp only [comp_apply]
  by_cases hx : x.rid == c.rid
  · rw [if_pos hx, if_pos (show ((confirmRec _ _ x).rid == c.rid) = true from hx), if_pos hx]
  · rw [if_neg hx, if_neg hx, if_neg hx]

theorem tableInv_clientStep (h : TableInv st) (hstep : clientStep st op = some t) : TableInv t := by
  cases clientStep_effect hstep with
  | idle => exact h
  | renew => exact h.write rfl rfl (fun _ => rfl) (fun _ hs => hs) (fun _ _ _ hin => hin)
  | refused hbase => exact h.eidBase hbase
  | link hbase => exact (h.eidBase hbase).linkClient _ _ _
  | drop delOk hc => exact h.dropClient hc delOk
  | confirm hc => exact h.confirmClient hc _
  | unlink => exact h.sessionDestroySession _
  | reap now => exact h.leaseReaper now
  | finish => exact h.congr rfl rfl rfl

theorem tableInv_of_reachable {ok} (h : Reachable ClientInit clientStep ok st) : TableInv st := by
  refine h.invariant ?_ fun s a t hs _ hstep => tableInv_clientStep hs hstep
  rintro s ⟨_, _, _, _, _, _, -, rfl⟩
  exact ⟨nodup_nil, by simp [sessionTableInit], by simp [sessionTableInit]⟩

end PnfsLattice
