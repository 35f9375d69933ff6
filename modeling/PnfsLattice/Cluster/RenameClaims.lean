import PnfsLattice.Cluster.Rename2pc
import PnfsLattice.Lib.Jobs

/-!
# What an unfinished rename relies on

A cross-shard rename frees its source name and binds its destination long after it has looked
at them. Until then it claims the two names for the file it moves.
-/

namespace PnfsLattice

open Lib

/-! ## The property -/

/-- The transaction has no row. -/
def R2pcSys.settled (s : R2pcSys) (id : ℕ) : Prop := ∀ r ∈ s.journal, r.txnId ≠ id

/-- A rename that is settled and that no other operation has touched has the file under
exactly one of its names. -/
def ExactlyOneName (s : R2pcSys) : Prop :=
  ∀ b ∈ s.begun, b.left = false → s.settled b.txn.id →
    s.cat.names b.txn.src b.txn.child = !s.cat.names b.txn.dst b.txn.child

/-- The file whose name a job's next call takes away or sets. -/
def R2pcJob.moved : R2pcJob → Option CatFileid
  | .cleanupDel t _ => some t.child
  | .commitDirent r _ => some r.srcChildFileid
  | _ => none

/-- A step of the protocol takes no name from a file other than the one its job moves. -/
def RemovesOnlyMoved (s : R2pcSys) (op : R2pcOp) (t : R2pcSys) : Prop :=
  match op with
  | .call _ _ => True
  | .job j _ => ∀ k f, s.cat.binding k = some f → t.cat.binding k ≠ some f →
      ∃ job, s.jobs[j]? = some job ∧ job.moved = some f
  | _ => t.cat = s.cat

/-! ## The condition -/

/-- The source names of committed renames. -/
def rowClaims (rows : List JournalRec) : List (NameKey × CatFileid) :=
  (rows.filter fun r => r.role = .coordinator ∧ r.state = .committed).map
    fun r => (r.src, r.srcChildFileid)

/-- The names that a job may yet free or bind, and the file it takes them to be of. A commit
claims its destination from the time it has found the name free. -/
def R2pcJob.claims : R2pcJob → List (NameKey × CatFileid)
  | .childGetattr src _ child | .allocTxn src _ child => [(src, child)]
  | .putPrepared t | .awaitVote t | .putCommitted t => [(t.src, t.child)]
  | .awaitCommit t rest | .cleanupDel t rest => (t.src, t.child) :: rowClaims rest
  | .cleanupGetattr _ rest | .cleanupPut _ _ rest | .delCommitted _ rest => rowClaims rest
  | .commitGetattr r | .commitInode r _ | .commitDirent r _ => [(r.dst, r.srcChildFileid)]
  | .recover rows => rowClaims rows
  | .destMatches r rest => rowClaims (r :: rest)
  | .recoverDel _ rest => rowClaims rest
  | _ => []

/-- The claims of all jobs and of the committed rows. -/
def R2pcSys.claims (s : R2pcSys) : List (NameKey × CatFileid) :=
  s.jobs.flatMap R2pcJob.claims ++ rowClaims s.journal

/-- No unfinished rename claims the name for another file. -/
def R2pcSys.mayBind (s : R2pcSys) (k : NameKey) (f : CatFileid) : Prop :=
  ∀ c ∈ s.claims, c.1 = k → c.2 = f
deriving Decidable

/-- The name that a job's next call binds. -/
def R2pcJob.binds : R2pcJob → Option (NameKey × CatFileid)
  | .commitDirent r _ => some (r.dst, r.srcChildFileid)
  | _ => none

/-- The transaction whose coordinator row recovery deletes. -/
def R2pcJob.purges : R2pcJob → Option ℕ
  | .recoverDel r _ => if r.role = .coordinator then some r.txnId else none
  | _ => none

/-- The condition on a job's step. -/
def R2pcJob.respects (s : R2pcSys) (job : R2pcJob) : Prop :=
  (∀ new ∈ job.binds, s.mayBind new.1 new.2) ∧
    ∀ id ∈ job.purges, ∀ r ∈ s.journal, r.key = (id, .coordinator) → r.state ≠ .committed
deriving Decidable

/-- No name is bound under an unfinished rename of another file, and recovery deletes no row
that is committed. -/
def RespectsClaims (s : R2pcSys) : R2pcOp → Prop
  | .call _ c => ∀ new ∈ c.binds s.cat, s.mayBind new.1 new.2
  | .job j _ => ∀ job ∈ s.jobs[j]?, job.respects s
  | _ => True

instance (s : R2pcSys) (op : R2pcOp) : Decidable (RespectsClaims s op) := by
  cases op <;> unfold RespectsClaims <;> infer_instance

/-! ## The invariant -/

/-- The transaction is known and this is true of it. -/
def Tells (begun : List Begun) (id : ℕ) (P : Begun → Prop) : Prop :=
  (∃ b ∈ begun, b.txn.id = id) ∧ ∀ b ∈ begun, b.txn.id = id → P b

/-- The destination name has the file, unless another operation took it. -/
def Landed (m : Memdb) (b : Begun) : Prop :=
  b.left = false → m.names b.txn.dst b.txn.child = true

/-- The source name no longer has the file, unless another operation gave it back. -/
def SourceGone (m : Memdb) (b : Begun) : Prop :=
  b.left = false → m.names b.txn.src b.txn.child = false

/-- A record is one of its transaction, and a commit record one of a decided transaction. -/
def RowOk (begun : List Begun) (r : JournalRec) : Prop :=
  match r.role with
  | .coordinator =>
    Tells begun r.txnId fun b => b.txn = r.txn ∧ (r.state = .committed → b.decided = true)
  | .participant => Tells begun r.txnId fun b => b.txn.dst = r.dst ∧ b.txn.child = r.srcChildFileid

/-- What a job knows. -/
def JobOk (m : Memdb) (begun : List Begun) : R2pcJob → Prop
  | .sourceGet _ _ | .childGetattr _ _ _ | .allocTxn _ _ _ | .putPrepared _ => True
  | .awaitVote t | .putCommitted t | .putAborted t _ => Tells begun t.id fun b => b.txn = t
  | .delAborted _ => True
  | .awaitCommit t rest =>
    Tells begun t.id (fun b => b.txn = t ∧ b.decided = true) ∧ ∀ r ∈ rest, RowOk begun r
  | .cleanupDel t rest =>
    Tells begun t.id (fun b => b.txn = t ∧ b.decided = true ∧ Landed m b) ∧
      ∀ r ∈ rest, RowOk begun r
  | .cleanupGetattr t rest | .cleanupPut t _ rest | .delCommitted t rest =>
    Tells begun t.id (fun b => b.txn = t ∧ SourceGone m b) ∧ ∀ r ∈ rest, RowOk begun r
  | .prepareGetattr t | .prepareGet t
  | .preparePut t => Tells begun t.id fun b => b.txn.dst = t.dst ∧ b.txn.child = t.child
  | .commitJournal id => Tells begun id fun b => b.decided = true
  | .commitGet r | .commitGetattr r | .commitInode r _ | .commitDirent r _ =>
    RowOk begun r ∧ r.role = .participant ∧ Tells begun r.txnId fun b => b.decided = true
  | .commitParent r | .commitTouch r _ | .commitDel r => Tells begun r.txnId (Landed m)
  | .abortDel _ => True
  | .recover rows => ∀ r ∈ rows, RowOk begun r
  | .destMatches r rest => (r.role = .coordinator → r.state = .committed) ∧
      ∀ q ∈ r :: rest, RowOk begun q
  | .recoverDel _ rest => ∀ r ∈ rest, RowOk begun r
  | .returned => True

/-- The transaction of a coordinator that has not decided yet, or against. -/
def R2pcJob.undecided : R2pcJob → Option ℕ
  | .putPrepared t | .awaitVote t | .putCommitted t | .putAborted t _ | .delAborted t => some t.id
  | _ => none

/-- The file has one of the names, the destination only after the decision, and from then on
the commit is on record until the source name is gone. -/
structure TxnOk (m : Memdb) (journal : List JournalRec) (b : Begun) : Prop where
  apart : b.txn.src ≠ b.txn.dst
  named : m.names b.txn.src b.txn.child = true ∨ m.names b.txn.dst b.txn.child = true
  decided : m.names b.txn.dst b.txn.child = true → b.decided = true
  recorded : b.decided = true →
    (∃ r ∈ journal, r.key = (b.txn.id, .coordinator) ∧ r.state = .committed) ∨
      m.names b.txn.src b.txn.child = false

/-- A claimed name is free or has the file of the claim. -/
def ClaimOk (m : Memdb) (c : NameKey × CatFileid) : Prop :=
  ∀ f, m.binding c.1 = some f → f = c.2

/-- What a job may be. -/
structure JobFits (cat : Memdb) (begun : List Begun) (job : R2pcJob) : Prop where
  ok : JobOk cat begun job
  claims : ∀ c ∈ job.claims, ClaimOk cat c
  undecided : ∀ id, job.undecided = some id →
    id < cat.nextFileid ∧ ∀ b ∈ begun, b.txn.id = id → b.decided = false
  unbegun : ∀ t, job = .putPrepared t → ∀ b ∈ begun, b.txn.id ≠ t.id

/-- The invariant of the renames. -/
structure R2pcInv (s : R2pcSys) : Prop where
  jobs : ∀ job ∈ s.jobs, JobFits s.cat s.begun job
  sole : SoleClaims s.jobs R2pcJob.undecided
  rows : ∀ r ∈ s.journal, RowOk s.begun r
  claimed : ∀ c ∈ rowClaims s.journal, ClaimOk s.cat c
  prepares : ∀ t ∈ s.prepares, Tells s.begun t.id fun b => b.txn.dst = t.dst ∧ b.txn.child = t.child
  commits : ∀ id ∈ s.commits, Tells s.begun id fun b => b.decided = true
  acks : ∀ id ∈ s.acks, Tells s.begun id (Landed s.cat)
  txns : ∀ b ∈ s.begun, b.left = false → TxnOk s.cat s.journal b
  below : ∀ b ∈ s.begun, b.txn.id < s.cat.nextFileid

/-! ## What stays true of a transaction -/

/-- The transaction as it is later: what it has reached it keeps, as long as no other
operation touches its names. -/
structure Aged (m m' : Memdb) (b b' : Begun) : Prop where
  txn : b'.txn = b.txn
  left : b'.left = false → b.left = false
  decided : b.decided = true → b'.decided = true
  dst : b'.left = false → m.names b.txn.dst b.txn.child = true →
    m'.names b.txn.dst b.txn.child = true
  src : b'.left = false → m.names b.txn.src b.txn.child = false →
    m'.names b.txn.src b.txn.child = false

/-- All transactions, later; those that are new have a new number. -/
structure Ages (m m' : Memdb) (begun begun' : List Begun) : Prop where
  kept : ∀ b ∈ begun, ∃ b' ∈ begun', Aged m m' b b'
  old : ∀ b' ∈ begun', (∃ b ∈ begun, Aged m m' b b') ∨ ∀ b ∈ begun, b.txn.id ≠ b'.txn.id

section Ages

variable {m m' : Memdb} {begun begun' : List Begun} {P P' : Begun → Prop} {id : ℕ}

theorem Tells.imp (h : Tells begun id P) (hP : ∀ b, P b → P' b) : Tells begun id P' :=
  ⟨h.1, fun b hb hid => hP b (h.2 b hb hid)⟩

theorem Tells.and (h : Tells begun id P) (h' : Tells begun id P') :
    Tells begun id fun b => P b ∧ P' b :=
  ⟨h.1, fun b hb hid => ⟨h.2 b hb hid, h'.2 b hb hid⟩⟩

theorem Tells.ages (h : Tells begun id P) (ha : Ages m m' begun begun')
    (hP : ∀ b b', Aged m m' b b' → P b → P' b') : Tells begun' id P' := by
  obtain ⟨⟨b, hb, hid⟩, hall⟩ := h
  constructor
  · obtain ⟨b', hb', hage⟩ := ha.kept b hb
    exact ⟨b', hb', (congrArg _ hage.txn).trans hid⟩
  · intro b' hb' hid'
    rcases ha.old b' hb' with ⟨b₀, hb₀, hage⟩ | hnew
    · exact hP b₀ b' hage (hall b₀ hb₀ ((congrArg _ hage.txn).symm.trans hid'))
    · exact absurd (hid.trans hid'.symm) (hnew b hb)

theorem Ages.map {g : Begun → Begun} (h : ∀ b ∈ begun, Aged m m' b (g b)) :
    Ages m m' begun (begun.map g) :=
  ⟨fun b hb => ⟨_, List.mem_map_of_mem hb, h b hb⟩,
    List.forall_mem_map.mpr fun b hb => .inl ⟨b, hb, h b hb⟩⟩

variable {b b' : Begun}

theorem Aged.landed (h : Aged m m' b b') (hl : Landed m b) : Landed m' b' := by
  intro hleft
  rw [h.txn]
  exact h.dst hleft (hl (h.left hleft))

theorem Aged.gone (h : Aged m m' b b') (hg : SourceGone m b) : SourceGone m' b' := by
  intro hleft
  rw [h.txn]
  exact h.src hleft (hg (h.left hleft))

theorem RowOk.ages {r} (h : RowOk begun r) (ha : Ages m m' begun begun') : RowOk begun' r := by
  unfold RowOk at h ⊢
  split at h
  · exact h.ages ha fun b _ hb h => ⟨hb.txn.trans h.1, fun hst => hb.decided (h.2 hst)⟩
  · refine h.ages ha fun b _ hb h => ?_
    rw [hb.txn]
    exact h

theorem JobOk.ages {job} (h : JobOk m begun job) (ha : Ages m m' begun begun') :
    JobOk m' begun' job := by
  have htxn : ∀ {t : RenameTxn}, Tells begun t.id (fun b => b.txn = t) →
      Tells begun' t.id fun b => b.txn = t :=
    fun h => h.ages ha fun b _ hb h => hb.txn.trans h
  have hdst : ∀ {t : RenameTxn},
      Tells begun t.id (fun b => b.txn.dst = t.dst ∧ b.txn.child = t.child) →
      Tells begun' t.id fun b => b.txn.dst = t.dst ∧ b.txn.child = t.child := by
    intro t h
    refine h.ages ha fun b b' hb h => ?_
    rw [hb.txn]
    exact h
  have hdecided : ∀ {id : ℕ}, Tells begun id (fun b => b.decided = true) →
      Tells begun' id fun b => b.decided = true :=
    fun h => h.ages ha fun b _ hb h => hb.decided h
  have hlanded : ∀ {id : ℕ}, Tells begun id (Landed m) → Tells begun' id (Landed m') :=
    fun h => h.ages ha fun b _ hb h => hb.landed h
  have hgone : ∀ {t : RenameTxn}, Tells begun t.id (fun b => b.txn = t ∧ SourceGone m b) →
      Tells begun' t.id fun b => b.txn = t ∧ SourceGone m' b :=
    fun h => h.ages ha fun b _ hb h => ⟨hb.txn.trans h.1, hb.gone h.2⟩
  have hrows : ∀ {rows : List JournalRec}, (∀ r ∈ rows, RowOk begun r) →
      ∀ r ∈ rows, RowOk begun' r := fun h r hr => (h r hr).ages ha
  cases job with
  | sourceGet | childGetattr | allocTxn | putPrepared | delAborted
  | abortDel | returned => trivial
  | awaitVote | putCommitted | putAborted => exact htxn h
  | awaitCommit => exact ⟨h.1.ages ha fun b _ hb h => ⟨hb.txn.trans h.1, hb.decided h.2⟩, hrows h.2⟩
  | cleanupDel =>
    exact ⟨h.1.ages ha fun b _ hb h => ⟨hb.txn.trans h.1, hb.decided h.2.1, hb.landed h.2.2⟩,
      hrows h.2⟩
  | cleanupGetattr | cleanupPut | delCommitted => exact ⟨hgone h.1, hrows h.2⟩
  | prepareGetattr | prepareGet | preparePut => exact hdst h
  | commitJournal => exact hdecided h
  | commitGet | commitGetattr | commitInode | commitDirent =>
    exact ⟨h.1.ages ha, h.2.1, hdecided h.2.2⟩
  | commitParent | commitTouch | commitDel => exact hlanded h
  | recover => exact hrows h
  | destMatches => exact ⟨h.1, hrows h.2⟩
  | recoverDel => exact hrows h

end Ages

end PnfsLattice
