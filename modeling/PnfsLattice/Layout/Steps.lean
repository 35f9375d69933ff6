import PnfsLattice.Layout.System

/-!
# What a step of the layout machine can do

Every step of `layoutStep` is one of the moves below, stated once here; the results about
runs go through the moves and never unfold the machine again.
-/

namespace PnfsLattice

open Lib

/-- The request of a LAYOUTGET that has picked a stateid, and the stateid; the seqid is
issued and not yet handed out or dropped. -/
def LayoutJob.picked : LayoutJob → Option (GetReq × Stateid)
  | .record r _ sid | .persist r _ sid => some (r, sid)
  | _ => none

/-- The places of a job before the pick, where a failure has nothing to undo. -/
def LayoutJob.early : LayoutJob → Bool
  | .scan .. | .recalling [] _ | .lease .. => true
  | _ => false

/-- The steps of a job that only change where it stands. -/
inductive Goes (s : LayoutSys) : LayoutJob → LayoutJob → Prop
  | stop {job} (h : job.early = true) : Goes s job .done
  | scan {r renewal} :
      Goes s (.scan r renewal) (.recalling (layoutRecallByteRange s.rows s.tracker r.fileid
        r.clientid .rw r.plan.offset r.plan.leaseLength) (some (r, renewal)))
  | unscanned {r renewal} : Goes s (.scan r renewal) (.lease r renewal)
  | resume {r renewal} : Goes s (.recalling [] (some (r, renewal))) (.lease r renewal)
  | lease {r renewal plan} : Goes s (.lease r renewal) (.advance { r with plan } renewal)
  | fresh {r renewal} (h : r.sid.seqid = 0) : Goes s (.advance r renewal) (.make r renewal)
  | miss {r renewal} (h : layoutSeqidPeek s.tracker r.sid.other = none) :
      Goes s (.advance r renewal) (.probe r renewal)
  | unknown {r renewal} : Goes s (.probe r renewal) (.make r renewal)

/-- The steps of job `j`. -/
inductive JobMove (cfg : LayoutCfg) (s : LayoutSys) (j : ℕ) (env : LayoutEnv) :
    LayoutJob → LayoutSys → Prop
  | goes {job job'} (h : Goes s job job') : JobMove cfg s j env job (s.setJob j job')
  | act {act acts next} :
      JobMove cfg s j env (.recalling (act :: acts) next)
        ((recallStep s j env acts act).1.setJob j (.recalling (recallStep s j env acts act).2 next))
  | advance {r renewal seqid tracker} (hsid : r.sid.seqid ≠ 0)
      (h : layoutSeqidAdvance s.tracker r.sid.other = some (seqid, tracker)) :
      JobMove cfg s j env (.advance r renewal)
        (({ s with tracker }.issue j r { seqid, other := r.sid.other }).setJob j
          (.persist r renewal { seqid, other := r.sid.other }))
  | probe {r renewal row} (h : memLayoutGetByStateid s.rows r.sid.other = some row)
      (hfile : row.fileid = r.fileid) :
      JobMove cfg s j env (.probe r renewal)
        ((s.issue j r { seqid := bumpSeqid row.stateid.seqid, other := r.sid.other }).setJob j
          (.record r renewal { seqid := bumpSeqid row.stateid.seqid, other := r.sid.other }))
  | record {r renewal sid} :
      JobMove cfg s j env (.record r renewal sid)
        ({ s with tracker := layoutSeqidRecordNew env.alloc s.tracker sid.other }.setJob j
          (.persist r renewal sid))
  | make {r renewal other} (h : other = { mdsId := cfg.mdsId, tail := s.counter }) :
      JobMove cfg s j env (.make r renewal)
        (({ s with
            counter := s.counter + 1
            tracker := layoutSeqidRecordNew env.alloc s.tracker other }.issue j r
              { seqid := 1, other }).setJob j (.persist r renewal { seqid := 1, other }))
  | unlisted {r renewal sid} (h : env.outcome = .unlisted) :
      JobMove cfg s j env (.persist r renewal sid)
        ({ s with issued := settle j .dropped s.issued }.setJob j .done)
  | granted {r renewal sid rows} (h : env.outcome = .granted)
      (hrows : layoutPersistGrant s.rows renewal (r.row sid env.dsIds) = .ok rows) :
      JobMove cfg s j env (.persist r renewal sid)
        ({ s with
            rows
            issued := settle j .handed s.issued
            held := r.window sid :: s.held }.setJob j .done)
  | failed {r renewal sid rows job'} (hne : env.outcome ≠ .unlisted ∧ env.outcome ≠ .granted)
      (hrows : layoutPersistGrant s.rows renewal (r.row sid env.dsIds) = .ok rows)
      (hjob : job' = .undo r sid ∨ job' = .done) :
      JobMove cfg s j env (.persist r renewal sid)
        ({ s with rows, issued := settle j .dropped s.issued }.setJob j job')
  | undo {r sid} :
      JobMove cfg s j env (.undo r sid)
        ({ s with rows := layoutReturned s.rows sid.other r.fileid }.setJob j .done)

variable {cfg : LayoutCfg} {t : LayoutSys} {r : LayoutRow}

theorem jobMove_of_step {s j env job} (h : layoutJobStep cfg s j env job = some t) :
    JobMove cfg s j env job t := by
  cases job <;> simp only [layoutJobStep] at h
  case scan r renewal =>
    split at h
    · cases h
      exact .goes (.stop rfl)
    · split at h <;> cases h
      · exact .goes .scan
      · exact .goes .unscanned
  case recalling acts next =>
    cases acts with
    | nil =>
      cases next with
      | none =>
        cases h
        exact .goes (.stop rfl)
      | some =>
        cases h
        exact .goes .resume
    | cons =>
      cases h
      exact .act
  case lease r renewal =>
    split at h
    · cases h
      exact .goes (.stop rfl)
    split at h
    · cases h
      exact .goes (@Goes.lease s r _ r.plan)
    · split at h <;> cases h
      · exact .goes (.stop rfl)
      · exact .goes .lease
  case advance r renewal =>
    by_cases hsid : r.sid.seqid = 0
    · rw [if_pos hsid] at h
      cases h
      exact .goes (.fresh hsid)
    · rw [if_neg hsid] at h
      split at h
      · next hadv =>
          cases h
          exact .advance hsid hadv
      · next hadv =>
          cases h
          exact .goes (.miss (layoutSeqidAdvance_eq_none.mp hadv))
  case probe r renewal =>
    split at h
    · next row hget =>
        by_cases hfile : row.fileid = r.fileid
        · rw [if_pos hfile] at h
          cases h
          exact .probe hget hfile
        · rw [if_neg hfile] at h
          cases h
          exact .goes .unknown
    · cases h
      exact .goes .unknown
  case record r renewal sid =>
    cases h
    exact .record
  case make r renewal =>
    cases h
    exact .make rfl
  case persist r renewal sid =>
    by_cases hout : env.outcome = .unlisted
    · rw [if_pos hout] at h
      cases h
      exact .unlisted hout
    · rw [if_neg hout] at h
      split at h
      · cases h
      · next hrows =>
          by_cases hg : env.outcome = .granted
          · rw [if_pos hg] at h
            cases h
            exact .granted hg hrows
          · rw [if_neg hg] at h
            cases h
            refine .failed ⟨hout, hg⟩ hrows ?_
            by_cases hrev : env.outcome = .revoked
            · exact .inl (if_pos hrev)
            · exact .inr (if_neg hrev)
  case undo r sid =>
    cases h
    exact .undo
  case done => cases h

/-! ## The machine -/

/-- A LAYOUTRETURN of a file that passes its checks. -/
def ReturnAccepted (tracker : SeqidTable) (sid : Stateid) (layoutType : UInt32)
    (returnType : ReturnType) : Prop :=
  (layoutType = layout4Nfsv41Files ∨ layoutType = layout4FlexFiles) ∧ returnType = .file ∧
    layoutreturnCheck tracker sid = .ok ()
deriving Decidable

/-- The operations that may leave the state as it is. -/
def Quiet (s : LayoutSys) : LayoutOp → Prop
  | .layoutget .. | .layoutcommit .. => True
  | .layoutreturn _ _ sid layoutType returnType =>
    ¬ ReturnAccepted s.tracker sid layoutType returnType
  | _ => False

inductive Starts (s : LayoutSys) : LayoutOp → LayoutJob → Prop
  | layoutget {clientid fileid sid a inode plan renewal} :
      Starts s (.layoutget clientid fileid sid a inode)
        (.scan { clientid, fileid, sid, plan } renewal)
  | resize {clientid fileid} :
      Starts s (.resize clientid fileid)
        (.recalling (layoutRecallByteRange s.rows s.tracker fileid clientid .rw 0 uint64MaxNat)
          none)
  | unlink {fileid} :
      Starts s (.unlink fileid) (.recalling (layoutRecallUnlink s.rows s.tracker fileid) none)
  | dsLost {dsId} : Starts s (.dsLost dsId) (.recalling (layoutRecallForDs s.rows dsId) none)

variable (s : LayoutSys) (clientid : Clientid) (fileid : Fileid)

/-- The state after a LAYOUTRETURN that is accepted. -/
def LayoutSys.returned (other : Other) : LayoutSys :=
  { s with
    rows := layoutReturned s.rows other fileid
    tracker := layoutSeqidRemove s.tracker other
    held := s.held.filter fun w => ¬ (w.clientid = clientid ∧ w.other = other) }

/-- The steps of the machine. -/
inductive LayoutMove (cfg : LayoutCfg) (s : LayoutSys) : LayoutOp → LayoutSys → Prop
  | quiet {op} (h : Quiet s op) : LayoutMove cfg s op s
  | start {op job} (h : Starts s op job) : LayoutMove cfg s op { s with jobs := s.jobs ++ [job] }
  | job {j env job t} (hj : s.jobs[j]? = some job) (h : JobMove cfg s j env job t) :
      LayoutMove cfg s (.job j env) t
  | layoutreturn {clientid fileid sid layoutType returnType}
      (h : ReturnAccepted s.tracker sid layoutType returnType) :
      LayoutMove cfg s (.layoutreturn clientid fileid sid layoutType returnType)
        (s.returned clientid fileid sid.other)
  | restart {seed} (h : s.counter ≤ seed) :
      LayoutMove cfg s (.restart seed)
        { s with tracker := [], counter := seed, jobs := [], issued := dropPending s.issued }

theorem opLayoutreturn_eq (sid : Stateid) (layoutType : UInt32) (returnType : ReturnType) :
    (ReturnAccepted s.tracker sid layoutType returnType ∧
      opLayoutreturn s clientid fileid sid layoutType returnType =
        .ok (s.returned clientid fileid sid.other)) ∨
    (¬ ReturnAccepted s.tracker sid layoutType returnType ∧
      (opLayoutreturn s clientid fileid sid layoutType returnType = .ok s ∨
        ∃ e, opLayoutreturn s clientid fileid sid layoutType returnType = .error e)) := by
  rw [opLayoutreturn]
  by_cases htype : layoutType ≠ layout4Nfsv41Files ∧ layoutType ≠ layout4FlexFiles
  · rw [if_pos htype]
    refine .inr ⟨fun h => ?_, .inr ⟨_, rfl⟩⟩
    exact h.1.elim htype.1 htype.2
  · rw [if_neg htype]
    by_cases hfile : returnType = .file
    · rw [if_pos hfile]
      cases hcheck : layoutreturnCheck s.tracker sid with
      | error e =>
        refine .inr ⟨fun h => ?_, .inr ⟨e, rfl⟩⟩
        cases h.2.2.symm.trans hcheck
      | ok =>
        have hlt : layoutType = layout4Nfsv41Files ∨ layoutType = layout4FlexFiles := by
          by_contra hno
          exact htype ⟨fun h => hno (.inl h), fun h => hno (.inr h)⟩
        exact .inl ⟨⟨hlt, hfile, hcheck⟩, rfl⟩
    · rw [if_neg hfile]
      exact .inr ⟨fun h => hfile h.2.1, .inl rfl⟩

theorem layoutMove_of_step {s op} (h : layoutStep cfg s op = some t) : LayoutMove cfg s op t := by
  cases op with
  | layoutget =>
    simp only [layoutStep] at h
    split at h <;> cases h
    · exact .quiet trivial
    · exact .start .layoutget
  | job =>
    simp only [layoutStep] at h
    split at h
    · cases h
    · next hj => exact .job hj (jobMove_of_step h)
  | layoutreturn _ fileid sid =>
    rw [layoutStep] at h
    rcases opLayoutreturn_eq s _ fileid sid _ _ with
      ⟨hacc, heq⟩ | ⟨hno, heq | ⟨e, heq⟩⟩
    · rw [heq] at h
      cases h
      exact .layoutreturn hacc
    · rw [heq] at h
      cases h
      exact .quiet hno
    · rw [heq] at h
      cases h
      exact .quiet hno
  | layoutcommit =>
    cases h
    exact .quiet trivial
  | resize =>
    cases h
    exact .start .resize
  | unlink =>
    cases h
    exact .start .unlink
  | dsLost =>
    cases h
    exact .start .dsLost
  | restart seed =>
    simp only [layoutStep] at h
    by_cases hseed : s.counter ≤ seed
    · rw [if_pos hseed] at h
      cases h
      exact .restart hseed
    · rw [if_neg hseed] at h
      cases h

/-! ## What a persist writes -/

/-- The row a persist leaves under its key: the new one, or its union with the old one. -/
def persisted (renewal : Bool) (row : LayoutRow) (old : Option LayoutRow) : LayoutRow :=
  if renewal then old.elim row (unionRow row) else row

variable {rows rows' : LayoutTable} {renewal : Bool} {row : LayoutRow}

theorem rowAt_layoutPersistGrant (ht : rows.Unique)
    (h : layoutPersistGrant rows renewal row = .ok rows') : rows'.Unique ∧ ∀ f o, rowAt rows' f o =
      if (f, o) = row.key then some (persisted renewal row (rowAt rows f o))
      else rowAt rows f o := by
  cases renewal with
  | true => exact rowAt_memdbLayoutStore (fun _ hr => hr) ht h
  | false => exact rowAt_memLayoutGrant ht h

theorem persisted_eq (renewal : Bool) {old} (hold : ∀ r, old = some r → r.key = row.key) :
    (persisted renewal row old).clientid = row.clientid ∧
      (persisted renewal row old).key = row.key := by
  cases renewal with
  | false => exact ⟨rfl, rfl⟩
  | true =>
    cases old with
    | none => exact ⟨rfl, rfl⟩
    | some r => exact ⟨rfl, hold r rfl⟩

theorem mem_layoutPersistGrant (ht : rows.Unique)
    (h : layoutPersistGrant rows renewal row = .ok rows') :
    r ∈ used rows' ↔ (r ∈ used rows ∧ r.key ≠ row.key) ∨
      r = persisted renewal row (rowAt rows row.fileid row.stateid.other) := by
  obtain ⟨hu, hat⟩ := rowAt_layoutPersistGrant ht h
  constructor
  · intro hr
    have hfind := rowAt_of_mem hu hr
    rw [hat] at hfind
    by_cases hk : (r.fileid, r.stateid.other) = row.key
    · rw [if_pos hk] at hfind
      obtain ⟨hf, ho⟩ := Prod.mk.inj hk
      rw [hf, ho] at hfind
      exact .inr (Option.some.inj hfind).symm
    · rw [if_neg hk] at hfind
      exact .inl ⟨mem_of_rowAt hfind, hk⟩
  · rintro (⟨hr, hk⟩ | rfl)
    · have hfind : rowAt rows' r.fileid r.stateid.other = some r := by
        rw [hat, if_neg (show ¬ (r.fileid, r.stateid.other) = row.key from hk)]
        exact rowAt_of_mem ht hr
      exact mem_of_rowAt hfind
    · have hfind := hat row.fileid row.stateid.other
      rw [if_pos (show (row.fileid, row.stateid.other) = row.key from rfl)] at hfind
      exact mem_of_rowAt hfind

/-- A row after a persist is an old row under another key, or the row of the persist, which
has its client. -/
theorem mem_layoutPersistGrant_cases (ht : rows.Unique)
    (h : layoutPersistGrant rows renewal row = .ok rows') (hr : r ∈ used rows') :
    (r ∈ used rows ∧ r.key ≠ row.key) ∨ (r.clientid = row.clientid ∧ r.key = row.key) := by
  rcases (mem_layoutPersistGrant ht h).mp hr with hold | rfl
  · exact .inl hold
  · exact .inr (persisted_eq _ fun _ hat =>
      Prod.ext (key_of_rowAt hat).1 (key_of_rowAt hat).2)

end PnfsLattice
