import PnfsLattice.Layout.Steps

/-!
# A layout stateid names one client and one file

The owner of a layout stateid is the client and the file of its first LAYOUTGET. Nothing
in `layout_pick_stateid` compares the presented stateid with the client: the tracker is
advanced for anyone and on any file, and the catalogue probe compares the file alone.
`op_layoutreturn` deletes the row and the tracker entry of whatever stateid it is given.
As long as LAYOUTGETs and LAYOUTRETURNs present stateids of their own client and file,
each stateid has one owner in rows, jobs and replies, and no client touches the layout
state of another.
-/

namespace PnfsLattice

open Lib List Option

/-! ## Owners -/

section Owners

variable {issued : List Issue} {i : Issue} {o : Other} {p : Clientid × Fileid}

theorem ownerOf_cons : ownerOf o (i :: issued) =
    (ownerOf o issued).or (if i.other = o then some (i.clientid, i.fileid) else none) := rfl

theorem ownerOf_eq_none : ownerOf o issued = none ↔ ∀ i ∈ issued, i.other ≠ o := by
  induction issued with
  | nil => simp [ownerOf]
  | cons i _ ih =>
    rw [ownerOf_cons, or_eq_none_iff, ih]
    simp [and_comm]

theorem ownerOf_cons_of_some (h : ownerOf o issued = some p) :
    ownerOf o (i :: issued) = some p := by
  rw [ownerOf_cons, h, some_or]

theorem ownerOf_cons_self (h : ownerOf i.other issued = none) :
    ownerOf i.other (i :: issued) = some (i.clientid, i.fileid) := by
  rw [ownerOf_cons, h, none_or, if_pos rfl]

theorem ownerOf_map {g}
    (hg : ∀ i, (g i).other = i.other ∧ (g i).clientid = i.clientid ∧ (g i).fileid = i.fileid) :
    ownerOf o (issued.map g) = ownerOf o issued := by
  induction issued with
  | nil => rfl
  | cons i _ ih =>
    obtain ⟨ho, hc, hf⟩ := hg i
    rw [map_cons, ownerOf_cons, ownerOf_cons, ih, ho, hc, hf]

theorem settled_fields (j : ℕ) (st : IssueState) (i : Issue) :
    let i' := if i.job = j ∧ i.state = .pending then { i with state := st } else i
    i'.other = i.other ∧ i'.clientid = i.clientid ∧ i'.fileid = i.fileid := by
  split <;> exact ⟨rfl, rfl, rfl⟩

@[simp] theorem ownerOf_settle {j st} : ownerOf o (settle j st issued) = ownerOf o issued :=
  ownerOf_map (settled_fields j st)

@[simp] theorem ownerOf_dropPending : ownerOf o (dropPending issued) = ownerOf o issued := by
  refine ownerOf_map fun i => ?_
  split <;> exact ⟨rfl, rfl, rfl⟩

end Owners

/-! ## The condition and the property -/

/-- A presented stateid, if it was ever issued, was first issued to this client for this
file. -/
def Owns (issued : List Issue) (other : Other) (clientid : Clientid) (fileid : Fileid) : Prop :=
  ∀ p ∈ ownerOf other issued, p = (clientid, fileid)

instance (issued : List Issue) (other : Other) (clientid : Clientid) (fileid : Fileid) :
    Decidable (Owns issued other clientid fileid) :=
  decidable_of_iff ((ownerOf other issued).all (· = (clientid, fileid)) = true)
    (by simp only [Owns, Option.all_eq_true, decide_eq_true_eq, Option.mem_def])

theorem owns_of_ownerOf {issued other clientid fileid}
    (h : ownerOf other issued = some (clientid, fileid)) : Owns issued other clientid fileid :=
  fun _ hp => (mem_unique h hp).symm

/-- The two places where a LAYOUTGET looks up the stateid it presents. -/
def LayoutJob.Presents (issued : List Issue) : LayoutJob → Prop
  | .advance r _ => r.sid.seqid ≠ 0 → Owns issued r.sid.other r.clientid r.fileid
  | .probe r _ => Owns issued r.sid.other r.clientid r.fileid
  | _ => True

instance (issued : List Issue) (job : LayoutJob) : Decidable (job.Presents issued) := by
  cases job <;> unfold LayoutJob.Presents <;> infer_instance

/-- LAYOUTGETs and LAYOUTRETURNs present stateids of their own client and file. -/
def Presented (s : LayoutSys) : LayoutOp → Prop
  | .job j _ => ∀ job ∈ s.jobs[j]?, job.Presents s.issued
  | .layoutreturn clientid fileid sid layoutType returnType =>
    ReturnAccepted s.tracker sid layoutType returnType →
      Owns s.issued sid.other clientid fileid
  | _ => True

instance (s : LayoutSys) (op : LayoutOp) : Decidable (Presented s op) := by
  cases op <;> unfold Presented <;> infer_instance

/-- Rows of one stateid are of one client and one file, and a stateid that LAYOUTGET
returned to a client on a file was first issued to that client for that file. -/
def OneOwner (s : LayoutSys) : Prop :=
  (∀ r₁ ∈ used s.rows, ∀ r₂ ∈ used s.rows, r₁.stateid.other = r₂.stateid.other →
    r₁.clientid = r₂.clientid ∧ r₁.fileid = r₂.fileid) ∧
  ∀ i ∈ s.issued, i.callback = false → i.state = .handed →
    ownerOf i.other s.issued = some (i.clientid, i.fileid)
deriving Decidable

/-- The client whose LAYOUTGET takes a step; the acts of a recall are not its own. -/
def LayoutJob.client : LayoutJob → Option Clientid
  | .scan r _ | .lease r _ | .advance r _ | .probe r _ | .record r _ _ | .make r _
  | .persist r _ _ | .undo r _ => some r.clientid
  | .recalling _ _ | .done => none

/-- The client whose LAYOUTGET or LAYOUTRETURN a step is. -/
def LayoutSys.actor (s : LayoutSys) : LayoutOp → Option Clientid
  | .layoutget clientid _ _ _ _ => some clientid
  | .job j _ => s.jobs[j]?.bind LayoutJob.client
  | .layoutreturn clientid _ _ _ _ => some clientid
  | _ => none

/-- The stateid was issued to another client. -/
def Foreign (s : LayoutSys) (clientid : Clientid) (other : Other) : Prop :=
  ∃ p ∈ ownerOf other s.issued, p.1 ≠ clientid

/-- Rows and tracker entries of stateids issued to other clients are still there. -/
def SparesOthers (s t : LayoutSys) (clientid : Clientid) : Prop :=
  (∀ row ∈ used s.rows, Foreign s clientid row.stateid.other → row ∈ used t.rows) ∧
    ∀ e ∈ s.tracker, Foreign s clientid e.other → e ∈ t.tracker

/-! ## The invariant -/

/-- What a job has picked or collected agrees with the owner. -/
def LayoutJob.Owned (issued : List Issue) : LayoutJob → Prop
  | .recalling acts _ => ∀ act ∈ acts, ∀ h, act = .note h ∨ act = .call h →
      ownerOf h.stateid.other issued = some (h.clientid, h.fileid)
  | .record r _ sid | .persist r _ sid | .undo r sid =>
    ownerOf sid.other issued = some (r.clientid, r.fileid)
  | _ => True

/-- Issues agree with the owner, and the counter is past them. -/
def IssuedOk (counter : ℕ) (issued : List Issue) : Prop :=
  ∀ i ∈ issued, ownerOf i.other issued = some (i.clientid, i.fileid) ∧ i.other.tail < counter

/-- Rows, jobs and issues agree with the owner, and what is tracked was issued. -/
structure LayoutOwnerInv (s : LayoutSys) : Prop where
  unique : s.rows.Unique
  rows : ∀ row ∈ used s.rows,
    ownerOf row.stateid.other s.issued = some (row.clientid, row.fileid)
  jobs : ∀ job ∈ s.jobs, job.Owned s.issued
  tracker : ∀ e ∈ s.tracker, (ownerOf e.other s.issued).isSome
  issued : IssuedOk s.counter s.issued

theorem LayoutOwnerInv.oneOwner {s} (h : LayoutOwnerInv s) : OneOwner s := by
  constructor
  · intro r₁ h₁ r₂ h₂ ho
    have heq := (h.rows r₁ h₁).symm.trans (ho ▸ h.rows r₂ h₂)
    exact Prod.mk.inj (some.inj heq)
  · intro i hi _ _
    exact (h.issued i hi).1

section Issued

variable {issued issued' : List Issue} {counter : ℕ}

/-- Owners of the first list are owners of the second. -/
def OwnersKept (issued issued' : List Issue) : Prop :=
  ∀ o p, ownerOf o issued = some p → ownerOf o issued' = some p

theorem OwnersKept.refl (issued : List Issue) : OwnersKept issued issued := fun _ _ h => h

theorem ownersKept_cons (i : Issue) : OwnersKept issued (i :: issued) :=
  fun _ _ => ownerOf_cons_of_some

theorem ownersKept_settle (j : ℕ) (st : IssueState) : OwnersKept issued (settle j st issued) :=
  fun _ _ h => by rwa [ownerOf_settle]

theorem OwnersKept.owned (h : OwnersKept issued issued') {job : LayoutJob}
    (hjob : job.Owned issued) : job.Owned issued' := by
  cases job with
  | recalling => exact fun act hact hd hor => h _ _ (hjob act hact hd hor)
  | record | persist | undo => exact h _ _ hjob
  | _ => trivial

variable {i : Issue}

section

variable (h : IssuedOk counter issued)

include h

theorem IssuedOk.cons (hi : ownerOf i.other issued = some (i.clientid, i.fileid)) :
    IssuedOk counter (i :: issued) := by
  intro k hk
  rcases mem_cons.mp hk with rfl | hk
  · refine ⟨ownerOf_cons_of_some hi, ?_⟩
    -- The stateid was issued before, so the counter is past it.
    by_contra hge
    have hnone : ownerOf k.other issued = none :=
      ownerOf_eq_none.mpr fun m hm heq => hge (heq ▸ (h m hm).2)
    cases hnone.symm.trans hi
  · exact ⟨ownerOf_cons_of_some (h k hk).1, (h k hk).2⟩

/-- The next stateid of the counter has not been issued. -/
theorem IssuedOk.fresh {o} (ho : o.tail = counter) : ownerOf o issued = none :=
  ownerOf_eq_none.mpr fun i hi heq => by
    have hlt := (h i hi).2
    rw [heq, ho] at hlt
    exact Nat.lt_irrefl _ hlt

theorem IssuedOk.mint (hi : i.other.tail = counter) : IssuedOk (counter + 1) (i :: issued) := by
  have hfresh := h.fresh hi
  exact forall_mem_cons.mpr ⟨⟨ownerOf_cons_self hfresh, by omega⟩,
    fun k hk => ⟨ownerOf_cons_of_some (h k hk).1, Nat.lt_succ_of_lt (h k hk).2⟩⟩

theorem IssuedOk.settle (j : ℕ) (st : IssueState) :
    IssuedOk counter (PnfsLattice.settle j st issued) := by
  intro k hk
  obtain ⟨i, hi, rfl⟩ := mem_map.mp hk
  obtain ⟨ho, hc, hf⟩ := settled_fields j st i
  rw [ho, hc, hf, ownerOf_settle]
  exact h i hi

theorem IssuedOk.restart {seed} (hseed : counter ≤ seed) : IssuedOk seed (dropPending issued) := by
  intro k hk
  obtain ⟨i, hi, rfl⟩ := mem_map.mp hk
  obtain ⟨hown, hlt⟩ := h i hi
  have hlt' := Nat.lt_of_lt_of_le hlt hseed
  split <;> exact ⟨by rw [ownerOf_dropPending]; exact hown, hlt'⟩

end

end Issued

/-! ## Steps keep the invariant -/

section Steps

variable {cfg : LayoutCfg} {s t : LayoutSys} {j : ℕ} {env : LayoutEnv}

variable {job : LayoutJob} {o : Other} {rows : LayoutTable} {f : Fileid} {c : Clientid}
  {op : LayoutOp}

theorem mem_setJob {k} (h : k ∈ (s.setJob j job).jobs) : k = job ∨ k ∈ s.jobs :=
  (mem_or_eq_of_mem_set h).symm

/-- The invariant, from what is new in each table. -/
theorem LayoutOwnerInv.update (h : LayoutOwnerInv s) (hkeep : OwnersKept s.issued t.issued)
    (hu : t.rows.Unique) (hrows : ∀ row ∈ used t.rows, row ∈ used s.rows ∨
      ownerOf row.stateid.other t.issued = some (row.clientid, row.fileid))
    (hjobs : ∀ job ∈ t.jobs, job ∈ s.jobs ∨ job.Owned t.issued)
    (htracker : ∀ e ∈ t.tracker, (∃ e' ∈ s.tracker, e'.other = e.other) ∨
      (ownerOf e.other t.issued).isSome)
    (hissued : IssuedOk t.counter t.issued) : LayoutOwnerInv t := by
  refine ⟨hu, fun row hrow => ?_, fun job hjob => ?_, fun e he => ?_, hissued⟩
  · rcases hrows row hrow with hold | hnew
    · exact hkeep _ _ (h.rows row hold)
    · exact hnew
  · rcases hjobs job hjob with hold | hnew
    · exact hkeep.owned (h.jobs job hold)
    · exact hnew
  · rcases htracker e he with ⟨e', he', ho⟩ | hnew
    · obtain ⟨p, hp⟩ := isSome_iff_exists.mp (h.tracker e' he')
      rw [← ho, hkeep _ _ hp]
      rfl
    · exact hnew

theorem LayoutOwnerInv.setJob (h : LayoutOwnerInv s) (hjob : job.Owned s.issued) :
    LayoutOwnerInv (s.setJob j job) :=
  h.update (.refl _) h.unique (fun _ hrow => .inl hrow)
    (fun _ hk => (mem_setJob hk).elim (fun heq => .inr (heq ▸ hjob)) .inl)
    (fun e he => .inl ⟨e, he, rfl⟩) h.issued

theorem LayoutOwnerInv.addJob (h : LayoutOwnerInv s) (hjob : job.Owned s.issued) :
    LayoutOwnerInv { s with jobs := s.jobs ++ [job] } :=
  h.update (.refl _) h.unique (fun _ hrow => .inl hrow)
    (forall_mem_append.mpr ⟨fun _ => .inl, forall_mem_singleton.mpr (.inr hjob)⟩)
    (fun e he => .inl ⟨e, he, rfl⟩) h.issued

variable {tracker : SeqidTable} {fileid : Fileid} {next : Option (GetReq × Bool)}
  {acts : List RecallAct} {renewal : Bool} {r : GetReq} {sid : Stateid} {dsIds : List UInt32}
  {row : LayoutRow}

section

variable (h : LayoutOwnerInv s)

include h

theorem LayoutOwnerInv.withTracker
    (htracker : ∀ e ∈ tracker, (∃ e' ∈ s.tracker, e'.other = e.other) ∨
      (ownerOf e.other s.issued).isSome) : LayoutOwnerInv { s with tracker } :=
  h.update (.refl _) h.unique (fun _ hrow => .inl hrow) (fun _ hk => .inl hk) htracker h.issued

theorem LayoutOwnerInv.withEntry {p} (hown : ownerOf o s.issued = some p)
    (htracker : ∀ e ∈ tracker, (∃ e' ∈ s.tracker, e'.other = e.other) ∨ e.other = o) :
    LayoutOwnerInv { s with tracker } := by
  refine h.withTracker fun e he => ?_
  rcases htracker e he with hold | ho
  · exact .inl hold
  · exact .inr (by rw [ho, hown]; rfl)

theorem LayoutOwnerInv.withRows (hu : rows.Unique) (hrows : ∀ row ∈ used rows, row ∈ used s.rows ∨
      ownerOf row.stateid.other s.issued = some (row.clientid, row.fileid)) :
    LayoutOwnerInv { s with rows } :=
  h.update (.refl _) hu hrows (fun _ hk => .inl hk) (fun e he => .inl ⟨e, he, rfl⟩) h.issued

theorem LayoutOwnerInv.withIssue {i} (hi : ownerOf i.other s.issued = some (i.clientid, i.fileid)) :
    LayoutOwnerInv { s with issued := i :: s.issued } :=
  h.update (ownersKept_cons i) h.unique (fun _ hrow => .inl hrow) (fun _ hk => .inl hk)
    (fun e he => .inl ⟨e, he, rfl⟩) (h.issued.cons hi)

theorem LayoutOwnerInv.settle (j : ℕ) (st : IssueState) :
    LayoutOwnerInv { s with issued := PnfsLattice.settle j st s.issued } :=
  h.update (ownersKept_settle j st) h.unique (fun _ hrow => .inl hrow) (fun _ hk => .inl hk)
    (fun e he => .inl ⟨e, he, rfl⟩) (h.issued.settle j st)

theorem LayoutOwnerInv.withHeld {held} : LayoutOwnerInv { s with held } :=
  h.update (.refl _) h.unique (fun _ hrow => .inl hrow) (fun _ hk => .inl hk)
    (fun e he => .inl ⟨e, he, rfl⟩) h.issued

theorem LayoutOwnerInv.returned {other} :
    LayoutOwnerInv { s with rows := layoutReturned s.rows other fileid } :=
  h.withRows (unique_layoutReturned h.unique)
    fun _ hrow => .inl ((mem_layoutReturned h.unique).mp hrow).1

theorem LayoutOwnerInv.holder {hd : Holder} (hof : hd.Of s.rows s.tracker f) :
    ownerOf hd.stateid.other s.issued = some (hd.clientid, hd.fileid) := by
  obtain ⟨hfile, ⟨row, hrow, hrf, hrc, hro⟩, -⟩ := hof
  rw [← hro, h.rows row hrow, hrc, hrf, hfile]

/-- The acts of a byte-range recall are about holders with their owners. -/
theorem LayoutOwnerInv.byteRange {iomode offset length} :
    (LayoutJob.recalling (layoutRecallByteRange s.rows s.tracker f c iomode offset length)
      next).Owned s.issued := by
  intro _ hact hd hor
  rcases mem_append.mp hact with hact | hact
  · obtain ⟨k, hk, rfl⟩ := mem_map.mp hact
    have heq : k = hd := by
      rcases hor with hor | hor
      · exact RecallAct.note.inj hor
      · cases hor
    exact heq ▸ h.holder (mem_byteRangeCollectHolders hk)
  · obtain ⟨k, -, hk⟩ := mem_flatMap.mp hact
    rcases hor with rfl | rfl <;> simp at hk

end

theorem owned_of_revokes {issued} (h : ∀ act ∈ acts, ∀ hd, act ≠ .note hd ∧ act ≠ .call hd) :
    (LayoutJob.recalling acts none).Owned issued := by
  intro act hact hd hor
  obtain ⟨hn, hc⟩ := h act hact hd
  rcases hor with hor | hor
  · exact absurd hor hn
  · exact absurd hor hc

section

variable (h : LayoutOwnerInv s)

include h

theorem layoutOwnerInv_recallStep {act}
    (hjob : (LayoutJob.recalling (act :: acts) next).Owned s.issued) :
    LayoutOwnerInv ((recallStep s j env acts act).1.setJob j
      (.recalling (recallStep s j env acts act).2 next)) := by
  have hrest : (LayoutJob.recalling acts next).Owned s.issued :=
    fun k hk => hjob k (mem_cons_of_mem _ hk)
  cases act with
  | note hd =>
    have hown := hjob _ mem_cons_self hd (.inl rfl)
    rw [recallStep]
    split
    · refine (h.withEntry hown fun e he => mem_layoutSeqidRecordAt he).setJob ?_
      -- The callback that comes next is to the same holder.
      intro k hk hd' hor
      rcases mem_cons.mp hk with rfl | hk
      · have heq : hd = hd' := by
          rcases hor with hor | hor
          · cases hor
          · exact RecallAct.call.inj hor
        exact heq ▸ hown
      · exact hrest k hk hd' hor
    · exact h.setJob hrest
  | call hd =>
    have hown := hjob _ mem_cons_self hd (.inr rfl)
    rw [recallStep]
    split
    · next hadv =>
        refine ((h.withTracker fun e he => .inl (mem_layoutSeqidAdvance hadv he)).withIssue
          hown).setJob ?_
        exact (ownersKept_cons _).owned hrest
    · refine ((h.withEntry hown fun e he => mem_layoutSeqidRecordAt he).withIssue hown).setJob ?_
      exact (ownersKept_cons _).owned hrest
  | revoke => exact (h.returned.withHeld).setJob hrest
  | untrack => exact (h.withTracker fun e he => .inl ⟨e, mem_of_mem_eraseP he, rfl⟩).setJob hrest

theorem layoutOwnerInv_goes {job'} (hgoes : Goes s job job') :
    LayoutOwnerInv (s.setJob j job') := by
  cases hgoes with
  | scan => exact h.setJob h.byteRange
  | _ => exact h.setJob trivial

theorem layoutOwnerInv_persist (hown : ownerOf sid.other s.issued = some (r.clientid, r.fileid))
    (hrows : layoutPersistGrant s.rows renewal (r.row sid dsIds) = .ok rows) :
    LayoutOwnerInv { s with rows } := by
  refine h.withRows (rowAt_layoutPersistGrant h.unique hrows).1 fun _ hrow => ?_
  rcases mem_layoutPersistGrant_cases h.unique hrows hrow with ⟨hold, -⟩ | ⟨hc, hkey⟩
  · exact .inl hold
  · obtain ⟨hf, ho⟩ := Prod.mk.inj hkey
    rw [ho, hc, hf]
    exact .inr hown

theorem layoutOwnerInv_jobMove (hjob : job ∈ s.jobs) (hpres : job.Presents s.issued)
    (hmove : JobMove cfg s j env job t) : LayoutOwnerInv t := by
  have howned := h.jobs job hjob
  cases hmove with
  | goes hgoes => exact layoutOwnerInv_goes h hgoes
  | act => exact layoutOwnerInv_recallStep h howned
  | @advance r _ _ _ hsid hadv =>
    -- What is tracked was issued, and the presenter is its owner.
    obtain ⟨_, hpeek, -⟩ := layoutSeqidAdvance_some hadv
    obtain ⟨e, he, ho, -⟩ := exists_mem_of_peek hpeek
    obtain ⟨p, hp⟩ := isSome_iff_exists.mp (h.tracker e he)
    have hown : ownerOf r.sid.other s.issued = some (r.clientid, r.fileid) := by
      rw [ho] at hp
      rw [hp, hpres hsid p hp]
    refine ((h.withTracker fun e he => .inl (mem_layoutSeqidAdvance hadv he)).withIssue
      hown).setJob ?_
    exact ownersKept_cons _ _ _ hown
  | @probe r _ row hget =>
    have hrow : row ∈ used s.rows := mem_of_find?_eq_some hget
    have ho : row.stateid.other = r.sid.other := by simpa using List.find?_some hget
    have hp := h.rows row hrow
    rw [ho] at hp
    have hown : ownerOf r.sid.other s.issued = some (r.clientid, r.fileid) := by rw [hp, hpres _ hp]
    exact (h.withIssue hown).setJob (ownersKept_cons _ _ _ hown)
  | @record r _ sid =>
    have hown : ownerOf sid.other s.issued = some (r.clientid, r.fileid) := howned
    refine (h.withEntry hown fun e he => ?_).setJob howned
    exact (mem_layoutSeqidRecordNew he).imp_left fun hold => ⟨e, hold, rfl⟩
  | @make r _ other hother =>
    have htail : other.tail = s.counter := by rw [hother]
    have hself : ownerOf other (r.issues j { seqid := 1, other } :: s.issued) =
        some _ :=
      @ownerOf_cons_self _ (r.issues j { seqid := 1, other }) (h.issued.fresh htail)
    refine h.update (ownersKept_cons _) h.unique (fun _ hrow => .inl hrow) (fun k hk => ?_)
      (fun e he => ?_) (h.issued.mint htail)
    · rcases mem_setJob hk with rfl | hk
      · exact .inr hself
      · exact .inl hk
    · rcases mem_layoutSeqidRecordNew he with hold | ho
      · exact .inl ⟨e, hold, rfl⟩
      · rw [ho]
        exact .inr (isSome_iff_exists.mpr ⟨_, hself⟩)
  | unlisted => exact (h.settle j _).setJob trivial
  | granted _ hrows =>
    exact (((layoutOwnerInv_persist h howned hrows).settle j _).withHeld).setJob trivial
  | failed _ hrows hjob' =>
    refine ((layoutOwnerInv_persist h howned hrows).settle j _).setJob ?_
    rcases hjob' with rfl | rfl
    · exact ownersKept_settle j _ _ _ howned
    · trivial
  | undo => exact h.returned.setJob trivial

theorem layoutOwnerInv_starts (hstart : Starts s op job) : job.Owned s.issued := by
  cases hstart with
  | layoutget => trivial
  | resize => exact h.byteRange
  | unlink =>
    refine owned_of_revokes fun act hact hd => ?_
    obtain ⟨k, -, hk⟩ := mem_flatMap.mp hact
    constructor <;> (rintro rfl; simp at hk)
  | dsLost =>
    refine owned_of_revokes fun _ hact _ => ?_
    obtain ⟨k, -, hk⟩ := mem_filterMap.mp hact
    obtain ⟨_, -, rfl⟩ := map_eq_some_iff.mp hk
    exact ⟨by simp, by simp⟩

theorem layoutOwnerInv_step (hpres : Presented s op) (hstep : layoutStep cfg s op = some t) :
    LayoutOwnerInv t := by
  cases layoutMove_of_step hstep with
  | quiet => exact h
  | start hstart => exact h.addJob (layoutOwnerInv_starts h hstart)
  | job hj hmove => exact layoutOwnerInv_jobMove h (mem_of_getElem? hj) (hpres _ hj) hmove
  | layoutreturn =>
    exact (h.returned.withTracker fun e he => .inl ⟨e, mem_of_mem_eraseP he, rfl⟩).withHeld
  | restart hseed =>
    refine h.update (fun o p hp => ?_) h.unique (fun _ hrow => .inl hrow) (fun k hk => ?_)
      (fun e he => ?_) (h.issued.restart hseed)
    · exact ownerOf_dropPending.trans hp
    · cases hk
    · cases he

end

theorem layoutOwnerInv_start (h : LayoutStart s) : LayoutOwnerInv s := by
  obtain ⟨hrows, htracker, hjobs, hissued, -⟩ := h
  refine ⟨?_, ?_, ?_, ?_, ?_⟩
  · rw [hrows]
    exact nodup_nil
  · simp [hrows]
  · simp [hjobs]
  · simp [htracker]
  · simp [IssuedOk, hissued]

/-! ## Nobody touches the state of another -/

theorem not_foreign (h : Owns s.issued o c f) : ¬ Foreign s c o := by
  rintro ⟨p, hp, hne⟩
  exact hne (congrArg _ (h p hp))

/-- Deleting the row of a stateid spares the rows of foreign ones. -/
theorem mem_layoutReturned_of_foreign (hu : s.rows.Unique) (hown : Owns s.issued o c f)
    (hrow : row ∈ used s.rows) (hfor : Foreign s c row.stateid.other) :
    row ∈ used (layoutReturned s.rows o fileid) := by
  refine (mem_layoutReturned hu).mpr ⟨hrow, fun _ ht hkey => ?_⟩
  have ho : row.stateid.other = o :=
    (congrArg Prod.snd hkey).trans (layoutReturnTarget_some ht).2.1
  exact not_foreign hown (ho ▸ hfor)

theorem sparesOthers_jobMove (h : LayoutOwnerInv s) (hjob : job ∈ s.jobs)
    (hc : job.client = some c) (hpres : job.Presents s.issued) (hmove : JobMove cfg s j env job t) :
    SparesOthers s t c := by
  have howned := h.jobs job hjob
  cases hmove with
  | act => cases hc
  | @advance r _ _ _ hsid hadv =>
    cases hc
    refine ⟨fun _ hrow _ => hrow, fun e he hfor => ?_⟩
    refine mem_layoutSeqidAdvance_of_ne hadv he fun ho => ?_
    exact not_foreign (hpres hsid) (ho ▸ hfor)
  | record
  | make => exact ⟨fun _ hrow _ => hrow, fun e he _ => mem_layoutSeqidRecordNew_of_mem he⟩
  | granted _ hrows | failed _ hrows =>
    cases hc
    refine ⟨fun row hrow hfor => ?_, fun _ he _ => he⟩
    refine (mem_layoutPersistGrant h.unique hrows).mpr (.inl ⟨hrow, fun hkey => ?_⟩)
    rw [show row.stateid.other = _ from congrArg Prod.snd hkey] at hfor
    exact not_foreign (owns_of_ownerOf howned) hfor
  | @undo r sid =>
    cases hc
    have hown : Owns s.issued sid.other r.clientid r.fileid := owns_of_ownerOf howned
    exact ⟨fun _ hrow hfor => mem_layoutReturned_of_foreign h.unique hown hrow hfor,
      fun _ he _ => he⟩
  | _ => exact ⟨fun _ hrow _ => hrow, fun _ he _ => he⟩

theorem sparesOthers_step (h : LayoutOwnerInv s) (hpres : Presented s op)
    (hstep : layoutStep cfg s op = some t) (hc : s.actor op = some c) : SparesOthers s t c := by
  cases layoutMove_of_step hstep with
  | quiet | start => exact ⟨fun _ hrow _ => hrow, fun _ he _ => he⟩
  | job hj hmove =>
    rw [LayoutSys.actor, hj] at hc
    exact sparesOthers_jobMove h (mem_of_getElem? hj) hc (hpres _ hj) hmove
  | @layoutreturn _ _ sid _ _ hacc =>
    cases hc
    have hown := hpres hacc
    refine ⟨fun _ hrow hfor => mem_layoutReturned_of_foreign h.unique hown hrow hfor,
      fun e he hfor => ?_⟩
    have hne : e.other ≠ sid.other := fun ho => not_foreign hown (ho ▸ hfor)
    exact (mem_eraseP_of_neg (by simpa using hne)).mpr he
  | restart => cases hc

end Steps

/-- **A layout stateid names one client and one file.**  In every run whose LAYOUTGETs and
LAYOUTRETURNs present stateids of their own client and file, rows of one stateid are of one
client and one file, LAYOUTGET returns to a client on a file only stateids first issued to
that client for that file, and no LAYOUTGET or LAYOUTRETURN of a client removes or changes a
row or a tracker entry that was issued to another. -/
theorem layout_stateid_one_owner {cfg : LayoutCfg} {s : LayoutSys}
    (h : Reachable LayoutStart (layoutStep cfg) Presented s) :
    OneOwner s ∧ ∀ op t clientid, Presented s op → layoutStep cfg s op = some t →
      s.actor op = some clientid → SparesOthers s t clientid := by
  have hinv : LayoutOwnerInv s := h.invariant (fun _ hs => layoutOwnerInv_start hs)
    fun _ _ _ hs hok hstep => layoutOwnerInv_step hs hok hstep
  exact ⟨hinv.oneOwner, fun _ t c hpres hstep hc => sparesOthers_step hinv hpres hstep hc⟩

/-- Two clients with a layout each; the second renews its own. -/
def renewOwn : List LayoutOp :=
  getPage 1 (firstSid 0) 0 :: runLayoutJob 0 5 false .granted ++
    getPage 2 (firstSid 0) 1048576 :: runLayoutJob 1 5 false .granted ++
    getPage 1 (firstSid 1) 2097152 :: runLayoutJob 2 3 false .granted

theorem layout_stateid_one_owner_renewOwn :
    ∃ s t, exec (layoutStep plainCfg) newLayoutServer renewOwn = some s ∧
      layoutStep plainCfg s (.layoutreturn 1 5 (firstSid 2) layout4FlexFiles .file) = some t ∧
      OneOwner s ∧ SparesOthers s t 1 := by
  have hreach : Reachable LayoutStart (layoutStep plainCfg) Presented _ :=
    .run newLayoutServer renewOwn layoutStart_newLayoutServer
  obtain ⟨hone, hspares⟩ := layout_stateid_one_owner hreach
  have hret := hspares (.layoutreturn 1 5 (firstSid 2) layout4FlexFiles .file) _ 1 (by decide) rfl
    rfl
  exact ⟨_, _, rfl, rfl, hone, hret⟩

/-- A client that presents the stateid of another on a file of its own gets the stateid
with the next seqid: two clients and two files under one stateid. -/
theorem foreign_stateid_shared : ∃ t, exec (layoutStep plainCfg) newLayoutServer
        (getPage 1 (firstSid 0) 0 :: runLayoutJob 0 5 false .granted ++ .layoutget 2 6 (firstSid 1)
            { layoutType := layout4FlexFiles, offset := 0, length := 4096, minlength := 4096 }
            (some plainFile) :: runLayoutJob 1 4 false .granted) = some t ∧
      ¬ OneOwner t :=
  ⟨_, rfl, by decide⟩

end PnfsLattice
