import PnfsLattice.Layout.Steps

/-!
# Outstanding layouts are visible to recall

A recall finds the holders of a file by the rows of the layout table, so every window a
client holds has to lie in the range of a row of its file, stateid and client. The rows
lose a window in three ways: a persist that overwrites the row of an outstanding stateid
instead of widening it, which is what the first renewal after a restart does; the revoke
on the error exit of a LAYOUTGET, which deletes the row with all earlier windows; and a
LAYOUTGET or LAYOUTRETURN of another client under the same stateid, because neither the
union nor the return looks at the client.
-/

namespace PnfsLattice

open Lib List Option

/-- A row of the window's file and stateid belongs to its client and covers it. -/
def CoveredBy (rows : LayoutTable) (w : Window) : Prop :=
  ∃ row ∈ used rows, row.key = w.key ∧ row.clientid = w.clientid ∧
    RangeCovers row.offset row.length w.offset w.length
deriving Decidable

/-- Every window a client holds is covered by a row. -/
def LayoutsVisible (s : LayoutSys) : Prop := ∀ w ∈ s.held, CoveredBy s.rows w
deriving Decidable

/-- The key of the row that a return deletes. -/
def LayoutSys.deletes (s : LayoutSys) (fileid : Fileid) (other : Other) : Option (Fileid × Other) :=
  (layoutReturnTarget s.rows other fileid).map LayoutRow.key

/-- The steps of a job that lose no window. A persist under a stateid with windows
outstanding on the file is of the client that holds them, and either a renewal or a window
around them. The revoke of an error exit finds no outstanding window under its row. -/
def LayoutJob.KeepsWindows (s : LayoutSys) (env : LayoutEnv) : LayoutJob → Prop
  | .persist r renewal sid =>
    env.outcome = .unlisted ∨
      ∀ w ∈ s.held, w.key = (r.fileid, sid.other) → w.clientid = r.clientid ∧
        (renewal = true ∨ RangeCovers r.plan.offset r.plan.length w.offset w.length)
  | .undo r sid => ∀ w ∈ s.held, s.deletes r.fileid sid.other ≠ some w.key
  | _ => True

instance (s : LayoutSys) (env : LayoutEnv) : (job : LayoutJob) → Decidable (job.KeepsWindows s env)
  | .persist .. => inferInstanceAs (Decidable (_ ∨ ∀ w ∈ s.held, _ → _ ∧ (_ ∨ _)))
  | .undo .. => inferInstanceAs (Decidable (∀ w ∈ s.held, _ ≠ _))
  | .scan .. | .recalling .. | .lease .. | .advance .. | .probe .. | .record .. | .make ..
  | .done => instDecidableTrue

/-- The steps that lose no window. A LAYOUTRETURN comes from the client whose windows are
under the row. -/
def KeepsWindows (s : LayoutSys) : LayoutOp → Prop
  | .job j env => ∀ job ∈ s.jobs[j]?, job.KeepsWindows s env
  | .layoutreturn clientid fileid sid layoutType returnType =>
    ReturnAccepted s.tracker sid layoutType returnType →
      ∀ w ∈ s.held, s.deletes fileid sid.other = some w.key → w.clientid = clientid
  | _ => True

instance (s : LayoutSys) : (op : LayoutOp) → Decidable (KeepsWindows s op)
  | .job j env => inferInstanceAs (Decidable (∀ job ∈ s.jobs[j]?, job.KeepsWindows s env))
  | .layoutreturn .. => inferInstanceAs (Decidable (_ → ∀ w ∈ s.held, _ → _))
  | .layoutget .. | .layoutcommit .. | .resize .. | .unlink .. | .dsLost .. | .restart .. =>
    instDecidableTrue

/-! ## Keys are unique, ranges are ranges -/

/-- Keys are unique, offsets are 64-bit numbers, and windows have a byte in them. -/
structure LayoutRowsInv (s : LayoutSys) : Prop where
  unique : s.rows.Unique
  offset : ∀ row ∈ used s.rows, row.offset ≤ uint64MaxNat
  length : ∀ w ∈ s.held, 0 < w.length

variable {cfg : LayoutCfg} {s t : LayoutSys}

theorem LayoutRowsInv.shrink (h : LayoutRowsInv s) (hu : t.rows.Unique)
    (hrows : ∀ row ∈ used t.rows, row ∈ used s.rows) (hheld : ∀ w ∈ t.held, w ∈ s.held) :
    LayoutRowsInv t :=
  ⟨hu, fun row hrow => h.offset row (hrows row hrow), fun w hw => h.length w (hheld w hw)⟩

theorem LayoutRowsInv.congr (h : LayoutRowsInv s) (hrows : t.rows = s.rows)
    (hheld : t.held = s.held) : LayoutRowsInv t :=
  h.shrink (hrows ▸ h.unique) (fun _ hrow => hrows ▸ hrow) (fun _ hw => hheld ▸ hw)

variable {j : ℕ} {env : LayoutEnv} {rows : LayoutTable} {job : LayoutJob}

theorem recallStep_rows {acts : List RecallAct} {act : RecallAct} {P : LayoutSys → Prop}
    (hsame : ∀ t, t.rows = s.rows → t.held = s.held → P t)
    (hrevoke : ∀ fileid other, P (s.revoke fileid other)) : P (recallStep s j env acts act).1 := by
  cases act with
  | note | call =>
    rw [recallStep]
    split <;> exact hsame _ rfl rfl
  | revoke fileid other => exact hrevoke fileid other
  | untrack => exact hsame _ rfl rfl

variable {renewal : Bool} {r : GetReq} {sid : Stateid} {dsIds : List UInt32} {op : LayoutOp}

theorem layoutRowsInv_persist (h : LayoutRowsInv s)
    (hrows : layoutPersistGrant s.rows renewal (r.row sid dsIds) = .ok rows) :
    rows.Unique ∧ ∀ row ∈ used rows, row.offset ≤ uint64MaxNat := by
  refine ⟨(rowAt_layoutPersistGrant h.unique hrows).1, fun row hrow => ?_⟩
  have hend := r.plan.end_lt
  rcases (mem_layoutPersistGrant h.unique hrows).mp hrow with ⟨hrow, -⟩ | rfl
  · exact h.offset row hrow
  cases renewal with
  | false =>
    show r.plan.offset ≤ uint64MaxNat
    omega
  | true =>
    cases hold : rowAt s.rows (r.row sid dsIds).fileid (r.row sid dsIds).stateid.other with
    | none =>
      show r.plan.offset ≤ uint64MaxNat
      omega
    | some old =>
      exact union_offset_le (h.offset old (mem_of_rowAt hold))
        (show r.plan.offset ≤ uint64MaxNat by omega)

theorem layoutRowsInv_jobMove (h : LayoutRowsInv s) (hmove : JobMove cfg s j env job t) :
    LayoutRowsInv t := by
  cases hmove with
  | act =>
    -- A job's place is not part of the invariant.
    have hact : ∀ u : LayoutSys, LayoutRowsInv u → ∀ job', LayoutRowsInv (u.setJob j job') :=
      fun u hu _ => hu.congr rfl rfl
    refine hact _ (recallStep_rows (fun t hrows hheld => h.congr hrows hheld) ?_) _
    intro _ _
    refine h.shrink (unique_layoutReturned h.unique)
      (fun _ hrow => ((mem_layoutReturned h.unique).mp hrow).1) fun w hw => ?_
    exact mem_of_mem_filter hw
  | granted _ hrows =>
    obtain ⟨hu, hoff⟩ := layoutRowsInv_persist h hrows
    exact ⟨hu, hoff, forall_mem_cons.mpr ⟨GetPlan.length_pos _, h.length⟩⟩
  | failed _ hrows =>
    obtain ⟨hu, hoff⟩ := layoutRowsInv_persist h hrows
    exact ⟨hu, hoff, h.length⟩
  | undo =>
    exact h.shrink (unique_layoutReturned h.unique)
      (fun _ hrow => ((mem_layoutReturned h.unique).mp hrow).1) fun _ hw => hw
  | _ => exact h.congr rfl rfl

theorem layoutRowsInv_step (h : LayoutRowsInv s) (hstep : layoutStep cfg s op = some t) :
    LayoutRowsInv t := by
  cases layoutMove_of_step hstep with
  | quiet => exact h
  | start => exact h.congr rfl rfl
  | job _ hmove => exact layoutRowsInv_jobMove h hmove
  | layoutreturn =>
    exact h.shrink (unique_layoutReturned h.unique)
      (fun _ hrow => ((mem_layoutReturned h.unique).mp hrow).1)
      fun w hw => mem_of_mem_filter hw
  | restart => exact h.congr rfl rfl

theorem layoutRowsInv_start (h : LayoutStart s) : LayoutRowsInv s := by
  obtain ⟨hrows, -, -, -, hheld⟩ := h
  refine ⟨?_, ?_, ?_⟩
  · rw [hrows]
    exact nodup_nil
  · simp [hrows]
  · simp [hheld]

/-! ## What a step covers -/

theorem coveredBy_layoutReturned {other fileid w} (hu : rows.Unique) :
    CoveredBy (layoutReturned rows other fileid) w ↔
      CoveredBy rows w ∧
        (layoutReturnTarget rows other fileid).map LayoutRow.key ≠ some w.key := by
  constructor
  · rintro ⟨row, hrow, hkey, hc, hr⟩
    obtain ⟨hmem, hne⟩ := (mem_layoutReturned hu).mp hrow
    refine ⟨⟨row, hmem, hkey, hc, hr⟩, fun htarget => ?_⟩
    obtain ⟨target, ht, hk⟩ := map_eq_some_iff.mp htarget
    exact hne target ht (hkey.trans hk.symm)
  · rintro ⟨⟨row, hrow, hkey, hc, hr⟩, hne⟩
    refine ⟨row, (mem_layoutReturned hu).mpr ⟨hrow, fun _ ht hk => ?_⟩, hkey, hc, hr⟩
    exact hne (by rw [ht, map_some, ← hk, hkey])

section Persist

variable {rows rows' : LayoutTable} {renewal : Bool} {row : LayoutRow} {w : Window}

/-- A window under the row of a persist stays covered exactly if the client is the same,
and the persist widens the row or has the window in its own range. -/
theorem coveredBy_persist_iff (hu : rows.Unique)
    (h : layoutPersistGrant rows renewal row = .ok rows') (hkey : w.key = row.key)
    (hlen : 0 < w.length) (hoff : ∀ r ∈ used rows, r.offset ≤ uint64MaxNat)
    (hrow : row.offset ≤ uint64MaxNat) (hw : CoveredBy rows w) :
    CoveredBy rows' w ↔ w.clientid = row.clientid ∧
      (renewal = true ∨ RangeCovers row.offset row.length w.offset w.length) := by
  obtain ⟨old, hold, hk, -, hcov⟩ := hw
  have hat : rowAt rows row.fileid row.stateid.other = some old := by
    obtain ⟨hf, ho⟩ := Prod.mk.inj (hk.trans hkey)
    rw [← hf, ← ho]
    exact rowAt_of_mem hu hold
  have hnew : persisted renewal row (some old) ∈ used rows' :=
    (mem_layoutPersistGrant hu h).mpr (.inr (by rw [hat]))
  have hsame : ∀ r, some old = some r → r.key = row.key :=
    fun r hr => some.inj hr ▸ hk.trans hkey
  obtain ⟨hclient, hkeynew⟩ := persisted_eq _ hsame
  constructor
  · rintro ⟨r, hr, hrk, hrc, hrcov⟩
    rcases (mem_layoutPersistGrant hu h).mp hr with ⟨-, hne⟩ | rfl
    · exact absurd (hrk.trans hkey) hne
    rw [hat] at hrc hrcov
    refine ⟨hrc.symm.trans hclient, ?_⟩
    cases renewal with
    | true => exact .inl rfl
    | false => exact .inr hrcov
  · rintro ⟨hc, hren⟩
    refine ⟨_, hnew, hkeynew.trans hkey.symm, hclient.trans hc.symm, ?_⟩
    cases renewal with
    | true => exact rangeCovers_union_left hlen (hoff old hold) hrow hcov
    | false => exact hren.resolve_left (by simp)

theorem coveredBy_persist_self {r : GetReq} {sid : Stateid} {dsIds : List UInt32}
    (hu : rows.Unique) (hoff : ∀ r ∈ used rows, r.offset ≤ uint64MaxNat)
    (h : layoutPersistGrant rows renewal (r.row sid dsIds) = .ok rows') :
    CoveredBy rows' (r.window sid) := by
  have hend := r.plan.end_lt
  have hself : RangeCovers r.plan.offset r.plan.length r.plan.offset r.plan.length :=
    ⟨Nat.le_refl _, Nat.le_of_eq (layoutRangeEnd_of_fit hend).symm⟩
  have hold : ∀ old, rowAt rows r.fileid sid.other = some old →
      old.key = (r.row sid dsIds).key := fun _ hat =>
    Prod.ext (key_of_rowAt hat).1 (key_of_rowAt hat).2
  obtain ⟨hclient, hkey⟩ := persisted_eq _ hold
  refine ⟨_, (mem_layoutPersistGrant hu h).mpr (.inr rfl), hkey, hclient, ?_⟩
  cases renewal with
  | false => exact hself
  | true =>
    cases hat : rowAt rows r.fileid sid.other with
    | none => simpa [persisted, GetReq.row, GetReq.window, hat] using hself
    | some old =>
      have hcov := @rangeCovers_union_right _ old.length _
        _ r.plan.length_pos (hoff old (mem_of_rowAt hat)) hend
      simpa [persisted, GetReq.row, GetReq.window, hat, unionRow] using hcov

end Persist

/-! ## Every step -/

theorem keepsWindows_of_goes {job'} (h : Goes s job job') : job.KeepsWindows s env := by
  cases h with
  | stop hearly =>
    cases job with
    | persist | undo => cases hearly
    | _ => trivial
  | _ => trivial

/-- After a persist the windows are covered exactly if those under its row were of the same
client, and are still in the range. -/
theorem layoutsVisible_persist (hinv : LayoutRowsInv s) (hvis : LayoutsVisible s)
    (hrows : layoutPersistGrant s.rows renewal (r.row sid dsIds) = .ok rows) :
    (∀ w ∈ s.held, CoveredBy rows w) ↔
      ∀ w ∈ s.held, w.key = (r.fileid, sid.other) → w.clientid = r.clientid ∧
        (renewal = true ∨ RangeCovers r.plan.offset r.plan.length w.offset w.length) := by
  have hend := r.plan.end_lt
  have hiff : ∀ w ∈ s.held, w.key = (r.fileid, sid.other) →
      (CoveredBy rows w ↔ w.clientid = r.clientid ∧
        (renewal = true ∨ RangeCovers r.plan.offset r.plan.length w.offset w.length)) :=
    fun w hw hkey => coveredBy_persist_iff hinv.unique hrows hkey (hinv.length w hw) hinv.offset
      (show r.plan.offset ≤ uint64MaxNat by omega) (hvis w hw)
  constructor
  · intro hall w hw hkey
    exact (hiff w hw hkey).mp (hall w hw)
  · intro hkeep w hw
    by_cases hkey : w.key = (r.fileid, sid.other)
    · exact (hiff w hw hkey).mpr (hkeep w hw hkey)
    · obtain ⟨r, hr, hk, hrest⟩ := hvis w hw
      exact ⟨r, (mem_layoutPersistGrant hinv.unique hrows).mpr (.inl ⟨hr, hk ▸ hkey⟩), hk, hrest⟩

/-- A job's step keeps the windows covered exactly if it is one of those that do. -/
theorem layoutsVisible_jobMove (hinv : LayoutRowsInv s) (hvis : LayoutsVisible s)
    (hmove : JobMove cfg s j env job t) : LayoutsVisible t ↔ job.KeepsWindows s env := by
  cases hmove with
  | goes hgoes => exact ⟨fun _ => keepsWindows_of_goes hgoes, fun _ => hvis⟩
  | @act act acts =>
    have hact : LayoutsVisible (recallStep s j env acts act).1 := by
      refine recallStep_rows (fun u hrows hheld w hw => ?_) fun _ _ w hw => ?_
      · rw [hrows]
        exact hvis w (hheld ▸ hw)
      · -- A revoke takes the windows under the row with it.
        obtain ⟨hw, hne⟩ := mem_filter.mp hw
        exact (coveredBy_layoutReturned hinv.unique).mpr ⟨hvis w hw, by simpa using hne⟩
    exact ⟨fun _ => trivial, fun _ => hact⟩
  | unlisted hout => exact ⟨fun _ => .inl hout, fun _ => hvis⟩
  | granted hout hrows =>
    have hiff := layoutsVisible_persist hinv hvis hrows
    have hself := coveredBy_persist_self hinv.unique hinv.offset hrows
    have hne : ¬ env.outcome = .unlisted := by simp [hout]
    constructor
    · intro h
      exact .inr (hiff.mp fun w hw => h w (mem_cons_of_mem _ hw))
    · intro h
      exact forall_mem_cons.mpr ⟨hself, hiff.mpr (h.resolve_left hne)⟩
  | failed hne hrows =>
    have hiff := layoutsVisible_persist hinv hvis hrows
    exact ⟨fun h => .inr (hiff.mp h), fun h => hiff.mpr (h.resolve_left hne.1)⟩
  | undo =>
    constructor
    · intro h w hw
      exact ((coveredBy_layoutReturned hinv.unique).mp (h w hw)).2
    · intro h w hw
      exact (coveredBy_layoutReturned hinv.unique).mpr ⟨hvis w hw, h w hw⟩
  | _ => exact ⟨fun _ => trivial, fun _ => hvis⟩

theorem layoutsVisible_step (hinv : LayoutRowsInv s) (hvis : LayoutsVisible s)
    (hstep : layoutStep cfg s op = some t) : LayoutsVisible t ↔ KeepsWindows s op := by
  cases layoutMove_of_step hstep with
  | quiet hq =>
    refine ⟨fun _ => ?_, fun _ => hvis⟩
    cases op with
    | layoutreturn => exact fun h => absurd h hq
    | job => cases hq
    | _ => trivial
  | start hstart =>
    refine ⟨fun _ => ?_, fun _ => hvis⟩
    cases hstart <;> trivial
  | job hj hmove =>
    rw [layoutsVisible_jobMove hinv hvis hmove]
    simp [KeepsWindows, hj]
  | @layoutreturn clientid fileid sid _ _ hacc =>
    constructor
    · intro h _ w hw hdel
      by_contra hne
      -- Another client's window stays, and its row is gone.
      have hkept : w ∈ (s.returned clientid fileid sid.other).held :=
        mem_filter.mpr ⟨hw, by simp [hne]⟩
      exact ((coveredBy_layoutReturned hinv.unique).mp (h w hkept)).2 hdel
    · intro h w hw
      obtain ⟨hw, hkept⟩ := mem_filter.mp hw
      refine (coveredBy_layoutReturned hinv.unique).mpr ⟨hvis w hw, fun hdel => ?_⟩
      have hclient := h hacc w hw hdel
      obtain ⟨_, ht, hk⟩ := map_eq_some_iff.mp hdel
      have hother : w.other = sid.other :=
        (congrArg Prod.snd hk).symm.trans (layoutReturnTarget_some ht).2.1
      simp [hclient, hother] at hkept
  | restart => exact ⟨fun _ => trivial, fun _ => hvis⟩

/-- **Outstanding layouts are visible to recall.**  In a run from a server that has issued
no layout yet, every window a client was given, and has neither returned nor lost to a
recall, is covered by a row of its file, stateid and client at all times, exactly if no
step of the run loses a window. -/
theorem outstanding_layouts_visible {cfg : LayoutCfg} {s : LayoutSys} (h : LayoutStart s)
    (run : List LayoutOp) : AllStates (layoutStep cfg) LayoutsVisible s run ↔
      AllSteps (layoutStep cfg) KeepsWindows s run := by
  refine allStates_iff_allSteps (fun _ _ _ hinv hstep => layoutRowsInv_step hinv hstep)
    (fun _ _ _ hinv hvis hstep => layoutsVisible_step hinv hvis hstep) run
    (layoutRowsInv_start h) ?_
  intro w hw
  rw [h.2.2.2.2] at hw
  cases hw

/-- A layout that is renewed at another offset, kept over a restart and returned. -/
def renewThenReturn : List LayoutOp :=
  getPage 1 (firstSid 0) 0 :: runLayoutJob 0 5 false .granted ++
    getPage 1 (firstSid 1) 1048576 :: runLayoutJob 1 4 false .granted ++
    [.restart 10, .layoutreturn 1 5 (firstSid 2) layout4FlexFiles .file]

theorem outstanding_layouts_visible_renewed :
    (exec (layoutStep plainCfg) newLayoutServer renewThenReturn).isSome ∧
      AllStates (layoutStep plainCfg) LayoutsVisible newLayoutServer renewThenReturn :=
  ⟨by decide, (outstanding_layouts_visible layoutStart_newLayoutServer _).mpr (by decide)⟩

/-- The first renewal after a restart takes the path of a fresh grant and overwrites the
row: the window that was given before the restart has no row any more. -/
theorem renewal_after_restart_narrows : ∃ t, exec (layoutStep plainCfg) newLayoutServer
        (getPage 1 (firstSid 0) 0 :: runLayoutJob 0 5 false .granted ++
          .restart 10 :: getPage 1 (firstSid 1) 1048576 :: runLayoutJob 0 6 false .granted) =
          some t ∧
      t.held.length = 2 ∧ ¬ LayoutsVisible t :=
  ⟨_, rfl, by decide, by decide⟩

end PnfsLattice
