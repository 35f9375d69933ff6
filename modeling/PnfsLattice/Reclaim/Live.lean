import Mathlib.Data.Nat.Bitwise
import PnfsLattice.Lib.Jobs
import PnfsLattice.Reclaim.DsGc

/-!
# Live files and reclamation

A worker deletes the stripe map of the file of every row it has swept, also of a row that a
relocation has queued for one slot of a file that lives on; and a row that is still queued when
its slot has moved back covers the file in use. Apart from that reclamation is safe.
-/

namespace PnfsLattice

open Lib List Option

/-! ## The property -/

def ReclaimJob.relocates : ReclaimJob → Option ℕ
  | .mover r _ => some r.fileid
  | _ => none

/-- The row whose backing files a worker is unlinking. -/
def ReclaimJob.sweeping : ReclaimJob → Option GcRow
  | .sweep row _ | .dense row _ _ _ => some row
  | _ => none

/-- The row whose stripe map a worker is about to delete. -/
def ReclaimJob.deletesMap : ReclaimJob → Option GcRow
  | .mapDel row => some row
  | _ => none

/-- No existing inode has lost its stripe map or a backing file that its map names to a
worker. -/
def LiveUntouched (s : ReclaimSys) : Prop :=
  ∀ f ∈ s.inodes, f ∉ s.mapDeleted ∧
    ∀ map, s.map f = some map → ∀ x : DsFile, x.fileid = f → map.names x → x ∉ s.unlinked

/-- No job yet. Rows that are queued are of files that no longer exist, and maps are within
bounds. -/
structure ReclaimStart (s : ReclaimSys) : Prop where
  jobs : s.jobs = []
  unlinked : s.unlinked = []
  mapDeleted : s.mapDeleted = []
  inodes : ∀ f ∈ s.inodes, f < s.nextFileid
  rows : ∀ row ∈ s.gc, row.fileid < s.nextFileid ∧ row.fileid ∉ s.inodes
  maps : ∀ e ∈ s.maps, e.1 < s.nextFileid ∧
    e.2.stripeCount ≤ mdsMaxStripes ∧ e.2.mirrorCount ≤ mdsMaxMirrors

/-! ## The condition -/

/-- A relocation begins only if the target is another data server, no relocation of the file is
under way, and no row that is queued or being swept covers the backing file to be made; and a
worker gets to delete a stripe map only if the inode is gone. -/
def ReclaimApart (s : ReclaimSys) : ReclaimOp → Prop
  | .relocate r => r.target ≠ r.source ∧ (∀ job ∈ s.jobs, job.relocates ≠ some r.fileid) ∧
      (∀ row ∈ s.gc, ¬ row.covers r.copy) ∧
      ∀ job ∈ s.jobs, ∀ row ∈ job.sweeping, ¬ row.covers r.copy
  | .job j _ => ∀ job ∈ s.jobs[j]?, ∀ row ∈ job.deletesMap, row.fileid ∉ s.inodes
  | _ => True

instance (s : ReclaimSys) (op : ReclaimOp) : Decidable (ReclaimApart s op) := by
  cases op <;> unfold ReclaimApart <;> infer_instance

/-! ## What a slot hint covers -/

variable {s m : ℕ}

theorem gcSweepSlot_eq (hs : s < 134217728) : gcSweepSlot s m = 2147483648 + (s * 16 + m % 16) := by
  have hlow : (s <<< 4) % 4294967296 ||| (m &&& 15) = s * 16 + m % 16 := by
    rw [Nat.shiftLeft_eq, Nat.mod_eq_of_lt (by omega), show (15 : ℕ) = 2 ^ 4 - 1 from rfl,
      Nat.and_two_pow_sub_one_eq_mod, mul_comm]
    exact (Nat.two_pow_add_eq_or_of_lt (Nat.mod_lt m (by decide)) s).symm
  rw [gcSweepSlot, hlow]
  exact (Nat.two_pow_add_eq_or_of_lt (i := 31) (by omega) 1).symm

/-- A slot hint covers its slot and no other. -/
theorem sweeps_gcSweepSlot {seq s' m' fileid ds} (hs : s < mdsMaxStripes) (hm : m < mdsMaxMirrors) :
    (GcRow.mk seq fileid ds (gcSweepSlot s m)).sweeps s' m' ↔ s' = s ∧ m' = m := by
  have hs' : s < 1024 := hs
  have hm' : m < 4 := hm
  have heq : gcSweepSlot s m = 2147483648 + (s * 16 + m % 16) := gcSweepSlot_eq (by omega)
  have hslot : gcSweepIsSlot (gcSweepSlot s m) = true := by
    rw [gcSweepIsSlot, Nat.testBit_eq_decide_div_mod_eq, decide_eq_true_eq]
    omega
  have hsc : gcSweepSc (gcSweepSlot s m) = s := by
    rw [gcSweepSc, show (134217727 : ℕ) = 2 ^ 27 - 1 from rfl, Nat.and_two_pow_sub_one_eq_mod]
    omega
  have hmc : gcSweepMc (gcSweepSlot s m) = m := by
    rw [gcSweepMc, show (15 : ℕ) = 2 ^ 4 - 1 from rfl, Nat.and_two_pow_sub_one_eq_mod]
    omega
  rw [GcRow.sweeps, if_pos hslot, hsc, hmc]

/-! ## The map after a relocation -/

theorem StripeMap.slot_bounds {map : StripeMap} {e : DsMapEntry} (h : map.slot s m = some e) :
    s < map.stripeCount ∧ m < map.mirrorCount ∧
      map.entries[s * map.mirrorCount + m]? = some e := by
  unfold StripeMap.slot at h
  split at h
  next hb => exact ⟨hb.1, hb.2, h⟩
  · cases h

theorem slot_index_inj {mc s' m'} (hm : m < mc) (hm' : m' < mc) (h : s * mc + m = s' * mc + m') :
    s = s' ∧ m = m' := by
  have hmod := congrArg (· % mc) h
  simp only [Nat.mul_add_mod', Nat.mod_eq_of_lt hm, Nat.mod_eq_of_lt hm'] at hmod
  subst hmod
  exact ⟨Nat.eq_of_mul_eq_mul_right (Nat.zero_lt_of_lt hm) (Nat.add_right_cancel h), rfl⟩

theorem StripeMap.slot_moved {r : Relocation} {map : StripeMap} {d : DsMapEntry}
    (hr : map.slot r.stripe r.mirror = some d) : (r.moved map).slot s m =
      if s = r.stripe ∧ m = r.mirror then some (r.entry d) else map.slot s m := by
  obtain ⟨hs, hm, hentry⟩ := StripeMap.slot_bounds hr
  have hmoved : (r.moved map).slot s m = if s < map.stripeCount ∧ m < map.mirrorCount then
      (map.entries.modify (r.stripe * map.mirrorCount + r.mirror) r.entry)[
        s * map.mirrorCount + m]? else none := rfl
  rw [hmoved]
  by_cases hslot : s = r.stripe ∧ m = r.mirror
  · obtain ⟨rfl, rfl⟩ := hslot
    rw [if_pos ⟨hs, hm⟩, if_pos ⟨rfl, rfl⟩, List.getElem?_modify_eq, hentry]
    rfl
  · rw [if_neg hslot, StripeMap.slot]
    by_cases hb : s < map.stripeCount ∧ m < map.mirrorCount
    · have hne : r.stripe * map.mirrorCount + r.mirror ≠ s * map.mirrorCount + m := by
        intro heq
        obtain ⟨h1, h2⟩ := slot_index_inj hm hb.2 heq
        exact hslot ⟨h1.symm, h2.symm⟩
      rw [if_pos hb, if_pos hb, List.getElem?_modify_ne _ _ hne]
    · rw [if_neg hb, if_neg hb]

/-! ## The invariant -/

/-- The file that a create is about to make exist. -/
def ReclaimJob.creates : ReclaimJob → Option ℕ
  | .createCommit f _ => some f
  | _ => none

/-- The file that a job cleans up after. -/
def ReclaimJob.buries : ReclaimJob → Option ℕ
  | .finalizeGet f _ | .enqueueRows f _ _ _ | .finalizeDel f => some f
  | _ => none

/-- The copy is made and not yet in the map. -/
def MoverAt.made : MoverAt → Bool
  | .copy _ | .reget _ | .put _ => true
  | _ => false

/-- The relocation has not written the map. -/
def MoverAt.before : MoverAt → Bool
  | .enqueue _ => false
  | _ => true

/-- The row is queued, or a worker sweeps it. -/
def ReclaimSys.HasRow (s : ReclaimSys) (row : GcRow) : Prop :=
  row ∈ s.gc ∨ ∃ job ∈ s.jobs, job.sweeping = some row

/-- The file has not existed so far. -/
def ReclaimSys.Fresh (s : ReclaimSys) (f : ℕ) : Prop :=
  s.nextFileid ≤ f ∨ ∃ job ∈ s.jobs, job.creates = some f

/-- A relocation of a live file. -/
structure MoverOk (s : ReclaimSys) (r : Relocation) (x : MoverAt) : Prop where
  uncovered : x.before = true → ∀ row, s.HasRow row → ¬ row.covers r.copy
  kept : x.made = true → r.copy ∉ s.unlinked
  put : ∀ map, x = .put map →
    s.map r.fileid = some map ∧ ∃ e, map.slot r.stripe r.mirror = some e
  enqueue : ∀ n, x = .enqueue n → r.stripe < mdsMaxStripes ∧ r.mirror < mdsMaxMirrors ∧
    ∀ map, s.map r.fileid = some map → ∀ y : DsFile, map.names y → y.stripe = r.stripe →
      y.mirror = r.mirror → y.dsId = r.target

/-- What a job relies on. -/
def ReclaimJob.ok (s : ReclaimSys) : ReclaimJob → Prop
  | .mover r x => r.target ≠ r.source ∧ (r.fileid ∈ s.inodes → MoverOk s r x)
  | .createCommit _ map => map.stripeCount ≤ mdsMaxStripes ∧ map.mirrorCount ≤ mdsMaxMirrors
  | .sweep row todo => ∀ p ∈ todo, row.sweeps p.1 p.2
  | .dense row stripe mirror _ => row.sweepHint = 0 ∧ stripe < mdsMaxStripes ∧
      mirror < mdsMaxMirrors
  | _ => True

/-- Nothing has happened to a file that has not existed. -/
structure FreshOk (s : ReclaimSys) (f : ℕ) : Prop where
  inode : f ∉ s.inodes
  map : s.map f = none
  mapDeleted : f ∉ s.mapDeleted
  unlinked : ∀ x ∈ s.unlinked, x.fileid ≠ f
  rows : ∀ row, s.HasRow row → row.fileid ≠ f
  movers : ∀ r x, ReclaimJob.mover r x ∈ s.jobs → r.fileid = f → x = .get

structure ReclaimInv (s : ReclaimSys) : Prop where
  live : ∀ f ∈ s.inodes, f ∉ s.mapDeleted ∧ ∀ map, s.map f = some map → ∀ x : DsFile,
    x.fileid = f → map.names x → x ∉ s.unlinked ∧ ∀ row, s.HasRow row → ¬ row.covers x
  fresh : ∀ f, s.Fresh f → FreshOk s f
  creates : SoleClaims s.jobs ReclaimJob.creates
  created : ∀ job ∈ s.jobs, ∀ f, job.creates = some f → f < s.nextFileid
  relocates : SoleClaims s.jobs ReclaimJob.relocates
  buries : ∀ job ∈ s.jobs, ∀ f, job.buries = some f → f ∉ s.inodes ∧ ¬ s.Fresh f
  bounds : ∀ e ∈ s.maps, e.2.stripeCount ≤ mdsMaxStripes ∧ e.2.mirrorCount ≤ mdsMaxMirrors
  jobs : ∀ job ∈ s.jobs, job.ok s

/-- A job that may join the others. -/
structure ReclaimJob.Fits (s : ReclaimSys) (job : ReclaimJob) : Prop where
  sweeping : ∀ row, job.sweeping = some row → s.HasRow row
  creates : ∀ f, job.creates = some f → s.Fresh f
  buries : ∀ f, job.buries = some f → f ∉ s.inodes ∧ ¬ s.Fresh f
  mover : ∀ r x, job = .mover r x → s.Fresh r.fileid → x = .get
  ok : job.ok s

/-- Less exists and less has happened, whatever the jobs are. -/
structure ReclaimSys.Within (t s : ReclaimSys) : Prop where
  next : s.nextFileid ≤ t.nextFileid
  gc : ∀ row ∈ t.gc, row ∈ s.gc
  inodes : ∀ f ∈ t.inodes, f ∈ s.inodes
  map : ∀ f ∈ t.inodes, t.map f = s.map f
  unmapped : ∀ f, s.map f = none → t.map f = none
  maps : ∀ e ∈ t.maps, e ∈ s.maps
  deleted : ∀ f ∈ t.mapDeleted, f ∈ s.mapDeleted
  unlinked : ∀ x ∈ t.unlinked, x ∈ s.unlinked

section Jobs

variable {s t : ReclaimSys} {j : ℕ} {job : ReclaimJob}

theorem ReclaimSys.within_jobs (s : ReclaimSys) (jobs : List ReclaimJob) :
    ReclaimSys.Within { s with jobs } s :=
  ⟨le_rfl, fun _ h => h, fun _ h => h, fun _ _ => rfl, fun _ h => h, fun _ h => h,
    fun _ h => h, fun _ h => h⟩

/-- What a job relies on is kept if less exists and less has happened. -/
theorem ReclaimJob.ok_within (h : job.ok s) (hw : t.Within s)
    (hrows : ∀ row, t.HasRow row → s.HasRow row) : job.ok t := by
  cases job with
  | mover =>
    refine ⟨h.1, fun hin => ?_⟩
    obtain ⟨huncovered, hkept, hput, henqueue⟩ := h.2 (hw.inodes _ hin)
    refine ⟨fun hx row hrow => huncovered hx row (hrows row hrow),
      fun hx hin => hkept hx (hw.unlinked _ hin), ?_, ?_⟩
    · rwa [hw.map _ hin]
    · rwa [hw.map _ hin]
  | _ => exact h

theorem ReclaimInv.fits (h : ReclaimInv s) (hjob : job ∈ s.jobs) : job.Fits s :=
  ⟨fun _ hsw => .inr ⟨job, hjob, hsw⟩, fun _ hc => .inr ⟨job, hjob, hc⟩, h.buries job hjob,
    fun r x hx hf => (h.fresh _ hf).movers r x (hx ▸ hjob) rfl, h.jobs job hjob⟩

/-- **The rule for steps that add no row and make no file exist**: every job is an old one or
fits. -/
theorem ReclaimInv.evolve (h : ReclaimInv s) (hw : t.Within s)
    (hjobs : ∀ a ∈ t.jobs, a ∈ s.jobs ∨ a.Fits s) (hcreates : SoleClaims t.jobs ReclaimJob.creates)
    (hcreated : ∀ a ∈ t.jobs, ∀ f, a.creates = some f → f < t.nextFileid)
    (hrelocates : SoleClaims t.jobs ReclaimJob.relocates) : ReclaimInv t := by
  have hfits : ∀ a ∈ t.jobs, a.Fits s := fun a ha => (hjobs a ha).elim h.fits id
  have hrows : ∀ row, t.HasRow row → s.HasRow row := by
    rintro row (hrow | ⟨a, ha, hsw⟩)
    · exact .inl (hw.gc row hrow)
    · exact (hfits a ha).sweeping row hsw
  have hfresh : ∀ f, t.Fresh f → s.Fresh f := by
    rintro f (hlt | ⟨a, ha, hc⟩)
    · exact .inl (hw.next.trans hlt)
    · exact (hfits a ha).creates f hc
  refine ⟨fun f hf => ?_, fun f hf => ?_, hcreates, hcreated, hrelocates, fun a ha f hf => ?_,
    fun e he => h.bounds e (hw.maps e he), fun a ha => ?_⟩
  · obtain ⟨hdel, hnamed⟩ := h.live f (hw.inodes f hf)
    refine ⟨fun hin => hdel (hw.deleted f hin), fun map hm x hx hn => ?_⟩
    obtain ⟨hun, hcov⟩ := hnamed map ((hw.map f hf).symm.trans hm) x hx hn
    exact ⟨fun hin => hun (hw.unlinked x hin), fun row hrow => hcov row (hrows row hrow)⟩
  · obtain ⟨hino, hm, hdel, hun, hrow, -⟩ := h.fresh f (hfresh f hf)
    refine ⟨fun hin => hino (hw.inodes f hin), hw.unmapped f hm,
      fun hin => hdel (hw.deleted f hin), fun x hx => hun x (hw.unlinked x hx),
      fun row hr => hrow row (hrows row hr), fun r x hin hrf => ?_⟩
    exact (hfits _ hin).mover r x rfl (hrf ▸ hfresh f hf)
  · obtain ⟨hino, hnf⟩ := (hfits a ha).buries f hf
    exact ⟨fun hin => hino (hw.inodes f hin), fun hfr => hnf (hfresh f hfr)⟩
  · exact ReclaimJob.ok_within (hfits a ha).ok hw hrows

theorem ReclaimInv.shrink (h : ReclaimInv s) (hw : t.Within s)
    (hnext : t.nextFileid = s.nextFileid) (hjobs : t.jobs = s.jobs) : ReclaimInv t := by
  refine h.evolve hw (fun a ha => .inl (hjobs ▸ ha)) (hjobs ▸ h.creates) ?_
    (hjobs ▸ h.relocates)
  rw [hjobs, hnext]
  exact h.created

theorem ReclaimSys.HasRow.of_goto {row} (h : (s.goto j job).HasRow row)
    (hjob : job.sweeping = none) : s.HasRow row :=
  h.imp_right (exists_mem_of_set · (by simp [hjob]))

theorem ReclaimSys.Fresh.of_goto {f} (h : (s.goto j job).Fresh f) (hjob : job.creates = none) :
    s.Fresh f :=
  h.imp_right (exists_mem_of_set · (by simp [hjob]))

theorem ReclaimInv.goto (h : ReclaimInv s) (hcreates : job.creates = none)
    (hrelocates : ∀ f, job.relocates = some f → UnclaimedBut s.jobs j ReclaimJob.relocates f)
    (hfits : job.Fits s) : ReclaimInv (s.goto j job) :=
  h.evolve (s.within_jobs _) (forall_mem_set (fun _ => .inl) (.inr hfits))
    (h.creates.set (by simp [hcreates])) (forall_mem_set h.created (by simp [hcreates]))
    (h.relocates.set hrelocates)

theorem ReclaimInv.returned (h : ReclaimInv s) (j : ℕ) : ReclaimInv (s.goto j .returned) :=
  h.goto rfl nofun ⟨nofun, nofun, nofun, nofun, trivial⟩

theorem ReclaimInv.spawn (h : ReclaimInv s) (hw : t.Within s) (hjobs : t.jobs = s.jobs ++ [job])
    (hcreates : ∀ f, job.creates = some f → f = s.nextFileid ∧ s.nextFileid < t.nextFileid)
    (hrelocates : ∀ f, job.relocates = some f → ∀ a ∈ s.jobs, a.relocates ≠ some f)
    (hfits : job.Fits s) : ReclaimInv t := by
  have hall : ∀ p : ReclaimJob → Prop, (∀ a ∈ s.jobs, p a) → p job → ∀ a ∈ t.jobs, p a := by
    simp +contextual [hjobs, or_imp]
  refine h.evolve hw (hall _ (fun _ => .inl) (.inr hfits))
    (hjobs ▸ h.creates.concat fun f hf a ha hc => ?_)
    (hall _ (fun a ha f hf => (h.created a ha f hf).trans_le hw.next) fun f hf => ?_)
    (hjobs ▸ h.relocates.concat hrelocates)
  · cases (hcreates f hf).1
    exact absurd (h.created a ha _ hc) (Nat.lt_irrefl _)
  · obtain ⟨rfl, hlt⟩ := hcreates f hf
    exact hlt

end Jobs

section Parts

variable {s : ReclaimSys} {f : ℕ} {row : GcRow} {x : DsFile} {map : StripeMap}

theorem ReclaimSys.map_putMap (g : ℕ) :
    (s.putMap f map).map g = if g = f then some map else s.map g := by
  rw [ReclaimSys.map, ReclaimSys.putMap, findKey_upsert]
  split <;> rfl

theorem ReclaimSys.map_delMap (g : ℕ) : (s.delMap f).map g = if g = f then none else s.map g := by
  rw [ReclaimSys.map, ReclaimSys.delMap, findKey_eraseKey]
  split <;> rfl

theorem ReclaimInv.delMap (h : ReclaimInv s) (hf : f ∉ s.inodes) : ReclaimInv (s.delMap f) := by
  refine h.shrink ⟨le_rfl, fun _ h => h, fun _ h => h, fun g hg => ?_, fun g hg => ?_,
    fun e he => (mem_eraseKey.mp he).1, fun _ h => h, fun _ h => h⟩ rfl rfl
  · rw [ReclaimSys.map_delMap, if_neg]
    rintro rfl
    exact hf hg
  · rw [ReclaimSys.map_delMap, hg, ite_self]

/-- The row is not of a file to come; if its file is in use, it covers nothing of it and no
relocation of the file is under way. -/
def ReclaimSys.MayQueue (s : ReclaimSys) (row : GcRow) : Prop :=
  ¬ s.Fresh row.fileid ∧ (row.fileid ∈ s.inodes →
    (∀ map, s.map row.fileid = some map → ∀ y : DsFile, y.fileid = row.fileid → map.names y →
      ¬ row.covers y) ∧ ∀ job ∈ s.jobs, job.relocates ≠ some row.fileid)

/-- **The rule for rows, unlinked files and deleted maps that come.** -/
theorem ReclaimInv.happen {gc unlinked mapDeleted files nextSeq} (h : ReclaimInv s)
    (hgc : ∀ row ∈ gc, row ∈ s.gc ∨ s.MayQueue row)
    (hun : ∀ x ∈ unlinked, x ∈ s.unlinked ∨ ∃ row, s.HasRow row ∧ row.covers x)
    (hdel : ∀ f ∈ mapDeleted, f ∈ s.mapDeleted ∨ f ∉ s.inodes ∧ ¬ s.Fresh f) :
    ReclaimInv { s with gc, unlinked, mapDeleted, files, nextSeq } := by
  have hrows : ∀ row, ReclaimSys.HasRow { s with gc } row → s.HasRow row ∨ s.MayQueue row := by
    rintro row (hrow | hrow)
    · exact (hgc row hrow).imp_left .inl
    · exact .inl (.inr hrow)
  refine ⟨fun g hg => ?_, fun g hg => ?_, h.creates, h.created, h.relocates, h.buries, h.bounds,
    fun job hjob => ?_⟩
  · obtain ⟨hd, hnamed⟩ := h.live g hg
    refine ⟨fun hin => (hdel g hin).elim hd fun hnew => hnew.1 hg, fun map hm y hy hn => ?_⟩
    obtain ⟨hu, hcov⟩ := hnamed map hm y hy hn
    refine ⟨fun hin => ?_, fun row hrow hc => ?_⟩
    · rcases hun y hin with hold | ⟨row, hrow, hc⟩
      · exact hu hold
      · exact hcov row hrow hc
    · rcases hrows row hrow with hold | ⟨-, hnew⟩
      · exact hcov row hold hc
      · obtain rfl : row.fileid = g := hc.1.trans hy
        exact (hnew hg).1 map hm y hy hn hc
  · obtain ⟨hino, hm, hd, hu, hr, hmov⟩ := h.fresh g hg
    refine ⟨hino, hm, fun hin => (hdel g hin).elim hd fun hnew => hnew.2 hg, fun y hy => ?_,
      fun row hrow => ?_, hmov⟩
    · rcases hun y hy with hold | ⟨row, hrow, hc⟩
      · exact hu y hold
      · exact hc.1 ▸ hr row hrow
    · rcases hrows row hrow with hold | ⟨hnew, -⟩
      · exact hr row hold
      · exact fun heq => hnew (heq ▸ hg)
  · have hok := h.jobs job hjob
    cases job with
    | mover r x =>
      refine ⟨hok.1, fun hin => ?_⟩
      obtain ⟨huncovered, hkept, hput, henqueue⟩ := hok.2 hin
      refine ⟨fun hb row hrow hc => ?_, fun hmade hmem => ?_, hput, henqueue⟩
      · rcases hrows row hrow with hold | ⟨-, hnew⟩
        · exact huncovered hb row hold hc
        · have hfr : row.fileid = r.fileid := hc.1
          exact (hnew (hfr ▸ hin)).2 _ hjob (congrArg some hfr.symm)
      · rcases hun _ hmem with hold | ⟨row, hrow, hc⟩
        · exact hkept hmade hold
        · refine huncovered ?_ row hrow hc
          cases x <;> first | rfl | cases hmade
    | _ => exact hok

theorem ReclaimInv.noteDeleted (h : ReclaimInv s) (hf : f ∉ s.inodes)
    (hmap : (s.map f).isSome = true) : ReclaimInv { s with mapDeleted := f :: s.mapDeleted } := by
  refine h.happen (fun _ hr => .inl hr) (fun _ hx => .inl hx) fun g hg => ?_
  rcases mem_cons.mp hg with rfl | hg
  · refine .inr ⟨hf, fun hfresh => ?_⟩
    rw [(h.fresh g hfresh).map] at hmap
    cases hmap
  · exact .inl hg

theorem ReclaimInv.unlinkFile (h : ReclaimInv s) (hrow : s.HasRow row) (hx : row.covers x) :
    ReclaimInv (s.unlinkFile x) := by
  unfold ReclaimSys.unlinkFile
  split
  · exact h.happen (fun _ hr => .inl hr)
      (forall_mem_cons.mpr ⟨.inr ⟨row, hrow, hx⟩, fun _ => .inl⟩) fun _ hf => .inl hf
  · exact h

theorem ReclaimInv.enqueue (h : ReclaimInv s) {ds hint}
    (hmay : s.MayQueue ⟨s.nextSeq, f, ds, hint⟩) : ReclaimInv (s.enqueue f ds hint) :=
  h.happen (forall_mem_append.mpr ⟨fun _ => .inl, forall_mem_singleton.mpr (.inr hmay)⟩)
    (fun _ hx => .inl hx) fun _ hf => .inl hf

/-- **The rule for a map that is written**, of a file that may begin to exist: nothing has
happened to what the map names. -/
theorem ReclaimInv.putMap {inodes} (h : ReclaimInv s)
    (hb : map.stripeCount ≤ mdsMaxStripes ∧ map.mirrorCount ≤ mdsMaxMirrors)
    (hinodes : ∀ g ∈ inodes, g = f ∨ g ∈ s.inodes) (hnot : ¬ s.Fresh f)
    (hf : f ∈ inodes → f ∉ s.mapDeleted ∧ (∀ a ∈ s.jobs, a.buries ≠ some f) ∧
      (∀ y : DsFile, y.fileid = f → map.names y →
        y ∉ s.unlinked ∧ ∀ row, s.HasRow row → ¬ row.covers y) ∧
      ∀ r x, .mover r x ∈ s.jobs → r.fileid = f →
        x = .get ∧ ∀ row, s.HasRow row → ¬ row.covers r.copy) :
    ReclaimInv ({ s with inodes }.putMap f map) := by
  have hmap : ∀ g, g ≠ f → ({ s with inodes }.putMap f map).map g = s.map g :=
    fun g hg => (ReclaimSys.map_putMap g).trans (if_neg hg)
  refine ⟨fun g hg => ?_, fun g hg => ?_, h.creates, h.created, h.relocates, fun a ha g hg => ?_,
    fun e he => ?_, fun a ha => ?_⟩
  · by_cases hgf : g = f
    · subst hgf
      refine ⟨(hf hg).1, fun m hm => ?_⟩
      cases ((ReclaimSys.map_putMap g).trans (if_pos rfl)).symm.trans hm
      exact (hf hg).2.2.1
    · obtain ⟨hd, hnamed⟩ := h.live g ((hinodes g hg).resolve_left hgf)
      exact ⟨hd, fun m hm => hnamed m ((hmap g hgf).symm.trans hm)⟩
  · have hne : g ≠ f := fun heq => hnot (heq ▸ hg)
    obtain ⟨hi, hm, hd, hu, hr, hmv⟩ := h.fresh g hg
    exact ⟨fun hin => hi ((hinodes g hin).resolve_left hne), (hmap g hne).trans hm, hd, hu, hr, hmv⟩
  · obtain ⟨hi, hnf⟩ := h.buries a ha g hg
    refine ⟨fun hin => ?_, hnf⟩
    rcases hinodes g hin with rfl | hold
    · exact (hf hin).2.1 a ha hg
    · exact hi hold
  · rcases mem_upsert.mp he with rfl | ⟨he, -⟩
    · exact hb
    · exact h.bounds e he
  · have hok := h.jobs a ha
    cases a with
    | mover r x =>
      refine ⟨hok.1, fun hin => ?_⟩
      by_cases hrf : r.fileid = f
      · obtain ⟨rfl, hrow⟩ := (hf (hrf ▸ hin)).2.2.2 r x ha hrf
        exact ⟨fun _ => hrow, nofun, nofun, nofun⟩
      · obtain ⟨huncovered, hkept, hput, henq⟩ := hok.2 ((hinodes _ hin).resolve_left hrf)
        exact ⟨huncovered, hkept, by rwa [hmap _ hrf], by rwa [hmap _ hrf]⟩
    | _ => exact hok

end Parts

/-! ## Steps -/

section Steps

variable {s t : ReclaimSys} {j : ℕ} {job : ReclaimJob} {env : ReclaimEnv}

variable {f : ℕ} {r : Relocation} {map : StripeMap}

theorem ReclaimInv.not_fresh_of_returned (h : ReclaimInv s) (hj : s.jobs[j]? = some job)
    (hf : job.creates = some f) : ¬ (s.goto j .returned).Fresh f := by
  rintro (hlt | ⟨a, ha, hc⟩)
  · exact absurd (h.created job (mem_of_getElem? hj) f hf) (Nat.not_lt.mpr hlt)
  · have hnone : ReclaimJob.returned.creates ≠ some f := nofun
    exact (h.creates.unclaimedBut hj hf).unclaimed hnone a ha hc

theorem goto_goto (s : ReclaimSys) (j : ℕ) (a b : ReclaimJob) :
    (s.goto j a).goto j b = s.goto j b := by
  rw [ReclaimSys.goto, ReclaimSys.goto, ReclaimSys.goto, set_set]

section

variable (h : ReclaimInv s)

include h

theorem ReclaimInv.gotoBuries (hb : job.buries = some f) (hf : f ∉ s.inodes ∧ ¬ s.Fresh f) :
    ReclaimInv (s.goto j job) := by
  have hmine : ∀ g, job.buries = some g → g ∉ s.inodes ∧ ¬ s.Fresh g :=
    fun g hg => mem_unique hb hg ▸ hf
  cases job <;> cases hb <;> exact h.goto rfl nofun ⟨nofun, nofun, hmine, nofun, trivial⟩

theorem ReclaimInv.gotoMover {x y} (hj : s.jobs[j]? = some (.mover r x))
    (hfresh : s.Fresh r.fileid → y = .get) (hok : r.fileid ∈ s.inodes → MoverOk s r y) :
    ReclaimInv (s.goto j (.mover r y)) := by
  refine h.goto rfl (fun f hf => h.relocates.unclaimedBut hj hf)
    ⟨nofun, nofun, nofun, ?_, (h.jobs _ (mem_of_getElem? hj)).1, hok⟩
  rintro _ _ ⟨⟩
  exact hfresh

theorem ReclaimInv.moverPut {n} (hj : s.jobs[j]? = some (.mover r (.put map)))
    (hb : map.stripeCount ≤ mdsMaxStripes ∧ map.mirrorCount ≤ mdsMaxMirrors) :
    ReclaimInv ((s.putMap r.fileid (r.moved map)).goto j (.mover r (.enqueue n))) := by
  have hmem := mem_of_getElem? hj
  have haway := (h.jobs _ hmem).1
  have hnotFresh : ¬ s.Fresh r.fileid :=
    fun hf => nomatch (h.fresh _ hf).movers r _ hmem rfl
  have hret := h.returned j
  -- Nobody else relocates the file.
  have halone : ∀ a ∈ (s.goto j .returned).jobs, a.relocates ≠ some r.fileid :=
    (h.relocates.unclaimedBut hj rfl).unclaimed nofun
  have hput : ReclaimInv ((s.goto j .returned).putMap r.fileid (r.moved map)) := by
    refine hret.putMap hb (fun _ hg => .inr hg) (fun hf => hnotFresh (hf.of_goto rfl)) fun hin =>
      ⟨(hret.live _ hin).1, fun a ha hbury => (hret.buries a ha _ hbury).1 hin, fun y hy hn => ?_,
        fun _ x ha heq => absurd (congrArg some heq) (halone _ ha)⟩
    obtain ⟨huncovered, hkept, hputOk, -⟩ := (h.jobs _ hmem).2 hin
    obtain ⟨hsame, e, he⟩ := hputOk map rfl
    rw [StripeMap.names, StripeMap.slot_moved he] at hn
    split at hn
    next hslot =>
      -- The slot that has moved is the copy.
      have hcopy : y = r.copy := by
        obtain ⟨_, f, _, _⟩ := y
        cases hn
        cases hslot.1
        cases hslot.2
        cases hy
        rfl
      rw [hcopy]
      exact ⟨hkept rfl, fun row hrow => huncovered rfl row (hrow.of_goto rfl)⟩
    · exact (hret.live _ hin).2 map hsame y hy hn
  have hstate : (s.putMap r.fileid (r.moved map)).goto j (.mover r (.enqueue n)) =
      ((s.goto j .returned).putMap r.fileid (r.moved map)).goto j (.mover r (.enqueue n)) :=
    (goto_goto _ j _ _).symm
  rw [hstate]
  refine hput.goto rfl ?_
    ⟨nofun, nofun, nofun, ?_, haway, fun hin => ⟨nofun, nofun, nofun, ?_⟩⟩
  · rintro f ⟨⟩ i - a ha
    exact halone a (mem_of_getElem? ha)
  · rintro _ _ ⟨⟩ hfr
    have hfr' : (s.goto j .returned).Fresh r.fileid := hfr
    exact absurd (hfr'.of_goto rfl) hnotFresh
  · rintro _ ⟨⟩
    obtain ⟨-, e, he⟩ := ((h.jobs _ hmem).2 hin).put map rfl
    obtain ⟨hs, hm, -⟩ := StripeMap.slot_bounds he
    refine ⟨hs.trans_le hb.1, hm.trans_le hb.2, fun _ hm' y hn hys hym => ?_⟩
    rw [ReclaimSys.map_putMap, if_pos rfl] at hm'
    cases hm'
    rw [StripeMap.names, hys, hym, StripeMap.slot_moved he, if_pos ⟨rfl, rfl⟩] at hn
    exact (some.inj hn).symm

theorem ReclaimInv.moverEnqueue {n} (hj : s.jobs[j]? = some (.mover r (.enqueue n))) :
    ReclaimInv ((s.enqueue r.fileid r.source (gcSweepSlot r.stripe r.mirror)).goto j
      .returned) := by
  have hmem := mem_of_getElem? hj
  obtain ⟨haway, hok⟩ := h.jobs _ hmem
  have hnotFresh : ¬ s.Fresh r.fileid :=
    fun hf => nomatch (h.fresh _ hf).movers r _ hmem rfl
  refine (h.returned j).enqueue ⟨fun hf => hnotFresh (hf.of_goto rfl), fun hin => ⟨?_, ?_⟩⟩
  · intro map hm y _ hn hc
    obtain ⟨hs, hmi, htarget⟩ := (hok hin).enqueue n rfl
    obtain ⟨-, hds, hsweeps⟩ := hc
    obtain ⟨hys, hym⟩ := (sweeps_gcSweepSlot hs hmi).mp hsweeps
    exact haway ((htarget map hm y hn hys hym).symm.trans hds.symm)
  · exact (h.relocates.unclaimedBut hj rfl).unclaimed nofun

theorem ReclaimInv.moverStep {x} (hj : s.jobs[j]? = some (.mover r x)) :
    ReclaimInv (moverStep s j env r x) := by
  have hmem := mem_of_getElem? hj
  have hok := (h.jobs _ hmem).2
  -- A file whose map was read is not fresh.
  have hpast : x ≠ .get → s.Fresh r.fileid → False :=
    fun hx hf => hx ((h.fresh _ hf).movers r x hmem rfl)
  cases x <;> simp only [PnfsLattice.moverStep]
  case get =>
    split
    · exact h.returned j
    next map hm =>
      split
      · refine h.gotoMover hj (fun hf => nomatch (h.fresh _ hf).map.symm.trans hm) fun hin => ?_
        exact ⟨(hok hin).uncovered, nofun, nofun, nofun⟩
      · exact h.returned j
  case check map =>
    split
    · refine h.gotoMover hj (fun hf => (hpast nofun hf).elim) fun hin => ?_
      exact ⟨(hok hin).uncovered, nofun, nofun, nofun⟩
    · exact h.returned j
  case ensure map =>
    split
    · have hmade : ReclaimInv (s.ensureFile r.copy) := h.shrink
        { s.within_jobs s.jobs with unlinked := fun y hy => (mem_filter.mp hy).1 } rfl rfl
      refine hmade.gotoMover hj (fun hf => (hpast nofun hf).elim) fun hin => ?_
      refine ⟨(hok hin).uncovered, fun _ hin' => ?_, nofun, nofun⟩
      have hne := (mem_filter.mp hin').2
      simp at hne
    · exact h.returned j
  case copy map =>
    split
    · refine h.gotoMover hj (fun hf => (hpast nofun hf).elim) fun hin => ?_
      exact ⟨(hok hin).uncovered, (hok hin).kept, nofun, nofun⟩
    · exact h.returned j
  case reget map =>
    split
    · exact h.returned j
    next map' hm =>
      split
      next hsame =>
        refine h.gotoMover hj (fun hf => (hpast nofun hf).elim) fun hin => ?_
        refine ⟨(hok hin).uncovered, (hok hin).kept, ?_, nofun⟩
        rintro _ ⟨⟩
        have hany := hsame.2.2.2
        cases hslot : map'.slot r.stripe r.mirror with
        | none =>
          rw [hslot] at hany
          cases hany
        | some e => exact ⟨hm, e, rfl⟩
      · exact h.returned j
  case put map =>
    split
    · exact h.returned j
    next hb =>
      simp only [Bool.or_eq_true, decide_eq_true_eq, not_or, Nat.not_lt] at hb
      exact h.moverPut hj ⟨hb.1.2, hb.2⟩
  case enqueue n =>
    split
    · exact h.moverEnqueue hj
    · exact h.returned j

theorem ReclaimInv.createCommit (hj : s.jobs[j]? = some (.createCommit f map)) :
    ReclaimInv (({ s with inodes := f :: s.inodes }.putMap f map).goto j .returned) := by
  have hmem := mem_of_getElem? hj
  have hb := h.jobs _ hmem
  have hnotFresh := h.not_fresh_of_returned hj rfl
  obtain ⟨-, -, hdel, hun, hrow, hmov⟩ := h.fresh f (.inr ⟨_, hmem, rfl⟩)
  have hrows : ∀ row, (s.goto j .returned).HasRow row → row.fileid ≠ f :=
    fun row hr => hrow row (hr.of_goto rfl)
  refine (h.returned j).putMap hb (fun g hg => mem_cons.mp hg) hnotFresh fun _ =>
    ⟨hdel, fun a ha hbury => ?_, fun y hy _ => ⟨fun hin => hun y hin hy, fun row hr hc => ?_⟩,
      fun r x ha heq => ⟨?_, fun row hr hc => hrows row hr (hc.1.trans heq)⟩⟩
  · rcases mem_or_eq_of_mem_set ha with ha | rfl
    · exact (h.buries a ha f hbury).2 (.inr ⟨_, hmem, rfl⟩)
    · cases hbury
  · exact hrows row hr (hc.1.trans hy)
  · -- A relocation of the new file has not even read its map.
    rcases mem_or_eq_of_mem_set ha with ha | ha
    · exact hmov r x ha heq
    · cases ha

/-- Rows of a file that does not exist, and has existed or never will. -/
theorem ReclaimInv.enqueueAll {hint dss} (hf : f ∉ s.inodes ∧ ¬ s.Fresh f) :
    ReclaimInv (s.enqueueAll f hint dss) := by
  induction dss generalizing s with
  | nil => exact h
  | cons _ _ ih => exact ih (h.enqueue ⟨hf.2, fun hin => absurd hin hf.1⟩) hf

theorem ReclaimInv.removeInode (f : ℕ) : ReclaimInv (s.removeInode f) :=
  h.shrink { s.within_jobs s.jobs with
    inodes := fun _ hg => (mem_filter.mp hg).1, map := fun _ _ => rfl } rfl rfl

end

theorem ReclaimSys.not_mem_removeInode (f : ℕ) : f ∉ (s.removeInode f).inodes := by
  intro hin
  have hne := (mem_filter.mp hin).2
  simp at hne

theorem ReclaimInv.removeStep (h : ReclaimInv s) (hj : s.jobs[j]? = some job)
    (hst : removeStep s j env job = some t) : ReclaimInv t := by
  have hmem := mem_of_getElem? hj
  cases job <;> simp only [PnfsLattice.removeStep] at hst
  case createCommit f map =>
    split at hst <;> cases hst
    · exact h.createCommit hj
    · rw [← goto_goto s j _]
      refine (h.returned j).gotoBuries rfl ⟨?_, h.not_fresh_of_returned hj rfl⟩
      exact (h.fresh f (.inr ⟨_, hmem, rfl⟩)).inode
  case removeGet kind f =>
    cases hst
    exact h.goto rfl nofun ⟨nofun, nofun, nofun, nofun, trivial⟩
  case removeCommit kind f map =>
    split at hst
    · cases hst
      exact h.returned j
    next hin =>
      have hf : f ∈ s.inodes := by
        simp only [Bool.or_eq_true, not_or, decide_eq_true_eq, not_not] at hin
        exact hin.2
      have hnotFresh : ¬ s.Fresh f := fun hfr => (h.fresh f hfr).inode hf
      have hgone : f ∉ (s.removeInode f).inodes := ReclaimSys.not_mem_removeInode f
      have hdel := (h.removeInode f).delMap hgone
      split at hst <;> cases hst
      · exact (hdel.enqueueAll ⟨hgone, hnotFresh⟩).returned j
      · exact hdel.gotoBuries rfl ⟨hgone, hnotFresh⟩
      · exact (h.removeInode f).gotoBuries rfl ⟨hgone, hnotFresh⟩
      · exact hdel.gotoBuries rfl ⟨hgone, hnotFresh⟩
  case finalizeGet f thenDel =>
    have hf := h.buries _ hmem f rfl
    split at hst <;> cases hst
    · exact h.gotoBuries rfl hf
    · cases thenDel
      · exact h.returned j
      · exact h.gotoBuries rfl hf
  case enqueueRows f dss hint thenDel =>
    have hf := h.buries _ hmem f rfl
    cases dss with
    | nil =>
      cases hst
      cases thenDel
      · exact h.returned j
      · exact h.gotoBuries rfl hf
    | cons =>
      cases hst
      split
      · exact (h.enqueue ⟨hf.2, fun hin => absurd hin hf.1⟩).gotoBuries rfl hf
      · exact h.gotoBuries rfl hf
  case finalizeDel f =>
    have hf := h.buries _ hmem f rfl
    cases hst
    exact (h.delMap hf.1).returned j
  all_goals cases hst

theorem ReclaimInv.gotoWorker (h : ReclaimInv s)
    (hsweep : ∀ row, job.sweeping = some row → s.HasRow row)
    (hplain : job.creates = none ∧ job.buries = none ∧ job.relocates = none) (hok : job.ok s) :
    ReclaimInv (s.goto j job) := by
  refine h.goto hplain.1 (by simp [hplain]) ⟨hsweep, by simp [hplain], by simp [hplain], ?_, hok⟩
  rintro r x rfl
  exact nomatch hplain.2.2

theorem denseNext_ok {row stripe mirror} (had existed : Bool) (hrow : row.sweepHint = 0)
    (hs : stripe < mdsMaxStripes) :
    (∀ r, (denseNext row stripe mirror had existed).sweeping = some r → r = row) ∧
      (denseNext row stripe mirror had existed).ok s := by
  unfold denseNext
  split
  next hnext =>
    simp only [Bool.and_eq_true, decide_eq_true_eq] at hnext
    exact ⟨fun r hr => (some.inj hr).symm, hrow, hs, hnext.2⟩
  · split
    next hnext =>
      simp only [Bool.and_eq_true, decide_eq_true_eq] at hnext
      exact ⟨fun r hr => (some.inj hr).symm, hrow, hnext.2, by decide⟩
    · exact ⟨nofun, trivial⟩

theorem ReclaimInv.gcStep (h : ReclaimInv s) (hj : s.jobs[j]? = some job)
    (hdel : ∀ row, job.deletesMap = some row → row.fileid ∉ s.inodes)
    (hst : gcStep s j env job = some t) : ReclaimInv t := by
  have hmem := mem_of_getElem? hj
  have hjob := h.jobs _ hmem
  cases job with
  | sweep row todo =>
    have hrow : s.HasRow row := .inr ⟨_, hmem, rfl⟩
    cases todo with
    | nil =>
      cases hst
      exact h.gotoWorker nofun ⟨rfl, rfl, rfl⟩ trivial
    | cons p =>
      simp only [PnfsLattice.gcStep] at hst
      split at hst <;> cases hst
      · exact h.returned j
      · exact h.gotoWorker nofun ⟨rfl, rfl, rfl⟩ trivial
      have hunlinked := h.unlinkFile (x := ⟨row.dsId, row.fileid, p.1, p.2⟩) hrow
        ⟨rfl, rfl, hjob p mem_cons_self⟩
      refine hunlinked.gotoWorker ?_ ⟨rfl, rfl, rfl⟩ fun q hq =>
        hjob q (mem_cons_of_mem p hq)
      rintro _ ⟨⟩
      unfold ReclaimSys.unlinkFile
      split <;> exact hrow
  | dense row stripe mirror had =>
    have hrow : s.HasRow row := .inr ⟨_, hmem, rfl⟩
    obtain ⟨hhint, hs, hm⟩ := hjob
    have hcovers : row.covers ⟨row.dsId, row.fileid, stripe, mirror⟩ := by
      refine ⟨rfl, rfl, ?_⟩
      rw [GcRow.sweeps, hhint]
      exact ⟨hs, hm⟩
    simp only [PnfsLattice.gcStep] at hst
    split at hst <;> cases hst
    · exact h.returned j
    · exact h.gotoWorker nofun ⟨rfl, rfl, rfl⟩ trivial
    obtain ⟨hsw, hok⟩ := denseNext_ok had _ hhint hs
    refine (h.unlinkFile hrow hcovers).gotoWorker (fun r hr => ?_) ?_ hok
    · rw [hsw r hr]
      unfold ReclaimSys.unlinkFile
      split <;> exact hrow
    · unfold denseNext
      split_ifs <;> exact ⟨rfl, rfl, rfl⟩
  | mapDel row =>
    have hgone := hdel row rfl
    cases hst
    refine ReclaimInv.gotoWorker (ReclaimInv.delMap ?_ hgone) nofun ⟨rfl, rfl, rfl⟩ trivial
    split
    next hsome => exact h.noteDeleted hgone hsome
    · exact h
  | dequeue =>
    cases hst
    refine ReclaimInv.returned ?_ j
    exact h.shrink { s.within_jobs s.jobs with gc := fun r hr => (mem_filter.mp hr).1 }
      rfl rfl
  | _ => cases hst

theorem ReclaimInv.create (h : ReclaimInv s) {files}
    (hb : map.stripeCount ≤ mdsMaxStripes ∧ map.mirrorCount ≤ mdsMaxMirrors) : ReclaimInv { s with
      nextFileid := s.nextFileid + 1, files,
      jobs := s.jobs ++ [.createCommit s.nextFileid map] } := by
  refine h.spawn { s.within_jobs s.jobs with next := Nat.le_succ _ } rfl ?_ nofun
    ⟨nofun, ?_, nofun, nofun, hb⟩
  · rintro f ⟨⟩
    exact ⟨rfl, Nat.lt_succ_self _⟩
  · rintro f ⟨⟩
    exact .inl le_rfl

theorem processOneEntry_ok (row : GcRow) :
    (processOneEntry row).sweeping = some row ∧ (processOneEntry row).creates = none ∧
      (processOneEntry row).buries = none ∧ (processOneEntry row).relocates = none ∧
      (processOneEntry row).ok s := by
  unfold processOneEntry
  split
  next hslot =>
    refine ⟨rfl, rfl, rfl, rfl, fun p hp => ?_⟩
    rw [mem_singleton.mp hp, GcRow.sweeps, if_pos hslot]
    exact ⟨rfl, rfl⟩
  next hslot =>
    split
    next hhint =>
      refine ⟨rfl, rfl, rfl, rfl, fun p hp => ?_⟩
      obtain ⟨a, ha, hp⟩ := mem_flatMap.mp hp
      obtain ⟨b, hb, rfl⟩ := mem_map.mp hp
      rw [GcRow.sweeps, if_neg hslot, if_pos hhint]
      exact ⟨mem_range.mp ha, mem_range.mp hb⟩
    next hhint => exact ⟨rfl, rfl, rfl, rfl, not_not.mp hhint, by decide, by decide⟩

theorem ReclaimInv.step {op} (h : ReclaimInv s) (hok : ReclaimApart s op)
    (hst : reclaimStep s op = some t) : ReclaimInv t := by
  cases op with
  | relocate =>
    obtain ⟨haway, halone, hgc, hsw⟩ := hok
    cases hst
    refine h.spawn (s.within_jobs _) rfl nofun ?_
      ⟨nofun, nofun, nofun, ?_, haway, fun _ => ⟨?_, nofun, nofun, nofun⟩⟩
    · rintro f ⟨⟩
      exact halone
    · rintro _ x ⟨⟩ -
      rfl
    · rintro - row (hrow | ⟨a, ha, hrow⟩)
      · exact hgc row hrow
      · exact hsw a ha row hrow
  | create =>
    simp only [reclaimStep] at hst
    split at hst <;> cases hst
    next hb => exact h.create ⟨hb.2.1, hb.2.2.2⟩
  | remove =>
    cases hst
    exact h.spawn (s.within_jobs _) rfl nofun nofun ⟨nofun, nofun, nofun, nofun, trivial⟩
  | peek =>
    simp only [reclaimStep, map_eq_some_iff] at hst
    obtain ⟨row, hrow, rfl⟩ := hst
    obtain ⟨hsw, hcreates, hburies, hrel, hjob⟩ := processOneEntry_ok (s := s) row
    refine h.spawn (s.within_jobs _) rfl (by simp [hcreates]) (by simp [hrel])
      ⟨fun r hr => ?_, by simp [hcreates], by simp [hburies], fun r x hx => ?_, hjob⟩
    · cases mem_unique hsw hr
      exact .inl (mem_of_find?_eq_some hrow)
    · rw [hx] at hrel
      cases hrel
  | job j env =>
    simp only [reclaimStep, bind_eq_some_iff] at hst
    obtain ⟨job, hj, hst⟩ := hst
    unfold reclaimJobStep at hst
    split at hst
    · cases hst
      exact h.moverStep hj
    cases hrem : PnfsLattice.removeStep s j env job with
    | some =>
      rw [hrem] at hst
      cases hst
      exact h.removeStep hj hrem
    | none =>
      rw [hrem] at hst
      exact h.gcStep hj (fun row hrow => hok job hj row hrow) hst

theorem ReclaimInv.start (h : ReclaimStart s) : ReclaimInv s := by
  have hrows : ∀ row, s.HasRow row → row ∈ s.gc := by simp [ReclaimSys.HasRow, h.jobs]
  have hsole : ∀ claim : ReclaimJob → Option ℕ, SoleClaims s.jobs claim := by
    simp [SoleClaims, h.jobs]
  refine ⟨fun f hf => ⟨by simp [h.mapDeleted], fun _ _ x hx _ => ?_⟩, fun f hf => ?_, hsole _,
    by simp [h.jobs], hsole _, by simp [h.jobs], fun e he => (h.maps e he).2, by simp [h.jobs]⟩
  · refine ⟨by simp [h.unlinked], fun row hrow hc => (h.rows row (hrows row hrow)).2 ?_⟩
    rwa [hc.1, hx]
  · have hnext : s.nextFileid ≤ f := by simpa [ReclaimSys.Fresh, h.jobs] using hf
    refine ⟨fun hin => ?_, ?_, by simp [h.mapDeleted], by simp [h.unlinked],
      fun row hrow heq => ?_, by simp [h.jobs]⟩
    · exact absurd (h.inodes f hin) (Nat.not_lt.mpr hnext)
    · rw [ReclaimSys.map, findKey_eq_none.mpr]
      · rfl
      · rintro e he rfl
        exact absurd (h.maps e he).1 (Nat.not_lt.mpr hnext)
    · exact absurd (h.rows row (hrows row hrow)).1 (Nat.not_lt.mpr (heq ▸ hnext))

end Steps

/-- **Reclamation spares live files** in a run in which relocations begin only when nothing is
queued or swept that covers their copy, one at a time for each file, and in which workers
delete the stripe maps of files that are gone. -/
theorem reclaim_spares_live {s : ReclaimSys}
    (h : Reachable ReclaimStart reclaimStep ReclaimApart s) : LiveUntouched s := by
  have hinv : ReclaimInv s :=
    h.invariant (P := ReclaimInv) (fun _ h => .start h) fun _ _ _ h hok hst => h.step hok hst
  intro f hf
  obtain ⟨hdel, hnamed⟩ := hinv.live f hf
  exact ⟨hdel, fun map hm x hx hn => (hnamed map hm x hx hn).1⟩

/-- File 3 with one backing file, on data server 7. -/
def oneFile : ReclaimSys :=
  { nextFileid := 4, nextSeq := 1, inodes := [3], maps := [(3, ⟨1, 65536, 1, [⟨7, [1]⟩]⟩)]
    gc := [], files := [⟨7, 3, 0, 0⟩], jobs := [], unlinked := [], mapDeleted := [] }

/-- A step of job `j` that goes well. -/
def reclaimAt (j : ℕ) : ReclaimOp := .job j { ok := true, unlink := .ok }

/-- A relocation of file 3 as job `j`. -/
def relocateAs (j : ℕ) (source target : UInt32) : List ReclaimOp :=
  .relocate ⟨3, source, 0, target, 0, true, [1]⟩ :: List.replicate 7 (reclaimAt j)

/-- The file moves to data server 8, a worker unlinks the backing file it has left, the file is
removed, and the worker goes on. -/
theorem reclaim_spares_live_moved :
    ∃ s, Reachable ReclaimStart reclaimStep ReclaimApart s ∧ LiveUntouched s ∧
      s.unlinked = [⟨7, 3, 0, 0⟩] ∧ s.mapDeleted = [] := by
  have hs : Reachable ReclaimStart reclaimStep ReclaimApart _ := .run oneFile (relocateAs 0 7 8 ++
    [.peek 1, reclaimAt 1, .remove .fused 3, reclaimAt 2, reclaimAt 2, reclaimAt 1, reclaimAt 1])
    ⟨rfl, rfl, rfl, by decide, by decide, by decide⟩
  exact ⟨_, hs, reclaim_spares_live hs, rfl, rfl⟩

/-- A worker deletes the stripe map of a file that a relocation has moved; and when a file has
moved to another data server and back before the first row is taken, a worker unlinks the
backing file in use. -/
theorem reclaim_touches_live : (∃ s, exec reclaimStep oneFile (relocateAs 0 7 8 ++
        .peek 1 :: List.replicate 3 (reclaimAt 1)) = some s ∧
      3 ∈ s.inodes ∧ 3 ∈ s.mapDeleted ∧ s.map 3 = none) ∧
    ∃ s, exec reclaimStep oneFile (relocateAs 0 7 8 ++ relocateAs 1 8 7 ++
        [.peek 1, reclaimAt 2]) = some s ∧
      3 ∈ s.inodes ∧ ∃ map, s.map 3 = some map ∧ map.names ⟨7, 3, 0, 0⟩ ∧
        (⟨7, 3, 0, 0⟩ : DsFile) ∈ s.unlinked :=
  ⟨⟨_, rfl, by decide⟩, ⟨_, rfl, by decide, _, rfl, by decide⟩⟩

end PnfsLattice
