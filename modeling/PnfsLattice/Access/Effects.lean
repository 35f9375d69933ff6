import PnfsLattice.Access.System
import PnfsLattice.Catalogue.Attrs

/-!
# What the handlers do

Where the calls of a handler come from, and what each call touches. `Planned` has one
constructor for each kind of call, with the guards that stand before it; whatever is proved
of the handlers afterwards is proved by cases on it.
-/

namespace PnfsLattice

open Lib Plan Memdb Function

/-! ## Where a call comes from -/

/-- The stateid with which an operation asks to change the contents of the current file. -/
def AccOp.writeSid : AccOp → Option Stateid
  | .write sid _ _ _ | .writeSame sid _ _ _ _ | .allocate sid _ _ _ | .deallocate sid _ _ _ =>
    some sid
  | .copy _ dstSid _ _ _ _ | .clone _ dstSid _ _ _ _ => some dstSid
  | _ => none

/-- WRITE, which alone of them clears the set-id bits. -/
def AccOp.isWrite : AccOp → Bool
  | .write _ _ _ _ => true
  | _ => false

/-- The file whose extended attributes an operation changes. -/
def AccOp.xattrTarget (cd : AccCompound) : AccOp → Option Fileid
  | .create _ _ _ | .remove _ => (cd.currentFh.filter isXattrFh).map xattrBaseFileid
  | .setxattr _ _ _ _ | .removexattr _ => cd.currentFh
  | .write _ _ _ _ =>
    if cd.xattrObj.isSome then some (xattrBaseFileid (cd.currentFh.getD 0)) else none
  | _ => none

/-- The name of the attribute that an operation puts. -/
def AccOp.xattrPutName (cd : AccCompound) : AccOp → Option Name
  | .create name _ _ | .setxattr name _ _ _ => some name
  | .write _ _ _ _ => cd.xattrObj
  | _ => none

/-- The attributes of a new object. -/
def AccOp.createReq : AccOp → Option CreateReq
  | .create _ _ a => some a
  | .openFile a => a.create.map fun h =>
    { h.attrs with
      mode := if h.createmode = .exclusive ∧ h.attrs.mode = 0 then 0o600 else h.attrs.mode }
  | _ => none

/-- The open tables that the handlers leave. -/
inductive OpensFrom (now : ℕ) (s : AccStore) (cd : AccCompound) (op : AccOp) : OpenTable → Prop
  | same : OpensFrom now s cd op s.ot
  | opened {a fh t} (hop : op = .openFile a) (hfh : cd.currentFh = some fh)
      (htarget : openTarget now s cd fh a = .ok t)
      (hmay : (t.created.isSome || openModeCheck cd.cred t.ino (openMay a.shareAccess)) = true) :
      OpensFrom now s cd op (openStateOpen s.ot a.alloc a.leaseExpired
        { clientid := cd.clientid, openOwner := a.openOwner, fileid := t.ino.fh
          shareAccess := a.shareAccess, shareDeny := a.shareDeny }).1
  | closed {sid} : OpensFrom now s cd op (openStateClose s.ot cd.clientid sid).1
  | downgraded {sid shareAccess shareDeny} :
      OpensFrom now s cd op
        (openStateDowngrade s.ot cd.clientid sid shareAccess shareDeny).1

/-- The calls that the handlers make, with what they have checked. -/
inductive Planned (now : ℕ) (s : AccStore) (cd : AccCompound) (op : AccOp) : AccAct → Prop
  /-- Data is changed after the validator has admitted the stateid. -/
  | edit {fh sid e} (hsid : op.writeSid = some sid) (hfh : cd.currentFh = some fh)
      (hio : ioCheck s cd fh sid .write = .ok ()) :
      Planned now s cd op (.edit fh e)
  /-- A WRITE updates times, size and mode. -/
  | wrote {fh sid ino stop} (hsid : op.writeSid = some sid) (hfh : cd.currentFh = some fh)
      (hio : ioCheck s cd fh sid .write = .ok ()) (hino : s.getattr fh = some ino) :
      Planned now s cd op
        (.setattr fh (writeAttrs cd.cred ino stop).1 (writeAttrs cd.cred ino stop).2)
  /-- The other writers only make the file longer. -/
  | grow {fh sid ino stop} (hsid : op.writeSid = some sid) (hwrite : op.isWrite = false)
      (hfh : cd.currentFh = some fh) (hio : ioCheck s cd fh sid .write = .ok ())
      (hino : s.getattr fh = some ino) (hlt : ino.size < stop) :
      Planned now s cd op (.setattr fh { ino with size := stop } attrSize)
  /-- Attributes are put and deleted without a check. -/
  | xattrPut {f name val} (hf : op.xattrTarget cd = some f)
      (hname : op.xattrPutName cd = some name) :
      Planned now s cd op (.xattrPut f name val)
  | xattrDel {f name} (hf : op.xattrTarget cd = some f) :
      Planned now s cd op (.xattrDel f name)
  /-- The flag behind an attribute is root's. -/
  | hpcShared {fh ino flags} (hroot : cd.cred.uid = 0) (hino : s.getattr fh = some ino) :
      Planned now s cd op (.setattr fh { ino with flags } attrFlags)
  /-- SETATTR, past the permission matrix. -/
  | setattr {fh sid attrs mask pre new} (hop : op = .setattr sid attrs mask)
      (hfh : cd.currentFh = some fh)
      (hio : hasStateid sid = true → ioCheck s cd fh sid .write = .ok ())
      (hpre : s.getattr fh = some pre)
      (hdac : setattrDacCheck cd.cred pre ⟨attrs, mask, hasStateid sid⟩ = .ok new) :
      Planned now s cd op (.setattr fh new.1 new.2)
  /-- LAYOUTCOMMIT. -/
  | layoutcommit {fh sid lastWrite timeModify ino}
      (hop : op = .layoutcommit sid lastWrite timeModify) (hfh : cd.currentFh = some fh)
      (hino : s.getattr fh = some ino) :
      Planned now s cd op (.setattr fh (layoutCommitAttrs now cd.cred ino lastWrite timeModify).1
        (layoutCommitAttrs now cd.cred ino lastWrite timeModify).2)
  /-- CREATE, and OPEN of a name that is free. -/
  | create {fh parent a name type} (hreq : op.createReq = some a) (hfh : cd.currentFh = some fh)
      (hpar : s.getattr fh = some parent) (hmut : dirMutateCheck cd.cred parent = true)
      (hfree : s.cat.direntFind fh.toNat name = none) :
      Planned now s cd op (.ns (.create (a.args cd.cred fh.toNat name type)))
  | remove {fh name d} (hop : op = .remove name) (hfh : cd.currentFh = some fh)
      (hd : s.cat.direntFind fh.toNat name = some d)
      (hmut : (s.getattr fh).all (dirMutateCheck cd.cred) = true)
      (hsticky : ((s.getattr fh).all fun dir =>
        stickyOk cd.cred dir (memNsLookup s.cat fh.toNat name).toOption) = true) :
      Planned now s cd op (.ns (.remove fh.toNat name))
  | rename {src dst srcName dstName nsFlags} (hop : op = .rename srcName dstName nsFlags)
      (hsrc : cd.savedFh = some src) (hdst : cd.currentFh = some dst)
      (hdac : renameDacCheck s cd.cred src dst srcName dstName = .ok ()) :
      Planned now s cd op (.ns (.renameFlags src.toNat srcName dst.toNat dstName nsFlags))
  | link {fh} {target : Fileid} {dir name} (hop : op = .link name) (hfh : cd.currentFh = some fh)
      (hdir : s.getattr fh = some dir) (hmut : dirMutateCheck cd.cred dir = true)
      (hfree : s.cat.direntFind fh.toNat name = none) :
      Planned now s cd op (.ns (.link fh.toNat name target.toNat))
  /-- An OPEN for writing clears the set-id bits of an existing file. -/
  | openClears {a f ino mode} (hop : op = .openFile a) (hino : s.cat.inodeFind f = some ino)
      (hmay : openModeCheck cd.cred ino (openMay a.shareAccess) = true)
      (hclear : writeClearsSetid cd.cred ino = some mode) :
      Planned now s cd op (.setattr ino.fh { ino with mode } attrMode)
  | tables {ot lt dt} (hot : OpensFrom now s cd op ot) : Planned now s cd op (.tables ot lt dt)

variable {now : ℕ} {s t : AccStore} {cd : AccCompound} {op : AccOp} {a : AccAct} {f fh : Fileid}
  {name : Name}

section Lookups

variable {m : Memdb} {p : CatFileid} {child : MdsInode}

theorem memNsLookup_ok (h : memNsLookup m p name = .ok child) :
    ∃ d, m.direntFind p name = some d ∧ m.inodeFind d.childFileid = some child := by
  unfold memNsLookup at h
  split at h <;> cases h
  next hc => exact Option.bind_eq_some_iff.mp hc

theorem lookupLocalChild_ok (h : lookupLocalChild m p name = .ok child) :
    memNsLookup m p name = .ok child := by
  unfold lookupLocalChild at h
  split at h
  · cases h
  split at h
  · cases h
  split at h <;> cases h
  next c hc =>
    obtain ⟨hc, -⟩ := Option.filter_eq_some_iff.mp hc
    cases hl : memNsLookup m p name with
    | error => rw [hl] at hc; cases hc
    | ok => rw [hl] at hc; cases hc; rfl

theorem inodeFind_of_lookupLocalChild (h : lookupLocalChild m p name = .ok child) :
    ∃ f, m.inodeFind f = some child :=
  have ⟨d, _, hc⟩ := memNsLookup_ok (lookupLocalChild_ok h)
  ⟨d.childFileid, hc⟩

end Lookups

/-- An OPEN is of a file that is there, or of one that it creates under its checks. -/
inductive OpenOrigin (s : AccStore) (cd : AccCompound) (fh : Fileid) (a : OpenReq) :
    OpenTarget → Prop
  | existing {f ino} (hino : s.cat.inodeFind f = some ino) : OpenOrigin s cd fh a ⟨ino, none⟩
  | created {parent ino c name} (hpar : s.getattr fh = some parent)
      (hmut : dirMutateCheck cd.cred parent = true) (hreq : (AccOp.openFile a).createReq = some c)
      (hfree : s.cat.direntFind fh.toNat name = none) (hnew : ino.fileid = s.cat.nextFileid) :
      OpenOrigin s cd fh a ⟨ino, some (c.args cd.cred fh.toNat name .reg)⟩

section Open

variable {a : OpenReq} {t : OpenTarget}

theorem openOrigin_of_lookup {p ino} (h : lookupLocalChild s.cat p name = .ok ino) :
    OpenOrigin s cd fh a ⟨ino, none⟩ :=
  have ⟨_, hino⟩ := inodeFind_of_lookupLocalChild h
  .existing hino

theorem openCreateFile_ok {parent hw} (hpar : s.getattr fh = some parent)
    (hcr : a.create = some hw) (h : openCreateFile now s cd fh name hw = .ok t) :
    OpenOrigin s cd fh a t := by
  unfold openCreateFile at h
  split at h
  · cases h
  next hmut =>
    rw [hpar, Bool.not_eq_true', Bool.not_eq_false] at hmut
    split at h
    next hok =>
      cases h
      obtain ⟨-, hfree, rfl, -⟩ := memNsCreate_ok hok
      exact .created hpar hmut (by rw [AccOp.createReq, hcr]; rfl) hfree rfl
    · split at h
      · split at h
        next hl =>
          cases h
          exact openOrigin_of_lookup hl
        all_goals cases h
      · cases h

theorem openByName_ok (h : openByName now s cd fh name a.create = .ok t) :
    OpenOrigin s cd fh a t := by
  unfold openByName at h
  split at h
  · cases h
  next hpar =>
    split at h
    · cases h
    split at h
    next hf => exact openCreateFile_ok hpar (Option.filter_eq_some_iff.mp hf).1 h
    · split at h
      next hl _ =>
        cases h
        exact openOrigin_of_lookup hl
      next hl _ =>
        split at h <;> cases h
        exact openOrigin_of_lookup hl
      · cases h
      next hcr => exact openCreateFile_ok hpar hcr h
      · cases h

theorem openTarget_ok (h : openTarget now s cd fh a = .ok t) : OpenOrigin s cd fh a t := by
  unfold openTarget at h
  split at h
  · exact openByName_ok h
  · split at h <;> cases h
    next hino => exact .existing hino

end Open

section Mem

variable {io : IoChoice} {r : AccReply} {sid : Stateid} {offset stop : UInt64}
  {follow : List AccAct}

theorem mem_ioResult {edits} (h : a ∈ (ioResult cd edits follow io r).acts) :
    a ∈ edits ∨ a ∈ follow := by
  unfold ioResult at h
  split at h
  · exact .inl h
  · exact List.mem_append.mp h

@[simp] theorem acts_ioReply : (ioReply cd io r).acts = [] := by
  unfold ioReply
  split <;> rfl

theorem mem_growActs (h : a ∈ growActs s fh stop) :
    ∃ ino, s.getattr fh = some ino ∧ ino.size < stop ∧
      a = .setattr fh { ino with size := stop } attrSize := by
  obtain ⟨ino, hino, rfl⟩ := List.mem_map.mp h
  rw [Option.mem_toList, Option.filter_eq_some_iff] at hino
  exact ⟨ino, hino.1, by simpa using hino.2, rfl⟩

theorem ok_of_mapError {ε ε' α : Type*} {x : Except ε α} {f : ε → ε'} {b : α}
    (h : x.mapError f = .ok b) : x = .ok b := by
  cases x with
  | error => cases h
  | ok =>
    cases h
    rfl

theorem planned_of_ioResult {e} (hsid : op.writeSid = some sid) (hfh : cd.currentFh = some fh)
    (hio : ioCheck s cd fh sid .write = .ok ()) (hfollow : ∀ a ∈ follow, Planned now s cd op a)
    (h : a ∈ (ioResult cd [.edit fh e] follow io r).acts) : Planned now s cd op a := by
  rcases mem_ioResult h with h | h
  · rw [List.mem_singleton.mp h]
    exact .edit hsid hfh hio
  · exact hfollow a h

theorem planned_of_growActs (hsid : op.writeSid = some sid) (hwrite : op.isWrite = false)
    (hfh : cd.currentFh = some fh) (hio : ioCheck s cd fh sid .write = .ok ()) :
    ∀ a ∈ growActs s fh stop, Planned now s cd op a := by
  intro a h
  obtain ⟨_, hino, hlt, rfl⟩ := mem_growActs h
  exact .grow hsid hwrite hfh hio hino hlt

theorem planned_planCreate {type : FileType} {req : CreateReq}
    (h : a ∈ (planCreate now s cd name type req).acts) :
    Planned now s cd (.create name type req) a := by
  simp only [planCreate, mem_get, mem_need] at h
  obtain ⟨_, hfh, -, -, h⟩ := h
  split at h
  next hx =>
    obtain ⟨_, -, h⟩ := mem_check.mp h
    rw [List.mem_singleton.mp h]
    exact .xattrPut (by simp [AccOp.xattrTarget, hfh, hx]) rfl
  · simp only [mem_get, mem_need, mem_check, List.mem_singleton] at h
    obtain ⟨_, hpar, -, hmut, _, hchild, rfl⟩ := h
    exact .create rfl hfh hpar hmut (memNsCreate_ok (ok_of_mapError hchild)).2.1

theorem planned_planRemove (h : a ∈ (planRemove now s cd name).acts) :
    Planned now s cd (.remove name) a := by
  simp only [planRemove, mem_get, mem_need] at h
  obtain ⟨_, hfh, -, h⟩ := h
  split at h
  next hx =>
    obtain ⟨-, h⟩ := mem_need.mp h
    rw [List.mem_singleton.mp h]
    exact .xattrDel (by simp [AccOp.xattrTarget, hfh, hx])
  · simp only [mem_need, mem_check, List.mem_singleton] at h
    obtain ⟨hmut, hsticky, _, hok, rfl⟩ := h
    obtain ⟨d, -, hd, -⟩ := unlinkLocked_ok (ok_of_mapError hok)
    exact .remove rfl hfh hd hmut hsticky

theorem planned_planHpcShared {ino wantSet} (hino : s.getattr fh = some ino)
    (h : a ∈ (planHpcShared cd fh ino wantSet).acts) : Planned now s cd op a := by
  simp only [planHpcShared, mem_need, decide_eq_true_eq] at h
  obtain ⟨hroot, h⟩ := h
  generalize (if wantSet then ino.flags ||| iflagHpcShared else _) = flags at h
  split at h
  · cases h
  · rw [List.mem_singleton.mp h]
    exact .hpcShared hroot hino

theorem planned_planWrite {bytes} (h : a ∈ (planWrite s cd sid offset bytes io).acts) :
    Planned now s cd (.write sid offset bytes io) a := by
  unfold planWrite at h
  split at h
  next hx =>
    simp only [mem_need, mem_check, List.mem_singleton] at h
    obtain ⟨-, _, -, rfl⟩ := h
    exact .xattrPut (by simp [AccOp.xattrTarget, hx]) hx
  · simp only [mem_get, mem_need, mem_check] at h
    obtain ⟨_, hfh, -, _, hio, h⟩ := h
    split at h
    · rw [List.mem_singleton.mp h]
      exact .edit rfl hfh hio
    refine planned_of_ioResult rfl hfh hio (fun a ha => ?_) h
    split at ha
    · cases ha
    · obtain ⟨_, hino, rfl⟩ := List.mem_map.mp ha
      exact .wrote rfl hfh hio (Option.mem_toList.mp hino)

theorem planned_planOpen {req} (h : a ∈ (planOpen now s cd req).acts) :
    Planned now s cd (.openFile req) a := by
  simp only [planOpen, mem_get, mem_need, mem_check] at h
  obtain ⟨_, hfh, t, ht, -, hmay, h⟩ := h
  -- The open state comes last, after the create or the cleared bits.
  have hacts : a ∈ t.created.toList.map (fun c => AccAct.ns (.create c)) ∨
      a ∈ openClears cd.cred t req.shareAccess ∨ ∃ ot lt dt, a = .tables ot lt dt ∧
        OpensFrom now s cd (.openFile req) ot := by
    have hot : OpensFrom now s cd (.openFile req) _ := .opened rfl hfh ht hmay
    unfold openFinish at h
    split at h <;> next heq =>
      rw [heq] at hot
      rw [List.mem_append, List.mem_append, or_assoc, List.mem_singleton] at h
      exact h.imp id (.imp id fun h => ⟨_, _, _, h, hot⟩)
  rcases hacts with h | h | ⟨_, _, _, rfl, hot⟩
  · obtain ⟨c, hc, rfl⟩ := List.mem_map.mp h
    cases openTarget_ok ht with
    | existing => cases hc
    | created hpar hmut hreq hfree =>
      obtain rfl := Option.some.inj (Option.mem_toList.mp hc)
      exact .create hreq hfh hpar hmut hfree
  · unfold openClears at h
    split at h
    next hnew =>
      obtain ⟨_, hmode, rfl⟩ := List.mem_map.mp h
      cases openTarget_ok ht with
      | existing hino =>
        exact .openClears rfl hino (by simpa using hmay) (Option.mem_toList.mp hmode)
      | created => cases hnew.1
    · cases h
  · exact .tables hot

theorem planned_tables {ot lt dt} (hot : OpensFrom now s cd op ot)
    (h : a ∈ [AccAct.tables ot lt dt]) : Planned now s cd op a := by
  rw [List.mem_singleton.mp h]
  exact .tables hot

theorem planned_lockAnswer {r} (h : a ∈ (lockAnswer s cd r).acts) : Planned now s cd op a := by
  unfold lockAnswer at h
  split at h <;> exact planned_tables .same h

/-- The operations that only read, or move the filehandles. -/
def AccOp.reading : AccOp → Bool
  | .putfh _ | .savefh | .restorefh | .lookup _ | .lookupp | .openattr | .readdir _ _ | .getxattr _
  | .listxattrs _ _ | .read _ _ _ _ | .seek _ _ _ _ | .readPlus _ _ _ _ _ => true
  | _ => false

theorem acts_of_reading (hread : op.reading = true) : (accPlan now s cd op).acts = [] := by
  refine List.eq_nil_iff_forall_not_mem.mpr fun a h => ?_
  cases op with
  | putfh | savefh | restorefh | lookupp | openattr | listxattrs | seek =>
    simp [accPlan, planPutfh, planSavefh, planRestorefh, planLookupp, planOpenattr, planListxattrs,
      planSeek, AccCompound.done] at h
  | lookup =>
    simp only [accPlan, planLookup, mem_get, mem_need] at h
    obtain ⟨fh, -, -, h⟩ := h
    split at h <;> simp [AccCompound.done] at h
  | readdir | getxattr =>
    simp only [accPlan, planReaddir, planGetxattr, mem_get] at h
    obtain ⟨_, -, h⟩ := h
    split at h <;> simp at h
  | read =>
    simp only [accPlan, planRead] at h
    split at h <;> simp at h
  | readPlus =>
    simp only [accPlan, planReadPlus, mem_get, mem_check] at h
    obtain ⟨_, _, _, _, _, _, h⟩ := h
    split at h
    · cases h
    · split at h <;> try simp at h
      split at h <;> simp at h
  | _ => cases hread

theorem planned_of_mem (h : a ∈ (accPlan now s cd op).acts) : Planned now s cd op a := by
  cases op with
  | create => exact planned_planCreate h
  | remove => exact planned_planRemove h
  | rename =>
    simp only [accPlan, planRename, mem_get, mem_need, mem_check] at h
    obtain ⟨src, hsrc, dst, hdst, -, -, _, hdac, h⟩ := h
    split at h
    · cases h
    · simp only [mem_check, List.mem_singleton] at h
      obtain ⟨-, -, rfl⟩ := h
      exact .rename rfl hsrc hdst hdac
  | link =>
    simp only [accPlan, planLink, mem_get, mem_need, mem_check, List.mem_singleton] at h
    obtain ⟨_, -, fh, hfh, -, -, hmut, _, hok, rfl⟩ := h
    obtain ⟨_, -, hdir, -, hfree, -⟩ := memNsLink_ok (ok_of_mapError hok)
    rw [AccStore.getattr, hdir] at hmut
    exact .link rfl hfh hdir hmut hfree
  | setattr =>
    simp only [accPlan, planSetattr, mem_get, mem_check] at h
    obtain ⟨fh, hfh, _, hio, _, hpre, _, hdac, h⟩ := h
    split at h
    · cases h
    · rw [List.mem_singleton.mp h]
      exact .setattr rfl hfh (fun hs => by rwa [if_pos hs] at hio) hpre (ok_of_mapError hdac)
  | setxattr =>
    simp only [accPlan, planSetxattr, mem_get, mem_need] at h
    obtain ⟨fh, hfh, -, ino, hino, h⟩ := h
    split at h
    · exact planned_planHpcShared hino (mem_need.mp h).2
    · simp only [mem_check, List.mem_singleton] at h
      obtain ⟨_, -, _, -, rfl⟩ := h
      exact .xattrPut hfh rfl
  | removexattr =>
    simp only [accPlan, planRemovexattr, mem_get] at h
    obtain ⟨fh, hfh, ino, hino, h⟩ := h
    split at h
    · exact planned_planHpcShared hino h
    · simp only [mem_need, List.mem_singleton] at h
      rw [h.2]
      exact .xattrDel hfh
  | layoutcommit =>
    simp only [accPlan, planLayoutcommit, mem_get, mem_check, mem_need] at h
    obtain ⟨fh, hfh, -, -, ino, hino, -, h⟩ := h
    split at h
    · cases h
    · rw [List.mem_singleton.mp h]
      exact .layoutcommit rfl hfh hino
  | write => exact planned_planWrite h
  | writeSame =>
    simp only [accPlan, planWriteSame, mem_get, mem_need, mem_check] at h
    obtain ⟨fh, hfh, -, _, hio, -, h⟩ := h
    exact planned_of_ioResult rfl hfh hio (planned_of_growActs rfl rfl hfh hio) h
  | allocate =>
    simp only [accPlan, planAllocate, mem_get, mem_need, mem_check] at h
    obtain ⟨fh, hfh, ino, -, -, _, hio, -, h⟩ := h
    exact planned_of_ioResult rfl hfh hio (planned_of_growActs rfl rfl hfh hio) h
  | deallocate =>
    simp only [accPlan, planDeallocate, mem_get, mem_need, mem_check] at h
    obtain ⟨fh, hfh, _, -, -, _, hio, h⟩ := h
    exact planned_of_ioResult rfl hfh hio (fun a ha => by cases ha) h
  | copy =>
    simp only [accPlan, planCopy, mem_get, mem_need, mem_check] at h
    obtain ⟨src, -, dst, hdst, _, -, _, hio, n, -, -, h⟩ := h
    split at h
    · rw [List.mem_singleton.mp h]
      exact .edit rfl hdst hio
    · refine planned_of_ioResult rfl hdst hio (fun a ha => ?_) h
      split at ha
      · cases ha
      · exact planned_of_growActs rfl rfl hdst hio a ha
  | clone =>
    simp only [accPlan, planClone, mem_get, mem_need, mem_check] at h
    obtain ⟨_, -, _, hdst, _, -, _, -, -, _, -, _, hio, h⟩ := h
    split at h
    · cases h
    · obtain ⟨-, h⟩ := mem_need.mp h
      exact planned_of_ioResult rfl hdst hio (planned_of_growActs rfl rfl hdst hio) h
  | openFile => exact planned_planOpen h
  | close sid =>
    simp only [accPlan, planClose, mem_get, mem_check] at h
    obtain ⟨fh, -, sid', -, h⟩ := h
    split at h
    · cases h
    next heq =>
      refine planned_tables ?_ h
      have hot : OpensFrom now s cd (.close sid) (openStateClose s.ot cd.clientid sid').1 := .closed
      rwa [heq] at hot
  | openDowngrade sid shareAccess shareDeny =>
    simp only [accPlan, planDowngrade, mem_get, mem_need, mem_check] at h
    obtain ⟨_, -, -, sid', -, h⟩ := h
    split at h
    · cases h
    next heq =>
      refine planned_tables ?_ h
      have hot : OpensFrom now s cd (.openDowngrade sid shareAccess shareDeny)
          (openStateDowngrade s.ot cd.clientid sid' shareAccess shareDeny).1 := .downgraded
      rwa [heq] at hot
  | delegreturn =>
    obtain ⟨_, -, h⟩ := mem_check.mp h
    exact planned_tables .same h
  | lock
  | locku => exact planned_lockAnswer h
  | _ =>
    rw [acts_of_reading rfl] at h
    cases h

end Mem

/-! ## What a call touches -/

/-- The call changes the data or the size of the file. -/
def AccAct.WritesData (f : Fileid) : AccAct → Prop
  | .edit g _ => g = f
  | .setattr g _ mask => g = f ∧ selects mask (attrSize ||| attrSizeExtend) = true
  | _ => False

/-- The call changes the data, the size or an extended attribute of the file. -/
def AccAct.Writes (f : Fileid) : AccAct → Prop
  | .xattrPut g _ _ | .xattrDel g _ => g = f
  | a => a.WritesData f

theorem AccAct.WritesData.writes (h : a.WritesData f) : a.Writes f := by
  cases a with
  | xattrPut | xattrDel => exact h.elim
  | _ => exact h

/-- The names that the call may rebind. -/
def AccAct.names : AccAct → List NameKey
  | .ns c => c.names
  | _ => []

theorem Planned.not_wide {c} (h : Planned now s cd op (.ns c)) (alloc : Bool)
    (a : CreateWideArgs) : c ≠ .createWide alloc a := by
  cases h <;> nofun

section Frame

variable {ino' : MdsInode} {k : NameKey}

theorem data_applyAct (h : ¬a.WritesData f) : (applyAct now t a).data f = t.data f := by
  cases a with
  | edit => exact update_of_ne (fun hf => h hf.symm) _ _
  | _ => rfl

section Xattrs

variable {g : Fileid} {val : List UInt8}

theorem any_xattrOf (r : XattrRow) :
    decide (r.1 = (f, name)) = (xattrOf f r).any fun x => x.1 = name := by
  by_cases hr : r.1.1 = f <;> simp [xattrOf, Prod.ext_iff, hr]

theorem xattrOf_of_ne (h : g ≠ f) (r : XattrRow) (hr : decide (r.1 = (g, name)) = true) :
    xattrOf f r = none := by
  rw [decide_eq_true_eq] at hr
  simp [xattrOf, hr, h]

theorem xattrsOf_putXattr_of_ne (h : g ≠ f) :
    (used (t.putXattr g name val)).filterMap (xattrOf f) = t.xattrsOf f := by
  unfold AccStore.putXattr
  split
  · rw [used_slotWrite]
    refine filterMap_modifyFirst_of_eq (fun r hr => ?_) _
    rw [xattrOf_of_ne h r hr]
    exact xattrOf_of_ne h (r.1, val) hr
  · rw [used_slotPut_eq]
    simp [xattrOf, h, AccStore.xattrsOf, used_split t.xattrs]

/-- All slots of the file's attributes lie before the first free slot. -/
def AccStore.AppendsXattr (s : AccStore) (f : Fileid) : Prop :=
  ∀ r ∈ used (s.xattrs.dropWhile Option.isSome), r.1.1 ≠ f
deriving Decidable

/-- What a put does to the attributes of its file: a new one comes last, if the first free slot
does. -/
theorem xattrsOf_putXattr (h : t.xattr f name = none → t.AppendsXattr f) :
    (used (t.putXattr f name val)).filterMap (xattrOf f) =
      if (t.xattr f name).isSome then
        modifyFirst (fun x => x.1 = name) (fun x => (x.1, val)) (t.xattrsOf f)
      else t.xattrsOf f ++ [(name, val)] := by
  unfold AccStore.putXattr
  split
  · rw [used_slotWrite]
    refine filterMap_modifyFirst any_xattrOf (fun r => ?_) _
    unfold xattrOf
    split <;> rfl
  next hnone =>
    have hlast : (used (t.xattrs.dropWhile Option.isSome)).filterMap (xattrOf f) = [] := by
      refine List.filterMap_eq_nil_iff.mpr fun r hr => ?_
      simp [xattrOf, h (by simpa using hnone) r hr]
    rw [used_slotPut_eq, AccStore.xattrsOf, used_split t.xattrs]
    simp [hlast, xattrOf]

theorem xattrsOf_xattrDel :
    (applyAct now t (.xattrDel g name)).xattrsOf f =
      if g = f then (t.xattrsOf f).eraseP fun x => x.1 = name else t.xattrsOf f := by
  simp only [applyAct, AccStore.xattrsOf, used_slotClear]
  split
  next heq =>
    subst heq
    exact filterMap_eraseP any_xattrOf _
  next hne => exact filterMap_eraseP_of_none (xattrOf_of_ne hne) _

theorem xattrsOf_purgeXattrs (cat : Memdb) :
    (used (t.purgeXattrs cat)).filterMap (xattrOf f) =
      if (t.getattr f).isNone || (cat.inodeFind f.toNat).isSome then t.xattrsOf f else [] := by
  rw [AccStore.purgeXattrs, used_map_filter, List.filterMap_filter]
  split
  next hkeep =>
    refine List.filterMap_congr fun r _ => ?_
    by_cases hr : r.1.1 = f
    · rw [hr, if_pos hkeep]
    · simp [xattrOf, hr]
  next hgone =>
    refine List.filterMap_eq_nil_iff.mpr fun r _ => ?_
    by_cases hr : r.1.1 = f
    · rw [hr, if_neg hgone]
    · simp [xattrOf, hr]

end Xattrs

theorem xattrsOf_applyAct (h : ¬a.Writes f) (hino : (applyAct now t a).getattr f = some ino') :
    (applyAct now t a).xattrsOf f = t.xattrsOf f := by
  cases a with
  | xattrPut => exact xattrsOf_putXattr_of_ne h
  | xattrDel => exact xattrsOf_xattrDel.trans (if_neg h)
  | ns =>
    refine (xattrsOf_purgeXattrs _).trans (if_pos ?_)
    exact Bool.or_eq_true_iff.mpr (.inr (congrArg Option.isSome hino))
  | _ => rfl

theorem data_accStep (h : ∀ a ∈ (accPlan now s cd op).acts, ¬a.WritesData f) :
    (accStep now s cd op).data f = s.data f :=
  run_induction (P := fun t : AccStore => t.data f = s.data f) rfl fun a ha _ ht =>
    (data_applyAct (h a ha)).trans ht

theorem cat_applyAct (a : AccAct) (t : AccStore) :
    (∃ c, a = .ns c ∧ nsCall now t.cat c = .ok (applyAct now t a).cat) ∨
      (applyAct now t a).cat = t.cat ∨
      ∃ f g, (applyAct now t a).cat = t.cat.inodeModify f g ∧
        ∀ i, (g i).fileid = i.fileid ∧ (g i).node = i.node := by
  cases a with
  | ns c =>
    cases hc : nsCall now t.cat c with
    | error => exact .inr (.inl (by simp [applyAct, hc, Except.toOption]))
    | ok => exact .inl ⟨c, rfl, by simp [applyAct, hc, Except.toOption]⟩
  | setattr f attrs mask =>
    by_cases hf : (t.cat.inodeFind f.toNat).isNone
    · exact .inr (.inl (by simp only [applyAct, memNsSetattr, if_pos hf]; rfl))
    · refine .inr (.inr ⟨f.toNat, setattrInode now attrs mask, ?_, fun _ => ⟨rfl, rfl⟩⟩)
      simp only [applyAct, memNsSetattr, if_neg hf]
      rfl
  | xattrPut f
  | xattrDel f => exact .inr (.inr ⟨f.toNat, inodeTouch now, rfl, fun _ => ⟨rfl, rfl⟩⟩)
  | edit | tables => exact .inr (.inl rfl)

theorem binding_applyAct (hk : k ∉ a.names) :
    (applyAct now t a).cat.binding k = t.cat.binding k := by
  rcases @cat_applyAct now a t with ⟨c, rfl, hc⟩ | heq | ⟨f, g, heq, -⟩
  · exact (rebinds_nsCall hc).keeps hk
  · rw [heq]
  · rw [heq]
    exact binding_congr rfl k

theorem binding_accStep (h : ∀ a ∈ (accPlan now s cd op).acts, k ∉ a.names) :
    (accStep now s cd op).cat.binding k = s.cat.binding k :=
  run_induction (P := fun t : AccStore => t.cat.binding k = s.cat.binding k) rfl
    fun a ha _ ht =>
    (binding_applyAct (h a ha)).trans ht

theorem nextFileid_applyAct (a : AccAct) (t : AccStore) :
    t.cat.nextFileid ≤ (applyAct now t a).cat.nextFileid := by
  rcases @cat_applyAct now a t with ⟨c, rfl, hc⟩ | heq | ⟨f, g, heq, -⟩
  · exact (rebinds_nsCall hc).nextFileid
  · rw [heq]
  · rw [heq]
    exact le_rfl

theorem nextFileid_accStep : s.cat.nextFileid ≤ (accStep now s cd op).cat.nextFileid :=
  run_induction (P := fun t : AccStore => s.cat.nextFileid ≤ t.cat.nextFileid) le_rfl
    fun a _ t ht => ht.trans (nextFileid_applyAct a t)

theorem getattr_setattr (f g : Fileid) (attrs : MdsInode) (mask : UInt32) :
    (applyAct now t (.setattr g attrs mask)).getattr f =
      if f = g then (t.getattr f).map (setattrInode now attrs mask) else t.getattr f := by
  cases hg : t.cat.inodeFind g.toNat with
  | none =>
    simp only [applyAct, memNsSetattr, hg, Option.isNone_none, if_true]
    split
    next heq =>
      rw [heq, show t.getattr g = none from hg]
      exact hg
    next => rfl
  | some =>
    simp only [applyAct, memNsSetattr, hg, Option.isNone_some, Bool.false_eq_true, if_false]
    refine (inodeFind_inodeModify (g := setattrInode now attrs mask) _ fun _ => rfl).trans ?_
    simp only [UInt64.toNat_inj]
    rfl

/-- What an inode was before a call: the same, but for the call's own changes. -/
theorem getattr_applyAct (hw : ∀ c, a = .ns c → ∀ alloc w, c ≠ .createWide alloc w)
    (h : (applyAct now t a).getattr f = some ino') :
    (∃ ino₁, t.getattr f = some ino₁ ∧ ino'.SameAttrs ino₁) ∨
      (∃ attrs mask ino₁, a = .setattr f attrs mask ∧ t.getattr f = some ino₁ ∧
        ino' = setattrInode now attrs mask ino₁) ∨
      ∃ args, a = .ns (.create args) ∧ f.toNat = t.cat.nextFileid ∧
        ino'.SameAttrs (args.child t.cat.nextFileid now) := by
  have htouch : ∀ g, (t.cat.inodeModify g (inodeTouch now)).inodeFind f.toNat = some ino' →
      ∃ ino₁, t.getattr f = some ino₁ ∧ ino'.SameAttrs ino₁ := by
    intro g hfind
    have hkeeps : t.cat.Keeps (t.cat.inodeModify g (inodeTouch now)) :=
      .touch (.refl t.cat) fun _ => rfl
    obtain ⟨ino₁, hino₁, hlater⟩ := hkeeps.inode _ ino' hfind
    exact ⟨ino₁, hino₁, hlater.toSameAttrs⟩
  cases a with
  | edit | tables => exact .inl ⟨ino', h, .refl ino'⟩
  | xattrPut | xattrDel => exact .inl (htouch _ h)
  | setattr g attrs mask =>
    rw [getattr_setattr] at h
    split at h
    next heq =>
      obtain rfl := heq
      obtain ⟨ino₁, hino₁, rfl⟩ := Option.map_eq_some_iff.mp h
      exact .inr (.inl ⟨attrs, mask, ino₁, rfl, hino₁, rfl⟩)
    next => exact .inl ⟨ino', h, .refl ino'⟩
  | ns c =>
    cases hc : nsCall now t.cat c with
    | error =>
      simp only [applyAct, hc] at h
      exact .inl ⟨ino', h, .refl ino'⟩
    | ok =>
      simp only [applyAct, hc] at h
      rcases attrs_nsCall (hw c rfl) hc h with hold | ⟨args, rfl, hf, hsame⟩
      · exact .inl hold
      · exact .inr (.inr ⟨args, rfl, hf, hsame⟩)

/-- **What holds of an inode after an operation**: it held before and every call keeps it, or a
create has brought it. -/
theorem inode_accStep {Q : MdsInode → Prop} (hold : ∀ ino, s.getattr f = some ino → Q ino)
    (hsame : ∀ ino₁ ino', Q ino₁ → ino'.SameAttrs ino₁ → Q ino')
    (hset : ∀ attrs mask ino₁, .setattr f attrs mask ∈ (accPlan now s cd op).acts → Q ino₁ →
      Q (setattrInode now attrs mask ino₁))
    (hnew : ∀ args n ino', .ns (.create args) ∈ (accPlan now s cd op).acts →
      s.cat.nextFileid ≤ f.toNat → ino'.SameAttrs (args.child n now) → Q ino')
    (h : (accStep now s cd op).getattr f = some ino') : Q ino' := by
  have hrun : s.cat.nextFileid ≤ (accStep now s cd op).cat.nextFileid ∧
      ∀ ino', (accStep now s cd op).getattr f = some ino' → Q ino' := by
    refine run_induction (P := fun t : AccStore => s.cat.nextFileid ≤ t.cat.nextFileid ∧
      ∀ ino', t.getattr f = some ino' → Q ino') ⟨le_rfl, hold⟩ fun a ha t ht =>
        ⟨ht.1.trans (nextFileid_applyAct a t), fun ino' hino' => ?_⟩
    rcases getattr_applyAct (fun c hc => (hc ▸ planned_of_mem ha).not_wide) hino' with
      ⟨ino₁, hino₁, hattrs⟩ | ⟨attrs, mask, ino₁, rfl, hino₁, rfl⟩ | ⟨args, rfl, hf, hattrs⟩
    · exact hsame ino₁ ino' (ht.2 ino₁ hino₁) hattrs
    · exact hset attrs mask ino₁ ha (ht.2 ino₁ hino₁)
    · exact hnew args _ ino' ha (hf ▸ ht.1) hattrs
  exact hrun.2 ino' h

/-- Fileids are not used again. -/
theorem getattr_accStep_of_none (hlt : f.toNat < s.cat.nextFileid) (h : s.getattr f = none) :
    (accStep now s cd op).getattr f = none := by
  refine Option.eq_none_iff_forall_not_mem.mpr fun _ hino' => ?_
  refine inode_accStep (Q := fun _ => False) (fun _ hino => ?_) (fun _ _ hf _ => hf)
    (fun _ _ _ _ hf => hf) (fun _ _ _ _ hle _ => hlt.not_ge hle) hino'
  cases h.symm.trans hino

/-- A file that is there before and after keeps the attributes that no call writes. -/
theorem xattrsOf_accStep (h : ∀ a ∈ (accPlan now s cd op).acts, ¬a.Writes f)
    (hlt : f.toNat < s.cat.nextFileid) (hino' : (accStep now s cd op).getattr f = some ino') :
    (accStep now s cd op).xattrsOf f = s.xattrsOf f := by
  have hrun : s.cat.nextFileid ≤ (accStep now s cd op).cat.nextFileid ∧
      ∀ ino', (accStep now s cd op).getattr f = some ino' →
        (accStep now s cd op).xattrsOf f = s.xattrsOf f := by
    refine run_induction (P := fun t : AccStore => s.cat.nextFileid ≤ t.cat.nextFileid ∧
      ∀ ino', t.getattr f = some ino' → t.xattrsOf f = s.xattrsOf f)
      ⟨le_rfl, fun _ _ => rfl⟩ fun a ha t ht =>
        ⟨ht.1.trans (nextFileid_applyAct a t), fun ino' hino' => ?_⟩
    -- The call has not made the file, so that it was there.
    have hthere : ∃ ino₁, t.getattr f = some ino₁ := by
      rcases getattr_applyAct (fun c hc => (hc ▸ planned_of_mem ha).not_wide) hino' with
        ⟨ino₁, hino₁, -⟩ | ⟨_, _, ino₁, -, hino₁, -⟩ | ⟨_, -, hf, -⟩
      · exact ⟨ino₁, hino₁⟩
      · exact ⟨ino₁, hino₁⟩
      · exact absurd (hf ▸ ht.1) hlt.not_ge
    obtain ⟨ino₁, hino₁⟩ := hthere
    exact (xattrsOf_applyAct (h a ha) hino').trans (ht.2 ino₁ hino₁)
  exact hrun.2 ino' hino'

theorem size_accStep (h : ∀ a ∈ (accPlan now s cd op).acts, ¬a.WritesData f)
    (hlt : f.toNat < s.cat.nextFileid) (hino' : (accStep now s cd op).getattr f = some ino') :
    ∃ ino, s.getattr f = some ino ∧ ino'.size = ino.size := by
  refine inode_accStep (Q := fun ino' => ∃ ino, s.getattr f = some ino ∧ ino'.size = ino.size)
    (fun ino hino => ⟨ino, hino, rfl⟩) ?_ ?_ (fun _ _ _ _ hle _ => absurd hle hlt.not_ge) hino'
  · rintro ino₁ _ ⟨ino, hino, hsize⟩ hattrs
    exact ⟨ino, hino, hattrs.size.trans hsize⟩
  · rintro _ _ _ ha ⟨ino, hino, hsize⟩
    have hsel := Bool.eq_false_iff.mpr fun hsel => h _ ha ⟨rfl, hsel⟩
    rw [selects_or, Bool.or_eq_false_iff] at hsel
    exact ⟨ino, hino, by simp [setattrInode, setattrSize, hsel, hsize]⟩

end Frame

/-! ## Runs -/

/-- A move of the server: an operation of a compound, or a call of the server's own, such as
a wide create, a background removal or a change of the state tables. -/
inductive AccMove
  | op (now : ℕ) (cd : AccCompound) (op : AccOp)
  | call (now : ℕ) (a : AccAct)

/-- The server's moves. -/
def accMachine (s : AccStore) : AccMove → Option AccStore
  | .op now cd op => some (accStep now s cd op)
  | .call now a => some (applyAct now s a)

/-- A server with a fresh catalogue. The state tables and the data may be any. -/
def AccStart (s : AccStore) : Prop := MemdbStart s.cat

/-- The server's own wide creates use fileids from the allocator. -/
def AccLegal (s : AccStore) : AccMove → Prop
  | .op _ _ _ => True
  | .call now a => ∀ c, a = .ns c → WideFromAllocator s.cat (now, c)

def newAccServer : AccStore where
  cat := memdbNew 0
  data := fun _ _ => none
  xattrs := []
  ot := openTableInit 1 40 false 0 false
  lt := lockTableInit 1 40 false 0
  dt := delegTableInit 1
  layouts := []
  skipTransientNdb := false

theorem accStart_newAccServer : AccStart newAccServer := ⟨0, rfl⟩

/-- A compound of client and user `uid`, under AUTH_SYS with `posix_dac` on. -/
def compoundOf (uid : UInt32) (fh : Fileid) : AccCompound where
  cred := { uid, gid := uid, auxGids := [], authSys := true, posixDac := true }
  clientid := uid.toUInt64
  currentFh := some fh
  savedFh := none
  currentStateid := none
  savedStateid := none
  xattrObj := none

/-- An OPEN of a name for reading and writing that creates the file. -/
def openCreating (name : Name) (attrs : CreateReq) : AccOp :=
  .openFile
    { claim := .null name
      create := some { createmode := .unchecked, attrs, verfMatch := false }
      shareAccess := shareAccessBoth
      shareDeny := 0
      openOwner := []
      leaseExpired := fun _ => false
      alloc := true }

section Runs

theorem good_applyAct (hw : ∀ c, a = .ns c → WideFromAllocator t.cat (now, c))
    (hg : (t.cat.graph false).Good) : ((applyAct now t a).cat.graph false).Good := by
  rcases @cat_applyAct now a t with ⟨c, rfl, hc⟩ | heq | ⟨f, g, heq, hg'⟩
  · exact good_nsCall hg (hw c rfl) hc
  · rwa [heq]
  · rw [heq, graph_inodeTouch (fun i => (hg' i).1) (fun i => (hg' i).2) fun _ => rfl]
    exact hg

theorem Planned.wideFromAllocator (hp : Planned now s cd op a) (m : Memdb) (c : NsCall)
    (hc : a = .ns c) : WideFromAllocator m (now, c) := by
  subst hc
  cases c with
  | createWide alloc w => exact absurd rfl (hp.not_wide alloc w)
  | _ => trivial

theorem good_reachable (h : Reachable AccStart accMachine AccLegal s) :
    (s.cat.graph false).Good := by
  refine h.invariant (fun t ht => good_start ht false) fun t l _ ht hok hst => ?_
  cases l with
  | op =>
    cases hst
    exact run_induction (P := fun t : AccStore => (t.cat.graph false).Good) ht
      fun a ha t ht => good_applyAct ((planned_of_mem ha).wideFromAllocator t.cat) ht
  | call =>
    cases hst
    exact good_applyAct hok ht

section

variable {ino : MdsInode} {f : CatFileid} (hg : (s.cat.graph false).Good)

include hg

theorem lt_nextFileid_of_inodeFind (h : s.cat.inodeFind f = some ino) : f < s.cat.nextFileid := by
  have hnode : (s.cat.graph false).node f = some ino.node := by
    rw [node_graph, h]
    rfl
  exact hg.shape.nodeLt _ _ hnode

theorem lt_nextFileid_of_getattr {f} (h : s.getattr f = some ino) : f.toNat < s.cat.nextFileid :=
  lt_nextFileid_of_inodeFind hg h

theorem getattr_fh (hcount : s.cat.nextFileid ≤ 2 ^ 64) (h : s.cat.inodeFind f = some ino) :
    s.getattr ino.fh = some ino := by
  have hf : ino.fileid = f := fileid_of_inodeFind h
  have hlt : f < 2 ^ 64 := (lt_nextFileid_of_inodeFind hg h).trans_le hcount
  rw [AccStore.getattr, MdsInode.fh, hf, UInt64.toNat_ofNat_of_lt' hlt]
  exact h

theorem dir_of_direntFind {p d} (h : s.cat.direntFind p name = some d) :
    ∃ dir, s.cat.inodeFind p = some dir ∧ dir.type = .dir := by
  obtain ⟨n, hn, hdir⟩ := hg.shape.parents d (mem_of_findKey h)
  obtain ⟨dir, hfind, -, rfl⟩ := inodeFind_of_node hn
  have hp : d.parent = p := congrArg Prod.fst (key_of_findKey h)
  exact ⟨dir, hp ▸ hfind, hdir⟩

end

end Runs

end PnfsLattice
