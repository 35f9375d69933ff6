import PnfsLattice.Catalogue.Names

/-!
# Hard links across subtrees

`hardlink_2pc_initiate` has the link count of the target incremented on its server, and then
puts an external dirent into the local catalogue. A catalogue transaction is a token: each call
takes effect at once and an abort undoes nothing. The journal rows are read by nobody and are
left out.
-/

namespace PnfsLattice

open Lib List

/-- The external dirents, and the link counts on the servers of their targets. -/
structure LinkSys where
  ext : List (NameKey × CatFileid)
  nlink : CatFileid → ℕ

/-- The calls of `hardlink_2pc_initiate` whose results it looks at. -/
inductive HlCall
  | beginPrepare
  | allocTxn
  | allocAnchor
  | journalPrepared
  | commitPrepare
  | nlinkInc
  | beginAbort
  | beginCommit
  | extDirentPut
  | journalCommitted
  | commitLink

/-- The calls before the request to the other server. -/
def HlCall.preparing : List HlCall :=
  [.beginPrepare, .allocTxn, .allocAnchor, .journalPrepared, .commitPrepare]

/-- `UINT32_MAX`, at which a link count saturates. -/
def nlinkMax : ℕ := 4294967295

/-- `mem_ns_nlink_adjust` with a delta of one. -/
def LinkSys.inc (s : LinkSys) (target : CatFileid) : LinkSys :=
  { s with nlink := fun f => if f = target then min (s.nlink f + 1) nlinkMax else s.nlink f }

/-- `mem_ext_dirent_put`. -/
def LinkSys.put (s : LinkSys) (key : NameKey) (target : CatFileid) : LinkSys :=
  { s with ext := upsert Prod.fst (key, target) s.ext }

/-- The system afterwards, and whether `MDS_OK` is returned. `ans` tells which calls succeed,
`landed` whether a request that fails was carried out. -/
def hardlink2pcInitiate (ans : HlCall → Bool) (landed : Bool) (key : NameKey)
    (target : CatFileid) (s : LinkSys) : LinkSys × Bool :=
  if !HlCall.preparing.all ans then (s, false)
  else if !ans .nlinkInc then
    -- The status is that of the transaction which removes the journal row.
    (if landed then s.inc target else s, ans .beginAbort)
  else if !ans .beginCommit || !ans .extDirentPut then (s.inc target, false)
  else ((s.inc target).put key target, ans .journalCommitted && ans .commitLink)

/-- A link is made, or one is removed together with its count. -/
inductive LinkOp
  | link (ans : HlCall → Bool) (landed : Bool) (key : NameKey) (target : CatFileid)
  | unlink (key : NameKey)

def linkStep (s : LinkSys) : LinkOp → Option LinkSys
  | .link ans landed key target => some (hardlink2pcInitiate ans landed key target s).1
  | .unlink key =>
    (findKey Prod.fst key s.ext).map fun e =>
      { ext := eraseKey Prod.fst key s.ext
        nlink := fun f => if f = e.2 then s.nlink f - 1 else s.nlink f }

/-- The dirent is there and counted if the call has succeeded, and else nothing has changed. -/
def LinkRight (s : LinkSys) (key : NameKey) (target : CatFileid) (r : LinkSys × Bool) : Prop :=
  if r.2 then (key, target) ∈ r.1.ext ∧ r.1.nlink target = s.nlink target + 1 else r.1 = s

/-- Every target has as many links as dirents name it, beside its `names` in the catalogue. -/
def Counted (names : CatFileid → ℕ) (s : LinkSys) : Prop :=
  ∀ f, s.nlink f = names f + (s.ext.map Prod.snd).count f

/-- The name is free and the count has not reached its bound. -/
def LinkSys.Admits (s : LinkSys) (key : NameKey) (target : CatFileid) : Prop :=
  findKey Prod.fst key s.ext = none ∧ s.nlink target < nlinkMax

/-- Nothing fails from the request on; or the request fails without effect, and so does the
transaction after it. -/
def Settled (ans : HlCall → Bool) (landed : Bool) : Bool :=
  !HlCall.preparing.all ans ||
    if ans .nlinkInc then
      ans .beginCommit && ans .extDirentPut && ans .journalCommitted && ans .commitLink
    else !ans .beginAbort && !landed

variable {names : CatFileid → ℕ} {s s' : LinkSys} {ans : HlCall → Bool} {landed : Bool}
  {key : NameKey} {target : CatFileid}

theorem nlink_inc (h : s.Admits key target) :
    (s.inc target).nlink target = s.nlink target + 1 := by
  have hmax := h.2
  simp only [LinkSys.inc, if_true]
  omega

theorem linkRight_iff (h : s.Admits key target) :
    LinkRight s key target (hardlink2pcInitiate ans landed key target s) ↔
      Settled ans landed = true := by
  have hnew := nlink_inc h
  -- A count that was raised is seen.
  have hseen : ∀ t : LinkSys, t.nlink = (s.inc target).nlink → t ≠ s := by
    rintro t hcount rfl
    rw [← hcount] at hnew
    omega
  have hput := hseen ((s.inc target).put key target) rfl
  have hmem : (key, target) ∈ ((s.inc target).put key target).ext := mem_upsert.mpr (.inl rfl)
  have hone : ((s.inc target).put key target).nlink target = s.nlink target + 1 := hnew
  have hfree : (key, target) ∉ (s.inc target).ext := fun hm => findKey_eq_none.mp h.1 _ hm rfl
  unfold hardlink2pcInitiate Settled LinkRight
  cases HlCall.preparing.all ans <;> cases ans .nlinkInc <;> cases ans .beginCommit <;>
    cases ans .extDirentPut <;> cases ans .journalCommitted <;> cases ans .commitLink <;>
    cases ans .beginAbort <;> cases landed <;> simp [*]

theorem eq_or_eq_put (h : Settled ans landed) :
    (hardlink2pcInitiate ans landed key target s).1 = s ∨
      (hardlink2pcInitiate ans landed key target s).1 = (s.inc target).put key target := by
  unfold Settled at h
  unfold hardlink2pcInitiate
  cases hp : HlCall.preparing.all ans
  · simp
  cases hn : ans .nlinkInc
  · simp_all
  · simp_all

/-- What each step keeps: a name stands once, and the counts are right. -/
structure LinkInv (names : CatFileid → ℕ) (s : LinkSys) : Prop where
  nodup : (s.ext.map Prod.fst).Nodup
  counted : Counted names s

theorem LinkInv.put (hi : LinkInv names s) (h : s.Admits key target) :
    LinkInv names ((s.inc target).put key target) := by
  refine ⟨nodup_upsert hi.nodup, fun f => ?_⟩
  have hkeep : s.ext.filter (fun e => e.1 ≠ key) = s.ext :=
    filter_eq_self.mpr fun e he => decide_eq_true (findKey_eq_none.mp h.1 e he)
  have hcount := hi.counted f
  have hmax := h.2
  simp only [LinkSys.put, LinkSys.inc, upsert, hkeep, map_cons, count_cons, beq_iff_eq]
  by_cases hf : f = target
  · subst hf
    simp only [if_true]
    omega
  · simp only [if_neg hf, if_neg (Ne.symm hf)]
    omega

theorem LinkInv.unlink (hi : LinkInv names s) (hst : linkStep s (.unlink key) = some s') :
    LinkInv names s' := by
  simp only [linkStep, Option.map_eq_some_iff] at hst
  obtain ⟨e, he, rfl⟩ := hst
  refine ⟨nodup_filter_key hi.nodup _, fun f => ?_⟩
  have hcount := hi.counted f
  rw [((perm_cons_eraseKey hi.nodup he).map _).count_eq f, map_cons, count_cons] at hcount
  by_cases hf : f = e.2
  · subst hf
    simp only [beq_self_eq_true, if_true] at hcount ⊢
    omega
  · simp only [beq_iff_eq, if_neg hf, if_neg (Ne.symm hf)] at hcount ⊢
    omega

/-- What a link asks for: the name is free and no call fails that is not undone. -/
def LinkOp.Fine (s : LinkSys) : LinkOp → Prop
  | .link ans landed key target => s.Admits key target ∧ Settled ans landed
  | .unlink _ => True

theorem LinkInv.step {op : LinkOp} (hi : LinkInv names s) (hf : op.Fine s)
    (hst : linkStep s op = some s') : LinkInv names s' := by
  cases op with
  | link _ _ key target =>
    cases hst
    rcases @eq_or_eq_put s _ _ key target hf.2 with h | h
    · rwa [h]
    · rw [h]
      exact hi.put hf.1
  | unlink => exact hi.unlink hst

/-- A link to a free name is right for just those answers at which nothing is left undone, and
over any run of such links and of removals the counts stay those of the dirents. -/
theorem hardlink2pcInitiate_counted (names : CatFileid → ℕ) (s : LinkSys) :
    (∀ key target ans landed, s.Admits key target →
      (LinkRight s key target (hardlink2pcInitiate ans landed key target s) ↔
        Settled ans landed = true)) ∧
    (Reachable (LinkInv names) linkStep (fun s op => op.Fine s) s → Counted names s) :=
  ⟨fun _ _ _ _ h => linkRight_iff h, fun h =>
    (h.invariant (fun _ h0 => h0) fun _ _ _ hi hf hst => hi.step hf hst).counted⟩

theorem hardlink2pcInitiate_counted_link :
    LinkRight ⟨[], fun _ => 1⟩ (2, [97]) 9
        (hardlink2pcInitiate (fun _ => true) false (2, [97]) 9 ⟨[], fun _ => 1⟩) ∧
      Counted (fun _ => 1)
        (hardlink2pcInitiate (fun _ => true) false (2, [97]) 9 ⟨[], fun _ => 1⟩).1 := by
  have hadm : LinkSys.Admits ⟨[], fun _ => 1⟩ (2, [97]) 9 := ⟨rfl, by decide⟩
  refine ⟨((hardlink2pcInitiate_counted (fun _ => 1) _).1 _ _ _ _ hadm).mpr rfl, ?_⟩
  have hinit : LinkInv (fun _ => 1) ⟨[], fun _ => 1⟩ := ⟨nodup_nil, fun _ => rfl⟩
  exact (hardlink2pcInitiate_counted _ _).2
    (.next (.start hinit) (a := .link (fun _ => true) false (2, [97]) 9) ⟨hadm, rfl⟩ rfl)

/-- The request is refused, and the call returns `MDS_OK`: the status that it returns is that of
the transaction which removes the journal row. -/
theorem hardlink2pcInitiate_masks :
    hardlink2pcInitiate (fun c => !(c matches .nlinkInc)) false (2, [97]) 9 ⟨[], fun _ => 1⟩ =
      (⟨[], fun _ => 1⟩, true) := rfl

end PnfsLattice
