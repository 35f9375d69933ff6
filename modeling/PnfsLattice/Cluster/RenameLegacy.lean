import PnfsLattice.Cluster.Chunk

/-!
# Renames between servers with separate catalogues

`rename_2pc_initiate` in legacy mode sends the inode and the stripe map of the file in one payload,
from which `rename_2pc_on_commit` builds a file with a new fileid, and deletes the name and the
inode on its own side. Both stores are `memdb` and every message is delivered. The journal rows
are left out: a call that cannot write one does not return `MDS_OK`.
-/

namespace PnfsLattice

open Lib List Memdb

/-- `R2PC_MAX_PAYLOAD_ENTRIES`. -/
def r2pcMaxPayloadEntries : ℕ := 16

/-- The time, and whether there is memory for the entries that a stripe map call copies. -/
structure CopyEnv where
  now : ℕ
  getAlloc : Bool
  putAlloc : Bool

/-- A map that has entries, all of which the payload has room for. -/
def MemdbStripe.fits (s : MemdbStripe) : Bool :=
  0 < s.stripeCount * s.mirrorCount && s.stripeCount * s.mirrorCount ≤ r2pcMaxPayloadEntries

/-- The stripe map in the payload of the prepare; a map that does not fit is not sent. -/
def preparePayload (env : CopyEnv) (src : MigCat) (f : CatFileid) : Option MemdbStripe :=
  if env.getAlloc then (src.db.stripeFind f).filter MemdbStripe.fits else none

/-- The vote of `rename_2pc_on_prepare`. -/
def rename2pcOnPrepare (dstKey : NameKey) (dst : MigCat) : Bool :=
  ((dst.db.inodeFind dstKey.1).any fun p => p.type = .dir) &&
    (dst.db.direntFind dstKey.1 dstKey.2).isNone

/-- A write whose result is not looked at. -/
def ChunkWrite.attempt (now : ℕ) (cat : MigCat) (w : ChunkWrite) : MigCat :=
  (w.run now cat).toOption.getD cat

/-- The stripe map of the payload is written for the new file. -/
def putStripe (env : CopyEnv) (f : CatFileid) (stripe : Option MemdbStripe) (cat : MigCat) :
    MigCat :=
  match stripe with
  | some s =>
    if env.putAlloc then (ChunkWrite.stripe { s with fileid := f }).attempt env.now cat else cat
  | none => cat

/-- `rename_2pc_on_commit` with a catalogue that is not shared: the catalogue if it returns
`MDS_OK`. -/
def rename2pcOnCommit (env : CopyEnv) (ino : MdsInode) (stripe : Option MemdbStripe)
    (dstKey : NameKey) (dst : MigCat) : Option MigCat := do
  let f := dst.db.nextFileid
  let cat ← (ChunkWrite.run env.now { dst with db := (memAllocFileid dst.db).2 }
    (.inode { ino with fileid := f })).toOption
  let cat ← (ChunkWrite.run env.now (putStripe env f stripe cat)
    (.dirent dstKey f ino.type)).toOption
  return match cat.db.inodeFind dstKey.1 with
    | some parent => (ChunkWrite.inode (parentTouch env.now parent)).attempt env.now cat
    | none => cat

/-- `rename_2pc_initiate` in legacy mode: the two catalogues if it returns `MDS_OK`. -/
def rename2pcInitiate (env : CopyEnv) (src dst : MigCat) (srcKey dstKey : NameKey) :
    Option (MigCat × MigCat) := do
  let d ← src.db.direntFind srcKey.1 srcKey.2
  -- Directories cannot cross subtree boundaries.
  guard (d.childType ≠ .dir)
  let ino ← src.db.inodeFind d.childFileid
  guard (rename2pcOnPrepare dstKey dst)
  let db := ((memAllocFileid src.db).2.direntDrop srcKey.1 srcKey.2).inodeDrop d.childFileid
  let dst' ← rename2pcOnCommit env ino (preparePayload env src d.childFileid) dstKey dst
  return ({ src with db := db.inodeModify srcKey.1 (parentTouch env.now) }, dst')

/-- The file `f` of the one catalogue is the file `g` of the other, and names that `f` still has
are those of a file that is as before. -/
def Intact (f g : CatFileid) (src src' dst' : MigCat) : Prop :=
  (dst'.contentOf g).inode = (src.contentOf f).inode.map (fun i => { i with fileid := g }) ∧
  (dst'.contentOf g).stripe = (src.contentOf f).stripe.map (fun s => { s with fileid := g }) ∧
  (dst'.contentOf g).inline = (src.contentOf f).inline ∧
  (dst'.contentOf g).xattr = (src.contentOf f).xattr ∧
  ∀ d ∈ src'.db.dirents, d.childFileid = f → src'.contentOf f = src.contentOf f

/-- The destination has room for the map. -/
def MemdbStripe.admitted (s : MemdbStripe) (env : CopyEnv) (dst : MigCat) : Bool :=
  env.putAlloc && s.stripeCount ≤ mdsMaxStripes && s.mirrorCount ≤ mdsMaxMirrors &&
    dst.db.stripeRoom

/-- What the code carries over: a stripe map that fits and that there is room for, and neither
inline data nor extended attributes, of a file with one name. -/
def Portable (env : CopyEnv) (f : CatFileid) (srcKey : NameKey) (src dst : MigCat) : Prop :=
  (∀ s, src.db.stripeFind f = some s → s.fits ∧ env.getAlloc ∧ s.admitted env dst) ∧
  (src.contentOf f).inline = none ∧ (∀ n, (src.contentOf f).xattr n = none) ∧
  ∀ d ∈ src.db.dirents, d.childFileid = f → d.key = srcKey

section

variable {env : CopyEnv} {src dst src' dst' : MigCat} {srcKey dstKey : NameKey} {d : MemdbDirent}
  {ino : MdsInode} {stripe : Option MemdbStripe} {f g : CatFileid} {w : ChunkWrite} {now : ℕ}

theorem run_eq_ok (h : (w.run now dst).toOption = some dst') : w.run now dst = .ok dst' := by
  cases hrun : w.run now dst with
  | ok =>
    rw [hrun] at h
    exact congrArg _ (Option.some.inj h)
  | error =>
    rw [hrun] at h
    cases h

theorem contentOf_attempt_of_ne (hne : g ≠ w.fileid) :
    (w.attempt now dst).contentOf g = dst.contentOf g := by
  unfold ChunkWrite.attempt
  cases hrun : w.run now dst with
  | ok => exact (contentOf_run hrun g).trans (if_neg hne)
  | error => rfl

theorem contentOf_putStripe (hnone : dst.db.stripeFind g = none) :
    (putStripe env g stripe dst).contentOf g =
      { dst.contentOf g with
        stripe := (stripe.filter (·.admitted env dst)).map fun s => { s with fileid := g } } := by
  have hsame : dst.contentOf g = { dst.contentOf g with stripe := none } :=
    FileContent.ext rfl rfl hnone rfl rfl
  unfold putStripe
  split
  next s =>
    by_cases hput : env.putAlloc = true
    · rw [if_pos hput, ChunkWrite.attempt]
      -- The write is refused just when the map is not admitted.
      cases hrun : ChunkWrite.run env.now dst (.stripe { s with fileid := g }) with
      | ok =>
        have hadm : s.admitted env dst = true := by
          simp only [ChunkWrite.run, memStripeMapPut] at hrun
          split_ifs at hrun <;> grind [Except.map, MemdbStripe.admitted]
        simp only [Option.filter_some, hadm, if_true, Option.map_some]
        exact (contentOf_run hrun g).trans (if_pos rfl)
      | error =>
        have hadm : s.admitted env dst = false := by
          simp only [ChunkWrite.run, memStripeMapPut] at hrun
          split_ifs at hrun <;> grind [Except.map, MemdbStripe.admitted]
        simp only [Option.filter_some, hadm, Bool.false_eq_true, if_false]
        exact hsame
    · simpa [hput, MemdbStripe.admitted] using hsame
  · exact hsame

theorem contentOf_rename2pcOnCommit (hg : dst.db.nextFileid = g) (hnew : dstKey.1 ≠ g)
    (hblank : (dst.contentOf g).Blank)
    (h : rename2pcOnCommit env ino stripe dstKey dst = some dst') :
    dst'.contentOf g =
      { dst.contentOf g with
        inode := some { ino with fileid := g }
        stripe := (stripe.filter (·.admitted env dst)).map fun s => { s with fileid := g } } := by
  simp only [rename2pcOnCommit, hg, Option.bind_eq_bind, Option.bind_eq_some_iff] at h
  obtain ⟨cat₁, h₁, cat₂, h₂, h⟩ := h
  have c₁ := (contentOf_run (run_eq_ok h₁) g).trans (if_pos rfl)
  have c₂ := (contentOf_run (run_eq_ok h₂) g).trans (if_neg hnew.symm)
  have c₃ : dst'.contentOf g = cat₂.contentOf g := by
    cases h
    split
    next hp =>
      refine contentOf_attempt_of_ne fun heq => hnew ?_
      exact (key_of_findKey hp).symm.trans heq.symm
    · rfl
  have hroom : ∀ s : MemdbStripe, s.admitted env cat₁ = s.admitted env dst := by
    obtain ⟨_, hdb, rfl⟩ := exists_of_map_ok (run_eq_ok h₁)
    obtain ⟨_, rfl, -⟩ := memInodePut_ok hdb
    exact fun s => rfl
  rw [c₃, c₂, contentOf_putStripe ((congrArg FileContent.stripe c₁).trans hblank.2.1), c₁]
  simp only [hroom]
  rfl

theorem stripe_kept_iff : ((preparePayload env src f).filter (·.admitted env dst)).map
      (fun s => { s with fileid := g }) =
        (src.db.stripeFind f).map (fun s => { s with fileid := g }) ↔
      ∀ s, src.db.stripeFind f = some s → s.fits ∧ env.getAlloc ∧ s.admitted env dst := by
  unfold preparePayload
  cases hs : src.db.stripeFind f with
  | none => simp
  | some s =>
    cases env.getAlloc <;> cases hf : s.fits <;> cases ha : s.admitted env dst <;> simp [*]

theorem inodeFind_source {m : Memdb} {p : CatFileid} :
    ((m.inodeDrop f).inodeModify p (parentTouch now)).inodeFind f = none :=
  inodeModify_of_none f (fun _ => rfl) ((inodeFind_inodeDrop ..).trans (if_pos rfl))

/-- **What a rename between catalogues keeps.**  The file arrives as it was, and its other names
stay good, in just the cases that the payload provides for. -/
theorem rename2pcInitiate_intact_iff (hd : src.db.direntFind srcKey.1 srcKey.2 = some d)
    (hblank : (dst.contentOf dst.db.nextFileid).Blank)
    (hnew : dst.db.inodeFind dst.db.nextFileid = none)
    (h : rename2pcInitiate env src dst srcKey dstKey = some (src', dst')) :
    Intact d.childFileid dst.db.nextFileid src src' dst' ↔
      Portable env d.childFileid srcKey src dst := by
  simp only [rename2pcInitiate, hd, Option.bind_eq_bind, Option.bind_some, Option.bind_eq_some_iff,
    Option.guard_eq_some', exists_const_iff] at h
  obtain ⟨-, -, ino, hino, -, hvote, _, hcommit, heq⟩ := h
  obtain ⟨rfl, rfl⟩ := Prod.mk.inj (Option.some.inj heq)
  have hother : dstKey.1 ≠ dst.db.nextFileid := by
    intro hkey
    simp [rename2pcOnPrepare, hkey, hnew] at hvote
  have hcontent := contentOf_rename2pcOnCommit rfl hother hblank hcommit
  have hinode : (src.contentOf d.childFileid).inode = some ino := hino
  unfold Intact Portable
  rw [hcontent, hinode, hblank.2.2.1, ← stripe_kept_iff]
  refine ⟨fun ⟨_, hs, hi, hx, hl⟩ => ⟨hs, hi.symm, fun n => ?_, fun e he hf => ?_⟩,
    fun ⟨hs, hi, hx, hl⟩ => ⟨rfl, hs, hi.symm, funext fun n => ?_, fun e he hf => ?_⟩⟩
  · rw [← hx]
    exact hblank.2.2.2 n
  · by_contra hne
    have hsame := congrArg FileContent.inode (hl e (mem_eraseKey.mpr ⟨he, hne⟩) hf)
    cases (hsame.trans hinode).symm.trans inodeFind_source
  · rw [hx n]
    exact hblank.2.2.2 n
  · obtain ⟨hin, hne⟩ := mem_eraseKey.mp he
    exact absurd (hl e hin hf) hne

end

/-- A catalogue with one file, striped over `n` data servers. -/
def stripedCat (n : ℕ) : MigCat where
  db := { memdbNew 1 with
    inodes := [{ rootInode 1 with fileid := 3, type := .reg, nlink := 1 }, rootInode 1]
    dirents := [⟨2, [97], 3, .reg, 3⟩]
    stripes := [⟨3, n, 65536, 1, replicate n ⟨1, [7]⟩⟩]
    nextFileid := 4 }
  inlines := []
  xattrs := []

/-- A rename with enough memory into an empty catalogue. -/
def renameStriped (n : ℕ) : Option (MigCat × MigCat) :=
  rename2pcInitiate ⟨2, true, true⟩ (stripedCat n) ⟨memdbNew 1, [], []⟩ (2, [97]) (2, [98])

theorem rename2pcInitiate_intact_striped :
    ∃ r, renameStriped 16 = some r ∧ Intact 3 3 (stripedCat 16) r.1 r.2 := by
  have hrun : renameStriped 16 = some (_, _) := rfl
  refine ⟨_, hrun, (rename2pcInitiate_intact_iff (d := ⟨2, [97], 3, .reg, 3⟩) rfl
    ⟨fun _ => rfl, rfl, rfl, fun _ => rfl⟩ rfl hrun).mpr ⟨?_, rfl, fun _ => rfl, by decide⟩⟩
  rintro s ⟨⟩
  exact ⟨rfl, rfl, rfl⟩

/-- A file with 17 data-server files arrives without its stripe map. -/
theorem rename2pcInitiate_drops_stripes :
    ((stripedCat 17).db.stripeFind 3).isSome = true ∧
      (renameStriped 17).map (fun r => (r.2.contentOf 3).stripe) = some none := ⟨rfl, rfl⟩

end PnfsLattice
