import PnfsLattice.Catalogue.Names

/-!
# What a migration carries for one file

`cat_subtree_dfs` reads the rows of a file into a chunk, `mig_chunk_serialise` puts it on the
wire, and `migration_apply_chunk` writes it into the catalogue of the destination, one row
after the other.
-/

namespace PnfsLattice

open Lib List Option Memdb Function

/-! ## Rows -/

/-- `struct memdb`, the namespace tables and those of inline data and extended attributes. -/
structure MigCat where
  db : Memdb
  inlines : List (CatFileid × List UInt8)
  xattrs : List (NameKey × List UInt8)
  deriving DecidableEq

def memdbMaxInline : ℕ := 256

def mdsInlineDataMax : ℕ := 65536

def memInlinePut (f : CatFileid) (data : List UInt8) (cat : MigCat) : Except MdsStatus MigCat :=
  if mdsInlineDataMax < data.length then .error .inval
  else if (findKey Prod.fst f cat.inlines).isNone && memdbMaxInline ≤ cat.inlines.length then
    .error .nospc
  else .ok { cat with inlines := upsert Prod.fst (f, data) cat.inlines }

/-- `mem_xattr_put`, which touches the inode. -/
def memXattrPut (now : ℕ) (k : NameKey) (val : List UInt8) (cat : MigCat) :
    Except MdsStatus MigCat :=
  if k.2.isEmpty || mdsXattrNameMax < k.2.length || mdsXattrValMax < val.length then .error .inval
  else if (findKey Prod.fst k cat.xattrs).isNone && memdbMaxXattrs ≤ cat.xattrs.length then
    .error .nospc
  else .ok { cat with
    xattrs := upsert Prod.fst (k, val) cat.xattrs
    db := cat.db.inodeModify k.1 (linkTouch now) }

def memXattrDel (now : ℕ) (k : NameKey) (cat : MigCat) : Except MdsStatus MigCat :=
  if (findKey Prod.fst k cat.xattrs).isNone then .error .notfound
  else .ok { cat with
    xattrs := eraseKey Prod.fst k cat.xattrs
    db := cat.db.inodeModify k.1 (linkTouch now) }

def memStripeMapPut (row : MemdbStripe) (m : Memdb) : Except MdsStatus Memdb :=
  if mdsMaxStripes < row.stripeCount || mdsMaxMirrors < row.mirrorCount then .error .inval
  else if (m.stripeFind row.fileid).isNone && !m.stripeRoom then .error .nospc
  else .ok { m with stripes := upsert MemdbStripe.fileid row m.stripes }

structure FileRows where
  inode : Option MdsInode
  entries : List MemdbDirent
  stripe : Option MemdbStripe
  inline : Option (List UInt8)
  xattrs : List (NameKey × List UInt8)
  deriving DecidableEq

def MigCat.rowsOf (cat : MigCat) (f : CatFileid) : FileRows where
  inode := cat.db.inodeFind f
  entries := cat.db.dirents.filter fun d => d.parent = f
  stripe := cat.db.stripeFind f
  inline := (findKey Prod.fst f cat.inlines).map Prod.snd
  xattrs := cat.xattrs.filter fun x => x.1.1 = f

/-! ## The chunk -/

/-- `struct mig_inode_chunk`, with the entries of `struct mig_dirent` and
`struct mig_xattr`. -/
structure MigChunk where
  inode : MdsInode
  dirents : List (Name × CatFileid × FileType)
  stripe : Option MemdbStripe
  inline : Option (List UInt8)
  xattrs : List (Name × List UInt8)
  deriving DecidableEq

/-- How many entries and attribute names the collectors of a visit find memory for. The
catalogue takes a collector that stops for the end of the list. -/
structure VisitRoom where
  dirents : Option ℕ
  xattrs : Option ℕ
  deriving DecidableEq

/-- What a collector with this much room takes. -/
def taken {α : Type} (room : Option ℕ) (l : List α) : List α := room.elim l l.take

/-- The reads of `cat_subtree_dfs` at one file. -/
def FileRows.chunk (r : FileRows) (room : VisitRoom) : Option MigChunk :=
  r.inode.map fun ino =>
    { inode := ino
      dirents := if ino.type = .dir then
          (taken room.dirents r.entries).map fun d => (d.name, d.childFileid, d.childType)
        else []
      -- regular files only, and not an empty map
      stripe := if ino.type = .reg then r.stripe.filter fun s => 0 < s.stripeCount else none
      -- the targets of symbolic links are in this table as well
      inline := if ino.type = .reg && ino.has iflagInline then r.inline else none
      xattrs := (taken room.xattrs r.xattrs).map fun x => (x.1.2, x.2) }

/-- The fields of `mig_inode_ser`; the others are zero after `mig_inode_de`. -/
def MdsInode.wired (ino : MdsInode) : MdsInode :=
  { ino with parentFileid := 0, inlineDsId := 0, inlineFh := [] }

/-- A chunk after `mig_chunk_serialise` and `mig_chunk_deserialise`. -/
def MigChunk.wired (c : MigChunk) : MigChunk := { c with inode := c.inode.wired }

/-- One write of `migration_apply_chunk`. -/
inductive ChunkWrite
  | inode (ino : MdsInode)
  | dirent (k : NameKey) (child : CatFileid) (type : FileType)
  | stripe (row : MemdbStripe)
  | xattr (k : NameKey) (val : List UInt8)
  | inline (f : CatFileid) (data : List UInt8)

/-- The writes of `migration_apply_chunk` in their order. -/
def MigChunk.writes (c : MigChunk) : List ChunkWrite :=
  .inode c.inode ::
    (c.dirents.map (fun d => .dirent (c.inode.fileid, d.1) d.2.1 d.2.2) ++
    (c.stripe.filter fun s => 0 < s.stripeCount).toList.map
      (fun s => .stripe { s with fileid := c.inode.fileid }) ++
    c.xattrs.map (fun x => .xattr (c.inode.fileid, x.1) x.2) ++
    (c.inline.filter fun data => data ≠ []).toList.map (.inline c.inode.fileid))

def ChunkWrite.fileid : ChunkWrite → CatFileid
  | .inode ino => ino.fileid
  | .dirent k _ _ => k.1
  | .stripe row => row.fileid
  | .xattr k _ => k.1
  | .inline f _ => f

def ChunkWrite.run (now : ℕ) (cat : MigCat) : ChunkWrite → Except MdsStatus MigCat
  | .inode ino => (memInodePut ino cat.db).map fun db => { cat with db }
  | .dirent k child type => (memDirentPut k child type cat.db).map fun db => { cat with db }
  | .stripe row => (memStripeMapPut row cat.db).map fun db => { cat with db }
  | .xattr k val => memXattrPut now k val cat
  | .inline f data => memInlinePut f data cat

/-- The writes up to the first that fails, and whether none did. The store has no
transaction to roll back. -/
def runWrites (now : ℕ) : List ChunkWrite → MigCat → MigCat × Bool
  | [], cat => (cat, true)
  | w :: ws, cat =>
    match w.run now cat with
    | .error _ => (cat, false)
    | .ok cat => runWrites now ws cat

def migrationApplyChunk (now : ℕ) (c : MigChunk) (cat : MigCat) : MigCat × Bool :=
  runWrites now c.writes cat

/-! ## The content of a file -/

/-- What a catalogue answers about a file; cookies apart. -/
@[ext] structure FileContent where
  inode : Option MdsInode
  entry : Name → Option (CatFileid × FileType)
  stripe : Option MemdbStripe
  inline : Option (List UInt8)
  xattr : Name → Option (List UInt8)

def MemdbDirent.target (d : MemdbDirent) : CatFileid × FileType := (d.childFileid, d.childType)

def MigCat.contentOf (cat : MigCat) (f : CatFileid) : FileContent where
  inode := cat.db.inodeFind f
  entry := fun n => (cat.db.direntFind f n).map MemdbDirent.target
  stripe := cat.db.stripeFind f
  inline := (findKey Prod.fst f cat.inlines).map Prod.snd
  xattr := fun n => (findKey Prod.fst (f, n) cat.xattrs).map Prod.snd

/-- The content without the fields that are not on the wire. -/
def FileContent.wired (c : FileContent) : FileContent :=
  { c with inode := c.inode.map MdsInode.wired }

/-- No row but an inode. -/
def FileContent.Blank (c : FileContent) : Prop :=
  (∀ n, c.entry n = none) ∧ c.stripe = none ∧ c.inline = none ∧ ∀ n, c.xattr n = none

def ChunkWrite.act (now : ℕ) (c : FileContent) : ChunkWrite → FileContent
  | .inode ino => { c with inode := some ino }
  | .dirent k child type => { c with entry := Function.update c.entry k.2 (some (child, type)) }
  | .stripe row => { c with stripe := some row }
  | .xattr k val =>
    { c with
      inode := c.inode.map (linkTouch now)
      xattr := Function.update c.xattr k.2 (some val) }
  | .inline _ data => { c with inline := some data }

section Content

variable {cat cat' : MigCat} {f g : CatFileid} {now : ℕ}

theorem direntFind_eq_rowsOf (n : Name) :
    cat.db.direntFind f n = findKey MemdbDirent.name n (cat.rowsOf f).entries := by
  rw [Memdb.direntFind, MigCat.rowsOf, findKey, findKey]
  simp [MemdbDirent.key]

theorem xattrFind_eq_rowsOf (n : Name) :
    findKey Prod.fst (f, n) cat.xattrs = findKey (fun x => x.1.2) n (cat.rowsOf f).xattrs := by
  rw [MigCat.rowsOf, findKey, findKey]
  simp [Prod.ext_iff]

theorem contentOf_congr_rows (h : cat'.rowsOf f = cat.rowsOf f) :
    cat'.contentOf f = cat.contentOf f := by
  refine FileContent.ext (congrArg FileRows.inode h) (funext fun n => ?_)
    (congrArg FileRows.stripe h) (congrArg FileRows.inline h) (funext fun n => ?_)
  · simp [MigCat.contentOf, direntFind_eq_rowsOf, h]
  · simp [MigCat.contentOf, xattrFind_eq_rowsOf, h]

variable {ino : MdsInode} {m m' : Memdb} {r : FileRows} {c : MigChunk}

theorem memInodePut_ok (h : memInodePut ino m = .ok m') :
    ∃ inodes, m' = { m with inodes } ∧ ∀ g, findKey MdsInode.fileid g inodes =
      if g = ino.fileid then some ino else m.inodeFind g := by
  unfold memInodePut at h
  split at h
  next old hold =>
    cases h
    refine ⟨_, rfl, fun g => ?_⟩
    rw [findKey_modifyKey_of fun _ _ => rfl]
    by_cases hg : g = ino.fileid
    · rw [if_pos hg, if_pos hg, hg, show findKey MdsInode.fileid ino.fileid m.inodes = some old
        from hold, map_some]
    · rw [if_neg hg, if_neg hg]
      rfl
  next =>
    split at h <;> cases h
    refine ⟨_, rfl, fun g => ?_⟩
    rw [findKey_cons]
    by_cases hg : g = ino.fileid
    · rw [if_pos hg.symm, if_pos hg]
    · rw [if_neg (Ne.symm hg), if_neg hg]
      rfl

theorem memStripeMapPut_ok {row} (h : memStripeMapPut row m = .ok m') :
    m' = { m with stripes := upsert MemdbStripe.fileid row m.stripes } := by
  unfold memStripeMapPut at h
  split at h
  · cases h
  · split at h <;> cases h
    rfl

variable {k : NameKey} {w : ChunkWrite}

theorem memXattrPut_ok {val} (h : memXattrPut now k val cat = .ok cat') :
    cat' = { cat with
      xattrs := upsert Prod.fst (k, val) cat.xattrs
      db := cat.db.inodeModify k.1 (linkTouch now) } := by
  unfold memXattrPut at h
  split at h
  · cases h
  · split at h <;> cases h
    rfl

theorem memInlinePut_ok {data} (h : memInlinePut f data cat = .ok cat') :
    cat' = { cat with inlines := upsert Prod.fst (f, data) cat.inlines } := by
  unfold memInlinePut at h
  split at h
  · cases h
  · split at h <;> cases h
    rfl

theorem entry_memDirentPut {child} {type : FileType} (h : memDirentPut k child type m = .ok m')
    (n : Name) :
    (m'.direntFind f n).map MemdbDirent.target =
      if (f, n) = k then some (child, type) else (m.direntFind f n).map MemdbDirent.target := by
  rw [memDirentPut_ok h]
  simp only [Memdb.direntFind, Memdb.direntSet, Memdb.direntDrop, findKey_cons, findKey_eraseKey,
    MemdbDirent.key]
  by_cases hk : (f, n) = k
  · subst hk
    rw [if_pos rfl, if_pos rfl]
    rfl
  · rw [if_neg hk, if_neg fun he : (k.1, k.2) = (f, n) => hk he.symm, if_neg hk]

/-- A write changes the content of its file and of no other. -/
theorem contentOf_run (h : w.run now cat = .ok cat') (g : CatFileid) :
    cat'.contentOf g = if g = w.fileid then w.act now (cat.contentOf g) else cat.contentOf g := by
  cases w with
  | inode ino =>
    obtain ⟨db, hdb, rfl⟩ := exists_of_map_ok h
    obtain ⟨_, rfl, hino⟩ := memInodePut_ok hdb
    by_cases hg : g = ino.fileid
    · rw [ChunkWrite.fileid, if_pos hg]
      exact FileContent.ext ((hino g).trans (if_pos hg)) rfl rfl rfl rfl
    · rw [ChunkWrite.fileid, if_neg hg]
      exact FileContent.ext ((hino g).trans (if_neg hg)) rfl rfl rfl rfl
  | dirent k =>
    obtain ⟨db, hdb, rfl⟩ := exists_of_map_ok h
    have hent : ∀ n, _ := entry_memDirentPut (f := g) hdb
    obtain rfl := memDirentPut_ok hdb
    by_cases hg : g = k.1
    · rw [ChunkWrite.fileid, if_pos hg]
      refine FileContent.ext rfl (funext fun n => (hent n).trans ?_) rfl rfl rfl
      simp only [ChunkWrite.act, update_apply]
      by_cases hn : n = k.2
      · rw [if_pos hn, if_pos (Prod.ext hg hn)]
      · rw [if_neg hn, if_neg fun he => hn (congrArg Prod.snd he)]
        rfl
    · rw [ChunkWrite.fileid, if_neg hg]
      refine FileContent.ext rfl (funext fun n => (hent n).trans ?_) rfl rfl rfl
      rw [if_neg fun he => hg (congrArg Prod.fst he)]
      rfl
  | stripe row =>
    obtain ⟨db, hdb, rfl⟩ := exists_of_map_ok h
    obtain rfl := memStripeMapPut_ok hdb
    have hrow : findKey MemdbStripe.fileid g (upsert MemdbStripe.fileid row cat.db.stripes) = _ :=
      findKey_upsert g
    by_cases hg : g = row.fileid
    · rw [ChunkWrite.fileid, if_pos hg]
      exact FileContent.ext rfl rfl (hrow.trans (if_pos hg)) rfl rfl
    · rw [ChunkWrite.fileid, if_neg hg]
      exact FileContent.ext rfl rfl (hrow.trans (if_neg hg)) rfl rfl
  | xattr k val =>
    obtain rfl := memXattrPut_ok h
    have hino : (cat.db.inodeModify k.1 (linkTouch now)).inodeFind g = _ :=
      inodeFind_inodeModify g fun _ => rfl
    have hrow : ∀ n, findKey Prod.fst (g, n) (upsert Prod.fst (k, val) cat.xattrs) = _ :=
      fun n => findKey_upsert (g, n)
    by_cases hg : g = k.1
    · rw [ChunkWrite.fileid, if_pos hg]
      refine FileContent.ext (hino.trans (if_pos hg)) rfl rfl rfl (funext fun n => ?_)
      simp only [ChunkWrite.act, update_apply]
      by_cases hn : n = k.2
      · rw [if_pos hn]
        exact congrArg (Option.map _) ((hrow n).trans (if_pos (Prod.ext hg hn)))
      · rw [if_neg hn]
        exact congrArg (Option.map _)
          ((hrow n).trans (if_neg fun he => hn (congrArg Prod.snd he)))
    · rw [ChunkWrite.fileid, if_neg hg]
      refine FileContent.ext (hino.trans (if_neg hg)) rfl rfl rfl (funext fun n => ?_)
      exact congrArg (Option.map _)
        ((hrow n).trans (if_neg fun he => hg (congrArg Prod.fst he)))
  | inline x data =>
    obtain rfl := memInlinePut_ok h
    have hrow : findKey Prod.fst g (upsert Prod.fst (x, data) cat.inlines) = _ :=
      findKey_upsert g
    by_cases hg : g = x
    · rw [ChunkWrite.fileid, if_pos hg]
      refine FileContent.ext rfl rfl rfl ?_ rfl
      exact congrArg (Option.map _) (hrow.trans (if_pos hg))
    · rw [ChunkWrite.fileid, if_neg hg]
      refine FileContent.ext rfl rfl rfl ?_ rfl
      exact congrArg (Option.map _) (hrow.trans (if_neg hg))

theorem contentOf_runWrites {ws} (hws : ∀ w ∈ ws, w.fileid = f)
    (h : runWrites now ws cat = (cat', true)) (g : CatFileid) : cat'.contentOf g =
      if g = f then ws.foldl (ChunkWrite.act now) (cat.contentOf g) else cat.contentOf g := by
  induction ws generalizing cat with
  | nil =>
    cases h
    exact (ite_self _).symm
  | cons w _ ih =>
    rw [runWrites] at h
    split at h
    · cases h
    next hmid =>
      have hw : w.fileid = f := hws w mem_cons_self
      rw [ih (fun w' hw' => hws w' (mem_cons_of_mem w hw')) h, contentOf_run hmid, hw]
      by_cases hg : g = f
      · rw [if_pos hg, if_pos hg, if_pos hg, foldl_cons]
      · rw [if_neg hg, if_neg hg, if_neg hg]

/-! ## Plain files -/

/-- All rows are of a kind that a chunk holds: names are unique and only in directories,
there are no extended attributes, and stripe maps and inline data are not empty and belong to
a regular file, inline data to one with the flag. -/
def FileRows.plain (r : FileRows) : Bool :=
  r.inode.all fun ino =>
    (ino.type = .dir || r.entries.isEmpty) && (r.entries.map MemdbDirent.name).Nodup &&
      r.stripe.all (fun s => ino.type = .reg && 0 < s.stripeCount) &&
      r.inline.all (fun data => ino.type = .reg && ino.has iflagInline && data ≠ []) &&
      r.xattrs.isEmpty

/-- No row but an inode. -/
def FileRows.blank (r : FileRows) : Bool :=
  r.entries.isEmpty && r.stripe.isNone && r.inline.isNone && r.xattrs.isEmpty

theorem blank_contentOf (h : (cat.rowsOf f).blank = true) : (cat.contentOf f).Blank := by
  simp only [FileRows.blank, Bool.and_eq_true, List.isEmpty_iff, Option.isNone_iff_eq_none] at h
  obtain ⟨⟨⟨hentries, hstripe⟩, hinline⟩, hxattrs⟩ := h
  refine ⟨fun n => ?_, hstripe, hinline, fun n => ?_⟩
  · simp only [MigCat.contentOf, direntFind_eq_rowsOf, hentries]
    rfl
  · simp only [MigCat.contentOf, xattrFind_eq_rowsOf, hxattrs]
    rfl

/-- A visit that finds memory for everything. -/
def fullRoom : VisitRoom := ⟨none, none⟩

theorem foldl_act_dirents (f : CatFileid) {l : List (Name × CatFileid × FileType)}
    (hl : (l.map Prod.fst).Nodup) (c : FileContent) :
    (l.map fun d => ChunkWrite.dirent (f, d.1) d.2.1 d.2.2).foldl (ChunkWrite.act now) c =
      { c with entry := fun n => ((findKey Prod.fst n l).map Prod.snd).or (c.entry n) } := by
  induction l generalizing c with
  | nil => rfl
  | cons d l ih =>
    rw [map_cons, nodup_cons] at hl
    rw [map_cons, foldl_cons, ih hl.2]
    refine FileContent.ext rfl (funext fun n => ?_) rfl rfl rfl
    simp only [ChunkWrite.act, findKey_cons, update_apply]
    by_cases hn : d.1 = n
    · -- the name is not written again
      have hnone : findKey Prod.fst n l = none := by
        refine findKey_eq_none.mpr fun x hx he => hl.1 ?_
        exact List.mem_map.mpr ⟨x, hx, he.trans hn.symm⟩
      rw [hnone, if_pos hn, if_pos hn.symm]
      rfl
    · rw [if_neg hn, if_neg (Ne.symm hn)]

theorem findKey_collected (n : Name) :
    (findKey Prod.fst n ((cat.rowsOf f).entries.map fun d => (d.name, d.target))).map Prod.snd =
      (cat.contentOf f).entry n := by
  have hmap : ∀ l : List MemdbDirent,
      (findKey Prod.fst n (l.map fun d => (d.name, d.target))).map Prod.snd =
        (findKey MemdbDirent.name n l).map MemdbDirent.target := by
    intro l
    induction l with
    | nil => rfl
    | cons d l ih =>
      simp only [map_cons, findKey_cons]
      by_cases hd : d.name = n
      · rw [if_pos hd, if_pos hd]
        rfl
      · rw [if_neg hd, if_neg hd, ih]
  rw [hmap, ← direntFind_eq_rowsOf]
  rfl

structure PlainRows (r : FileRows) (ino : MdsInode) : Prop where
  inode : r.inode = some ino
  entries : (if ino.type = .dir then r.entries else []) = r.entries
  names : (r.entries.map MemdbDirent.name).Nodup
  stripe : (if ino.type = .reg then r.stripe.filter fun s => 0 < s.stripeCount else none) = r.stripe
  inline : (if ino.type = .reg && ino.has iflagInline then r.inline else none) = r.inline
  nonempty : r.inline.filter (fun data => data ≠ []) = r.inline
  xattrs : r.xattrs = []

theorem plainRows_of_plain (h : r.plain = true) (hino : r.inode = some ino) : PlainRows r ino := by
  obtain ⟨inode, _, stripe, inline, _⟩ := r
  obtain rfl : inode = some ino := hino
  simp only [FileRows.plain, Option.all_some, Bool.and_eq_true, Bool.or_eq_true,
    decide_eq_true_eq, List.isEmpty_iff] at h
  obtain ⟨⟨⟨⟨hdir, hnames⟩, hstripe⟩, hinline⟩, hx⟩ := h
  refine ⟨rfl, ?_, hnames, ?_, ?_, ?_, hx⟩
  · rcases hdir with hdir | hdir
    · exact if_pos hdir
    · simp [hdir]
  · cases stripe with
    | none => simp
    | some =>
      simp only [all_some, Bool.and_eq_true, decide_eq_true_eq] at hstripe
      simp [hstripe]
  · cases inline with
    | none => simp
    | some =>
      simp only [all_some, Bool.and_eq_true, decide_eq_true_eq] at hinline
      simp [hinline]
  · cases inline with
    | none => rfl
    | some =>
      simp only [all_some, Bool.and_eq_true, decide_eq_true_eq] at hinline
      simp [hinline]

theorem PlainRows.dirents (h : PlainRows r ino) :
    (if ino.type = .dir then (taken none r.entries).map
      (fun d => (d.name, d.childFileid, d.childType)) else []) =
        r.entries.map fun d => (d.name, d.target) := by
  by_cases hdir : ino.type = .dir
  · rw [if_pos hdir]
    rfl
  · rw [if_neg hdir, ← h.entries, if_neg hdir]
    rfl

theorem dirents_of_plain (hplain : r.plain = true) (hc : r.chunk fullRoom = some c) :
    c.dirents = r.entries.map fun d => (d.name, d.target) := by
  obtain ⟨_, hino, rfl⟩ := map_eq_some_iff.mp hc
  exact (plainRows_of_plain hplain hino).dirents

theorem writes_of_plain (hplain : (cat.rowsOf f).plain = true)
    (hc : (cat.rowsOf f).chunk fullRoom = some c) :
    ∃ ino, PlainRows (cat.rowsOf f) ino ∧ ino.fileid = f ∧
      c.wired.writes = .inode ino.wired ::
        (((cat.rowsOf f).entries.map fun d => (d.name, d.target)).map
            (fun d => ChunkWrite.dirent (f, d.1) d.2.1 d.2.2) ++
          (cat.rowsOf f).stripe.toList.map .stripe ++
          (cat.rowsOf f).inline.toList.map (.inline f)) := by
  obtain ⟨ino, hino, rfl⟩ := map_eq_some_iff.mp hc
  have hr := plainRows_of_plain hplain hino
  have hf : ino.fileid = f := key_of_findKey hino
  refine ⟨ino, hr, hf, ?_⟩
  have hstripe : ((cat.rowsOf f).stripe.filter fun s => 0 < s.stripeCount).toList.map
      (fun s => ChunkWrite.stripe { s with fileid := f }) =
        (cat.rowsOf f).stripe.toList.map .stripe := by
    have hpos := hr.stripe
    cases hs : (cat.rowsOf f).stripe with
    | none => rfl
    | some s =>
      have hsf : s.fileid = f := key_of_findKey hs
      by_cases hreg : ino.type = .reg
      · rw [if_pos hreg, hs] at hpos
        rw [hpos, ← hsf]
        rfl
      · rw [if_neg hreg, hs] at hpos
        cases hpos
  simp only [MigChunk.wired, MigChunk.writes, MdsInode.wired, hf, fullRoom, hr.stripe, hr.inline,
    hr.nonempty, hr.xattrs, hr.dirents, hstripe]
  simp [taken]

/-- A visited file that is plain arrives as it was, but for the fields not on the wire. -/
theorem content_writes {d} (hplain : (cat.rowsOf f).plain = true)
    (hc : (cat.rowsOf f).chunk fullRoom = some c) (hd : d.Blank ∨ d = (cat.contentOf f).wired) :
    c.wired.writes.foldl (ChunkWrite.act now) d = (cat.contentOf f).wired := by
  obtain ⟨_, hr, -, hw⟩ := writes_of_plain hplain hc
  have hnames : (((cat.rowsOf f).entries.map fun d => (d.name, d.target)).map Prod.fst).Nodup := by
    rw [List.map_map]
    exact hr.names
  -- what was there before is nothing or what is written now
  have hentry : ∀ n, d.entry n = none ∨ d.entry n = (cat.contentOf f).entry n := by
    intro n
    rcases hd with h | rfl
    · exact .inl (h.1 n)
    · exact .inr rfl
  have hstripe : d.stripe = none ∨ d.stripe = (cat.rowsOf f).stripe := by
    rcases hd with h | rfl
    · exact .inl h.2.1
    · exact .inr rfl
  have hinline : d.inline = none ∨ d.inline = (cat.rowsOf f).inline := by
    rcases hd with h | rfl
    · exact .inl h.2.2.1
    · exact .inr rfl
  have hxattr : ∀ n, d.xattr n = (cat.contentOf f).xattr n := by
    intro n
    rcases hd with h | rfl
    · rw [h.2.2.2 n]
      simp only [MigCat.contentOf, xattrFind_eq_rowsOf, hr.xattrs]
      rfl
    · rfl
  have hor : ∀ {α : Type} {x y : Option α}, y = none ∨ y = x → x.or y = x := by
    intro _ x y h
    rcases h with rfl | rfl
    · exact or_none
    · exact or_self
  have hputStripe : ∀ c : FileContent, ((cat.rowsOf f).stripe.toList.map ChunkWrite.stripe).foldl
      (ChunkWrite.act now) c = { c with stripe := (cat.rowsOf f).stripe.or c.stripe } := by
    intro c
    cases (cat.rowsOf f).stripe <;> rfl
  have hputInline : ∀ c : FileContent, ((cat.rowsOf f).inline.toList.map (.inline f)).foldl
      (ChunkWrite.act now) c = { c with inline := (cat.rowsOf f).inline.or c.inline } := by
    intro c
    cases (cat.rowsOf f).inline <;> rfl
  rw [hw, foldl_cons, foldl_append, foldl_append, foldl_act_dirents f hnames,
    hputStripe, hputInline]
  refine FileContent.ext ?_ (funext fun n => ?_) (hor hstripe) (hor hinline) (funext hxattr)
  · exact (congrArg (Option.map _) hr.inode).symm
  · show ((findKey _ _ _).map _).or (d.entry n) = (cat.contentOf f).entry n
    rw [findKey_collected]
    exact hor (hentry n)

theorem fileid_of_mem_writes (hw : w ∈ c.writes) : w.fileid = c.inode.fileid := by
  simp only [MigChunk.writes, List.mem_cons, List.mem_append, List.mem_map] at hw
  rcases hw with rfl | ((⟨_, _, rfl⟩ | ⟨_, _, rfl⟩) | ⟨_, _, rfl⟩) | ⟨_, _, rfl⟩ <;> rfl

/-- A visit of a plain file: it arrives, and the destination keeps all others. -/
theorem contentOf_migrationApplyChunk {src dest dest' : MigCat}
    (hplain : (src.rowsOf f).plain = true) (hc : (src.rowsOf f).chunk fullRoom = some c)
    (hd : (dest.contentOf f).Blank ∨ dest.contentOf f = (src.contentOf f).wired)
    (h : migrationApplyChunk now c.wired dest = (dest', true)) (g : CatFileid) :
    dest'.contentOf g = if g = f then (src.contentOf f).wired else dest.contentOf g := by
  have hf : c.wired.inode.fileid = f := by
    obtain ⟨ino, hino, rfl⟩ := map_eq_some_iff.mp hc
    have hkey : ino.fileid = f := key_of_findKey hino
    exact hkey
  have hws : ∀ w ∈ c.wired.writes, w.fileid = f := fun w hw => (fileid_of_mem_writes hw).trans hf
  rw [contentOf_runWrites hws h]
  by_cases hg : g = f
  · rw [if_pos hg, if_pos hg, hg]
    exact content_writes hplain hc hd
  · rw [if_neg hg, if_neg hg]

end Content

end PnfsLattice
