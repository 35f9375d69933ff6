import Mathlib.Algebra.Order.Group.Nat
import Mathlib.Data.List.TakeWhile
import PnfsLattice.Catalogue.Memdb

/-!
# Listing the names of extended attributes

The pages of LISTXATTRS (`compound_nfsv42.c`). The backend lists the names in a fixed order and
calls `listxattrs_cb` on each until it is told to stop.
-/

namespace PnfsLattice

open List

def nfs4ListxattrsMax : ℕ := 256

/-- A name of `MDS_XATTR_NAME_MAX` bytes at most, which the copy into a reply does not cut. -/
abbrev XattrName := { name : List UInt8 // name.length ≤ 255 }

/-- The bytes of a name on the wire: its length, itself and the padding. -/
def wireLen (name : XattrName) : ℕ := 4 + name.1.length + (4 - name.1.length % 4) % 4

/-- `listxattrs_cb` on the names from the cookie on, with `room` for so many names: those it puts
into the reply, and what is left of `maxcount`. -/
def listxattrsCb : List XattrName → ℕ → ℕ → List XattrName × ℕ
  | [], _, maxcount => ([], maxcount)
  | name :: l, room, maxcount =>
    if room = 0 ∨ maxcount < wireLen name then ([], maxcount)
    else
      let r := listxattrsCb l (room - 1) (maxcount - wireLen name)
      (name :: r.1, r.2)

structure ListxattrsReply where
  names : List XattrName
  cookie : ℕ
  eof : Bool

def opListxattrs (l : List XattrName) (maxcount cookie : ℕ) : ListxattrsReply :=
  let (names, left) := listxattrsCb (l.drop cookie) nfs4ListxattrsMax maxcount
  { names
    cookie := cookie + names.length
    eof := !(nfs4ListxattrsMax ≤ names.length || left = 0 && 0 < names.length) }

/-- A client that resumes at the cookie until `eof` is given the names that are left: each reply
before the last one makes progress, and `eof` comes with the last name. -/
inductive Delivers (l : List XattrName) (maxcount : ℕ) : ℕ → Prop
  | last {cookie r} (hr : opListxattrs l maxcount cookie = r) (heof : r.eof = true)
      (hnames : l.drop cookie = r.names) : Delivers l maxcount cookie
  | more {cookie r} (hr : opListxattrs l maxcount cookie = r) (heof : r.eof = false)
      (hnames : l.drop cookie = r.names ++ l.drop r.cookie) (hsome : r.names ≠ [])
      (hleft : l.drop r.cookie ≠ []) (h : Delivers l maxcount r.cookie) : Delivers l maxcount cookie

def pageBytes (page : List XattrName) : ℕ := page.foldr (wireLen · + ·) 0

/-- A page has room for so many names and bytes. -/
def PageFits (room maxcount : ℕ) (page : List XattrName) : Prop :=
  page.length ≤ room ∧ pageBytes page ≤ maxcount

/-- No name or no byte more has room. -/
def PageFull (room maxcount : ℕ) (page : List XattrName) : Prop :=
  page.length = room ∨ page ≠ [] ∧ pageBytes page = maxcount

/-- Names that can be cut into full pages and a last one that is not full. -/
inductive Pages (maxcount : ℕ) : List XattrName → Prop
  | last {page} (hfits : PageFits nfs4ListxattrsMax maxcount page)
      (hfull : ¬ PageFull nfs4ListxattrsMax maxcount page) : Pages maxcount page
  | more {page l} (hfits : PageFits nfs4ListxattrsMax maxcount page)
      (hfull : PageFull nfs4ListxattrsMax maxcount page) (hl : l ≠ []) (h : Pages maxcount l) :
      Pages maxcount (page ++ l)

variable {l rest page : List XattrName} {maxcount room cookie : ℕ}

theorem listxattrsCb_fits : ∃ page rest, l = page ++ rest ∧ PageFits room maxcount page ∧
    listxattrsCb l room maxcount = (page, maxcount - pageBytes page) := by
  induction l generalizing room maxcount with
  | nil => exact ⟨[], [], rfl, by simp [PageFits, pageBytes], rfl⟩
  | cons name l ih =>
    rw [listxattrsCb]
    split
    next => exact ⟨[], name :: l, rfl, by simp [PageFits, pageBytes], rfl⟩
    next h =>
      obtain ⟨page, rest, rfl, ⟨hlen, hbytes⟩, heq⟩ := @ih (maxcount - wireLen name) (room - 1)
      refine ⟨name :: page, rest, rfl, ⟨?_, ?_⟩, ?_⟩
      · simp; omega
      · simp [pageBytes] at hbytes ⊢; omega
      · simp [heq, pageBytes, Nat.sub_sub]

/-- What fits is taken if nothing or no room is left behind it. -/
theorem listxattrsCb_append (hfits : PageFits room maxcount page)
    (hend : rest = [] ∨ page.length = room ∨ pageBytes page = maxcount) :
    listxattrsCb (page ++ rest) room maxcount = (page, maxcount - pageBytes page) := by
  induction page generalizing room maxcount with
  | nil =>
    cases rest with
    | nil => rfl
    | cons name =>
      have : 0 < wireLen name := by simp only [wireLen]; omega
      simp [pageBytes] at hend
      rw [nil_append, listxattrsCb, if_pos (by omega)]
      rfl
  | cons name page ih =>
    obtain ⟨hlen, hbytes⟩ := hfits
    simp only [pageBytes, foldr_cons, length_cons] at hlen hbytes hend ⊢
    have hrest : PageFits (room - 1) (maxcount - wireLen name) page :=
      ⟨by omega, Nat.le_sub_of_add_le' hbytes⟩
    rw [cons_append, listxattrsCb, if_neg (by omega), ih hrest]
    · simp [pageBytes, Nat.sub_sub]
    · exact hend.imp_right (Or.imp (by omega) (by simp only [pageBytes]; omega))

theorem opListxattrs_spec (hfits : PageFits nfs4ListxattrsMax maxcount page)
    (h : listxattrsCb (l.drop cookie) nfs4ListxattrsMax maxcount =
      (page, maxcount - pageBytes page)) :
    ∃ eof, opListxattrs l maxcount cookie = ⟨page, cookie + page.length, eof⟩ ∧
      (eof = false ↔ PageFull nfs4ListxattrsMax maxcount page) := by
  obtain ⟨hlen, hbytes⟩ := hfits
  refine ⟨_, by rw [opListxattrs, h], ?_⟩
  simp [PageFull, length_pos_iff]
  grind

theorem pages_of_delivers (h : Delivers l maxcount cookie) : Pages maxcount (l.drop cookie) := by
  induction h with
  | @last _ r hr heof hnames | @more _ r hr heof hnames _ hleft h ih =>
    obtain ⟨_, _, -, hfits, hcb⟩ := @listxattrsCb_fits _ _ _
    obtain ⟨_, hpage, hfull⟩ := opListxattrs_spec hfits hcb
    obtain rfl := hpage.symm.trans hr
    rw [hnames]
    first
    | exact .last hfits fun h => Bool.false_ne_true ((hfull.mpr h).symm.trans heof)
    | exact .more hfits (hfull.mp heof) hleft ih

theorem delivers_of_pages (h : Pages maxcount rest) (hl : l.drop cookie = rest) :
    Delivers l maxcount cookie := by
  induction h generalizing cookie with
  | @last page hfits hfull =>
    have hcb := @listxattrsCb_append [] page _ _ hfits (.inl rfl)
    rw [append_nil, ← hl] at hcb
    obtain ⟨eof, hr, heof⟩ := opListxattrs_spec (hl ▸ hfits) hcb
    exact .last hr (by simpa using mt heof.mp (hl ▸ hfull)) rfl
  | @more page rest hfits hfull _ h ih =>
    have hcb := @listxattrsCb_append rest page _ _ hfits (.inr (hfull.imp_right And.right))
    rw [← hl] at hcb
    obtain ⟨_, hr, heof⟩ := opListxattrs_spec hfits hcb
    have hnext : l.drop (cookie + page.length) = rest := by rw [← drop_drop, hl, drop_left]
    have hpage : page ≠ [] := by
      rintro rfl
      simp [PageFull, nfs4ListxattrsMax] at hfull
    exact .more hr (heof.mpr hfull) (by rw [hl, hnext]) hpage (by rwa [hnext]) (ih hnext)

/-- A client is given every name just if the names can be cut into full pages and a last page
that is not full. -/
theorem listxattrs_delivers_iff (l : List XattrName) (maxcount : ℕ) :
    Delivers l maxcount 0 ↔ Pages maxcount l :=
  ⟨pages_of_delivers, fun h => delivers_of_pages h rfl⟩

/-- The second name has no room in the page, which is taken for the last one as four bytes are
left. -/
theorem listxattrs_loses_name :
    let names : List XattrName := [⟨[97, 98, 99, 100], by decide⟩, ⟨[97, 98, 99, 101], by decide⟩]
    names.all (wireLen · ≤ 12) ∧ (opListxattrs names 12 0).names = names.take 1 ∧
      (opListxattrs names 12 0).eof = true := by
  decide

/-! ## The attribute directory

The same names as the entries of the directory that OPENATTR gives (`compound_namespace.c`). -/

def nfs4ReaddirMax : ℕ := 256

structure XattrDirent where
  name : List UInt8
  cookie : ℕ

/-- `xattr_readdir_cb` on the names that are left, with `count` entries made. An entry is zeroed
and given its name only, so its cookie is 0. -/
def xattrReaddirCb : List XattrName → ℕ → List XattrDirent
  | [], _ => []
  | name :: l, count =>
    if nfs4ReaddirMax ≤ count then []
    else if name.1 = [] then xattrReaddirCb l count
    else ⟨name.1, 0⟩ :: xattrReaddirCb l (count + 1)

structure XattrReaddirReply where
  entries : List XattrDirent
  eof : Bool

/-- `op_readdir` on an attribute directory, which looks at neither `maxcount` nor the cookie. -/
def opReaddirXattr (l : List XattrName) (_maxcount _cookie : ℕ) : XattrReaddirReply :=
  let entries := xattrReaddirCb l 0
  { entries, eof := entries.length < nfs4ReaddirMax }

/-- The name that `encode_readdir_entry` writes, a C string. -/
def XattrDirent.wireName (e : XattrDirent) : List UInt8 := e.name.takeWhile (· != 0)

/-- What a client receives that resumes at the cookie of the last entry until `eof`. -/
inductive Receives (l : List XattrName) (maxcount : ℕ) : ℕ → List (List UInt8) → Prop
  | last {cookie r} (hr : opReaddirXattr l maxcount cookie = r) (heof : r.eof = true) :
      Receives l maxcount cookie (r.entries.map (·.wireName))
  | more {cookie r e rest} (hr : opReaddirXattr l maxcount cookie = r) (heof : r.eof = false)
      (he : r.entries.getLast? = some e) (h : Receives l maxcount e.cookie rest) :
      Receives l maxcount cookie (r.entries.map (·.wireName) ++ rest)

theorem xattrReaddirCb_eq (count : ℕ) : xattrReaddirCb l count =
    ((l.filter (·.1 ≠ [])).take (nfs4ReaddirMax - count)).map fun name => ⟨name.1, 0⟩ := by
  induction l generalizing count with
  | nil => simp [xattrReaddirCb]
  | cons name l ih =>
    rw [xattrReaddirCb]
    by_cases hfull : nfs4ReaddirMax ≤ count
    · simp [hfull]
    · have hroom : nfs4ReaddirMax - count = nfs4ReaddirMax - (count + 1) + 1 := by omega
      by_cases hempty : name.1 = [] <;> simp [hfull, hempty, ih, hroom]

/-- Every page is the first one, so that a client comes to `eof` with it or never. -/
theorem Receives.once {received : List (List UInt8)} (h : Receives l maxcount cookie received) :
    (xattrReaddirCb l 0).length < nfs4ReaddirMax ∧
      received = (xattrReaddirCb l 0).map (·.wireName) := by
  induction h with
  | last hr heof =>
    subst hr
    exact ⟨by simpa [opReaddirXattr] using heof, rfl⟩
  | more hr heof =>
    subst hr
    simp [opReaddirXattr] at heof
    omega

/-- A client receives every name once just if they are proper C strings and fit into one page. -/
theorem xattr_readdir_complete_iff (l : List XattrName) (maxcount : ℕ) :
    (∃ received, Receives l maxcount 0 received ∧ received ~ l.map (·.1)) ↔
      l.length < nfs4ReaddirMax ∧ ∀ name ∈ l, name.1 ≠ [] ∧ 0 ∉ name.1 := by
  constructor
  · rintro ⟨received, hreceived, hperm⟩
    obtain ⟨hlen, rfl⟩ := hreceived.once
    have hsize := hperm.length_eq
    simp only [length_map] at hsize
    refine ⟨by omega, fun name hname => ?_⟩
    have hall : l.filter (·.1 ≠ []) = l := by
      apply filter_sublist.eq_of_length_le
      simp [xattrReaddirCb_eq] at hsize ⊢
      omega
    have hmem := hperm.mem_iff.mpr (mem_map_of_mem hname)
    obtain ⟨e, -, he⟩ := mem_map.mp hmem
    refine ⟨by simpa using filter_eq_self.mp hall name hname, fun hzero => ?_⟩
    rw [← he] at hzero
    simpa using mem_takeWhile_imp hzero
  · rintro ⟨hlen, hnames⟩
    have hall : l.filter (·.1 ≠ []) = l := filter_eq_self.mpr (by simp_all)
    have hcb : xattrReaddirCb l 0 = l.map fun name => ⟨name.1, 0⟩ := by
      rw [xattrReaddirCb_eq, hall, take_of_length_le (by omega)]
    refine ⟨_, .last rfl (by simpa [opReaddirXattr, hcb] using hlen), ?_⟩
    refine .of_eq ?_
    simp only [opReaddirXattr, hcb, map_map]
    refine map_congr_left fun name hname => takeWhile_eq_self_iff.mpr fun c hc => ?_
    simpa using ne_of_mem_of_not_mem hc (hnames name hname).2

/-- The reply with 256 names has the cookie 0 and no `eof`, and so has every one after it. -/
theorem xattr_readdir_never_ends :
    let names : List XattrName := (range 256).map fun i =>
      ⟨[97 + (i / 16).toUInt8, 97 + (i % 16).toUInt8], by simp⟩
    names.Nodup ∧ ¬ ∃ received, Receives names 65536 0 received := by
  refine ⟨by decide +kernel, fun ⟨received, h⟩ => ?_⟩
  have hlen := h.once.1
  revert hlen
  decide +kernel

end PnfsLattice
