import Mathlib.Algebra.Group.Nat.Defs
import Mathlib.Data.List.Basic
import Mathlib.Tactic.Common

/-!
# External data representation

The basic types of RFC 4506 as a writer into a bounded buffer and as a reader of a byte string,
and the rules by which larger encoders and decoders are put together.
-/

namespace Lib

open List Option

/-! ## Bytes -/

/-- Four bytes, the highest first. -/
def be32 (w : UInt32) : List UInt8 :=
  [(w.toNat / 2 ^ 24).toUInt8, (w.toNat / 2 ^ 16).toUInt8, (w.toNat / 2 ^ 8).toUInt8,
    w.toNat.toUInt8]

/-- The word of four bytes. -/
def ofBe32 (b₀ b₁ b₂ b₃ : UInt8) : UInt32 :=
  (b₀.toNat * 2 ^ 24 + b₁.toNat * 2 ^ 16 + b₂.toNat * 2 ^ 8 + b₃.toNat).toUInt32

theorem ofBe32_be32 (w : UInt32) :
    ofBe32 (w.toNat / 2 ^ 24).toUInt8 (w.toNat / 2 ^ 16).toUInt8 (w.toNat / 2 ^ 8).toUInt8
      w.toNat.toUInt8 = w := by
  have hw := w.toNat_lt
  apply UInt32.toNat_inj.mp
  simp only [ofBe32, Nat.toUInt32_eq, Nat.toUInt8_eq, UInt8.toNat_ofNat', UInt32.toNat_ofNat']
  omega

@[simp] theorem length_be32 (w : UInt32) : (be32 w).length = 4 := rfl

/-- Eight bytes, the highest first. -/
def be64 (w : UInt64) : List UInt8 :=
  be32 (w.toNat / 2 ^ 32).toUInt32 ++ be32 w.toNat.toUInt32

@[simp] theorem length_be64 (w : UInt64) : (be64 w).length = 8 := rfl

/-- The number of bytes that fill up a multiple of four. -/
def padding (n : ℕ) : ℕ := (4 - n % 4) % 4

/-- Opaque bytes, filled up with zeros. -/
def padded (bs : List UInt8) : List UInt8 := bs ++ List.replicate (padding bs.length) 0

@[simp] theorem length_padded (bs : List UInt8) :
    (padded bs).length = bs.length + padding bs.length := by
  simp [padded]

/-! ## Writing -/

/-- A memory stream with a limit. -/
structure XdrMem where
  bytes : List UInt8
  cap : ℕ
deriving DecidableEq

/-- Append bytes if there is room. -/
def XdrMem.put (bs : List UInt8) (x : XdrMem) : Option XdrMem :=
  if x.bytes.length + bs.length ≤ x.cap then some { x with bytes := x.bytes ++ bs } else none

/-- The encoder appends `bs`, given room. -/
def Writes (e : XdrMem → Option XdrMem) (bs : List UInt8) : Prop :=
  ∀ x : XdrMem, x.bytes.length + bs.length ≤ x.cap → e x = some { x with bytes := x.bytes ++ bs }

namespace Writes

theorem put (bs : List UInt8) : Writes (XdrMem.put bs) bs := fun _ h => if_pos h

theorem nothing : Writes some [] := fun x _ => by rw [append_nil]

theorem andThen {e e' : XdrMem → Option XdrMem} {bs bs' : List UInt8} (h : Writes e bs)
    (h' : Writes e' bs') : Writes (fun x => (e x).bind e') (bs ++ bs') := by
  intro x hx
  rw [length_append] at hx
  have hx' : (x.bytes ++ bs).length + bs'.length ≤ x.cap := by
    rw [length_append]
    omega
  change (e x).bind e' = _
  rw [h x (by omega), bind_some, h' { x with bytes := x.bytes ++ bs } hx', append_assoc]

theorem foldlM {α : Type*} {e : α → XdrMem → Option XdrMem} {enc : α → List UInt8} {l : List α}
    (h : ∀ a ∈ l, Writes (e a) (enc a)) :
    Writes (fun x => l.foldlM (fun x a => e a x) x) (l.flatMap enc) := by
  induction l with
  | nil => exact nothing
  | cons a l ih => exact (h a mem_cons_self).andThen (ih fun b hb => h b (mem_cons_of_mem _ hb))

end Writes

/-! ## Reading -/

/-- A decoder: the value it makes, and the bytes it leaves. -/
abbrev Dec (α : Type) := StateT (List UInt8) Option α

/-- The decoder takes `bs` and makes `a` of them, whatever follows. -/
def Reads {α : Type} (d : Dec α) (bs : List UInt8) (a : α) : Prop :=
  ∀ rest, d.run (bs ++ rest) = some (a, rest)

namespace Dec

/-- An unsigned integer. -/
def uint32 : Dec UInt32 := fun bs =>
  match bs with
  | b₀ :: b₁ :: b₂ :: b₃ :: rest => some (ofBe32 b₀ b₁ b₂ b₃, rest)
  | _ => none

/-- An unsigned hyper integer. -/
def uint64 : Dec UInt64 := do
  let hi ← uint32
  let lo ← uint32
  return (hi.toNat * 2 ^ 32 + lo.toNat).toUInt64

/-- Opaque data of a fixed length; the bytes that fill it up are zero. -/
def fixedOpaque (n : ℕ) : Dec (List UInt8) := fun bs =>
  if n + padding n ≤ bs.length ∧ ((bs.drop n).take (padding n)).all (· = 0) then
    some (bs.take n, bs.drop (n + padding n))
  else none

/-- Opaque data with its length in front. -/
def varOpaque : Dec (List UInt8) := do fixedOpaque (← uint32).toNat

/-- The same decoder a number of times. -/
def times {α : Type} (d : Dec α) : ℕ → Dec (List α)
  | 0 => return []
  | n + 1 => do
    let a ← d
    let as ← times d n
    return a :: as

/-- An array with its length in front. -/
def array {α : Type} (d : Dec α) : Dec (List α) := do times d (← uint32).toNat

end Dec

namespace Reads

variable {α β : Type}

theorem pure (a : α) : Reads (Pure.pure a : Dec α) [] a := fun _ => rfl

variable {bs : List UInt8}

theorem bind {d : Dec α} {k : α → Dec β} {bs' : List UInt8} {a : α} {b : β} (h : Reads d bs a)
    (h' : Reads (k a) bs' b) : Reads (d >>= k) (bs ++ bs') b := by
  intro rest
  rw [append_assoc, StateT.run_bind, h _]
  exact h' rest

theorem map {d : Dec α} {a : α} (h : Reads d bs a) (f : α → β) :
    Reads (d >>= fun a => Pure.pure (f a)) bs (f a) := by
  rw [← append_nil bs]
  exact h.bind (pure (f a))

theorem uint32 (w : UInt32) : Reads Dec.uint32 (be32 w) w := by
  intro rest
  change some (ofBe32 _ _ _ _, rest) = _
  rw [ofBe32_be32]

theorem uint64 (w : UInt64) : Reads Dec.uint64 (be64 w) w := by
  have hw := w.toNat_lt
  have hhalves : ((w.toNat / 2 ^ 32).toUInt32.toNat * 2 ^ 32 +
      w.toNat.toUInt32.toNat).toUInt64 = w := by
    apply UInt64.toNat_inj.mp
    simp only [Nat.toUInt32_eq, Nat.toUInt64_eq, UInt32.toNat_ofNat', UInt64.toNat_ofNat']
    omega
  refine (uint32 _).bind ?_
  nth_rewrite 3 [← hhalves]
  exact (uint32 _).map _

theorem fixedOpaque (bs : List UInt8) : Reads (Dec.fixedOpaque bs.length) (padded bs) bs := by
  intro rest
  have hlen : bs.length + padding bs.length ≤ (padded bs ++ rest).length := by simp
  have hdrop : (padded bs ++ rest).drop bs.length =
      List.replicate (padding bs.length) 0 ++ rest := by
    rw [padded, append_assoc, drop_left]
  have hzero : (((padded bs ++ rest).drop bs.length).take (padding bs.length)).all (· = 0) := by
    rw [hdrop]
    simp
  have htake : (padded bs ++ rest).take bs.length = bs := by rw [padded, append_assoc, take_left]
  have hrest : (padded bs ++ rest).drop (bs.length + padding bs.length) = rest :=
    drop_left' (length_padded bs)
  change (if _ then _ else _) = _
  rw [if_pos ⟨hlen, hzero⟩, htake, hrest]

theorem toNat_toUInt32 {n : ℕ} (h : n < 2 ^ 32) : n.toUInt32.toNat = n := by
  rw [UInt32.toNat_ofNat', Nat.mod_eq_of_lt h]

theorem varOpaque (h : bs.length < 2 ^ 32) :
    Reads Dec.varOpaque (be32 bs.length.toUInt32 ++ padded bs) bs := by
  refine (uint32 _).bind ?_
  rw [toNat_toUInt32 h]
  exact fixedOpaque bs

section

variable {d : Dec β} {enc : α → List UInt8} {f : α → β} {l : List α}

theorem times (h : ∀ a ∈ l, Reads d (enc a) (f a)) :
    Reads (Dec.times d l.length) (l.flatMap enc) (l.map f) := by
  induction l with
  | nil => exact pure []
  | cons a l ih =>
    exact (h a mem_cons_self).bind
      ((ih fun b hb => h b (mem_cons_of_mem _ hb)).map fun bs => f a :: bs)

theorem array (hlen : l.length < 2 ^ 32) (h : ∀ a ∈ l, Reads d (enc a) (f a)) :
    Reads (Dec.array d) (be32 l.length.toUInt32 ++ l.flatMap enc) (l.map f) := by
  refine (uint32 _).bind ?_
  rw [toNat_toUInt32 hlen]
  exact times h

end

end Reads

end Lib
