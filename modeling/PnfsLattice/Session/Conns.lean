import PnfsLattice.Lib.Slots
import PnfsLattice.Session.Slot

/-!
# The connections of a session

A session (`session.c`) refers to the connection of its backchannel and, in an array with a
live prefix, to those that carried an accepted SEQUENCE. A full array recycles its entries by
a cursor. When a connection is torn down, `session_unbind_conn` clears it everywhere, and
moves the last live entry into the gap.
-/

namespace PnfsLattice

open Lib List

/-- A connection; a null pointer is `none`. -/
abbrev Conn := ℕ

def sessionForeConnsMax : ℕ := 16

/-- What SEQUENCE and the bindings use of `struct nfs4_session`. -/
structure ConnSession where
  sessionId : ℕ
  clientid : UInt64
  slots : List Slot
  cbConn : Option Conn
  foreConns : List (Option Conn)
  foreConnCount : ℕ
  foreConnRing : UInt32

/-- The live prefix of `fore_conns`. -/
def ConnSession.live (s : ConnSession) : List (Option Conn) := s.foreConns.take s.foreConnCount

/-- A session as `CREATE_SESSION` allocates it. -/
def newConnSession (sessionId : ℕ) (clientid : UInt64) (numSlots : ℕ) : ConnSession where
  sessionId := sessionId
  clientid := clientid
  slots := replicate numSlots ⟨0, false, none⟩
  cbConn := none
  foreConns := replicate sessionForeConnsMax none
  foreConnCount := 0
  foreConnRing := 0

/-- `session_note_fore_conn_locked`. -/
def sessionNoteForeConn (conn : Option Conn) (s : ConnSession) : ConnSession :=
  if conn = none ∨ conn ∈ s.live then s
  else if s.foreConnCount < sessionForeConnsMax then
    { s with
      foreConns := s.foreConns.set s.foreConnCount conn
      foreConnCount := s.foreConnCount + 1 }
  else
    { s with
      foreConns := s.foreConns.set (s.foreConnRing.toNat % sessionForeConnsMax) conn
      foreConnRing := s.foreConnRing + 1 }

/-- `session_sequence_check_conn` on a session: an accepted request binds its connection. -/
def sessionSequenceCheckConn (slotId : ℕ) (seqId : UInt32) (conn : Option Conn) (s : ConnSession) :
    ConnSession :=
  match sessionSequenceCheck s.slots slotId seqId with
  | (slots, .accepted) => sessionNoteForeConn conn { s with slots }
  | (slots, _) => { s with slots }

/-- `session_unbind_conn` on the array of a session: the tail entry is moved down. -/
def dropForeConn (conn : Conn) (s : ConnSession) : ConnSession :=
  if some conn ∈ s.live then
    { s with
      foreConns := (s.foreConns.set (s.live.idxOf (some conn))
        (s.foreConns.getD (s.foreConnCount - 1) none)).set (s.foreConnCount - 1) none
      foreConnCount := s.foreConnCount - 1 }
  else s

/-- `session_unbind_conn` over all sessions. -/
def sessionUnbindConn (conn : Conn) (ss : List ConnSession) : List ConnSession :=
  ss.map fun s =>
    { dropForeConn conn s with cbConn := if s.cbConn = some conn then none else s.cbConn }

/-- The operations on the sessions of a server. `destroyClient` is the end of a client with
all its sessions. -/
inductive ConnOp
  | create (sessionId : ℕ) (clientid : UInt64) (numSlots : ℕ)
  | destroy (sessionId : ℕ)
  | destroyClient (clientid : UInt64)
  | sequence (sessionId slotId : ℕ) (seqId : UInt32) (conn : Option Conn)
  | bindConn (sessionId : ℕ) (conn : Conn)
  | bindForeConn (sessionId : ℕ) (conn : Conn)
  | unbindConn (conn : Conn)

/-- An operation on the session that `find_session` finds. -/
def onSession (sessionId : ℕ) (f : ConnSession → ConnSession) (ss : List ConnSession) :
    List ConnSession :=
  modifyFirst (fun s => s.sessionId == sessionId) f ss

def connStep (ss : List ConnSession) : ConnOp → Option (List ConnSession)
  | .create sessionId clientid numSlots => some (newConnSession sessionId clientid numSlots :: ss)
  | .destroy sessionId => some (ss.eraseP fun s => s.sessionId == sessionId)
  | .destroyClient clientid => some (ss.filter fun s => s.clientid != clientid)
  | .sequence sessionId slotId seqId conn =>
    some (onSession sessionId (sessionSequenceCheckConn slotId seqId conn) ss)
  | .bindConn sessionId conn => some (onSession sessionId (fun s => { s with cbConn := conn }) ss)
  | .bindForeConn sessionId conn => some (onSession sessionId (sessionNoteForeConn conn) ss)
  | .unbindConn conn => some (sessionUnbindConn conn ss)

/-! ## The array -/

/-- The live prefix is a set of connections. -/
structure ConnSession.Dense (s : ConnSession) : Prop where
  length : s.foreConns.length = sessionForeConnsMax
  count : s.foreConnCount ≤ sessionForeConnsMax
  nodup : s.live.Nodup
  bound : none ∉ s.live

variable {s : ConnSession} {conn : Option Conn} {c : Conn}

theorem ConnSession.Dense.note (h : s.Dense) : (sessionNoteForeConn conn s).Dense := by
  unfold sessionNoteForeConn
  split_ifs with hbound hroom
  · exact h
  · obtain ⟨hconn, hnew⟩ := not_or.mp hbound
    have hlive : (s.foreConns.set s.foreConnCount conn).take (s.foreConnCount + 1) =
        s.live ++ [conn] := by
      rw [take_succ_eq_append_getElem (by rw [length_set, h.length]; exact hroom),
        take_set_of_le le_rfl, getElem_set_self]
      rfl
    refine ⟨by rw [length_set, h.length], hroom, ?_, ?_⟩
    · rw [live, hlive, ← concat_eq_append]
      exact h.nodup.concat hnew
    · rw [live, hlive, mem_append, mem_singleton]
      exact not_or.mpr ⟨h.bound, fun heq => hconn heq.symm⟩
  · obtain ⟨hconn, hnew⟩ := not_or.mp hbound
    refine ⟨by rw [length_set, h.length], h.count, ?_, fun hnone => ?_⟩
    · rw [live, take_set]
      exact h.nodup.set hnew
    · rw [live, take_set] at hnone
      rcases mem_or_eq_of_mem_set hnone with hold | heq
      · exact h.bound hold
      · exact hconn heq.symm

theorem live_dropForeConn (h : s.Dense) (c : Conn) :
    (dropForeConn c s).live ~ s.live.erase (some c) := by
  unfold dropForeConn
  split_ifs with hmem
  · have hlen : s.live.length = s.foreConnCount := by
      rw [ConnSession.live, length_take, h.length, min_eq_left h.count]
    have hpos : 0 < s.foreConnCount := hlen ▸ length_pos_of_mem hmem
    have hlast : s.foreConns.getD (s.foreConnCount - 1) none =
        s.live.getD (s.live.length - 1) none := by
      rw [hlen, ConnSession.live, getD_eq_getElem?_getD, getD_eq_getElem?_getD,
        getElem?_take_of_lt (by omega)]
    have hlive := swapRemove_perm none hmem
    rw [← hlast, hlen, ConnSession.live, ← take_set, take_take, min_eq_left (by omega)] at hlive
    rw [ConnSession.live, take_set_of_le le_rfl]
    exact hlive
  · rw [erase_of_not_mem hmem]

theorem ConnSession.Dense.drop (h : s.Dense) (c : Conn) : (dropForeConn c s).Dense := by
  have hperm := live_dropForeConn h c
  refine ⟨?_, ?_, hperm.nodup_iff.mpr (h.nodup.erase _), fun hnone => ?_⟩
  · unfold dropForeConn
    split_ifs
    · simpa only [length_set] using h.length
    · exact h.length
  · unfold dropForeConn
    split_ifs
    · exact (Nat.sub_le ..).trans h.count
    · exact h.count
  · exact h.bound (mem_of_mem_erase (hperm.mem_iff.mp hnone))

/-! ## Runs -/

theorem dense_connStep {ss ss' op} (h : ∀ s ∈ ss, s.Dense) (hstep : connStep ss op = some ss') :
    ∀ s ∈ ss', s.Dense := by
  have hon : ∀ (id : ℕ) (f : ConnSession → ConnSession), (∀ s, s.Dense → (f s).Dense) →
      ∀ s ∈ onSession id f ss, s.Dense := by
    intro _ f hf s hs
    rcases mem_modifyFirst hs with hs | ⟨t, hfind, rfl⟩
    · exact h s hs
    · exact hf t (h t (mem_of_find?_eq_some hfind))
  cases op with
  | create =>
    cases hstep
    refine forall_mem_cons.mpr ⟨?_, h⟩
    exact ⟨length_replicate, Nat.zero_le _, nodup_nil, not_mem_nil⟩
  | destroy =>
    cases hstep
    exact fun s hs => h s (mem_of_mem_eraseP hs)
  | destroyClient =>
    cases hstep
    exact fun s hs => h s (mem_of_mem_filter hs)
  | sequence =>
    cases hstep
    refine hon _ _ fun s hs => ?_
    have hslots : ∀ slots, { s with slots }.Dense := fun _ => { hs with }
    unfold sessionSequenceCheckConn
    split
    · exact (hslots _).note
    · exact hslots _
  | bindConn =>
    cases hstep
    exact hon _ _ fun s hs => { hs with }
  | bindForeConn =>
    cases hstep
    exact hon _ _ fun s hs => hs.note
  | unbindConn conn =>
    cases hstep
    refine forall_mem_map.mpr fun s hs => ?_
    have hdrop := (h s hs).drop conn
    exact { hdrop with }

/-- **No binding dangles.**  In every run the live prefixes hold distinct connections and no
null pointer, and after `session_unbind_conn` no session refers to the connection. -/
theorem unbind_leaves_no_binding {ss : List ConnSession}
    (h : Reachable (Eq []) connStep anyStep ss) : (∀ s ∈ ss, s.live.Nodup ∧ none ∉ s.live) ∧
      ∀ conn, ∀ s ∈ sessionUnbindConn conn ss, s.cbConn ≠ some conn ∧ some conn ∉ s.live := by
  have hdense : ∀ s ∈ ss, s.Dense :=
    h.invariant (fun _ hss => hss ▸ forall_mem_nil _) fun _ _ _ hss _ => dense_connStep hss
  refine ⟨fun s hs => ⟨(hdense s hs).nodup, (hdense s hs).bound⟩, fun conn => ?_⟩
  refine forall_mem_map.mpr fun s hs => ⟨?_, fun hmem => ?_⟩
  · split
    · nofun
    next hne => exact hne
  · have hold := (live_dropForeConn (hdense s hs) conn).mem_iff.mp hmem
    exact (hdense s hs).nodup.not_mem_erase hold

/-- A session that 17 connections were bound to, the first of them also for callbacks. -/
def recycledRun : List ConnOp :=
  .create 1 7 1 :: .bindConn 1 16 :: (range 17).map (.bindForeConn 1)

/-- The last connection has taken the first place of the array, and leaves it again. -/
theorem unbind_recycled : ∃ ss, exec connStep [] recycledRun = some ss ∧
    ss.map (fun s => (s.live.take 2, s.live.length)) = [([some 16, some 1], 16)] ∧
    ∀ s ∈ sessionUnbindConn 16 ss, s.cbConn ≠ some 16 ∧ some 16 ∉ s.live := by
  exact ⟨_, rfl, by decide +kernel, (unbind_leaves_no_binding (.run [] recycledRun rfl)).2 16⟩

end PnfsLattice
