import Desmos.Core.Server.Clients

/-! # Admission to the registry, one call after the other

Accepts, removals and shutdowns in any order. The count stays under the cap, and no accept takes a
slot that is in use.
-/
namespace Desmos.Core
open Library Proto

inductive RegistryCall where
  | accept (entropy : Option Key32) (msg1 : Bytes) (nowMs : UInt64)
  | remove (id : SessionId)
  | shutdown

inductive RegistryAnswer where
  | accepted (result : Except ServerError (SessionId × Bytes))
  | removed (slot : Option AnySession)
  | drained (slots : List AnySession)

namespace ClientRegistry

def call (P : Primitives) : Machine ClientRegistry RegistryCall RegistryAnswer
  | r, .accept entropy msg1 nowMs =>
    let (result, r) := r.acceptClientMsg1 P entropy msg1 nowMs
    (.accepted result, r)
  | r, .remove id =>
    let (slot, r) := r.removeClient id
    (.removed slot, r)
  | r, .shutdown =>
    let (slots, r) := r.shutdown
    (.drained slots, r)

/-- What every call keeps. -/
structure Bounded (maxClients : UInt32) (r : ClientRegistry) : Prop where
  cap : r.maxClients = maxClients
  len : r.table.len ≤ maxClients.toNat
  nonzero : r.table.get 0 = none

variable {P : Primitives} {r r' : ClientRegistry} {maxClients : UInt32} {id : SessionId}
  {entropy : Option Key32} {msg1 msg2 : Bytes} {nowMs : UInt64}

theorem new_bounded (staticKey : X25519PrivateKey) (knownClients : List PublicKey)
    (prologue : Bytes) (maxClients : UInt32) :
    Bounded maxClients (new staticKey knownClients prologue maxClients) :=
  ⟨rfl, Nat.zero_le _, rfl⟩

/-- Below the cap the 32-bit count is the number of sessions. -/
theorem len_lt_of_below_cap (h : Bounded maxClients r) (hc : r.atCapacity = false) :
    r.table.len < maxClients.toNat := by
  have hlt : r.activeClients < r.maxClients := by simpa [atCapacity] using hc
  have hsmall : r.table.len < 2 ^ 32 := h.len.trans_lt maxClients.toNat_lt
  rw [UInt32.lt_iff_toNat_lt, activeClients, UInt32.toNat_ofNat_of_lt' hsmall, h.cap] at hlt
  exact hlt

/-- A successful accept adds one session under a free id and changes no other slot. -/
theorem acceptClientMsg1_adds
    (h : r.acceptClientMsg1 P entropy msg1 nowMs = (.ok (id, msg2), r')) :
    r.atCapacity = false ∧ r'.maxClients = r.maxClients ∧ r'.table.len = r.table.len + 1 ∧
      Free r.table id ∧ ∀ j, j ≠ id → r'.table.get j = r.table.get j := by
  obtain ⟨hc, cursor, session, -, -, hr⟩ := acceptClientMsg1_ok_iff.mp h
  obtain ⟨hfree, keys, ht⟩ := acceptClientMsg1_installs h
  refine ⟨hc, by rw [hr], ?_, hfree, fun j hj => ?_⟩
  · rw [ht]
    exact SessionTable.len_set_of_free hfree.2
  · rw [ht]
    exact SessionTable.get_set_of_ne _ hj

theorem Bounded.accept (h : Bounded maxClients r) (entropy : Option Key32) (msg1 : Bytes)
    (nowMs : UInt64) : Bounded maxClients (r.acceptClientMsg1 P entropy msg1 nowMs).2 := by
  rcases ha : r.acceptClientMsg1 P entropy msg1 nowMs with ⟨e | ⟨id, msg2⟩, r'⟩
  · obtain ⟨cursor, rfl⟩ := acceptClientMsg1_error ha
    exact ⟨h.cap, h.len, h.nonzero⟩
  · obtain ⟨hc, hmax, hlen, hfree, hother⟩ := acceptClientMsg1_adds ha
    have hroom := len_lt_of_below_cap h hc
    refine ⟨hmax.trans h.cap, ?_, ?_⟩
    · rw [hlen]
      exact hroom
    · rw [hother 0 (Ne.symm hfree.1)]
      exact h.nonzero

theorem Bounded.removeClient (h : Bounded maxClients r) (id : SessionId) :
    Bounded maxClients (r.removeClient id).2 where
  cap := h.cap
  len := (SessionTable.len_remove_le r.table id).trans h.len
  nonzero := by
    by_cases hid : (0 : SessionId) = id
    · subst hid
      exact SessionTable.get_remove_self r.table 0
    · exact (SessionTable.get_remove_of_ne r.table hid).trans h.nonzero

theorem Bounded.shutdown (h : Bounded maxClients r) : Bounded maxClients r.shutdown.2 := by
  -- the drain is a fold of removals over the ids that were there at its start
  unfold ClientRegistry.shutdown
  generalize ([] : List AnySession) = drained
  generalize r.table.ids = ids
  induction ids generalizing r drained with
  | nil => exact h
  | cons id ids ih => exact ih (h.removeClient id) _

theorem Bounded.call (h : Bounded maxClients r) (c : RegistryCall) :
    Bounded maxClients (ClientRegistry.call P r c).2 := by
  cases c with
  | accept entropy msg1 nowMs => exact h.accept entropy msg1 nowMs
  | remove id => exact h.removeClient id
  | shutdown => exact h.shutdown

theorem allocateId_exhausted_iff :
    r.allocateId.1 = .error .idSpaceExhausted ↔
      ∀ id : SessionId, id ≠ 0 → r.table.get id ≠ none := by
  rw [← @findId_full_iff r.table r.nextId, allocateId]
  rcases findId r.table 65536 r.nextId with ⟨_ | id, cursor⟩
  · simp
  · simp

/-- What is promised of a registry with the given cap: the sessions fit under the cap,
each is filed under its own non-zero id, an accept keeps every session that was there,
a failing accept keeps the table, and ids run out only when all of them are in use. -/
structure Admission (P : Primitives) (maxClients : UInt32) (r : ClientRegistry) : Prop where
  capped : r.table.len ≤ maxClients.toNat
  filed : ∀ id s, r.table.get id = some s → id ≠ 0 ∧ s.id = id
  keeps : ∀ entropy msg1 nowMs id s, r.table.get id = some s →
    (r.acceptClientMsg1 P entropy msg1 nowMs).2.table.get id = some s
  failing : ∀ entropy msg1 nowMs e, (r.acceptClientMsg1 P entropy msg1 nowMs).1 = .error e →
    (r.acceptClientMsg1 P entropy msg1 nowMs).2.table = r.table
  exhausted : r.allocateId.1 = .error .idSpaceExhausted ↔
    ∀ id : SessionId, id ≠ 0 → r.table.get id ≠ none

theorem Bounded.admission (h : Bounded maxClients r) : Admission P maxClients r where
  capped := h.len
  filed id s hs := by
    refine ⟨?_, r.table.filed id s hs⟩
    rintro rfl
    rw [h.nonzero] at hs
    cases hs
  keeps entropy msg1 nowMs id s hs := by
    rcases ha : r.acceptClientMsg1 P entropy msg1 nowMs with ⟨e | ⟨j, msg2⟩, r'⟩
    · obtain ⟨cursor, rfl⟩ := acceptClientMsg1_error ha
      exact hs
    · obtain ⟨-, -, -, hfree, hother⟩ := acceptClientMsg1_adds ha
      have hne : id ≠ j := by
        rintro rfl
        rw [hfree.2] at hs
        cases hs
      exact (hother id hne).trans hs
  failing entropy msg1 nowMs e he := by
    rcases ha : r.acceptClientMsg1 P entropy msg1 nowMs with ⟨e' | out, r'⟩
    · obtain ⟨cursor, rfl⟩ := acceptClientMsg1_error ha
      rfl
    · rw [ha] at he
      cases he
  exhausted := allocateId_exhausted_iff

/-- Any number of calls after start-up, the registry keeps its promises. -/
theorem registry_run_admission (P : Primitives) (staticKey : X25519PrivateKey)
    (knownClients : List PublicKey) (prologue : Bytes) (maxClients : UInt32)
    (calls : List RegistryCall) :
    Admission P maxClients
      ((call P).final (new staticKey knownClients prologue maxClients) calls) := by
  have hrun : Bounded maxClients
      ((call P).final (new staticKey knownClients prologue maxClients) calls) :=
    Machine.final_invariant (fun r c h => h.call c)
      (new_bounded staticKey knownClients prologue maxClients) calls
  exact hrun.admission

end ClientRegistry

end Desmos.Core
