import Desmos.Core.Session.Manager

/-! # The client registry

The responder side of every accepted connection. One accept is cut where threads
can interleave: the cap check, the allocation of an id, the handshake, and the
insertion into the table.
-/
namespace Desmos.Core
open Library Proto

inductive ServerError where
  | maxClientsReached
  | handshake (e : HandshakeError)
  | session (e : SessionError)
  | idSpaceExhausted
  deriving DecidableEq, Repr

namespace ServerError

/-- Handshake failures are lifted out of the session error that wraps them. -/
def ofSession : SessionError → ServerError
  | .handshake e => handshake e
  | e => session e

end ServerError

structure ClientRegistry where
  staticKey : X25519PrivateKey
  knownClients : List PublicKey
  prologue : Bytes
  maxClients : UInt32
  nextId : UInt16
  table : SessionTable
  deriving DecidableEq

namespace ClientRegistry

def new (staticKey : X25519PrivateKey) (knownClients : List PublicKey) (prologue : Bytes)
    (maxClients : UInt32) : ClientRegistry :=
  { staticKey, knownClients, prologue, maxClients, nextId := 1, table := SessionTable.new }

variable (r : ClientRegistry)

/-- The count is cast to 32 bits. -/
def activeClients : UInt32 := UInt32.ofNat r.table.len

def atCapacity : Bool := decide (r.activeClients ≥ r.maxClients)

/-- The search of `allocateId`: `fuel` more candidates from `cursor` on. Returns the
id with the cursor that the search leaves behind. -/
def findId (table : SessionTable) : (fuel : ℕ) → (cursor : UInt16) → Option SessionId × UInt16
  | 0, cursor => (none, cursor)
  | fuel + 1, cursor =>
    if cursor ≠ 0 ∧ table.contains cursor = false then (some cursor, cursor + 1)
    else findId table fuel (cursor + 1)

/-- Walk the whole id space once from the cursor, skipping 0 and ids in use. -/
def allocateId : Except ServerError SessionId × ClientRegistry :=
  match findId r.table 65536 r.nextId with
  | (some id, cursor) => (.ok id, { r with nextId := cursor })
  | (none, cursor) => (.error .idSpaceExhausted, { r with nextId := cursor })

/-- The responder half of the handshake under a given id. -/
def respond (P : Primitives) (r : ClientRegistry) (id : SessionId) (entropy : Option Key32)
    (msg1 : Bytes) (nowMs : UInt64) : Except ServerError (Bytes × Session Established) :=
  let handshaking := Session.newResponder P id r.staticKey r.knownClients r.prologue
  match handshaking.advance P entropy (some msg1) nowMs with
  | .error e => .error (ServerError.ofSession e)
  | .ok (.established (some msg2) session) => .ok (msg2, session)
  | .ok (.established none _) => .error (.session .wrongStep)
  | .ok (.needsMore _ _) => .error (.session .wrongStep)

def acceptClientMsg1 (P : Primitives) (r : ClientRegistry) (entropy : Option Key32) (msg1 : Bytes)
    (nowMs : UInt64) : Except ServerError (SessionId × Bytes) × ClientRegistry :=
  if r.atCapacity = true then (.error .maxClientsReached, r)
  else
    match r.allocateId with
    | (.error e, r) => (.error e, r)
    | (.ok id, r) =>
      match r.respond P id entropy msg1 nowMs with
      | .error e => (.error e, r)
      | .ok (msg2, session) =>
        (.ok (id, msg2), { r with table := r.table.set (.established session) })

def removeClient (id : SessionId) : Option AnySession × ClientRegistry :=
  let (slot, table) := r.table.remove id
  (slot, { r with table := table })

/-- Remove every session; the drained slots come in no particular order. -/
def shutdown : List AnySession × ClientRegistry :=
  r.table.ids.foldl (fun (drained, r) id =>
    let (slot, r) := r.removeClient id
    (drained ++ slot.toList, r)) ([], r)

end ClientRegistry

namespace ClientRegistry

section Allocation
variable {table : SessionTable} {cursor cursor' : UInt16} {id : SessionId}

def Free (table : SessionTable) (id : SessionId) : Prop := id ≠ 0 ∧ table.get id = none

theorem findId_of_free {fuel : ℕ} (h : Free table cursor) :
    findId table (fuel + 1) cursor = (some cursor, cursor + 1) :=
  if_pos ⟨h.1, SessionTable.contains_eq_false_iff.mpr h.2⟩

theorem findId_of_taken {fuel : ℕ} (h : ¬ Free table cursor) :
    findId table (fuel + 1) cursor = findId table fuel (cursor + 1) :=
  if_neg fun hc => h ⟨hc.1, SessionTable.contains_eq_false_iff.mp hc.2⟩

/-- The search hands out the first free id from the cursor on. -/
theorem findId_some_iff {fuel : ℕ} : findId table fuel cursor = (some id, cursor') ↔
    ∃ k < fuel, id = cursor + UInt16.ofNat k ∧ cursor' = id + 1 ∧ Free table id ∧
      ∀ j < k, ¬ Free table (cursor + UInt16.ofNat j) := by
  induction fuel generalizing cursor with
  | zero => simp [findId]
  | succ fuel ih =>
    by_cases hfree : Free table cursor
    · rw [findId_of_free hfree]
      constructor
      · intro h
        cases h
        exact ⟨0, by omega, by simp, rfl, hfree, by simp⟩
      · rintro ⟨k, -, rfl, rfl, -, hfirst⟩
        cases k with
        | zero => simp
        | succ k => exact absurd (by simpa using hfree) (hfirst 0 (by omega))
    · rw [findId_of_taken hfree, ih]
      have hshift : ∀ k, cursor + 1 + UInt16.ofNat k = cursor + UInt16.ofNat (k + 1) := by
        intro k
        rw [UInt16.ofNat_add, UInt16.add_assoc, UInt16.add_comm 1]
        rfl
      constructor
      · rintro ⟨k, hk, rfl, hc, hid, hfirst⟩
        refine ⟨k + 1, by omega, hshift k, hc, hid, fun j hj => ?_⟩
        cases j with
        | zero => simpa using hfree
        | succ j =>
          rw [← hshift]
          exact hfirst j (by omega)
      · rintro ⟨k, hk, hid, hc, hfr, hfirst⟩
        cases k with
        | zero =>
          obtain rfl : id = cursor := by simpa using hid
          exact absurd hfr hfree
        | succ k =>
          refine ⟨k, by omega, by rw [hshift, hid], hc, hfr, fun j hj => ?_⟩
          rw [hshift]
          exact hfirst (j + 1) (by omega)

theorem findId_none_iff {fuel : ℕ} : (findId table fuel cursor).1 = none ↔
    ∀ k < fuel, ¬ Free table (cursor + UInt16.ofNat k) := by
  constructor
  · intro h k hk hfree
    -- the least free position is one the search would have stopped at
    classical
    have hex : ∃ k, k < fuel ∧ Free table (cursor + UInt16.ofNat k) := ⟨k, hk, hfree⟩
    have hmin : ∀ j < Nat.find hex, ¬ Free table (cursor + UInt16.ofNat j) := fun j hj hj' =>
      Nat.find_min hex hj ⟨hj.trans (Nat.find_spec hex).1, hj'⟩
    have hfound := findId_some_iff.mpr
      ⟨Nat.find hex, (Nat.find_spec hex).1, rfl, rfl, (Nat.find_spec hex).2, hmin⟩
    simp [hfound] at h
  · intro h
    rcases hf : findId table fuel cursor with ⟨_ | id, c⟩
    · rfl
    · obtain ⟨k, hk, rfl, -, hfree, -⟩ := findId_some_iff.mp hf
      exact absurd hfree (h k hk)

theorem exists_offset (cursor id : UInt16) : ∃ k < 65536, id = cursor + UInt16.ofNat k := by
  refine ⟨(id - cursor).toNat, UInt16.toNat_lt _, ?_⟩
  rw [UInt16.ofNat_toNat, UInt16.add_comm, UInt16.sub_add_cancel]

/-- One walk over the id space fails only if every id but 0 is in use. -/
theorem findId_full_iff : (findId table 65536 cursor).1 = none ↔
    ∀ id : SessionId, id ≠ 0 → table.get id ≠ none := by
  rw [findId_none_iff]
  constructor
  · intro h id hid hget
    obtain ⟨k, hk, rfl⟩ := exists_offset cursor id
    exact h k hk ⟨hid, hget⟩
  · intro h k _ hfree
    exact h _ hfree.1 hfree.2

end Allocation

section Accept
variable {P : Primitives} {r r' : ClientRegistry} {id : SessionId} {entropy : Option Key32}
  {msg1 msg2 : Bytes} {nowMs : UInt64}

theorem respond_ok_iff {session : Session Established} :
    r.respond P id entropy msg1 nowMs = .ok (msg2, session) ↔
      ∃ res1 keys res2,
        (Responder.new P r.staticKey r.knownClients r.prologue).readMessage1 P msg1 =
          (.ok (), res1) ∧
        res1.writeMessage2 P entropy = (.ok (msg2, keys), res2) ∧
        session = freshSession id keys nowMs := by
  simp only [respond, Session.advance, Session.newResponder, establishedFromKeys_eq]
  cases h1 : (Responder.new P r.staticKey r.knownClients r.prologue).readMessage1 P msg1 with
  | mk read res1 =>
    cases read with
    | error e => simp
    | ok u =>
      cases h2 : res1.writeMessage2 P entropy with
      | mk written res2 =>
        cases written with
        | error e => simp [h2]
        | ok out =>
          obtain ⟨written, keys⟩ := out
          simp [h2, eq_comm]

theorem acceptClientMsg1_ok_iff :
    r.acceptClientMsg1 P entropy msg1 nowMs = (.ok (id, msg2), r') ↔
      r.atCapacity = false ∧ ∃ cursor session,
        findId r.table 65536 r.nextId = (some id, cursor) ∧
        r.respond P id entropy msg1 nowMs = .ok (msg2, session) ∧
        r' = { r with nextId := cursor, table := r.table.set (.established session) } := by
  unfold acceptClientMsg1 allocateId
  cases hc : r.atCapacity with
  | true => simp
  | false =>
    rcases findId r.table 65536 r.nextId with ⟨_ | j, cursor⟩
    · simp
    · have hrespond : ∀ i, respond P { r with nextId := cursor } i entropy msg1 nowMs =
          respond P r i entropy msg1 nowMs := fun i => rfl
      simp only [hrespond, Bool.false_eq_true, if_false, true_and]
      constructor
      · intro h
        cases hr : r.respond P j entropy msg1 nowMs with
        | error e => simp [hr] at h
        | ok out =>
          obtain ⟨written, session⟩ := out
          simp only [hr, Prod.mk.injEq, Except.ok.injEq] at h
          obtain ⟨⟨rfl, rfl⟩, rfl⟩ := h
          exact ⟨cursor, session, rfl, hr, rfl⟩
      · rintro ⟨c, session, h, hr, rfl⟩
        cases h
        simp [hr]

/-- An accept files one new session, under an id that was free. -/
theorem acceptClientMsg1_installs
    (h : r.acceptClientMsg1 P entropy msg1 nowMs = (.ok (id, msg2), r')) :
    Free r.table id ∧
      ∃ keys, r'.table = r.table.set (.established (freshSession id keys nowMs)) := by
  obtain ⟨-, cursor, session, hfind, hr, rfl⟩ := acceptClientMsg1_ok_iff.mp h
  obtain ⟨-, keys, -, -, -, rfl⟩ := respond_ok_iff.mp hr
  obtain ⟨-, -, -, -, hfree, -⟩ := findId_some_iff.mp hfind
  exact ⟨hfree, keys, rfl⟩

/-- An accept that fails moves the id cursor at most. -/
theorem acceptClientMsg1_error {e : ServerError}
    (h : r.acceptClientMsg1 P entropy msg1 nowMs = (.error e, r')) :
    ∃ cursor, r' = { r with nextId := cursor } := by
  unfold acceptClientMsg1 allocateId at h
  cases hc : r.atCapacity with
  | true =>
    simp only [hc, if_true, Prod.mk.injEq] at h
    exact ⟨r.nextId, h.2.symm⟩
  | false =>
    rcases hf : findId r.table 65536 r.nextId with ⟨_ | j, cursor⟩
    · simp only [hc, hf, Bool.false_eq_true, if_false, Prod.mk.injEq] at h
      exact ⟨cursor, h.2.symm⟩
    · cases hr : respond P { r with nextId := cursor } j entropy msg1 nowMs with
      | error e' =>
        simp only [hc, hf, hr, Bool.false_eq_true, if_false, Prod.mk.injEq] at h
        exact ⟨cursor, h.2.symm⟩
      | ok out => simp [hc, hf, hr] at h

end Accept

end ClientRegistry

end Desmos.Core
