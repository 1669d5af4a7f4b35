import Desmos.Core.Server.Admission
import Desmos.Core.Server.Handshake
import Desmos.Library.Threads

/-! # Accepts from several threads

A thread runs an accept in four atomic steps: the cap check, the allocation of an id, the handshake
and the insertion. Between the check and the insertion the count can rise and the id cursor can come
round.
-/
namespace Desmos.Core
open Library Proto

inductive AcceptPc where
  | idle
  | checked (msg1 : Bytes) (nowMs : UInt64)
  | allocated (id : SessionId) (msg1 : Bytes) (nowMs : UInt64)
  | responded (id : SessionId) (msg2 : Bytes) (session : Session Established)

inductive AcceptInput where
  | call (msg1 : Bytes) (nowMs : UInt64)
  | resume (entropy : Option Key32)

/-- What the caller gets when a call ends, and the slot that an insertion replaced. -/
structure AcceptAnswer where
  finished : Option (Except ServerError (SessionId × Bytes))
  replaced : Option AnySession

namespace ClientRegistry

def acceptStep (P : Primitives) : Program ClientRegistry AcceptPc AcceptInput AcceptAnswer
  | r, .idle, .call msg1 nowMs =>
    if r.atCapacity = true then (⟨some (.error .maxClientsReached), none⟩, r, .idle)
    else (⟨none, none⟩, r, .checked msg1 nowMs)
  | r, .checked msg1 nowMs, .resume _ =>
    match r.allocateId with
    | (.error e, r) => (⟨some (.error e), none⟩, r, .idle)
    | (.ok id, r) => (⟨none, none⟩, r, .allocated id msg1 nowMs)
  | r, .allocated id msg1 nowMs, .resume entropy =>
    match r.respond P id entropy msg1 nowMs with
    | .error e => (⟨some (.error e), none⟩, r, .idle)
    | .ok (msg2, session) => (⟨none, none⟩, r, .responded id msg2 session)
  | r, .responded id msg2 session, .resume _ =>
    let (replaced, table) := r.table.insert (.established session)
    (⟨some (.ok (id, msg2)), replaced⟩, { r with table := table }, .idle)
  -- a thread in a call takes no new one, and an idle thread has nothing to run on
  | r, pc, _ => (⟨none, none⟩, r, pc)

def accepting (P : Primitives) (n : ℕ) :
    Machine (Pool (Fin n) ClientRegistry AcceptPc) (Fin n × AcceptInput) AcceptAnswer :=
  Pool.interleave fun _ => acceptStep P

def idlePool (r : ClientRegistry) (n : ℕ) : Pool (Fin n) ClientRegistry AcceptPc :=
  ⟨r, fun _ => .idle⟩

def wholeCall {n : ℕ} (i : Fin n) (msg1 : Bytes) (nowMs : UInt64) (entropy : Option Key32) :
    List (Fin n × AcceptInput) :=
  [(i, .call msg1 nowMs), (i, .resume none), (i, .resume entropy), (i, .resume none)]

/-- A call that no other thread interrupts is the sequential accept. -/
theorem wholeCall_eq_accept (P : Primitives) {n : ℕ} {i : Fin n} (r : ClientRegistry)
    {threads : Fin n → AcceptPc} (hi : threads i = .idle) (msg1 : Bytes) (nowMs : UInt64)
    (entropy : Option Key32) :
    (accepting P n).final ⟨r, threads⟩ (wholeCall i msg1 nowMs entropy) =
        ⟨(r.acceptClientMsg1 P entropy msg1 nowMs).2, threads⟩ ∧
      ((accepting P n).trace ⟨r, threads⟩ (wholeCall i msg1 nowMs entropy)).filterMap
        (fun e => e.2.finished) = [(r.acceptClientMsg1 P entropy msg1 nowMs).1] := by
  have hback : Function.update threads i .idle = threads := by rw [← hi, Function.update_eq_self]
  unfold acceptClientMsg1
  cases hc : r.atCapacity with
  | true =>
    simp [accepting, wholeCall, Pool.interleave, Machine.trace, hi, acceptStep, hc, hback]
  | false =>
    rcases ha : r.allocateId with ⟨e | id, r'⟩
    · simp [accepting, wholeCall, Pool.interleave, Machine.trace, hi, acceptStep, hc, ha, hback]
    · cases hr : r'.respond P id entropy msg1 nowMs with
      | error e =>
        simp [accepting, wholeCall, Pool.interleave, Machine.trace, hi, acceptStep, hc, ha, hr,
          hback]
      | ok out =>
        simp [accepting, wholeCall, Pool.interleave, Machine.trace, hi, acceptStep, hc, ha, hr,
          hback, SessionTable.insert]

/-- Everything one step of a thread can do, with the slot it replaces. -/
inductive AcceptMove (P : Primitives) (r : ClientRegistry) :
    AcceptPc → ClientRegistry → AcceptPc → Option AnySession → Prop
  | stay (pc) : AcceptMove P r pc r pc none
  | fail (pc cursor) : AcceptMove P r pc { r with nextId := cursor } .idle none
  | check (msg1 nowMs) (h : r.atCapacity = false) :
    AcceptMove P r .idle r (.checked msg1 nowMs) none
  | allocate (msg1 nowMs id cursor) (h : Free r.table id) :
    AcceptMove P r (.checked msg1 nowMs) { r with nextId := cursor } (.allocated id msg1 nowMs) none
  | respond (msg1 nowMs id entropy msg2 session)
    (h : r.respond P id entropy msg1 nowMs = .ok (msg2, session)) :
    AcceptMove P r (.allocated id msg1 nowMs) r (.responded id msg2 session) none
  | insert (id msg2 session) : AcceptMove P r (.responded id msg2 session)
    { r with table := r.table.set (.established session) } .idle (r.table.get session.id)

variable {P : Primitives} {r r' : ClientRegistry} {pc pc' : AcceptPc}

theorem acceptStep_move (P : Primitives) (r : ClientRegistry) (pc : AcceptPc) (i : AcceptInput) :
    AcceptMove P r pc (acceptStep P r pc i).2.1 (acceptStep P r pc i).2.2
      (acceptStep P r pc i).1.replaced := by
  cases pc with
  | idle =>
    cases i with
    | call msg1 nowMs =>
      cases hc : r.atCapacity with
      | true =>
        simp only [acceptStep, hc, if_true]
        exact .stay _
      | false =>
        simp only [acceptStep, hc, Bool.false_eq_true, if_false]
        exact .check msg1 nowMs hc
    | resume entropy => exact .stay _
  | checked msg1 nowMs =>
    cases i with
    | call msg nowMs => exact .stay _
    | resume entropy =>
      rcases hf : findId r.table 65536 r.nextId with ⟨_ | id, cursor⟩
      · simp only [acceptStep, allocateId, hf]
        exact .fail _ cursor
      · obtain ⟨-, -, -, -, hfree, -⟩ := findId_some_iff.mp hf
        simp only [acceptStep, allocateId, hf]
        exact .allocate msg1 nowMs id cursor hfree
  | allocated id msg1 nowMs =>
    cases i with
    | call msg nowMs => exact .stay _
    | resume entropy =>
      cases hr : r.respond P id entropy msg1 nowMs with
      | error e =>
        simp only [acceptStep, hr]
        exact .fail _ r.nextId
      | ok out =>
        simp only [acceptStep, hr]
        exact .respond msg1 nowMs id entropy out.1 out.2 hr
  | responded id msg2 session =>
    cases i with
    | call msg nowMs => exact .stay _
    | resume entropy => exact .insert id msg2 session

/-- The promises: under every interleaving of `n` threads that start idle, the sessions
fit under the cap and no accept replaces a session. -/
def SafeWithThreads (P : Primitives) (n : ℕ) (r : ClientRegistry) : Prop :=
  ∀ schedule : List (Fin n × AcceptInput),
    ((accepting P n).final (r.idlePool n) schedule).shared.table.len ≤ r.maxClients.toNat ∧
      ∀ e ∈ (accepting P n).trace (r.idlePool n) schedule, e.2.replaced = none

/-- Some message 1 completes the handshake with the registry. -/
def Answers (P : Primitives) (r : ClientRegistry) : Prop :=
  ∃ id entropy msg1 nowMs out, r.respond P id entropy msg1 nowMs = .ok out

section Safe
variable {n : ℕ} {maxClients : UInt32}

/-- Assertions about the threads that no thread breaks and that leave an insertion a
free slot under the cap make the registry safe. -/
theorem safe_of_assertions {I : ClientRegistry → Prop} {A : ClientRegistry → AcceptPc → Prop}
    (hn : n ≤ 1 ∨ ∀ r r' pc pc' replaced, I r → A r pc → AcceptMove P r pc r' pc' replaced →
      ∀ other, A r other → A r' other)
    (hown : ∀ r r' pc pc' replaced, I r → A r pc → AcceptMove P r pc r' pc' replaced →
      I r' ∧ A r' pc' ∧ replaced = none)
    (hlen : ∀ r', I r' → r'.table.len ≤ r.maxClients.toNat) (hstart : I r) (hidle : A r .idle) :
    SafeWithThreads P n r := by
  have own : ∀ (_ : Fin n) r pc i, I r → A r pc →
      I (acceptStep P r pc i).2.1 ∧ A (acceptStep P r pc i).2.1 (acceptStep P r pc i).2.2 := by
    intro _ r pc i hI hA
    obtain ⟨h1, h2, -⟩ := hown r _ pc _ _ hI hA (acceptStep_move P r pc i)
    exact ⟨h1, h2⟩
  have other : ∀ (k j : Fin n) r pc i u, j ≠ k → I r → A r pc → A r u →
      A (acceptStep P r pc i).2.1 u := by
    intro k j r pc i u hjk hI hA hu
    rcases hn with hn | hn
    · exact absurd (Fin.ext (by omega)) hjk
    · exact hn r _ pc _ _ hI hA (acceptStep_move P r pc i) u hu
  have hpool : (r.idlePool n).Holds I fun _ => A := ⟨hstart, fun _ => hidle⟩
  intro schedule
  constructor
  · exact hlen _ (hpool.final own other schedule).shared
  · exact hpool.trace (q := fun answer => answer.replaced = none) own other
      (fun _ r pc i hI hA => (hown r _ pc _ _ hI hA (acceptStep_move P r pc i)).2.2) schedule

/-- What a thread may count on while no other thread runs. -/
def Room (r : ClientRegistry) : AcceptPc → Prop
  | .idle => True
  | .checked _ _ => r.atCapacity = false
  | .allocated id _ _ => r.atCapacity = false ∧ Free r.table id
  | .responded id _ session => r.atCapacity = false ∧ Free r.table id ∧ session.id = id

theorem respond_session_id {id : SessionId} {entropy : Option Key32} {msg1 msg2 : Bytes}
    {nowMs : UInt64} {session : Session Established}
    (h : r.respond P id entropy msg1 nowMs = .ok (msg2, session)) : session.id = id := by
  obtain ⟨-, keys, -, -, -, rfl⟩ := respond_ok_iff.mp h
  rfl

theorem Bounded.insert (h : Bounded maxClients r) {session : Session Established}
    (hc : r.atCapacity = false) (hfree : Free r.table session.id) :
    Bounded maxClients { r with table := r.table.set (.established session) } where
  cap := h.cap
  len := by
    have hroom := len_lt_of_below_cap h hc
    have hset : (r.table.set (.established session)).len = r.table.len + 1 :=
      SessionTable.len_set_of_free hfree.2
    rw [hset]
    exact hroom
  nonzero := by
    have hne : (0 : SessionId) ≠ (AnySession.established session).id := Ne.symm hfree.1
    exact (SessionTable.get_set_of_ne r.table hne).trans h.nonzero

theorem safe_of_one_thread (hn : n ≤ 1) (h : Bounded r.maxClients r) : SafeWithThreads P n r := by
  apply safe_of_assertions (I := Bounded r.maxClients) (A := Room) (Or.inl hn)
  · intro r1 r2 pc pc' replaced hI hA hmove
    cases hmove with
    | stay => exact ⟨hI, hA, rfl⟩
    | fail cursor => exact ⟨⟨hI.cap, hI.len, hI.nonzero⟩, trivial, rfl⟩
    | check msg1 nowMs hc => exact ⟨hI, hc, rfl⟩
    | allocate msg1 nowMs id cursor hfree =>
      exact ⟨⟨hI.cap, hI.len, hI.nonzero⟩, ⟨hA, hfree⟩, rfl⟩
    | respond msg1 nowMs id entropy msg2 session hr =>
      exact ⟨hI, ⟨hA.1, hA.2, respond_session_id hr⟩, rfl⟩
    | insert id msg2 session =>
      obtain ⟨hc, hfree, rfl⟩ := hA
      exact ⟨hI.insert hc hfree, trivial, hfree.2⟩
  · exact fun r1 h1 => h1.len
  · exact h
  · trivial

theorem safe_of_zero_cap (hcap : r.maxClients = 0) (h : Bounded r.maxClients r) :
    SafeWithThreads P n r := by
  apply safe_of_assertions (I := Bounded r.maxClients) (A := fun _ pc => pc = .idle)
  · exact Or.inr fun _ _ _ _ _ _ _ _ _ hother => hother
  · rintro r1 r2 pc pc' replaced hI rfl hmove
    cases hmove with
    | stay => exact ⟨hI, rfl, rfl⟩
    | fail cursor => exact ⟨⟨hI.cap, hI.len, hI.nonzero⟩, rfl, rfl⟩
    | check msg1 nowMs hc =>
      have hlt := len_lt_of_below_cap hI hc
      rw [hcap] at hlt
      exact absurd hlt (Nat.not_lt_zero _)
  · exact fun r1 h1 => h1.len
  · exact h
  · rfl

theorem safe_of_no_answer (hans : ¬ Answers P r) (h : Bounded r.maxClients r) :
    SafeWithThreads P n r := by
  apply safe_of_assertions
    (I := fun r1 => Bounded r.maxClients r1 ∧ ∀ id entropy msg1 nowMs out,
      r1.respond P id entropy msg1 nowMs ≠ .ok out)
    (A := fun _ pc => ∀ id msg2 session, pc ≠ .responded id msg2 session)
  · exact Or.inr fun _ _ _ _ _ _ _ _ _ hother => hother
  · rintro r1 r2 pc pc' replaced ⟨hI, hno⟩ hA hmove
    cases hmove with
    | stay => exact ⟨⟨hI, hno⟩, hA, rfl⟩
    | fail cursor => exact ⟨⟨⟨hI.cap, hI.len, hI.nonzero⟩, hno⟩, by simp, rfl⟩
    | check msg1 nowMs hc => exact ⟨⟨hI, hno⟩, by simp, rfl⟩
    | allocate msg1 nowMs id cursor hfree =>
      exact ⟨⟨⟨hI.cap, hI.len, hI.nonzero⟩, hno⟩, by simp, rfl⟩
    | respond msg1 nowMs id entropy msg2 session hr =>
      exact absurd hr (hno id entropy msg1 nowMs _)
    | insert id msg2 session => exact absurd rfl (hA id msg2 session)
  · exact fun r1 h1 => h1.1.len
  · exact ⟨h, fun id entropy msg1 nowMs out ho => hans ⟨id, entropy, msg1, nowMs, out, ho⟩⟩
  · simp

end Safe

section Race
variable {n : ℕ} {i j : Fin n} {id : SessionId} {cursor : UInt16} {msg1 msg2 : Bytes}
  {nowMs : UInt64} {entropy : Option Key32} {session : Session Established}
  {threads : Fin n → AcceptPc}

theorem findId_empty (cursor : UInt16) : findId SessionTable.new 65536 cursor =
    if cursor = 0 then (some 1, 2) else (some cursor, cursor + 1) := by
  split_ifs with h
  · subst h
    rw [findId_of_taken (fun hfree => hfree.1 rfl)]
    exact findId_of_free ⟨by decide, rfl⟩
  · exact findId_of_free ⟨h, rfl⟩

theorem accept_refused (hc : r.atCapacity = false)
    (hf : findId r.table 65536 r.nextId = (some id, cursor)) :
    (r.acceptClientMsg1 P none [] 0).2 = { r with nextId := cursor } := by
  have hr : respond P { r with nextId := cursor } id none [] 0 =
    .error (.handshake .badMessage) := rfl
  simp [acceptClientMsg1, hc, allocateId, hf, hr]

theorem refused_calls (ht : r.table = SessionTable.new) (hc : r.atCapacity = false)
    (hi : threads i = .idle) (k : ℕ) (c : UInt16) (hcursor : ∀ m < k, c + UInt16.ofNat m ≠ 0) :
    (accepting P n).final ⟨{ r with nextId := c }, threads⟩
        (List.replicate k (wholeCall i [] 0 none)).flatten =
      ⟨{ r with nextId := c + UInt16.ofNat k }, threads⟩ := by
  induction k generalizing c with
  | zero => simp
  | succ k ih =>
    have hne : c ≠ 0 := by simpa using hcursor 0 (by omega)
    have hf : findId r.table 65536 c = (some c, c + 1) := by rw [ht, findId_empty, if_neg hne]
    have hshift : ∀ m, c + 1 + UInt16.ofNat m = c + UInt16.ofNat (m + 1) := by
      intro m
      rw [UInt16.ofNat_add, UInt16.add_assoc, UInt16.add_comm 1]
      rfl
    have hone : (accepting P n).final ⟨{ r with nextId := c }, threads⟩
        (wholeCall i [] 0 none) = ⟨{ r with nextId := c + 1 }, threads⟩ := by
      rw [(wholeCall_eq_accept P _ hi [] 0 none).1]
      exact congrArg (Pool.mk · threads)
        (accept_refused (r := { r with nextId := c }) hc hf)
    rw [List.replicate_succ, List.flatten_cons, Machine.final_append, hone,
      ih (c + 1) (fun m hm => by rw [hshift]; exact hcursor (m + 1) (by omega)), hshift]

theorem id_comes_round (hij : i ≠ j) (ht : r.table = SessionTable.new) (hcur : r.nextId = 1)
    (hc : r.atCapacity = false) (hr : r.respond P 1 entropy msg1 nowMs = .ok (msg2, session)) :
    ∃ schedule : List (Fin n × AcceptInput),
      ((accepting P n).final (r.idlePool n) schedule).threads i = .responded 1 msg2 session ∧
      ((accepting P n).final (r.idlePool n) schedule).shared.table =
        SessionTable.new.set (.established session) := by
  have hf1 : findId r.table 65536 r.nextId = (some 1, 2) := by rw [ht, hcur, findId_empty]; rfl
  -- thread `i` has drawn id 1 and stops before its handshake
  have hdraw : (accepting P n).final (r.idlePool n) [(i, .call msg1 nowMs), (i, .resume none)] =
      ⟨{ r with nextId := 2 }, Function.update (fun _ => .idle) i (.allocated 1 msg1 nowMs)⟩ := by
    simp [accepting, idlePool, Pool.interleave, acceptStep, hc, allocateId, hf1]
  -- thread `j` has 65534 calls refused, which brings the cursor back to 0
  have hj : Function.update (fun _ : Fin n => AcceptPc.idle) i (.allocated 1 msg1 nowMs) j =
      .idle := Function.update_of_ne (Ne.symm hij) _ _
  have hwalk := refused_calls (P := P) ht hc hj 65534 2 (by
    intro m hm h
    have hval := congrArg UInt16.toNat h
    simp only [UInt16.toNat_add, UInt16.toNat_ofNat', UInt16.reduceToNat] at hval
    omega)
  rw [show (2 : UInt16) + UInt16.ofNat 65534 = 0 from rfl] at hwalk
  -- and gets id 1 for a call that succeeds
  have hf0 : findId r.table 65536 0 = (some 1, 2) := by rw [ht, findId_empty]; rfl
  have hacc : acceptClientMsg1 P { r with nextId := 0 } entropy msg1 nowMs =
      (.ok (1, msg2), { r with nextId := 2, table := r.table.set (.established session) }) :=
    acceptClientMsg1_ok_iff.mpr ⟨hc, 2, session, hf0, hr, rfl⟩
  refine ⟨[(i, .call msg1 nowMs), (i, .resume none)] ++
    (List.replicate 65534 (wholeCall j [] 0 none)).flatten ++ wholeCall j msg1 nowMs entropy ++
      [(i, .resume entropy)], ?_⟩
  have hr' : ∀ table, respond P { r with nextId := 2, table := table } 1 entropy msg1 nowMs =
      .ok (msg2, session) := fun _ => hr
  rw [Machine.final_append, Machine.final_append, Machine.final_append, hdraw, hwalk,
    (wholeCall_eq_accept P _ hj msg1 nowMs entropy).1, hacc]
  simp [accepting, Pool.interleave, acceptStep, hr', ht]

theorem not_safe_of_two_threads (hn : 1 < n) (ht : r.table = SessionTable.new)
    (hcur : r.nextId = 1) (hcap : r.maxClients ≠ 0) (hans : Answers P r) :
    ¬ SafeWithThreads P n r := by
  intro hsafe
  obtain ⟨id, entropy, msg1, nowMs, ⟨msg2, session⟩, hr⟩ := hans
  obtain ⟨res1, keys, res2, hread, hwrite, -⟩ := respond_ok_iff.mp hr
  have hr1 : r.respond P 1 entropy msg1 nowMs = .ok (msg2, freshSession 1 keys nowMs) :=
    respond_ok_iff.mpr ⟨res1, keys, res2, hread, hwrite, rfl⟩
  have hc : r.atCapacity = false := by
    simpa [atCapacity, activeClients, ht, SessionTable.len, SessionTable.new] using hcap
  obtain ⟨schedule, hpc, htable⟩ := id_comes_round (i := ⟨0, by omega⟩) (j := ⟨1, hn⟩) (by simp)
    ht hcur hc hr1
  obtain ⟨-, hnone⟩ := hsafe (schedule ++ [(⟨0, by omega⟩, .resume none)])
  rw [Machine.trace_append, List.forall_mem_append] at hnone
  have hlast := hnone.2 _ List.mem_cons_self
  simp only [accepting, Pool.interleave] at hpc htable hlast
  rw [hpc] at hlast
  simp only [acceptStep, SessionTable.insert, htable] at hlast
  exact Option.some_ne_none _ ((SessionTable.get_set_self _ _).symm.trans hlast)

/-- Two threads that pass the cap check before either inserts, then run their calls to
the end one after the other. -/
def raceSchedule (i j : Fin n) (msgI msgJ : Bytes) (entropy : Option Key32) :
    List (Fin n × AcceptInput) :=
  [(i, .call msgI 0), (j, .call msgJ 0),
    (i, .resume none), (i, .resume entropy), (i, .resume none),
    (j, .resume none), (j, .resume entropy), (j, .resume none)]

theorem race_inserts_both (hij : i ≠ j) (ht : r.table = SessionTable.new) (hcur : r.nextId = 1)
    (hc : r.atCapacity = false) {msgI msgJ mI mJ : Bytes} {sI sJ : Session Established}
    (hI : r.respond P 1 entropy msgI 0 = .ok (mI, sI))
    (hJ : r.respond P 2 entropy msgJ 0 = .ok (mJ, sJ)) :
    ((accepting P n).final (r.idlePool n) (raceSchedule i j msgI msgJ entropy)).shared.table.len =
      2 := by
  have hidI : (AnySession.established sI).id = 1 := respond_session_id hI
  have hidJ : (AnySession.established sJ).id = 2 := respond_session_id hJ
  have hf1 : findId r.table 65536 r.nextId = (some 1, 2) := by rw [ht, hcur, findId_empty]; rfl
  have hfree : (r.table.set (.established sI)).get 2 = none := by
    rw [SessionTable.get_set_of_ne _ (by rw [hidI]; decide), ht]
    rfl
  have hf2 : findId (r.table.set (.established sI)) 65536 2 = (some 2, 3) :=
    findId_of_free ⟨by decide, hfree⟩
  have hI' : ∀ c, respond P { r with nextId := c } 1 entropy msgI 0 = .ok (mI, sI) := fun _ => hI
  have hJ' : ∀ c table, respond P { r with nextId := c, table := table } 2 entropy msgJ 0 =
      .ok (mJ, sJ) := fun _ _ => hJ
  have hfinal : ((accepting P n).final (r.idlePool n)
      (raceSchedule i j msgI msgJ entropy)).shared.table =
        (r.table.set (.established sI)).set (.established sJ) := by
    simp [accepting, idlePool, raceSchedule, Pool.interleave, acceptStep, hc, allocateId, hf1, hf2,
      hI', hJ', SessionTable.insert, Function.update_of_ne hij, Function.update_of_ne hij.symm]
  rw [hfinal, SessionTable.len_set_of_free (by rw [hidJ]; exact hfree),
    SessionTable.len_set_of_free (by rw [hidI, ht]; rfl), ht]
  rfl

end Race

/-- The cap and the slots are safe under every interleaving exactly when there are no
two threads to interleave, or nobody can get in at all. -/
theorem accepting_safe_iff (P : Primitives) (n : ℕ) (staticKey : X25519PrivateKey)
    (knownClients : List PublicKey) (prologue : Bytes) (maxClients : UInt32) :
    SafeWithThreads P n (new staticKey knownClients prologue maxClients) ↔
      n ≤ 1 ∨ maxClients = 0 ∨ ¬ Answers P (new staticKey knownClients prologue maxClients) := by
  have hnew := new_bounded staticKey knownClients prologue maxClients
  constructor
  · intro hsafe
    by_contra hno
    push Not at hno
    obtain ⟨hn, hcap, hans⟩ := hno
    exact not_safe_of_two_threads hn rfl rfl hcap hans hsafe
  · rintro (hn | hcap | hans)
    · exact safe_of_one_thread hn hnew
    · exact safe_of_zero_cap hcap hnew
    · exact safe_of_no_answer hans hnew

end ClientRegistry

namespace Sample

def registryOfOne : ClientRegistry := ClientRegistry.new serverKey [] [] 1

def rivalKey : X25519PrivateKey := ⟨Vector.replicate 32 6⟩

/-- Two clients whose messages arrive on two threads at the same time. -/
def raceOfTwo : List (Fin 2 × AcceptInput) :=
  ClientRegistry.raceSchedule 0 1 (clientMsg1 registryOfOne clientKey)
    (clientMsg1 registryOfOne rivalKey) (some (Vector.replicate 32 4))

end Sample

/-- Two accepts that both saw an empty table fill a registry for one client with two. -/
theorem race_exceeds_cap :
    Sample.registryOfOne.maxClients = 1 ∧
    ((ClientRegistry.accepting .transparent 2).final (Sample.registryOfOne.idlePool 2)
      Sample.raceOfTwo).shared.table.len = 2 ∧
    ¬ ClientRegistry.SafeWithThreads .transparent 2 Sample.registryOfOne := by
  obtain ⟨m1, k1, h1⟩ := (Sample.clientMsg1_reads Sample.registryOfOne rfl
    Sample.clientKey).respond Primitives.transparent_lawfulAead 1 (Vector.replicate 32 4) 0
  obtain ⟨m2, k2, h2⟩ := (Sample.clientMsg1_reads Sample.registryOfOne rfl
    Sample.rivalKey).respond Primitives.transparent_lawfulAead 2 (Vector.replicate 32 4) 0
  have hlen : ((ClientRegistry.accepting .transparent 2).final (Sample.registryOfOne.idlePool 2)
      Sample.raceOfTwo).shared.table.len = 2 :=
    ClientRegistry.race_inserts_both (by decide) rfl rfl rfl h1 h2
  refine ⟨rfl, hlen, fun hsafe => ?_⟩
  have hcap := (hsafe Sample.raceOfTwo).1
  rw [hlen] at hcap
  exact absurd hcap (by decide)

end Desmos.Core
