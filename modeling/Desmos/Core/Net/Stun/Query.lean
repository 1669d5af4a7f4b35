import Desmos.Core.Net.Stun.Response

/-! # The binding query and stray datagrams

The query sends its request up to three times and takes one datagram for each. Of the datagrams
that do not answer it, it goes on only behind those that parse up to the transaction id.
-/
namespace Desmos.Core.Stun
open Library

def timeoutsMs : List UInt64 := [500, 1000, 2000]

def bufLen : ℕ := 1500

/-- What the socket answers to the three calls of one attempt. -/
structure Attempt where
  sendTo : Except IoError Unit
  setReadTimeout : Except IoError Unit
  recvFrom : Except IoError (Bytes × SocketAddr)

structure QueryOutcome where
  sent : List (Bytes × SocketAddr)
  result : Except StunError SocketAddr
  deriving DecidableEq

/-- The read timeout of a socket that may not block. -/
def IsTimeout (e : IoError) : Prop := e.kind = .wouldBlock ∨ e.kind = .timedOut

instance (e : IoError) : Decidable (IsTimeout e) := inferInstanceAs (Decidable (_ ∨ _))

/-- The retry loop. What it makes of a datagram is a parameter: it goes on, or ends with a
result. -/
def queryLoop (judge : Bytes → Option (Option (Except StunError SocketAddr)))
    (request : Bytes × SocketAddr) : List Attempt → Option QueryOutcome
  | [] => some ⟨[], .error .timeout⟩
  | a :: rest =>
    match a.sendTo with
    | .error e => some ⟨[], .error (.io e.message)⟩
    | .ok () =>
      let next := (queryLoop judge request rest).map fun out =>
        { out with sent := request :: out.sent }
      match a.setReadTimeout with
      | .error e => some ⟨[request], .error (.io e.message)⟩
      | .ok () =>
        match a.recvFrom with
        | .error e => if IsTimeout e then next else some ⟨[request], .error (.io e.message)⟩
        | .ok (data, _) =>
          match judge (data.take bufLen) with
          | none => none
          | some none => next
          | some (some result) => some ⟨[request], result⟩

/-- A response to another request is passed over, every other datagram ends the query. -/
def verdict (tx : TransactionId) (data : Bytes) : Option (Option (Except StunError SocketAddr)) :=
  (parseBindingResponse data tx).map fun
    | .error .transactionMismatch => none
    | result => some result

/-- `tx` is the transaction id that the query has generated. -/
def queryBinding (tx : TransactionId) (server : SocketAddr)
    (attempts : Fin timeoutsMs.length → Attempt) : Option QueryOutcome :=
  queryLoop (verdict tx) (buildBindingRequest tx, server) (List.ofFn attempts)

/-- The datagram has the transaction id in its place. -/
def Carries (tx : TransactionId) (data : Bytes) : Prop :=
  headerLen ≤ data.length ∧ slice data 8 12 = tx.toList

instance (tx : TransactionId) (data : Bytes) : Decidable (Carries tx data) :=
  inferInstanceAs (Decidable (_ ∧ _))

/-- Datagrams without the transaction id are passed over; the first with it gives the result. -/
def strayProofVerdict (tx : TransactionId) (data : Bytes) :
    Option (Option (Except StunError SocketAddr)) :=
  if Carries tx data then (parseBindingResponse data tx).map some else some none

def strayProofQuery (tx : TransactionId) (server : SocketAddr)
    (attempts : Fin timeoutsMs.length → Attempt) : Option QueryOutcome :=
  queryLoop (strayProofVerdict tx) (buildBindingRequest tx, server) (List.ofFn attempts)

/-- The datagram has a whole header with the magic cookie. -/
def HasCookie (data : Bytes) : Prop :=
  headerLen ≤ data.length ∧ slice data 4 4 = toBe 4 magicCookie.toNat

instance (data : Bytes) : Decidable (HasCookie data) := inferInstanceAs (Decidable (_ ∧ _))

namespace Attempt

/-- The datagram of an attempt, as the buffer takes it. -/
def received (a : Attempt) : Option Bytes :=
  match a.sendTo, a.setReadTimeout, a.recvFrom with
  | .ok (), .ok (), .ok (data, _) => some (data.take bufLen)
  | _, _, _ => none

def timedOut (a : Attempt) : Bool :=
  match a.sendTo, a.setReadTimeout, a.recvFrom with
  | .ok (), .ok (), .error e => IsTimeout e
  | _, _, _ => false

/-- Nothing came, or something that does not carry the transaction id. -/
def undecided (tx : TransactionId) (a : Attempt) : Bool :=
  a.timedOut || match a.received with
    | some data => !decide (Carries tx data)
    | none => false

theorem received_of_timedOut {a : Attempt} (h : a.timedOut = true) : a.received = none := by
  obtain ⟨send, setTimeout, recv⟩ := a
  cases recv with
  | ok d => cases send <;> cases setTimeout <;> simp [timedOut] at h
  | error e => cases send <;> cases setTimeout <;> rfl

end Attempt

section Verdict
variable {tx : TransactionId} {data : Bytes}

theorem parseBindingResponse_of_short (h : data.length < headerLen) :
    parseBindingResponse data tx = some (.error .truncated) :=
  if_pos h

theorem parseBindingResponse_of_header (h : headerLen ≤ data.length) :
    parseBindingResponse data tx =
      if slice data 4 4 ≠ toBe 4 magicCookie.toNat then some (.error .badMagic)
      else if slice data 8 12 ≠ tx.toList then some (.error .transactionMismatch)
      else parseBody data (UInt16.ofNat (ofBe (slice data 0 2)))
        (UInt16.ofNat (ofBe (slice data 2 2))) := by
  have hlen : 20 ≤ data.length := h
  have hslice : (slice data 4 4).length = 4 := by
    simp only [slice, List.length_take, List.length_drop]
    omega
  have hmagic : UInt32.ofNat (ofBe (slice data 4 4)) = magicCookie ↔
      slice data 4 4 = toBe 4 magicCookie.toNat := by
    constructor
    · intro heq
      rw [← heq, toBe_ofBe_uint32 hslice]
    · intro heq
      rw [heq, ofBe_toBe_uint32]
  rw [parseBindingResponse, if_neg (Nat.not_lt.mpr h), u16At_inside (by omega),
    u16At_inside (by omega), u32At_inside (by omega), sliceAt_inside (by omega) (by omega)]
  simp [hmagic]

theorem verdict_of_carries (h : Carries tx data) : ∃ result,
    verdict tx data = some (some result) ∧ strayProofVerdict tx data = some (some result) := by
  obtain ⟨result, hresult, hanswers⟩ : Returns (parseBindingResponse data tx) Answers := by
    rw [parseBindingResponse_of_header h.1]
    refine .ite (fun _ => .pure nofun) fun _ => ?_
    rw [if_neg (not_not_intro h.2)]
    exact parseBody_returns h.1
  refine ⟨result, ?_, ?_⟩
  · rw [verdict, hresult, Option.map_some]
    split
    · exact absurd rfl hanswers
    · rfl
  · rw [strayProofVerdict, if_pos h, hresult, Option.map_some]

theorem verdict_of_stray (h : ¬ Carries tx data) (hcookie : HasCookie data) :
    verdict tx data = some none := by
  have hid : slice data 8 12 ≠ tx.toList := fun hid => h ⟨hcookie.1, hid⟩
  rw [verdict, parseBindingResponse_of_header hcookie.1, if_neg (not_not_intro hcookie.2),
    if_pos hid]
  rfl

theorem verdict_of_junk (tx : TransactionId) (hcookie : ¬ HasCookie data) :
    ∃ e, verdict tx data = some (some (.error e)) ∧ e ≠ .timeout ∧ ∀ message, e ≠ .io message := by
  by_cases hlen : headerLen ≤ data.length
  · have hmagic : slice data 4 4 ≠ toBe 4 magicCookie.toNat := fun h => hcookie ⟨hlen, h⟩
    refine ⟨.badMagic, ?_, nofun, nofun⟩
    rw [verdict, parseBindingResponse_of_header hlen, if_pos hmagic]
    rfl
  · refine ⟨.truncated, ?_, nofun, nofun⟩
    rw [verdict, parseBindingResponse_of_short (Nat.not_le.mp hlen)]
    rfl

end Verdict

section Loop
variable {judge : Bytes → Option (Option (Except StunError SocketAddr))}
  {request : Bytes × SocketAddr} {a : Attempt} {rest : List Attempt}

/-- An outcome of the attempts that follow, with the request of this one in front. -/
def QueryOutcome.after (request : Bytes × SocketAddr) (out : QueryOutcome) : QueryOutcome :=
  { out with sent := request :: out.sent }

theorem QueryOutcome.after_injective (request : Bytes × SocketAddr) :
    Function.Injective (QueryOutcome.after request) := by
  intro out out' h
  obtain ⟨hsent, hresult⟩ := QueryOutcome.mk.inj h
  obtain ⟨sent, result⟩ := out
  obtain ⟨sent', result'⟩ := out'
  simp_all

theorem queryLoop_timedOut (h : a.timedOut = true) :
    queryLoop judge request (a :: rest) =
      (queryLoop judge request rest).map (QueryOutcome.after request) := by
  obtain ⟨send, setTimeout, recv⟩ := a
  cases send with
  | error e => simp [Attempt.timedOut] at h
  | ok =>
    cases setTimeout with
    | error e => simp [Attempt.timedOut] at h
    | ok =>
      cases recv with
      | ok d => simp [Attempt.timedOut] at h
      | error e =>
        have htimeout : IsTimeout e := by simpa [Attempt.timedOut] using h
        exact if_pos htimeout

theorem queryLoop_received {data : Bytes} (h : a.received = some data) :
    queryLoop judge request (a :: rest) =
      match judge data with
      | none => none
      | some none => (queryLoop judge request rest).map (QueryOutcome.after request)
      | some (some result) => some ⟨[request], result⟩ := by
  obtain ⟨send, setTimeout, recv⟩ := a
  cases send with
  | error e => simp [Attempt.received] at h
  | ok =>
    cases setTimeout with
    | error e => simp [Attempt.received] at h
    | ok =>
      cases recv with
      | error e => simp [Attempt.received] at h
      | ok d =>
        obtain rfl : d.1.take bufLen = data := by simpa [Attempt.received] using h
        rfl

theorem queryLoop_failed (request : Bytes × SocketAddr) (htimeout : a.timedOut = false)
    (hreceived : a.received = none) : ∃ sent message, ∀ judge rest,
      queryLoop judge request (a :: rest) = some ⟨sent, .error (.io message)⟩ := by
  obtain ⟨send, setTimeout, recv⟩ := a
  cases send with
  | error e => exact ⟨[], e.message, fun _ _ => rfl⟩
  | ok =>
    cases setTimeout with
    | error e => exact ⟨[request], e.message, fun _ _ => rfl⟩
    | ok =>
      cases recv with
      | ok d => simp [Attempt.received] at hreceived
      | error e =>
        have hother : ¬ IsTimeout e := by simpa [Attempt.timedOut] using htimeout
        exact ⟨[request], e.message, fun _ _ => if_neg hother⟩

theorem queryLoop_sent_nil {out : QueryOutcome} (h : queryLoop judge request rest = some out)
    (hsent : out.sent = []) :
    out.result = .error .timeout ∨ ∃ message, out.result = .error (.io message) := by
  cases rest with
  | nil =>
    cases h
    exact Or.inl rfl
  | cons a rest =>
    have hafter : ∀ x : Option QueryOutcome, x.map (QueryOutcome.after request) ≠ some out := by
      intro x hx
      obtain ⟨out', -, rfl⟩ := Option.map_eq_some_iff.mp hx
      exact List.cons_ne_nil _ _ hsent
    cases htimeout : a.timedOut with
    | true =>
      rw [queryLoop_timedOut htimeout] at h
      exact absurd h (hafter _)
    | false =>
      cases hreceived : a.received with
      | none =>
        obtain ⟨sent, message, hfailed⟩ := queryLoop_failed request htimeout hreceived
        rw [hfailed] at h
        cases h
        exact Or.inr ⟨message, rfl⟩
      | some data =>
        rw [queryLoop_received hreceived] at h
        split at h
        · cases h
        · exact absurd h (hafter _)
        · cases h
          exact absurd hsent (List.cons_ne_nil _ _)

theorem ended_ne_after {e : StunError} (htimeout : e ≠ .timeout)
    (hio : ∀ message, e ≠ .io message) :
    some ⟨[request], .error e⟩ ≠
      (queryLoop judge request rest).map (QueryOutcome.after request) := by
  intro hsame
  obtain ⟨out, hout, hafter⟩ := Option.map_eq_some_iff.mp hsame.symm
  obtain ⟨hsent, hresult⟩ := QueryOutcome.mk.inj hafter
  rcases queryLoop_sent_nil hout (List.cons.inj hsent).2 with h | ⟨message, h⟩
  · exact htimeout (Except.error.inj (hresult.symm.trans h))
  · exact hio message (Except.error.inj (hresult.symm.trans h))

end Loop

/-- Up to the attempt that decides the stray-proof query, the strays have the cookie. -/
def StraysHaveCookie (tx : TransactionId) (attempts : List Attempt) : Prop :=
  ∀ a ∈ attempts.takeWhile (Attempt.undecided tx), ∀ data, a.received = some data → HasCookie data

theorem queryLoop_eq_iff (tx : TransactionId) (request : Bytes × SocketAddr)
    (attempts : List Attempt) :
    queryLoop (verdict tx) request attempts = queryLoop (strayProofVerdict tx) request attempts ↔
      StraysHaveCookie tx attempts := by
  have hnext : ∀ x y : Option QueryOutcome, x.map (QueryOutcome.after request) =
      y.map (QueryOutcome.after request) ↔ x = y := fun _ _ =>
    (Option.map_injective (QueryOutcome.after_injective request)).eq_iff
  unfold StraysHaveCookie
  induction attempts with
  | nil => simp [queryLoop]
  | cons a rest ih =>
    cases htimeout : a.timedOut with
    | true =>
      have hundecided : a.undecided tx = true := by simp [Attempt.undecided, htimeout]
      rw [queryLoop_timedOut htimeout, queryLoop_timedOut htimeout, hnext,
        List.takeWhile_cons_of_pos hundecided, List.forall_mem_cons,
        Attempt.received_of_timedOut htimeout]
      simpa using ih
    | false =>
      cases hreceived : a.received with
      | none =>
        have hundecided : a.undecided tx = false := by
          simp [Attempt.undecided, htimeout, hreceived]
        obtain ⟨sent, message, hfailed⟩ := queryLoop_failed request htimeout hreceived
        rw [hfailed, hfailed, List.takeWhile_cons_of_neg (by simp [hundecided])]
        simp
      | some data =>
        rw [queryLoop_received hreceived, queryLoop_received hreceived]
        by_cases hcarries : Carries tx data
        · have hundecided : a.undecided tx = false := by
            simp [Attempt.undecided, htimeout, hreceived, hcarries]
          obtain ⟨result, hverdict, hproof⟩ := verdict_of_carries hcarries
          rw [hverdict, hproof, List.takeWhile_cons_of_neg (by simp [hundecided])]
          simp
        · have hundecided : a.undecided tx = true := by
            simp [Attempt.undecided, htimeout, hreceived, hcarries]
          have hpassed : strayProofVerdict tx data = some none := if_neg hcarries
          rw [hpassed, List.takeWhile_cons_of_pos hundecided, List.forall_mem_cons, hreceived]
          by_cases hcookie : HasCookie data
          · rw [verdict_of_stray hcarries hcookie]
            simpa [hnext, hcookie] using ih
          · -- the query ends here, before the attempts that are left
            obtain ⟨e, hverdict, htimeout, hio⟩ := verdict_of_junk tx hcookie
            rw [hverdict]
            simpa [hcookie] using ended_ne_after htimeout hio

/-- The query behaves as if only datagrams with its transaction id could end it exactly if every
stray that comes before such a datagram has a whole header and the magic cookie. -/
theorem query_ignores_strays_iff (tx : TransactionId) (server : SocketAddr)
    (attempts : Fin timeoutsMs.length → Attempt) :
    queryBinding tx server attempts = strayProofQuery tx server attempts ↔
      StraysHaveCookie tx (List.ofFn attempts) :=
  queryLoop_eq_iff tx (buildBindingRequest tx, server) (List.ofFn attempts)

namespace Sample

def stunServer : SocketAddr := ⟨.v4 (Vector.replicate 4 9), 3478⟩

/-- An empty datagram from elsewhere, then the server's response. -/
def strayFirst (i : Fin timeoutsMs.length) : Attempt where
  sendTo := .ok ()
  setReadTimeout := .ok ()
  recvFrom :=
    if i.val = 0 then .ok ([], ⟨.v4 (Vector.replicate 4 6), 53⟩)
    else .ok (successResponse stunTx ((Attribute.xorMapped publicAddr).wire stunTx), stunServer)

end Sample

open Stun.Sample in
/-- The query fails on the stray and never takes the response that comes next. -/
theorem empty_datagram_aborts_query :
    let request := (buildBindingRequest stunTx, stunServer)
    queryBinding stunTx stunServer strayFirst = some ⟨[request], .error .truncated⟩ ∧
    strayProofQuery stunTx stunServer strayFirst = some ⟨[request, request], .ok publicAddr⟩ := by
  decide +kernel

end Desmos.Core.Stun
