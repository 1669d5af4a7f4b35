import Desmos.Core.Io

/-! # Hole punching

`p2p::holepunch` sends bursts of Pings and waits for a Pong with its own nonce. Only a receive takes
time, up to the next arrival or the read timeout. The deadline is looked at between two bursts and
never while datagrams keep coming in.
-/
namespace Desmos.Core
open Library

def probeLen : ℕ := 20

/-- The bytes of `DESMOS-PING` and a zero. -/
def pingMagic : Bytes := [68, 69, 83, 77, 79, 83, 45, 80, 73, 78, 71, 0]

/-- The bytes of `DESMOS-PONG` and a zero. -/
def pongMagic : Bytes := [68, 69, 83, 77, 79, 83, 45, 80, 79, 78, 71, 0]

inductive ProbeKind where
  | ping
  | pong
  deriving DecidableEq, Repr

inductive P2pError where
  | timeout
  | badConfig (reason : String)
  | io (message : String)
  deriving DecidableEq, Repr

structure HolePunchConfig where
  peerPrimary : SocketAddr
  peerAltPorts : List UInt16
  deadlineMs : UInt64
  intervalMs : UInt64

namespace HolePunchConfig

def cone (peer : SocketAddr) (deadlineMs intervalMs : UInt64) : HolePunchConfig :=
  { peerPrimary := peer, peerAltPorts := [], deadlineMs, intervalMs }

def deadline (cfg : HolePunchConfig) : ℕ := 1000000 * cfg.deadlineMs.toNat

def interval (cfg : HolePunchConfig) : ℕ := 1000000 * cfg.intervalMs.toNat

end HolePunchConfig

def encodeProbe (kind : ProbeKind) (nonce : ByteArr 8) : Bytes :=
  (match kind with
    | .ping => pingMagic
    | .pong => pongMagic) ++ nonce.toList

def decodeProbe (bytes : Bytes) : Option (ProbeKind × ByteArr 8) :=
  if bytes.length ≠ probeLen then none
  else if bytes.take 12 = pingMagic then some (.ping, .ofBytes 8 (bytes.drop 12))
  else if bytes.take 12 = pongMagic then some (.pong, .ofBytes 8 (bytes.drop 12))
  else none

/-- The nonce that the wall clock and the count of earlier nonces give. -/
def randomNonce (nanos seq : UInt64) : ByteArr 8 :=
  let state := nanos ^^^ (seq * 0x9E3779B97F4A7C15)
  let state := if state = 0 then 0xBADC0FFEE0DDF00D else state
  let state := state ^^^ (state <<< 13)
  let state := state ^^^ (state >>> 7)
  let state := state ^^^ (state <<< 17)
  .ofBytes 8 (toBe 8 state.toNat)

/-- The Pings of one burst; `sent` is what the send to the primary address answers, and what the
others answer is ignored. -/
def sendBurst (cfg : HolePunchConfig) (nonce : ByteArr 8) (sent : Except IoError Unit) :
    Except IoError (List (SocketAddr × Bytes)) :=
  let ping := encodeProbe .ping nonce
  match sent with
  | .error e => .error e
  | .ok _ => .ok ((cfg.peerPrimary, ping) :: cfg.peerAltPorts.filterMap fun alt =>
      let altAddr : SocketAddr := ⟨cfg.peerPrimary.ip, alt⟩
      if altAddr = cfg.peerPrimary then none else some (altAddr, ping))

/-- What a receive gets, and when it is there to be received. -/
structure PunchArrival where
  time : ℕ
  answer : Except IoError (SocketAddr × Bytes)
  deriving DecidableEq

/-- The environment of a call. Bursts and settings of the timeout are counted. -/
structure PunchWorld where
  connreset : Except IoError Unit
  nanos : UInt64
  seq : UInt64
  primarySent : ℕ → Except IoError Unit
  timeoutSet : ℕ → Except IoError Unit
  arrivals : List PunchArrival

inductive PunchEvent where
  | ping (dst : SocketAddr) (probe : Bytes)
  /-- A receive starts. -/
  | receive
  | received (arrival : PunchArrival)
  | pong (dst : SocketAddr) (probe : Bytes)
  deriving DecidableEq

abbrev PunchTrace := List (ℕ × PunchEvent)

/-- What the receive loop does about an answer. -/
inductive PunchReaction where
  | leave (result : Except P2pError SocketAddr)
  | nextBurst
  | goOn (reply : Option (SocketAddr × Bytes))

/-- A datagram that does not fit is cut off to the size of the buffer. -/
def punchReaction (myNonce : ByteArr 8) : Except IoError (SocketAddr × Bytes) → PunchReaction
  | .error e =>
    if e.kind = .wouldBlock ∨ e.kind = .timedOut then .nextBurst else .leave (.error (.io e.message))
  | .ok (src, bytes) =>
    match decodeProbe (bytes.take probeLen) with
    | none => .goOn none
    | some (.pong, nonce) => if nonce = myNonce then .leave (.ok src) else .goOn none
    | some (.ping, nonce) => .goOn (some (src, encodeProbe .pong nonce))

inductive Drained where
  | finished (result : Except P2pError SocketAddr)
  | quiet (now : ℕ) (arrivals : List PunchArrival)

/-- The receive loop between two bursts. Every receive waits as long as the first one. -/
def drain (myNonce : ByteArr 8) (wait : ℕ) : ℕ → List PunchArrival → Drained × PunchTrace
  | now, [] => (.quiet (now + wait) [], [(now, .receive)])
  | now, a :: arrivals =>
    if now + wait < a.time then (.quiet (now + wait) (a :: arrivals), [(now, .receive)])
    else
      let later := max now a.time
      let events := [(now, .receive), (later, .received a)]
      match punchReaction myNonce a.answer with
      | .leave result => (.finished result, events)
      | .nextBurst => (.quiet later arrivals, events)
      | .goOn reply =>
        let (out, more) := drain myNonce wait later arrivals
        (out, events ++ (reply.toList.map fun r => (later, .pong r.1 r.2)) ++ more)

def punchRounds (cfg : HolePunchConfig) (world : PunchWorld) (myNonce : ByteArr 8) :
    (fuel round now : ℕ) → List PunchArrival → Option (Except P2pError SocketAddr) × PunchTrace
  | 0, _, _, _ => (none, [])
  | fuel + 1, round, now, arrivals =>
    match sendBurst cfg myNonce (world.primarySent round) with
    | .error e => (some (.error (.io e.message)), [])
    | .ok pings =>
      let burst : PunchTrace := pings.map fun p => (now, .ping p.1 p.2)
      if cfg.deadline ≤ now then (some (.error .timeout), burst)
      else
        let wait := min (cfg.deadline - now) cfg.interval
        match world.timeoutSet round with
        | .error e => (some (.error (.io e.message)), burst)
        | .ok _ =>
          match drain myNonce wait now arrivals with
          | (.finished result, events) => (some result, burst ++ events)
          | (.quiet later rest, events) =>
            if cfg.deadline ≤ later then (some (.error .timeout), burst ++ events)
            else
              let (out, more) := punchRounds cfg world myNonce fuel (round + 1) later rest
              (out, burst ++ events ++ more)

/-- The result and all that happens on the way. In every round time passes or something has
arrived, so that the fuel is enough. -/
def holePunch (cfg : HolePunchConfig) (world : PunchWorld) :
    Option (Except P2pError SocketAddr) × PunchTrace :=
  if cfg.deadlineMs = 0 then (some (.error (.badConfig "deadline_ms must be > 0")), [])
  else if cfg.intervalMs = 0 then (some (.error (.badConfig "interval_ms must be > 0")), [])
  else
    match world.connreset with
    | .error e => (some (.error (.io e.message)), [])
    | .ok _ =>
      punchRounds cfg world (randomNonce world.nanos world.seq)
        (cfg.deadline + world.arrivals.length + 1) 0 0 world.arrivals

section Drain
variable {myNonce : ByteArr 8} {wait : ℕ}

theorem drain_quiet {now later : ℕ} {arrivals rest : List PunchArrival}
    (h : (drain myNonce wait now arrivals).1 = .quiet later rest) (hwait : 0 < wait) :
    now ≤ later ∧ rest.length ≤ arrivals.length ∧
      (now < later ∨ rest.length < arrivals.length) := by
  induction arrivals generalizing now with
  | nil =>
    cases h
    exact ⟨by omega, le_rfl, Or.inl (by omega)⟩
  | cons a arrivals ih =>
    unfold drain at h
    split at h
    · cases h
      exact ⟨by omega, le_rfl, Or.inl (by omega)⟩
    · split at h
      · cases h
      · cases h
        refine ⟨le_max_left _ _, ?_, Or.inr ?_⟩ <;> simp
      · obtain ⟨hle, hlen, _⟩ := ih h
        refine ⟨(le_max_left _ _).trans hle, ?_, Or.inr ?_⟩ <;> rw [List.length_cons] <;> omega

end Drain

variable {cfg : HolePunchConfig}

theorem punchRounds_returns (world : PunchWorld) (myNonce : ByteArr 8)
    (hinterval : 0 < cfg.interval) {fuel round now : ℕ} {arrivals : List PunchArrival}
    (hfuel : cfg.deadline - now + arrivals.length < fuel) :
    (punchRounds cfg world myNonce fuel round now arrivals).1 ≠ none := by
  induction fuel generalizing round now arrivals with
  | zero => omega
  | succ fuel ih =>
    unfold punchRounds
    split
    · simp
    dsimp only
    split
    · simp
    next hnow =>
    split
    · simp
    split
    · simp
    · next later rest events hdrain =>
      split
      · simp
      · next hlater =>
        have hquiet := drain_quiet (congrArg Prod.fst hdrain) (by omega)
        exact ih (by omega)

/-- What is not to happen after the deadline: starting a receive, and answering a Ping. -/
def PunchEvent.bounded : PunchEvent → Bool
  | receive | pong _ _ => true
  | ping _ _ | received _ => false

/-- The receive loop goes on after the answer. -/
def PunchArrival.goesOn (myNonce : ByteArr 8) (a : PunchArrival) : Bool :=
  match punchReaction myNonce a.answer with
  | .goOn _ => true
  | .leave _ | .nextBurst => false

def RespectsDeadline (deadline : ℕ) (trace : PunchTrace) : Prop :=
  ∀ t e, (t, e) ∈ trace → e.bounded = true → t < deadline

/-- Whatever is received and leaves the loop running is there before the deadline. -/
def ArrivesInTime (myNonce : ByteArr 8) (deadline : ℕ) (trace : PunchTrace) : Prop :=
  ∀ t a, (t, .received a) ∈ trace → a.goesOn myNonce = true → a.time < deadline

/-- The statement below for a part of the trace. -/
def DeadlineIff (myNonce : ByteArr 8) (deadline : ℕ) (trace : PunchTrace) : Prop :=
  RespectsDeadline deadline trace ↔ ArrivesInTime myNonce deadline trace

section Deadline
variable {myNonce : ByteArr 8} {deadline now later : ℕ} {first second : PunchTrace}

theorem respectsDeadline_append : RespectsDeadline deadline (first ++ second) ↔
    RespectsDeadline deadline first ∧ RespectsDeadline deadline second := by
  simp [RespectsDeadline, or_imp, forall_and]

theorem arrivesInTime_append : ArrivesInTime myNonce deadline (first ++ second) ↔
    ArrivesInTime myNonce deadline first ∧ ArrivesInTime myNonce deadline second := by
  simp [ArrivesInTime, or_imp, forall_and]

theorem DeadlineIff.append (h : DeadlineIff myNonce deadline first)
    (h' : DeadlineIff myNonce deadline second) : DeadlineIff myNonce deadline (first ++ second) :=
  (respectsDeadline_append.trans (and_congr h h')).trans arrivesInTime_append.symm

theorem deadlineIff_nil : DeadlineIff myNonce deadline [] := iff_of_true nofun nofun

theorem deadlineIff_burst (now : ℕ) (pings : List (SocketAddr × Bytes)) :
    DeadlineIff myNonce deadline (pings.map fun p => (now, .ping p.1 p.2)) := by
  apply iff_of_true
  · intro t e he hbounded
    obtain ⟨p, _, heq⟩ := List.mem_map.mp he
    cases heq
    cases hbounded
  · intro t a ha _
    obtain ⟨p, _, heq⟩ := List.mem_map.mp ha
    cases heq

theorem deadlineIff_receive (hnow : now < deadline) :
    DeadlineIff myNonce deadline [(now, .receive)] := by
  apply iff_of_true
  · intro t e he _
    cases List.mem_singleton.mp he
    exact hnow
  · intro t a ha _
    cases List.mem_singleton.mp ha

theorem deadlineIff_received {a : PunchArrival} (ha : a.goesOn myNonce = true → a.time < deadline) :
    DeadlineIff myNonce deadline [(later, .received a)] := by
  apply iff_of_true
  · intro t e he hbounded
    cases List.mem_singleton.mp he
    cases hbounded
  · intro t b hb hgoes
    cases List.mem_singleton.mp hb
    exact ha hgoes

theorem deadlineIff_reply (hlater : later < deadline) (reply : Option (SocketAddr × Bytes)) :
    DeadlineIff myNonce deadline (reply.toList.map fun r => (later, .pong r.1 r.2)) := by
  apply iff_of_true
  · intro t e he _
    obtain ⟨r, _, heq⟩ := List.mem_map.mp he
    cases heq
    exact hlater
  · intro t a ha _
    obtain ⟨r, _, heq⟩ := List.mem_map.mp ha
    cases heq

theorem receive_mem_drain (wait now : ℕ) (arrivals : List PunchArrival) :
    (now, .receive) ∈ (drain myNonce wait now arrivals).2 := by
  cases arrivals with
  | nil => exact List.mem_singleton_self _
  | cons a arrivals =>
    unfold drain
    split
    · exact List.mem_singleton_self _
    · split <;> simp

theorem deadlineIff_drain {wait : ℕ} (hnow : now < deadline) (arrivals : List PunchArrival) :
    DeadlineIff myNonce deadline (drain myNonce wait now arrivals).2 := by
  -- by the arrivals: the first one that comes too late is followed by a receive
  induction arrivals generalizing now with
  | nil => exact deadlineIff_receive hnow
  | cons a arrivals ih =>
    unfold drain
    by_cases hlate : now + wait < a.time
    · rw [if_pos hlate]
      exact deadlineIff_receive hnow
    rw [if_neg hlate]
    cases hreact : punchReaction myNonce a.answer with
    | leave result =>
      exact (deadlineIff_receive hnow).append
        (deadlineIff_received (by simp [PunchArrival.goesOn, hreact]))
    | nextBurst =>
      exact (deadlineIff_receive hnow).append
        (deadlineIff_received (by simp [PunchArrival.goesOn, hreact]))
    | goOn reply =>
      by_cases htime : a.time < deadline
      · have hlater : max now a.time < deadline := max_lt hnow htime
        have hreceived : DeadlineIff myNonce deadline
            [(now, .receive), (max now a.time, .received a)] :=
          (deadlineIff_receive hnow).append (deadlineIff_received fun _ => htime)
        exact (hreceived.append (deadlineIff_reply hlater reply)).append (ih hlater)
      · apply iff_of_false
        · intro h
          have hreceive := h _ _ (List.mem_append_right _
            (receive_mem_drain wait (max now a.time) arrivals)) rfl
          exact htime ((le_max_right _ _).trans_lt hreceive)
        · intro h
          exact htime (h (max now a.time) a (by simp) (by simp [PunchArrival.goesOn, hreact]))

end Deadline

theorem deadlineIff_punchRounds (world : PunchWorld) (myNonce : ByteArr 8)
    (fuel round now : ℕ) (arrivals : List PunchArrival) :
    DeadlineIff myNonce cfg.deadline
      (punchRounds cfg world myNonce fuel round now arrivals).2 := by
  -- every receive loop starts before the deadline
  induction fuel generalizing round now arrivals with
  | zero => exact deadlineIff_nil
  | succ fuel ih =>
    unfold punchRounds
    split
    · exact deadlineIff_nil
    dsimp only
    split
    · exact deadlineIff_burst now _
    next hnow =>
    split
    · exact deadlineIff_burst now _
    have hdrain : DeadlineIff myNonce cfg.deadline
        (drain myNonce (min (cfg.deadline - now) cfg.interval) now arrivals).2 :=
      deadlineIff_drain (not_le.mp hnow) arrivals
    split
    · next result events heq =>
      rw [heq] at hdrain
      exact (deadlineIff_burst now _).append hdrain
    · next later rest events heq =>
      rw [heq] at hdrain
      split
      · exact (deadlineIff_burst now _).append hdrain
      · exact ((deadlineIff_burst now _).append hdrain).append (ih _ _ _)

theorem deadlineIff_holePunch (cfg : HolePunchConfig) (world : PunchWorld) :
    DeadlineIff (randomNonce world.nanos world.seq) cfg.deadline (holePunch cfg world).2 := by
  unfold holePunch
  split
  · exact deadlineIff_nil
  split
  · exact deadlineIff_nil
  split
  · exact deadlineIff_nil
  · exact deadlineIff_punchRounds world _ _ _ _ _

/-- A call returns, and after its deadline it starts no receive and answers no Ping exactly if every
datagram that it receives and goes on after is there before the deadline. -/
theorem hole_punch_deadline_iff (cfg : HolePunchConfig) (world : PunchWorld) :
    (holePunch cfg world).1 ≠ none ∧
      (RespectsDeadline cfg.deadline (holePunch cfg world).2 ↔
        ArrivesInTime (randomNonce world.nanos world.seq) cfg.deadline (holePunch cfg world).2) := by
  refine ⟨?_, deadlineIff_holePunch cfg world⟩
  unfold holePunch
  split
  · exact nofun
  split
  · exact nofun
  next hinterval =>
  split
  · exact nofun
  · have hpos : 0 < cfg.interval :=
      Nat.mul_pos (by decide) (Nat.pos_of_ne_zero fun h => hinterval (UInt64.toNat_inj.mp h))
    exact punchRounds_returns world _ hpos (by omega)

section Received
variable {myNonce : ByteArr 8} {t now : ℕ} {a : PunchArrival} {arrivals : List PunchArrival}

theorem mem_of_drain {wait : ℕ} :
    ((t, .received a) ∈ (drain myNonce wait now arrivals).2 → a ∈ arrivals) ∧
      ∀ later rest, (drain myNonce wait now arrivals).1 = .quiet later rest → rest ⊆ arrivals := by
  induction arrivals generalizing now with
  | nil => simp [drain]
  | cons b arrivals ih =>
    unfold drain
    split
    · simp
    · split
      · simp +contextual
      · simp +contextual
      · refine ⟨?_, fun later rest h => List.subset_cons_of_subset b (ih.2 later rest h)⟩
        simpa using Or.imp And.right ih.1

theorem mem_of_punchRounds {cfg : HolePunchConfig} {world : PunchWorld} {fuel round : ℕ}
    (h : (t, .received a) ∈ (punchRounds cfg world myNonce fuel round now arrivals).2) :
    a ∈ arrivals := by
  have hburst (now : ℕ) (pings : List (SocketAddr × Bytes)) :
      (t, PunchEvent.received a) ∉ pings.map fun p => (now, .ping p.1 p.2) := by simp
  induction fuel generalizing round now arrivals with
  | zero => cases h
  | succ fuel ih =>
    unfold punchRounds at h
    split at h
    · cases h
    dsimp only at h
    split at h
    · exact absurd h (hburst _ _)
    split at h
    · exact absurd h (hburst _ _)
    have hdrain := @mem_of_drain myNonce t now a arrivals (min (cfg.deadline - now) cfg.interval)
    split at h
    · next heq =>
      rw [heq] at hdrain
      exact hdrain.1 ((List.mem_append.mp h).resolve_left (hburst _ _))
    · next heq =>
      rw [heq] at hdrain
      split at h
      · exact hdrain.1 ((List.mem_append.mp h).resolve_left (hburst _ _))
      · rcases List.mem_append.mp h with h | h
        · exact hdrain.1 ((List.mem_append.mp h).resolve_left (hburst _ _))
        · exact hdrain.2 _ _ rfl (ih h)

end Received

/-- It is enough that every datagram that is not the awaited Pong arrives before the deadline. -/
theorem respectsDeadline_of_arrivals {world : PunchWorld}
    (h : ∀ a ∈ world.arrivals, a.goesOn (randomNonce world.nanos world.seq) = true →
      a.time < cfg.deadline) : RespectsDeadline cfg.deadline (holePunch cfg world).2 := by
  refine (deadlineIff_holePunch cfg world).mpr fun t a ha => h a ?_
  unfold holePunch at ha
  split at ha
  · cases ha
  split at ha
  · cases ha
  split at ha
  · cases ha
  · exact mem_of_punchRounds ha

namespace Sample

def punchPeer : SocketAddr := ⟨.v4 #v[192, 0, 2, 7], 4500⟩

/-- A datagram that is no probe 90 ms after the start, and a Ping 150 ms after it. -/
def lateArrivals : List PunchArrival :=
  [⟨90000000, .ok (punchPeer, [0])⟩,
    ⟨150000000, .ok (punchPeer, encodeProbe .ping (Vector.replicate 8 1))⟩]

def punchWorld : PunchWorld where
  connreset := .ok ()
  nanos := 1
  seq := 0
  primarySent _ := .ok ()
  timeoutSet _ := .ok ()
  arrivals := lateArrivals

end Sample

/-- With a deadline of 100 ms a Ping is answered after 150 ms. -/
theorem ping_answered_after_deadline :
    (150000000, .pong Sample.punchPeer (encodeProbe .pong (Vector.replicate 8 1))) ∈
      (holePunch (.cone Sample.punchPeer 100 100) Sample.punchWorld).2 ∧
    ¬ RespectsDeadline 100000000 (holePunch (.cone Sample.punchPeer 100 100) Sample.punchWorld).2 := by
  have hpong : (150000000, .pong Sample.punchPeer (encodeProbe .pong (Vector.replicate 8 1))) ∈
      (holePunch (.cone Sample.punchPeer 100 100) Sample.punchWorld).2 := by
    decide +kernel
  exact ⟨hpong, fun h => absurd (h _ _ hpong rfl) (by decide)⟩

end Desmos.Core
