import Desmos.Core.Daemon.Authentication
import Desmos.Proto.Handshake.Cookie

/-! # Message 2 to unverified addresses

The cookie module is to keep the server from answering an address that has not shown that it
receives. Nothing on the path of a handshake datagram mints or verifies a cookie.
-/
namespace Desmos.Core
open Library Proto

/-- The datagrams of a run with what the server answered to each. -/
abbrev Exchange := List (Arrival × (List Datagram × List Bytes))

section
variable (P : Primitives)

/-- The server has sent this address a cookie that some key mints for it. -/
def Minted (exchange : Exchange) (addr : SocketAddr) (cookie : Bytes) : Prop :=
  (∃ key, cookie = computeCookie P key addr) ∧
    ∃ e ∈ exchange, ∃ d ∈ e.2.1, d.dst = addr ∧ cookie <:+: d.payload

/-- The arrival, or an earlier one from the same address, carries a cookie that the server had
minted for that address. -/
def Routable (exchange : Exchange) (arrival : Arrival) : Prop :=
  ∃ cookie, (Minted P exchange arrival.source cookie ∧ cookie <:+: arrival.data) ∨
    ∃ before e after, exchange = before ++ e :: after ∧ e.1.source = arrival.source ∧
      Minted P before arrival.source cookie ∧ cookie <:+: e.1.data

/-- A cookie reply: a header and a cookie for the address. -/
def CookieReply (addr : SocketAddr) (d : Datagram) : Prop :=
  d.dst = addr ∧ ∃ header key, header.length = headerLen ∧
    d.payload = header ++ computeCookie P key addr

/-- A turn that answers with at most a cookie reply, maps no address and installs no session. -/
structure IncomingOutcome.Cautious (P : Primitives) (st : ServerState) (source : SocketAddr)
    (out : IncomingOutcome) : Prop where
  atMostOne : out.sent.length ≤ 1
  cookieReply : ∀ d ∈ out.sent, CookieReply P source d
  addrMap : out.state.addrMap = st.addrMap
  sessions : ∀ id, out.state.registry.table.get id = none ↔ st.registry.table.get id = none

theorem IncomingOutcome.Silent.cautious {P : Primitives} {st : ServerState} {source : SocketAddr}
    {out : IncomingOutcome} (h : out.Silent st) : out.Cautious P st source where
  atMostOne := by simp [h.sent]
  cookieReply := by simp [h.sent]
  addrMap := h.addrMap
  sessions := h.sessions

/-- Whatever datagrams have come, from whatever sources, an address that has not shown a cookie
gets at most one. -/
def NoReflector (udp : UdpSocket) (start : ServerState) : Prop :=
  ∀ past arrival, ¬ Routable P ((serverLoop P udp).trace start past) arrival →
    (handleIncoming P udp arrival.env ((serverLoop P udp).final start past) arrival.data
      arrival.source).Cautious P ((serverLoop P udp).final start past) arrival.source

/-- A server that comes up is no reflector. -/
def RefusesReflection (env : DaemonEnv) (config : Config) : Prop :=
  ∀ udp st, (runDaemon P env config).result = .ok (.server udp st) → NoReflector P udp st

theorem not_routable_nil (arrival : Arrival) : ¬ Routable P [] arrival := by
  rintro ⟨cookie, ⟨⟨-, e, he, -⟩, -⟩ | ⟨before, e, after, hsplit, -⟩⟩
  · cases he
  · simp at hsplit

end

theorem not_noReflector_of_installed {P : Primitives} {udp : UdpSocket} {start : ServerState}
    {arrival : Arrival} {id : SessionId} {session : AnySession}
    (hnone : start.registry.table.get id = none)
    (hsome : (serverLoop P udp start arrival).2.registry.table.get id = some session) :
    ¬ NoReflector P udp start := by
  intro h
  have hcautious := h [] arrival (not_routable_nil P arrival)
  have hstill := (hcautious.sessions id).mpr hnone
  change (serverLoop P udp start arrival).2.registry.table.get id = none at hstill
  rw [hsome] at hstill
  cases hstill

section Server
variable {P : Primitives} {env : DaemonEnv} {config : Config}

/-- The server is no reflector exactly if it has room for nobody. -/
theorem refusesReflection_iff (hP : P.LawfulAead) (hD : P.DhCommutes)
    (hmode : config.general.mode = .server) :
    RefusesReflection P env config ↔
      ∀ srv udp, Serves env config srv udp → srv.maxClients = 0 := by
  rw [RefusesReflection, forall_server_iff hmode]
  apply forall₃_congr
  intro srv udp _
  constructor
  · intro hno
    by_contra hcap
    obtain ⟨arrival, session, hget⟩ := open_server_installs hP hD env hcap udp
    exact not_noReflector_of_installed rfl hget hno
  · intro hcap past arrival _
    have hkeeps := serverLoop_keepsIdentity P udp (newRegistry env srv) PipelineMetrics.new past
    exact (silent_of_zero_cap hcap hkeeps arrival).cautious

end Server

open Sample in
theorem closed_server_reflects_nothing :
    RefusesReflection .transparent (systemWith keyFile) closedConfig := by
  refine (refusesReflection_iff Primitives.transparent_lawfulAead
    Primitives.transparent_dhCommutes rfl).mpr ?_
  intro srv udp hs
  obtain rfl : { serverSection with maxClients := 0 } = srv := Option.some.inj hs.server
  rfl

open Sample in
/-- The first datagram of a server's life: its source, whoever it is, gets message 2 and a
session. -/
theorem first_source_gets_message2 : ∃ udp st msg2 session,
    (runDaemon .transparent (systemWith keyFile) serverConfig).result = .ok (.server udp st) ∧
      (serverLoop .transparent udp st stranger).1.1 = [⟨udp.localAddr, stranger.source, msg2⟩] ∧
      (serverLoop .transparent udp st stranger).2.registry.table.get 1 =
        some (.established session) ∧
      ¬ NoReflector .transparent udp st := by
  have hrun := server_up keyFile
  obtain ⟨session, hget⟩ := stranger_session
  rcases handleIncoming_silent_or_accepted .transparent ⟨listenAddr, none⟩ stranger.env
      (.init (newRegistry (systemWith keyFile) serverSection) PipelineMetrics.new) stranger.data
      stranger.source with hs | ⟨sid, msg2, ha⟩
  · have hnone := (hs.sessions 1).mpr rfl
    change (serverLoop .transparent _ _ stranger).2.registry.table.get 1 = none at hnone
    rw [hget] at hnone
    cases hnone
  · exact ⟨_, _, msg2, session, hrun, ha.sent, hget, not_noReflector_of_installed rfl hget⟩

end Desmos.Core
