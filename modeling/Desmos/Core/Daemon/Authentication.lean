import Desmos.Core.Auth
import Desmos.Core.Daemon.Runner
import Desmos.Core.Server.Handshake

/-! # Admission without authentication

The path of a client from its datagram into the session table. Nothing on this path holds an
authenticator: the configuration names a method, and no code reads it.
-/
namespace Desmos.Core
open Library Proto

/-- The static key that message 1 carries, as the responder opens it. -/
def ClientRegistry.clientStatic (P : Primitives) (r : ClientRegistry) (msg1 : Bytes) :
    Option PublicKey :=
  ((Responder.new P r.staticKey r.knownClients r.prologue).readMessage1 P msg1).2.rs

/-- What `handleHandshake` logs. Between the handshake and the insertion into the table
the source makes no call of `authenticate`. -/
def handshakeEvents (P : Primitives) (env : IncomingEnv) (st : ServerState) (msg1 : Bytes)
    (source : SocketAddr) : List AdmissionEvent :=
  if (st.rateLimiter.tryAdmit source.ip env.nowMs).1 = false then []
  else match st.registry.acceptClientMsg1 P env.entropy msg1 env.nowMs with
  | (.error _, _) => []
  | (.ok (id, _), registry) =>
    match st.registry.clientStatic P msg1, registry.table.get id with
    | some client, some (.established session) => [.installed id client session.handshakeHash]
    | _, _ => []

/-- What `handleIncoming` logs. -/
def incomingEvents (P : Primitives) (env : IncomingEnv) (st : ServerState) (data : Bytes)
    (source : SocketAddr) : List AdmissionEvent :=
  match Header.decode (data.take headerLen) with
  | .error _ => []
  | .ok header =>
    if header.packetType = .handshake then
      handshakeEvents P env st (data.drop headerLen) source
    else []

def loggedLoop (P : Primitives) (udp : UdpSocket) :
    Machine (ServerState × List AdmissionEvent) Arrival (List Datagram × List Bytes) :=
  fun (st, log) arrival =>
    let (answer, next) := serverLoop P udp st arrival
    (answer, next, log ++ incomingEvents P arrival.env st arrival.data arrival.source)

/-- Every session of the table was installed after the authenticator's consent. -/
def OnlyAuthenticated (s : ServerState × List AdmissionEvent) : Prop :=
  ∀ id session, s.1.registry.table.get id = some (.established session) →
    Authorized s.2 id session

variable {s : ServerState × List AdmissionEvent}

section Log
variable {P : Primitives} {udp : UdpSocket} {env : IncomingEnv} {st : ServerState}
  {source : SocketAddr} {data : Bytes}

theorem loggedLoop_fst (P : Primitives) (udp : UdpSocket) (s : ServerState × List AdmissionEvent)
    (run : List Arrival) : ((loggedLoop P udp).final s run).1 = (serverLoop P udp).final s.1 run := by
  induction run generalizing s with
  | nil => rfl
  | cons arrival run ih => exact ih (loggedLoop P udp s arrival).2

theorem incomingEvents_installed {e : AdmissionEvent} (h : e ∈ incomingEvents P env st data source) :
    ∃ id client hash, e = .installed id client hash := by
  unfold incomingEvents at h
  split at h
  · cases h
  split at h
  · unfold handshakeEvents at h
    split at h
    · cases h
    split at h
    · cases h
    split at h
    · exact ⟨_, _, _, List.mem_singleton.mp h⟩
    · cases h
  · cases h

theorem loggedLoop_installed (P : Primitives) (udp : UdpSocket) (st : ServerState)
    (run : List Arrival) : ∀ e ∈ ((loggedLoop P udp).final (st, []) run).2,
      ∃ id client hash, e = .installed id client hash := by
  refine Machine.final_invariant
    (I := fun s : ServerState × List AdmissionEvent =>
      ∀ e ∈ s.2, ∃ id client hash, e = .installed id client hash) ?_ (by simp) run
  intro s arrival hs e he
  rcases List.mem_append.mp he with he | he
  · exact hs e he
  · exact incomingEvents_installed he

theorem not_authorized_of_installed {log : List AdmissionEvent} {id : SessionId}
    {session : Session Established}
    (h : ∀ e ∈ log, ∃ id client hash, e = .installed id client hash) :
    ¬ Authorized log id session := by
  rintro ⟨before, after, client, credential, rfl, hmem⟩
  obtain ⟨_, _, _, he⟩ := h _ (List.mem_append_left _ hmem)
  cases he

theorem handshakeEvents_of_accept {msg1 msg2 : Bytes} {id : SessionId} {r' : ClientRegistry}
    (hrate : (st.rateLimiter.tryAdmit source.ip env.nowMs).1 = true)
    (hacc : st.registry.acceptClientMsg1 P env.entropy msg1 env.nowMs = (.ok (id, msg2), r')) :
    ∃ client keys,
      handshakeEvents P env st msg1 source = [.installed id client keys.handshakeHash] ∧
      r'.table = st.registry.table.set (.established (freshSession id keys env.nowMs)) := by
  obtain ⟨-, cursor, session, -, hr, rfl⟩ := ClientRegistry.acceptClientMsg1_ok_iff.mp hacc
  obtain ⟨res1, keys, res2, hread, -, rfl⟩ := ClientRegistry.respond_ok_iff.mp hr
  obtain ⟨-, -, sBytes, symm1, symm2, -, -, -, -, hres⟩ := Responder.readMessage1_ok_iff.mp hread
  have hstatic : ∃ client, st.registry.clientStatic P msg1 = some client := by
    rw [ClientRegistry.clientStatic, hread, hres]
    exact ⟨_, rfl⟩
  obtain ⟨client, hstatic⟩ := hstatic
  have hget : (st.registry.table.set (.established (freshSession id keys env.nowMs))).get id =
      some (.established (freshSession id keys env.nowMs)) := SessionTable.get_set_self _ _
  refine ⟨client, keys, ?_, rfl⟩
  simp only [handshakeEvents, hrate, Bool.true_eq_false, if_false, hacc, hstatic, hget]
  rfl

/-- The log shows the installation of every session in the table. -/
def Logged (s : ServerState × List AdmissionEvent) : Prop :=
  ∀ id session, s.1.registry.table.get id = some (.established session) →
    ∃ client, .installed id client session.handshakeHash ∈ s.2

theorem Logged.of_table {next : ServerState}
    (h : Logged s) (ht : next.registry.table = s.1.registry.table) (events : List AdmissionEvent) :
    Logged (next, s.2 ++ events) := by
  intro id session hget
  obtain ⟨client, hmem⟩ := h id session (by rw [← ht]; exact hget)
  exact ⟨client, List.mem_append_left _ hmem⟩

theorem Logged.after_handshake (h : Logged s)
    (udp : UdpSocket) (env : IncomingEnv) (m : PipelineMetrics) (msg1 : Bytes)
    (source : SocketAddr) :
    Logged ((handleHandshake P udp env { s.1 with metrics := m } msg1 source).state,
      s.2 ++ handshakeEvents P env s.1 msg1 source) := by
  rcases hr : s.1.rateLimiter.tryAdmit source.ip env.nowMs with ⟨granted, rl⟩
  cases granted with
  | false => exact h.of_table (by simp only [handleHandshake, hr]) _
  | true =>
    rcases ha : s.1.registry.acceptClientMsg1 P env.entropy msg1 env.nowMs with ⟨e | ⟨id, msg2⟩, r'⟩
    · obtain ⟨cursor, rfl⟩ := ClientRegistry.acceptClientMsg1_error ha
      exact h.of_table (by simp only [handleHandshake, hr, ha]) _
    · obtain ⟨client, keys, hev, ht⟩ := handshakeEvents_of_accept (by rw [hr]) ha
      simp only [handleHandshake, hr, ha, hev]
      intro j session hget
      rw [ht] at hget
      rcases SessionTable.get_set_eq_some hget with ⟨rfl, hnew⟩ | hold
      · obtain rfl := AnySession.established.inj hnew
        exact ⟨client, List.mem_append_right _ List.mem_cons_self⟩
      · obtain ⟨c, hmem⟩ := h j session hold
        exact ⟨c, List.mem_append_left _ hmem⟩

theorem Logged.after_data (h : Logged s) (P : Primitives)
    (m : PipelineMetrics) (header : Header) (payload : Bytes) (source : SocketAddr) :
    Logged ((handleData P { s.1 with metrics := m } header payload source).state, s.2) := by
  cases hs : ServerState.sessionOf { s.1 with metrics := m } source with
  | none =>
    rw [handleData_of_none P header payload hs]
    exact h
  | some old =>
    obtain ⟨sid, -, hold⟩ := ServerState.sessionOf_eq_some_iff.mp hs
    obtain ⟨-, -, -, hreg⟩ := handleData_of_session P header payload hs
    intro j session hget
    rw [hreg, Session.decryptData_state] at hget
    rcases SessionTable.get_set_eq_some hget with ⟨rfl, hnew⟩ | hsame
    · obtain rfl := AnySession.established.inj hnew
      have hid : old.id = sid := s.1.registry.table.filed sid _ hold
      obtain ⟨client, hmem⟩ := h sid old hold
      rw [← hid] at hmem
      exact ⟨client, hmem⟩
    · exact h j session hsame

theorem Logged.step (h : Logged s) (udp : UdpSocket)
    (arrival : Arrival) : Logged (loggedLoop P udp s arrival).2 := by
  change Logged ((handleIncoming P udp arrival.env s.1 arrival.data arrival.source).state,
    s.2 ++ incomingEvents P arrival.env s.1 arrival.data arrival.source)
  cases hd : Header.decode (arrival.data.take headerLen) with
  | error e =>
    refine h.of_table ?_ _
    simp only [handleIncoming, hd]
    split <;> rfl
  | ok header =>
    rw [handleIncoming_of_decode hd]
    simp only [incomingEvents, hd]
    split
    · exact h.after_handshake udp _ _ _ _
    · rw [List.append_nil]
      exact h.after_data P _ header _ _

theorem loggedLoop_logged (P : Primitives) (udp : UdpSocket) (registry : ClientRegistry)
    (hempty : registry.table = SessionTable.new) (metrics : PipelineMetrics) (run : List Arrival) :
    Logged ((loggedLoop P udp).final (.init registry metrics, []) run) := by
  refine Machine.final_invariant (I := Logged) (fun _ arrival h => h.step udp arrival) ?_ run
  intro id session hget
  change registry.table.get id = _ at hget
  rw [hempty] at hget
  cases hget

end Log

/-- A server that comes up lets no session into its table without authentication, whatever
datagrams it receives. -/
def AuthenticatesClients (P : Primitives) (env : DaemonEnv) (config : Config) : Prop :=
  ∀ udp st, (runDaemon P env config).result = .ok (.server udp st) →
    ∀ run, OnlyAuthenticated ((loggedLoop P udp).final (st, []) run)

section Admission
variable {P : Primitives} {udp : UdpSocket} {registry : ClientRegistry} {metrics : PipelineMetrics}

/-- A registry without room accepts nothing. -/
theorem silent_of_zero_cap (hcap : registry.maxClients = 0) {st : ServerState}
    (hst : KeepsIdentity registry st) (arrival : Arrival) :
    (handleIncoming P udp arrival.env st arrival.data arrival.source).Silent st := by
  rcases handleIncoming_silent_or_accepted P udp arrival.env st arrival.data arrival.source with
    hs | ⟨sid, msg2, ha⟩
  · exact hs
  · obtain ⟨hroom, -⟩ := ClientRegistry.acceptClientMsg1_ok_iff.mp ha.accept
    obtain ⟨cursor, table, hreg⟩ := hst
    simp [ClientRegistry.atCapacity, hreg, hcap] at hroom

theorem table_empty_of_zero_cap (hcap : registry.maxClients = 0)
    (hempty : registry.table = SessionTable.new) (run : List Arrival) (id : SessionId) :
    ((serverLoop P udp).final (.init registry metrics) run).registry.table.get id = none := by
  have hinv := Machine.final_invariant (m := serverLoop P udp)
    (I := fun st => KeepsIdentity registry st ∧ ∀ id, st.registry.table.get id = none)
    (s := .init registry metrics) ?_ ⟨⟨registry.nextId, registry.table, rfl⟩, ?_⟩ run
  · exact hinv.2 id
  · rintro st arrival ⟨hst, hnone⟩
    refine ⟨hst.step arrival, fun id => ?_⟩
    exact ((silent_of_zero_cap hcap hst arrival).sessions id).mpr (hnone id)
  · intro id
    change registry.table.get id = none
    rw [hempty]
    rfl

/-- Message 1 behind a handshake header. -/
def hello (env : IncomingEnv) (msg1 : Bytes) (source : SocketAddr) : Arrival :=
  ⟨env, (Header.new .handshake clientSessionId).bytes ++ msg1, source⟩

theorem first_client_installed (hP : P.LawfulAead) (udp : UdpSocket) (source : SocketAddr)
    {key : X25519PrivateKey} {cap : UInt32} (hcap : cap ≠ 0) {msg1 : Bytes}
    (hread : (ClientRegistry.new key [] daemonPrologue cap).Reads P msg1) (rk : Key32)
    (nowMs : UInt64) (metrics : PipelineMetrics) : ∃ session,
      (serverLoop P udp (.init (.new key [] daemonPrologue cap) metrics)
        (hello ⟨nowMs, some rk⟩ msg1 source)).2.registry.table.get 1 =
          some (.established session) := by
  have hroom : (ClientRegistry.new key [] daemonPrologue cap).atCapacity = false := by
    have hlt : ¬ (0 : UInt32) ≥ cap := by
      intro h
      exact hcap (UInt32.le_antisymm h (UInt32.zero_le))
    exact decide_eq_false hlt
  have hid : ClientRegistry.findId (ClientRegistry.new key [] daemonPrologue cap).table 65536
      (ClientRegistry.new key [] daemonPrologue cap).nextId = (some 1, 2) :=
    ClientRegistry.findId_of_free ⟨show (1 : UInt16) ≠ 0 by decide, rfl⟩
  obtain ⟨msg2, r', hacc⟩ := hread.accept hP hroom hid rk nowMs
  obtain ⟨-, keys, htable⟩ := ClientRegistry.acceptClientMsg1_installs hacc
  have hreg : (serverLoop P udp (.init (.new key [] daemonPrologue cap) metrics)
      (hello ⟨nowMs, some rk⟩ msg1 source)).2.registry = r' :=
    (@handleIncoming_accepts P ⟨nowMs, some rk⟩ (.init (.new key [] daemonPrologue cap) metrics)
      msg1 source (Header.new .handshake clientSessionId) udp rfl rfl 1 msg2 r'
      (RateLimiter.withDefaultPolicy_admits source.ip nowMs) hacc).2
  refine ⟨freshSession 1 keys nowMs, ?_⟩
  rw [hreg, htable]
  exact SessionTable.get_set_self _ _

variable {env : DaemonEnv} {config : Config}

/-- A server with room installs a session at the first datagram, if that is a message 1 for its
key. -/
theorem open_server_installs (hP : P.LawfulAead) (hD : P.DhCommutes) (env : DaemonEnv)
    {srv : ServerConfig} (hcap : srv.maxClients ≠ 0) (udp : UdpSocket) : ∃ arrival session,
      (serverLoop P udp (.init (newRegistry env srv) PipelineMetrics.new) arrival).2.registry.table.get
        1 = some (.established session) := by
  obtain ⟨msg1, next, hadv⟩ := Session.advance_initiator_writes hP clientSessionId
    (registryKey env srv) ((registryKey env srv).publicKey P) daemonPrologue
    (Vector.replicate 32 0) 0
  have hread := ClientRegistry.reads_of_advance (r := newRegistry env srv) hP hD hadv (Or.inl rfl)
  obtain ⟨session, hget⟩ := first_client_installed hP udp udp.localAddr hcap hread
    (Vector.replicate 32 0) 0 PipelineMetrics.new
  exact ⟨_, session, hget⟩

/-- Sessions are authenticated exactly where there is none. -/
theorem authenticatesClients_iff (hP : P.LawfulAead) (hD : P.DhCommutes)
    (hmode : config.general.mode = .server) :
    AuthenticatesClients P env config ↔
      ∀ srv udp, Serves env config srv udp → srv.maxClients = 0 := by
  rw [AuthenticatesClients, forall_server_iff hmode]
  apply forall₃_congr
  intro srv udp _
  constructor
  · intro h
    by_contra hcap
    obtain ⟨arrival, session, hget⟩ := open_server_installs hP hD env hcap udp
    have honly := h [arrival] 1 session
    exact not_authorized_of_installed (loggedLoop_installed P udp _ _) (honly hget)
  · intro hcap run id session hget
    rw [loggedLoop_fst, table_empty_of_zero_cap hcap rfl] at hget
    cases hget

end Admission

namespace Sample

/-- The configuration with room for nobody, which the validator does not let through. -/
def closedConfig : Config :=
  { serverConfig with server := some { serverSection with maxClients := 0 } }

def keyFile : Bytes := serverKey.seed.toList

/-- The first datagram to reach the server: message 1 of a client nobody has listed. -/
def stranger : Arrival :=
  hello ⟨0, some (Vector.replicate 32 4)⟩
    (clientMsg1 (newRegistry (systemWith keyFile) serverSection) clientKey) listenAddr

end Sample

open Sample in
theorem closed_server_authenticates :
    AuthenticatesClients .transparent (systemWith keyFile) closedConfig := by
  refine (authenticatesClients_iff Primitives.transparent_lawfulAead
    Primitives.transparent_dhCommutes rfl).mpr ?_
  intro srv udp hs
  obtain rfl : { serverSection with maxClients := 0 } = srv := Option.some.inj hs.server
  rfl

open Sample in
theorem stranger_session : ∃ session,
    (serverLoop .transparent ⟨listenAddr, none⟩
      (.init (newRegistry (systemWith keyFile) serverSection) PipelineMetrics.new)
      stranger).2.registry.table.get 1 = some (.established session) :=
  first_client_installed Primitives.transparent_lawfulAead
    ⟨listenAddr, none⟩ listenAddr (show (1 : UInt32) ≠ 0 by decide)
    (clientMsg1_reads (newRegistry (systemWith keyFile) serverSection) rfl clientKey)
    (Vector.replicate 32 4) 0 PipelineMetrics.new

open Sample in
theorem stranger_logged : Logged ((loggedLoop .transparent ⟨listenAddr, none⟩).final
    (.init (newRegistry (systemWith keyFile) serverSection) PipelineMetrics.new, []) [stranger]) :=
  loggedLoop_logged .transparent ⟨listenAddr, none⟩ _ rfl PipelineMetrics.new [stranger]

open Sample in
/-- With `method = "pubkey"`: a client gets its session, and no authenticator was asked. -/
theorem stranger_is_installed : ∃ udp st session,
    (runDaemon .transparent (systemWith keyFile) serverConfig).result = .ok (.server udp st) ∧
      (serverLoop .transparent udp st stranger).2.registry.table.get 1 =
        some (.established session) ∧
      (∀ ctx verdict, .authenticated ctx verdict ∉
        ((loggedLoop .transparent udp).final (st, []) [stranger]).2) ∧
      ¬ AuthenticatesClients .transparent (systemWith keyFile) serverConfig := by
  have hrun := server_up keyFile
  obtain ⟨session, hget⟩ := stranger_session
  have hlog := loggedLoop_installed .transparent ⟨listenAddr, none⟩
    (.init (newRegistry (systemWith keyFile) serverSection) PipelineMetrics.new) [stranger]
  refine ⟨_, _, session, hrun, hget, ?_, ?_⟩
  · intro ctx verdict hmem
    obtain ⟨_, _, _, he⟩ := hlog _ hmem
    cases he
  · intro h
    exact not_authorized_of_installed hlog (h _ _ hrun [stranger] 1 session hget)

end Desmos.Core
