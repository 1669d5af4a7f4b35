import Desmos.Core.Daemon.Client
import Desmos.Core.Daemon.KeyFile
import Desmos.Core.Daemon.ServerLoop

/-! # Daemon start-up

`runDaemon` up to the point where the reactor loop of the mode takes over, on Linux. The
operating system is an environment; the order of its calls is the order of the source.
-/
namespace Desmos.Core
open Library Proto

/-- What the operating system answers during start-up. -/
structure DaemonEnv where
  readFile : String → Except IoError Bytes
  parseAddr : String → Option SocketAddr
  createTun : Except IoError Unit
  bindListen : SocketAddr → Except IoError UdpSocket
  bindDevice : ℕ → Except IoError UdpSocket
  bindAny : Except IoError UdpSocket
  handshake : HandshakeEnv
  dropPrivileges : Except IoError Unit
  newReactor : Except IoError Unit
  register : ℕ → Except IoError Unit

/-- What the daemon is doing when start-up is over. -/
inductive Running where
  | client (sockets : List SocketEntry) (session : Session Established)
  | server (udp : UdpSocket) (state : ServerState)
  | idle

structure DaemonOutcome where
  result : Except IoError Running
  engine : Engine

def newStrategy : Option BondingStrategyName → BondingStrategy
  | some .roundRobin => roundRobin 0
  | none => roundRobin 0
  | some .weighted => weighted 0x9E3779B97F4A7C15
  | some .latencyAdaptive =>
    latencyAdaptive { scores := fun _ => none, rngState := 0x9E3779B97F4A7C15, defaultWeight := 1000 }
  | some .redundant => redundant

/-- The key of the registry: zeros if the file cannot be loaded. -/
def registryKey (env : DaemonEnv) (srv : ServerConfig) : X25519PrivateKey :=
  match loadPrivateKey (env.readFile srv.privateKeyFile) with
  | .ok key => key
  | .error _ => ⟨Vector.replicate 32 0⟩

def newRegistry (env : DaemonEnv) (srv : ServerConfig) : ClientRegistry :=
  ClientRegistry.new (registryKey env srv) [] daemonPrologue srv.maxClients

/-- Register `n` descriptors, counted from `i`. -/
def registerAll (env : DaemonEnv) : (i n : ℕ) → Except IoError Unit
  | _, 0 => .ok ()
  | i, n + 1 => do
    env.register i
    registerAll env (i + 1) n

def runServerLinux (env : DaemonEnv) (listen : SocketAddr) (registry : ClientRegistry)
    (metrics : PipelineMetrics) : Except IoError Running := do
  env.createTun
  let udp ← env.bindListen listen
  env.newReactor
  registerAll env 0 2
  return .server udp (ServerState.init registry metrics)

def runClientLinux (P : Primitives) (env : DaemonEnv) (cfg : ClientConfig) (engine : Engine) :
    DaemonOutcome :=
  match env.createTun with
  | .error e => ⟨.error e, engine⟩
  | .ok _ =>
    let setup := setupSocketsAndHandshake P
      { serverAddr := env.parseAddr cfg.server
        privateKey := loadPrivateKey (env.readFile cfg.privateKeyFile)
        serverPub := parsePublicKeyHex cfg.serverPublicKey
        bind := env.bindDevice
        bindAny := env.bindAny
        handshake := env.handshake } cfg.server cfg.interfaces engine
    let result := do
      let (sockets, session) ← setup.result
      env.dropPrivileges
      env.newReactor
      registerAll env 0 (sockets.length + 1)
      return Running.client sockets session
    ⟨result, setup.engine⟩

def runDaemon (P : Primitives) (env : DaemonEnv) (config : Config) : DaemonOutcome :=
  let engine := Engine.new (newStrategy (config.client.map ClientConfig.bondingStrategy)) ⟨[]⟩
  let registry :=
    if config.general.mode = .server then config.server.map (newRegistry env) else none
  match config.general.mode with
  | .client =>
    match config.client with
    | none => ⟨.error ⟨.invalidInput, "client mode requires [client] config"⟩, engine⟩
    | some cfg => runClientLinux P env cfg engine
  | .server =>
    match config.server with
    | none => ⟨.error ⟨.invalidInput, "server mode requires [server] config"⟩, engine⟩
    | some srv =>
      match env.parseAddr srv.listen with
      | none => ⟨.error ⟨.invalidInput, "bad listen address: " ++ srv.listen⟩, engine⟩
      | some listen =>
        match registry with
        | none => ⟨.error ⟨.other, "ClientRegistry not initialized"⟩, engine⟩
        | some registry => ⟨runServerLinux env listen registry PipelineMetrics.new, engine⟩
  | .p2p => ⟨.ok .idle, engine⟩

/-- All start-up steps of the server but the loading of its key succeed. -/
structure Serves (env : DaemonEnv) (config : Config) (srv : ServerConfig) (udp : UdpSocket) :
    Prop where
  server : config.server = some srv
  listen : ∃ addr, env.parseAddr srv.listen = some addr ∧ env.bindListen addr = .ok udp
  tun : env.createTun = .ok ()
  reactor : env.newReactor = .ok ()
  registerTun : env.register 0 = .ok ()
  registerUdp : env.register 1 = .ok ()

section Server
variable {P : Primitives} {env : DaemonEnv} {config : Config} {running : Running}

theorem runServerLinux_ok_iff {listen : SocketAddr} {registry : ClientRegistry}
    {metrics : PipelineMetrics} :
    runServerLinux env listen registry metrics = .ok running ↔
      ∃ udp, env.createTun = .ok () ∧ env.bindListen listen = .ok udp ∧ env.newReactor = .ok () ∧
        env.register 0 = .ok () ∧ env.register 1 = .ok () ∧
        running = .server udp (ServerState.init registry metrics) := by
  cases htun : env.createTun with
  | error e => simp [runServerLinux, htun, bind, Except.bind]
  | ok _ =>
    cases hbind : env.bindListen listen with
    | error e => simp [runServerLinux, htun, hbind, bind, Except.bind]
    | ok udp =>
      cases hreactor : env.newReactor with
      | error e => simp [runServerLinux, htun, hbind, hreactor, bind, Except.bind]
      | ok _ =>
        cases h0 : env.register 0 with
        | error e => simp [runServerLinux, registerAll, htun, hbind, hreactor, h0, bind, Except.bind]
        | ok _ =>
          cases h1 : env.register 1 with
          | error e =>
            simp [runServerLinux, registerAll, htun, hbind, hreactor, h0, h1, bind, Except.bind]
          | ok _ =>
            simp [runServerLinux, registerAll, htun, hbind, hreactor, h0, h1, bind, Except.bind,
              pure, Except.pure, eq_comm]

theorem runDaemon_server_ok_iff (hmode : config.general.mode = .server) :
    (runDaemon P env config).result = .ok running ↔
      ∃ srv udp, Serves env config srv udp ∧
        running = .server udp (ServerState.init (newRegistry env srv) PipelineMetrics.new) := by
  cases hsrv : config.server with
  | none =>
    simp only [runDaemon, hmode, hsrv, reduceCtorEq, false_iff]
    rintro ⟨srv, udp, hs, -⟩
    exact absurd hs.server (by simp [hsrv])
  | some srv =>
    cases haddr : env.parseAddr srv.listen with
    | none =>
      simp only [runDaemon, hmode, hsrv, haddr, reduceCtorEq, false_iff]
      rintro ⟨srv', udp, hs, -⟩
      obtain rfl : srv = srv' := by simpa [hsrv] using hs.server
      obtain ⟨addr, hp, -⟩ := hs.listen
      simp [haddr] at hp
    | some listen =>
      simp only [runDaemon, hmode, hsrv, haddr, if_true, Option.map_some, runServerLinux_ok_iff]
      constructor
      · rintro ⟨udp, htun, hbind, hreactor, h0, h1, rfl⟩
        exact ⟨srv, udp, ⟨hsrv, ⟨listen, haddr, hbind⟩, htun, hreactor, h0, h1⟩, rfl⟩
      · rintro ⟨srv', udp, hs, rfl⟩
        obtain rfl : srv = srv' := by simpa [hsrv] using hs.server
        obtain ⟨addr, hp, hbind⟩ := hs.listen
        obtain rfl : listen = addr := by simpa [haddr] using hp
        exact ⟨udp, hs.tun, hbind, hs.reactor, hs.registerTun, hs.registerUdp, rfl⟩

/-- What holds of every server that comes up holds of the ones that the configuration describes. -/
theorem forall_server_iff (hmode : config.general.mode = .server)
    {p : UdpSocket → ServerState → Prop} :
    (∀ udp st, (runDaemon P env config).result = .ok (.server udp st) → p udp st) ↔
      ∀ srv udp, Serves env config srv udp →
        p udp (.init (newRegistry env srv) PipelineMetrics.new) := by
  constructor
  · intro h srv udp hs
    exact h udp _ ((runDaemon_server_ok_iff hmode).mpr ⟨srv, udp, hs, rfl⟩)
  · intro h udp st hrun
    obtain ⟨srv, udp', hs, hst⟩ := (runDaemon_server_ok_iff hmode).mp hrun
    obtain ⟨rfl, rfl⟩ : udp = udp' ∧ st = .init (newRegistry env srv) PipelineMetrics.new := by
      simpa using hst
    exact h srv udp hs

theorem registryKey_of_keyFile {srv : ServerConfig} {file : Bytes} {key : Key32}
    (hread : env.readFile srv.privateKeyFile = .ok file) (hfile : KeyFile file key) :
    registryKey env srv = ⟨key⟩ := by
  rw [registryKey, hread, loadPrivateKey_ok_iff.mpr hfile]

/-- A server that comes up answers, for as long as it runs, with the key that its key file
encodes. -/
def AnswersWithOwnKey (P : Primitives) (env : DaemonEnv) (config : Config) : Prop :=
  ∀ udp st, (runDaemon P env config).result = .ok (.server udp st) →
    ∃ srv file key, config.server = some srv ∧ env.readFile srv.privateKeyFile = .ok file ∧
      KeyFile file key ∧
      ∀ run, ((serverLoop P udp).final st run).registry.staticKey = ⟨key⟩

theorem answersWithOwnKey_iff (hmode : config.general.mode = .server) :
    AnswersWithOwnKey P env config ↔
      ∀ srv udp, Serves env config srv udp →
        ∃ file key, env.readFile srv.privateKeyFile = .ok file ∧ KeyFile file key := by
  rw [AnswersWithOwnKey, forall_server_iff hmode]
  apply forall₃_congr
  intro srv udp hs
  constructor
  · rintro ⟨srv', file, key, hsrv, hread, hfile, -⟩
    obtain rfl : srv = srv' := by simpa [hs.server] using hsrv
    exact ⟨file, key, hread, hfile⟩
  · rintro ⟨file, key, hread, hfile⟩
    refine ⟨srv, file, key, hs.server, hread, hfile, fun run => ?_⟩
    obtain ⟨cursor, table, hreg⟩ := serverLoop_keepsIdentity P udp (newRegistry env srv)
      PipelineMetrics.new run
    rw [hreg]
    exact registryKey_of_keyFile hread hfile

end Server

namespace Sample

def listenAddr : SocketAddr := ⟨.v4 (Vector.replicate 4 0), 51820⟩

def serverSection : ServerConfig :=
  { listen := "0.0.0.0:51820", publicKey := "", privateKeyFile := "/etc/desmos/server.key"
    maxClients := 1
    auth := { method := .pubkey, psk := none, authorizedKeysFile := some "/etc/desmos/authorized_keys"
              totpSecret := none, caCertFile := none } }

def serverConfig : Config :=
  { general := ⟨.server, .info, 1400⟩, server := some serverSection, client := none, webui := none
    p2p := none }

/-- A system on which every call succeeds and every file has one content. -/
def systemWith (file : Bytes) : DaemonEnv :=
  { readFile := fun _ => .ok file, parseAddr := fun _ => some listenAddr, createTun := .ok ()
    bindListen := fun addr => .ok ⟨addr, none⟩, bindDevice := fun _ => .ok ⟨listenAddr, none⟩
    bindAny := .ok ⟨listenAddr, none⟩, handshake := ⟨none, 0, .ok (), []⟩
    dropPrivileges := .ok (), newReactor := .ok (), register := fun _ => .ok () }

theorem serves (file : Bytes) :
    Serves (systemWith file) serverConfig serverSection ⟨listenAddr, none⟩ :=
  ⟨rfl, ⟨listenAddr, rfl, rfl⟩, rfl, rfl, rfl, rfl⟩

theorem server_up (file : Bytes) :
    (runDaemon .transparent (systemWith file) serverConfig).result =
      .ok (.server ⟨listenAddr, none⟩
        (.init (newRegistry (systemWith file) serverSection) PipelineMetrics.new)) :=
  (runDaemon_server_ok_iff rfl).mpr ⟨_, _, serves file, rfl⟩

end Sample

open Sample in
theorem raw_key_file_is_used :
    AnswersWithOwnKey .transparent (systemWith (Vector.replicate 32 2).toList) serverConfig :=
  (answersWithOwnKey_iff rfl).mpr fun _ _ _ => ⟨_, Vector.replicate 32 2, rfl, .raw _⟩

open Sample in
/-- An empty key file: the server comes up with the key of 32 zero bytes. -/
theorem empty_key_file_serves_with_zero_key :
    (∀ key, ¬ KeyFile [] key) ∧
      (∃ udp st, (runDaemon .transparent (systemWith []) serverConfig).result =
          .ok (.server udp st) ∧ st.registry.staticKey = ⟨Vector.replicate 32 0⟩) ∧
      ¬ AnswersWithOwnKey .transparent (systemWith []) serverConfig := by
  have hload : ∃ e, loadPrivateKey (.ok []) = .error e := by
    have hempty : Text.fromUtf8 [] = some [] := Text.fromUtf8_eq_some_iff.mpr rfl
    simp [loadPrivateKey, hempty, Text.trim, Text.asBytes]
  obtain ⟨e, hload⟩ := hload
  have hno : ∀ key, ¬ KeyFile [] key := by
    intro key hkey
    simp [← loadPrivateKey_ok_iff, hload] at hkey
  have hrun := server_up []
  refine ⟨hno, ⟨_, _, hrun, ?_⟩, ?_⟩
  · change registryKey (systemWith []) serverSection = _
    simp [registryKey, systemWith, hload]
  · intro h
    obtain ⟨srv, file, key, -, hread, hfile, -⟩ := h _ _ hrun
    obtain rfl : [] = file := by simpa [systemWith] using hread
    exact hno key hfile

end Desmos.Core
