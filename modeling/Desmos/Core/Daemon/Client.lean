import Desmos.Core.Bonding
import Desmos.Core.Config
import Desmos.Core.Daemon.Handshake

/-! # Client start-up

One socket for each enabled interface, one link for each socket, and one
handshake over the first of them.
-/
namespace Desmos.Core
open Library Proto

structure SocketEntry where
  linkId : LinkId
  sock : UdpSocket
  deriving DecidableEq

def daemonPrologue : Bytes := "desmos-v1".toUTF8.toList

def clientSessionId : SessionId := 1

/-- What the environment contributes to the start-up: the parsed server address, the
keys as loaded, the outcome of each bind, and the handshake over the first socket. -/
structure SetupEnv where
  serverAddr : Option SocketAddr
  privateKey : Except IoError X25519PrivateKey
  serverPub : Except IoError PublicKey
  bind : ℕ → Except IoError UdpSocket
  bindAny : Except IoError UdpSocket
  handshake : HandshakeEnv

/-- The sockets of the enabled interfaces; `i` numbers the interfaces. -/
def buildSockets (bind : ℕ → Except IoError UdpSocket) :
    (i : ℕ) → List InterfaceConfig → Except IoError (List SocketEntry)
  | _, [] => .ok []
  | i, iface :: ifaces =>
    if iface.enabled = false then buildSockets bind (i + 1) ifaces
    else match bind i with
    | .error e => .error e
    | .ok sock =>
      match buildSockets bind (i + 1) ifaces with
      | .error e => .error e
      | .ok entries => .ok (⟨UInt32.ofNat i + 1, sock⟩ :: entries)

/-- The links of the sockets: the weight is looked up at the position of the socket,
10 if there is none. -/
def buildLinks (server : SocketAddr) (interfaces : List InterfaceConfig)
    (sockets : List SocketEntry) : List Link :=
  sockets.mapIdx fun i entry =>
    Link.new entry.linkId (entry.sock.boundDevice.getD "default") server
      ((interfaces[i]?.map InterfaceConfig.weight).getD 10)

structure SetupOutcome where
  result : Except IoError (List SocketEntry × Session Established)
  engine : Engine
  sent : List Datagram

def setupSocketsAndHandshake (P : Primitives) (env : SetupEnv) (serverText : String)
    (interfaces : List InterfaceConfig) (engine : Engine) : SetupOutcome :=
  match env.serverAddr with
  | none => ⟨.error ⟨.invalidInput, "bad server address: " ++ serverText⟩, engine, []⟩
  | some server =>
    match env.privateKey with
    | .error e => ⟨.error e, engine, []⟩
    | .ok privateKey =>
      match env.serverPub with
      | .error e => ⟨.error e, engine, []⟩
      | .ok serverPub =>
        match buildSockets env.bind 0 interfaces with
        | .error e => ⟨.error e, engine, []⟩
        | .ok [] =>
          match env.bindAny with
          | .error e => ⟨.error e, engine, []⟩
          | .ok sock => connect server privateKey serverPub ⟨1, sock⟩ []
        | .ok (entry :: entries) => connect server privateKey serverPub entry entries
where
  /-- Install the links and run the handshake over the first socket. -/
  connect (server : SocketAddr) (privateKey : X25519PrivateKey) (serverPub : PublicKey)
      (entry : SocketEntry) (entries : List SocketEntry) : SetupOutcome :=
    let engine := engine.swapLinks ⟨buildLinks server interfaces (entry :: entries)⟩
    let outcome := clientHandshake P env.handshake entry.sock server privateKey serverPub
      clientSessionId daemonPrologue
    ⟨outcome.result.map fun session => (entry :: entries, session), engine, outcome.sent⟩

/-- A start-up that put something on the wire ran the handshake over its first socket. -/
theorem setupSocketsAndHandshake_of_sent {P : Primitives} {env : SetupEnv} {serverText : String}
    {interfaces : List InterfaceConfig} {engine : Engine} {d : Datagram}
    (h : d ∈ (setupSocketsAndHandshake P env serverText interfaces engine).sent) :
    ∃ server privateKey serverPub entry entries,
      env.serverAddr = some server ∧ env.privateKey = .ok privateKey ∧
      env.serverPub = .ok serverPub ∧
      setupSocketsAndHandshake P env serverText interfaces engine =
        setupSocketsAndHandshake.connect P env interfaces engine server privateKey serverPub entry
          entries := by
  cases hserver : env.serverAddr with
  | none => simp [setupSocketsAndHandshake, hserver] at h
  | some server =>
    cases hkey : env.privateKey with
    | error e => simp [setupSocketsAndHandshake, hserver, hkey] at h
    | ok privateKey =>
      cases hpub : env.serverPub with
      | error e => simp [setupSocketsAndHandshake, hserver, hkey, hpub] at h
      | ok serverPub =>
        cases hsockets : buildSockets env.bind 0 interfaces with
        | error e => simp [setupSocketsAndHandshake, hserver, hkey, hpub, hsockets] at h
        | ok sockets =>
          cases sockets with
          | nil =>
            cases hany : env.bindAny with
            | error e => simp [setupSocketsAndHandshake, hserver, hkey, hpub, hsockets, hany] at h
            | ok sock =>
              exact ⟨server, privateKey, serverPub, ⟨1, sock⟩, [], rfl, rfl, rfl,
                by simp only [setupSocketsAndHandshake, hserver, hkey, hpub, hsockets, hany]⟩
          | cons entry entries =>
            exact ⟨server, privateKey, serverPub, entry, entries, rfl, rfl, rfl,
              by simp only [setupSocketsAndHandshake, hserver, hkey, hpub, hsockets]⟩

def enabledInterfaces (interfaces : List InterfaceConfig) : List (InterfaceConfig × ℕ) :=
  interfaces.zipIdx.filter fun x => x.1.enabled

/-- The link of every enabled interface has the weight of this interface. -/
def OwnWeights (interfaces : List InterfaceConfig) (links : List Link) : Prop :=
  ∀ (k : ℕ) (x : InterfaceConfig × ℕ) (link : Link), (enabledInterfaces interfaces)[k]? = some x →
    links[k]? = some link → link.weight = x.1.weight

section Weights
variable {bind : ℕ → Except IoError UdpSocket} {interfaces : List InterfaceConfig}
  {sockets : List SocketEntry}

theorem buildSockets_forall₂ {i : ℕ} (h : buildSockets bind i interfaces = .ok sockets) :
    List.Forall₂ (fun x entry => bind x.2 = .ok entry.sock ∧ entry.linkId = UInt32.ofNat x.2 + 1)
      ((interfaces.zipIdx i).filter fun x => x.1.enabled) sockets := by
  induction interfaces generalizing i sockets with
  | nil =>
    cases h
    exact .nil
  | cons iface interfaces ih =>
    rw [buildSockets] at h
    rw [List.zipIdx_cons]
    cases hen : iface.enabled with
    | false =>
      rw [if_pos hen] at h
      rw [List.filter_cons_of_neg (by simp [hen])]
      exact ih h
    | true =>
      rw [if_neg (by simp [hen])] at h
      rw [List.filter_cons_of_pos (by simp [hen])]
      cases hb : bind i with
      | error e => simp [hb] at h
      | ok sock =>
        cases hrest : buildSockets bind (i + 1) interfaces with
        | error e => simp [hb, hrest] at h
        | ok entries =>
          obtain rfl : ⟨UInt32.ofNat i + 1, sock⟩ :: entries = sockets := by
            simpa [hb, hrest] using h
          exact .cons ⟨hb, rfl⟩ (ih hrest)

theorem enabledInterfaces_map_fst (interfaces : List InterfaceConfig) :
    (enabledInterfaces interfaces).map Prod.fst = interfaces.filter InterfaceConfig.enabled := by
  calc (enabledInterfaces interfaces).map Prod.fst
      = (interfaces.zipIdx.map Prod.fst).filter InterfaceConfig.enabled := List.filter_map.symm
    _ = interfaces.filter InterfaceConfig.enabled := by rw [List.zipIdx_map_fst]

theorem enabledInterfaces_length_le (interfaces : List InterfaceConfig) :
    (enabledInterfaces interfaces).length ≤ interfaces.length :=
  (List.length_filter_le _ _).trans_eq (by simp)

theorem getElem?_buildLinks (server : SocketAddr) (interfaces : List InterfaceConfig)
    (sockets : List SocketEntry) (k : ℕ) : (buildLinks server interfaces sockets)[k]? =
    sockets[k]?.map fun entry =>
      Link.new entry.linkId (entry.sock.boundDevice.getD "default") server
        ((interfaces[k]?.map InterfaceConfig.weight).getD 10) := by
  rw [buildLinks, List.getElem?_mapIdx]

theorem buildLinks_of_enabled (server : SocketAddr)
    (h : buildSockets bind 0 interfaces = .ok sockets) {k : ℕ} {x : InterfaceConfig × ℕ} (hx : (enabledInterfaces interfaces)[k]? = some x) :
    ∃ iface link, interfaces[k]? = some iface ∧
      (buildLinks server interfaces sockets)[k]? = some link ∧
      link.id = UInt32.ofNat x.2 + 1 ∧ link.weight = iface.weight := by
  obtain ⟨hk, hxk⟩ := List.getElem?_eq_some_iff.mp hx
  have hpair := buildSockets_forall₂ h
  have hks : k < sockets.length := hpair.length_eq ▸ hk
  have hki : k < interfaces.length := hk.trans_le (enabledInterfaces_length_le interfaces)
  have hid : sockets[k].linkId = UInt32.ofNat x.2 + 1 := by
    have hget := (List.forall₂_iff_get.mp hpair).2 k hk hks
    rw [← hxk]
    exact hget.2
  have hat := getElem?_buildLinks server interfaces sockets k
  rw [List.getElem?_eq_getElem hks, List.getElem?_eq_getElem hki] at hat
  exact ⟨_, _, List.getElem?_eq_getElem hki, hat, hid, rfl⟩

theorem ownWeights_buildLinks_iff (server : SocketAddr)
    (h : buildSockets bind 0 interfaces = .ok sockets) :
    OwnWeights interfaces (buildLinks server interfaces sockets) ↔
      (interfaces.filter InterfaceConfig.enabled).map InterfaceConfig.weight <+:
        interfaces.map InterfaceConfig.weight := by
  rw [List.prefix_iff_getElem?, ← enabledInterfaces_map_fst]
  constructor
  · intro hown k hk
    have hk' : k < (enabledInterfaces interfaces).length := by simpa using hk
    obtain ⟨iface, link, hiface, hat, -, hw⟩ :=
      buildLinks_of_enabled server h (List.getElem?_eq_getElem hk')
    have hweight := hown k _ link (List.getElem?_eq_getElem hk') hat
    rw [List.getElem?_map, hiface]
    simp [← hw, hweight]
  · intro hfirst k x link hx hat
    obtain ⟨hk, rfl⟩ := List.getElem?_eq_some_iff.mp hx
    obtain ⟨iface, link', hiface, hat', -, hw⟩ := buildLinks_of_enabled server h hx
    obtain rfl := Option.some.inj (hat.symm.trans hat')
    have hweight := hfirst k (by simpa using hk)
    rw [List.getElem?_map, hiface] at hweight
    rw [hw]
    simpa using hweight

theorem enabledInterfaces_eq_nil (h : buildSockets bind 0 interfaces = .ok []) :
    enabledInterfaces interfaces = [] :=
  List.forall₂_nil_right_iff.mp (buildSockets_forall₂ h)

end Weights

section Setup
variable {P : Primitives} {env : SetupEnv} {serverText : String}
  {interfaces : List InterfaceConfig} {engine : Engine} {server : SocketAddr}
  {privateKey : X25519PrivateKey} {serverPub : PublicKey} {entry : SocketEntry}
  {entries : List SocketEntry}

theorem setupSocketsAndHandshake_links (hserver : env.serverAddr = some server)
    (hkey : env.privateKey = .ok privateKey) (hpub : env.serverPub = .ok serverPub)
    (hsockets : buildSockets env.bind 0 interfaces = .ok (entry :: entries)) :
    (setupSocketsAndHandshake P env serverText interfaces engine).engine.links.links =
      buildLinks server interfaces (entry :: entries) := by
  simp only [setupSocketsAndHandshake, hserver, hkey, hpub, hsockets]
  rfl

end Setup

/-- Start-up gives every enabled interface its own link. These links have the weights configured
for their interfaces exactly when the weights of the enabled interfaces are, in this order, the
first ones of the configuration. -/
theorem setup_ownWeights_iff (P : Primitives) (env : SetupEnv) (serverText : String)
    (interfaces : List InterfaceConfig) (engine : Engine) (server : SocketAddr)
    (privateKey : X25519PrivateKey) (serverPub : PublicKey) (sockets : List SocketEntry)
    (hserver : env.serverAddr = some server) (hkey : env.privateKey = .ok privateKey)
    (hpub : env.serverPub = .ok serverPub)
    (hsockets : buildSockets env.bind 0 interfaces = .ok sockets) :
    let links :=
      (setupSocketsAndHandshake P env serverText interfaces engine).engine.links.links
    (∀ (k : ℕ) (x : InterfaceConfig × ℕ), (enabledInterfaces interfaces)[k]? = some x →
      ∃ link, links[k]? = some link ∧ link.id = UInt32.ofNat x.2 + 1) ∧
    (OwnWeights interfaces links ↔
      (interfaces.filter InterfaceConfig.enabled).map InterfaceConfig.weight <+:
        interfaces.map InterfaceConfig.weight) := by
  intro links
  cases sockets with
  | nil =>
    -- without an enabled interface there is one link, which belongs to no interface
    have hnone := enabledInterfaces_eq_nil hsockets
    have hfilter : interfaces.filter InterfaceConfig.enabled = [] := by
      rw [← enabledInterfaces_map_fst, hnone, List.map_nil]
    constructor
    · intro k x hx
      simp [hnone] at hx
    · simp [OwnWeights, hnone, hfilter]
  | cons entry entries =>
    have hlinks : links = buildLinks server interfaces (entry :: entries) :=
      setupSocketsAndHandshake_links hserver hkey hpub hsockets
    rw [hlinks]
    constructor
    · intro k x hx
      obtain ⟨iface, link, -, hat, hid, -⟩ := buildLinks_of_enabled server hsockets hx
      exact ⟨link, hat, hid⟩
    · exact ownWeights_buildLinks_iff server hsockets

namespace Sample

/-- An environment in which every socket can be bound; the handshake over them is not answered. -/
def boundEnv : SetupEnv where
  serverAddr := some ⟨.v4 (Vector.replicate 4 10), 51820⟩
  privateKey := .ok ⟨Vector.replicate 32 1⟩
  serverPub := .ok ⟨Vector.replicate 32 2⟩
  bind := fun i => .ok ⟨⟨.v4 (Vector.replicate 4 10), UInt16.ofNat i⟩, none⟩
  bindAny := .ok ⟨⟨.v4 (Vector.replicate 4 10), 0⟩, none⟩
  handshake := ⟨none, 0, .ok (), []⟩

def installed (interfaces : List InterfaceConfig) : List Link :=
  (setupSocketsAndHandshake .transparent boundEnv "10.10.10.10:51820" interfaces
    (.newWithRoundRobin ⟨[]⟩)).engine.links.links

end Sample

/-- With the disabled interface last, the weights are the configured ones. -/
theorem setup_ownWeights_disabled_last :
    OwnWeights [⟨"eth0", 5, true⟩, ⟨"wlan0", 1, false⟩]
      (Sample.installed [⟨"eth0", 5, true⟩, ⟨"wlan0", 1, false⟩]) := by
  apply (setup_ownWeights_iff .transparent Sample.boundEnv "10.10.10.10:51820"
    [⟨"eth0", 5, true⟩, ⟨"wlan0", 1, false⟩] (.newWithRoundRobin ⟨[]⟩) _ _ _ _ rfl rfl rfl
    rfl).2.mpr
  decide

/-- The link of the second interface gets the weight of the first, which is disabled. -/
theorem setup_weight_of_disabled :
    enabledInterfaces [⟨"wlan0", 1, false⟩, ⟨"eth0", 5, true⟩] = [(⟨"eth0", 5, true⟩, 1)] ∧
    (Sample.installed [⟨"wlan0", 1, false⟩, ⟨"eth0", 5, true⟩]).map
      (fun link => (link.id, link.weight)) = [(2, 1)] ∧
    ¬ OwnWeights [⟨"wlan0", 1, false⟩, ⟨"eth0", 5, true⟩]
      (Sample.installed [⟨"wlan0", 1, false⟩, ⟨"eth0", 5, true⟩]) := by
  refine ⟨rfl, rfl, fun h => ?_⟩
  have hweight := h 0 _ _ rfl rfl
  exact absurd hweight (by decide)

end Desmos.Core
