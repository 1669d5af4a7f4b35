import Desmos.Core.Config
import Desmos.Core.Config.Value
import Desmos.Library.Reader
import Desmos.Library.Text

/-! # The configuration check

A value tree becomes a typed configuration, or the first problem is reported. The strings of an
accepted configuration are the strings of the tree.
-/
namespace Desmos.Core
open Library

def allowedSections : List String := ["general", "server", "client", "webui", "p2p"]
def minMtu : UInt32 := 576
def maxMtu : UInt32 := 9000
def maxReorderWindowMs : UInt32 := 10000
def maxWeight : UInt32 := 1000

def missingField (parentPath : Path) (field : String) : ParseError :=
  { kind := .missingField field, line := 0, col := 0, path := parentPath }

def outOfRange (parentPath : Path) (field : String) : ParseError :=
  { kind := .outOfRange field, line := 0, col := 0, path := parentPath }

def typeMismatchAt (path : Path) (expected got : String) : ParseError :=
  { kind := .typeMismatch expected got, line := 0, col := 0, path }

def asTable (v : Value) (path : Path) : Except ParseError Table :=
  match v.asTable with
  | none => .error (typeMismatchAt path "table" v.typeName)
  | some t => .ok t

section Accessors
variable {α : Type} (as : Value → Option α) (expected : String)

/-- A field that must be there and must have the type. -/
def requireAs (t : Table) (parentPath : Path) (key : String) : Except ParseError α :=
  match t.lookup key with
  | none => .error (missingField parentPath key)
  | some v =>
    match as v with
    | none => .error (typeMismatchAt (parentPath.push key) expected v.typeName)
    | some a => .ok a

/-- A field that must have the type if it is there. Its errors name the key alone. -/
def optionalAs (t : Table) (key : String) : Except ParseError (Option α) :=
  match t.lookup key with
  | none => .ok none
  | some v =>
    match as v with
    | none => .error (typeMismatchAt [key] expected v.typeName)
    | some a => .ok (some a)

end Accessors

def requireTable : Table → Path → String → Except ParseError Table := requireAs Value.asTable "table"

def requireString : Table → Path → String → Except ParseError String :=
  requireAs Value.asString "string"

def optionalString : Table → String → Except ParseError (Option String) :=
  optionalAs Value.asString "string"

def optionalBool : Table → String → Except ParseError (Option Bool) :=
  optionalAs Value.asBoolean "boolean"

def optionalU32 (t : Table) (key : String) : Except ParseError (Option UInt32) :=
  match t.lookup key with
  | none => .ok none
  | some v =>
    match v.asInteger with
    | none => .error (typeMismatchAt [key] "integer" v.typeName)
    | some i =>
      if 0 ≤ i.toInt ∧ i.toInt ≤ 4294967295 then .ok (some (UInt32.ofNat i.toInt.toNat))
      else .error (typeMismatchAt [key] "u32" "integer")

/-- The strings of an array, from item `i` on. -/
def stringItems (key : String) : (i : ℕ) → List Value → Except ParseError (List String)
  | _, [] => .ok []
  | i, item :: items =>
    match item.asString with
    | none => .error (typeMismatchAt [key, "[" ++ toString i ++ "]"] "string" item.typeName)
    | some s => do
      let out ← stringItems key (i + 1) items
      .ok (s :: out)

def optionalStringArray (t : Table) (key : String) : Except ParseError (Option (List String)) :=
  match t.lookup key with
  | none => .ok none
  | some v =>
    match v.asArray with
    | none => .error (typeMismatchAt [key] "array" v.typeName)
    | some items => do
      let out ← stringItems key 0 items
      .ok (some out)

def choose {α : Type} (names : List (String × α)) (path : Path) (field s : String) :
    Except ParseError α :=
  match names.lookup s with
  | none => .error (outOfRange path field)
  | some a => .ok a

def modeNames : List (String × Mode) := [("client", .client), ("server", .server), ("p2p", .p2p)]

def logLevelNames : List (String × LogLevel) :=
  [("trace", .trace), ("debug", .debug), ("info", .info), ("warn", .warn), ("error", .error)]

def authMethodNames : List (String × AuthMethod) :=
  [("psk", .psk), ("pubkey", .pubkey), ("totp", .totp), ("mtls", .mtls)]

def bondingStrategyNames : List (String × BondingStrategyName) :=
  [("round-robin", .roundRobin), ("weighted", .weighted), ("latency-adaptive", .latencyAdaptive),
    ("redundant", .redundant)]

section
variable (root : Table)

def parseGeneral (path : Path) : Except ParseError GeneralConfig := do
  let t ← requireTable root path "general"
  let mode ← choose modeNames path "mode" (← requireString t path "mode")
  let logLevel ← choose logLevelNames path "log_level"
    ((← optionalString t "log_level").getD "info")
  let tunnelMtu := (← optionalU32 t "tunnel_mtu").getD 1400
  if ¬ (minMtu ≤ tunnelMtu ∧ tunnelMtu ≤ maxMtu) then .error (outOfRange path "tunnel_mtu")
  else .ok { mode, logLevel, tunnelMtu }

def AuthConfig.missing (c : AuthConfig) : Option String :=
  match c.method with
  | .psk => if c.psk.isNone then some "psk" else none
  | .pubkey => if c.authorizedKeysFile.isNone then some "authorized_keys_file" else none
  | .totp => if c.totpSecret.isNone then some "totp_secret" else none
  | .mtls => if c.caCertFile.isNone then some "ca_cert_file" else none

def parseAuth (serverTable : Table) (path : Path) : Except ParseError AuthConfig := do
  let auth ← requireTable serverTable path "auth"
  let method ← choose authMethodNames path "method" (← requireString auth path "method")
  let psk ← optionalString auth "psk"
  let authorizedKeysFile ← optionalString auth "authorized_keys_file"
  let totpSecret ← optionalString auth "totp_secret"
  let caCertFile ← optionalString auth "ca_cert_file"
  let config : AuthConfig := { method, psk, authorizedKeysFile, totpSecret, caCertFile }
  match config.missing with
  | some field => .error (missingField path field)
  | none => .ok config

def parseServer (path : Path) : Except ParseError ServerConfig := do
  let t ← requireTable root path "server"
  let listen ← requireString t path "listen"
  let publicKey ← requireString t path "public_key"
  let privateKeyFile ← requireString t path "private_key_file"
  let maxClients := (← optionalU32 t "max_clients").getD 100
  if maxClients = 0 then .error (outOfRange path "max_clients")
  else do
    let auth ← parseAuth t (path.push "auth")
    .ok { listen, publicKey, privateKeyFile, maxClients, auth }

def parseInterface (v : Value) (path : Path) : Except ParseError InterfaceConfig := do
  let t ← asTable v path
  let name ← requireString t path "name"
  if name.isEmpty then .error (outOfRange path "name")
  else do
    let weight := (← optionalU32 t "weight").getD 100
    if weight = 0 ∨ maxWeight < weight then .error (outOfRange path "weight")
    else do
      let enabled := (← optionalBool t "enabled").getD true
      .ok { name, weight, enabled }

/-- The loop over the interfaces, from number `i` on. -/
def parseInterfaces (path : Path) : (i : ℕ) → List Value → Except ParseError (List InterfaceConfig)
  | _, [] => .ok []
  | i, item :: items => do
    let interface ← parseInterface item (path.push ("interfaces[" ++ toString i ++ "]"))
    let interfaces ← parseInterfaces path (i + 1) items
    .ok (interface :: interfaces)

def parseClient (path : Path) : Except ParseError ClientConfig := do
  let t ← requireTable root path "client"
  let server ← requireString t path "server"
  let serverPublicKey ← requireString t path "server_public_key"
  let privateKeyFile ← requireString t path "private_key_file"
  let bondingStrategy ← choose bondingStrategyNames path "bonding_strategy"
    ((← optionalString t "bonding_strategy").getD "latency-adaptive")
  let reorderWindowMs := (← optionalU32 t "reorder_window_ms").getD 50
  if maxReorderWindowMs < reorderWindowMs then .error (outOfRange path "reorder_window_ms")
  else do
    let dnsLeakProtection := (← optionalBool t "dns_leak_protection").getD true
    let dnsServers := (← optionalStringArray t "dns_servers").getD []
    let items ← requireAs Value.asArray "array" t path "interfaces"
    if items.isEmpty then .error (outOfRange path "interfaces")
    else do
      let interfaces ← parseInterfaces path 0 items
      .ok { server, serverPublicKey, privateKeyFile, bondingStrategy, reorderWindowMs
            dnsLeakProtection, dnsServers, interfaces }

/-- A string of the form `$argon2id$v=N$m=M,t=T,p=P$<salt>$<hash>`. -/
def isArgon2idPhc (s : String) : Bool :=
  if ¬ "$argon2id$".toList <+: s.toList then false
  else
    match s.toList.splitOn '$' with
    | [_, _, version, params, salt, hash] =>
      if ¬ "v=".toList <+: version then false
      else if ¬ "m=".toList <+: params ∨ ¬ ",t=".toList <:+: params ∨ ¬ ",p=".toList <:+: params then
        false
      else ¬ salt.isEmpty ∧ ¬ hash.isEmpty
    | _ => false

def parseWebui (path : Path) : Except ParseError WebuiConfig := do
  let t ← requireTable root path "webui"
  let enabled := (← optionalBool t "enabled").getD true
  let listen := (← optionalString t "listen").getD "127.0.0.1:8080"
  let username := (← optionalString t "username").getD "admin"
  let passwordHash ← requireString t path "password_hash"
  if ¬ isArgon2idPhc passwordHash then
    .error (typeMismatchAt (path.push "password_hash") "argon2id PHC string" "invalid hash")
  else .ok { enabled, listen, username, passwordHash }

def parseP2p (path : Path) : Except ParseError P2pConfig := do
  let t ← requireTable root path "p2p"
  let peerPublicKey ← requireString t path "peer_public_key"
  let peerEndpoint ← requireString t path "peer_endpoint"
  let stunServers := (← optionalStringArray t "stun_servers").getD []
  let relayServers := (← optionalStringArray t "relay_servers").getD []
  .ok { peerPublicKey, peerEndpoint, stunServers, relayServers }

end

/-- A section that is checked if it is there. -/
def optionalSection {α : Type} (parse : Table → Path → Except ParseError α) (root : Table)
    (key : String) : Except ParseError (Option α) :=
  if (root.lookup key).isSome then do
    let section' ← parse root [key]
    .ok (some section')
  else .ok none

namespace Config

def missing (c : Config) : Option String :=
  match c.general.mode with
  | .server => if c.server.isNone then some "server" else none
  | .client => if c.client.isNone then some "client" else none
  | .p2p => if c.p2p.isNone then some "p2p" else none

def fromValue (v : Value) : Except ParseError Config := do
  let root ← asTable v []
  match (root.map Prod.fst).find? (· ∉ allowedSections) with
  | some k => .error { kind := .unknownSection k, line := 0, col := 0, path := [] }
  | none =>
    let general ← parseGeneral root ["general"]
    let server ← optionalSection parseServer root "server"
    let client ← optionalSection parseClient root "client"
    let webui ← optionalSection parseWebui root "webui"
    let p2p ← optionalSection parseP2p root "p2p"
    let config : Config := { general, server, client, webui, p2p }
    match config.missing with
    | some field => .error (missingField [] field)
    | none => .ok config

end Config

variable {path : Path} {α : Type} {as : Value → Option α} {expected key : String} {t : Table}
  {v : Value}

theorem requireAs_ok_iff {a : α} :
    requireAs as expected t path key = .ok a ↔ (t.lookup key).bind as = some a := by
  unfold requireAs
  cases t.lookup key with
  | none => simp
  | some v => cases h : as v <;> simp [h]

theorem optionalAs_ok {a : Option α} (h : optionalAs as expected t key = .ok a) :
    (t.lookup key).bind as = a := by
  unfold optionalAs at h
  split at h
  · next hnone =>
    cases h
    rw [hnone]
    rfl
  · next v hsome =>
    split at h
    · cases h
    · next b hb =>
      cases h
      rw [hsome]
      exact hb

variable {root : Table}

theorem optionalSection_ok {parse : Table → Path → Except ParseError α} {o : Option α}
    (h : optionalSection parse root key = .ok o) :
    root.lookup key = none ∧ o = none ∨ ∃ a, o = some a ∧ parse root [key] = .ok a := by
  unfold optionalSection at h
  split at h
  · obtain ⟨a, ha, hsome⟩ := bind_eq_ok.mp h
    cases hsome
    exact .inr ⟨a, rfl, ha⟩
  · next hnone =>
    cases h
    exact .inl ⟨Option.not_isSome_iff_eq_none.mp hnone, rfl⟩

theorem parseAuth_ok {c : AuthConfig} (h : parseAuth t path = .ok c) :
    ∃ auth, (t.lookup "auth").bind Value.asTable = some auth ∧
      (auth.lookup "psk").bind Value.asString = c.psk := by
  obtain ⟨auth, hauth, h⟩ := bind_eq_ok.mp h
  iterate 2 obtain ⟨_, _, h⟩ := bind_eq_ok.mp h
  obtain ⟨psk, hpsk, h⟩ := bind_eq_ok.mp h
  iterate 3 obtain ⟨_, _, h⟩ := bind_eq_ok.mp h
  refine ⟨auth, requireAs_ok_iff.mp hauth, ?_⟩
  dsimp only at h
  split at h
  · cases h
  · cases h
    exact optionalAs_ok hpsk

theorem parseServer_ok {c : ServerConfig}
    (h : parseServer root path = .ok c) :
    ∃ t, (root.lookup "server").bind Value.asTable = some t ∧
      (t.lookup "listen").bind Value.asString = some c.listen ∧
      ∃ auth, (t.lookup "auth").bind Value.asTable = some auth ∧
        (auth.lookup "psk").bind Value.asString = c.auth.psk := by
  obtain ⟨t, ht, h⟩ := bind_eq_ok.mp h
  obtain ⟨listen, hlisten, h⟩ := bind_eq_ok.mp h
  iterate 3 obtain ⟨_, _, h⟩ := bind_eq_ok.mp h
  obtain ⟨_, h⟩ := ite_error_eq_ok.mp h
  obtain ⟨auth, hauth, h⟩ := bind_eq_ok.mp h
  cases h
  exact ⟨t, requireAs_ok_iff.mp ht, requireAs_ok_iff.mp hlisten, parseAuth_ok hauth⟩

theorem parseClient_ok {c : ClientConfig}
    (h : parseClient root path = .ok c) :
    ∃ t, (root.lookup "client").bind Value.asTable = some t ∧
      (t.lookup "server").bind Value.asString = some c.server ∧
      (t.lookup "server_public_key").bind Value.asString = some c.serverPublicKey := by
  obtain ⟨t, ht, h⟩ := bind_eq_ok.mp h
  obtain ⟨server, hserver, h⟩ := bind_eq_ok.mp h
  obtain ⟨serverPublicKey, hkey, h⟩ := bind_eq_ok.mp h
  iterate 4 obtain ⟨_, _, h⟩ := bind_eq_ok.mp h
  obtain ⟨_, h⟩ := ite_error_eq_ok.mp h
  iterate 3 obtain ⟨_, _, h⟩ := bind_eq_ok.mp h
  obtain ⟨_, h⟩ := ite_error_eq_ok.mp h
  obtain ⟨_, _, h⟩ := bind_eq_ok.mp h
  cases h
  exact ⟨t, requireAs_ok_iff.mp ht, requireAs_ok_iff.mp hserver, requireAs_ok_iff.mp hkey⟩

theorem parseWebui_ok {c : WebuiConfig}
    (h : parseWebui root path = .ok c) : isArgon2idPhc c.passwordHash = true := by
  iterate 5 obtain ⟨_, _, h⟩ := bind_eq_ok.mp h
  obtain ⟨hphc, h⟩ := ite_error_eq_ok.mp h
  cases h
  exact not_not.mp hphc

theorem Value.stringAt_section (hv : v.asTable = some root)
    (key₁ key₂ : String) : v.stringAt [key₁, key₂] =
      ((root.lookup key₁).bind Value.asTable).bind fun t => (t.lookup key₂).bind Value.asString := by
  simp [stringAt, get, hv, Option.bind_assoc]

theorem Value.stringAt_subsection (hv : v.asTable = some root)
    (key₁ key₂ key₃ : String) : v.stringAt [key₁, key₂, key₃] =
      ((root.lookup key₁).bind Value.asTable).bind fun t =>
        ((t.lookup key₂).bind Value.asTable).bind fun u => (u.lookup key₃).bind Value.asString := by
  simp [stringAt, get, hv, Option.bind_assoc]

namespace Config
variable {v : Value} {c : Config}

theorem fromValue_ok (h : fromValue v = .ok c) : ∃ root, v.asTable = some root ∧
    optionalSection parseServer root "server" = .ok c.server ∧
    optionalSection parseClient root "client" = .ok c.client ∧
    optionalSection parseWebui root "webui" = .ok c.webui := by
  obtain ⟨root, hroot, h⟩ := bind_eq_ok.mp h
  have hv : v.asTable = some root := by
    unfold asTable at hroot
    split at hroot
    · cases hroot
    · next t ht =>
      cases hroot
      exact ht
  split at h
  · cases h
  · obtain ⟨_, _, h⟩ := bind_eq_ok.mp h
    obtain ⟨server, hserver, h⟩ := bind_eq_ok.mp h
    obtain ⟨client, hclient, h⟩ := bind_eq_ok.mp h
    obtain ⟨webui, hwebui, h⟩ := bind_eq_ok.mp h
    obtain ⟨_, _, h⟩ := bind_eq_ok.mp h
    dsimp only at h
    split at h
    · cases h
    · cases h
      exact ⟨root, hv, hserver, hclient, hwebui⟩

theorem server_strings (h : fromValue v = .ok c) :
    v.stringAt ["server", "listen"] = c.server.map ServerConfig.listen ∧
    v.stringAt ["server", "auth", "psk"] = c.server.bind fun s => s.auth.psk := by
  obtain ⟨root, hv, hserver, _, _⟩ := fromValue_ok h
  rw [Value.stringAt_section hv, Value.stringAt_subsection hv]
  rcases optionalSection_ok hserver with ⟨hnone, hs⟩ | ⟨s, hs, hparse⟩
  · rw [hnone, hs]
    exact ⟨rfl, rfl⟩
  · obtain ⟨t, ht, hlisten, auth, hauth, hpsk⟩ := parseServer_ok hparse
    rw [ht, hs]
    refine ⟨hlisten, ?_⟩
    rw [Option.bind_some, hauth]
    exact hpsk

theorem client_strings (h : fromValue v = .ok c) :
    v.stringAt ["client", "server"] = c.client.map ClientConfig.server ∧
    v.stringAt ["client", "server_public_key"] = c.client.map ClientConfig.serverPublicKey := by
  obtain ⟨root, hv, _, hclient, _⟩ := fromValue_ok h
  rw [Value.stringAt_section hv, Value.stringAt_section hv]
  rcases optionalSection_ok hclient with ⟨hnone, hs⟩ | ⟨s, hs, hparse⟩
  · rw [hnone, hs]
    exact ⟨rfl, rfl⟩
  · obtain ⟨t, ht, hserver, hkey⟩ := parseClient_ok hparse
    rw [ht, hs]
    exact ⟨hserver, hkey⟩

theorem webui_phc (h : fromValue v = .ok c) {w : WebuiConfig} (hw : c.webui = some w) :
    isArgon2idPhc w.passwordHash = true := by
  obtain ⟨root, _, _, _, hwebui⟩ := fromValue_ok h
  rcases optionalSection_ok hwebui with ⟨_, hnone⟩ | ⟨w', hsome, hparse⟩
  · rw [hnone] at hw
    cases hw
  · rw [hsome] at hw
    cases hw
    exact parseWebui_ok hparse

end Config

end Desmos.Core
