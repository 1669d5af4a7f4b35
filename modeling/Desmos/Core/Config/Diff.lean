import Desmos.Core.Config

/-! # What changes between two configurations

The comparison visits every field of the configuration, so that nothing changes unseen, and the
fields that need a restart are pinned by a comparison that finds only safe changes.
-/
namespace Desmos.Core

structure ChangedField where
  path : String
  safe : Bool
  deriving DecidableEq

structure ConfigDiff where
  changes : List ChangedField
  deriving DecidableEq

namespace ConfigDiff

def isSafe (d : ConfigDiff) : Bool := d.changes.all ChangedField.safe

def isEmpty (d : ConfigDiff) : Bool := d.changes.isEmpty

def unsafeFields (d : ConfigDiff) : List String :=
  (d.changes.filter fun c => ¬ c.safe).map ChangedField.path

def safeFields (d : ConfigDiff) : List String :=
  (d.changes.filter ChangedField.safe).map ChangedField.path

end ConfigDiff

variable (path : String)

def diffField {α : Type} [DecidableEq α] (safe : Bool) (old new : α) : List ChangedField :=
  if old ≠ new then [⟨path, safe⟩] else []

/-- The changes of a section, or one change if it is added or removed. -/
def diffOption {α : Type} (safe : Bool) (diffSome : α → α → List ChangedField) :
    Option α → Option α → List ChangedField
  | some old, some new => diffSome old new
  | none, some _ => [⟨path, safe⟩]
  | some _, none => [⟨path, safe⟩]
  | none, none => []

def diffGeneral (old new : GeneralConfig) : List ChangedField :=
  diffField "general.mode" false old.mode new.mode ++
  diffField "general.log_level" true old.logLevel new.logLevel ++
  diffField "general.tunnel_mtu" true old.tunnelMtu new.tunnelMtu

def diffServer (old new : ServerConfig) : List ChangedField :=
  diffField "server.listen" false old.listen new.listen ++
  diffField "server.public_key" false old.publicKey new.publicKey ++
  diffField "server.private_key_file" false old.privateKeyFile new.privateKeyFile ++
  diffField "server.max_clients" true old.maxClients new.maxClients ++
  diffField "server.auth" true old.auth new.auth

def diffOptionServer : Option ServerConfig → Option ServerConfig → List ChangedField :=
  diffOption "server" false diffServer

def diffClient (old new : ClientConfig) : List ChangedField :=
  diffField "client.server" false old.server new.server ++
  diffField "client.server_public_key" false old.serverPublicKey new.serverPublicKey ++
  diffField "client.private_key_file" false old.privateKeyFile new.privateKeyFile ++
  diffField "client.bonding_strategy" true old.bondingStrategy new.bondingStrategy ++
  diffField "client.reorder_window_ms" true old.reorderWindowMs new.reorderWindowMs ++
  diffField "client.dns_leak_protection" true old.dnsLeakProtection new.dnsLeakProtection ++
  diffField "client.dns_servers" true old.dnsServers new.dnsServers ++
  diffField "client.interfaces" true old.interfaces new.interfaces

def diffOptionClient : Option ClientConfig → Option ClientConfig → List ChangedField :=
  diffOption "client" false diffClient

def diffWebui (old new : WebuiConfig) : List ChangedField :=
  diffField "webui.enabled" true old.enabled new.enabled ++
  diffField "webui.listen" true old.listen new.listen ++
  diffField "webui.username" true old.username new.username ++
  diffField "webui.password_hash" true old.passwordHash new.passwordHash

def diffOptionWebui : Option WebuiConfig → Option WebuiConfig → List ChangedField :=
  diffOption "webui" true diffWebui

def diffP2p (old new : P2pConfig) : List ChangedField :=
  diffField "p2p.peer_public_key" true old.peerPublicKey new.peerPublicKey ++
  diffField "p2p.peer_endpoint" true old.peerEndpoint new.peerEndpoint ++
  diffField "p2p.stun_servers" true old.stunServers new.stunServers ++
  diffField "p2p.relay_servers" true old.relayServers new.relayServers

def diffOptionP2p : Option P2pConfig → Option P2pConfig → List ChangedField :=
  diffOption "p2p" true diffP2p

def diff (old new : Config) : ConfigDiff where
  changes := diffGeneral old.general new.general ++ diffOptionServer old.server new.server ++
    diffOptionClient old.client new.client ++ diffOptionWebui old.webui new.webui ++
    diffOptionP2p old.p2p new.p2p

section Complete
variable {α : Type}

@[simp] theorem diffField_eq_nil [DecidableEq α] {path : String} {safe : Bool} {old new : α} :
    diffField path safe old new = [] ↔ old = new := by
  unfold diffField
  split
  · next h => simpa using h
  · next h => simpa using h

theorem diffOption_eq_nil (safe : Bool) {diffSome : α → α → List ChangedField}
    (h : ∀ old new, diffSome old new = [] ↔ old = new) (old new : Option α) :
    diffOption path safe diffSome old new = [] ↔ old = new := by
  cases old with
  | none => cases new <;> simp [diffOption]
  | some old =>
    cases new with
    | none => simp [diffOption]
    | some new => rw [diffOption, h, Option.some.injEq]

end Complete

/-- The comparison finds nothing just between equal configurations. -/
theorem diff_eq_nil_iff (a b : Config) : (diff a b).changes = [] ↔ a = b := by
  have hserver : ∀ old new, diffServer old new = [] ↔ old = new := by
    rintro ⟨⟩ ⟨⟩
    simp [diffServer]
  have hclient : ∀ old new, diffClient old new = [] ↔ old = new := by
    rintro ⟨⟩ ⟨⟩
    simp [diffClient]
  have hwebui : ∀ old new, diffWebui old new = [] ↔ old = new := by
    rintro ⟨⟩ ⟨⟩
    simp [diffWebui]
  have hp2p : ∀ old new, diffP2p old new = [] ↔ old = new := by
    rintro ⟨⟩ ⟨⟩
    simp [diffP2p]
  rcases a with ⟨⟨mode, logLevel, tunnelMtu⟩, server, client, webui, p2p⟩
  rcases b with ⟨⟨mode', logLevel', tunnelMtu'⟩, server', client', webui', p2p'⟩
  simp [diff, diffGeneral, diffOptionServer, diffOptionClient, diffOptionWebui, diffOptionP2p,
    diffField_eq_nil, diffOption_eq_nil _ _ hserver, diffOption_eq_nil _ _ hclient,
    diffOption_eq_nil _ _ hwebui, diffOption_eq_nil _ _ hp2p, Config.mk.injEq,
    GeneralConfig.mk.injEq, and_assoc]

/-- What cannot change while the daemon runs: the mode, which sections there are, and the
addresses and keys of server and client. -/
structure RestartOnly where
  mode : Mode
  server : Option (String × String × String)
  client : Option (String × String × String)
  deriving DecidableEq

def Config.restartOnly (c : Config) : RestartOnly where
  mode := c.general.mode
  server := c.server.map fun s => (s.listen, s.publicKey, s.privateKeyFile)
  client := c.client.map fun s => (s.server, s.serverPublicKey, s.privateKeyFile)

section Safe
variable {α β : Type}

@[simp] theorem all_safe_diffField [DecidableEq α] {path : String} {safe : Bool} {old new : α} :
    (diffField path safe old new).all ChangedField.safe = true ↔ safe = true ∨ old = new := by
  unfold diffField
  split
  · next h =>
    have hne : old ≠ new := by simpa using h
    simp [hne]
  · next h =>
    have hsame : old = new := by simpa using h
    simp [hsame]

theorem all_safe_diffOption {diffSome : α → α → List ChangedField} {pin : α → β}
    (h : ∀ old new, (diffSome old new).all ChangedField.safe = true ↔ pin old = pin new)
    (old new : Option α) :
    (diffOption path false diffSome old new).all ChangedField.safe = true ↔
      old.map pin = new.map pin := by
  cases old with
  | none => cases new <;> simp [diffOption]
  | some old =>
    cases new with
    | none => simp [diffOption]
    | some new => rw [diffOption, h, Option.map_some, Option.map_some, Option.some.injEq]

theorem all_safe_diffOption_true {diffSome : α → α → List ChangedField}
    (h : ∀ old new, (diffSome old new).all ChangedField.safe = true) (old new : Option α) :
    (diffOption path true diffSome old new).all ChangedField.safe = true := by
  cases old with
  | none => cases new <;> rfl
  | some old =>
    cases new with
    | none => rfl
    | some new => exact h old new

end Safe

/-- All changes are safe just if nothing that needs a restart has changed. -/
theorem diff_isSafe_iff (a b : Config) : (diff a b).isSafe = true ↔ a.restartOnly = b.restartOnly := by
  have hserver : ∀ old new, (diffServer old new).all ChangedField.safe = true ↔
      (old.listen, old.publicKey, old.privateKeyFile) =
        (new.listen, new.publicKey, new.privateKeyFile) := fun old new => by
    simp [diffServer, -List.all_eq_true, List.all_append]
  have hclient : ∀ old new, (diffClient old new).all ChangedField.safe = true ↔
      (old.server, old.serverPublicKey, old.privateKeyFile) =
        (new.server, new.serverPublicKey, new.privateKeyFile) := fun old new => by
    simp [diffClient, -List.all_eq_true, List.all_append]
  have hwebui : ∀ old new, (diffWebui old new).all ChangedField.safe = true := fun old new => by
    simp [diffWebui, -List.all_eq_true, List.all_append]
  have hp2p : ∀ old new, (diffP2p old new).all ChangedField.safe = true := fun old new => by
    simp [diffP2p, -List.all_eq_true, List.all_append]
  simp only [diff, diffGeneral, diffOptionServer, diffOptionClient, diffOptionWebui, diffOptionP2p,
    ConfigDiff.isSafe, List.all_append, Bool.and_eq_true, all_safe_diffField,
    all_safe_diffOption "server" hserver, all_safe_diffOption "client" hclient,
    all_safe_diffOption_true "webui" hwebui, all_safe_diffOption_true "p2p" hp2p, Config.restartOnly, RestartOnly.mk.injEq, Bool.false_eq_true, false_or, true_or,
    and_true, and_assoc]

end Desmos.Core
