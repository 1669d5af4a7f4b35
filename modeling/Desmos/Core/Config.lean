import Mathlib.Tactic

/-! # The validated configuration

The typed configuration that the rest of the daemon relies on.
-/
namespace Desmos.Core

inductive Mode where
  | client
  | server
  | p2p
  deriving DecidableEq, Repr

inductive LogLevel where
  | trace
  | debug
  | info
  | warn
  | error
  deriving DecidableEq, Repr

structure GeneralConfig where
  mode : Mode
  logLevel : LogLevel
  tunnelMtu : UInt32
  deriving DecidableEq, Repr

inductive AuthMethod where
  | psk
  | pubkey
  | totp
  | mtls
  deriving DecidableEq, Repr

structure AuthConfig where
  method : AuthMethod
  psk : Option String
  authorizedKeysFile : Option String
  totpSecret : Option String
  caCertFile : Option String
  deriving DecidableEq, Repr

structure ServerConfig where
  listen : String
  publicKey : String
  privateKeyFile : String
  maxClients : UInt32
  auth : AuthConfig
  deriving DecidableEq, Repr

inductive BondingStrategyName where
  | roundRobin
  | weighted
  | latencyAdaptive
  | redundant
  deriving DecidableEq, Repr

structure InterfaceConfig where
  name : String
  weight : UInt32
  enabled : Bool
  deriving DecidableEq, Repr

structure ClientConfig where
  server : String
  serverPublicKey : String
  privateKeyFile : String
  bondingStrategy : BondingStrategyName
  reorderWindowMs : UInt32
  dnsLeakProtection : Bool
  dnsServers : List String
  interfaces : List InterfaceConfig
  deriving DecidableEq, Repr

structure WebuiConfig where
  enabled : Bool
  listen : String
  username : String
  passwordHash : String
  deriving DecidableEq, Repr

structure P2pConfig where
  peerPublicKey : String
  peerEndpoint : String
  stunServers : List String
  relayServers : List String
  deriving DecidableEq, Repr

structure Config where
  general : GeneralConfig
  server : Option ServerConfig
  client : Option ClientConfig
  webui : Option WebuiConfig
  p2p : Option P2pConfig
  deriving DecidableEq, Repr

end Desmos.Core
