import Desmos.Core.Auth.Psk
import Desmos.Core.Config.Validate
import Desmos.Core.Daemon.KeyFile
import Desmos.Core.Net.AddrText

/-! # From the configuration to its consumers

The check copies the strings of a configuration without looking into them. Whether the code
behind it can use them is decided by the strings alone.
-/
namespace Desmos.Core
open Library Proto AddrText

theorem parsePublicKeyHex_ok_iff {hexStr : String} : (∃ key, parsePublicKeyHex hexStr = .ok key) ↔
    ∃ key : Key32, SpellsHex (Text.asBytes (Text.trim hexStr.toList)) key.toList := by
  unfold parsePublicKeyHex
  constructor
  · rintro ⟨key, h⟩
    obtain ⟨hlen, h⟩ := ite_error_eq_ok.mp h
    cases hd : decodeHex32 (Text.trim hexStr.toList) with
    | error e =>
      rw [hd] at h
      cases h
    | ok bytes => exact ⟨bytes, (decodeHex32_ok_iff (not_not.mp hlen)).mp hd⟩
  · rintro ⟨key, hspell⟩
    have hlen : (Text.asBytes (Text.trim hexStr.toList)).length = 64 := by
      rw [hspell.length, Vector.length_toList]
    rw [if_neg (not_not_intro hlen), (decodeHex32_ok_iff hlen).mpr hspell]
    exact ⟨⟨key⟩, rfl⟩

/-- Each field that later code parses is accepted there. -/
structure StartsUp (blake3 : Bytes → Key32) (c : Config) : Prop where
  psk : ∀ s, c.server = some s → ∀ psk, s.auth.psk = some psk →
    ∃ key, PresharedKey.new blake3 (Text.asBytes psk.toList) = .ok key
  listen : ∀ s, c.server = some s → ∃ addr, parseSocketAddr s.listen = some addr
  server : ∀ cl, c.client = some cl → ∃ addr, parseSocketAddr cl.server = some addr
  serverPublicKey : ∀ cl, c.client = some cl → ∃ key, parsePublicKeyHex cl.serverPublicKey = .ok key

/-- What the consumers ask of the strings of a value tree. -/
structure Usable (v : Value) : Prop where
  psk : ∀ psk, v.stringAt ["server", "auth", "psk"] = some psk →
    pskMinLen ≤ (Text.asBytes psk.toList).length ∧ (Text.asBytes psk.toList).length ≤ pskMaxLen
  listen : ∀ s, v.stringAt ["server", "listen"] = some s → ∃ addr, parseSocketAddr s = some addr
  server : ∀ s, v.stringAt ["client", "server"] = some s → ∃ addr, parseSocketAddr s = some addr
  serverPublicKey : ∀ s, v.stringAt ["client", "server_public_key"] = some s →
    ∃ key : Key32, SpellsHex (Text.asBytes (Text.trim s.toList)) key.toList

/-- An accepted configuration starts up exactly if its strings happen to be usable: a key of 16
to 4096 bytes, 64 hex digits between white space, and two socket addresses. -/
theorem validated_starts_up_iff (blake3 : Bytes → Key32) (v : Value) (c : Config)
    (h : Config.fromValue v = .ok c) : StartsUp blake3 c ↔ Usable v := by
  obtain ⟨hlisten, hpsk⟩ := Config.server_strings h
  obtain ⟨hserver, hkey⟩ := Config.client_strings h
  constructor
  · intro hstart
    refine ⟨fun psk hp => ?_, fun s hs => ?_, fun s hs => ?_, fun s hs => ?_⟩
    · rw [hpsk, Option.bind_eq_some_iff] at hp
      obtain ⟨srv, hsrv, hp⟩ := hp
      exact PresharedKey.new_ok_iff.mp (hstart.psk srv hsrv psk hp)
    · rw [hlisten, Option.map_eq_some_iff] at hs
      obtain ⟨srv, hsrv, rfl⟩ := hs
      exact hstart.listen srv hsrv
    · rw [hserver, Option.map_eq_some_iff] at hs
      obtain ⟨cl, hcl, rfl⟩ := hs
      exact hstart.server cl hcl
    · rw [hkey, Option.map_eq_some_iff] at hs
      obtain ⟨cl, hcl, rfl⟩ := hs
      exact parsePublicKeyHex_ok_iff.mp (hstart.serverPublicKey cl hcl)
  · intro husable
    refine ⟨fun s hs psk hp => ?_, fun s hs => ?_, fun cl hcl => ?_, fun cl hcl => ?_⟩
    · apply PresharedKey.new_ok_iff.mpr
      apply husable.psk
      rw [hpsk, hs]
      exact hp
    · apply husable.listen
      rw [hlisten, hs]
      rfl
    · apply husable.server
      rw [hserver, hcl]
      rfl
    · apply parsePublicKeyHex_ok_iff.mpr
      apply husable.serverPublicKey
      rw [hkey, hcl]
      rfl

namespace Sample

/-- A client with one interface, and a server section beside it. -/
def settings (psk server serverPublicKey : String) : Value :=
  .table [
    ("client", .table [
      ("interfaces", .array [.table [("name", .string "eth0")]]),
      ("private_key_file", .string "/etc/desmos/client.key"),
      ("server", .string server),
      ("server_public_key", .string serverPublicKey)]),
    ("general", .table [("mode", .string "client")]),
    ("server", .table [
      ("auth", .table [("method", .string "psk"), ("psk", .string psk)]),
      ("listen", .string "0.0.0.0:4900"),
      ("private_key_file", .string "/etc/desmos/server.key"),
      ("public_key", .string "pubkey-base64")])]

def validated (psk server serverPublicKey : String) : Config :=
  { general := ⟨.client, .info, 1400⟩
    server := some
      { listen := "0.0.0.0:4900", publicKey := "pubkey-base64"
        privateKeyFile := "/etc/desmos/server.key", maxClients := 100
        auth := { method := .psk, psk := some psk, authorizedKeysFile := none, totpSecret := none
                  caCertFile := none } }
    client := some
      { server, serverPublicKey, privateKeyFile := "/etc/desmos/client.key"
        bondingStrategy := .latencyAdaptive, reorderWindowMs := 50, dnsLeakProtection := true
        dnsServers := [], interfaces := [⟨"eth0", 100, true⟩] }
    webui := none, p2p := none }

theorem fromValue_settings (psk server serverPublicKey : String) :
    Config.fromValue (settings psk server serverPublicKey) =
      .ok (validated psk server serverPublicKey) := rfl

def zeroKeyHex : String := "0000000000000000000000000000000000000000000000000000000000000000"

end Sample

open Sample in
/-- Sixteen letters, two addresses and the hex digits of a key. -/
theorem usable_settings_start_up :
    StartsUp (fun _ => .replicate 32 0)
      (validated "abcdefghijklmnop" "[2001:db8::1]:4900" zeroKeyHex) := by
  have hlisten : parseSocketAddr "0.0.0.0:4900" = some ⟨.v4 #v[0, 0, 0, 0], 4900⟩ := by
    decide +kernel
  have hserver : parseSocketAddr "[2001:db8::1]:4900" =
      some ⟨.v6 #v[0x20, 0x01, 0x0d, 0xb8, 0, 0, 0, 0, 0, 0, 0, 0, 0, 0, 0, 1], 4900⟩ := by
    decide +kernel
  apply (validated_starts_up_iff _ _ _
    (fromValue_settings "abcdefghijklmnop" "[2001:db8::1]:4900" zeroKeyHex)).mpr
  refine ⟨fun psk hpsk => ?_, fun s hs => ?_, fun s hs => ?_, fun key hkey => ?_⟩
  · cases hpsk
    decide
  · cases hs
    exact ⟨_, hlisten⟩
  · cases hs
    exact ⟨_, hserver⟩
  · cases hkey
    exact parsePublicKeyHex_ok_iff.mp ⟨_, rfl⟩

open Sample in
/-- A key of nine bytes and a server key that is no hex pass the check. -/
theorem short_psk_validated :
    Config.fromValue (settings "topsecret" "127.0.0.1:4900" "srv-pubkey-base64") =
      .ok (validated "topsecret" "127.0.0.1:4900" "srv-pubkey-base64") ∧
    (∀ blake3, PresharedKey.new blake3 (Text.asBytes "topsecret".toList) =
      .error (.misconfigured "PSK shorter than 16 bytes")) ∧
    parsePublicKeyHex "srv-pubkey-base64" =
      .error ⟨.invalidData, "expected 64 hex chars for public key, got 17"⟩ ∧
    ∀ blake3, ¬ StartsUp blake3
      (validated "topsecret" "127.0.0.1:4900" "srv-pubkey-base64") := by
  refine ⟨rfl, fun _ => rfl, rfl, fun blake3 h => ?_⟩
  obtain ⟨key, hkey⟩ := h.psk _ rfl _ rfl
  cases hkey

end Desmos.Core
