import Desmos.Core.Config.Validate
import Desmos.Library.Chunks

/-! # Password login

The password hashes that the login of the Web UI writes and reads, and the hashes that the
configuration check lets through. The key derivation is a parameter; a call that returns
nothing has panicked.
-/
namespace Desmos.Http
open Library Desmos.Core

/-- The iterations, the salt, the password and the length of the output. -/
abbrev Pbkdf2 := UInt32 → (salt password : Bytes) → ℕ → Bytes

def hashLen : ℕ := 32

structure AuthConfig where
  username : String
  passwordHash : String
  deriving DecidableEq, Repr

def alphabet : Text := "ABCDEFGHIJKLMNOPQRSTUVWXYZabcdefghijklmnopqrstuvwxyz0123456789+/".toList

def base64Digit (n : ℕ) : Char := alphabet.getD (n &&& 0x3F) 'A'

/-- The four characters of at most three bytes. -/
def encodeChunk (chunk : Bytes) : Text :=
  let b0 := (chunk.getD 0 0).toNat
  let b1 := (chunk.getD 1 0).toNat
  let b2 := (chunk.getD 2 0).toNat
  let triple := b0 <<< 16 ||| b1 <<< 8 ||| b2
  [base64Digit (triple >>> 18), base64Digit (triple >>> 12),
    if 1 < chunk.length then base64Digit (triple >>> 6) else '=',
    if 2 < chunk.length then base64Digit triple else '=']

def base64Encode (data : Bytes) : Text := (chunks 3 data).flatMap encodeChunk

def base64Val (b : UInt8) : Option ℕ :=
  if 0x41 ≤ b ∧ b ≤ 0x5A then some (b - 0x41).toNat
  else if 0x61 ≤ b ∧ b ≤ 0x7A then some (b - 0x61 + 26).toNat
  else if 0x30 ≤ b ∧ b ≤ 0x39 then some (b - 0x30 + 52).toNat
  else if b = 0x2B then some 62
  else if b = 0x2F then some 63
  else none

/-- Blank, newline, carriage return and tab are skipped. -/
def base64Skips (b : UInt8) : Bool := b = 0x20 ∨ b = 0x0A ∨ b = 0x0D ∨ b = 0x09

/-- The loop of `base64_decode`. At most seven bits wait in `buf`, so it never overflows. -/
def base64DecodeLoop : (buf bits : ℕ) → Bytes → Option Bytes
  | _, _, [] => some []
  | buf, bits, b :: input =>
    match base64Val b with
    | none => if base64Skips b then base64DecodeLoop buf bits input else none
    | some val =>
      let buf := buf <<< 6 ||| val
      let bits := bits + 6
      if 8 ≤ bits then
        let bits := bits - 8
        (base64DecodeLoop (buf &&& (1 <<< bits - 1)) bits input).map (UInt8.ofNat (buf >>> bits) :: ·)
      else base64DecodeLoop buf bits input

def base64Decode (input : Text) : Option Bytes :=
  base64DecodeLoop 0 0 (Text.asBytes (Text.trimEndMatches '=' input))

section Hashes
variable (pbkdf2 : Pbkdf2)

/-- The text `$pbkdf2-sha256$i=<iterations>$<salt>$<hash>`. -/
def formatPhc (iterations : UInt32) (salt hash : Bytes) : Text :=
  "$pbkdf2-sha256$i=".toList ++ Nat.toDigits 10 iterations.toNat ++ '$' :: base64Encode salt ++
    '$' :: base64Encode hash

def hashPassword (password salt : Bytes) (iterations : UInt32) : Option String :=
  if iterations = 0 then none
  else
    let hash := pbkdf2 iterations salt password hashLen
    some (String.ofList (formatPhc iterations salt hash))

def parsePhc (encoded : String) : Option (UInt32 × Bytes × Bytes) := do
  let rest ← encoded.toList.dropPrefix? "$pbkdf2-sha256$".toList
  let rest ← rest.dropPrefix? "i=".toList
  let (iterStr, rest) ← Text.splitOnce '$' rest
  let iterations ← Text.parseU32 iterStr
  let (saltB64, hashB64) ← Text.splitOnce '$' rest
  let salt ← base64Decode saltB64
  let hash ← base64Decode hashB64
  some (iterations, salt, hash)

/-- The library's check of a derived key; an empty one never passes. -/
def pbkdf2Verify (iterations : UInt32) (salt password previouslyDerived : Bytes) : Bool :=
  ¬ previouslyDerived.isEmpty ∧
    pbkdf2 iterations salt password previouslyDerived.length = previouslyDerived

def verifyCredentials (config : AuthConfig) (username password : String) : Option Bool :=
  if username ≠ config.username then some false
  else
    match parsePhc config.passwordHash with
    | none => some false
    | some (iterations, salt, expectedHash) =>
      if iterations = 0 then none
      else some (pbkdf2Verify pbkdf2 iterations salt (Text.asBytes password.toList) expectedHash)

end Hashes

theorem not_both_formats {s : Text} (hargon : "$argon2id$".toList <+: s)
    (hpbkdf : "$pbkdf2-sha256$".toList <+: s) : False := by
  obtain ⟨r, rfl⟩ := hargon
  obtain ⟨r', h⟩ := hpbkdf
  -- the second characters differ
  cases h

theorem argon_of_isArgon2idPhc {s : String} (h : isArgon2idPhc s = true) :
    "$argon2id$".toList <+: s.toList := by
  unfold isArgon2idPhc at h
  split at h
  · cases h
  · next hlead => exact not_not.mp hlead

theorem pbkdf_of_parsePhc {s : String} {phc : UInt32 × Bytes × Bytes} (h : parsePhc s = some phc) :
    "$pbkdf2-sha256$".toList <+: s.toList := by
  obtain ⟨rest, hrest, _⟩ := Option.bind_eq_some_iff.mp h
  obtain ⟨lead, hs, hlead⟩ := List.dropPrefix?_eq_some_iff.mp hrest
  rw [beq_iff_eq] at hlead
  rw [hs, hlead]
  exact List.prefix_append _ _

theorem pbkdf_of_hashPassword {pbkdf2 : Pbkdf2} {password salt : Bytes} {iterations : UInt32}
    {hash : String} (h : hashPassword pbkdf2 password salt iterations = some hash) :
    "$pbkdf2-sha256$".toList <+: hash.toList := by
  unfold hashPassword at h
  split at h
  · cases h
  · cases h
    rw [@String.toList_ofList (formatPhc iterations salt _)]
    exact ⟨_, rfl⟩

/-- The login can read the hash of every configuration that this value gives, and lets in the
password a hash was made from. -/
def LoginWorks (pbkdf2 : Pbkdf2) (v : Value) : Prop :=
  ∀ c w, Config.fromValue v = .ok c → c.webui = some w →
    (∃ phc, parsePhc w.passwordHash = some phc) ∧
    ∀ password salt iterations,
      hashPassword pbkdf2 (Text.asBytes password.toList) salt iterations = some w.passwordHash →
      verifyCredentials pbkdf2 ⟨w.username, w.passwordHash⟩ w.username password = some true

theorem parsePhc_of_validated {v : Value} {c : Config} {w : WebuiConfig}
    (hv : Config.fromValue v = .ok c) (hw : c.webui = some w) : parsePhc w.passwordHash = none := by
  cases hphc : parsePhc w.passwordHash with
  | none => rfl
  | some phc =>
    exact (not_both_formats (argon_of_isArgon2idPhc (Config.webui_phc hv hw))
      (pbkdf_of_parsePhc hphc)).elim

/-- The check and the login have no hash in common: a value works for the login only if it gives
no Web UI, behind every Web UI that is let through nobody can log in, and no hash that the login
makes is let through. -/
theorem login_works_iff (pbkdf2 : Pbkdf2) :
    (∀ v, LoginWorks pbkdf2 v ↔ ∀ c, Config.fromValue v = .ok c → c.webui = none) ∧
    (∀ v c w, Config.fromValue v = .ok c → c.webui = some w → ∀ username password,
      verifyCredentials pbkdf2 ⟨w.username, w.passwordHash⟩ username password = some false) ∧
    ∀ password salt iterations hash, hashPassword pbkdf2 password salt iterations = some hash →
      isArgon2idPhc hash = false := by
  refine ⟨fun v => ⟨fun h c hv => ?_, fun h c w hv hw => ?_⟩, fun v c w hv hw username password => ?_,
    fun password salt iterations hash hhash => ?_⟩
  · cases hw : c.webui with
    | none => rfl
    | some w =>
      obtain ⟨⟨phc, hphc⟩, _⟩ := h c w hv hw
      rw [parsePhc_of_validated hv hw] at hphc
      cases hphc
  · rw [h c hv] at hw
    cases hw
  · unfold verifyCredentials
    split
    · rfl
    · rw [parsePhc_of_validated hv hw]
  · rw [Bool.eq_false_iff]
    intro hargon
    exact not_both_formats (argon_of_isArgon2idPhc hargon) (pbkdf_of_hashPassword hhash)

namespace Sample

variable (passwordHash : String)

def webuiSettings : Value :=
  .table [
    ("general", .table [("mode", .string "p2p")]),
    ("p2p", .table [("peer_endpoint", .string "127.0.0.1:4900"), ("peer_public_key", .string "peer")]),
    ("webui", .table [("password_hash", .string passwordHash)])]

/-- The hash of the example configuration. -/
def argonHash : String :=
  "$argon2id$v=19$m=19456,t=2,p=1$c29tZXNhbHRzYWx0$8C9wKcyKj9Yh3IKvQkVtGvSiwqZY9oQWxZ6jjaR9c2c"

/-- A hash in the format of the documentation. -/
def pbkdfHash : String := "$pbkdf2-sha256$i=600000$c2FsdA==$aGFzaA=="

def webui : WebuiConfig :=
  { enabled := true, listen := "127.0.0.1:8080", username := "admin", passwordHash }

def webuiConfig : Config :=
  { general := ⟨.p2p, .info, 1400⟩, server := none, client := none
    webui := some (webui passwordHash), p2p := some ⟨"peer", "127.0.0.1:4900", [], []⟩ }

end Sample

open Sample in
/-- The example's hash passes the check and cannot be read; the documented one can be read and
does not pass. -/
theorem example_hash_locks_out :
    Config.fromValue (webuiSettings argonHash) = .ok (webuiConfig argonHash) ∧
    parsePhc argonHash = none ∧
    (∀ pbkdf2, ¬ LoginWorks pbkdf2 (webuiSettings argonHash)) ∧
    parsePhc pbkdfHash = some (600000, [115, 97, 108, 116], [104, 97, 115, 104]) ∧
    isArgon2idPhc pbkdfHash = false := by
  have hvalid : Config.fromValue (webuiSettings argonHash) = .ok (webuiConfig argonHash) := by
    decide +kernel
  have hphc : parsePhc argonHash = none := by decide +kernel
  refine ⟨hvalid, hphc, fun pbkdf2 h => ?_, by decide +kernel, by decide +kernel⟩
  obtain ⟨⟨phc, hsome⟩, _⟩ := h _ (webui argonHash) hvalid rfl
  cases hphc.symm.trans hsome

end Desmos.Http
