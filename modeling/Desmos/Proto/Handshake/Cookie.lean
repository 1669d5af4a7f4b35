import Desmos.Core.Io
import Desmos.Proto.Crypto.Hkdf

/-! # The anti-amplification cookie

A keyed hash of a source address, cut to 16 bytes. The module of the source says how it is to be
used: an unseen source gets a cookie, and message 2 only after it has echoed the cookie.
-/
namespace Desmos.Proto
open Library Desmos.Core

def cookieLen : ℕ := 16

structure CookieKey where
  bytes : Key32
  deriving DecidableEq

inductive CookieError where
  | rng
  deriving DecidableEq, Repr

/-- The argument is what the system random source delivered, if it did. -/
def CookieKey.generate (entropy : Option Key32) : Except CookieError CookieKey :=
  match entropy with
  | some bytes => .ok ⟨bytes⟩
  | none => .error .rng

/-- Address, port and a tag of the address family. -/
def sourceBytes (src : SocketAddr) : Bytes :=
  match src.ip with
  | .v4 octets => octets.toList ++ toBe 2 src.port.toNat ++ [0x04]
  | .v6 octets => octets.toList ++ toBe 2 src.port.toNat ++ [0x06]

variable (P : Primitives)

def hmacOverSource (key : CookieKey) (src : SocketAddr) : Key32 :=
  Hkdf.extract P key.bytes.toList (sourceBytes src)

def computeCookie (key : CookieKey) (src : SocketAddr) : Bytes :=
  (hmacOverSource P key src).toList.take cookieLen

def verifyCookie (keys : List CookieKey) (src : SocketAddr) (candidate : Bytes) : Bool :=
  if candidate.length ≠ cookieLen then false
  else keys.foldl (fun matched key =>
    matched || xorDiff (computeCookie P key src) candidate == 0) false

@[simp] theorem computeCookie_length (key : CookieKey) (src : SocketAddr) :
    (computeCookie P key src).length = cookieLen := by
  simp [computeCookie, cookieLen]

theorem foldl_or_eq_true {α : Type*} (p : α → Bool) (items : List α) (matched : Bool) :
    items.foldl (fun matched a => matched || p a) matched = true ↔
      matched = true ∨ ∃ a ∈ items, p a = true := by
  induction items generalizing matched with
  | nil => simp
  | cons a items ih =>
    rw [List.foldl_cons, ih, Bool.or_eq_true, List.exists_mem_cons_iff, or_assoc]

theorem verifyCookie_iff {P : Primitives} {keys : List CookieKey} {src : SocketAddr}
    {candidate : Bytes} :
    verifyCookie P keys src candidate = true ↔ ∃ key ∈ keys, computeCookie P key src = candidate := by
  unfold verifyCookie
  by_cases hl : candidate.length = cookieLen
  · rw [if_neg (not_not_intro hl), foldl_or_eq_true]
    simp only [Bool.false_eq_true, false_or]
    refine exists_congr fun key => and_congr_right fun _ => ?_
    rw [beq_iff_eq, xorDiff_eq_zero_iff (by rw [computeCookie_length, hl])]
  · rw [if_pos hl]
    refine ⟨nofun, ?_⟩
    rintro ⟨key, -, rfl⟩
    exact absurd (computeCookie_length P key src) hl

theorem sourceBytes_injective : Function.Injective sourceBytes := by
  have same {n : ℕ} {a b : ByteArr n} {port port' : UInt16} {tag : UInt8}
      (h : a.toList ++ toBe 2 port.toNat ++ [tag] = b.toList ++ toBe 2 port'.toNat ++ [tag]) :
      a = b ∧ port = port' := by
    rw [List.append_assoc, List.append_assoc] at h
    obtain ⟨rfl, htail⟩ := ByteArr.append_inj h
    have hport := toBe_append_inj port.toNat_lt port'.toNat_lt htail
    exact ⟨rfl, UInt16.toNat_inj.mp hport.1⟩
  rintro ⟨ip, port⟩ ⟨ip', port'⟩ h
  cases ip with
  | v4 octets =>
    cases ip' with
    | v4 octets' =>
      obtain ⟨rfl, rfl⟩ := same h
      rfl
    | v6 octets' =>
      have hlen := congrArg List.length h
      simp [sourceBytes] at hlen
  | v6 octets =>
    cases ip' with
    | v4 octets' =>
      have hlen := congrArg List.length h
      simp [sourceBytes] at hlen
    | v6 octets' =>
      obtain ⟨rfl, rfl⟩ := same h
      rfl

def truncatedHmac (key : CookieKey) (message : Bytes) : Bytes :=
  (Hkdf.extract P key.bytes.toList message).toList.take cookieLen

/-- A candidate is accepted exactly if it is the cookie of the source under one of the keys. If no
two of the keys and messages that are hashed share a cookie, the one of another source is not. -/
theorem cookie_bound_to_source (P : Primitives) (keys : List CookieKey) (src : SocketAddr) :
    (∀ candidate, verifyCookie P keys src candidate = true ↔
      ∃ key ∈ keys, candidate = computeCookie P key src) ∧
    ∀ (hashed : Set (CookieKey × Bytes)) (minter : CookieKey) (owner : SocketAddr),
      Set.InjOn (fun a => truncatedHmac P a.1 a.2) hashed →
      (minter, sourceBytes owner) ∈ hashed → (∀ key ∈ keys, (key, sourceBytes src) ∈ hashed) →
      owner ≠ src → verifyCookie P keys src (computeCookie P minter owner) = false := by
  constructor
  · intro candidate
    rw [verifyCookie_iff]
    simp only [eq_comm]
  · intro hashed minter owner hinj hminted hkeys hne
    apply Bool.eq_false_of_not_eq_true
    intro haccepted
    obtain ⟨key, hkey, hcookie⟩ := verifyCookie_iff.mp haccepted
    have hsame : (key, sourceBytes src) = (minter, sourceBytes owner) :=
      hinj (hkeys key hkey) hminted hcookie
    exact hne (sourceBytes_injective (congrArg Prod.snd hsame)).symm

namespace Sample

def cookieKey : CookieKey := ⟨.replicate 32 7⟩

def plainSource : SocketAddr := ⟨.v4 #v[10, 1, 2, 3], 443⟩

/-- The same address mapped into IPv6. -/
def mappedSource : SocketAddr := ⟨.v6 #v[0, 0, 0, 0, 0, 0, 0, 0, 0, 0, 255, 255, 10, 1, 2, 3], 443⟩

end Sample

open Sample in
theorem mapped_cookie_refused :
    verifyCookie .transparent [cookieKey] mappedSource
      (computeCookie .transparent cookieKey plainSource) = false := by
  apply (cookie_bound_to_source .transparent [cookieKey] mappedSource).2
    {(cookieKey, sourceBytes plainSource), (cookieKey, sourceBytes mappedSource)}
  · rw [Set.injOn_pair]
    intro heq
    exact absurd heq (by decide)
  · simp
  · simp
  · decide

end Desmos.Proto
