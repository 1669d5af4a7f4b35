import Desmos.Proto.Crypto.Primitives

/-! # HKDF over HMAC-SHA256

Extract and expand as the source writes them. The handshake only ever asks for
64 bytes, and `derive_pair` says which two blocks these are.
-/
namespace Desmos.Proto.Hkdf
open Library

/-- Length of a pseudorandom key and of one output block. -/
def prkLen : ℕ := 32

variable (P : Primitives)

def extract (salt ikm : Bytes) : Key32 :=
  let zeroSalt : Bytes := List.replicate prkLen 0
  P.hmacSha256 (if salt.isEmpty then zeroSalt else salt) ikm

/-- The block loop of `expand`. `remaining` bytes are still to be written; the
loop body runs at most once per missing byte, which bounds `fuel`. -/
def expandLoop (P : Primitives) (prk : Key32) (info : Bytes) :
    (fuel remaining : ℕ) → (prev : Bytes) → (counter : UInt8) → (out : Bytes) →
      Except CryptoError Bytes
  | 0, _, _, _, out => .ok out
  | fuel + 1, remaining, prev, counter, out =>
    if remaining = 0 then .ok out
    else
      let t := (P.hmacSha256 prk.toList (prev ++ info ++ [counter])).toList
      let take := min t.length remaining
      let out := out ++ t.take take
      if counter = 255 then .error .hkdfFailed
      else expandLoop P prk info fuel (remaining - take) t (counter + 1) out

def expand (prk : Key32) (info : Bytes) (outLen : ℕ) : Except CryptoError Bytes :=
  if outLen > 255 * prkLen then .error .hkdfFailed
  else expandLoop P prk info outLen outLen [] 1 []

def derive (salt ikm info : Bytes) (outLen : ℕ) : Except CryptoError Bytes :=
  expand P (extract P salt ikm) info outLen

def block1 (salt ikm : Bytes) : Key32 :=
  P.hmacSha256 (extract P salt ikm).toList [1]

/-- The second output block, chained to the first. -/
def block2 (salt ikm : Bytes) : Key32 :=
  P.hmacSha256 (extract P salt ikm).toList ((block1 P salt ikm).toList ++ [2])

theorem derive_pair (salt ikm : Bytes) :
    derive P salt ikm [] 64 = .ok ((block1 P salt ikm).toList ++ (block2 P salt ikm).toList) := by
  have ht (k : Key32) : k.toList.take 32 = k.toList := List.take_of_length_le (by simp)
  simp [derive, expand, prkLen, expandLoop, block1, block2, ht]

end Desmos.Proto.Hkdf
