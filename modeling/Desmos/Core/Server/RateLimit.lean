import Mathlib.Data.List.AList
import Desmos.Core.Io
import Desmos.Library.U64

/-! # The token-bucket rate limiter

One bucket for each source address, in thousandths of a token. Arithmetic is
that of the source: saturating where it saturates, on 32-bit token counts and
64-bit times.
-/
namespace Desmos.Core
open Library

def defaultMaxTokens : UInt32 := 5
def defaultRefillMilliPerSec : UInt32 := 500

structure Bucket where
  tokensMilli : UInt32
  lastRefillMs : UInt64
  deriving DecidableEq

structure RateLimiter where
  maxTokensMilli : UInt32
  refillMilliPerSec : UInt32
  buckets : AList fun _ : IpAddr => Bucket
  deriving DecidableEq

namespace RateLimiter

/-- The constructor panics on a policy without any token. -/
def new (maxTokens refillMilliPerSec : UInt32) : Option RateLimiter :=
  if maxTokens = 0 then none
  else some { maxTokensMilli := saturatingMul32 maxTokens 1000
              refillMilliPerSec := refillMilliPerSec, buckets := ∅ }

def withDefaultPolicy : RateLimiter :=
  { maxTokensMilli := saturatingMul32 defaultMaxTokens 1000
    refillMilliPerSec := defaultRefillMilliPerSec, buckets := ∅ }

variable (rl : RateLimiter)

/-- The bucket of a source, full if the source is new. -/
def bucketOf (source : IpAddr) (nowMs : UInt64) : Bucket :=
  (rl.buckets.lookup source).getD { tokensMilli := rl.maxTokensMilli, lastRefillMs := nowMs }

/-- Refill by the time that passed; a clock that went back changes nothing. -/
def refill (b : Bucket) (nowMs : UInt64) : Bucket :=
  if nowMs > b.lastRefillMs then
    let dtMs := nowMs - b.lastRefillMs
    let added := saturatingMul64 rl.refillMilliPerSec.toUInt64 dtMs / 1000
    let newTokens := saturatingAdd64 b.tokensMilli.toUInt64 added
    { tokensMilli := (min newTokens rl.maxTokensMilli.toUInt64).toUInt32, lastRefillMs := nowMs }
  else b

def tryAdmit (source : IpAddr) (nowMs : UInt64) : Bool × RateLimiter :=
  let bucket := rl.refill (rl.bucketOf source nowMs) nowMs
  if bucket.tokensMilli ≥ 1000 then
    let bucket := { bucket with tokensMilli := bucket.tokensMilli - 1000 }
    (true, { rl with buckets := rl.buckets.insert source bucket })
  else
    (false, { rl with buckets := rl.buckets.insert source bucket })

/-- Under the default policy a source that was never seen is admitted. -/
theorem withDefaultPolicy_admits (source : IpAddr) (nowMs : UInt64) :
    (withDefaultPolicy.tryAdmit source nowMs).1 = true := by
  have hbucket : withDefaultPolicy.bucketOf source nowMs =
      ⟨saturatingMul32 defaultMaxTokens 1000, nowMs⟩ := rfl
  have hfull : saturatingMul32 defaultMaxTokens 1000 ≥ 1000 := by decide
  simp [tryAdmit, refill, hbucket, hfull]

/-- Drop every bucket that was last touched before the cutoff, and count them. -/
def evictStale (nowMs maxIdleMs : UInt64) : ℕ × RateLimiter :=
  let cutoff := saturatingSub64 nowMs maxIdleMs
  let kept := (rl.buckets.entries.filter fun e => decide (e.2.lastRefillMs ≥ cutoff)).toAList
  (rl.buckets.entries.length - kept.entries.length, { rl with buckets := kept })

def tracked : ℕ := rl.buckets.entries.length

end RateLimiter

end Desmos.Core
