import Desmos.Core.Server.RateLimit.Budget

/-! # Idle buckets

A bucket that was left alone for the time it takes to fill up is full by the next call, and so is
the bucket of a source that was never seen.
-/
namespace Desmos.Core
open Library

inductive RateCall where
  | tryAdmit (source : IpAddr) (nowMs : UInt64)
  | evictStale (nowMs maxIdleMs : UInt64)
  deriving DecidableEq

inductive RateAnswer where
  | admitted (answer : Bool)
  | evicted (removed : ℕ)
  deriving DecidableEq

namespace RateCall

def nowMs : RateCall → UInt64
  | tryAdmit _ nowMs => nowMs
  | evictStale nowMs _ => nowMs

def isAdmit : RateCall → Bool
  | tryAdmit _ _ => true
  | evictStale _ _ => false

end RateCall

/-- Attempts of any sources, with evictions in between. -/
def limiterRun : Machine RateLimiter RateCall RateAnswer := fun rl call =>
  match call with
  | .tryAdmit source nowMs => ((rl.tryAdmit source nowMs).map .admitted id)
  | .evictStale nowMs maxIdleMs => ((rl.evictStale nowMs maxIdleMs).map .evicted id)

namespace RateLimiter

variable {rl rl' : RateLimiter} {source : IpAddr} {nowMs maxIdleMs : UInt64} {b : Bucket}

theorem lookup_evictStale (rl : RateLimiter) (nowMs maxIdleMs : UInt64) (source : IpAddr) :
    (rl.evictStale nowMs maxIdleMs).2.buckets.lookup source =
      (rl.buckets.lookup source).filter fun b =>
        decide (saturatingSub64 nowMs maxIdleMs ≤ b.lastRefillMs) := by
  have hnodup : (rl.buckets.entries.filter fun e =>
      decide (e.2.lastRefillMs ≥ saturatingSub64 nowMs maxIdleMs)).NodupKeys :=
    rl.buckets.nodupKeys.sublist List.filter_sublist
  change ((rl.buckets.entries.filter _).toAList).lookup source = _
  rw [AList.lookup_to_alist]
  ext b
  rw [← Option.mem_def, List.mem_dlookup_iff hnodup, List.mem_filter, Option.filter_eq_some_iff,
    ← AList.mem_lookup_iff]
  rfl

theorem refill_of_idle (rl : RateLimiter) {b : Bucket}
    (hlast : b.lastRefillMs.toNat + maxIdleMs.toNat < nowMs.toNat)
    (hidle : rl.maxTokensMilli.toNat ≤ rl.refillMilliPerSec.toNat * maxIdleMs.toNat / 1000) :
    rl.refill b nowMs = ⟨rl.maxTokensMilli, nowMs⟩ := by
  have hlater : b.lastRefillMs < nowMs := UInt64.lt_iff_toNat_lt.mpr (by omega)
  have hearned : rl.refillMilliPerSec.toNat * maxIdleMs.toNat / 1000 ≤
      rl.refillMilliPerSec.toNat * (nowMs.toNat - b.lastRefillMs.toNat) / 1000 := by
    gcongr
    omega
  have htokens := toNat_refill rl b hlater
  rw [min_eq_right (by omega)] at htokens
  exact congrArg₂ Bucket.mk (UInt32.toNat_inj.mp htokens) (lastRefillMs_refill rl b hlater)

/-- The calls still to come are in order, and what they evict had the time to fill up. -/
structure Patient (rl : RateLimiter) (calls : List RateCall) : Prop where
  ordered : calls.Pairwise fun c d => c.nowMs ≤ d.nowMs
  idle : ∀ nowMs maxIdleMs, .evictStale nowMs maxIdleMs ∈ calls →
    rl.maxTokensMilli.toNat ≤ rl.refillMilliPerSec.toNat * maxIdleMs.toNat / 1000

theorem Patient.of_cons {call : RateCall} {calls : List RateCall}
    (h : rl.Patient (call :: calls)) : rl.Patient calls where
  ordered := h.ordered.of_cons
  idle nowMs maxIdleMs hmem := h.idle nowMs maxIdleMs (List.mem_cons_of_mem _ hmem)

/-- At the calls still to come, `rl` treats every source as `rl'` does: a bucket that only `rl'` has
is full by then. -/
structure SameAhead (calls : List RateCall) (rl rl' : RateLimiter) : Prop where
  maxTokensMilli : rl.maxTokensMilli = rl'.maxTokensMilli
  refillMilliPerSec : rl.refillMilliPerSec = rl'.refillMilliPerSec
  bucket : ∀ source, rl.buckets.lookup source = rl'.buckets.lookup source ∨
    rl.buckets.lookup source = none ∧ ∃ b, rl'.buckets.lookup source = some b ∧
      ∀ call ∈ calls, rl'.refill b call.nowMs = ⟨rl'.maxTokensMilli, call.nowMs⟩
  patient : rl'.Patient calls

section Ahead
variable {calls : List RateCall}

theorem SameAhead.evictStale (h : SameAhead (.evictStale nowMs maxIdleMs :: calls) rl rl') :
    SameAhead calls (rl.evictStale nowMs maxIdleMs).2 rl' where
  maxTokensMilli := h.maxTokensMilli
  refillMilliPerSec := h.refillMilliPerSec
  patient := h.patient.of_cons
  bucket source := by
    rw [lookup_evictStale]
    rcases h.bucket source with heq | ⟨hnone, b, hb, hfull⟩
    · rw [heq]
      cases hb : rl'.buckets.lookup source with
      | none => exact Or.inl rfl
      | some b =>
        rcases le_or_gt (saturatingSub64 nowMs maxIdleMs) b.lastRefillMs with hkept | hstale
        · exact Or.inl (by simp [hkept])
        · refine Or.inr ⟨by simp [hstale], b, rfl, fun call hcall => ?_⟩
          have hnow := UInt64.le_iff_toNat_le.mp (List.rel_of_pairwise_cons h.patient.ordered hcall)
          change nowMs.toNat ≤ call.nowMs.toNat at hnow
          rw [UInt64.lt_iff_toNat_lt, toNat_saturatingSub64] at hstale
          exact refill_of_idle rl' (by omega) (h.patient.idle _ _ List.mem_cons_self)
    · rw [hnone]
      exact Or.inr ⟨rfl, b, hb, fun call hcall => hfull call (List.mem_cons_of_mem _ hcall)⟩

theorem SameAhead.refill_eq (h : SameAhead (.tryAdmit source nowMs :: calls) rl rl') :
    rl.refill (rl.bucketOf source nowMs) nowMs = rl'.refill (rl'.bucketOf source nowMs) nowMs := by
  rcases h.bucket source with heq | ⟨hnone, b, hb, hfull⟩
  · rw [bucketOf, bucketOf, heq, refill, refill, h.maxTokensMilli, h.refillMilliPerSec]
  · have hnew : rl.bucketOf source nowMs = ⟨rl'.maxTokensMilli, nowMs⟩ := by
      rw [bucketOf, hnone, h.maxTokensMilli, Option.getD_none]
    have hold : rl'.bucketOf source nowMs = b := by rw [bucketOf, hb, Option.getD_some]
    rw [hnew, hold, refill_of_le rl le_rfl]
    exact (hfull _ List.mem_cons_self).symm

theorem SameAhead.tryAdmit (h : SameAhead (.tryAdmit source nowMs :: calls) rl rl') :
    SameAhead calls (rl.tryAdmit source nowMs).2 (rl'.tryAdmit source nowMs).2 where
  maxTokensMilli := by rw [tryAdmit_maxTokensMilli, tryAdmit_maxTokensMilli, h.maxTokensMilli]
  refillMilliPerSec := by
    rw [tryAdmit_refillMilliPerSec, tryAdmit_refillMilliPerSec, h.refillMilliPerSec]
  patient := by
    rw [tryAdmit_eq]
    exact ⟨h.patient.of_cons.ordered, h.patient.of_cons.idle⟩
  bucket other := by
    by_cases hown : other = source
    · rw [hown]
      exact Or.inl (tryAdmit_congr h.refill_eq).2
    · rw [lookup_tryAdmit_of_ne hown, lookup_tryAdmit_of_ne hown]
      refine (h.bucket other).imp_right fun ⟨hnone, b, hb, hfull⟩ => ⟨hnone, b, hb, ?_⟩
      intro call hcall
      rw [tryAdmit_eq]
      exact hfull call (List.mem_cons_of_mem _ hcall)

end Ahead

end RateLimiter

open RateLimiter

/-- Evictions of buckets that had the time to fill up change no decision: the attempts get the
answers that they get without them. -/
theorem eviction_invisible (rl : RateLimiter) (calls : List RateCall)
    (hordered : calls.Pairwise fun c d => c.nowMs ≤ d.nowMs)
    (hidle : ∀ nowMs maxIdleMs, .evictStale nowMs maxIdleMs ∈ calls →
      rl.maxTokensMilli.toNat ≤ rl.refillMilliPerSec.toNat * maxIdleMs.toNat / 1000) :
    (limiterRun.trace rl calls).filter (fun e => e.1.isAdmit) =
      limiterRun.trace rl (calls.filter RateCall.isAdmit) := by
  apply Machine.trace_filter_of_blind_ahead (m := limiterRun) (n := limiterRun)
    (p := RateCall.isAdmit) (R := SameAhead)
  · intro s t call ahead hsame hcall
    cases call with
    | tryAdmit source nowMs => cases hcall
    | evictStale nowMs maxIdleMs => exact hsame.evictStale
  · intro s t call ahead hsame hcall
    cases call with
    | tryAdmit source nowMs =>
      exact ⟨congrArg RateAnswer.admitted (tryAdmit_congr hsame.refill_eq).1, hsame.tryAdmit⟩
    | evictStale nowMs maxIdleMs => cases hcall
  · exact ⟨rfl, rfl, fun _ => Or.inl rfl, hordered, hidle⟩

namespace Sample

/-- Two attempts on a policy of one token, and one more after the bucket was dropped. -/
def idleCalls : List RateCall :=
  [.tryAdmit (.v4 #v[10, 0, 0, 1]) 0, .tryAdmit (.v4 #v[10, 0, 0, 1]) 1, .evictStale 1002 1000,
    .tryAdmit (.v4 #v[10, 0, 0, 1]) 1002]

end Sample

/-- The bucket is dropped, and its owner gets the answers of a limiter that keeps it. -/
theorem eviction_invisible_sample :
    (limiterRun.trace ⟨1000, 1000, ∅⟩ Sample.idleCalls).map Prod.snd =
      [.admitted true, .admitted false, .evicted 1, .admitted true] ∧
    (limiterRun.trace ⟨1000, 1000, ∅⟩ Sample.idleCalls).filter (fun e => e.1.isAdmit) =
      limiterRun.trace ⟨1000, 1000, ∅⟩ (Sample.idleCalls.filter RateCall.isAdmit) := by
  refine ⟨by decide, eviction_invisible _ _ (by decide) ?_⟩
  intro nowMs maxIdleMs hmem
  obtain ⟨-, rfl⟩ : nowMs = 1002 ∧ maxIdleMs = 1000 := by simpa [Sample.idleCalls] using hmem
  decide

end Desmos.Core
