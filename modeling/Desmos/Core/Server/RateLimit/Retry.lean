import Desmos.Core.Server.RateLimit.Budget

/-! # Attempts of a source that waits for its next token

Every attempt credits whole thousandths of a token and moves the clock of the refill to its own
time, so what an attempt rounds off is gone. A source that tries too often waits longer.
-/
namespace Desmos.Core
open Library

/-- What attempts at these times round off, in millionths of a token, after a refill at `last`. -/
def roundedOff (rate : ℕ) (last : ℕ) : List ℕ → ℕ
  | [] => 0
  | now :: times => rate * (now - last) % 1000 + roundedOff rate (max last now) times

/-- The time of the last refill, after attempts at these times. -/
def refilledAt (last : ℕ) (times : List ℕ) : ℕ := times.foldl max last

theorem refilledAt_cons (last now : ℕ) (times : List ℕ) :
    refilledAt last (now :: times) = refilledAt (max last now) times := rfl

theorem le_refilledAt (last : ℕ) (times : List ℕ) : last ≤ refilledAt last times := by
  induction times generalizing last with
  | nil => exact le_rfl
  | cons now times ih => exact (le_max_left _ _).trans (ih _)

theorem earned_cons (rate last now : ℕ) (times : List ℕ) :
    rate * (refilledAt last (now :: times) - last) =
      rate * (now - last) + rate * (refilledAt (max last now) times - max last now) := by
  have hle := le_refilledAt (max last now) times
  rw [refilledAt_cons, ← Nat.mul_add]
  congr 1
  omega

theorem roundedOff_le (rate last : ℕ) (times : List ℕ) :
    roundedOff rate last times ≤ rate * (refilledAt last times - last) := by
  induction times generalizing last with
  | nil => exact Nat.zero_le _
  | cons now times ih =>
    rw [earned_cons, roundedOff]
    exact Nat.add_le_add (Nat.mod_le _ _) (ih _)

namespace RateLimiter

variable {rl : RateLimiter} {source : IpAddr} {b : Bucket}

theorem refill_of_poor (hcap : 1000 ≤ rl.maxTokensMilli.toNat) (hpoor : b.tokensMilli.toNat < 1000)
    (nowMs : UInt64) :
    (rl.refill b nowMs).tokensMilli.toNat = min (b.tokensMilli.toNat +
      rl.refillMilliPerSec.toNat * (nowMs.toNat - b.lastRefillMs.toNat) / 1000)
        rl.maxTokensMilli.toNat ∧
    (rl.refill b nowMs).lastRefillMs.toNat = max b.lastRefillMs.toNat nowMs.toNat := by
  rcases lt_or_ge b.lastRefillMs nowMs with hlater | hpast
  · rw [lastRefillMs_refill rl b hlater]
    exact ⟨toNat_refill rl b hlater,
      (max_eq_right (le_of_lt (UInt64.lt_iff_toNat_lt.mp hlater))).symm⟩
  · have hle := UInt64.le_iff_toNat_le.mp hpast
    rw [refill_of_le rl hpast, Nat.sub_eq_zero_of_le hle, max_eq_left hle]
    constructor
    · omega
    · rfl

theorem tryAdmit_of_poor (hcap : 1000 ≤ rl.maxTokensMilli.toNat)
    (hb : rl.buckets.lookup source = some b) (hpoor : b.tokensMilli.toNat < 1000)
    (nowMs : UInt64) :
    let credit := rl.refillMilliPerSec.toNat * (nowMs.toNat - b.lastRefillMs.toNat) / 1000
    ((rl.tryAdmit source nowMs).1 = true ↔ 1000 ≤ b.tokensMilli.toNat + credit) ∧
    (b.tokensMilli.toNat + credit < 1000 → ∃ b', (rl.tryAdmit source nowMs).2.buckets.lookup source =
      some b' ∧ b'.tokensMilli.toNat = b.tokensMilli.toNat + credit ∧
        b'.lastRefillMs.toNat = max b.lastRefillMs.toNat nowMs.toNat) := by
  intro credit
  have hof : rl.bucketOf source nowMs = b := by rw [bucketOf, hb, Option.getD_some]
  obtain ⟨htokens, hlast⟩ := refill_of_poor hcap hpoor nowMs
  rw [tryAdmit_eq, hof]
  have hthousand : UInt32.toNat 1000 = 1000 := rfl
  have hprice : 1000 ≤ (rl.refill b nowMs).tokensMilli ↔ 1000 ≤ b.tokensMilli.toNat + credit := by
    rw [UInt32.le_iff_toNat_le, htokens]
    omega
  refine ⟨by simpa using hprice, fun hless => ⟨_, AList.lookup_insert _, ?_, hlast⟩⟩
  have hnot : ¬ 1000 ≤ (rl.refill b nowMs).tokensMilli := fun h => by
    have := hprice.mp h
    omega
  simp only [hnot, decide_false, Bool.false_eq_true, if_false, UInt32.sub_zero, htokens]
  omega

end RateLimiter

open RateLimiter

theorem poor_admitted_iff {rl : RateLimiter} {source : IpAddr} {b : Bucket}
    (hcap : 1000 ≤ rl.maxTokensMilli.toNat) (hb : rl.buckets.lookup source = some b)
    (hpoor : b.tokensMilli.toNat < 1000) (times : List UInt64) :
    (∃ e ∈ rateRun.trace rl (times.map fun now => (source, now)), e.2 = true) ↔
      10 ^ 6 + roundedOff rl.refillMilliPerSec.toNat b.lastRefillMs.toNat (times.map UInt64.toNat) ≤
        1000 * b.tokensMilli.toNat + rl.refillMilliPerSec.toNat *
          (refilledAt b.lastRefillMs.toNat (times.map UInt64.toNat) - b.lastRefillMs.toNat) := by
  induction times generalizing rl b with
  | nil =>
    simp only [List.map_nil, Machine.trace, roundedOff, refilledAt, List.foldl_nil, Nat.sub_self,
      List.not_mem_nil, false_and, exists_false, false_iff]
    omega
  | cons now times ih =>
    obtain ⟨hadmitted, hkeep⟩ := tryAdmit_of_poor hcap hb hpoor now
    have hparts := Nat.div_add_mod
      (rl.refillMilliPerSec.toNat * (now.toNat - b.lastRefillMs.toNat)) 1000
    rw [List.map_cons, List.map_cons, earned_cons, roundedOff, Machine.trace_cons]
    simp only [List.mem_cons, exists_eq_or_imp]
    change (rl.tryAdmit source now).1 = true ∨
      (∃ e ∈ rateRun.trace (rl.tryAdmit source now).2 _, e.2 = true) ↔ _
    by_cases hless : b.tokensMilli.toNat +
        rl.refillMilliPerSec.toNat * (now.toNat - b.lastRefillMs.toNat) / 1000 < 1000
    · obtain ⟨b', hb', htokens, hlast⟩ := hkeep hless
      have hcap' : 1000 ≤ (rl.tryAdmit source now).2.maxTokensMilli.toNat := by
        rwa [tryAdmit_maxTokensMilli]
      have hrest := ih hcap' hb' (htokens ▸ hless)
      rw [hrest, hadmitted, htokens, hlast, tryAdmit_refillMilliPerSec]
      omega
    · have hoff := roundedOff_le rl.refillMilliPerSec.toNat
        (max b.lastRefillMs.toNat now.toNat) (times.map UInt64.toNat)
      have hfirst : (rl.tryAdmit source now).1 = true := hadmitted.mpr (not_lt.mp hless)
      simp only [hfirst, true_or, true_iff]
      omega

theorem rateRun_policy (rl : RateLimiter) (calls : List (IpAddr × UInt64)) :
    (rateRun.final rl calls).maxTokensMilli = rl.maxTokensMilli ∧
    (rateRun.final rl calls).refillMilliPerSec = rl.refillMilliPerSec := by
  apply Machine.final_invariant (m := rateRun)
    (I := fun s => s.maxTokensMilli = rl.maxTokensMilli ∧
      s.refillMilliPerSec = rl.refillMilliPerSec)
  · intro s call hs
    exact ⟨tryAdmit_maxTokensMilli.trans hs.1, tryAdmit_refillMilliPerSec.trans hs.2⟩
  · exact ⟨rfl, rfl⟩

theorem thousand_le_of_new {maxTokens refillMilliPerSec : UInt32} {rl : RateLimiter}
    (h : RateLimiter.new maxTokens refillMilliPerSec = some rl) :
    1000 ≤ rl.maxTokensMilli.toNat := by
  unfold RateLimiter.new at h
  split at h
  · cases h
  · next hpos =>
    cases h
    have hsat := toNat_saturatingMul32 maxTokens 1000
    have hthousand : UInt32.toNat 1000 = 1000 := rfl
    have hone : maxTokens.toNat ≠ 0 := fun h0 => hpos (UInt32.toNat_inj.mp h0)
    rw [hthousand] at hsat
    dsimp only
    omega

theorem refilledAt_le {last now : ℕ} {times : List ℕ} (hlast : last ≤ now)
    (htimes : ∀ time ∈ times, time ≤ now) : refilledAt last times ≤ now := by
  induction times generalizing last with
  | nil => exact hlast
  | cons time times ih =>
    rw [List.forall_mem_cons] at htimes
    exact ih (max_le hlast htimes.1) htimes.2

theorem refilledAt_concat {last now : ℕ} {early : List ℕ} (hlast : last ≤ now)
    (hearly : ∀ time ∈ early, time ≤ now) : refilledAt last (early ++ [now]) = now := by
  rw [refilledAt, List.foldl_append]
  exact max_eq_right (refilledAt_le hlast hearly)

/-- The bucket of a source was found empty at time `t`, and the source tries again, among any calls
of others: `last` is its first attempt by which the rate has earned a token. This one or an earlier
one is admitted exactly when what all of them have rounded off is no more than what was earned
beyond the token. -/
theorem retry_admitted_iff {maxTokens refillMilliPerSec : UInt32} {rl : RateLimiter}
    (hnew : RateLimiter.new maxTokens refillMilliPerSec = some rl)
    (past calls : List (IpAddr × UInt64)) (source : IpAddr) (t last : UInt64)
    (hempty : (rateRun.final rl past).buckets.lookup source = some ⟨0, t⟩) (early : List UInt64)
    (hcalls : calls.filter (fun c => c.1 = source) = (early ++ [last]).map fun now => (source, now))
    (hearly : ∀ time ∈ early, refillMilliPerSec.toNat * (time.toNat - t.toNat) < 10 ^ 6)
    (hlast : 10 ^ 6 ≤ refillMilliPerSec.toNat * (last.toNat - t.toNat)) :
    (∃ e ∈ rateRun.trace (rateRun.final rl past) calls, e.1.1 = source ∧ e.2 = true) ↔
      roundedOff refillMilliPerSec.toNat t.toNat ((early ++ [last]).map UInt64.toNat) ≤
        refillMilliPerSec.toNat * (last.toNat - t.toNat) - 10 ^ 6 := by
  obtain ⟨hmax, hrate⟩ := rateRun_policy rl past
  have hcap : 1000 ≤ (rateRun.final rl past).maxTokensMilli.toNat := by
    rw [hmax]
    exact thousand_le_of_new hnew
  have hafter : t.toNat ≤ last.toNat := by
    by_contra hbefore
    rw [Nat.sub_eq_zero_of_le (by omega)] at hlast
    omega
  have hlatest : ∀ time ∈ early.map UInt64.toNat, time ≤ last.toNat := by
    rw [List.forall_mem_map]
    intro time htime
    by_contra hlater
    have hmore : refillMilliPerSec.toNat * (last.toNat - t.toNat) ≤
        refillMilliPerSec.toNat * (time.toNat - t.toNat) := Nat.mul_le_mul_left _ (by omega)
    have := hearly time htime
    omega
  have hown : (∃ e ∈ rateRun.trace (rateRun.final rl past) calls, e.1.1 = source ∧ e.2 = true) ↔
      ∃ e ∈ rateRun.trace (rateRun.final rl past) ((early ++ [last]).map fun now => (source, now)),
        e.2 = true := by
    rw [← hcalls, ← rateRun_filter]
    simp [and_assoc]
  rw [hown, poor_admitted_iff hcap hempty (Nat.zero_lt_succ _), hrate, (capped_of_new hnew source).2.2]
  have hend : refilledAt t.toNat ((early ++ [last]).map UInt64.toNat) = last.toNat := by
    rw [List.map_append]
    exact refilledAt_concat hafter hlatest
  rw [hend]
  have hzero : UInt32.toNat 0 = 0 := rfl
  dsimp only
  omega

/-- One token and one more per second: the source waits for a second between its attempts. -/
theorem retry_admitted_patient :
    (∃ e ∈ rateRun.trace (rateRun.final ⟨1000, 1000, ∅⟩ [(.v4 #v[10, 0, 0, 1], 0)])
        [(.v4 #v[10, 0, 0, 1], 500), (.v4 #v[10, 0, 0, 1], 1000)],
      e.1.1 = .v4 #v[10, 0, 0, 1] ∧ e.2 = true) :=
  (retry_admitted_iff (rfl : RateLimiter.new 1 1000 = some _) [(.v4 #v[10, 0, 0, 1], 0)]
    [(.v4 #v[10, 0, 0, 1], 500), (.v4 #v[10, 0, 0, 1], 1000)] (.v4 #v[10, 0, 0, 1]) 0 1000 rfl
    [500] rfl (List.forall_mem_singleton.mpr (by decide)) (by decide)).mpr (by decide)

/-- Under the default policy a source that has used up its burst tries again after one
millisecond. The attempt is rejected, and so is the one two seconds after the burst, by which the
rate has earned a token. -/
theorem retry_postponed :
    (rateRun.final .withDefaultPolicy (List.replicate 5 (.v4 #v[10, 0, 0, 1], 0))).buckets.lookup
      (.v4 #v[10, 0, 0, 1]) = some ⟨0, 0⟩ ∧
    10 ^ 6 ≤ defaultRefillMilliPerSec.toNat * 2000 ∧
    (rateRun.trace (rateRun.final .withDefaultPolicy
      (List.replicate 5 (.v4 #v[10, 0, 0, 1], 0)))
        [(.v4 #v[10, 0, 0, 1], 1), (.v4 #v[10, 0, 0, 1], 2000)]).map Prod.snd = [false, false] := by
  decide

end Desmos.Core
