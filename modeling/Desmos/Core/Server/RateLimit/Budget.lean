import Desmos.Core.Server.RateLimit
import Desmos.Library.Machine
import Desmos.Library.SortedMap

/-! # The budget of a source

What a bucket holds and may still earn pays for every call it admits. Amounts below are in
millionths of a token: a bucket counts thousandths, and the rate times the milliseconds that passed
is a thousand times finer.
-/
namespace Desmos.Core
open Library

def rateRun : Machine RateLimiter (IpAddr × UInt64) Bool := fun rl call => rl.tryAdmit call.1 call.2

namespace RateLimiter

variable {rl : RateLimiter} {source other : IpAddr} {nowMs t0 t1 : UInt64} {b : Bucket}

/-- What the bucket holds, and what the rate earns from its last refill to `t1`. -/
def worth (rl : RateLimiter) (t1 : UInt64) (b : Bucket) : ℕ :=
  1000 * b.tokensMilli.toNat + rl.refillMilliPerSec.toNat * (t1.toNat - b.lastRefillMs.toNat)

/-- The bucket of `source` holds at most the cap. -/
def Capped (rl : RateLimiter) (source : IpAddr) : Prop :=
  ∀ b, rl.buckets.lookup source = some b → b.tokensMilli ≤ rl.maxTokensMilli

theorem bucketOf_le (h : rl.Capped source) (nowMs : UInt64) :
    (rl.bucketOf source nowMs).tokensMilli ≤ rl.maxTokensMilli := by
  unfold bucketOf
  cases hb : rl.buckets.lookup source with
  | none => exact UInt32.le_refl _
  | some b => exact h b hb

/-- A refill adds what the rate earns since the last one, in whole thousandths and up to the cap.
The saturation of the 64-bit steps is out of reach of the 32-bit cap. -/
theorem toNat_refill (rl : RateLimiter) (b : Bucket) (h : b.lastRefillMs < nowMs) :
    (rl.refill b nowMs).tokensMilli.toNat =
      min (b.tokensMilli.toNat +
        rl.refillMilliPerSec.toNat * (nowMs.toNat - b.lastRefillMs.toNat) / 1000)
        rl.maxTokensMilli.toNat := by
  have hdt := UInt64.toNat_sub_of_le nowMs b.lastRefillMs (le_of_lt h)
  have hcap := rl.maxTokensMilli.toNat_lt
  have hthousand : UInt64.toNat 1000 = 1000 := rfl
  rw [refill, if_pos h, UInt64.toNat_toUInt32, toNat_min64, toNat_saturatingAdd64, UInt64.toNat_div,
    toNat_saturatingMul64, hdt, UInt32.toNat_toUInt64, UInt32.toNat_toUInt64,
    UInt32.toNat_toUInt64, hthousand, Nat.mod_eq_of_lt (by omega)]
  omega

theorem lastRefillMs_refill (rl : RateLimiter) (b : Bucket) (h : b.lastRefillMs < nowMs) :
    (rl.refill b nowMs).lastRefillMs = nowMs := by
  rw [refill, if_pos h]

theorem refill_of_le (rl : RateLimiter) {b : Bucket} (h : nowMs ≤ b.lastRefillMs) :
    rl.refill b nowMs = b := by
  rw [refill, if_neg (not_lt.mpr h)]

theorem refill_le (h : b.tokensMilli ≤ rl.maxTokensMilli) (nowMs : UInt64) :
    (rl.refill b nowMs).tokensMilli ≤ rl.maxTokensMilli := by
  rcases lt_or_ge b.lastRefillMs nowMs with hlater | hpast
  · rw [UInt32.le_iff_toNat_le, toNat_refill rl b hlater]
    exact min_le_right _ _
  · rw [refill_of_le rl hpast]
    exact h

theorem worth_refill_le (rl : RateLimiter) (b : Bucket) (hnow : nowMs ≤ t1) :
    rl.worth t1 (rl.refill b nowMs) ≤ rl.worth t1 b := by
  rcases lt_or_ge b.lastRefillMs nowMs with hlater | hpast
  · have hlt : b.lastRefillMs.toNat < nowMs.toNat := UInt64.lt_iff_toNat_lt.mp hlater
    have hle : nowMs.toNat ≤ t1.toNat := UInt64.le_iff_toNat_le.mp hnow
    have hsplit : rl.refillMilliPerSec.toNat * (t1.toNat - b.lastRefillMs.toNat) =
        rl.refillMilliPerSec.toNat * (nowMs.toNat - b.lastRefillMs.toNat) +
          rl.refillMilliPerSec.toNat * (t1.toNat - nowMs.toNat) := by
      rw [← Nat.mul_add]
      congr 1
      omega
    rw [worth, worth, toNat_refill rl b hlater, lastRefillMs_refill rl b hlater, hsplit]
    omega
  · rw [refill_of_le rl hpast]

/-- A call looks at one bucket and puts it back, a token poorer if the call is admitted. -/
theorem tryAdmit_eq (rl : RateLimiter) (source : IpAddr) (nowMs : UInt64) :
    let full := rl.refill (rl.bucketOf source nowMs) nowMs
    let admitted := decide (1000 ≤ full.tokensMilli)
    let left := { full with tokensMilli := full.tokensMilli - if admitted then 1000 else 0 }
    rl.tryAdmit source nowMs = (admitted, { rl with buckets := rl.buckets.insert source left }) := by
  intro full admitted left
  by_cases hge : 1000 ≤ full.tokensMilli
  · simp [tryAdmit, full, admitted, left, hge]
  · simp [tryAdmit, full, admitted, left, hge]

theorem lookup_tryAdmit_of_ne (h : source ≠ other) :
    (rl.tryAdmit other nowMs).2.buckets.lookup source = rl.buckets.lookup source := by
  rw [tryAdmit_eq]
  exact AList.lookup_insert_ne h

@[simp] theorem tryAdmit_maxTokensMilli :
    (rl.tryAdmit other nowMs).2.maxTokensMilli = rl.maxTokensMilli := by
  rw [tryAdmit_eq]

@[simp] theorem tryAdmit_refillMilliPerSec :
    (rl.tryAdmit other nowMs).2.refillMilliPerSec = rl.refillMilliPerSec := by
  rw [tryAdmit_eq]

theorem tryAdmit_spends (h : rl.Capped source) (nowMs t1 : UInt64) : ∃ b,
    (rl.tryAdmit source nowMs).2.buckets.lookup source = some b ∧
    b.tokensMilli ≤ rl.maxTokensMilli ∧
    b.lastRefillMs = (rl.refill (rl.bucketOf source nowMs) nowMs).lastRefillMs ∧
    1000000 * (rl.tryAdmit source nowMs).1.toNat + rl.worth t1 b =
      rl.worth t1 (rl.refill (rl.bucketOf source nowMs) nowMs) := by
  have hcap := refill_le (bucketOf_le h nowMs) nowMs
  rw [tryAdmit_eq]
  set full := rl.refill (rl.bucketOf source nowMs) nowMs
  refine ⟨_, AList.lookup_insert _, ?_, rfl, ?_⟩
  · by_cases hge : 1000 ≤ full.tokensMilli
    · have hsub := UInt32.toNat_sub_of_le _ _ hge
      have hle := UInt32.le_iff_toNat_le.mp hcap
      simp only [hge, decide_true, if_true, UInt32.le_iff_toNat_le, hsub]
      omega
    · simpa [hge] using hcap
  · by_cases hge : 1000 ≤ full.tokensMilli
    · have hsub := UInt32.toNat_sub_of_le _ _ hge
      have hge' := UInt32.le_iff_toNat_le.mp hge
      have hthousand : UInt32.toNat 1000 = 1000 := rfl
      simp only [worth, hge, decide_true, if_true, hsub, Bool.toNat_true]
      omega
    · simp [worth, hge]

@[simp] theorem worth_tryAdmit :
    (rl.tryAdmit other nowMs).2.worth t1 b = rl.worth t1 b := by
  rw [worth, worth, tryAdmit_refillMilliPerSec]

theorem Capped.tryAdmit (h : rl.Capped source) (nowMs : UInt64) :
    (rl.tryAdmit source nowMs).2.Capped source := by
  intro b hb
  obtain ⟨b', hb', hcap, -⟩ := tryAdmit_spends h nowMs nowMs
  rw [hb'] at hb
  cases hb
  rwa [tryAdmit_maxTokensMilli]

/-- A call sees no more of a limiter than the refilled bucket of its source. -/
theorem tryAdmit_congr {rl' : RateLimiter} (h : rl.refill (rl.bucketOf source nowMs) nowMs =
      rl'.refill (rl'.bucketOf source nowMs) nowMs) :
    (rl.tryAdmit source nowMs).1 = (rl'.tryAdmit source nowMs).1 ∧
    (rl.tryAdmit source nowMs).2.buckets.lookup source =
      (rl'.tryAdmit source nowMs).2.buckets.lookup source := by
  rw [tryAdmit_eq, tryAdmit_eq, h]
  exact ⟨rfl, by rw [AList.lookup_insert, AList.lookup_insert]⟩

/-- The limiters treat `source` alike from here on. -/
structure Alike (source : IpAddr) (rl rl' : RateLimiter) : Prop where
  maxTokensMilli : rl.maxTokensMilli = rl'.maxTokensMilli
  refillMilliPerSec : rl.refillMilliPerSec = rl'.refillMilliPerSec
  bucket : rl.buckets.lookup source = rl'.buckets.lookup source

theorem Alike.of_other {rl' : RateLimiter} (h : Alike source rl rl') (hne : source ≠ other) :
    Alike source (rl.tryAdmit other nowMs).2 rl' where
  maxTokensMilli := by rw [tryAdmit_maxTokensMilli, h.maxTokensMilli]
  refillMilliPerSec := by rw [tryAdmit_refillMilliPerSec, h.refillMilliPerSec]
  bucket := by rw [lookup_tryAdmit_of_ne hne, h.bucket]

theorem Alike.of_own {rl' : RateLimiter} (h : Alike source rl rl') :
    (rl.tryAdmit source nowMs).1 = (rl'.tryAdmit source nowMs).1 ∧
    Alike source (rl.tryAdmit source nowMs).2 (rl'.tryAdmit source nowMs).2 := by
  have hof : rl.bucketOf source nowMs = rl'.bucketOf source nowMs := by
    rw [bucketOf, bucketOf, h.bucket, h.maxTokensMilli]
  have hfill : rl.refill (rl.bucketOf source nowMs) nowMs =
      rl'.refill (rl'.bucketOf source nowMs) nowMs := by
    rw [hof, refill, refill, h.maxTokensMilli, h.refillMilliPerSec]
  obtain ⟨hanswer, hbucket⟩ := tryAdmit_congr hfill
  refine ⟨hanswer, ?_, ?_, hbucket⟩
  · rw [tryAdmit_maxTokensMilli, tryAdmit_maxTokensMilli, h.maxTokensMilli]
  · rw [tryAdmit_refillMilliPerSec, tryAdmit_refillMilliPerSec, h.refillMilliPerSec]

end RateLimiter

open RateLimiter

variable {rl : RateLimiter} {source : IpAddr} {t0 t1 : UInt64}

/-- A source gets the answers it would get if it were alone. -/
theorem rateRun_filter (rl : RateLimiter) (source : IpAddr) (calls : List (IpAddr × UInt64)) :
    (rateRun.trace rl calls).filter (fun e => e.1.1 = source) =
      rateRun.trace rl (calls.filter fun c => c.1 = source) := by
  apply Machine.trace_filter_of_blind (m := rateRun) (n := rateRun)
    (p := fun c => decide (c.1 = source)) (R := Alike source)
  · intro s t c hst hc
    exact hst.of_other fun h => by simp [h] at hc
  · intro s t c hst hc
    obtain rfl : c.1 = source := by simpa using hc
    exact hst.of_own
  · exact ⟨rfl, rfl, rfl⟩

variable {calls : List (IpAddr × UInt64)}

theorem rateRun_capped (hown : ∀ c ∈ calls, c.1 = source)
    (h : rl.Capped source) :
    (rateRun.final rl calls).Capped source ∧
    (rateRun.final rl calls).maxTokensMilli = rl.maxTokensMilli ∧
    (rateRun.final rl calls).refillMilliPerSec = rl.refillMilliPerSec := by
  induction calls generalizing rl with
  | nil => exact ⟨h, rfl, rfl⟩
  | cons c calls ih =>
    obtain rfl := hown c List.mem_cons_self
    have hrest := ih (fun d hd => hown d (List.mem_cons_of_mem _ hd)) (h.tryAdmit c.2)
    rw [tryAdmit_maxTokensMilli, tryAdmit_refillMilliPerSec] at hrest
    exact hrest

/-- An admitted call of the source between `t0` and `t1`. -/
def admittedWithin (source : IpAddr) (t0 t1 : UInt64) (e : (IpAddr × UInt64) × Bool) : Bool :=
  decide (e.1.1 = source ∧ t0 ≤ e.1.2 ∧ e.1.2 ≤ t1) && e.2

theorem admittedWithin_le (source : IpAddr) (t0 t1 : UInt64) (c : IpAddr × UInt64)
    (admitted : Bool) :
    (admittedWithin source t0 t1 (c, admitted)).toNat ≤ admitted.toNat := by
  cases admitted with
  | false => simp [admittedWithin]
  | true => exact Bool.toNat_le _

theorem spent_le_worth (t0 : UInt64) {b : Bucket}
    (hcalls : ∀ c ∈ calls, c.1 = source ∧ c.2 ≤ t1) (hcap : rl.Capped source)
    (hb : rl.buckets.lookup source = some b) :
    1000000 * (rateRun.trace rl calls).countP (admittedWithin source t0 t1) ≤ rl.worth t1 b := by
  have hpotential := Machine.countP_le_potential (m := rateRun)
    (p := admittedWithin source t0 t1) (q := fun c => c.1 = source ∧ c.2 ≤ t1)
    (I := fun s => s.Capped source ∧ (s.buckets.lookup source).isSome)
    (fun s => ((s.buckets.lookup source).map (s.worth t1)).getD 0) 1000000
    ?_ ⟨hcap, by simp [hb]⟩ hcalls
  · simpa [hb] using hpotential
  · intro s c hI hc
    obtain rfl := hc.1
    obtain ⟨before, hbefore⟩ := Option.isSome_iff_exists.mp hI.2
    obtain ⟨left, hleft, -, -, hworth⟩ := tryAdmit_spends hI.1 c.2 t1
    have hof : s.bucketOf c.1 c.2 = before := by rw [bucketOf, hbefore, Option.getD_some]
    have hrefill := worth_refill_le s before hc.2
    have hcounted := admittedWithin_le c.1 t0 t1 c (s.tryAdmit c.1 c.2).1
    have hnext : (s.tryAdmit c.1 c.2).2.Capped c.1 ∧
        ((s.tryAdmit c.1 c.2).2.buckets.lookup c.1).isSome := by
      rw [hleft]
      exact ⟨hI.1.tryAdmit c.2, rfl⟩
    refine ⟨hnext, ?_⟩
    simp only [rateRun, hbefore, hleft, Option.map_some, Option.getD_some, worth_tryAdmit]
    rw [hof] at hworth
    omega

theorem spent_le_budget
    (hcalls : ∀ c ∈ calls, c.1 = source ∧ t0 ≤ c.2 ∧ c.2 ≤ t1) (hcap : rl.Capped source) :
    1000000 * (rateRun.trace rl calls).countP (admittedWithin source t0 t1) ≤
      1000 * rl.maxTokensMilli.toNat + rl.refillMilliPerSec.toNat * (t1.toNat - t0.toNat) := by
  cases calls with
  | nil => simp [Machine.trace]
  | cons c calls =>
    obtain ⟨rfl, ht0, ht1⟩ := hcalls c List.mem_cons_self
    obtain ⟨b, hb, -, hlast, hworth⟩ := tryAdmit_spends hcap c.2 t1
    have hlater : ∀ d ∈ calls, d.1 = c.1 ∧ d.2 ≤ t1 := fun d hd =>
      ⟨(hcalls d (List.mem_cons_of_mem _ hd)).1, (hcalls d (List.mem_cons_of_mem _ hd)).2.2⟩
    have hrest := spent_le_worth t0 hlater (hcap.tryAdmit c.2) hb
    have hfull := UInt32.le_iff_toNat_le.mp (refill_le (bucketOf_le hcap c.2) c.2)
    have hlate : t0 ≤ (rl.refill (rl.bucketOf c.1 c.2) c.2).lastRefillMs := by
      unfold refill
      split
      · exact ht0
      · next h => exact le_trans ht0 (not_lt.mp h)
    have hearn : rl.refillMilliPerSec.toNat *
        (t1.toNat - (rl.refill (rl.bucketOf c.1 c.2) c.2).lastRefillMs.toNat) ≤
        rl.refillMilliPerSec.toNat * (t1.toNat - t0.toNat) := by
      apply Nat.mul_le_mul_left
      have := UInt64.le_iff_toNat_le.mp hlate
      omega
    have hcounted := admittedWithin_le c.1 t0 t1 c (rl.tryAdmit c.1 c.2).1
    have hcount : (rateRun.trace rl (c :: calls)).countP (admittedWithin c.1 t0 t1) =
        (rateRun.trace (rl.tryAdmit c.1 c.2).2 calls).countP (admittedWithin c.1 t0 t1) +
          (admittedWithin c.1 t0 t1 (c, (rl.tryAdmit c.1 c.2).1)).toNat := by
      rw [Machine.trace_cons, List.countP_cons, Bool.toNat, Bool.cond_eq_ite]
      rfl
    rw [worth_tryAdmit] at hrest
    simp only [worth] at hworth hrest
    omega

theorem countP_admittedWithin_eq_zero
    (h : ∀ c ∈ calls, ¬ (t0 ≤ c.2 ∧ c.2 ≤ t1)) :
    (rateRun.trace rl calls).countP (admittedWithin source t0 t1) = 0 := by
  induction calls generalizing rl with
  | nil => rfl
  | cons c calls ih =>
    have hc := h c List.mem_cons_self
    rw [Machine.trace_cons, List.countP_cons_of_neg, ih fun d hd => h d (List.mem_cons_of_mem _ hd)]
    simp only [admittedWithin, Bool.and_eq_true, decide_eq_true_eq]
    exact fun hadmitted => hc hadmitted.1.2

theorem own_spent_le_budget (t0 t1 : UInt64)
    (hown : ∀ c ∈ calls, c.1 = source)
    (hmono : calls.Pairwise fun c d => c.2 ≤ d.2) (hcap : rl.Capped source) :
    1000000 * (rateRun.trace rl calls).countP (admittedWithin source t0 t1) ≤
      1000 * rl.maxTokensMilli.toNat + rl.refillMilliPerSec.toNat * (t1.toNat - t0.toNat) := by
  obtain ⟨upTo, after, rfl, hupTo, hafter⟩ := exists_split_of_pairwise
    (p := fun c : IpAddr × UInt64 => c.2 ≤ t1) (hmono.imp fun hcd hd => le_trans hcd hd)
  obtain ⟨before, within, rfl, hbefore, hwithin⟩ := exists_split_of_pairwise
    (p := fun c : IpAddr × UInt64 => c.2 < t0)
    ((List.pairwise_append.mp hmono).1.imp fun hcd hd => lt_of_le_of_lt hcd hd)
  have hearly : ∀ c ∈ before, c.1 = source := fun c hc =>
    hown c (List.mem_append_left _ (List.mem_append_left _ hc))
  have hin : ∀ c ∈ within, c.1 = source ∧ t0 ≤ c.2 ∧ c.2 ≤ t1 := fun c hc =>
    ⟨hown c (List.mem_append_left _ (List.mem_append_right _ hc)), not_lt.mp (hwithin c hc),
      hupTo c (List.mem_append_right _ hc)⟩
  have hstart := rateRun_capped hearly hcap
  have hspan := spent_le_budget hin hstart.1
  rw [Machine.trace_append, Machine.trace_append, List.countP_append, List.countP_append,
    countP_admittedWithin_eq_zero fun c hc h => not_le.mpr (hbefore c hc) h.1,
    countP_admittedWithin_eq_zero fun c hc h => hafter c hc h.2]
  rw [hstart.2.1, hstart.2.2] at hspan
  simpa using hspan

theorem capped_of_new {maxTokens refillMilliPerSec : UInt32}
    (h : RateLimiter.new maxTokens refillMilliPerSec = some rl) (source : IpAddr) :
    rl.Capped source ∧ rl.maxTokensMilli.toNat ≤ 1000 * maxTokens.toNat ∧
      rl.refillMilliPerSec = refillMilliPerSec := by
  unfold RateLimiter.new at h
  split at h
  · cases h
  · cases h
    have hsat := toNat_saturatingMul32 maxTokens 1000
    have hthousand : UInt32.toNat 1000 = 1000 := rfl
    rw [hthousand] at hsat
    exact ⟨fun b hb => absurd hb (by simp), by dsimp only; omega, rfl⟩

/-- In no span of time does a source get more than its burst and what the rate earns in the
span, and it gets exactly what it would get without the calls of the others. -/
theorem rate_limit_enforced {maxTokens refillMilliPerSec : UInt32}
    (hnew : RateLimiter.new maxTokens refillMilliPerSec = some rl) (source : IpAddr)
    (calls : List (IpAddr × UInt64)) (hmono : calls.Pairwise fun c d => c.2 ≤ d.2)
    (t0 t1 : UInt64) :
    (rateRun.trace rl calls).countP (admittedWithin source t0 t1) ≤
      maxTokens.toNat + refillMilliPerSec.toNat * (t1.toNat - t0.toNat) / 10 ^ 6 ∧
    (rateRun.trace rl calls).filter (fun e => e.1.1 = source) =
      rateRun.trace rl (calls.filter fun c => c.1 = source) := by
  refine ⟨?_, rateRun_filter rl source calls⟩
  obtain ⟨hcap, hmax, hrate⟩ := capped_of_new hnew source
  have hown : (rateRun.trace rl calls).countP (admittedWithin source t0 t1) =
      (rateRun.trace rl (calls.filter fun c => c.1 = source)).countP
        (admittedWithin source t0 t1) := by
    rw [← rateRun_filter, List.countP_filter]
    apply List.countP_congr
    intro e _
    simp only [admittedWithin, Bool.and_eq_true, decide_eq_true_eq]
    exact ⟨fun h => ⟨h, h.1.1⟩, And.left⟩
  have hfiltered : ∀ c ∈ calls.filter fun c => c.1 = source, c.1 = source := fun c hc => by
    simpa using (List.mem_filter.mp hc).2
  have hspent := own_spent_le_budget t0 t1 hfiltered (hmono.filter _) hcap
  rw [hrate] at hspent
  omega

/-- Two tokens and one more per second: of five calls within a second, three get through. -/
theorem burst_and_refill_admitted :
    (rateRun.trace ⟨2000, 1000, ∅⟩ [(.v4 #v[10, 0, 0, 1], 0), (.v4 #v[10, 0, 0, 1], 0),
      (.v4 #v[10, 0, 0, 2], 1), (.v4 #v[10, 0, 0, 1], 999), (.v4 #v[10, 0, 0, 1], 1000)]).map
        Prod.snd = [true, true, true, false, true] ∧
    (rateRun.trace ⟨2000, 1000, ∅⟩ [(.v4 #v[10, 0, 0, 1], 0), (.v4 #v[10, 0, 0, 1], 0),
      (.v4 #v[10, 0, 0, 2], 1), (.v4 #v[10, 0, 0, 1], 999), (.v4 #v[10, 0, 0, 1], 1000)]).countP
        (admittedWithin (.v4 #v[10, 0, 0, 1]) 0 1000) ≤ 3 :=
  ⟨by decide, (rate_limit_enforced (rfl : RateLimiter.new 2 1000 = some _)
    (.v4 #v[10, 0, 0, 1]) _ (by decide) 0 1000).1⟩

end Desmos.Core
