import Desmos.Core.Bonding.LinkState.History

/-! # Streaks that survive a change of state

`on_probe` clears all three streaks when it changes the state, `tick` only the one that counts
towards recovery. So a link that a tick makes healthy may carry a streak of losses over.
-/
namespace Desmos.Core
open Library

/-- The samples that a probe has to complete before it moves a link into the state. A probation ends
by the clock, whatever the sample. -/
def LinkState.evidence : LinkState → List ProbeSample
  | .dead => List.replicate 3 .noResponse
  | .degraded => List.replicate 5 .highLoss
  | .probation _ => List.replicate 3 .good
  | .healthy => []

/-- Every change that a probe makes is justified by samples that came in after the machine had
entered the state it leaves. -/
def CleanSlate (trap : Bool) (run : List LinkCall) : Prop :=
  ∀ past c rest, run = past ++ c :: rest → c.sample?.isSome → ∀ before after,
    stateAfter trap past = some before → stateAfter trap (past ++ [c]) = some after →
    after ≠ before → ∃ early late, past = early ++ late ∧ StateSince trap before early late ∧
      after.evidence <:+ samples (late ++ [c])

/-- Every tick that comes when the probation is over finds the link without a streak of losses. -/
def HealsClean (trap : Bool) (run : List LinkCall) : Prop :=
  ∀ past nowMs rest m untilMs, run = past ++ .tick nowMs :: rest →
    (linkRun trap).final (some .new) past = some m → m.state = .probation untilMs →
    untilMs ≤ nowMs → m.highLossStreak = 0 ∧ m.noResponseStreak = 0

variable {trap : Bool} {past front : List LinkCall} {m : LinkStateMachine}

theorem HealsClean.of_append {more : List LinkCall}
    (h : HealsClean trap (past ++ more)) : HealsClean trap past := by
  intro early nowMs rest m untilMs hpast
  exact h early nowMs (rest ++ more) m untilMs (by rw [hpast]; simp)

variable {sample : ProbeSample}

namespace LinkStateMachine

/-- All streaks of the machine are streaks of its current state. -/
def Fresh (trap : Bool) (past : List LinkCall) (m : LinkStateMachine) : Prop :=
  ∃ early late, past = early ++ late ∧ StateSince trap m.state early late ∧
    ∀ sample, List.replicate (m.streak sample).toNat sample <:+ samples late

section Fresh
variable {trap : Bool} {past : List LinkCall} {m m' : LinkStateMachine} {c : LinkCall}

theorem fresh_of_streaks_zero (hm : (linkRun trap).final (some new) past = some m)
    (hzero : ∀ sample, m.streak sample = 0) : Fresh trap past m := by
  refine ⟨past, [], by simp, Machine.HeldSince.start (by rw [hm]; rfl), fun sample => ?_⟩
  rw [hzero]
  exact List.nil_suffix

theorem Fresh.step (h : Fresh trap past m)
    (hm' : (linkRun trap).final (some new) (past ++ [c]) = some m') (hstep : Step trap m c m')
    (hclean : ∀ nowMs untilMs, c = .tick nowMs → m.state = .probation untilMs →
      untilMs ≤ nowMs → m.highLossStreak = 0 ∧ m.noResponseStreak = 0) :
    Fresh trap (past ++ [c]) m' := by
  have hnow : stateAfter trap (past ++ [c]) = some m'.state := by rw [stateAfter, hm']; rfl
  obtain ⟨early, late, rfl, hsince, hstreaks⟩ := h
  cases hstep with
  | count sample nowMs =>
    refine ⟨early, late ++ [.onProbe sample nowMs], by simp, ?_, fun other => ?_⟩
    · rw [count_state] at hnow ⊢
      exact hsince.concat hnow
    · simpa using streaks_count sample other (hstreaks other)
  | move sample nowMs next hne hmove => exact fresh_of_streaks_zero hm' (streak_new_with next)
  | heal nowMs untilMs hs huntil =>
    obtain ⟨hloss, hsilence⟩ := hclean nowMs untilMs rfl hs huntil
    apply fresh_of_streaks_zero hm'
    intro sample
    cases sample with
    | good => rfl
    | highLoss => exact hloss
    | noResponse => exact hsilence
  | idle nowMs =>
    refine ⟨early, late ++ [.tick nowMs], by simp, ?_, fun other => ?_⟩
    · exact hsince.concat hnow
    · simpa using hstreaks other

theorem run_fresh (hclean : HealsClean trap past)
    (hm : (linkRun trap).final (some new) past = some m) : Fresh trap past m := by
  induction past using List.reverseRecOn generalizing m with
  | nil =>
    cases hm
    exact fresh_of_streaks_zero rfl (streak_new_with .healthy)
  | append_singleton past c ih =>
    have hlast := hm
    rw [Machine.final_concat] at hlast
    obtain ⟨before, hbefore, hstep⟩ := linkRun_next hlast
    apply (ih hclean.of_append hbefore).step hm hstep
    rintro nowMs untilMs rfl
    exact hclean past nowMs [] before untilMs rfl hbefore

theorem Fresh.evidence (h : Fresh trap past m) {nowMs : UInt64}
    {next : LinkState} (hmove : Moves trap (m.count sample) nowMs next) :
    ∃ early late, past = early ++ late ∧ StateSince trap m.state early late ∧
      next.evidence <:+ samples (late ++ [.onProbe sample nowMs]) := by
  obtain ⟨early, late, hpast, hsince, hstreaks⟩ := h
  have hends {other : ProbeSample} {n : ℕ} (hn : n ≤ ((m.count sample).streak other).toNat) :
      List.replicate n other <:+ samples (late ++ [.onProbe sample nowMs]) := by
    rw [samples_append, samples_onProbe]
    exact (replicate_suffix_replicate other hn).trans (streaks_count sample other (hstreaks other))
  refine ⟨early, late, hpast, hsince, ?_⟩
  cases hmove with
  | dies hs hstreak => exact hends hstreak
  | degrades hs hstreak => exact hends hstreak
  | recovers untilMs hs hstreak huntil => exact hends hstreak
  | heals untilMs hs huntil => exact List.nil_suffix

end Fresh

end LinkStateMachine

open LinkStateMachine

theorem cleanSlate_of_healsClean {run : List LinkCall} (h : HealsClean trap run) :
    CleanSlate trap run := by
  rintro past c rest rfl hprobe before after hbefore hafter hne
  obtain ⟨m', hm', rfl⟩ := Option.map_eq_some_iff.mp hafter
  rw [Machine.final_concat] at hm'
  obtain ⟨m, hm, hstep⟩ := linkRun_next hm'
  obtain rfl : m.state = before := by simpa [stateAfter, hm] using hbefore
  have hfresh := run_fresh h.of_append hm
  cases hstep with
  | count sample nowMs => exact absurd (count_state m sample) hne
  | move sample nowMs next hnext hmove => exact hfresh.evidence hmove
  | heal nowMs untilMs hs huntil => cases hprobe
  | idle nowMs => cases hprobe

/-- The streak that demotes a healthy link. -/
def lossLimit : ProbeSample → ℕ
  | .noResponse => 3
  | _ => 5

def demoted : ProbeSample → LinkState
  | .noResponse => .dead
  | _ => .degraded

theorem demoted_evidence (h : sample ≠ .good) :
    (demoted sample).evidence = List.replicate (lossLimit sample) sample := by
  cases sample with
  | good => exact absurd rfl h
  | highLoss => rfl
  | noResponse => rfl

section Losses
variable {trap : Bool} {m : LinkStateMachine} {sample : ProbeSample}

theorem computeNext_loss (trap : Bool) (hs : m.state = .healthy) (hloss : sample ≠ .good)
    (nowMs : UInt64) :
    (m.count sample).computeNext trap nowMs =
      some (if lossLimit sample ≤ (m.streak sample).toNat + 1 then demoted sample
        else .healthy) := by
  have hone : UInt8.toNat 1 = 1 := rfl
  cases sample with
  | good => exact absurd rfl hloss
  | highLoss =>
    have hlimit : highLossStreakThreshold ≤ saturatingAdd8 m.highLossStreak 1 ↔
        5 ≤ m.highLossStreak.toNat + 1 := by
      rw [UInt8.le_iff_toNat_le, toNat_saturatingAdd8,
        show highLossStreakThreshold.toNat = 5 from rfl]
      omega
    have hcleared : ¬ noResponseStreakThreshold ≤ 0 := by decide
    simp only [count, computeNext, hs, hcleared, if_false, hlimit, lossLimit, demoted, streak]
    exact (apply_ite some _ _ _).symm
  | noResponse =>
    have hlimit : noResponseStreakThreshold ≤ saturatingAdd8 m.noResponseStreak 1 ↔
        3 ≤ m.noResponseStreak.toNat + 1 := by
      rw [UInt8.le_iff_toNat_le, toNat_saturatingAdd8,
        show noResponseStreakThreshold.toNat = 3 from rfl]
      omega
    have hcleared : ¬ highLossStreakThreshold ≤ 0 := by decide
    simp only [count, computeNext, hs, hcleared, if_false, hlimit, lossLimit, demoted, streak]
    exact (apply_ite some _ _ _).symm

theorem linkRun_loss (hs : m.state = .healthy) (hloss : sample ≠ .good) (nowMs : UInt64) :
    (linkRun trap (some m) (.onProbe sample nowMs)).2 =
      some (if lossLimit sample ≤ (m.streak sample).toNat + 1 then
        { LinkStateMachine.new with state := demoted sample } else m.count sample) := by
  have hdemoted : demoted sample ≠ .healthy := by
    cases sample <;> decide
  have hnext := computeNext_loss trap hs hloss nowMs
  by_cases hlimit : lossLimit sample ≤ (m.streak sample).toNat + 1
  · rw [if_pos hlimit] at hnext ⊢
    simp [linkRun, call, onProbe, hnext, hs, hdemoted, LinkStateMachine.new]
  · rw [if_neg hlimit] at hnext ⊢
    simp [linkRun, call, onProbe, hnext, hs]

theorem demoted_within (trap : Bool) (hloss : sample ≠ .good) (nowMs : UInt64) {n : ℕ}
    (hs : m.state = .healthy) (hn : lossLimit sample ≤ (m.streak sample).toNat + n + 1) :
    ∃ k ≤ n, ∃ m', (linkRun trap).final (some m) (List.replicate k (.onProbe sample nowMs)) =
        some m' ∧ m'.state = .healthy ∧
      (linkRun trap (some m') (.onProbe sample nowMs)).2 =
        some { LinkStateMachine.new with state := demoted sample } := by
  induction n generalizing m with
  | zero => exact ⟨0, le_rfl, m, rfl, hs, by rw [linkRun_loss hs hloss, if_pos (by omega)]⟩
  | succ n ih =>
    by_cases hlimit : lossLimit sample ≤ (m.streak sample).toNat + 1
    · exact ⟨0, by omega, m, rfl, hs, by rw [linkRun_loss hs hloss, if_pos hlimit]⟩
    · have hcount : ((m.count sample).streak sample).toNat = (m.streak sample).toNat + 1 := by
        have hone : UInt8.toNat 1 = 1 := rfl
        have hsmall : lossLimit sample ≤ 5 := by cases sample <;> decide
        rw [streak_count, if_pos rfl, toNat_saturatingAdd8]
        omega
      have hs' : (m.count sample).state = .healthy := (count_state m sample).trans hs
      obtain ⟨k, hk, m', hm', hstill, hlast⟩ := ih hs' (by omega)
      refine ⟨k + 1, by omega, m', ?_, hstill, hlast⟩
      rw [List.replicate_succ, Machine.final_cons, linkRun_loss hs hloss, if_neg hlimit, hm']

end Losses

theorem length_of_stateSince {st : LinkState} {early late back : List LinkCall}
    (hsince : StateSince trap st early late) (hfront : stateAfter trap front ≠ some st)
    (hsplit : early ++ late = front ++ back) : late.length < back.length := by
  by_contra hlong
  have hlen := congrArg List.length hsplit
  rw [List.length_append, List.length_append] at hlen
  obtain ⟨mid, rfl⟩ : ∃ mid, front = early ++ mid := by
    have hearly : early <+: front ++ back := ⟨late, hsplit⟩
    exact (List.prefix_of_prefix_length_le hearly (List.prefix_append _ _) (by omega)).imp
      fun _ h => h.symm
  apply hfront
  apply hsince mid
  rw [List.append_assoc] at hsplit
  exact ⟨back, (List.append_cancel_left hsplit).symm⟩

theorem length_samples_le (calls : List LinkCall) : (samples calls).length ≤ calls.length :=
  List.length_filterMap_le _ _

theorem not_cleanSlate_of_carried {c : LinkCall} (hfront : stateAfter trap front ≠ some .healthy)
    (hm : (linkRun trap).final (some .new) (front ++ [c]) = some m) (hs : m.state = .healthy)
    (hloss : sample ≠ .good) (hpending : m.streak sample ≠ 0) :
    ∃ probes, (∀ c ∈ probes, c.sample?.isSome) ∧ ¬ CleanSlate trap (front ++ [c] ++ probes) := by
  have hpos : (m.streak sample).toNat ≠ 0 := fun h => hpending (UInt8.toNat_inj.mp h)
  have hlimit : 2 ≤ lossLimit sample := by cases sample <;> decide
  -- one loss is carried over, so one fewer than the limit is enough
  have hfew : lossLimit sample ≤ (m.streak sample).toNat + (lossLimit sample - 2) + 1 := by omega
  obtain ⟨k, hk, m', hm', hs', hlast⟩ := demoted_within trap hloss 0 hs hfew
  set losses := List.replicate k (LinkCall.onProbe sample 0) with hlosses
  refine ⟨losses ++ [.onProbe sample 0], ?_, fun hclean => ?_⟩
  · rw [hlosses, ← List.replicate_succ']
    intro c hc
    rw [List.eq_of_mem_replicate hc]
    rfl
  have hbefore : (linkRun trap).final (some .new) (front ++ [c] ++ losses) = some m' := by
    rw [Machine.final_append, hm, hm']
  have hhealthy : stateAfter trap (front ++ [c] ++ losses) = some .healthy := by
    rw [stateAfter, hbefore, Option.map_some, hs']
  have hdemoted : stateAfter trap (front ++ [c] ++ losses ++ [.onProbe sample 0]) =
      some (demoted sample) := by
    rw [stateAfter, Machine.final_concat, hbefore, hlast]
    rfl
  obtain ⟨early, late, hsplit, hsince, hevidence⟩ := hclean _ _ [] (by simp) rfl _ _ hhealthy
    hdemoted (by cases sample <;> decide)
  have hbehind : early ++ late = front ++ (c :: losses) := by
    rw [← hsplit]
    simp
  have hshort := length_of_stateSince hsince hfront hbehind
  rw [demoted_evidence hloss] at hevidence
  have henough := hevidence.length_le
  have hlength := length_samples_le (late ++ [.onProbe sample 0])
  rw [List.length_append, List.length_singleton] at hlength
  rw [List.length_replicate] at henough
  rw [List.length_cons, hlosses, List.length_replicate] at hshort
  omega

theorem not_cleanSlate_of_tick
    {nowMs untilMs : UInt64} (hm : (linkRun trap).final (some .new) past = some m)
    (hs : m.state = .probation untilMs) (huntil : untilMs ≤ nowMs) (sample : ProbeSample)
    (hloss : sample ≠ .good) (hpending : m.streak sample ≠ 0) :
    ∃ probes, (∀ c ∈ probes, c.sample?.isSome) ∧
      ¬ CleanSlate trap (past ++ [.tick nowMs] ++ probes) := by
  have hfront : stateAfter trap past ≠ some .healthy := by
    rw [stateAfter, hm, Option.map_some, hs]
    simp
  have hticked : (linkRun trap).final (some .new) (past ++ [.tick nowMs]) =
      some { m with state := .healthy, recoveryStreak := 0 } := by
    rw [Machine.final_concat, hm]
    simp [linkRun, call, tick, hs, huntil]
  apply not_cleanSlate_of_carried hfront hticked rfl hloss
  cases sample with
  | good => exact absurd rfl hloss
  | highLoss => exact hpending
  | noResponse => exact hpending

theorem HealsClean.append_probes {probes : List LinkCall}
    (h : HealsClean trap past) (hprobes : ∀ c ∈ probes, c.sample?.isSome) :
    HealsClean trap (past ++ probes) := by
  intro early nowMs rest m untilMs hsplit
  rcases List.append_eq_append_iff.mp hsplit with ⟨mid, rfl, hback⟩ | ⟨mid, hfront, hback⟩
  · have hmem : LinkCall.tick nowMs ∈ probes := by simp [hback]
    cases hprobes _ hmem
  · cases mid with
    | nil =>
      rw [List.nil_append] at hback
      have hmem : LinkCall.tick nowMs ∈ probes := by simp [← hback]
      cases hprobes _ hmem
    | cons c mid =>
      obtain ⟨rfl, hrest⟩ := List.cons.inj hback
      exact h early nowMs mid m untilMs hfront

/-- Whatever probes follow the calls of a run, or of any part of it up to some call, the changes
they make are justified in the current state exactly when every tick of the run that ends a
probation finds the link without a streak of losses. -/
theorem cleanSlate_iff (trap : Bool) (run : List LinkCall) :
    (∀ past, past <+: run → ∀ probes, (∀ c ∈ probes, c.sample?.isSome) →
      CleanSlate trap (past ++ probes)) ↔ HealsClean trap run := by
  constructor
  · intro h past nowMs rest m untilMs hrun hm hs huntil
    have hpart : past ++ [.tick nowMs] <+: run := ⟨rest, by rw [hrun]; simp⟩
    have hzero : ∀ sample, sample ≠ .good → m.streak sample = 0 := by
      intro sample hloss
      by_contra hpending
      obtain ⟨probes, hprobes, hnot⟩ := not_cleanSlate_of_tick hm hs huntil sample hloss hpending
      exact hnot (h _ hpart probes hprobes)
    exact ⟨hzero .highLoss (by decide), hzero .noResponse (by decide)⟩
  · rintro h past ⟨rest, rfl⟩ probes hprobes
    exact cleanSlate_of_healsClean (h.of_append.append_probes hprobes)

/-- A link that recovers, loses packets in its probation and is healed by a tick. -/
def Sample.healedAfterLosses : List LinkCall :=
  Sample.recoveryAt 0 ++ List.replicate 4 (.onProbe .highLoss 0) ++ [.tick 10000]

/-- One sample later the link is degraded, for the losses of its probation. -/
theorem degraded_after_one_loss :
    stateAfter true Sample.healedAfterLosses = some .healthy ∧
    stateAfter true (Sample.healedAfterLosses ++ [.onProbe .highLoss 10000]) = some .degraded ∧
    ¬ CleanSlate true (Sample.healedAfterLosses ++ [.onProbe .highLoss 10000]) := by
  refine ⟨rfl, rfl, fun h => ?_⟩
  obtain ⟨early, late, hsplit, hsince, hevidence⟩ := h Sample.healedAfterLosses _ [] rfl rfl
    .healthy .degraded rfl rfl nofun
  have hfront : stateAfter true (Sample.recoveryAt 0 ++
      List.replicate 4 (.onProbe .highLoss 0)) ≠ some .healthy := by decide
  have hshort := length_of_stateSince hsince hfront hsplit.symm
  obtain rfl : late = [] := List.length_eq_zero_iff.mp (Nat.lt_one_iff.mp hshort)
  exact absurd hevidence.length_le (by decide)

end Desmos.Core
