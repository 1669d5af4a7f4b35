import Desmos.Core.Bonding.LinkState

/-! # Why a link changes its health

A streak counter never exceeds the run of equal samples that ends the history, and the state of the
machine has held since a known call. Every change of state is explained by these two facts.
-/
namespace Desmos.Core
open Library

variable {α : Type*} {n k : ℕ} {t : UInt64}

theorem replicate_suffix_replicate (a : α) (h : n ≤ k) :
    List.replicate n a <:+ List.replicate k a :=
  List.suffix_replicate_iff.mpr ⟨by simpa using h, by simp⟩

theorem replicate_suffix_concat {a : α} {l : List α}
    (h : List.replicate k a <:+ l) (hn : n ≤ k + 1) : List.replicate n a <:+ l ++ [a] := by
  obtain ⟨front, rfl⟩ := h
  apply (replicate_suffix_replicate a hn).trans
  rw [List.replicate_succ', List.append_assoc]
  exact List.suffix_append _ _

@[simp] theorem samples_append (calls more : List LinkCall) :
    samples (calls ++ more) = samples calls ++ samples more :=
  List.filterMap_append

@[simp] theorem samples_onProbe (sample : ProbeSample) (nowMs : UInt64) :
    samples [.onProbe sample nowMs] = [sample] := rfl

@[simp] theorem samples_tick (nowMs : UInt64) : samples [.tick nowMs] = [] := rfl

/-- The state after a run of calls on a new machine; nothing after a panic. -/
def stateAfter (trap : Bool) (calls : List LinkCall) : Option LinkState :=
  ((linkRun trap).final (some .new) calls).map LinkStateMachine.state

/-- The machine has been in the state since the end of `early`, and still is at the end
of `late`. -/
abbrev StateSince (trap : Bool) (st : LinkState) (early late : List LinkCall) : Prop :=
  (linkRun trap).HeldSince (some .new) (fun s => s.map LinkStateMachine.state = some st) early late

/-- The documented reasons for the change that the call `c` makes after the calls `past`. -/
structure Documented (trap : Bool) (past : List LinkCall) (c : LinkCall)
    (before after : LinkState) : Prop where
  dead : after = .dead → before ≠ .dead →
    c.sample?.isSome ∧ List.replicate 3 .noResponse <:+ samples (past ++ [c])
  degraded : after = .degraded → before ≠ .degraded →
    c.sample?.isSome ∧ List.replicate 5 .highLoss <:+ samples (past ++ [c]) ∧ before ≠ .dead
  revived : before = .dead → after ≠ .dead →
    (∃ untilMs, after = .probation untilMs) ∧
    ∃ early late, past = early ++ late ∧ StateSince trap .dead early late ∧
      List.replicate 3 .good <:+ samples (late ++ [c])
  healthy : after = .healthy → before ≠ .healthy → ∃ untilMs, before = .probation untilMs ∧
    ∃ early entry late, past = early ++ entry :: late ∧
      (∀ untilMs, stateAfter trap early ≠ some (.probation untilMs)) ∧
      StateSince trap (.probation untilMs) (early ++ [entry]) late ∧
      entry.nowMs.toNat + 10000 ≤ c.nowMs.toNat

/-- Every change of state along a run from a new machine has a documented reason. -/
def HealthDocumented (trap : Bool) (run : List LinkCall) : Prop :=
  ∀ past c rest, run = past ++ c :: rest → ∀ before after,
    stateAfter trap past = some before → stateAfter trap (past ++ [c]) = some after →
    Documented trap past c before after

variable {m : LinkStateMachine} {trap : Bool} {past : List LinkCall} {c : LinkCall}

namespace LinkStateMachine

/-- What the counters and the state of a machine say about the calls it has seen. -/
structure Tracks (trap : Bool) (past : List LinkCall) (m : LinkStateMachine) : Prop where
  streaks : ∀ sample, List.replicate (m.streak sample).toNat sample <:+ samples past
  stretch : ∃ early late, past = early ++ late ∧ StateSince trap m.state early late ∧
    List.replicate (m.streak .good).toNat .good <:+ samples late ∧
    ∀ untilMs, m.state = .probation untilMs → ∃ before entry, early = before ++ [entry] ∧
      (∀ untilMs, stateAfter trap before ≠ some (.probation untilMs)) ∧
      U64.add trap entry.nowMs probationMs = some untilMs

theorem streak_new_with (st : LinkState) (sample : ProbeSample) :
    ({ new with state := st } : LinkStateMachine).streak sample = 0 := by
  cases sample <;> rfl

theorem streaks_count {l : List ProbeSample} (sample other : ProbeSample)
    (h : List.replicate (m.streak other).toNat other <:+ l) :
    List.replicate ((m.count sample).streak other).toNat other <:+ l ++ [sample] := by
  rw [streak_count]
  by_cases ho : other = sample
  · subst ho
    rw [if_pos rfl]
    apply replicate_suffix_concat h
    rw [toNat_saturatingAdd8]
    exact min_le_left _ _
  · rw [if_neg ho]
    exact List.nil_suffix

theorem new_tracks (trap : Bool) : Tracks trap [] new where
  streaks sample := by cases sample <;> exact List.nil_suffix
  stretch := ⟨[], [], rfl, Machine.HeldSince.start rfl, List.nil_suffix, fun _ h => by cases h⟩

variable {m' : LinkStateMachine} {sample : ProbeSample} {nowMs : UInt64}

theorem Tracks.step (h : Tracks trap past m) (hm : (linkRun trap).final (some new) past = some m)
    (hm' : (linkRun trap).final (some new) (past ++ [c]) = some m') (hstep : Step trap m c m') :
    Tracks trap (past ++ [c]) m' := by
  have hnow : stateAfter trap (past ++ [c]) = some m'.state := by rw [stateAfter, hm']; rfl
  have hbefore : stateAfter trap past = some m.state := by rw [stateAfter, hm]; rfl
  obtain ⟨early, late, rfl, hsince, hgood, hentry⟩ := h.stretch
  cases hstep with
  | count sample nowMs =>
    refine ⟨fun other => ?_, early, late ++ [.onProbe sample nowMs], by simp, ?_, ?_, ?_⟩
    · simpa using streaks_count sample other (h.streaks other)
    · rw [count_state] at hnow ⊢
      exact hsince.concat hnow
    · simpa using streaks_count sample .good hgood
    · rw [count_state]
      exact hentry
  | move sample nowMs next hne hmove =>
    refine ⟨fun other => ?_, _, [], by simp, Machine.HeldSince.start hnow, ?_, ?_⟩
    · rw [streak_new_with]
      exact List.nil_suffix
    · exact List.nil_suffix
    · rintro untilMs rfl
      cases hmove with
      | recovers _ hs hstreak huntil =>
        refine ⟨early ++ late, _, rfl, fun u hu => ?_, huntil⟩
        rw [hbefore, ← count_state m sample] at hu
        rcases hs with hs | hs <;> rw [hs] at hu <;> cases hu
  | heal nowMs untilMs hs huntil =>
    refine ⟨fun other => ?_, _, [], by simp, Machine.HeldSince.start hnow, List.nil_suffix,
      fun u hu => by cases hu⟩
    cases other with
    | good => exact List.nil_suffix
    | highLoss => simpa [streak] using h.streaks .highLoss
    | noResponse => simpa [streak] using h.streaks .noResponse
  | idle nowMs =>
    refine ⟨fun other => ?_, early, late ++ [.tick nowMs], by simp, ?_, ?_, hentry⟩
    · simpa using h.streaks other
    · exact hsince.concat hnow
    · simpa using hgood

theorem linkRun_next {s : Option LinkStateMachine} (h : (linkRun trap s c).2 = some m') :
    ∃ m, s = some m ∧ Step trap m c m' := by
  unfold linkRun at h
  split at h
  · next t m hcall =>
    obtain ⟨m₀, rfl, hcall⟩ := Option.bind_eq_some_iff.mp hcall
    cases h
    exact ⟨m₀, rfl, call_step hcall⟩
  · cases h

theorem run_tracks (trap : Bool) (calls : List LinkCall)
    (hm : (linkRun trap).final (some new) calls = some m) : Tracks trap calls m := by
  refine Machine.final_history (m := linkRun trap) (s := some new)
    (I := fun past s => ∀ m, s = some m → Tracks trap past m) ?_ ?_ calls m hm
  · intro m hm
    cases hm
    exact new_tracks trap
  · intro past c ih m' hm'
    obtain ⟨m, hm, hstep⟩ := linkRun_next hm'
    exact (ih m hm).step hm (by rw [Machine.final_concat, hm']) hstep

theorem documented_unchanged (trap : Bool) (past : List LinkCall) (c : LinkCall) (st : LinkState) :
    Documented trap past c st st where
  dead h hne := absurd h hne
  degraded h hne := absurd h hne
  revived h hne := absurd h hne
  healthy h hne := absurd h hne

theorem Tracks.healed
    {untilMs : UInt64} (h : Tracks trap past m) (hs : m.state = .probation untilMs)
    (huntil : untilMs ≤ c.nowMs)
    (hfit : ∀ entry ∈ past, trap = true ∨ entry.nowMs.toNat + 10000 < 2 ^ 64) :
    ∃ early entry late, past = early ++ entry :: late ∧
      (∀ untilMs, stateAfter trap early ≠ some (.probation untilMs)) ∧
      StateSince trap (.probation untilMs) (early ++ [entry]) late ∧
      entry.nowMs.toNat + 10000 ≤ c.nowMs.toNat := by
  obtain ⟨early, late, rfl, hsince, -, hentry⟩ := h.stretch
  obtain ⟨before, entry, rfl, hbefore, hadd⟩ := hentry untilMs hs
  rw [hs] at hsince
  have hsum : untilMs.toNat = entry.nowMs.toNat + 10000 :=
    U64.toNat_of_add hadd (hfit entry (by simp))
  refine ⟨before, entry, late, by simp, hbefore, hsince, ?_⟩
  rw [← hsum]
  exact UInt64.le_iff_toNat_le.mp huntil

theorem Tracks.streak_ends
    {other : ProbeSample} {n : ℕ} (h : Tracks trap past m)
    (hn : n ≤ ((m.count sample).streak other).toNat) :
    List.replicate n other <:+ samples (past ++ [.onProbe sample nowMs]) := by
  have hall := streaks_count sample other (h.streaks other)
  rw [samples_append, samples_onProbe]
  exact (replicate_suffix_replicate other hn).trans hall

theorem Tracks.revived (h : Tracks trap past m) (hs : m.state = .dead)
    (hstreak : 3 ≤ ((m.count sample).streak .good).toNat) :
    ∃ early late, past = early ++ late ∧ StateSince trap .dead early late ∧
      List.replicate 3 .good <:+ samples (late ++ [.onProbe sample nowMs]) := by
  obtain ⟨early, late, rfl, hsince, hgood, -⟩ := h.stretch
  rw [hs] at hsince
  refine ⟨early, late, rfl, hsince, ?_⟩
  rw [samples_append, samples_onProbe]
  exact (replicate_suffix_replicate _ hstreak).trans (streaks_count sample .good hgood)

theorem Tracks.documented (h : Tracks trap past m) (hstep : Step trap m c m')
    (hfit : ∀ entry ∈ past, trap = true ∨ entry.nowMs.toNat + 10000 < 2 ^ 64) :
    Documented trap past c m.state m'.state := by
  cases hstep with
  | count sample nowMs =>
    rw [count_state]
    exact documented_unchanged trap past _ m.state
  | idle nowMs => exact documented_unchanged trap past _ m.state
  | heal nowMs untilMs hs huntil =>
    refine ⟨nofun, nofun, fun hd => ?_, fun _ _ => ⟨untilMs, hs, h.healed hs huntil hfit⟩⟩
    rw [hs] at hd
    cases hd
  | move sample nowMs next hne hmove =>
    have hcount := count_state m sample
    cases hmove with
    | dies hs hstreak =>
      refine ⟨fun _ _ => ⟨rfl, h.streak_ends hstreak⟩, nofun, fun _ hd => absurd rfl hd, nofun⟩
    | degrades hs hstreak =>
      rw [hcount] at hs
      refine ⟨nofun, fun _ _ => ⟨rfl, h.streak_ends hstreak, hs⟩, fun hd => absurd hd hs, nofun⟩
    | recovers untilMs hs hstreak huntil =>
      exact ⟨nofun, nofun, fun hd _ => ⟨⟨untilMs, rfl⟩, h.revived hd hstreak⟩, nofun⟩
    | heals untilMs hs huntil =>
      rw [hcount] at hs
      refine ⟨nofun, nofun, fun hd => ?_, fun _ _ => ⟨untilMs, hs, h.healed hs huntil hfit⟩⟩
      rw [hs] at hd
      cases hd

end LinkStateMachine

theorem healthDocumented_of_fit {run : List LinkCall}
    (hfit : ∀ entry ∈ run, trap = true ∨ entry.nowMs.toNat + 10000 < 2 ^ 64) :
    HealthDocumented trap run := by
  rintro past c rest rfl before after hbefore hafter
  obtain ⟨m', hm', rfl⟩ := Option.map_eq_some_iff.mp hafter
  rw [Machine.final_concat] at hm'
  obtain ⟨m, hm, hstep⟩ := LinkStateMachine.linkRun_next hm'
  obtain rfl : m.state = before := by simpa [stateAfter, hm] using hbefore
  have htracks := LinkStateMachine.run_tracks trap past hm
  exact htracks.documented hstep fun entry he => hfit entry (List.mem_append_left _ he)

/-- A link that dies and recovers, all at one time. -/
def Sample.recoveryAt (t : UInt64) : List LinkCall :=
  List.replicate 3 (.onProbe .noResponse t) ++ List.replicate 3 (.onProbe .good t)

theorem Sample.nowMs_of_mem_recoveryAt (h : c ∈ Sample.recoveryAt t) : c.nowMs = t := by
  rcases List.mem_append.mp h with h | h <;> rw [List.eq_of_mem_replicate h] <;> rfl

/-- At the end of the clock's range the window of a probation is over before it begins. -/
theorem recoveryAt_undocumented (ht : 2 ^ 64 ≤ t.toNat + 10000) :
    ¬ HealthDocumented false (Sample.recoveryAt t ++ [.tick t]) := by
  intro h
  have hwrap : t + probationMs ≤ t := by
    rw [UInt64.le_iff_toNat_le, UInt64.toNat_add]
    have hlt := t.toNat_lt
    have h10 : probationMs.toNat = 10000 := rfl
    omega
  have hm : (linkRun false).final (some .new) (Sample.recoveryAt t) =
      some { LinkStateMachine.new with state := .probation (t + probationMs) } := rfl
  have hbefore : stateAfter false (Sample.recoveryAt t) = some (.probation (t + probationMs)) := by
    rfl
  have hafter : stateAfter false (Sample.recoveryAt t ++ [.tick t]) = some .healthy := by
    rw [stateAfter, Machine.final_concat, hm]
    simp [linkRun, LinkStateMachine.call, LinkStateMachine.tick, hwrap]
  obtain ⟨untilMs, -, early, entry, late, hpast, -, -, hle⟩ :=
    (h _ _ [] rfl _ _ hbefore hafter).healthy rfl nofun
  have hnow : entry.nowMs = t := Sample.nowMs_of_mem_recoveryAt (by simp [hpast])
  rw [hnow] at hle
  change t.toNat + 10000 ≤ t.toNat at hle
  omega

/-- The reasons are as documented on every run within a bound on the clock, exactly if the build
stops at an overflow or the bound leaves room for a probation. -/
theorem health_documented_iff (trap : Bool) (bound : UInt64) :
    (∀ run : List LinkCall, (∀ c ∈ run, c.nowMs ≤ bound) → HealthDocumented trap run) ↔
      trap = true ∨ bound.toNat + 10000 < 2 ^ 64 := by
  constructor
  · intro h
    cases trap with
    | true => exact Or.inl rfl
    | false =>
      refine Or.inr (not_le.mp fun hge => recoveryAt_undocumented hge (h _ fun c hc => ?_))
      rcases List.mem_append.mp hc with hc | hc
      · exact (Sample.nowMs_of_mem_recoveryAt hc).le
      · rw [List.mem_singleton.mp hc]
        exact le_rfl
  · intro h
    refine fun run hrun => healthDocumented_of_fit fun entry he => ?_
    cases h with
    | inl htrap => exact Or.inl htrap
    | inr hroom =>
      have hle := UInt64.le_iff_toNat_le.mp (hrun entry he)
      exact Or.inr (by omega)

theorem healed_before_window :
    ¬ HealthDocumented false (Sample.recoveryAt 0xFFFFFFFFFFFFFFFF ++ [.tick 0xFFFFFFFFFFFFFFFF]) :=
  recoveryAt_undocumented (by decide)

end Desmos.Core
