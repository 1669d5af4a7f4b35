import Desmos.Library.Machine
import Desmos.Library.U64

/-! # The health of one link

Three streak counters drive a machine of four states. Time comes with the calls. `trap` is the
build's choice at an overflow; a call that returns nothing has panicked.
-/
namespace Desmos.Core
open Library

def probationMs : UInt64 := 10000
def highLossStreakThreshold : UInt8 := 5
def noResponseStreakThreshold : UInt8 := 3
def recoveryStreakThreshold : UInt8 := 3

inductive ProbeSample where
  | good
  | highLoss
  | noResponse
  deriving DecidableEq, Repr

inductive LinkState where
  | healthy
  | probation (untilMs : UInt64)
  | degraded
  | dead
  deriving DecidableEq, Repr

def LinkState.isBondable : LinkState → Bool
  | .dead => false
  | _ => true

structure Transition where
  source : LinkState
  target : LinkState
  deriving DecidableEq, Repr

structure LinkStateMachine where
  state : LinkState
  highLossStreak : UInt8
  noResponseStreak : UInt8
  recoveryStreak : UInt8
  deriving DecidableEq, Repr

namespace LinkStateMachine

def new : LinkStateMachine :=
  { state := .healthy, highLossStreak := 0, noResponseStreak := 0, recoveryStreak := 0 }

def isBondable (m : LinkStateMachine) : Bool := m.state.isBondable

/-- The first half of `onProbe`: a sample extends its own streak and ends the others. -/
def count (m : LinkStateMachine) : ProbeSample → LinkStateMachine
  | .good =>
    { m with highLossStreak := 0, noResponseStreak := 0
             recoveryStreak := saturatingAdd8 m.recoveryStreak 1 }
  | .highLoss =>
    { m with recoveryStreak := 0, noResponseStreak := 0
             highLossStreak := saturatingAdd8 m.highLossStreak 1 }
  | .noResponse =>
    { m with recoveryStreak := 0, highLossStreak := 0
             noResponseStreak := saturatingAdd8 m.noResponseStreak 1 }

def computeNext (trap : Bool) (m : LinkStateMachine) (nowMs : UInt64) : Option LinkState :=
  match m.state with
  | .healthy =>
    if noResponseStreakThreshold ≤ m.noResponseStreak then some .dead
    else if highLossStreakThreshold ≤ m.highLossStreak then some .degraded
    else some .healthy
  | .degraded =>
    if noResponseStreakThreshold ≤ m.noResponseStreak then some .dead
    else if recoveryStreakThreshold ≤ m.recoveryStreak then
      (U64.add trap nowMs probationMs).map .probation
    else some .degraded
  | .dead =>
    if recoveryStreakThreshold ≤ m.recoveryStreak then (U64.add trap nowMs probationMs).map .probation
    else some .dead
  | .probation untilMs =>
    if noResponseStreakThreshold ≤ m.noResponseStreak then some .dead
    else if highLossStreakThreshold ≤ m.highLossStreak then some .degraded
    else if untilMs ≤ nowMs then some .healthy
    else some (.probation untilMs)

def onProbe (trap : Bool) (m : LinkStateMachine) (sample : ProbeSample) (nowMs : UInt64) :
    Option (Option Transition × LinkStateMachine) :=
  let m := m.count sample
  (m.computeNext trap nowMs).map fun next =>
    if next ≠ m.state then
      (some ⟨m.state, next⟩,
        { state := next, highLossStreak := 0, noResponseStreak := 0, recoveryStreak := 0 })
    else (none, m)

def tick (m : LinkStateMachine) (nowMs : UInt64) : Option Transition × LinkStateMachine :=
  match m.state with
  | .probation untilMs =>
    if untilMs ≤ nowMs then
      (some ⟨m.state, .healthy⟩, { m with state := .healthy, recoveryStreak := 0 })
    else (none, m)
  | _ => (none, m)

end LinkStateMachine

inductive LinkCall where
  | onProbe (sample : ProbeSample) (nowMs : UInt64)
  | tick (nowMs : UInt64)
  deriving DecidableEq, Repr

namespace LinkCall

def nowMs : LinkCall → UInt64
  | .onProbe _ nowMs => nowMs
  | .tick nowMs => nowMs

def sample? : LinkCall → Option ProbeSample
  | .onProbe sample _ => some sample
  | .tick _ => none

end LinkCall

def samples (calls : List LinkCall) : List ProbeSample := calls.filterMap LinkCall.sample?

def LinkStateMachine.call (trap : Bool) (m : LinkStateMachine) :
    LinkCall → Option (Option Transition × LinkStateMachine)
  | .onProbe sample nowMs => m.onProbe trap sample nowMs
  | .tick nowMs => some (m.tick nowMs)

/-- The machine under a run of calls; a panic ends it. -/
def linkRun (trap : Bool) : Machine (Option LinkStateMachine) LinkCall (Option Transition) :=
  fun s c =>
    match s.bind fun m => m.call trap c with
    | some (t, m) => (t, some m)
    | none => (none, none)

namespace LinkStateMachine

variable (m : LinkStateMachine)

def streak : ProbeSample → UInt8
  | .good => m.recoveryStreak
  | .highLoss => m.highLossStreak
  | .noResponse => m.noResponseStreak

@[simp] theorem count_state (sample : ProbeSample) : (m.count sample).state = m.state := by
  cases sample <;> rfl

theorem streak_count (sample other : ProbeSample) : (m.count sample).streak other =
      if other = sample then saturatingAdd8 (m.streak sample) 1 else 0 := by
  cases sample <;> cases other <;> rfl

/-- Why a machine whose counters already include the sample may change its state. -/
inductive Moves (trap : Bool) (m : LinkStateMachine) (nowMs : UInt64) : LinkState → Prop
  | dies (h : m.state ≠ .dead) (hstreak : 3 ≤ (m.streak .noResponse).toNat) :
      Moves trap m nowMs .dead
  | degrades (hdead : m.state ≠ .dead) (hstreak : 5 ≤ (m.streak .highLoss).toNat) :
      Moves trap m nowMs .degraded
  | recovers (untilMs : UInt64) (h : m.state = .degraded ∨ m.state = .dead)
      (hstreak : 3 ≤ (m.streak .good).toNat)
      (huntil : U64.add trap nowMs probationMs = some untilMs) :
      Moves trap m nowMs (.probation untilMs)
  | heals (untilMs : UInt64) (h : m.state = .probation untilMs) (huntil : untilMs ≤ nowMs) :
      Moves trap m nowMs .healthy

theorem computeNext_moves {trap : Bool} {m : LinkStateMachine} {nowMs : UInt64} {next : LinkState}
    (h : m.computeNext trap nowMs = some next) (hne : next ≠ m.state) :
    Moves trap m nowMs next := by
  have recover (hs : m.state = .degraded ∨ m.state = .dead)
      (hr : recoveryStreakThreshold ≤ m.recoveryStreak)
      (h : (U64.add trap nowMs probationMs).map LinkState.probation = some next) :
      Moves trap m nowMs next := by
    obtain ⟨untilMs, huntil, rfl⟩ := Option.map_eq_some_iff.mp h
    exact .recovers untilMs hs (UInt8.le_iff_toNat_le.mp hr) huntil
  unfold computeNext at h
  cases hs : m.state with
  | healthy =>
    simp only [hs] at h
    split at h
    · next hd => cases h; exact .dies (by simp [hs]) (UInt8.le_iff_toNat_le.mp hd)
    · split at h
      · next hl => cases h; exact .degrades (by simp [hs]) (UInt8.le_iff_toNat_le.mp hl)
      · cases h; exact absurd hs.symm hne
  | degraded =>
    simp only [hs] at h
    split at h
    · next hd => cases h; exact .dies (by simp [hs]) (UInt8.le_iff_toNat_le.mp hd)
    · split at h
      · next hr => exact recover (Or.inl hs) hr h
      · cases h; exact absurd hs.symm hne
  | dead =>
    simp only [hs] at h
    split at h
    · next hr => exact recover (Or.inr hs) hr h
    · cases h; exact absurd hs.symm hne
  | probation untilMs =>
    simp only [hs] at h
    split at h
    · next hd => cases h; exact .dies (by simp [hs]) (UInt8.le_iff_toNat_le.mp hd)
    · split at h
      · next hl => cases h; exact .degrades (by simp [hs]) (UInt8.le_iff_toNat_le.mp hl)
      · split at h
        · next hu => cases h; exact .heals untilMs hs hu
        · cases h; exact absurd hs.symm hne

/-- Everything that one call can do. -/
inductive Step (trap : Bool) (m : LinkStateMachine) : LinkCall → LinkStateMachine → Prop
  | count (sample : ProbeSample) (nowMs : UInt64) :
      Step trap m (.onProbe sample nowMs) (m.count sample)
  | move (sample : ProbeSample) (nowMs : UInt64) (next : LinkState) (hne : next ≠ m.state)
      (h : Moves trap (m.count sample) nowMs next) :
      Step trap m (.onProbe sample nowMs) { new with state := next }
  | heal (nowMs untilMs : UInt64) (h : m.state = .probation untilMs) (huntil : untilMs ≤ nowMs) :
      Step trap m (.tick nowMs) { m with state := .healthy, recoveryStreak := 0 }
  | idle (nowMs : UInt64) : Step trap m (.tick nowMs) m

theorem call_step {trap : Bool} {m m' : LinkStateMachine} {c : LinkCall} {t : Option Transition}
    (h : m.call trap c = some (t, m')) : Step trap m c m' := by
  cases c with
  | onProbe sample nowMs =>
    obtain ⟨next, hnext, heq⟩ := Option.map_eq_some_iff.mp h
    split at heq
    · next hne =>
      cases heq
      exact .move sample nowMs next (by simpa using hne) (computeNext_moves hnext hne)
    · cases heq
      exact .count sample nowMs
  | tick nowMs =>
    have heq : m.tick nowMs = (t, m') := Option.some.inj h
    unfold tick at heq
    split at heq
    · next untilMs hs =>
      split at heq
      · next huntil => cases heq; exact .heal nowMs untilMs hs huntil
      · cases heq; exact .idle nowMs
    · cases heq
      exact .idle nowMs

end LinkStateMachine

end Desmos.Core
