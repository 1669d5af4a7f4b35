import Desmos.Core.Auth
import Desmos.Library.Text
import Desmos.Library.Threads
import Desmos.Library.U64

/-! # Time-based one-time passwords

The clock is read once in a call, so its reading is an input. The last accepted step is shared
by all callers and is loaded and stored in two separate atomic steps.
-/
namespace Desmos.Core
open Library Proto

def defaultPeriodSecs : UInt64 := 30
def defaultDigits : UInt8 := 6
def totpMinSecretLen : ℕ := 16
def totpMaxSecretLen : ℕ := 64

structure TotpConfig where
  secret : Bytes
  digits : UInt8
  periodSecs : UInt64
  skewWindow : UInt8
  rejectReplay : Bool
  deriving DecidableEq

namespace TotpConfig

def withKnobs (secret : Bytes) (digits : UInt8) (periodSecs : UInt64) (skewWindow : UInt8)
    (rejectReplay : Bool) : Except AuthError TotpConfig :=
  if secret.length < totpMinSecretLen then
    .error (.misconfigured "TOTP secret shorter than 16 bytes")
  else if totpMaxSecretLen < secret.length then
    .error (.misconfigured "TOTP secret longer than 64 bytes")
  else if ¬ (6 ≤ digits ∧ digits ≤ 8) then .error (.misconfigured "TOTP digits must be 6, 7, or 8")
  else if periodSecs = 0 then .error (.misconfigured "TOTP period_secs must be > 0")
  else if 8 < skewWindow then .error (.misconfigured "TOTP skew_window > 8")
  else .ok { secret, digits, periodSecs, skewWindow, rejectReplay }

def new (secret : Bytes) : Except AuthError TotpConfig :=
  withKnobs secret defaultDigits defaultPeriodSecs 1 false

/-- What the constructor checks. -/
structure Valid (c : TotpConfig) : Prop where
  secret : totpMinSecretLen ≤ c.secret.length ∧ c.secret.length ≤ totpMaxSecretLen
  digits : 6 ≤ c.digits ∧ c.digits ≤ 8
  period : c.periodSecs ≠ 0
  window : c.skewWindow ≤ 8

theorem withKnobs_ok_iff {secret : Bytes} {digits : UInt8} {periodSecs : UInt64}
    {skewWindow : UInt8} {rejectReplay : Bool} {c : TotpConfig} :
    withKnobs secret digits periodSecs skewWindow rejectReplay = .ok c ↔
      c = { secret, digits, periodSecs, skewWindow, rejectReplay } ∧ c.Valid := by
  unfold withKnobs
  constructor
  · intro h
    split at h; · cases h
    next h1 =>
    split at h; · cases h
    next h2 =>
    split at h; · cases h
    next h3 =>
    split at h; · cases h
    next h4 =>
    split at h; · cases h
    next h5 =>
    cases h
    exact ⟨rfl, ⟨Nat.not_lt.mp h1, Nat.not_lt.mp h2⟩, not_not.mp h3, h4, UInt8.not_lt.mp h5⟩
  · rintro ⟨rfl, hsecret, hdigits, hperiod, hwindow⟩
    rw [if_neg (Nat.not_lt.mpr hsecret.1), if_neg (Nat.not_lt.mpr hsecret.2),
      if_neg (not_not_intro hdigits), if_neg hperiod, if_neg (UInt8.not_lt.mpr hwindow)]

end TotpConfig

variable (P : Primitives)

/-- Truncation of the keyed hash of a step to a decimal code. -/
def computeTotp (secret : Bytes) (step : UInt64) (digits : UInt8) : Text :=
  let counter := toBe 8 step.toNat
  let hmacBytes := (Hkdf.extract P secret counter).toList
  let offset := (hmacBytes.getD (hmacBytes.length - 1) 0 &&& 0x0f).toNat
  let binCode := ((hmacBytes.getD offset 0 &&& 0x7f).toUInt32 <<< 24) |||
    ((hmacBytes.getD (offset + 1) 0).toUInt32 <<< 16) |||
    ((hmacBytes.getD (offset + 2) 0).toUInt32 <<< 8) |||
    (hmacBytes.getD (offset + 3) 0).toUInt32
  let modulus := UInt32.ofNat (10 ^ digits.toNat)
  let code := binCode % modulus
  Text.zeroPadded digits.toNat code.toNat

/-- The offsets `-window ..= window`. -/
def skewOffsets (window : UInt8) : List ℤ :=
  (List.range (2 * window.toNat + 1)).map fun i : ℕ => (i : ℤ) - window.toNat

variable (c : TotpConfig)

/-- The loop of `authenticate`: the last step in the window whose code was presented. -/
def matchedStep (centerStep : UInt64) (credential : Bytes) : Option UInt64 :=
  (skewOffsets c.skewWindow).foldl (fun matched offset =>
    let candidate := (centerStep.toNat : ℤ) + offset
    if candidate < 0 then matched
    else
      let step := UInt64.ofInt candidate
      if constantTimeEq (Text.asBytes (computeTotp P c.secret step c.digits)) credential then
        some step
      else matched) none

/-- `authenticate` up to the replay check. -/
def identifyStep (now : UInt64) (ctx : AuthContext) : Option UInt64 :=
  if ctx.presentedCredential.isEmpty then none
  else if ctx.presentedCredential.length ≠ c.digits.toNat then none
  else if ¬ ctx.presentedCredential.all Text.isAsciiDigit then none
  else matchedStep P c (now / c.periodSecs) ctx.presentedCredential

/-- The value that stands for no accepted step. -/
def neverAccepted : UInt64 := 0xFFFFFFFFFFFFFFFF

structure TotpAuthenticator where
  config : TotpConfig
  lastAcceptedStep : UInt64

namespace TotpAuthenticator

def new (config : TotpConfig) : TotpAuthenticator :=
  { config := config, lastAcceptedStep := neverAccepted }

def authenticate (a : TotpAuthenticator) (now : UInt64) (ctx : AuthContext) :
    Except AuthError Unit × TotpAuthenticator :=
  match identifyStep P a.config now ctx with
  | none => (.error .rejected, a)
  | some step =>
    if a.config.rejectReplay then
      let prev := a.lastAcceptedStep
      if prev ≠ neverAccepted ∧ step ≤ prev then (.error .rejected, a)
      else (.ok (), { a with lastAcceptedStep := step })
    else (.ok (), a)

end TotpAuthenticator

inductive TotpPc where
  | idle
  | matched (step : UInt64)
  | admitted (step : UInt64)

inductive TotpInput where
  | call (now : UInt64) (ctx : AuthContext)
  | resume

/-- The atomic steps of a call: everything before the replay check, the load with its test, the
store. A call that ends answers with the step it accepted. -/
def totpStep : Program UInt64 TotpPc TotpInput (Option (Except AuthError UInt64))
  | last, .idle, .call now ctx =>
    match identifyStep P c now ctx with
    | none => (some (.error .rejected), last, .idle)
    | some step =>
      if c.rejectReplay then (none, last, .matched step) else (some (.ok step), last, .idle)
  | last, .matched step, .resume =>
    if last ≠ neverAccepted ∧ step ≤ last then (some (.error .rejected), last, .idle)
    else (none, last, .admitted step)
  | _, .admitted step, .resume => (some (.ok step), step, .idle)
  | last, pc, _ => (none, last, pc)

/-- `n` threads on one authenticator. -/
def totpThreads (n : ℕ) :
    Machine (Pool (Fin n) UInt64 TotpPc) (Fin n × TotpInput) (Option (Except AuthError UInt64)) :=
  Pool.interleave fun _ => totpStep P c

/-- A call that no other thread interrupts is the sequential `authenticate`. -/
theorem wholeCall_eq_authenticate {n : ℕ} {i : Fin n}
    (last : UInt64) {threads : Fin n → TotpPc} (hi : threads i = .idle) (now : UInt64)
    (ctx : AuthContext) :
    (totpThreads P c n).final ⟨last, threads⟩ [(i, .call now ctx), (i, .resume), (i, .resume)] =
        ⟨(TotpAuthenticator.authenticate P ⟨c, last⟩ now ctx).2.lastAcceptedStep, threads⟩ ∧
      ((totpThreads P c n).trace ⟨last, threads⟩
        [(i, .call now ctx), (i, .resume), (i, .resume)]).filterMap
          (fun e => e.2.map fun r => r.map fun _ => ()) =
        [(TotpAuthenticator.authenticate P ⟨c, last⟩ now ctx).1] := by
  have hback : Function.update threads i .idle = threads := by rw [← hi, Function.update_eq_self]
  unfold TotpAuthenticator.authenticate
  cases hid : identifyStep P c now ctx with
  | none =>
    simp [totpThreads, Pool.interleave, Machine.trace, hi, totpStep, hid, hback, Except.map]
  | some step =>
    cases hr : c.rejectReplay with
    | false =>
      simp [totpThreads, Pool.interleave, Machine.trace, hi, totpStep, hid, hr, hback, Except.map]
    | true =>
      by_cases hold : last ≠ neverAccepted ∧ step ≤ last
      · simp [totpThreads, Pool.interleave, Machine.trace, hi, totpStep, hid, hr, hold, hback,
          Except.map]
      · simp [totpThreads, Pool.interleave, Machine.trace, hi, totpStep, hid, hr, hold, hback,
          Except.map]

def acceptedStep : Option (Except AuthError UInt64) → Option UInt64
  | some (.ok step) => some step
  | _ => none

/-- The steps that a run of the threads accepts, in the order of the stores. -/
def acceptedSteps {n : ℕ} (p : Pool (Fin n) UInt64 TotpPc)
    (schedule : List (Fin n × TotpInput)) : List UInt64 :=
  ((totpThreads P c n).trace p schedule).filterMap fun e => acceptedStep e.2

def idleThreads (n : ℕ) : Pool (Fin n) UInt64 TotpPc := ⟨neverAccepted, fun _ => .idle⟩

/-- However `n` threads interleave their calls, no step is accepted twice and later stores are of
later steps. -/
def SingleUse (n : ℕ) : Prop :=
  ∀ schedule : List (Fin n × TotpInput),
    (acceptedSteps P c (idleThreads n) schedule).Pairwise (· < ·)

end Desmos.Core
