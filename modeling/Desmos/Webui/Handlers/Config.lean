import Desmos.Core.Config.Diff
import Desmos.Core.Config.Validate
import Desmos.Library.Threads
import Desmos.Webui.Dto

/-! # Hot reload

`PUT /config` reads the running configuration, compares it with the new one and writes the new one,
in three steps that other requests may come between.
-/
namespace Desmos.Webui
open Library Http Http.Json Desmos.Core

variable {F : Type} {api : Api F} {context : Option Config} {state : PutState} {i : PutInput}

/-- The checks of the body: the new configuration, or a refusal. -/
def readConfig (api : Api F) (stamp : Stamp) (body : Bytes) : Except Response Config :=
  match Text.fromUtf8 body with
  | none => .error (refuse api stamp "invalid_body" "Request body is not valid UTF-8" "invalid body")
  | some bodyStr =>
    if (Text.trim bodyStr).isEmpty then
      .error (refuse api stamp "empty_body" "TOML body is required" "empty body")
    else
      match parse api.parseF64 bodyStr with
      | .error e => .error (refuse api stamp "parse_error"
          ("TOML parse error: " ++ e.display api.debugChar) "parse error")
      | .ok value =>
        match Config.fromValue value with
        | .error e => .error (refuse api stamp "validation_error"
            ("Validation error: " ++ e.display api.debugChar) "validation error")
        | .ok newConfig => .ok newConfig

/-- The comparison with the running configuration. Without a daemon there is none, and the new
configuration stands in for it. -/
def compareConfig (api : Api F) (stamp : Stamp) (context : Option Config) (newConfig : Config) :
    Except Response ConfigDiff :=
  let d := diff (context.getD newConfig) newConfig
  if ¬ d.isSafe then
    let fields := Value.array (d.unsafeFields.map text)
    .error ((Response.new 409).bodyJson (errorEnvelopeWithDetails api stamp "unsafe_reload"
      "Some fields cannot be hot-reloaded and require a restart"
      (some (objectOf [("unsafe_fields", fields)]))))
  else .ok d

/-- The write of the new configuration, if a daemon is running. -/
def applyConfig (context : Option Config) (newConfig : Config) : Option Config :=
  context.map fun _ => newConfig

def applied (api : Api F) (stamp : Stamp) (d : ConfigDiff) : Response :=
  let reloaded := if d.isEmpty then [] else
    [("reloaded_fields", Value.array (d.safeFields.map text))]
  Response.ok.bodyJson (successEnvelope api stamp (objectOf ([("applied", .bool true)] ++ reloaded)))

/-- `PUT /api/v1/config` without interruption. -/
def put (api : Api F) (stamp : Stamp) (body : Bytes) (context : Option Config) :
    Response × Option Config :=
  match readConfig api stamp body with
  | .error r => (r, context)
  | .ok newConfig =>
    match compareConfig api stamp context newConfig with
    | .error r => (r, context)
    | .ok d => (applied api stamp d, applyConfig context newConfig)

/-- How far a thread has come with its request. -/
inductive PutState where
  | ready
  | validated (newConfig : Config)
  | compared (newConfig : Config) (d : ConfigDiff)

structure PutInput where
  body : Bytes
  stamp : Stamp

/-- The next step of a thread: it takes a request, compares, or writes. -/
def putStep (api : Api F) : Program (Option Config) PutState PutInput (Option Response) :=
  fun context state i =>
    match state with
    | .ready =>
      match readConfig api i.stamp i.body with
      | .error r => (some r, context, .ready)
      | .ok newConfig => (none, context, .validated newConfig)
    | .validated newConfig =>
      match compareConfig api i.stamp context newConfig with
      | .error r => (some r, context, .ready)
      | .ok d => (none, context, .compared newConfig d)
    | .compared newConfig d => (some (applied api i.stamp d), applyConfig context newConfig, .ready)

abbrev reloads {κ : Type} [DecidableEq κ] (api : Api F) :
    Machine (Pool κ (Option Config) PutState) (κ × PutInput) (Option Response) :=
  Pool.interleave fun _ => putStep api

section Steps
variable {api : Api F} {context : Option Config} {stamp : Stamp} {body : Bytes} {r : Response}

theorem put_eq_steps : ∃ n, ∃ r, (reloads (κ := Unit) api).trace ⟨context, fun _ => .ready⟩
      (List.replicate (n + 1) ((), ⟨body, stamp⟩)) =
        List.replicate n (((), ⟨body, stamp⟩), none) ++ [(((), ⟨body, stamp⟩), some r)] ∧
      put api stamp body context = (r, ((reloads (κ := Unit) api).final ⟨context, fun _ => .ready⟩
        (List.replicate (n + 1) ((), ⟨body, stamp⟩))).shared) := by
  unfold put
  cases hread : readConfig api stamp body with
  | error r =>
    refine ⟨0, r, ?_, ?_⟩
    · simp [reloads, Pool.interleave, putStep, hread, Machine.trace]
    · simp [reloads, Pool.interleave, putStep, hread]
  | ok newConfig =>
    cases hcompare : compareConfig api stamp context newConfig with
    | error r =>
      refine ⟨1, r, ?_, ?_⟩
      · simp [reloads, Pool.interleave, putStep, hread, hcompare, Machine.trace, List.replicate]
      · simp [reloads, Pool.interleave, putStep, hread, hcompare, List.replicate]
    | ok d =>
      refine ⟨2, applied api stamp d, ?_, ?_⟩
      · simp [reloads, Pool.interleave, putStep, hread, hcompare, Machine.trace, List.replicate]
      · simp [reloads, Pool.interleave, putStep, hread, hcompare, List.replicate]

theorem readConfig_refuses (h : readConfig api stamp body = .error r) : r.status ≠ 200 := by
  unfold readConfig at h
  split at h
  · cases h
    simp
  · split at h
    · cases h
      simp
    · split at h
      · cases h
        simp
      · split at h
        · cases h
          simp
        · cases h

theorem compareConfig_refuses {newConfig : Config}
    (h : compareConfig api stamp context newConfig = .error r) : r.status ≠ 200 := by
  unfold compareConfig at h
  dsimp only at h
  split at h
  · cases h
    simp [Response.new]
  · cases h

end Steps

theorem compareConfig_ok {stamp : Stamp} {running newConfig : Config} {d : ConfigDiff}
    (h : compareConfig api stamp (some running) newConfig = .ok d) :
    newConfig.restartOnly = running.restartOnly := by
  unfold compareConfig at h
  dsimp only at h
  split at h
  · cases h
  · next hsafe =>
    exact ((diff_isSafe_iff _ _).mp (not_not.mp hsafe)).symm

theorem putStep_context (h : ∀ r, (putStep api context state i).1 = some r → r.status ≠ 200) :
    (putStep api context state i).2.1 = context := by
  cases state with
  | ready =>
    cases hread : readConfig api i.stamp i.body with
    | error r => simp only [putStep, hread]
    | ok newConfig => simp only [putStep, hread]
  | validated newConfig =>
    cases hcompare : compareConfig api i.stamp context newConfig with
    | error r => simp only [putStep, hcompare]
    | ok d => simp only [putStep, hcompare]
  | compared newConfig d =>
    have hok : (applied api i.stamp d).status = 200 := Response.status_bodyJson _ _
    exact absurd hok (h _ rfl)

/-- The running configuration agrees with the pinned fields. -/
def Pinned (pins : RestartOnly) (context : Option Config) : Prop :=
  ∃ running, context = some running ∧ running.restartOnly = pins

/-- What a thread is about to write does, too. -/
def PutState.Pinned (pins : RestartOnly) : PutState → Prop
  | .compared newConfig _ => newConfig.restartOnly = pins
  | _ => True

theorem pinned_putStep {pins : RestartOnly} (hcontext : Pinned pins context)
    (hstate : state.Pinned pins) : Pinned pins (putStep api context state i).2.1 ∧
      (putStep api context state i).2.2.Pinned pins := by
  obtain ⟨running, rfl, hpins⟩ := hcontext
  cases state with
  | ready =>
    cases hread : readConfig api i.stamp i.body with
    | error r =>
      simp only [putStep, hread]
      exact ⟨⟨running, rfl, hpins⟩, trivial⟩
    | ok newConfig =>
      simp only [putStep, hread]
      exact ⟨⟨running, rfl, hpins⟩, trivial⟩
  | validated newConfig =>
    cases hcompare : compareConfig api i.stamp (some running) newConfig with
    | error r =>
      simp only [putStep, hcompare]
      exact ⟨⟨running, rfl, hpins⟩, trivial⟩
    | ok d =>
      simp only [putStep, hcompare]
      exact ⟨⟨running, rfl, hpins⟩, (compareConfig_ok hcompare).trans hpins⟩
  | compared newConfig d => exact ⟨⟨newConfig, rfl, hstate⟩, trivial⟩

/-- In every interleaving of requests what needs a restart stays as it was at the start, and only
a request that answers with success writes; no difference between configurations goes unseen. -/
theorem reload_keeps_restart_only {κ : Type} [DecidableEq κ] (api : Api F) (start : Config)
    (schedule : List (κ × PutInput)) :
    (∃ running, ((reloads api).final ⟨some start, fun _ => .ready⟩ schedule).shared = some running ∧
      running.restartOnly = start.restartOnly) ∧
    (∀ e : κ × PutInput,
      let state := (reloads api).final ⟨some start, fun _ => .ready⟩ schedule
      (∀ r, (reloads api state e).1 = some r → r.status ≠ 200) →
        (reloads api state e).2.shared = state.shared) ∧
    ∀ a b, (diff a b).isEmpty = true ↔ a = b := by
  refine ⟨?_, fun e hanswer => putStep_context hanswer, fun a b => ?_⟩
  · have hstart : (⟨some start, fun _ => .ready⟩ : Pool κ (Option Config) PutState).Holds
        (Pinned start.restartOnly) (fun _ _ state => state.Pinned start.restartOnly) :=
      ⟨⟨start, rfl, rfl⟩, fun _ => trivial⟩
    have hstep : ∀ (_ : κ) context state input, Pinned start.restartOnly context →
        PutState.Pinned start.restartOnly state →
          Pinned start.restartOnly (putStep api context state input).2.1 ∧
            PutState.Pinned start.restartOnly (putStep api context state input).2.2 :=
      fun _ _ _ _ hcontext hstate => pinned_putStep hcontext hstate
    have hend := Pool.Holds.final hstep (fun _ _ _ _ _ _ _ _ _ hother => hother) hstart schedule
    exact hend.shared
  · rw [ConfigDiff.isEmpty, List.isEmpty_iff]
    exact diff_eq_nil_iff a b

end Desmos.Webui
