import Desmos.Core.Auth.Totp.Replay
import Desmos.Library.Selection

/-! # The codes that are accepted

One caller after the other. The loop keeps the last step of the window whose code was presented, so
a later step is never passed over for an earlier one.
-/
namespace Desmos.Core
open Library Proto

variable {P : Primitives} {c : TotpConfig}

/-- The step is at most the window away from the one of the clock. -/
structure InWindow (c : TotpConfig) (center step : UInt64) : Prop where
  lower : center.toNat ≤ step.toNat + c.skewWindow.toNat
  upper : step.toNat ≤ center.toNat + c.skewWindow.toNat

def IsCode (P : Primitives) (c : TotpConfig) (credential : Bytes) (step : UInt64) : Prop :=
  Text.asBytes (computeTotp P c.secret step c.digits) = credential

theorem skewOffsets_pairwise (window : UInt8) : (skewOffsets window).Pairwise (· < ·) := by
  unfold skewOffsets
  rw [List.pairwise_map]
  apply List.pairwise_lt_range.imp
  intro i j hij
  omega

variable {step center : UInt64} {a : TotpAuthenticator} {call : TotpCall}

theorem inWindow_iff (hsmall : center.toNat + c.skewWindow.toNat < 2 ^ 64) :
    InWindow c center step ↔ ∃ offset ∈ skewOffsets c.skewWindow,
      0 ≤ (center.toNat : ℤ) + offset ∧ step = UInt64.ofInt (center.toNat + offset) := by
  constructor
  · rintro ⟨hlower, hupper⟩
    refine ⟨step.toNat - center.toNat, ?_, by omega, ?_⟩
    · exact List.mem_map.mpr ⟨step.toNat + c.skewWindow.toNat - center.toNat,
        List.mem_range.mpr (by omega), by omega⟩
    · exact (U64.ofInt_eq (by omega)).symm
  · rintro ⟨offset, hoffset, hpos, rfl⟩
    obtain ⟨i, hi, rfl⟩ := List.mem_map.mp hoffset
    have hi' := List.mem_range.mp hi
    have hval := U64.toNat_ofInt hpos (by omega)
    exact ⟨by omega, by omega⟩

def offsetMatches (P : Primitives) (c : TotpConfig) (center : UInt64) (credential : Bytes)
    (offset : ℤ) : Bool :=
  0 ≤ (center.toNat : ℤ) + offset &&
    constantTimeEq (Text.asBytes (computeTotp P c.secret (UInt64.ofInt (center.toNat + offset))
      c.digits)) credential

theorem offsetMatches_iff {credential : Bytes} {offset : ℤ} :
    offsetMatches P c center credential offset = true ↔ 0 ≤ (center.toNat : ℤ) + offset ∧
      IsCode P c credential (UInt64.ofInt (center.toNat + offset)) := by
  rw [offsetMatches, Bool.and_eq_true, decide_eq_true_eq, constantTimeEq_iff]
  rfl

theorem matchedStep_eq_find (center : UInt64) (credential : Bytes) :
    matchedStep P c center credential =
      ((skewOffsets c.skewWindow).reverse.find? (offsetMatches P c center credential)).map
        fun offset => UInt64.ofInt (center.toNat + offset) := by
  rw [← foldl_ite_some]
  unfold matchedStep
  congr 1
  funext matched offset
  by_cases hneg : (center.toNat : ℤ) + offset < 0
  · simp [offsetMatches, hneg, Int.not_le.mpr hneg]
  · simp [offsetMatches, hneg, Int.not_lt.mp hneg]

section Matched
variable {center : UInt64} {credential : Bytes}
  (hsmall : center.toNat + c.skewWindow.toNat < 2 ^ 64)
include hsmall

theorem matchedStep_none (h : matchedStep P c center credential = none)
    (hwindow : InWindow c center step) : ¬ IsCode P c credential step := by
  obtain ⟨offset, hoffset, hpos, rfl⟩ := (inWindow_iff hsmall).mp hwindow
  rw [matchedStep_eq_find, Option.map_eq_none_iff, List.find?_eq_none] at h
  intro hcode
  exact h offset (List.mem_reverse.mpr hoffset) (offsetMatches_iff.mpr ⟨hpos, hcode⟩)

theorem matchedStep_some (h : matchedStep P c center credential = some step) :
    InWindow c center step ∧ IsCode P c credential step ∧
      ∀ later, InWindow c center later → IsCode P c credential later → later ≤ step := by
  rw [matchedStep_eq_find, Option.map_eq_some_iff] at h
  obtain ⟨offset, hfind, rfl⟩ := h
  obtain ⟨hmatch, after, before, hsplit, hafter⟩ := List.find?_eq_some_iff_append.mp hfind
  obtain ⟨hpos, hcode⟩ := offsetMatches_iff.mp hmatch
  have hoffset : offset ∈ skewOffsets c.skewWindow := by
    rw [← List.mem_reverse, hsplit]
    exact List.mem_append_right _ List.mem_cons_self
  refine ⟨(inWindow_iff hsmall).mpr ⟨offset, hoffset, hpos, rfl⟩, hcode, ?_⟩
  intro later hlater hcode'
  obtain ⟨offset', hoffset', hpos', rfl⟩ := (inWindow_iff hsmall).mp hlater
  -- the search comes from above, and what it passed over does not match
  have hle : offset' ≤ offset := by
    have hsorted := List.pairwise_reverse.mpr (skewOffsets_pairwise c.skewWindow)
    rw [← List.mem_reverse, hsplit] at hoffset'
    rw [hsplit, List.pairwise_append, List.pairwise_cons] at hsorted
    rcases List.mem_append.mp hoffset' with hmem | hmem
    · have hno := hafter offset' hmem
      rw [offsetMatches_iff.mpr ⟨hpos', hcode'⟩] at hno
      cases hno
    · rcases List.mem_cons.mp hmem with rfl | hmem
      · exact le_rfl
      · exact (hsorted.2.1.1 offset' hmem).le
  obtain ⟨i, hi, rfl⟩ := List.mem_map.mp hoffset
  have hi' := List.mem_range.mp hi
  have hval := U64.toNat_ofInt hpos (by omega)
  have hval' := U64.toNat_ofInt hpos' (by omega)
  rw [UInt64.le_iff_toNat_le]
  omega

end Matched

structure TotpCall where
  now : UInt64
  ctx : AuthContext

def totpCalls (P : Primitives) : Machine TotpAuthenticator TotpCall (Except AuthError Unit) :=
  fun a call => a.authenticate P call.now call.ctx

/-- The steps that accepted calls store, in the order of the calls. -/
def recordedSteps (P : Primitives) (a : TotpAuthenticator) (calls : List TotpCall) : List UInt64 :=
  (totpCalls P).along a (fun _ a call =>
    match totpCalls P a call with
    | (.ok (), a') => if a.config.rejectReplay then [a'.lastAcceptedStep] else []
    | (.error _, _) => []) calls

/-- The credential has the shape of a code, and it is the code of a step in the window of the
clock that no earlier call has used up. -/
def AcceptedCode (P : Primitives) (c : TotpConfig) (recorded : List UInt64) (call : TotpCall) :
    Prop :=
  call.ctx.presentedCredential.length = c.digits.toNat ∧
    (∀ b ∈ call.ctx.presentedCredential, Text.isAsciiDigit b = true) ∧
    ∃ step, InWindow c (call.now / c.periodSecs) step ∧
      IsCode P c call.ctx.presentedCredential step ∧
      (c.rejectReplay = true → ∀ old ∈ recorded, old < step)

/-- The stored step is the latest of those recorded. -/
def Newest (last : UInt64) (recorded : List UInt64) : Prop :=
  last = neverAccepted ∧ recorded = [] ∨
    last ≠ neverAccepted ∧ last ∈ recorded ∧ ∀ old ∈ recorded, old ≤ last

variable {recorded : List UInt64}

theorem Newest.fresh_iff {last : UInt64} (h : Newest last recorded) :
    ¬ (last ≠ neverAccepted ∧ step ≤ last) ↔ ∀ old ∈ recorded, old < step := by
  rcases h with ⟨rfl, rfl⟩ | ⟨hne, hmem, hle⟩
  · simp
  · constructor
    · intro hfresh old hold
      have hlt : last < step := UInt64.not_le.mp fun hstep => hfresh ⟨hne, hstep⟩
      exact UInt64.lt_of_le_of_lt (hle old hold) hlt
    · rintro hall ⟨_, hstep⟩
      exact UInt64.not_le.mpr (hall last hmem) hstep

theorem Newest.concat (hstep : step ≠ neverAccepted)
    (hfresh : ∀ old ∈ recorded, old < step) : Newest step (recorded ++ [step]) := by
  refine Or.inr ⟨hstep, by simp, ?_⟩
  intro old hold
  rcases List.mem_append.mp hold with hold | hold
  · exact UInt64.le_of_lt (hfresh old hold)
  · rw [List.mem_singleton.mp hold]

theorem identifyStep_some_iff (hc : c.Valid) {now : UInt64} {ctx : AuthContext} :
    identifyStep P c now ctx = some step ↔
      ctx.presentedCredential.length = c.digits.toNat ∧
      (∀ b ∈ ctx.presentedCredential, Text.isAsciiDigit b = true) ∧
      matchedStep P c (now / c.periodSecs) ctx.presentedCredential = some step := by
  have hdigits : 6 ≤ c.digits.toNat := UInt8.le_iff_toNat_le.mp hc.digits.1
  unfold identifyStep
  by_cases hlen : ctx.presentedCredential.length = c.digits.toNat
  · have hne : ¬ ctx.presentedCredential.isEmpty = true := by
      rw [List.isEmpty_iff, ← List.length_eq_zero_iff]
      omega
    rw [if_neg hne, if_neg (not_not_intro hlen)]
    by_cases hall : ctx.presentedCredential.all Text.isAsciiDigit = true
    · rw [if_neg (not_not_intro hall)]
      exact ⟨fun h => ⟨hlen, List.all_eq_true.mp hall, h⟩, fun h => h.2.2⟩
    · rw [if_pos hall]
      refine iff_of_false nofun fun h => hall (List.all_eq_true.mpr h.2.1)
  · rw [if_pos hlen, ite_self]
    exact iff_of_false nofun fun h => hlen h.1

theorem authenticate_cases (P : Primitives) (a : TotpAuthenticator) (now : UInt64)
    (ctx : AuthContext) :
    a.authenticate P now ctx = (.error .rejected, a) ∧
      (∀ step, identifyStep P a.config now ctx = some step → a.config.rejectReplay = true ∧
        a.lastAcceptedStep ≠ neverAccepted ∧ step ≤ a.lastAcceptedStep) ∨
    ∃ step, identifyStep P a.config now ctx = some step ∧
      (a.config.rejectReplay = true →
        ¬ (a.lastAcceptedStep ≠ neverAccepted ∧ step ≤ a.lastAcceptedStep)) ∧
      a.authenticate P now ctx =
        (.ok (), if a.config.rejectReplay then { a with lastAcceptedStep := step } else a) := by
  unfold TotpAuthenticator.authenticate
  cases hid : identifyStep P a.config now ctx with
  | none => exact Or.inl ⟨rfl, nofun⟩
  | some step =>
    dsimp only
    by_cases hreplay : a.config.rejectReplay = true
    · by_cases hold : a.lastAcceptedStep ≠ neverAccepted ∧ step ≤ a.lastAcceptedStep
      · left
        rw [if_pos hreplay, if_pos hold]
        refine ⟨rfl, ?_⟩
        rintro _ ⟨⟩
        exact ⟨hreplay, hold⟩
      · right
        refine ⟨step, rfl, fun _ => hold, ?_⟩
        rw [if_pos hreplay, if_neg hold, if_pos hreplay]
    · right
      refine ⟨step, rfl, fun h => absurd h hreplay, ?_⟩
      rw [if_neg hreplay, if_neg hreplay]

section Clock
variable {now : UInt64}

theorem window_small (hc : c.Valid) (hclock : now.toNat < 2 ^ 63) :
    (now / c.periodSecs).toNat + c.skewWindow.toNat < 2 ^ 64 - 1 := by
  have hw : c.skewWindow.toNat ≤ 8 := UInt8.le_iff_toNat_le.mp hc.window
  have hdiv : now.toNat / c.periodSecs.toNat ≤ now.toNat := Nat.div_le_self _ _
  rw [UInt64.toNat_div]
  omega

theorem ne_never_of_inWindow (hc : c.Valid) (hclock : now.toNat < 2 ^ 63)
    (h : InWindow c (now / c.periodSecs) step) : step ≠ neverAccepted := by
  have hsmall := window_small hc hclock
  have hupper := h.upper
  rintro rfl
  have hmax : neverAccepted.toNat = 2 ^ 64 - 1 := rfl
  omega

theorem identifyStep_some (hc : c.Valid) (hclock : now.toNat < 2 ^ 63)
    {ctx : AuthContext} (h : identifyStep P c now ctx = some step) :
    InWindow c (now / c.periodSecs) step ∧ IsCode P c ctx.presentedCredential step ∧
      ∀ later, InWindow c (now / c.periodSecs) later →
        IsCode P c ctx.presentedCredential later → later ≤ step := by
  have hsmall := window_small hc hclock
  exact matchedStep_some (by omega) ((identifyStep_some_iff hc).mp h).2.2

end Clock

/-- The state after a run: its configuration, and the latest of the recorded steps. -/
structure AfterCalls (c : TotpConfig) (recorded : List UInt64) (a : TotpAuthenticator) : Prop where
  config : a.config = c
  newest : c.rejectReplay = true → Newest a.lastAcceptedStep recorded

theorem afterCalls_step (hc : c.Valid)
    (h : AfterCalls c recorded a) (hclock : call.now.toNat < 2 ^ 63) :
    AfterCalls c (recorded ++ match totpCalls P a call with
      | (.ok (), a') => if a.config.rejectReplay then [a'.lastAcceptedStep] else []
      | (.error _, _) => []) (totpCalls P a call).2 := by
  obtain ⟨rfl, hnewest⟩ := h
  unfold totpCalls
  obtain ⟨hauth, _⟩ | ⟨step, hid, hfresh, hauth⟩ := authenticate_cases P a call.now call.ctx
  · rw [hauth]
    rw [List.append_nil]
    exact ⟨rfl, hnewest⟩
  · rw [hauth]
    dsimp only
    by_cases hreplay : a.config.rejectReplay = true
    · rw [if_pos hreplay, if_pos hreplay]
      refine ⟨rfl, fun _ => ?_⟩
      apply Newest.concat (ne_never_of_inWindow hc hclock (identifyStep_some hc hclock hid).1)
      exact (hnewest hreplay).fresh_iff.mp (hfresh hreplay)
    · rw [if_neg hreplay, if_neg hreplay, List.append_nil]
      exact ⟨rfl, fun h => absurd h hreplay⟩

theorem afterCalls_run (hc : c.Valid) (calls : List TotpCall)
    (hclock : ∀ call ∈ calls, call.now.toNat < 2 ^ 63) :
    AfterCalls c (recordedSteps P (.new c) calls) ((totpCalls P).final (.new c) calls) := by
  induction calls using List.reverseRecOn with
  | nil => exact ⟨rfl, fun _ => Or.inl ⟨rfl, rfl⟩⟩
  | append_singleton calls call ih =>
    rw [List.forall_mem_append] at hclock
    rw [recordedSteps, Machine.along_concat, Machine.final_concat]
    exact afterCalls_step hc (ih hclock.1) (hclock.2 call (by simp))

theorem authenticate_ok_iff_accepted (hc : c.Valid) (h : AfterCalls c recorded a)
    (hclock : call.now.toNat < 2 ^ 63) :
    (totpCalls P a call).1 = .ok () ↔ AcceptedCode P c recorded call := by
  obtain ⟨rfl, hnewest⟩ := h
  unfold totpCalls
  obtain ⟨hauth, hold⟩ | ⟨step, hid, hfresh, hauth⟩ := authenticate_cases P a call.now call.ctx
  · rw [hauth]
    refine iff_of_false nofun ?_
    rintro ⟨hlen, hall, step, hwindow, hcode, hafter⟩
    -- the loop has found this step or a later one, and that one is not fresh
    cases hmatch : matchedStep P a.config (call.now / a.config.periodSecs)
        call.ctx.presentedCredential with
    | none =>
      have hsmall := window_small hc hclock
      exact matchedStep_none (by omega) hmatch hwindow hcode
    | some found =>
      have hid := (identifyStep_some_iff hc).mpr ⟨hlen, hall, hmatch⟩
      obtain ⟨hreplay, hused⟩ := hold found hid
      have hle := (identifyStep_some hc hclock hid).2.2 step hwindow hcode
      have hnew := (hnewest hreplay).fresh_iff.mpr (hafter hreplay)
      exact hnew ⟨hused.1, UInt64.le_trans hle hused.2⟩
  · rw [hauth]
    refine iff_of_true rfl ?_
    obtain ⟨hlen, hall, _⟩ := (identifyStep_some_iff hc).mp hid
    obtain ⟨hwindow, hcode, _⟩ := identifyStep_some hc hclock hid
    exact ⟨hlen, hall, step, hwindow, hcode, fun hreplay =>
      (hnewest hreplay).fresh_iff.mp (hfresh hreplay)⟩

/-- After any calls, the next one succeeds exactly if its credential is the code of a step in the
window that is later than all recorded ones. -/
theorem totp_accepts_window_codes (P : Primitives) (secret : Bytes) (digits : UInt8)
    (periodSecs : UInt64) (skewWindow : UInt8) (rejectReplay : Bool) (c : TotpConfig)
    (hc : TotpConfig.withKnobs secret digits periodSecs skewWindow rejectReplay = .ok c)
    (calls : List TotpCall) (call : TotpCall)
    (hclock : ∀ k ∈ calls ++ [call], k.now.toNat < 2 ^ 63) :
    (totpCalls P ((totpCalls P).final (.new c) calls) call).1 = .ok () ↔
      AcceptedCode P c (recordedSteps P (.new c) calls) call := by
  have hvalid := (TotpConfig.withKnobs_ok_iff.mp hc).2
  rw [List.forall_mem_append] at hclock
  exact authenticate_ok_iff_accepted hvalid (afterCalls_run hvalid calls hclock.1)
    (hclock.2 call (by simp))

def Sample.login (now step : UInt64) : TotpCall :=
  ⟨now, codeContext .transparent totpConfig ⟨Vector.replicate 32 5⟩ step⟩

theorem next_code_accepted : AcceptedCode .transparent Sample.totpConfig
    (recordedSteps .transparent (.new Sample.totpConfig) [Sample.login 0 1]) (Sample.login 60 2) :=
  (totp_accepts_window_codes .transparent Sample.totpSecret 6 30 1 true Sample.totpConfig rfl
    [Sample.login 0 1] (Sample.login 60 2) (by decide +kernel)).mp (by decide +kernel)

end Desmos.Core
