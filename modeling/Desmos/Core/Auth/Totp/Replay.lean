import Desmos.Core.Auth.Totp

/-! # How often a code is good

A thread that runs alone accepts ever later steps, as long as no step is the number that stands
for none. Two threads that load before either stores accept one step twice.
-/
namespace Desmos.Core
open Library Proto

variable {P : Primitives} {c : TotpConfig}

theorem length_computeTotp (P : Primitives) (secret : Bytes) (step : UInt64) {digits : UInt8}
    (h : 6 ≤ digits ∧ digits ≤ 8) : (computeTotp P secret step digits).length = digits.toNat := by
  have hlo : 6 ≤ digits.toNat := UInt8.le_iff_toNat_le.mp h.1
  have hhi : digits.toNat ≤ 8 := UInt8.le_iff_toNat_le.mp h.2
  have hpow : 10 ^ digits.toNat ≤ 10 ^ 8 := Nat.pow_le_pow_right (by decide) hhi
  have hmod : (UInt32.ofNat (10 ^ digits.toNat)).toNat = 10 ^ digits.toNat := by
    exact Nat.mod_eq_of_lt (by omega)
  apply Text.length_zeroPadded (by omega)
  rw [UInt32.toNat_mod, hmod]
  exact Nat.mod_lt _ (Nat.pow_pos (by decide))

theorem identifyStep_code (hc : c.Valid) (now step : UInt64) (ctx : AuthContext)
    (hcode : ctx.presentedCredential = Text.asBytes (computeTotp P c.secret step c.digits)) :
    identifyStep P c now ctx = matchedStep P c (now / c.periodSecs) ctx.presentedCredential := by
  have hdigit : ∀ ch ∈ computeTotp P c.secret step c.digits, ch.isDigit = true :=
    fun ch hch => Text.isDigit_of_mem_zeroPadded hch
  obtain ⟨hlen, hall⟩ := Text.asBytes_digits hdigit
  rw [length_computeTotp P c.secret step hc.digits] at hlen
  have hpos : 6 ≤ c.digits.toNat := UInt8.le_iff_toNat_le.mp hc.digits.1
  have hne : ctx.presentedCredential ≠ [] := by
    rw [hcode, ← List.length_pos_iff_ne_nil, hlen]
    omega
  unfold identifyStep
  rw [if_neg (by simpa using hne), if_neg (by rw [hcode, hlen]; simp),
    if_neg (by rw [hcode, not_not]; exact List.all_eq_true.mpr hall)]

theorem skewOffsets_eq_concat (window : UInt8) :
    ∃ front, skewOffsets window = front ++ [(window.toNat : ℤ)] := by
  refine ⟨(List.range (2 * window.toNat)).map fun i : ℕ => (i : ℤ) - window.toNat, ?_⟩
  rw [skewOffsets, List.range_succ, List.map_append, List.map_singleton]
  congr 2
  push_cast
  ring

variable {step center : UInt64} {credential : Bytes} {n : ℕ}

theorem matchedStep_upper (hstep : step.toNat = center.toNat + c.skewWindow.toNat)
    (hcode : credential = Text.asBytes (computeTotp P c.secret step c.digits)) :
    matchedStep P c center credential = some step := by
  obtain ⟨front, hfront⟩ := skewOffsets_eq_concat c.skewWindow
  have hcand : UInt64.ofInt ((center.toNat : ℤ) + (c.skewWindow.toNat : ℤ)) = step :=
    U64.ofInt_eq (by omega)
  unfold matchedStep
  rw [hfront, List.foldl_concat]
  simp only [hcand]
  rw [if_neg (by omega), if_pos (constantTimeEq_iff.mpr hcode.symm)]

theorem matchedStep_candidate (h : matchedStep P c center credential = some step) :
    ∃ offset ∈ skewOffsets c.skewWindow, 0 ≤ (center.toNat : ℤ) + offset ∧
      step = UInt64.ofInt ((center.toNat : ℤ) + offset) := by
  unfold matchedStep at h
  generalize skewOffsets c.skewWindow = offsets at h ⊢
  induction offsets using List.reverseRecOn with
  | nil => cases h
  | append_singleton front offset ih =>
    rw [List.foldl_concat] at h
    dsimp only at h
    split at h
    · obtain ⟨o, ho, hpos, heq⟩ := ih h
      exact ⟨o, List.mem_append_left _ ho, hpos, heq⟩
    · next hpos =>
      split at h
      · cases h
        exact ⟨offset, by simp, not_lt.mp hpos, rfl⟩
      · obtain ⟨o, ho, hpos, heq⟩ := ih h
        exact ⟨o, List.mem_append_left _ ho, hpos, heq⟩

variable {now : UInt64}

/-- With a period of two seconds or more, the clock never reaches the number for no step. -/
theorem identifyStep_ne_never (hc : c.Valid) (hperiod : 2 ≤ c.periodSecs)
    {ctx : AuthContext} (h : identifyStep P c now ctx = some step) : step ≠ neverAccepted := by
  have hmatch : matchedStep P c (now / c.periodSecs) ctx.presentedCredential = some step := by
    unfold identifyStep at h
    split at h; · cases h
    split at h; · cases h
    split at h; · cases h
    exact h
  obtain ⟨offset, hoffset, hpos, rfl⟩ := matchedStep_candidate hmatch
  obtain ⟨i, hi, rfl⟩ := List.mem_map.mp hoffset
  have hi' := List.mem_range.mp hi
  have hw : c.skewWindow.toNat ≤ 8 := UInt8.le_iff_toNat_le.mp hc.window
  have hp : 2 ≤ c.periodSecs.toNat := UInt64.le_iff_toNat_le.mp hperiod
  have hcenter : (now / c.periodSecs).toNat ≤ 2 ^ 63 := by
    have hlt := now.toNat_lt
    calc now.toNat / c.periodSecs.toNat ≤ now.toNat / 2 := Nat.div_le_div_left hp (by decide)
      _ ≤ 2 ^ 63 := by omega
  intro hnever
  have hval := U64.toNat_ofInt hpos (by omega)
  rw [hnever] at hval
  have hmax : neverAccepted.toNat = 2 ^ 64 - 1 := rfl
  omega

/-- What a thread that runs alone knows of the last accepted step. -/
def TotpPc.Fresh (last : UInt64) : TotpPc → Prop
  | .idle => True
  | .matched step => step ≠ neverAccepted
  | .admitted step => step ≠ neverAccepted ∧ (last = neverAccepted ∨ last < step)

theorem totpStep_load (last step : UInt64) : totpStep P c last (.matched step) .resume =
    if last ≠ neverAccepted ∧ step ≤ last then (some (.error .rejected), last, .idle)
    else (none, last, .admitted step) := rfl

theorem totpStep_fresh (hc : c.Valid) (hreplay : c.rejectReplay = true)
    (hperiod : 2 ≤ c.periodSecs) {last : UInt64} {pc : TotpPc} (h : pc.Fresh last) (i : TotpInput) :
    (acceptedStep (totpStep P c last pc i).1 = none ∧ (totpStep P c last pc i).2.1 = last ∧
      (totpStep P c last pc i).2.2.Fresh last) ∨
    ∃ step, acceptedStep (totpStep P c last pc i).1 = some step ∧
      totpStep P c last pc i = (some (.ok step), step, .idle) ∧ step ≠ neverAccepted ∧
      (last = neverAccepted ∨ last < step) := by
  cases pc with
  | idle =>
    cases i with
    | call now ctx =>
      left
      cases hid : identifyStep P c now ctx with
      | none => simp [totpStep, hid, acceptedStep, TotpPc.Fresh]
      | some step =>
        have hne := identifyStep_ne_never hc hperiod hid
        simp [totpStep, hid, hreplay, acceptedStep, TotpPc.Fresh, hne]
    | resume => exact Or.inl ⟨rfl, rfl, trivial⟩
  | matched step =>
    cases i with
    | call now ctx => exact Or.inl ⟨rfl, rfl, h⟩
    | resume =>
      left
      by_cases hold : last ≠ neverAccepted ∧ step ≤ last
      · simp [totpStep, hold, acceptedStep, TotpPc.Fresh]
      · have hlater : last = neverAccepted ∨ last < step := by
          by_cases hlast : last = neverAccepted
          · exact Or.inl hlast
          · exact Or.inr (UInt64.not_le.mp fun hle => hold ⟨hlast, hle⟩)
        rw [totpStep_load, if_neg hold]
        exact ⟨rfl, rfl, h, hlater⟩
  | admitted step =>
    cases i with
    | call now ctx => exact Or.inl ⟨rfl, rfl, h⟩
    | resume => exact Or.inr ⟨step, rfl, rfl, h.1, h.2⟩

theorem acceptedSteps_cons (p : Pool (Fin n) UInt64 TotpPc) (e : Fin n × TotpInput)
    (schedule : List (Fin n × TotpInput)) :
    acceptedSteps P c p (e :: schedule) =
      (acceptedStep (totpThreads P c n p e).1).toList ++
        acceptedSteps P c (totpThreads P c n p e).2 schedule := by
  unfold acceptedSteps
  rw [Machine.trace_cons, List.filterMap_cons]
  cases acceptedStep (totpThreads P c n p e).1 <;> rfl

theorem acceptedSteps_alone (hc : c.Valid) (hreplay : c.rejectReplay = true)
    (hperiod : 2 ≤ c.periodSecs) (schedule : List (Fin 1 × TotpInput))
    (p : Pool (Fin 1) UInt64 TotpPc) (h : (p.threads 0).Fresh p.shared) :
    (∀ step ∈ acceptedSteps P c p schedule, p.shared = neverAccepted ∨ p.shared < step) ∧
      (acceptedSteps P c p schedule).Pairwise (· < ·) := by
  induction schedule generalizing p with
  | nil => exact ⟨by simp [acceptedSteps, Machine.trace], by simp [acceptedSteps, Machine.trace]⟩
  | cons e schedule ih =>
    obtain ⟨k, i⟩ := e
    obtain rfl : k = 0 := Subsingleton.elim _ _
    rw [acceptedSteps_cons]
    have hnext : (totpThreads P c 1 p (0, i)).2 =
        ⟨(totpStep P c p.shared (p.threads 0) i).2.1,
          Function.update p.threads 0 (totpStep P c p.shared (p.threads 0) i).2.2⟩ := rfl
    have hanswer : (totpThreads P c 1 p (0, i)).1 =
        (totpStep P c p.shared (p.threads 0) i).1 := rfl
    rw [hanswer]
    rcases totpStep_fresh (P := P) hc hreplay hperiod h i with
      ⟨hnone, hshared, hfresh⟩ | ⟨step, hsome, hstep, hne, hlater⟩
    · rw [hnone]
      have hrest := ih (totpThreads P c 1 p (0, i)).2 (by
        rw [hnext]
        simpa [hshared] using hfresh)
      rw [hnext, hshared] at hrest
      rw [hnext, hshared]
      exact hrest
    · rw [hsome]
      have hrest := ih (totpThreads P c 1 p (0, i)).2 (by
        rw [hnext, hstep]
        simp [TotpPc.Fresh])
      rw [hnext, hstep] at hrest ⊢
      have habove : ∀ s ∈ acceptedSteps P c
          ⟨step, Function.update p.threads 0 .idle⟩ schedule, step < s :=
        fun s hs => (hrest.1 s hs).resolve_left hne
      refine ⟨fun s hs => ?_, ?_⟩
      · rcases List.mem_append.mp hs with hs | hs
        · obtain rfl : s = step := by simpa using hs
          exact hlater
        · exact hlater.imp id fun hlt => UInt64.lt_trans hlt (habove s hs)
      · exact List.pairwise_cons.mpr ⟨habove, hrest.2⟩

def codeContext (P : Primitives) (c : TotpConfig) (client : PublicKey) (step : UInt64) :
    AuthContext where
  initiatorStatic := client
  handshakeHash := Vector.replicate 32 0
  presentedCredential := Text.asBytes (computeTotp P c.secret step c.digits)

theorem totpStep_call (hc : c.Valid) (hreplay : c.rejectReplay = true) (client : PublicKey)
    (hstep : step.toNat = (now / c.periodSecs).toNat + c.skewWindow.toNat) (last : UInt64) :
    totpStep P c last .idle (.call now (codeContext P c client step)) =
      (none, last, .matched step) := by
  have hid : identifyStep P c now (codeContext P c client step) = some step := by
    rw [identifyStep_code hc now step _ rfl]
    exact matchedStep_upper hstep rfl
  simp [totpStep, hid, hreplay]

theorem totpStep_load_never (step : UInt64) :
    totpStep P c neverAccepted (.matched step) .resume = (none, neverAccepted, .admitted step) := by
  rw [totpStep_load, if_neg fun h => h.1 rfl]

theorem totpStep_store (last step : UInt64) :
    totpStep P c last (.admitted step) .resume = (some (.ok step), step, .idle) := rfl

/-- Two threads present one code and load before either stores. -/
def Sample.twoLogins (P : Primitives) (c : TotpConfig) {n : ℕ} (i j : Fin n) (client : PublicKey)
    (now step : UInt64) : List (Fin n × TotpInput) :=
  [(i, .call now (codeContext P c client step)), (j, .call now (codeContext P c client step)),
    (i, .resume), (j, .resume), (i, .resume), (j, .resume)]

theorem twoLogins_accepted (hc : c.Valid) (hreplay : c.rejectReplay = true) {i j : Fin n}
    (hij : i ≠ j) (client : PublicKey)
    (hstep : step.toNat = (now / c.periodSecs).toNat + c.skewWindow.toNat) :
    acceptedSteps P c (idleThreads n) (Sample.twoLogins P c i j client now step) =
      [step, step] := by
  have hcall := totpStep_call (P := P) hc hreplay client hstep
  simp [acceptedSteps, Sample.twoLogins, Machine.trace, totpThreads, Pool.interleave, idleThreads,
    hcall, hij, hij.symm, totpStep_load_never, totpStep_store, acceptedStep]

/-- One thread presents, twice, the code of the step that stands for none. -/
def Sample.lastStepTwice (P : Primitives) (c : TotpConfig) {n : ℕ} (i : Fin n) (client : PublicKey)
    (now : UInt64) : List (Fin n × TotpInput) :=
  [(i, .call now (codeContext P c client neverAccepted)), (i, .resume), (i, .resume),
    (i, .call now (codeContext P c client neverAccepted)), (i, .resume), (i, .resume)]

theorem lastStepTwice_accepted (hc : c.Valid) (hreplay : c.rejectReplay = true) (i : Fin n)
    (client : PublicKey)
    (hstep : neverAccepted.toNat = (now / c.periodSecs).toNat + c.skewWindow.toNat) :
    acceptedSteps P c (idleThreads n) (Sample.lastStepTwice P c i client now) =
      [neverAccepted, neverAccepted] := by
  have hcall := totpStep_call (P := P) hc hreplay client hstep
  simp [acceptedSteps, Sample.lastStepTwice, Machine.trace, totpThreads, Pool.interleave,
    idleThreads, hcall, totpStep_load_never, totpStep_store, acceptedStep]

theorem not_singleUse_of_two (hc : c.Valid) (hreplay : c.rejectReplay = true)
    (hn : 2 ≤ n) : ¬ SingleUse P c n := by
  intro h
  have client : PublicKey := ⟨Vector.replicate 32 0⟩
  have hij : (⟨0, by omega⟩ : Fin n) ≠ ⟨1, by omega⟩ := by simp
  have htwice := h (Sample.twoLogins P c ⟨0, by omega⟩ ⟨1, by omega⟩ client 0 c.skewWindow.toUInt64)
  rw [twoLogins_accepted hc hreplay hij client (by simp)] at htwice
  simp at htwice

theorem not_singleUse_of_one_second (hc : c.Valid) (hreplay : c.rejectReplay = true)
    (hperiod : c.periodSecs = 1) : ¬ SingleUse P c 1 := by
  intro h
  have client : PublicKey := ⟨Vector.replicate 32 0⟩
  have hw : c.skewWindow.toNat ≤ 8 := UInt8.le_iff_toNat_le.mp hc.window
  have hstep : neverAccepted.toNat =
      ((neverAccepted - c.skewWindow.toUInt64) / c.periodSecs).toNat + c.skewWindow.toNat := by
    have hmax : neverAccepted.toNat = 2 ^ 64 - 1 := rfl
    have hle : c.skewWindow.toUInt64 ≤ neverAccepted := by
      rw [UInt64.le_iff_toNat_le, UInt8.toNat_toUInt64]
      omega
    rw [hperiod, UInt64.toNat_div, UInt64.toNat_sub_of_le _ _ hle, UInt8.toNat_toUInt64]
    change neverAccepted.toNat = (neverAccepted.toNat - c.skewWindow.toNat) / 1 + _
    omega
  have htwice := h (Sample.lastStepTwice P c 0 client (neverAccepted - c.skewWindow.toUInt64))
  rw [lastStepTwice_accepted hc hreplay 0 client hstep] at htwice
  simp at htwice

/-- With replay protection, a code is good for one login exactly if at most one thread asks, and
the period keeps the clock from the number that stands for no step. -/
theorem totp_single_use_iff (P : Primitives) (secret : Bytes) (digits : UInt8) (periodSecs : UInt64)
    (skewWindow : UInt8) (c : TotpConfig)
    (hc : TotpConfig.withKnobs secret digits periodSecs skewWindow true = .ok c) (n : ℕ) :
    SingleUse P c n ↔ n = 0 ∨ (n = 1 ∧ 2 ≤ periodSecs) := by
  obtain ⟨rfl, hvalid⟩ := TotpConfig.withKnobs_ok_iff.mp hc
  constructor
  · intro h
    match n with
    | 0 => exact Or.inl rfl
    | 1 =>
      refine Or.inr ⟨rfl, ?_⟩
      by_contra hperiod
      have hone : periodSecs = 1 := by
        have hne := hvalid.period
        grind
      exact not_singleUse_of_one_second hvalid rfl hone h
    | n + 2 => exact absurd h (not_singleUse_of_two hvalid rfl (by omega))
  · rintro (rfl | ⟨rfl, hperiod⟩)
    · intro schedule
      cases schedule with
      | nil => exact List.Pairwise.nil
      | cons e schedule => exact e.1.elim0
    · intro schedule
      exact (acceptedSteps_alone hvalid rfl hperiod schedule (idleThreads 1) trivial).2

def Sample.totpSecret : Bytes := List.replicate 16 7

def Sample.totpConfig : TotpConfig :=
  { secret := totpSecret, digits := 6, periodSecs := 30, skewWindow := 1, rejectReplay := true }

theorem single_caller_code_used_once : SingleUse .transparent Sample.totpConfig 1 :=
  (totp_single_use_iff .transparent Sample.totpSecret 6 30 1 Sample.totpConfig rfl 1).mpr
    (Or.inr ⟨rfl, by decide⟩)

/-- The code of step 1, presented by two clients at the epoch. -/
theorem code_accepted_twice :
    acceptedSteps .transparent Sample.totpConfig (idleThreads 2)
      (Sample.twoLogins .transparent Sample.totpConfig 0 1 ⟨Vector.replicate 32 5⟩ 0 1) = [1, 1] :=
  twoLogins_accepted (TotpConfig.withKnobs_ok_iff.mp (rfl :
    TotpConfig.withKnobs Sample.totpSecret 6 30 1 true = .ok Sample.totpConfig)).2 rfl (by decide)
    _ (by decide)

end Desmos.Core
