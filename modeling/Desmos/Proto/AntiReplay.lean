import Desmos.Library.Machine

/-! # The 128-bit sliding anti-replay window

The window keeps the highest accepted sequence number and a bitmap whose bit `k` stands for `highest
- k`. The lemmas say once what a call can do.
-/
namespace Desmos.Proto
open Library

def windowSize : UInt64 := 128

inductive ReplayError where
  | duplicate
  | outOfWindow
  deriving DecidableEq, Repr

def ReplayError.display : ReplayError → String
  | .duplicate => "anti-replay: duplicate sequence"
  | .outOfWindow => "anti-replay: sequence out of window"

structure AntiReplayWindow where
  highest : UInt64
  bitmap : BitVec 128
  initialised : Bool
  deriving DecidableEq, Repr

namespace AntiReplayWindow

def new : AntiReplayWindow := { highest := 0, bitmap := 0, initialised := false }

/-- The mask of the bit that stands for a number `offset` below the highest. -/
def mask (offset : UInt64) : BitVec 128 := 1#128 <<< offset.toNat

section
variable (w : AntiReplayWindow) (seq : UInt64)

def wouldAccept : Bool :=
  if !w.initialised then true
  else if seq > w.highest then true
  else
    let offset := w.highest - seq
    if offset ≥ windowSize then false
    else w.bitmap &&& mask offset == 0

def checkAndUpdate : Except ReplayError Unit × AntiReplayWindow :=
  if !w.initialised then
    (.ok (), { highest := seq, bitmap := 1, initialised := true })
  else if seq > w.highest then
    let shift := seq - w.highest
    (.ok (), { w with
      bitmap := if shift ≥ windowSize then 1 else (w.bitmap <<< shift.toNat) ||| 1
      highest := seq })
  else
    let offset := w.highest - seq
    if offset ≥ windowSize then (.error .outOfWindow, w)
    else if w.bitmap &&& mask offset != 0 then (.error .duplicate, w)
    else (.ok (), { w with bitmap := w.bitmap ||| mask offset })

def age : ℕ := w.highest.toNat - seq.toNat

/-- The bit that stands for `seq`, when `seq` is not above the highest number. -/
def bit : Bool := w.bitmap.getLsbD (w.age seq)

theorem age_eq {w : AntiReplayWindow} {seq : UInt64} (h : ¬ seq > w.highest) :
    (w.highest - seq).toNat = w.age seq :=
  UInt64.toNat_sub_of_le _ _ (UInt64.not_lt.mp h)

theorem ge_windowSize_iff (x : UInt64) : x ≥ windowSize ↔ 128 ≤ x.toNat := by
  rfl

theorem and_mask_eq_zero_iff (b : BitVec 128) (offset : UInt64) (h : offset.toNat < 128) :
    b &&& mask offset = 0#128 ↔ b.getLsbD offset.toNat = false := by
  constructor
  · intro hz
    have hb := congrArg (fun x => x.getLsbD offset.toNat) hz
    simpa [mask, h] using hb
  · intro hb
    apply BitVec.eq_of_getLsbD_eq
    intro i hi
    by_cases hio : i = offset.toNat
    · simp [hio, hb]
    · simp [mask, hi]
      omega

/-- Where a number lies with respect to a window: the five ways a call can go. -/
inductive Placement (w : AntiReplayWindow) (seq : UInt64) : Prop where
  | first (hi : w.initialised = false)
  | above (hi : w.initialised = true) (hs : seq > w.highest)
  | old (hi : w.initialised = true) (hs : ¬ seq > w.highest) (ho : 128 ≤ w.age seq)
  | seen (hi : w.initialised = true) (hs : ¬ seq > w.highest) (ho : w.age seq < 128)
      (hb : w.bit seq = true)
  | late (hi : w.initialised = true) (hs : ¬ seq > w.highest) (ho : w.age seq < 128)
      (hb : w.bit seq = false)

theorem placement : w.Placement seq := by
  cases hi : w.initialised with
  | false => exact .first hi
  | true =>
    by_cases hs : seq > w.highest
    · exact .above hi hs
    · by_cases ho : 128 ≤ w.age seq
      · exact .old hi hs ho
      · cases hb : w.bit seq with
        | true => exact .seen hi hs (by omega) hb
        | false => exact .late hi hs (by omega) hb

end

section Equations
variable {w : AntiReplayWindow} {seq : UInt64}

theorem offset_ge_iff (hs : ¬ seq > w.highest) :
    w.highest - seq ≥ windowSize ↔ 128 ≤ w.age seq := by
  rw [ge_windowSize_iff, age_eq hs]

theorem marked_iff (hs : ¬ seq > w.highest) (ho : w.age seq < 128) :
    w.bitmap &&& mask (w.highest - seq) = 0#128 ↔ w.bit seq = false := by
  rw [and_mask_eq_zero_iff _ _ (by rwa [age_eq hs]), age_eq hs, bit]

theorem checkAndUpdate_first (hi : w.initialised = false) :
    w.checkAndUpdate seq = (.ok (), { highest := seq, bitmap := 1, initialised := true }) := by
  simp [checkAndUpdate, hi]

theorem checkAndUpdate_above (hi : w.initialised = true) (hs : seq > w.highest) :
    w.checkAndUpdate seq = (.ok (), { w with
      bitmap := if seq - w.highest ≥ windowSize then 1
        else (w.bitmap <<< (seq - w.highest).toNat) ||| 1
      highest := seq }) := by
  simp [checkAndUpdate, hi, hs]

theorem checkAndUpdate_old (hi : w.initialised = true) (hs : ¬ seq > w.highest)
    (ho : 128 ≤ w.age seq) : w.checkAndUpdate seq = (.error .outOfWindow, w) := by
  simp [checkAndUpdate, hi, hs, (offset_ge_iff hs).mpr ho]

theorem checkAndUpdate_seen (hi : w.initialised = true) (hs : ¬ seq > w.highest)
    (ho : w.age seq < 128) (hb : w.bit seq = true) :
    w.checkAndUpdate seq = (.error .duplicate, w) := by
  have hm : w.bitmap &&& mask (w.highest - seq) ≠ 0#128 := by
    rw [Ne, marked_iff hs ho, hb]
    simp
  simp [checkAndUpdate, hi, hs, mt (offset_ge_iff hs).mp (Nat.not_le.mpr ho), hm]

theorem checkAndUpdate_late (hi : w.initialised = true) (hs : ¬ seq > w.highest)
    (ho : w.age seq < 128) (hb : w.bit seq = false) :
    w.checkAndUpdate seq = (.ok (), { w with bitmap := w.bitmap ||| mask (w.highest - seq) }) := by
  simp [checkAndUpdate, hi, hs, mt (offset_ge_iff hs).mp (Nat.not_le.mpr ho),
    (marked_iff hs ho).mpr hb]

end Equations

section Bits
variable {w : AntiReplayWindow} {seq x : UInt64}

/-- Sliding keeps the marks still in the window, clears the gap and marks the new top. -/
theorem bit_above (hi : w.initialised = true) (hs : seq > w.highest) (hx : x ≤ seq)
    (ha : seq.toNat - x.toNat < 128) :
    (w.checkAndUpdate seq).2.bit x = (decide (x = seq) || (decide (x ≤ w.highest) && w.bit x)) := by
  rw [checkAndUpdate_above hi hs]
  have hlt := UInt64.lt_iff_toNat_lt.mp hs
  have hle := UInt64.le_iff_toNat_le.mp hx
  have hsub : (seq - w.highest).toNat = seq.toNat - w.highest.toNat :=
    UInt64.toNat_sub_of_le _ _ (UInt64.le_of_lt hs)
  have hage : seq.toNat - x.toNat = 0 ↔ x = seq := by
    rw [← UInt64.toNat_inj]
    omega
  simp only [bit, age, ge_windowSize_iff, hsub]
  by_cases hw : 128 ≤ seq.toNat - w.highest.toNat
  · have hxw : ¬ x ≤ w.highest := by
      rw [UInt64.le_iff_toNat_le]
      omega
    simp only [hw, if_true, hxw, decide_false, Bool.false_and, Bool.or_false]
    by_cases he : x = seq
    · simp [he]
    · simp [he, hage]
  · simp only [hw, if_false]
    by_cases he : x = seq
    · simp [he]
    · by_cases hxw : x ≤ w.highest
      · have hk := UInt64.le_iff_toNat_le.mp hxw
        have hd : seq.toNat - x.toNat - (seq.toNat - w.highest.toNat) =
            w.highest.toNat - x.toNat := by omega
        have hg : ¬ seq.toNat - x.toNat < seq.toNat - w.highest.toNat := by omega
        rw [BitVec.getLsbD_or, BitVec.getLsbD_shiftLeft, hd]
        simp [he, hxw, ha, hg, hage, -BitVec.getLsbD_eq_getElem]
      · have hk := mt UInt64.le_iff_toNat_le.mpr hxw
        have hg : seq.toNat - x.toNat < seq.toNat - w.highest.toNat := by omega
        simp [he, hxw, hg, hage]

theorem bit_late (hi : w.initialised = true) (hs : ¬ seq > w.highest) (ho : w.age seq < 128)
    (hb : w.bit seq = false) (hx : ¬ x > w.highest) (ha : w.age x < 128) :
    (w.checkAndUpdate seq).2.bit x = (decide (x = seq) || w.bit x) := by
  rw [checkAndUpdate_late hi hs ho hb]
  have hle := UInt64.le_iff_toNat_le.mp (UInt64.not_lt.mp hs)
  have hlx := UInt64.le_iff_toNat_le.mp (UInt64.not_lt.mp hx)
  have he : x = seq ↔ w.age x = w.age seq := by
    rw [← UInt64.toNat_inj]
    unfold age
    omega
  have hm : (mask (w.highest - seq)).getLsbD (w.age x) = decide (x = seq) := by
    rw [mask, age_eq hs, BitVec.getLsbD_shiftLeft]
    by_cases hxs : x = seq
    · simp [hxs, ho]
    · have hne : ¬ w.age x = w.age seq := mt he.mpr hxs
      simp [hxs, ha]
      omega
  change (w.bitmap ||| mask (w.highest - seq)).getLsbD (w.age x) = _
  rw [BitVec.getLsbD_or, hm, Bool.or_comm, bit]

end Bits

variable (w : AntiReplayWindow)

/-- The speculative check answers what the update would answer, in every state. -/
theorem wouldAccept_iff (seq : UInt64) :
    w.wouldAccept seq = true ↔ (w.checkAndUpdate seq).1 = .ok () := by
  cases w.placement seq with
  | first hi => simp [wouldAccept, hi, checkAndUpdate_first hi]
  | above hi hs => simp [wouldAccept, hi, hs, checkAndUpdate_above hi hs]
  | old hi hs ho =>
    simp [wouldAccept, hi, hs, (offset_ge_iff hs).mpr ho, checkAndUpdate_old hi hs ho]
  | seen hi hs ho hb =>
    have hm : w.bitmap &&& mask (w.highest - seq) ≠ 0#128 := by simp [marked_iff hs ho, hb]
    simpa [wouldAccept, hi, hs, checkAndUpdate_seen hi hs ho hb] using fun _ => hm
  | late hi hs ho hb =>
    simpa [wouldAccept, hi, hs, checkAndUpdate_late hi hs ho hb, (marked_iff hs ho).mpr hb] using
      mt (offset_ge_iff hs).mp (Nat.not_le.mpr ho)

/-- A call moves the window exactly when it accepts its number. -/
theorem checkAndUpdate_unchanged_iff (seq : UInt64) :
    (w.checkAndUpdate seq).2 = w ↔ w.wouldAccept seq = false := by
  rw [← Bool.not_eq_true, wouldAccept_iff]
  cases w.placement seq with
  | first hi =>
    rw [checkAndUpdate_first hi]
    simp only [not_true_eq_false, iff_false]
    intro he
    simpa [hi] using congrArg AntiReplayWindow.initialised he
  | above hi hs =>
    rw [checkAndUpdate_above hi hs]
    simp only [not_true_eq_false, iff_false]
    intro he
    have hh : seq = w.highest := congrArg AntiReplayWindow.highest he
    simp [hh] at hs
  | old hi hs ho => simp [checkAndUpdate_old hi hs ho]
  | seen hi hs ho hb => simp [checkAndUpdate_seen hi hs ho hb]
  | late hi hs ho hb =>
    rw [checkAndUpdate_late hi hs ho hb]
    simp only [not_true_eq_false, iff_false]
    intro he
    have hm : (mask (w.highest - seq)).getLsbD (w.age seq) = true := by
      simp [mask, age_eq hs, ho]
    have hh : (w.bitmap ||| mask (w.highest - seq)).getLsbD (w.age seq) = w.bit seq :=
      congrArg (fun x => x.bitmap.getLsbD (w.age seq)) he
    rw [BitVec.getLsbD_or, hm, hb] at hh
    simp at hh

theorem wouldAccept_eq_false_iff (seq : UInt64) : w.wouldAccept seq = false ↔
      w.initialised = true ∧ ¬ seq > w.highest ∧ (w.age seq < 128 → w.bit seq = true) := by
  rw [← Bool.not_eq_true, wouldAccept_iff]
  cases w.placement seq with
  | first hi => simp [checkAndUpdate_first hi, hi]
  | above hi hs => simp [checkAndUpdate_above hi hs, hs]
  | old hi hs ho => simp [checkAndUpdate_old hi hs ho, hi, hs, Nat.not_lt.mpr ho]
  | seen hi hs ho hb => simp [checkAndUpdate_seen hi hs ho hb, hi, hs, hb]
  | late hi hs ho hb => simp [checkAndUpdate_late hi hs ho hb, ho, hb]

/-- Whatever the answer was, the number just offered is refused from now on. -/
theorem wouldAccept_self (seq : UInt64) : (w.checkAndUpdate seq).2.wouldAccept seq = false := by
  rw [wouldAccept_eq_false_iff]
  cases w.placement seq with
  | first hi => simp [checkAndUpdate_first hi, bit, age]
  | above hi hs =>
    have hb := bit_above hi hs (UInt64.le_refl seq) (by omega)
    rw [checkAndUpdate_above hi hs] at hb ⊢
    refine ⟨hi, UInt64.lt_irrefl seq, fun _ => ?_⟩
    rw [hb]
    simp
  | old hi hs ho =>
    rw [checkAndUpdate_old hi hs ho]
    exact ⟨hi, hs, fun h => absurd h (Nat.not_lt.mpr ho)⟩
  | seen hi hs ho hb =>
    rw [checkAndUpdate_seen hi hs ho hb]
    exact ⟨hi, hs, fun _ => hb⟩
  | late hi hs ho hb =>
    have hb' := bit_late hi hs ho hb hs ho
    rw [checkAndUpdate_late hi hs ho hb] at hb' ⊢
    refine ⟨hi, hs, fun _ => ?_⟩
    rw [hb']
    simp

/-- A number once refused stays refused, whatever is offered in between. -/
theorem wouldAccept_antitone {w : AntiReplayWindow} {seq : UInt64}
    (h : w.wouldAccept seq = false) (x : UInt64) :
    (w.checkAndUpdate x).2.wouldAccept seq = false := by
  obtain ⟨hi, hs, hm⟩ := (wouldAccept_eq_false_iff w seq).mp h
  rw [wouldAccept_eq_false_iff]
  cases w.placement x with
  | first hi' => simp [hi] at hi'
  | above _ hx =>
    have hsx : seq ≤ x := UInt64.le_of_lt (UInt64.lt_of_le_of_lt (UInt64.not_lt.mp hs) hx)
    have hle := UInt64.le_iff_toNat_le.mp (UInt64.not_lt.mp hs)
    have hlt := UInt64.lt_iff_toNat_lt.mp hx
    have hb : x.toNat - seq.toNat < 128 → (w.checkAndUpdate x).2.bit seq = true := by
      intro ha
      have hbit : w.bit seq = true := hm (by unfold age; omega)
      rw [bit_above hi hx hsx ha, hbit, decide_eq_true (UInt64.not_lt.mp hs)]
      simp
    rw [checkAndUpdate_above hi hx] at hb ⊢
    exact ⟨hi, UInt64.not_lt.mpr hsx, hb⟩
  | old _ hx ho =>
    rw [checkAndUpdate_old hi hx ho]
    exact ⟨hi, hs, hm⟩
  | seen _ hx ho hb =>
    rw [checkAndUpdate_seen hi hx ho hb]
    exact ⟨hi, hs, hm⟩
  | late _ hx ho hb =>
    have hb' : w.age seq < 128 → (w.checkAndUpdate x).2.bit seq = true := by
      intro ha
      rw [bit_late hi hx ho hb hs ha, hm ha, Bool.or_true]
    rw [checkAndUpdate_late hi hx ho hb] at hb' ⊢
    exact ⟨hi, hs, hb'⟩

end AntiReplayWindow

end Desmos.Proto
