import Desmos.Proto.AntiReplay

/-! # The window refines a plain set of accepted numbers

The abstract machine keeps every number it ever accepted. The bitmap agrees with this set on the 128
numbers that still matter.
-/
namespace Desmos.Proto
open Library

abbrev AcceptedSet := Finset ℕ

namespace AcceptedSet

variable (A : AcceptedSet)

/-- The largest accepted number, zero when there is none. -/
def highest : ℕ := A.sup id

/-- The purpose of the window, stated on the set of accepted numbers. -/
def offer (seq : UInt64) : Except ReplayError Unit × AcceptedSet :=
  if A = ∅ ∨ A.highest < seq.toNat then (.ok (), insert seq.toNat A)
  else if 128 ≤ A.highest - seq.toNat then (.error .outOfWindow, A)
  else if seq.toNat ∈ A then (.error .duplicate, A)
  else (.ok (), insert seq.toNat A)

/-- The numbers whose call answered `Ok`. -/
def ofTrace (tr : List (UInt64 × Except ReplayError Unit)) : AcceptedSet :=
  (tr.filterMap fun e => match e.2 with
    | .ok _ => some e.1.toNat
    | .error _ => none).toFinset

theorem le_highest {A : AcceptedSet} {n : ℕ} (h : n ∈ A) : n ≤ A.highest :=
  Finset.le_sup (f := id) h

theorem highest_insert (n : ℕ) : highest (insert n A) = max n A.highest := by
  simp [highest, Finset.sup_insert]

theorem offer_state (seq : UInt64) : (A.offer seq).2 = A ∪ ofTrace [(seq, (A.offer seq).1)] := by
  unfold offer
  split_ifs <;> simp [ofTrace]

theorem ofTrace_cons (e : UInt64 × Except ReplayError Unit)
    (tr : List (UInt64 × Except ReplayError Unit)) :
    ofTrace (e :: tr) = ofTrace [e] ∪ ofTrace tr := by
  obtain ⟨seq, r⟩ := e
  cases r <;> simp [ofTrace]

theorem final_offer (xs : List UInt64) :
    Machine.final offer A xs = A ∪ ofTrace (Machine.trace offer A xs) := by
  induction xs generalizing A with
  | nil => simp [Machine.trace, ofTrace]
  | cons x xs ih =>
    rw [Machine.final_cons, ih, Machine.trace_cons, ofTrace_cons, ← Finset.union_assoc,
      ← offer_state]

end AcceptedSet

/-- The window stores the set as far as its 128 bits reach. -/
structure AntiReplayWindow.Represents (w : AntiReplayWindow) (A : AcceptedSet) : Prop where
  initialised : w.initialised = true ↔ A ≠ ∅
  highest : w.initialised = true → w.highest.toNat = A.highest
  bits : w.initialised = true → ∀ x, ¬ x > w.highest → w.age x < 128 →
    (w.bit x = true ↔ x.toNat ∈ A)

namespace AntiReplayWindow
open AcceptedSet

theorem new_represents : new.Represents ∅ where
  initialised := by simp [new]
  highest h := by simp [new] at h
  bits h := by simp [new] at h

section Step
variable {w : AntiReplayWindow} {A : AcceptedSet} {seq : UInt64}

theorem Represents.first (h : w.Represents A) (hi : w.initialised = false) :
    (w.checkAndUpdate seq).1 = (A.offer seq).1 ∧
      (w.checkAndUpdate seq).2.Represents (A.offer seq).2 := by
  have hA : A = ∅ := by
    by_contra hne
    simp [h.initialised.mpr hne] at hi
  subst hA
  rw [checkAndUpdate_first hi, offer, if_pos (Or.inl rfl)]
  refine ⟨rfl, by simp, fun _ => by simp [AcceptedSet.highest], fun _ x hx ha => ?_⟩
  have hle := UInt64.le_iff_toNat_le.mp (UInt64.not_lt.mp hx)
  simp only [bit, age] at hle ⊢
  simp
  omega

theorem Represents.above (h : w.Represents A) (hi : w.initialised = true) (hs : seq > w.highest) :
    (w.checkAndUpdate seq).1 = (A.offer seq).1 ∧
      (w.checkAndUpdate seq).2.Represents (A.offer seq).2 := by
  have hlt := UInt64.lt_iff_toNat_lt.mp hs
  have hh := h.highest hi
  have ho : A.offer seq = (.ok (), insert seq.toNat A) := by
    rw [offer, if_pos (Or.inr (by omega))]
  have hu := checkAndUpdate_above hi hs
  rw [ho]
  refine ⟨by rw [hu], by simp [hu, hi], fun _ => ?_, fun _ x hx ha => ?_⟩
  · rw [hu, highest_insert, max_eq_left (by omega)]
  · have htop : (w.checkAndUpdate seq).2.highest = seq := by rw [hu]
    rw [htop] at hx
    rw [age, htop] at ha
    rw [bit_above hi hs (UInt64.not_lt.mp hx) ha]
    simp only [Bool.or_eq_true, decide_eq_true_eq, Bool.and_eq_true, Finset.mem_insert,
      UInt64.toNat_inj]
    by_cases hxw : x ≤ w.highest
    · have hk := UInt64.le_iff_toNat_le.mp hxw
      simp [hxw, h.bits hi x (UInt64.not_lt.mpr hxw) (by unfold age; omega)]
    · have hk := mt UInt64.le_iff_toNat_le.mpr hxw
      have hxA : x.toNat ∉ A := fun hm => by
        have := le_highest hm
        omega
      simp [hxw, hxA]

theorem Represents.below (h : w.Represents A) (hi : w.initialised = true)
    (hs : ¬ seq > w.highest) :
    ¬ (A = ∅ ∨ A.highest < seq.toNat) ∧ A.highest - seq.toNat = w.age seq := by
  have hle := UInt64.le_iff_toNat_le.mp (UInt64.not_lt.mp hs)
  have hh := h.highest hi
  refine ⟨?_, by rw [age, hh]⟩
  rintro (he | he)
  · exact h.initialised.mp hi he
  · omega

theorem Represents.refused (h : w.Represents A) (hi : w.initialised = true)
    (hs : ¬ seq > w.highest) (hr : w.age seq < 128 → w.bit seq = true) :
    (w.checkAndUpdate seq).1 = (A.offer seq).1 ∧
      (w.checkAndUpdate seq).2.Represents (A.offer seq).2 := by
  obtain ⟨hne, ha⟩ := h.below hi hs
  by_cases ho : 128 ≤ w.age seq
  · rw [checkAndUpdate_old hi hs ho, offer, if_neg hne, ha, if_pos ho]
    exact ⟨rfl, h⟩
  · have hb := hr (by omega)
    rw [checkAndUpdate_seen hi hs (by omega) hb, offer, if_neg hne, ha, if_neg ho,
      if_pos ((h.bits hi seq hs (by omega)).mp hb)]
    exact ⟨rfl, h⟩

theorem Represents.late (h : w.Represents A) (hi : w.initialised = true) (hs : ¬ seq > w.highest)
    (ho : w.age seq < 128) (hb : w.bit seq = false) :
    (w.checkAndUpdate seq).1 = (A.offer seq).1 ∧
      (w.checkAndUpdate seq).2.Represents (A.offer seq).2 := by
  obtain ⟨hne, ha⟩ := h.below hi hs
  have hle := UInt64.le_iff_toNat_le.mp (UInt64.not_lt.mp hs)
  have hm : seq.toNat ∉ A := by
    rw [← h.bits hi seq hs ho, hb]
    simp
  have hof : A.offer seq = (.ok (), insert seq.toNat A) := by
    rw [offer, if_neg hne, ha, if_neg (by omega), if_neg hm]
  have hu := checkAndUpdate_late hi hs ho hb
  rw [hof]
  refine ⟨by rw [hu], by simp [hu, hi], fun _ => ?_, fun _ x hx hax => ?_⟩
  · rw [hu, highest_insert, ← h.highest hi, max_eq_right hle]
  · have htop : (w.checkAndUpdate seq).2.highest = w.highest := by rw [hu]
    rw [htop] at hx
    rw [age, htop] at hax
    rw [bit_late hi hs ho hb hx hax]
    simp [h.bits hi x hx hax, UInt64.toNat_inj]

end Step

theorem checkAndUpdate_simulates : Machine.Simulates checkAndUpdate offer Represents := by
  intro w A seq h
  cases w.placement seq with
  | first hi => exact h.first hi
  | above hi hs => exact h.above hi hs
  | old hi hs ho => exact h.refused hi hs fun hlt => absurd ho (Nat.not_le.mpr hlt)
  | seen hi hs ho hb => exact h.refused hi hs fun _ => hb
  | late hi hs ho hb => exact h.late hi hs ho hb

def after (xs : List UInt64) : AntiReplayWindow := Machine.final checkAndUpdate new xs

def acceptedIn (xs : List UInt64) : AcceptedSet := ofTrace (Machine.trace checkAndUpdate new xs)

theorem after_represents (xs : List UInt64) : (after xs).Represents (acceptedIn xs) := by
  have hf := checkAndUpdate_simulates.final new_represents xs
  rw [final_offer, Finset.empty_union] at hf
  rw [acceptedIn, checkAndUpdate_simulates.trace new_represents xs]
  exact hf

end AntiReplayWindow

namespace AcceptedSet

theorem offer_ok_iff (A : AcceptedSet) (seq : UInt64) :
    (A.offer seq).1 = .ok () ↔ seq.toNat ∉ A ∧
      (A = ∅ ∨ A.highest < seq.toNat ∨ A.highest - seq.toNat < 128) := by
  unfold offer
  split_ifs with hn ho hm
  · have hni : seq.toNat ∉ A := by
      rcases hn with rfl | hlt
      · simp
      · exact fun hm => absurd (le_highest hm) (by omega)
    simpa [hni] using hn.imp_right Or.inl
  · simp only [false_iff, not_and]
    rintro - (he | he | he)
    · exact hn (Or.inl he)
    · exact hn (Or.inr he)
    · omega
  · simp [hm]
  · simpa [hm] using Or.inr (Or.inr (Nat.lt_of_not_le ho))

theorem offer_outOfWindow_iff (A : AcceptedSet) (seq : UInt64) :
    (A.offer seq).1 = .error .outOfWindow ↔ 128 ≤ A.highest - seq.toNat := by
  unfold offer
  split_ifs with hn ho hm
  · simp only [false_iff, not_le]
    rcases hn with rfl | hlt
    · simp [highest]
    · omega
  · simpa using ho
  · simpa using ho
  · simpa using ho

theorem offer_duplicate_iff (A : AcceptedSet) (seq : UInt64) :
    (A.offer seq).1 = .error .duplicate ↔ seq.toNat ∈ A ∧ A.highest - seq.toNat < 128 := by
  unfold offer
  split_ifs with hn ho hm
  · simp only [false_iff, not_and]
    rcases hn with rfl | hlt
    · simp
    · exact fun hm => absurd (le_highest hm) (by omega)
  · simp only [Except.error.injEq, reduceCtorEq, false_iff, not_and]
    exact fun _ => Nat.not_lt.mpr ho
  · simpa [hm] using Nat.lt_of_not_le ho
  · simp [hm]

end AcceptedSet

namespace AntiReplayWindow

theorem checkAndUpdate_after (xs : List UInt64) (seq : UInt64) :
    ((after xs).checkAndUpdate seq).1 = ((acceptedIn xs).offer seq).1 :=
  (checkAndUpdate_simulates (after xs) (acceptedIn xs) seq (after_represents xs)).1

theorem wouldAccept_after_iff (xs : List UInt64) (seq : UInt64) :
    (after xs).wouldAccept seq = true ↔ seq.toNat ∉ acceptedIn xs ∧
      (acceptedIn xs = ∅ ∨ (acceptedIn xs).highest < seq.toNat ∨
        (acceptedIn xs).highest - seq.toNat < 128) := by
  rw [wouldAccept_iff, checkAndUpdate_after, AcceptedSet.offer_ok_iff]

/-- After any sequence of calls on a new window, the verdict on the next number
is read off the set of numbers accepted so far and its largest element; a
refused call changes nothing, and the speculative check predicts the verdict. -/
theorem checkAndUpdate_refines_acceptedSet (xs : List UInt64) (seq : UInt64) :
    (((after xs).checkAndUpdate seq).1 = .ok () ↔ seq.toNat ∉ acceptedIn xs ∧
      (acceptedIn xs = ∅ ∨ (acceptedIn xs).highest < seq.toNat ∨
        (acceptedIn xs).highest - seq.toNat < 128)) ∧
    (((after xs).checkAndUpdate seq).1 = .error .outOfWindow ↔
      128 ≤ (acceptedIn xs).highest - seq.toNat) ∧
    (((after xs).checkAndUpdate seq).1 = .error .duplicate ↔
      seq.toNat ∈ acceptedIn xs ∧ (acceptedIn xs).highest - seq.toNat < 128) ∧
    (((after xs).checkAndUpdate seq).1 ≠ .ok () → ((after xs).checkAndUpdate seq).2 = after xs) ∧
    ((after xs).wouldAccept seq = true ↔ ((after xs).checkAndUpdate seq).1 = .ok ()) := by
  have hv := checkAndUpdate_after xs seq
  refine ⟨?_, ?_, ?_, ?_, (after xs).wouldAccept_iff seq⟩
  · rw [hv, AcceptedSet.offer_ok_iff]
  · rw [hv, AcceptedSet.offer_outOfWindow_iff]
  · rw [hv, AcceptedSet.offer_duplicate_iff]
  · intro hne
    rw [checkAndUpdate_unchanged_iff, ← Bool.not_eq_true, wouldAccept_iff]
    exact hne

end AntiReplayWindow

end Desmos.Proto
