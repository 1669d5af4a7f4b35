import Desmos.Library.Buckets
import Desmos.Rt.Timer

/-! # The wheel is a sorted list

Placement is the invariant: the slot of every timer begins no earlier than the clock, and, below the
top level, less than one round of the level after it.
-/
namespace Desmos.Rt
open Library

/-- The beginning of the slot that holds time `t` at a level. -/
def slotStart (lvl : Level) (t : UInt64) : ℕ := t.toNat / 32 ^ lvl.val * 32 ^ lvl.val

theorem slotIdx_val (lvl : Level) (t : UInt64) :
    (slotIdx lvl t).val = t.toNat / 32 ^ lvl.val % 32 := by
  have hmask : ∀ n : ℕ, n &&& 31 = n % 32 := fun n => Nat.and_two_pow_sub_one_eq_mod n 5
  fin_cases lvl <;> simp [slotIdx, slotBits, slotMask, hmask, Nat.shiftRight_eq_div_pow]

theorem slotStart_le (lvl : Level) (t : UInt64) : slotStart lvl t ≤ t.toNat :=
  Nat.div_mul_le_self _ _

theorem lt_slotStart_add (lvl : Level) (t : UInt64) : t.toNat < slotStart lvl t + 32 ^ lvl.val :=
  Nat.lt_div_mul_add (Nat.pow_pos (by decide))

theorem slotStart_zero (t : UInt64) : slotStart 0 t = t.toNat := by
  simp [slotStart]

theorem slotIdx_eq_of_slotStart {lvl : Level} {t c : UInt64} (h : slotStart lvl t = c.toNat) :
    slotIdx lvl t = slotIdx lvl c := by
  apply Fin.ext
  rw [slotIdx_val, slotIdx_val, ← h, slotStart, Nat.mul_div_cancel _ (Nat.pow_pos (by decide))]

theorem levelForDelta_spec (delta : UInt64) :
    (levelForDelta delta ≠ 0 → 32 ^ (levelForDelta delta).val ≤ delta.toNat) ∧
      (levelForDelta delta ≠ 3 → delta.toNat < 32 * 32 ^ (levelForDelta delta).val) := by
  have h5 : delta < (1 : UInt64) <<< 5 ↔ delta.toNat < 32 := UInt64.lt_iff_toNat_lt
  have h10 : delta < (1 : UInt64) <<< 10 ↔ delta.toNat < 1024 := UInt64.lt_iff_toNat_lt
  have h15 : delta < (1 : UInt64) <<< 15 ↔ delta.toNat < 32768 := UInt64.lt_iff_toNat_lt
  unfold levelForDelta
  simp only [h5, h10, h15]
  split_ifs with h0 h1 h2 <;> simp <;> omega

/-- A timer in its place, at clock `c`: its slot begins at `lo` or later. -/
structure Placed (c lo : ℕ) (slot : Level × Slot) (entry : FiredTimer) : Prop where
  idx : slot.2 = slotIdx slot.1 entry.expiresAtMs
  low : lo ≤ slotStart slot.1 entry.expiresAtMs
  high : slot.1 ≠ 3 → slotStart slot.1 entry.expiresAtMs < c + 32 * 32 ^ slot.1.val

/-- The levels from `done` on have been cascaded at the current time, and the others have
not. -/
def TimerWheel.PlacedFrom (wheel : TimerWheel) (done : ℕ) : Prop :=
  ∀ slot, ∀ entry ∈ wheel.levels slot, Placed wheel.currentMs.toNat
    (if done ≤ slot.1.val then wheel.currentMs.toNat + 1 else wheel.currentMs.toNat) slot entry

section Placement
variable {wheel : TimerWheel} {done : ℕ} {lvl : Level} {entry : FiredTimer}

theorem Placed.le_expiry {c lo : ℕ} {slot : Level × Slot} (h : Placed c lo slot entry) :
    lo ≤ entry.expiresAtMs.toNat :=
  h.low.trans (slotStart_le _ _)

theorem TimerWheel.PlacedFrom.le_expiry (h : wheel.PlacedFrom done) {slot : Level × Slot}
    (hmem : entry ∈ wheel.levels slot) : wheel.currentMs.toNat ≤ entry.expiresAtMs.toNat := by
  have hle := (h slot entry hmem).le_expiry
  split at hle <;> omega

theorem insertEntry_placed (hdone : 1 ≤ done)
    (hle : wheel.currentMs.toNat ≤ entry.expiresAtMs.toNat) :
    Placed wheel.currentMs.toNat
      (if done ≤ (levelForDelta (saturatingSub64 entry.expiresAtMs wheel.currentMs)).val
        then wheel.currentMs.toNat + 1 else wheel.currentMs.toNat)
      (levelForDelta (saturatingSub64 entry.expiresAtMs wheel.currentMs),
        slotIdx (levelForDelta (saturatingSub64 entry.expiresAtMs wheel.currentMs))
          entry.expiresAtMs) entry := by
  obtain ⟨hlow, hhigh⟩ :=
    levelForDelta_spec (saturatingSub64 entry.expiresAtMs wheel.currentMs)
  rw [toNat_saturatingSub64] at hlow hhigh
  generalize levelForDelta (saturatingSub64 entry.expiresAtMs wheel.currentMs) = lvl at *
  have hstart := slotStart_le lvl entry.expiresAtMs
  have hend := lt_slotStart_add lvl entry.expiresAtMs
  refine ⟨rfl, ?_, fun h3 => ?_⟩
  · by_cases h0 : lvl = 0
    · subst h0
      rw [if_neg (not_le.mpr hdone), slotStart_zero]
      exact hle
    · have hspan := hlow h0
      simp only
      split <;> omega
  · have hspan := hhigh h3
    simp only
    omega

theorem insertEntry_placedFrom (h : wheel.PlacedFrom done) (hdone : 1 ≤ done)
    (hle : wheel.currentMs.toNat ≤ entry.expiresAtMs.toNat) :
    (wheel.insertEntry entry).PlacedFrom done := by
  intro slot e he
  have hplaced := insertEntry_placed hdone hle
  simp only [TimerWheel.insertEntry] at he ⊢
  rw [Function.update_apply] at he
  split at he
  · next hslot =>
    rcases List.mem_append.mp he with he | he
    · rw [hslot] at *
      exact h _ e he
    · obtain rfl := List.mem_singleton.mp he
      rw [hslot]
      exact hplaced
  · exact h slot e he

theorem insertEntry_content (wheel : TimerWheel) (entry : FiredTimer) :
    Buckets.content (wheel.insertEntry entry).levels = entry ::ₘ Buckets.content wheel.levels :=
  Buckets.content_push _ _ _

theorem foldl_insertEntry (hdone : 1 ≤ done) (entries : List FiredTimer)
    (h : wheel.PlacedFrom done)
    (hle : ∀ e ∈ entries, wheel.currentMs.toNat ≤ e.expiresAtMs.toNat) :
    (entries.foldl TimerWheel.insertEntry wheel).PlacedFrom done ∧
      Buckets.content (entries.foldl TimerWheel.insertEntry wheel).levels =
        Buckets.content wheel.levels + (entries : Multiset FiredTimer) ∧
      (entries.foldl TimerWheel.insertEntry wheel).currentMs = wheel.currentMs ∧
      (entries.foldl TimerWheel.insertEntry wheel).nextId = wheel.nextId := by
  induction entries generalizing wheel with
  | nil => exact ⟨h, by simp, rfl, rfl⟩
  | cons e entries ih =>
    have hplaced := insertEntry_placedFrom h hdone (hle e List.mem_cons_self)
    obtain ⟨hp, hc, hclock, hid⟩ := ih hplaced fun e' he' => hle e' (List.mem_cons_of_mem _ he')
    refine ⟨hp, ?_, hclock, hid⟩
    rw [List.foldl_cons, hc, insertEntry_content, ← Multiset.cons_coe, Multiset.cons_add,
      Multiset.add_cons]

theorem takeSlot_placedFrom (h : wheel.PlacedFrom (lvl.val + 1)) :
    (wheel.takeSlot (lvl, slotIdx lvl wheel.currentMs)).2.PlacedFrom lvl.val := by
  intro slot e he
  simp only [TimerWheel.takeSlot] at he ⊢
  rw [Function.update_apply] at he
  split at he
  · cases he
  next hne =>
  have hplaced := h slot e he
  refine ⟨hplaced.idx, ?_, hplaced.high⟩
  have hlow := hplaced.low
  by_cases heq : slot.1 = lvl
  · have hstart : slotStart slot.1 e.expiresAtMs ≠ wheel.currentMs.toNat := by
      intro hs
      apply hne
      rw [heq] at hs
      exact Prod.ext heq ((heq ▸ hplaced.idx).trans (slotIdx_eq_of_slotStart hs))
    split at hlow <;> split <;> omega
  · have hval : slot.1.val ≠ lvl.val := fun hv => heq (Fin.ext hv)
    split at hlow <;> split <;> omega

structure SameTimers (wheel wheel' : TimerWheel) : Prop where
  content : Buckets.content wheel'.levels = Buckets.content wheel.levels
  currentMs : wheel'.currentMs = wheel.currentMs
  nextId : wheel'.nextId = wheel.nextId

theorem cascadeLevel_spec (hlvl : 1 ≤ lvl.val) (h : wheel.PlacedFrom (lvl.val + 1)) :
    (wheel.cascadeLevel lvl).PlacedFrom lvl.val ∧ SameTimers wheel (wheel.cascadeLevel lvl) := by
  obtain ⟨hp, hc, hclock, hid⟩ := foldl_insertEntry hlvl
    (wheel.levels (lvl, slotIdx lvl wheel.currentMs)) (takeSlot_placedFrom h)
    fun e he => h.le_expiry he
  exact ⟨hp, hc.trans (Buckets.content_clear _ _).symm, hclock, hid⟩

theorem placedFrom_of_mod (h : wheel.PlacedFrom (lvl.val + 1))
    (hmod : wheel.currentMs.toNat % 32 ^ lvl.val ≠ 0) : wheel.PlacedFrom lvl.val := by
  intro slot e he
  have hplaced := h slot e he
  refine ⟨hplaced.idx, ?_, hplaced.high⟩
  have hlow := hplaced.low
  by_cases heq : slot.1.val = lvl.val
  · have hstart : slotStart slot.1 e.expiresAtMs ≠ wheel.currentMs.toNat := by
      intro hs
      apply hmod
      rw [← hs, slotStart, heq]
      exact Nat.mul_mod_left _ _
    split at hlow <;> split <;> omega
  · split at hlow <;> split <;> omega

theorem and_mask_eq_zero_iff {c mask : UInt64} {k : ℕ} (hmask : mask.toNat = 2 ^ k - 1) :
    c &&& mask = 0 ↔ c.toNat % 2 ^ k = 0 := by
  rw [← UInt64.toNat_inj, UInt64.toNat_and, hmask, Nat.and_two_pow_sub_one_eq_mod]
  rfl

theorem cascadeAt_spec (lvl : Level) (mask : UInt64) (hlvl : 1 ≤ lvl.val)
    (hmask : mask.toNat = 2 ^ (5 * lvl.val) - 1) (h : wheel.PlacedFrom (lvl.val + 1)) :
    (wheel.cascadeAt lvl mask).PlacedFrom lvl.val ∧ SameTimers wheel (wheel.cascadeAt lvl mask) := by
  unfold TimerWheel.cascadeAt
  split
  · exact cascadeLevel_spec hlvl h
  · next hne =>
    refine ⟨placedFrom_of_mod h fun hmod => hne ?_, rfl, rfl, rfl⟩
    rw [and_mask_eq_zero_iff hmask, pow_mul]
    exact hmod

theorem cascadeIfNeeded_spec (h : wheel.PlacedFrom 4) :
    wheel.cascadeIfNeeded.PlacedFrom 1 ∧ SameTimers wheel wheel.cascadeIfNeeded := by
  obtain ⟨h3, s3⟩ := cascadeAt_spec 3 ((1 : UInt64) <<< 15 - 1) (by decide) (by decide) h
  obtain ⟨h2, s2⟩ := cascadeAt_spec 2 ((1 : UInt64) <<< 10 - 1) (by decide) (by decide) h3
  obtain ⟨h1, s1⟩ := cascadeAt_spec 1 slotMask (by decide) (by decide) h2
  exact ⟨h1, s1.content.trans (s2.content.trans s3.content),
    s1.currentMs.trans (s2.currentMs.trans s3.currentMs), s1.nextId.trans (s2.nextId.trans s3.nextId)⟩

theorem expiry_of_mem_current (h : wheel.PlacedFrom 1)
    (hmem : entry ∈ wheel.levels (0, slotIdx 0 wheel.currentMs)) :
    entry.expiresAtMs = wheel.currentMs := by
  have hplaced := h _ entry hmem
  have hidx := congrArg Fin.val hplaced.idx
  have hlow := hplaced.low
  have hhigh := hplaced.high (show (0 : Level) ≠ 3 by decide)
  simp only [slotIdx_val, slotStart_zero, Fin.val_zero, pow_zero, Nat.div_one] at hidx hlow hhigh
  rw [if_neg (by decide)] at hlow
  apply UInt64.toNat_inj.mp
  omega

theorem tick_spec (h : wheel.PlacedFrom 4) :
    (wheel.tick.1 : Multiset FiredTimer) + Buckets.content wheel.tick.2.levels =
        Buckets.content wheel.levels ∧
      (∀ e ∈ wheel.tick.1, e.expiresAtMs = wheel.currentMs) ∧
      wheel.tick.2.PlacedFrom 0 ∧ wheel.tick.2.currentMs = wheel.currentMs ∧
      wheel.tick.2.nextId = wheel.nextId := by
  obtain ⟨hp, hsame⟩ := cascadeIfNeeded_spec h
  refine ⟨?_, fun e he => ?_, takeSlot_placedFrom hp, hsame.currentMs, hsame.nextId⟩
  · rw [add_comm]
    exact (Buckets.content_clear _ _).symm.trans hsame.content
  · exact (expiry_of_mem_current hp he).trans hsame.currentMs

theorem PlacedFrom.advance (h : wheel.PlacedFrom 0) {next : UInt64}
    (hnext : next.toNat = wheel.currentMs.toNat + 1) :
    TimerWheel.PlacedFrom { wheel with currentMs := next } 4 := by
  intro slot e he
  have hplaced := h slot e he
  have hlow := hplaced.low
  have hlvl : ¬ 4 ≤ slot.1.val := by omega
  rw [if_pos (Nat.zero_le _)] at hlow
  rw [if_neg hlvl]
  refine ⟨hplaced.idx, ?_, fun h3 => ?_⟩
  · simp only
    omega
  · have hhigh := hplaced.high h3
    simp only
    omega

end Placement

structure Polled (wheel : TimerWheel) (nowMs : UInt64) (out : List FiredTimer)
    (last : TimerWheel) : Prop where
  content : (out : Multiset FiredTimer) + Buckets.content last.levels =
    Buckets.content wheel.levels
  sorted : out.Pairwise fun a b => a.expiresAtMs ≤ b.expiresAtMs
  range : ∀ e ∈ out, wheel.currentMs ≤ e.expiresAtMs ∧ e.expiresAtMs ≤ nowMs
  placed : last.PlacedFrom 4
  clock : last.currentMs = if wheel.currentMs ≤ nowMs then nowMs + 1 else wheel.currentMs
  nextId : last.nextId = wheel.nextId

theorem Polled.after_tick {wheel last : TimerWheel} {nowMs next : UInt64} {rest : List FiredTimer}
    (h : wheel.PlacedFrom 4) (hle : wheel.currentMs ≤ nowMs)
    (hadd : U64.add true wheel.currentMs 1 = some next)
    (hrest : Polled { wheel.tick.2 with currentMs := next } nowMs rest last) :
    Polled wheel nowMs (wheel.tick.1 ++ rest) last := by
  obtain ⟨hcontent, hexp, -, -, hid⟩ := tick_spec h
  have hsucc : next = wheel.currentMs + 1 := U64.eq_of_add hadd
  have hstep : wheel.currentMs < next := by
    rw [UInt64.lt_iff_toNat_lt, U64.toNat_of_add_one hadd]
    exact Nat.lt_succ_self _
  refine ⟨?_, ?_, ?_, hrest.placed, ?_, hrest.nextId.trans hid⟩
  · have hc := hrest.content
    simp only at hc
    rw [← Multiset.coe_add, add_assoc, hc, hcontent]
  · rw [List.pairwise_append]
    refine ⟨?_, hrest.sorted, fun a ha b hb => ?_⟩
    · rw [List.pairwise_iff_forall_sublist]
      intro a b hab
      rw [hexp a (hab.subset (by simp)), hexp b (hab.subset (by simp))]
    · rw [hexp a ha]
      exact hstep.le.trans (hrest.range b hb).1
  · intro e he
    rcases List.mem_append.mp he with he | he
    · rw [hexp e he]
      exact ⟨le_rfl, hle⟩
    · exact ⟨hstep.le.trans (hrest.range e he).1, (hrest.range e he).2⟩
  · rw [hrest.clock, if_pos hle]
    split
    · rfl
    · next hgt =>
      have hnow : nowMs < next := not_le.mp hgt
      grind

theorem poll_spec {wheel : TimerWheel} {nowMs : UInt64} (hmax : nowMs ≠ 0xFFFFFFFFFFFFFFFF)
    (h : wheel.PlacedFrom 4) : Polled wheel nowMs (wheel.poll nowMs).1 (wheel.poll nowMs).2 := by
  fun_induction TimerWheel.poll wheel nowMs with
  | case1 wheel hle hadd =>
    -- the clock can always be advanced below the top
    exact absurd hadd (U64.add_one_ne_none (lt_of_le_of_lt hle (U64.lt_succ hmax)))
  | case2 wheel hle next hadd fired ticked htick rest last hpoll ih =>
    have hnext := U64.toNat_of_add_one hadd
    obtain ⟨-, -, hplaced, hclock, -⟩ := tick_spec h
    rw [htick] at hplaced hclock
    have hrest := ih (PlacedFrom.advance hplaced (by rw [hclock, hnext]))
    rw [hpoll] at hrest
    have hticked : Polled { wheel.tick.2 with currentMs := next } nowMs rest last := by
      rw [htick]
      exact hrest
    have hpolled := Polled.after_tick h hle hadd hticked
    rwa [htick] at hpolled
  | case3 wheel hgt =>
    exact ⟨by simp, .nil, by simp, h, by rw [if_neg hgt], rfl⟩

/-- The order in which timers fire. -/
def Sooner (a b : FiredTimer) : Prop := a.expiresAtMs ≤ b.expiresAtMs

instance : DecidableRel Sooner := fun a b => inferInstanceAs (Decidable (a.expiresAtMs ≤ b.expiresAtMs))
instance : Std.Total Sooner := ⟨fun a b => le_total a.expiresAtMs b.expiresAtMs⟩
instance : IsTrans FiredTimer Sooner := ⟨fun _ _ _ => le_trans⟩

/-- What the wheel is for: the pending timers, sorted by expiry. -/
structure TimerList where
  currentMs : UInt64
  nextId : UInt64
  pending : List FiredTimer
  sorted : pending.Pairwise Sooner

namespace TimerList

def new (startMs : UInt64) : TimerList :=
  { currentMs := startMs, nextId := 0, pending := [], sorted := .nil }

/-- A timer expires `afterMs` from now, or at the end of time. -/
def schedule (list : TimerList) (afterMs : UInt64) : TimerId × TimerList :=
  (list.nextId,
    { list with
      nextId := list.nextId + 1
      pending := list.pending.orderedInsert Sooner
        ⟨list.nextId, saturatingAdd64 list.currentMs afterMs⟩
      sorted := list.sorted.orderedInsert _ _ })

/-- The due timers come out, in order, and are gone. -/
def poll (list : TimerList) (nowMs : UInt64) : List FiredTimer × TimerList :=
  (list.pending.filter fun e => e.expiresAtMs ≤ nowMs,
    { list with
      currentMs := if list.currentMs ≤ nowMs then nowMs + 1 else list.currentMs
      pending := list.pending.filter fun e => nowMs < e.expiresAtMs
      sorted := list.sorted.filter _ })

end TimerList

def timerList : Machine TimerList TimerCall TimerAnswer := fun list c =>
  match c with
  | .schedule afterMs => let (id, list) := list.schedule afterMs; (.scheduled id, list)
  | .poll nowMs => let (out, list) := list.poll nowMs; (.fired out, list)

/-- The same id; or the same timers, in order of expiry. -/
def TimerAnswer.Agrees : TimerAnswer → TimerAnswer → Prop
  | .scheduled id, .scheduled id' => id = id'
  | .fired out, .fired out' => out.Perm out' ∧ out.Pairwise Sooner
  | _, _ => False

/-- The wheel holds the timers of the list. -/
structure Refines (wheel : TimerWheel) (list : TimerList) : Prop where
  placed : wheel.PlacedFrom 4
  content : (list.pending : Multiset FiredTimer) = Buckets.content wheel.levels
  currentMs : list.currentMs = wheel.currentMs
  nextId : list.nextId = wheel.nextId

section Refinement
variable {wheel : TimerWheel} {list : TimerList}

theorem new_refines (startMs : UInt64) : Refines (.new startMs) (.new startMs) := by
  refine ⟨fun slot entry hmem => ?_, Buckets.content_empty.symm, rfl, rfl⟩
  cases hmem

theorem le_saturatingAdd64 (a b : UInt64) : a.toNat ≤ (saturatingAdd64 a b).toNat := by
  unfold saturatingAdd64
  split
  · next h =>
    rw [UInt64.toNat_add, Nat.mod_eq_of_lt h]
    omega
  · have := a.toNat_lt
    have hmax : UInt64.toNat 0xFFFFFFFFFFFFFFFF = 2 ^ 64 - 1 := rfl
    omega

theorem Refines.schedule (h : Refines wheel list) (afterMs : UInt64) :
    (wheel.schedule afterMs).1 = (list.schedule afterMs).1 ∧
      Refines (wheel.schedule afterMs).2 (list.schedule afterMs).2 := by
  refine ⟨h.nextId.symm, ?_, ?_, h.currentMs, ?_⟩
  · have hplaced : TimerWheel.PlacedFrom { wheel with nextId := wheel.nextId + 1 } 4 := h.placed
    exact insertEntry_placedFrom hplaced (by decide) (le_saturatingAdd64 _ _)
  · have hperm := List.perm_orderedInsert Sooner
      ⟨list.nextId, saturatingAdd64 list.currentMs afterMs⟩ list.pending
    refine (Multiset.coe_eq_coe.mpr hperm).trans ?_
    rw [← Multiset.cons_coe, h.content, h.nextId, h.currentMs]
    exact (insertEntry_content _ _).symm
  · simp only [TimerList.schedule, h.nextId]
    rfl

theorem Refines.poll (h : Refines wheel list) {nowMs : UInt64}
    (hmax : nowMs ≠ 0xFFFFFFFFFFFFFFFF) :
    (wheel.poll nowMs).1.Perm (list.poll nowMs).1 ∧ (wheel.poll nowMs).1.Pairwise Sooner ∧
      Refines (wheel.poll nowMs).2 (list.poll nowMs).2 := by
  have hp := poll_spec hmax h.placed
  generalize wheel.poll nowMs = polled at hp ⊢
  obtain ⟨out, last⟩ := polled
  simp only at hp ⊢
  have hlate : ∀ e ∈ Buckets.content last.levels, nowMs < e.expiresAtMs := by
    intro e he
    obtain ⟨slot, hmem⟩ := Buckets.mem_content.mp he
    have hle : last.currentMs ≤ e.expiresAtMs := UInt64.le_iff_toNat_le.mpr (hp.placed.le_expiry hmem)
    rw [hp.clock] at hle
    split at hle
    · exact lt_of_lt_of_le (U64.lt_succ hmax) hle
    · next hgt => exact lt_of_lt_of_le (not_le.mp hgt) hle
  have hdue : (list.pending : Multiset FiredTimer).filter (fun e => e.expiresAtMs ≤ nowMs) = out := by
    rw [h.content, ← hp.content, Multiset.filter_add,
      Multiset.filter_eq_self.mpr fun e he => (hp.range e he).2,
      Multiset.filter_eq_nil.mpr fun e he => not_le.mpr (hlate e he), add_zero]
  have hrest : (list.pending : Multiset FiredTimer).filter (fun e => nowMs < e.expiresAtMs) =
      Buckets.content last.levels := by
    rw [h.content, ← hp.content, Multiset.filter_add,
      Multiset.filter_eq_nil.mpr fun e he => not_lt.mpr (hp.range e he).2,
      Multiset.filter_eq_self.mpr hlate, zero_add]
  refine ⟨(Multiset.coe_eq_coe.mp hdue).symm, hp.sorted, hp.placed, hrest, ?_, ?_⟩
  · rw [hp.clock, ← h.currentMs]
    rfl
  · exact h.nextId.trans hp.nextId.symm

/-- Along every run of calls, with polls below the end of time, the wheel answers as the
sorted list does; timers of one expiry may come in another order. -/
theorem wheel_is_sorted_list (startMs : UInt64) (run : List TimerCall)
    (hrun : ∀ nowMs, .poll nowMs ∈ run → nowMs ≠ 0xFFFFFFFFFFFFFFFF) :
    List.Forall₂ (fun a b => a.1 = b.1 ∧ a.2.Agrees b.2)
      (timerWheel.trace (.new startMs) run) (timerList.trace (.new startMs) run) := by
  apply Machine.trace_forall₂ (R := Refines) (A := TimerAnswer.Agrees)
    (p := fun c => ∀ nowMs, c = .poll nowMs → nowMs ≠ 0xFFFFFFFFFFFFFFFF) ?_ (new_refines startMs)
    fun c hc nowMs h => hrun nowMs (by rwa [h] at hc)
  intro wheel list c h hc
  cases c with
  | schedule afterMs => exact h.schedule afterMs
  | poll nowMs =>
    obtain ⟨hperm, hsorted, hnext⟩ := h.poll (hc nowMs rfl)
    exact ⟨⟨hperm, hsorted⟩, hnext⟩

end Refinement

/-- A timer of the second level, one beyond the range of the wheel, and a late one that
expires with the first. -/
def Sample.timers : List TimerCall :=
  [.schedule 40, .schedule 2000000, .poll 39, .schedule 0, .poll 100, .poll 3000000]

theorem sample_timers_fire : List.Forall₂ (fun a b => a.1 = b.1 ∧ a.2.Agrees b.2)
    (timerWheel.trace (.new 0) Sample.timers) (timerList.trace (.new 0) Sample.timers) := by
  apply wheel_is_sorted_list
  intro nowMs hmem
  simp only [Sample.timers, List.mem_cons, TimerCall.poll.injEq, reduceCtorEq, List.not_mem_nil,
    false_or, or_false] at hmem
  rcases hmem with rfl | rfl | rfl <;> decide

end Desmos.Rt
