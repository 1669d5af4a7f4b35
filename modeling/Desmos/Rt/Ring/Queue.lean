import Desmos.Rt.Ring

/-! # The ring is a bounded queue

The slots from `head` on hold the queue; at its two ends each thread may be one step ahead of its
counter: the producer with a value not yet published, the consumer with a value not yet released.
-/
namespace Desmos.Rt
open Library

variable {w k : ℕ} {T : Type*}

/-- A bounded queue, seen through the events of the ring. -/
inductive QueueStep (cap : ℕ) : List T → RingEvent T → List T → Prop
  | loaded (q : List T) : QueueStep cap q .loaded q
  | wrote (q : List T) : QueueStep cap q (.wrote none) q
  | read (q : List T) (value : T) : QueueStep cap q (.read (some value)) q
  | pushed {q : List T} (value : T) (hroom : q.length < cap) :
    QueueStep cap q (.pushed value) (q ++ [value])
  | full {q : List T} (value : T) (hfull : q.length = cap) : QueueStep cap q (.full value) q
  | popped (value : T) (q : List T) : QueueStep cap (value :: q) (.popped value) q
  | empty : QueueStep cap [] .empty []

inductive QueueRun (cap : ℕ) : List T → List (RingEvent T) → List T → Prop
  | nil (q : List T) : QueueRun cap q [] q
  | cons {q q' q'' : List T} {e : RingEvent T} {es : List (RingEvent T)}
    (step : QueueStep cap q e q') (rest : QueueRun cap q' es q'') : QueueRun cap q (e :: es) q''

def RingEvent.pushedValue : RingEvent T → Option T
  | .pushed value => some value
  | _ => none

def RingEvent.poppedValue : RingEvent T → Option T
  | .popped value => some value
  | _ => none

variable {cap : ℕ} {q q' : List T} {e : RingEvent T} {es : List (RingEvent T)}
  {p : Pool Side (SpscRing w T) (RingThread w T)}

theorem QueueStep.conserves (h : QueueStep cap q e q') :
    q ++ e.pushedValue.toList = e.poppedValue.toList ++ q' := by
  cases h <;> simp [RingEvent.pushedValue, RingEvent.poppedValue]

theorem QueueRun.conserves (h : QueueRun cap q es q') :
    q ++ es.filterMap RingEvent.pushedValue = es.filterMap RingEvent.poppedValue ++ q' := by
  induction h with
  | nil q => simp
  | @cons q q' q'' e es step rest ih =>
    have hcons : ∀ (f : RingEvent T → Option T),
        (e :: es).filterMap f = (f e).toList ++ es.filterMap f := by
      intro f
      cases hf : f e <;> simp [hf]
    rw [hcons, hcons, ← List.append_assoc, step.conserves, List.append_assoc, List.append_assoc, ih]

theorem QueueStep.length_le (h : QueueStep cap q e q') (hq : q.length ≤ cap) : q'.length ≤ cap := by
  cases h with
  | pushed value hroom => simpa using hroom
  | popped value q =>
    rw [List.length_cons] at hq
    omega
  | _ => exact hq

theorem QueueRun.length_le (h : QueueRun cap q es q') (hq : q.length ≤ cap) : q'.length ≤ cap := by
  induction h with
  | nil => exact hq
  | cons step rest ih => exact ih (step.length_le hq)

theorem QueueRun.accesses (h : QueueRun cap q es q') (old : Option T) :
    (.wrote old ∈ es → old = none) ∧ (.read old ∈ es → old ≠ none) := by
  induction h with
  | nil => simp
  | cons step rest ih =>
    constructor
    · intro hmem
      rcases List.mem_cons.mp hmem with rfl | hmem
      · cases step
        rfl
      · exact ih.1 hmem
    · intro hmem
      rcases List.mem_cons.mp hmem with rfl | hmem
      · cases step
        simp
      · exact ih.2 hmem

/-- The value that the producer has written and not yet published. -/
def RingThread.written : RingThread w T → Option T
  | .pushStoreTail value _ => some value
  | _ => none

/-- The value that the consumer has taken out and not yet released. -/
def RingThread.taken : RingThread w T → Option T
  | .popStoreHead _ value => some value
  | _ => none

def ProducerKnows (cap : ℕ) (r : SpscRing w T) (q : List T) : RingThread w T → Prop
  | .idle => True
  | .pushLoadHead _ tail => tail = r.tail
  | .pushWrite _ tail => tail = r.tail ∧ q.length < cap
  | .pushStoreTail _ tail => tail = r.tail ∧ q.length < cap
  | _ => False

def ConsumerKnows (r : SpscRing w T) (q : List T) : RingThread w T → Prop
  | .idle => True
  | .popLoadTail head => head = r.head
  | .popRead head => head = r.head ∧ q ≠ []
  | .popStoreHead head value => head = r.head ∧ q.head? = some value
  | _ => False

/-- The slot `i` places behind the head. -/
def SpscRing.at (r : SpscRing w T) (i : ℕ) : Option T :=
  r.buffer (r.slot (r.head + BitVec.ofNat w i))

/-- The ring and its two threads represent the queue `q`. -/
structure Represents (k : ℕ) (r : SpscRing w T) (prod cons : RingThread w T) (q : List T) :
    Prop where
  mask : r.mask.toNat + 1 = 2 ^ k
  tail : r.tail = r.head + BitVec.ofNat w q.length
  length : q.length ≤ 2 ^ k
  slots : ∀ i < 2 ^ k,
    r.at i = if i = 0 ∧ cons.taken ≠ none then none else (q ++ prod.written.toList)[i]?
  producer : ProducerKnows (2 ^ k) r q prod
  consumer : ConsumerKnows r q cons

section Slots
variable {r : SpscRing w T} {i j : ℕ}

theorem SpscRing.slot_val (hk : k ≤ w) (hm : r.mask.toNat + 1 = 2 ^ k) (cur : BitVec w) (i : ℕ) :
    (r.slot (cur + BitVec.ofNat w i)).val = (cur.toNat + i) % 2 ^ k := by
  change (cur + BitVec.ofNat w i &&& r.mask).toNat = _
  rw [Counter.toNat_and_mask hm, Counter.toNat_add_ofNat_mod hk]

theorem SpscRing.slot_inj (hk : k ≤ w) (hm : r.mask.toNat + 1 = 2 ^ k) (hi : i < 2 ^ k)
    (hj : j < 2 ^ k)
    (h : r.slot (r.head + BitVec.ofNat w i) = r.slot (r.head + BitVec.ofNat w j)) : i = j := by
  have hv := congrArg Fin.val h
  rw [slot_val hk hm, slot_val hk hm] at hv
  exact Counter.offset_inj hi hj hv

theorem SpscRing.at_write (hk : k ≤ w) (hm : r.mask.toNat + 1 = 2 ^ k) (hi : i < 2 ^ k)
    (hj : j < 2 ^ k) (v : Option T) :
    (r.write (r.head + BitVec.ofNat w j) v).at i = if i = j then v else r.at i := by
  change Function.update r.buffer (r.slot (r.head + BitVec.ofNat w j)) v
    (r.slot (r.head + BitVec.ofNat w i)) = _
  split_ifs with hij
  · rw [hij, Function.update_self]
  · exact Function.update_of_ne (fun h => hij (slot_inj hk hm hi hj h)) v r.buffer

theorem SpscRing.at_advance (hk : k ≤ w) (hm : r.mask.toNat + 1 = 2 ^ k) (i : ℕ) :
    SpscRing.at { r with head := r.head + 1 } i = r.at ((i + 1) % 2 ^ k) := by
  change r.buffer (r.slot (r.head + 1 + BitVec.ofNat w i)) = _
  congr 1
  apply Fin.ext
  have hone : r.head + 1 + BitVec.ofNat w i = r.head + BitVec.ofNat w (i + 1) := by
    rw [BitVec.ofNat_add, add_assoc, add_comm (BitVec.ofNat w i)]
    rfl
  rw [hone, slot_val hk hm, slot_val hk hm, Nat.add_mod_mod]

end Slots

variable {value : T}

namespace Represents
variable {r : SpscRing w T} {prod cons : RingThread w T} {q : List T} {tail head : BitVec w}

section
variable (h : Represents k r prod cons q)
include h

theorem capacity_toNat (hk : k < w) : r.capacity.toNat = 2 ^ k := by
  have hw : 2 ^ k < 2 ^ w := Nat.pow_lt_pow_right (by decide) hk
  rw [SpscRing.capacity, BitVec.toNat_add, Counter.toNat_one (by omega), h.mask,
    Nat.mod_eq_of_lt hw]

/-- Both counters are exact: their distance is the length of the queue. -/
theorem length_toNat (hk : k < w) : (r.tail - r.head).toNat = q.length := by
  have hw : 2 ^ k < 2 ^ w := Nat.pow_lt_pow_right (by decide) hk
  rw [h.tail, add_sub_cancel_left, BitVec.toNat_ofNat, Nat.mod_eq_of_lt (h.length.trans_lt hw)]

theorem full_iff (hk : k < w) : r.tail - r.head = r.capacity ↔ q.length = 2 ^ k := by
  rw [← BitVec.toNat_inj, h.length_toNat hk, h.capacity_toNat hk]

theorem empty_iff (hk : k < w) : r.head = r.tail ↔ q = [] := by
  rw [eq_comm, ← sub_eq_zero, ← BitVec.toNat_inj, h.length_toNat hk]
  simp

theorem taken_ne_nil (ht : cons.taken ≠ none) : q ≠ [] := by
  have hc := h.consumer
  cases cons with
  | popStoreHead head value =>
    rintro rfl
    simp [ConsumerKnows] at hc
  | _ => simp [RingThread.taken] at ht

theorem slot_tail (hroom : q.length < 2 ^ k) : r.buffer (r.slot r.tail) = prod.written := by
  have hat := h.slots q.length hroom
  rw [SpscRing.at, ← h.tail] at hat
  rw [hat, if_neg]
  · cases prod.written <;> simp
  · rintro ⟨h0, ht⟩
    exact h.taken_ne_nil ht (List.eq_nil_of_length_eq_zero h0)

theorem slot_head (hq : q.head? = some value)
    (ht : cons.taken = none) : r.buffer (r.slot r.head) = some value := by
  have hat := h.slots 0 (Nat.two_pow_pos k)
  obtain ⟨q', rfl⟩ := List.head?_eq_some_iff.mp hq
  rw [if_neg fun hc => hc.2 ht, SpscRing.at] at hat
  simpa using hat

end

theorem write (hk : k ≤ w) (h : Represents k r (.pushWrite value tail) cons q) :
    Represents k (r.write tail (some value)) (.pushStoreTail value tail) cons q := by
  obtain ⟨rfl, hroom⟩ := h.producer
  refine ⟨h.mask, h.tail, h.length, fun i hi => ?_, ⟨rfl, hroom⟩, ?_⟩
  · rw [h.tail, SpscRing.at_write hk h.mask hi hroom, h.slots i hi]
    by_cases hiq : i = q.length
    · have hne : ¬ (i = 0 ∧ cons.taken ≠ none) := by
        rintro ⟨h0, ht⟩
        exact h.taken_ne_nil ht (List.eq_nil_of_length_eq_zero (hiq ▸ h0))
      rw [if_pos hiq, if_neg hne, hiq]
      simp [RingThread.written]
    · split_ifs
      · rfl
      · rcases Nat.lt_or_gt_of_ne hiq with hlt | hgt
        · rw [List.getElem?_append_left hlt, List.getElem?_append_left hlt]
        · rw [List.getElem?_eq_none (by simp [RingThread.written]; omega),
            List.getElem?_eq_none (by simp [RingThread.written]; omega)]
  · have hc := h.consumer
    cases cons <;> exact hc

theorem publish (h : Represents k r (.pushStoreTail value tail) cons q) :
    Represents k { r with tail := tail + 1 } .idle cons (q ++ [value]) := by
  obtain ⟨rfl, hroom⟩ := h.producer
  refine ⟨h.mask, ?_, by simpa using hroom, fun i hi => ?_, trivial, ?_⟩
  · rw [h.tail, List.length_append, BitVec.ofNat_add, add_assoc]
    rfl
  · have hidle : (RingThread.idle : RingThread w T).written = none := rfl
    rw [hidle, Option.toList_none, List.append_nil]
    exact h.slots i hi
  · have hc := h.consumer
    cases cons with
    | popRead head => exact ⟨hc.1, by simp⟩
    | popStoreHead head v => exact ⟨hc.1, by rw [List.head?_append, hc.2]; rfl⟩
    | _ => exact hc

theorem take (hk : k ≤ w) (h : Represents k r prod (.popRead head) q) (hq : q.head? = some value) :
    Represents k (r.write head none) prod (.popStoreHead head value) q := by
  obtain ⟨rfl, hne⟩ := h.consumer
  have hzero : r.head = r.head + BitVec.ofNat w 0 := by simp
  refine ⟨h.mask, h.tail, h.length, fun i hi => ?_, ?_, ⟨rfl, hq⟩⟩
  · rw [hzero, SpscRing.at_write hk h.mask hi (Nat.two_pow_pos k), h.slots i hi]
    by_cases hi0 : i = 0
    · simp [hi0, RingThread.taken]
    · simp [hi0]
  · have hp := h.producer
    cases prod <;> exact hp

theorem release (hk : k ≤ w) (h : Represents k r prod (.popStoreHead head value) (value :: q)) :
    Represents k { r with head := head + 1 } prod .idle q := by
  obtain ⟨rfl, -⟩ := h.consumer
  have hlen : q.length + 1 ≤ 2 ^ k := by simpa using h.length
  have hwritten : q.length + prod.written.toList.length < 2 ^ k := by
    have hp := h.producer
    cases prod with
    | pushStoreTail v tail =>
      have := hp.2
      simpa [RingThread.written] using this
    | _ => simpa [RingThread.written] using hlen
  refine ⟨h.mask, ?_, by omega, fun i hi => ?_, ?_, trivial⟩
  · rw [h.tail, List.length_cons, Nat.add_comm, BitVec.ofNat_add, add_assoc]
    rfl
  · rw [SpscRing.at_advance hk h.mask i, if_neg (by simp [RingThread.taken])]
    by_cases hlast : i + 1 = 2 ^ k
    · rw [hlast, Nat.mod_self, h.slots 0 (Nat.two_pow_pos k), if_pos ⟨rfl, by simp [RingThread.taken]⟩,
        List.getElem?_eq_none (by rw [List.length_append]; omega)]
    · have hi1 : i + 1 < 2 ^ k := by omega
      rw [Nat.mod_eq_of_lt hi1, h.slots (i + 1) hi1, if_neg (by omega)]
      simp
  · have hp := h.producer
    cases prod with
    | pushWrite v tail => exact ⟨hp.1, by omega⟩
    | pushStoreTail v tail => exact ⟨hp.1, by omega⟩
    | _ => exact hp

theorem tryPush (hk : k < w) (h : Represents k r prod cons q) (value : T) : ∃ q',
    QueueStep (2 ^ k) q (tryPush r prod value).1 q' ∧
      Represents k (tryPush r prod value).2.1 (tryPush r prod value).2.2 cons q' := by
  cases prod with
  | idle => exact ⟨q, .loaded q, h.mask, h.tail, h.length, h.slots, rfl, h.consumer⟩
  | pushLoadHead v tail =>
    obtain rfl : tail = r.tail := h.producer
    by_cases hfull : q.length = 2 ^ k
    · simp only [Rt.tryPush, if_pos ((h.full_iff hk).mpr hfull)]
      exact ⟨q, .full v hfull, h.mask, h.tail, h.length, h.slots, trivial, h.consumer⟩
    · have hroom : q.length < 2 ^ k := lt_of_le_of_ne h.length hfull
      simp only [Rt.tryPush, if_neg (mt (h.full_iff hk).mp hfull)]
      exact ⟨q, .loaded q, h.mask, h.tail, h.length, h.slots, ⟨rfl, hroom⟩, h.consumer⟩
  | pushWrite v tail =>
    obtain ⟨rfl, hroom⟩ := h.producer
    refine ⟨q, ?_, h.write hk.le⟩
    have hempty : r.buffer (r.slot r.tail) = none := h.slot_tail hroom
    simp only [Rt.tryPush, hempty]
    exact .wrote q
  | pushStoreTail v tail => exact ⟨q ++ [v], .pushed v h.producer.2, h.publish⟩
  | _ => exact h.producer.elim

theorem tryPop (hk : k < w) (h : Represents k r prod cons q) (value : T) : ∃ q',
    QueueStep (2 ^ k) q (tryPop r cons value).1 q' ∧
      Represents k (tryPop r cons value).2.1 prod (tryPop r cons value).2.2 q' := by
  cases cons with
  | idle => exact ⟨q, .loaded q, h.mask, h.tail, h.length, h.slots, h.producer, rfl⟩
  | popLoadTail head =>
    obtain rfl : head = r.head := h.consumer
    by_cases hempty : q = []
    · simp only [Rt.tryPop, if_pos ((h.empty_iff hk).mpr hempty)]
      subst hempty
      exact ⟨[], .empty, h.mask, h.tail, h.length, h.slots, h.producer, trivial⟩
    · simp only [Rt.tryPop, if_neg (mt (h.empty_iff hk).mp hempty)]
      exact ⟨q, .loaded q, h.mask, h.tail, h.length, h.slots, h.producer, rfl, hempty⟩
  | popRead head =>
    obtain ⟨rfl, hne⟩ := h.consumer
    obtain ⟨v, q', rfl⟩ := List.exists_cons_of_ne_nil hne
    have hfull : r.buffer (r.slot r.head) = some v := h.slot_head rfl rfl
    simp only [Rt.tryPop, hfull]
    exact ⟨v :: q', .read _ v, h.take hk.le rfl⟩
  | popStoreHead head v =>
    obtain ⟨q', rfl⟩ := List.head?_eq_some_iff.mp h.consumer.2
    exact ⟨q', .popped v q', h.release hk.le⟩
  | _ => exact h.consumer.elim

theorem dropFrom (hk : k < w) (h : Represents k r .idle .idle q) {done rest : List T}
    (hq : q = done ++ rest) :
    r.dropFrom (r.head + BitVec.ofNat w done.length) = some rest := by
  have hw : 2 ^ k < 2 ^ w := Nat.pow_lt_pow_right (by decide) hk
  induction rest generalizing done with
  | nil =>
    rw [List.append_nil] at hq
    rw [SpscRing.dropFrom, dif_pos (by rw [h.tail, hq])]
  | cons v rest ih =>
    have hlen := h.length
    rw [hq, List.length_append, List.length_cons] at hlen
    have hnext : r.head + BitVec.ofNat w done.length + 1 =
        r.head + BitVec.ofNat w (done ++ [v]).length := by
      rw [List.length_append, BitVec.ofNat_add, add_assoc]
      rfl
    have hslot : r.buffer (r.slot (r.head + BitVec.ofNat w done.length)) = some v := by
      have hat := h.slots done.length (by omega)
      rw [if_neg fun hc => hc.2 rfl, hq] at hat
      simpa [SpscRing.at, RingThread.written] using hat
    rw [SpscRing.dropFrom, dif_neg, hslot, hnext, ih (by simpa using hq)]
    · rfl
    · rw [h.tail, hq]
      intro heq
      have := Counter.ofNat_inj (by omega) (by rw [List.length_append, List.length_cons]; omega)
        (add_left_cancel heq)
      rw [List.length_append, List.length_cons] at this
      omega

end Represents

theorem newSplit_represents {capacity : BitVec w} {r : SpscRing w T}
    (h : SpscRing.newSplit capacity = some r) :
    ∃ k < w, capacity.toNat = 2 ^ k ∧ Represents k r .idle .idle [] := by
  unfold SpscRing.newSplit at h
  split at h
  · cases h
  split at h
  · cases h
  next hpow =>
  cases h
  obtain ⟨k, hk, rfl⟩ : ∃ k < w, capacity = BitVec.ofNat w (2 ^ k) := by
    simpa [SpscRing.isPowerOfTwo] using hpow
  have hw : 2 ^ k < 2 ^ w := Nat.pow_lt_pow_right (by decide) hk
  have hcap : (BitVec.ofNat w (2 ^ k)).toNat = 2 ^ k := by
    rw [BitVec.toNat_ofNat, Nat.mod_eq_of_lt hw]
  have hone : (1 : BitVec w).toNat = 1 := Counter.toNat_one (by omega)
  have hpos : 0 < 2 ^ k := Nat.two_pow_pos k
  refine ⟨k, hk, hcap, ?_, by simp, by simp, ?_, trivial, trivial⟩
  · rw [BitVec.toNat_sub_of_le (by rw [BitVec.le_def, hone, hcap]; omega), hone, hcap]
    omega
  · intro i hi
    simp [SpscRing.at, RingThread.taken, RingThread.written]

def PoolRepresents (k : ℕ) (p : Pool Side (SpscRing w T) (RingThread w T)) (q : List T) : Prop :=
  Represents k p.shared (p.threads .producer) (p.threads .consumer) q

theorem PoolRepresents.step (hk : k < w) (h : PoolRepresents k p q) (e : Side × T) : ∃ q',
      QueueStep (2 ^ k) q (Pool.interleave ringProgram p e).1 q' ∧
        PoolRepresents k (Pool.interleave ringProgram p e).2 q' := by
  obtain ⟨side, value⟩ := e
  cases side with
  | producer => exact Represents.tryPush hk h value
  | consumer => exact Represents.tryPop hk h value

theorem PoolRepresents.run (hk : k < w) (schedule : List (Side × T)) (h : PoolRepresents k p q) :
    ∃ q',
      QueueRun (2 ^ k) q (((Pool.interleave ringProgram).trace p schedule).map Prod.snd) q' ∧
        PoolRepresents k ((Pool.interleave ringProgram).final p schedule) q' := by
  induction schedule generalizing p q with
  | nil => exact ⟨q, .nil q, h⟩
  | cons e schedule ih =>
    obtain ⟨q', hstep, hnext⟩ := h.step hk e
    obtain ⟨q'', hrun, hfinal⟩ := ih hnext
    exact ⟨q'', .cons hstep hrun, hfinal⟩

/-- For every accepted capacity and every interleaving: the values popped are the values pushed, in
order and up to what is still queued; no slot is written over a value or read without one; and a
ring that both threads have left drops the rest. -/
theorem ring_is_bounded_queue {capacity : BitVec w} {r : SpscRing w T}
    (hnew : SpscRing.newSplit capacity = some r) (schedule : List (Side × T)) : ∃ queue,
      QueueRun capacity.toNat [] (ringEvents r schedule) queue ∧
      (ringEvents r schedule).filterMap RingEvent.pushedValue =
        (ringEvents r schedule).filterMap RingEvent.poppedValue ++ queue ∧
      queue.length ≤ capacity.toNat ∧
      (∀ old, (.wrote old ∈ ringEvents r schedule → old = none) ∧
        (.read old ∈ ringEvents r schedule → old ≠ none)) ∧
      ((∀ side, (ringAfter r schedule).threads side = .idle) →
        (ringAfter r schedule).shared.dropRing = some queue) := by
  obtain ⟨k, hk, hcap, hrep⟩ := newSplit_represents hnew
  obtain ⟨queue, hrun, hfinal⟩ := PoolRepresents.run hk schedule (p := ringPool r) hrep
  rw [hcap]
  refine ⟨queue, hrun, hrun.conserves, hrun.length_le (by simp), hrun.accesses, ?_⟩
  intro hidle
  have hrest : Represents k (ringAfter r schedule).shared .idle .idle queue := by
    have hf : PoolRepresents k (ringAfter r schedule) queue := hfinal
    rwa [PoolRepresents, hidle, hidle] at hf
  have hdrop : (ringAfter r schedule).shared.dropFrom
      ((ringAfter r schedule).shared.head + BitVec.ofNat w ([] : List T).length) = some queue :=
    hrest.dropFrom hk rfl
  simpa [SpscRing.dropRing] using hdrop

/-- Five times one push and one pop, over words of two bits: both counters wrap. -/
def Sample.wrapping : List (Side × Char) :=
  (List.replicate 5 (List.replicate 4 (.producer, 'x') ++ List.replicate 4 (.consumer, 'x'))).flatten

theorem ring_of_two : ∃ r : SpscRing 2 Char, SpscRing.newSplit 2 = some r ∧ ∃ queue,
    (ringEvents r Sample.wrapping).filterMap RingEvent.pushedValue =
      (ringEvents r Sample.wrapping).filterMap RingEvent.poppedValue ++ queue ∧
    ((∀ side, (ringAfter r Sample.wrapping).threads side = .idle) →
      (ringAfter r Sample.wrapping).shared.dropRing = some queue) := by
  obtain ⟨r, hnew⟩ : ∃ r : SpscRing 2 Char, SpscRing.newSplit 2 = some r := ⟨_, rfl⟩
  obtain ⟨queue, -, hvalues, -, -, hdrop⟩ := ring_is_bounded_queue hnew Sample.wrapping
  exact ⟨r, hnew, queue, hvalues, hdrop⟩

end Desmos.Rt
