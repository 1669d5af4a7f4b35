import Desmos.Core.Broadcast
import Desmos.Library.RingSlots

/-! # What a receiver gets of the broadcast stream

A poll that comes between the two steps of a `send`, or that is overtaken while it reads, finds
another item than the one it passes and loses that one for good.
-/
namespace Desmos.Core
open Library Library.RingSlots

section Invariant
variable {T ι : Type*} {k begun : ℕ} {r : Broadcast T} {sent : List (Arc T)} {trap : Bool}
  {capacity pos : UInt64} {t : Progress T}

theorem nextPowerOfTwo_some {n m : UInt64} (h : nextPowerOfTwo trap n = some m) :
    m = 0 ∨ ∃ k < 64, m.toNat = 2 ^ k := by
  obtain ⟨k, hk⟩ := Nat.isPowerOfTwo_nextPowerOfTwo n.toNat
  unfold nextPowerOfTwo at h
  rw [hk] at h
  split_ifs at h with hfits
  · cases h
    exact Or.inr ⟨k, (Nat.pow_lt_pow_iff_right (by omega)).mp hfits,
      UInt64.toNat_ofNat_of_lt' hfits⟩
  · exact Or.inl (Option.some.inj h).symm

theorem Broadcast.new_some (h : Broadcast.new trap capacity = some r) :
    ∃ k < 64, r.mask.toNat + 1 = 2 ^ k ∧ r.writePos = 0 ∧ r.arcs = 0 ∧ ∀ i, r.slots i = none := by
  obtain ⟨n, hn, rfl⟩ := Option.map_eq_some_iff.mp h
  have hcap : ∃ k < 64, (if n < 2 then 2 else n).toNat = 2 ^ k := by
    split_ifs with hsmall
    · exact ⟨1, by omega, rfl⟩
    · rcases nextPowerOfTwo_some hn with rfl | hpow
      · exact absurd (by decide) hsmall
      · exact hpow
  obtain ⟨k, hk, hcap⟩ := hcap
  have hpos := Nat.two_pow_pos k
  refine ⟨k, hk, ?_, rfl, rfl, fun _ => rfl⟩
  rw [UInt64.toNat_sub_of_le _ _ (by rw [UInt64.le_iff_toNat_le, hcap]; exact hpos), hcap]
  exact Nat.sub_add_cancel hpos

theorem Broadcast.capacity_toNat (hk : k < 64) (hmask : r.mask.toNat + 1 = 2 ^ k) :
    r.capacity.toNat = 2 ^ k := by
  have hlt : 2 ^ k < 2 ^ 64 := Nat.pow_lt_pow_right (by omega) hk
  rw [capacity, UInt64.toNat_add, UInt64.toNat_one, hmask, Nat.mod_eq_of_lt hlt]

theorem Broadcast.start_spec (hk : k < 64) (hmask : r.mask.toNat + 1 = 2 ^ k)
    {cursor head : UInt64} (hlt : cursor < head) :
    r.start cursor head < head ∧ head.toNat ≤ (r.start cursor head).toNat + 2 ^ k ∧
      (r.start cursor head = cursor ∨ cursor.toNat < (r.start cursor head).toNat ∧
        (r.start cursor head).toNat + 2 ^ k = head.toNat) := by
  have hcap := capacity_toNat hk hmask
  have hpos := Nat.two_pow_pos k
  have hgap := UInt64.toNat_sub_of_le head cursor (UInt64.le_of_lt hlt)
  unfold start
  rw [UInt64.lt_iff_toNat_lt]
  split_ifs with hold <;> rw [UInt64.lt_iff_toNat_lt, hgap, hcap] at hold
  · have hsnap := UInt64.toNat_sub_of_le head r.capacity
      (by rw [UInt64.le_iff_toNat_le, hcap]; omega)
    exact ⟨by omega, by omega, Or.inr ⟨by omega, by omega⟩⟩
  · exact ⟨hlt, by omega, Or.inl rfl⟩

theorem Broadcast.slot_eq_iff (hmask : r.mask.toNat + 1 = 2 ^ k) {p q : UInt64} :
    r.slot p = r.slot q ↔ p.toNat ≡ q.toNat [MOD 2 ^ k] := by
  have hm : r.mask.toNat = 2 ^ k - 1 := by omega
  rw [slot, slot, Fin.mk.injEq, UInt64.toNat_and, UInt64.toNat_and, hm,
    Nat.and_two_pow_sub_one_eq_mod, Nat.and_two_pow_sub_one_eq_mod]
  rfl

/-- The item that the slot of a position holds once `w` items are stored. -/
def held (k : ℕ) (sent : List (Arc T)) (w pos : ℕ) : Option (Arc T) :=
  (latest (2 ^ k) w pos).bind (sent[·]?)

theorem held_append {w : ℕ} (hw : w ≤ sent.length) (arc : Arc T) (pos : ℕ) :
    held k (sent ++ [arc]) w pos = held k sent w pos := by
  unfold held
  cases hlatest : latest (2 ^ k) w pos with
  | none => rfl
  | some n =>
    have hn := ((latest_eq_some_iff (Nat.two_pow_pos k)).mp hlatest).2.1
    exact List.getElem?_append_left (by omega)

structure RingHolds (k : ℕ) (sent : List (Arc T)) (r : Broadcast T) : Prop where
  mask : r.mask.toNat + 1 = 2 ^ k
  arcs : r.arcs = sent.length
  serials : ∀ {n : ℕ} {arc : Arc T}, sent[n]? = some arc → arc.serial = n
  slots : ∀ pos, r.slots (r.slot pos) = held k sent sent.length pos.toNat

theorem RingHolds.store (h : RingHolds k sent r) (hpos : pos.toNat = sent.length)
    (item : T) : RingHolds k (sent ++ [⟨r.arcs, item⟩]) { r with
      slots := Function.update r.slots (r.slot pos) (some ⟨r.arcs, item⟩)
      arcs := r.arcs + 1 } := by
  constructor
  · exact h.mask
  · rw [List.length_append, List.length_singleton, ← h.arcs]
  · intro n arc hn
    rw [List.getElem?_append] at hn
    split_ifs at hn with hlt
    · exact h.serials hn
    · rw [List.getElem?_singleton] at hn
      split_ifs at hn with hlast
      cases hn
      exact h.arcs.trans (by omega)
  · intro q
    change Function.update r.slots (r.slot pos) _ (r.slot q) = _
    rw [List.length_append, List.length_singleton, held, latest_succ (Nat.two_pow_pos k)]
    by_cases hslot : r.slot q = r.slot pos
    · have hmod := ((Broadcast.slot_eq_iff h.mask).mp hslot).symm
      rw [hpos] at hmod
      rw [hslot, Function.update_self, if_pos hmod, Option.bind_some, List.getElem?_concat_length]
    · have hmod : ¬ sent.length ≡ q.toNat [MOD 2 ^ k] := by
        intro hmod
        rw [← hpos] at hmod
        exact hslot ((Broadcast.slot_eq_iff h.mask).mpr hmod.symm)
      rw [Function.update_of_ne hslot, if_neg hmod, h.slots]
      exact (held_append le_rfl _ _).symm

/-- What the publisher has begun is stored, but for the call it is in. -/
def PublisherHolds (sent : List (Arc T)) (begun : ℕ) : Progress T → Prop
  | .idle => begun = sent.length
  | .sending pos _ => pos.toNat = sent.length ∧ begun = sent.length + 1
  | _ => False

/-- Reads at rising positions below `bound`, each of what its slot held at its time. -/
structure ReadsHold (k : ℕ) (sent : List (Arc T)) (reads : List (SlotRead T)) (bound : ℕ) :
    Prop where
  got : ∀ a ∈ reads, a.stored ≤ sent.length ∧ a.got = held k sent a.stored a.pos.toNat
  order : reads.Pairwise fun a b => a.pos.toNat < b.pos.toNat ∧ a.stored ≤ b.stored
  below : ∀ a ∈ reads, a.pos.toNat < bound

namespace ReadsHold
variable {reads : List (SlotRead T)} {bound : ℕ}

theorem nil (k : ℕ) (sent : List (Arc T)) (bound : ℕ) : ReadsHold k sent [] bound :=
  ⟨by simp, .nil, by simp⟩

theorem mono (h : ReadsHold k sent reads bound) {bound' : ℕ} (hle : bound ≤ bound') :
    ReadsHold k sent reads bound' :=
  ⟨h.got, h.order, fun a ha => (h.below a ha).trans_le hle⟩

theorem store (h : ReadsHold k sent reads bound) (arc : Arc T) :
    ReadsHold k (sent ++ [arc]) reads bound := by
  refine ⟨?_, h.order, h.below⟩
  intro a ha
  obtain ⟨hstored, hgot⟩ := h.got a ha
  rw [held_append hstored, List.length_append]
  exact ⟨by omega, hgot⟩

theorem read (h : ReadsHold k sent reads bound) (hring : RingHolds k sent r) {pos : UInt64}
    (hpos : bound ≤ pos.toNat) :
    ReadsHold k sent (reads ++ [⟨pos, r.arcs, r.slots (r.slot pos)⟩]) (pos.toNat + 1) := by
  constructor
  · simp only [List.forall_mem_append, List.forall_mem_singleton]
    refine ⟨h.got, hring.arcs.le, ?_⟩
    rw [hring.slots, hring.arcs]
  · rw [List.pairwise_append]
    refine ⟨h.order, List.pairwise_singleton _ _, ?_⟩
    simp only [List.forall_mem_singleton]
    intro a ha
    rw [hring.arcs]
    exact ⟨(h.below a ha).trans_le hpos, (h.got a ha).1⟩
  · simp only [List.forall_mem_append, List.forall_mem_singleton]
    refine ⟨?_, Nat.lt_succ_self _⟩
    intro a ha
    exact ((h.below a ha).trans_le hpos).trans_le (Nat.le_succ _)

end ReadsHold

/-- A poll has read the positions from its cursor, or the oldest that the ring has room for, up
to `pos`. -/
def Poll.ReadTo (k : ℕ) (p : Poll T) (pos : ℕ) : Prop :=
  ∀ n, (∃ a ∈ p.reads, a.pos.toNat = n) ↔
    p.cursor.toNat ≤ n ∧ n < pos ∧ p.head.toNat ≤ n + 2 ^ k

theorem Poll.ReadTo.read {p : Poll T} (h : p.ReadTo k pos.toNat)
    (hcursor : p.cursor.toNat ≤ pos.toNat) (hstart : p.head.toNat ≤ pos.toNat + 2 ^ k)
    (stored : ℕ) (got : Option (Arc T)) :
    Poll.ReadTo k { p with reads := p.reads ++ [⟨pos, stored, got⟩] } (pos.toNat + 1) := by
  intro n
  have hn := h n
  simp only [List.mem_append, List.mem_singleton, or_and_right, exists_or, exists_eq_left, hn]
  constructor
  · rintro (hold | rfl)
    · omega
    · omega
  · intro hnew
    by_cases heq : pos.toNat = n
    · exact Or.inr heq
    · exact Or.inl (by omega)

/-- A receiver has passed what is below its cursor, and reads on in the poll it is in. -/
def ReceiverHolds (k : ℕ) (sent : List (Arc T)) (begun : ℕ) (polls : List (Poll T)) :
    Progress T → Prop
  | .idle => polls = []
  | .sending _ _ => False
  | .subscribed cursor => (∀ p ∈ polls, p.ReadTo k p.head.toNat) ∧ cursor.toNat ≤ begun ∧
      ReadsHold k sent (polls.flatMap Poll.reads) cursor.toNat
  | .polling poll pos => (∀ p ∈ polls, p.ReadTo k p.head.toNat) ∧ poll.head.toNat ≤ begun ∧
      poll.cursor.toNat ≤ pos.toNat ∧ pos < poll.head ∧ poll.head.toNat ≤ pos.toNat + 2 ^ k ∧
      poll.ReadTo k pos.toNat ∧
      ReadsHold k sent (polls.flatMap Poll.reads ++ poll.reads) pos.toNat

theorem ReceiverHolds.mono {polls : List (Poll T)}
    (h : ReceiverHolds k sent begun polls t) {begun' : ℕ} (hle : begun ≤ begun') :
    ReceiverHolds k sent begun' polls t := by
  cases t with
  | idle => exact h
  | sending pos item => exact h
  | subscribed cursor => exact ⟨h.1, h.2.1.trans hle, h.2.2⟩
  | polling poll pos => exact ⟨h.1, h.2.1.trans hle, h.2.2⟩

theorem ReceiverHolds.store {polls : List (Poll T)}
    (h : ReceiverHolds k sent begun polls t) (arc : Arc T) :
    ReceiverHolds k (sent ++ [arc]) begun polls t := by
  cases t with
  | idle => exact h
  | sending pos item => exact h
  | subscribed cursor => exact ⟨h.1, h.2.1, h.2.2.store arc⟩
  | polling poll pos =>
    obtain ⟨hpolls, hhead, hcursor, hpos, hstart, hread, hreads⟩ := h
    exact ⟨hpolls, hhead, hcursor, hpos, hstart, hread, hreads.store arc⟩

def BroadcastEvent.polls : BroadcastEvent T → List (Poll T)
  | .returned poll => [poll]
  | _ => []

theorem ReceiverHolds.recv {polls : List (Poll T)} (hk : k < 64)
    (hring : RingHolds k sent r) (h : ReceiverHolds k sent r.writePos.toNat polls t) (item : T) :
    (r.recv t item).2.1 = r ∧
      ReceiverHolds k sent r.writePos.toNat (polls ++ (r.recv t item).1.polls)
        (r.recv t item).2.2 := by
  cases t with
  | idle =>
    subst h
    exact ⟨rfl, by simp [Broadcast.recv, BroadcastEvent.polls], le_rfl, ReadsHold.nil k sent _⟩
  | sending pos item => exact h.elim
  | subscribed cursor =>
    obtain ⟨hpolls, hcursor, hreads⟩ := h
    simp only [Broadcast.recv]
    split_ifs with hnone
    · refine ⟨rfl, ?_, hcursor, ?_⟩
      · simp only [BroadcastEvent.polls, List.forall_mem_append, List.forall_mem_singleton]
        refine ⟨hpolls, ?_⟩
        intro n
        have := UInt64.le_iff_toNat_le.mp hnone
        simp only [List.not_mem_nil, false_and, exists_false, false_iff]
        omega
      · simpa [BroadcastEvent.polls] using hreads
    · obtain ⟨hbelow, hroom, hwhere⟩ := Broadcast.start_spec hk hring.mask
        (UInt64.not_le.mp hnone)
      have hfrom : cursor.toNat ≤ (r.start cursor r.writePos).toNat := by
        rcases hwhere with heq | ⟨hlt, -⟩
        · rw [heq]
        · exact hlt.le
      simp only [BroadcastEvent.polls, List.append_nil, true_and]
      refine ⟨hpolls, le_rfl, hfrom, hbelow, hroom, ?_, ?_⟩
      · intro n
        simp only [List.not_mem_nil, false_and, exists_false, false_iff]
        rintro ⟨hge, hlt, hle⟩
        rcases hwhere with heq | ⟨-, heq⟩
        · rw [heq] at hlt
          omega
        · have hle : r.writePos.toNat ≤ n + 2 ^ k := hle
          omega
      · rw [List.append_nil]
        exact hreads.mono hfrom
  | polling poll pos =>
    obtain ⟨hpolls, hhead, hcursor, hpos, hstart, hread, hreads⟩ := h
    have hnext : (pos + 1).toNat = pos.toNat + 1 := by
      have hbound := poll.head.toNat_lt
      rw [UInt64.lt_iff_toNat_lt] at hpos
      rw [UInt64.toNat_add, UInt64.toNat_one, Nat.mod_eq_of_lt (by omega)]
    have hreads' := hreads.read hring le_rfl
    have hread' := hread.read hcursor hstart r.arcs (r.slots (r.slot pos))
    rw [List.append_assoc] at hreads'
    rw [← hnext] at hreads' hread'
    simp only [Broadcast.recv]
    split_ifs with hmore
    · simp only [BroadcastEvent.polls, List.append_nil, true_and]
      refine ⟨hpolls, hhead, hcursor.trans ?_, hmore, hstart.trans ?_, hread', hreads'⟩
      · omega
      · omega
    · have hlast : poll.head.toNat = (pos + 1).toNat := by
        rw [UInt64.lt_iff_toNat_lt] at hpos hmore
        omega
      simp only [BroadcastEvent.polls, true_and]
      refine ⟨?_, hhead, ?_⟩
      · simp only [List.forall_mem_append, List.forall_mem_singleton]
        refine ⟨hpolls, ?_⟩
        rw [hlast]
        exact hread'
      · rw [List.flatMap_append, List.flatMap_singleton, hlast]
        exact hreads'

variable [DecidableEq ι] {trace : List ((BroadcastThread ι × T) × BroadcastEvent T)}
  {p : Pool (BroadcastThread ι) (Broadcast T) (Progress T)}

theorem pollsOf_concat (i : ι) (thread : BroadcastThread ι) (item : T) (event : BroadcastEvent T) :
    pollsOf i (trace ++ [((thread, item), event)]) =
      pollsOf i trace ++ if thread = .receiver i then event.polls else [] := by
  unfold pollsOf
  rw [List.filterMap_append]
  congr 1
  cases event <;> by_cases h : thread = .receiver i <;> simp [h, BroadcastEvent.polls]

omit [DecidableEq ι] in
theorem recv_silent (trace : List ((BroadcastThread ι × T) × BroadcastEvent T)) (r : Broadcast T)
    (t : Progress T) (item : T) (e : BroadcastThread ι × T) :
    sentIn (trace ++ [(e, (r.recv t item).1)]) = sentIn trace ∧
      begunIn (trace ++ [(e, (r.recv t item).1)]) = begunIn trace := by
  have hevent : (r.recv t item).1 = .loaded ∨ ∃ poll, (r.recv t item).1 = .returned poll := by
    unfold Broadcast.recv
    split
    · exact Or.inl rfl
    · dsimp only
      split_ifs
      · exact Or.inr ⟨_, rfl⟩
      · exact Or.inl rfl
    · dsimp only
      split_ifs
      · exact Or.inl rfl
      · exact Or.inr ⟨_, rfl⟩
    · exact Or.inl rfl
  rcases hevent with h | ⟨poll, h⟩ <;> simp [h, sentIn, begunIn]

structure BroadcastHolds (k : ℕ) (trace : List ((BroadcastThread ι × T) × BroadcastEvent T))
    (p : Pool (BroadcastThread ι) (Broadcast T) (Progress T)) : Prop where
  ring : RingHolds k (sentIn trace) p.shared
  begun : p.shared.writePos.toNat = begunIn trace
  publisher : PublisherHolds (sentIn trace) (begunIn trace) (p.threads .publisher)
  receivers : ∀ i, ReceiverHolds k (sentIn trace) (begunIn trace) (pollsOf i trace)
    (p.threads (.receiver i))

theorem BroadcastHolds.start (hnew : Broadcast.new trap capacity = some r) :
    ∃ k < 64, r.capacity.toNat = 2 ^ k ∧ BroadcastHolds k [] (r.pool (ι := ι)) := by
  obtain ⟨k, hk, hmask, hpos, harcs, hslots⟩ := Broadcast.new_some hnew
  refine ⟨k, hk, Broadcast.capacity_toNat hk hmask, ⟨⟨hmask, harcs, by simp [sentIn], ?_⟩, ?_, rfl,
    fun _ => rfl⟩⟩
  · intro pos
    simp [Broadcast.pool, hslots, held, sentIn]
  · simp [Broadcast.pool, hpos, begunIn]

theorem BroadcastHolds.send (h : BroadcastHolds k trace p) (item : T)
    (hroom : begunIn (trace ++ [((.publisher, item), (broadcastRun p (.publisher, item)).1)]) <
      2 ^ 64) :
    BroadcastHolds k (trace ++ [((.publisher, item), (broadcastRun p (.publisher, item)).1)])
      (broadcastRun p (.publisher, item)).2 := by
  have hpublisher := h.publisher
  have hpolls : ∀ i event,
      pollsOf i (trace ++ [((.publisher, item), event)]) = pollsOf i trace := by
    intro i event
    rw [pollsOf_concat, if_neg nofun, List.append_nil]
  have hrun : broadcastRun p (.publisher, item) =
      ((p.shared.send (p.threads .publisher) item).1,
        ⟨(p.shared.send (p.threads .publisher) item).2.1,
          Function.update p.threads .publisher (p.shared.send (p.threads .publisher) item).2.2⟩) :=
    rfl
  have hothers : ∀ t i, Function.update p.threads .publisher t (.receiver i) =
      p.threads (.receiver i) := by
    intro t i
    apply Function.update_of_ne
    nofun
  rw [hrun] at hroom ⊢
  cases ht : p.threads .publisher with
  | idle =>
    rw [ht] at hpublisher hroom
    simp only [Broadcast.send] at hroom ⊢
    have hsent : sentIn (trace ++ [((.publisher, item), .began)]) = sentIn trace := by
      simp [sentIn]
    have hbegun : begunIn (trace ++ [((.publisher, item), .began)]) = begunIn trace + 1 := by
      simp [begunIn]
    rw [hbegun] at hroom
    have hnext : (p.shared.writePos + 1).toNat = begunIn trace + 1 := by
      rw [UInt64.toNat_add, UInt64.toNat_one, h.begun, Nat.mod_eq_of_lt hroom]
    constructor
    · rw [hsent]
      exact ⟨h.ring.mask, h.ring.arcs, h.ring.serials, h.ring.slots⟩
    · rw [hbegun]
      exact hnext
    · simp only [hsent, hbegun, Function.update_self]
      exact ⟨h.begun.trans hpublisher, congrArg (· + 1) hpublisher⟩
    · intro i
      simp only [hsent, hbegun, hpolls, hothers]
      exact (h.receivers i).mono (Nat.le_succ _)
  | sending pos queued =>
    rw [ht] at hpublisher
    simp only [Broadcast.send]
    have hsent : sentIn (trace ++ [((.publisher, item), .stored ⟨p.shared.arcs, queued⟩)]) =
        sentIn trace ++ [⟨p.shared.arcs, queued⟩] := by
      simp [sentIn]
    have hbegun : begunIn (trace ++ [((.publisher, item), .stored ⟨p.shared.arcs, queued⟩)]) =
        begunIn trace := by
      simp [begunIn]
    constructor
    · rw [hsent]
      exact h.ring.store hpublisher.1 queued
    · rw [hbegun]
      exact h.begun
    · simp only [hsent, hbegun, Function.update_self]
      change begunIn trace = (sentIn trace ++ [_]).length
      rw [List.length_append]
      exact hpublisher.2
    · intro i
      simp only [hsent, hbegun, hpolls, hothers]
      exact (h.receivers i).store _
  | subscribed cursor =>
    rw [ht] at hpublisher
    exact hpublisher.elim
  | polling poll pos =>
    rw [ht] at hpublisher
    exact hpublisher.elim

theorem BroadcastHolds.recv (hk : k < 64) (h : BroadcastHolds k trace p) (i : ι) (item : T) :
    BroadcastHolds k (trace ++ [((.receiver i, item), (broadcastRun p (.receiver i, item)).1)])
      (broadcastRun p (.receiver i, item)).2 := by
  have hreceiver := h.receivers i
  rw [← h.begun] at hreceiver
  obtain ⟨hring, hown⟩ := hreceiver.recv hk h.ring item
  have hrun : broadcastRun p (.receiver i, item) =
      ((p.shared.recv (p.threads (.receiver i)) item).1,
        ⟨(p.shared.recv (p.threads (.receiver i)) item).2.1,
          Function.update p.threads (.receiver i)
            (p.shared.recv (p.threads (.receiver i)) item).2.2⟩) := rfl
  obtain ⟨hsent, hbegun⟩ := recv_silent trace p.shared (p.threads (.receiver i)) item
    (.receiver i, item)
  rw [hrun, hring]
  constructor
  · rw [hsent]
    exact h.ring
  · rw [hbegun]
    exact h.begun
  · rw [hsent, hbegun]
    simpa using h.publisher
  · intro j
    rw [hsent, hbegun, pollsOf_concat]
    by_cases hj : i = j
    · subst hj
      rw [if_pos rfl, ← h.begun]
      simpa using hown
    · rw [if_neg (by simpa using hj), List.append_nil]
      simpa [Function.update_of_ne, Ne.symm hj] using h.receivers j

theorem broadcastHolds_of_run (hk : k < 64) (hstart : BroadcastHolds k [] p)
    (schedule : List (BroadcastThread ι × T))
    (hroom : begunIn (broadcastRun.trace p schedule) < 2 ^ 64) :
    BroadcastHolds k (broadcastRun.trace p schedule) (broadcastRun.final p schedule) := by
  induction schedule using List.reverseRecOn with
  | nil => exact hstart
  | append_singleton schedule e ih =>
    rw [Machine.trace_append, Machine.final_concat] at *
    have hearly : begunIn (broadcastRun.trace p schedule) < 2 ^ 64 := by
      refine lt_of_le_of_lt ?_ hroom
      rw [begunIn, begunIn, List.countP_append]
      exact Nat.le_add_right _ _
    obtain ⟨thread, item⟩ := e
    cases thread with
    | publisher => exact (ih hearly).send item hroom
    | receiver i => exact (ih hearly).recv hk i item

theorem ReceiverHolds.reads {polls : List (Poll T)} (h : ReceiverHolds k sent begun polls t) :
    (∀ p ∈ polls, p.ReadTo k p.head.toNat) ∧
      ∃ bound, ReadsHold k sent (polls.flatMap Poll.reads) bound := by
  cases t with
  | idle =>
    obtain rfl : polls = [] := h
    exact ⟨by simp, 0, ReadsHold.nil k sent 0⟩
  | sending pos item => exact h.elim
  | subscribed cursor => exact ⟨h.1, _, h.2.2⟩
  | polling poll pos =>
    obtain ⟨hpolls, -, -, -, -, -, hreads⟩ := h
    refine ⟨hpolls, pos.toNat, ?_, (List.pairwise_append.mp hreads.order).1, ?_⟩
    · exact fun a ha => hreads.got a (List.mem_append_left _ ha)
    · exact fun a ha => hreads.below a (List.mem_append_left _ ha)

theorem obtainedBy_eq (i : ι) :
    obtainedBy i trace = ((pollsOf i trace).flatMap Poll.reads).filterMap SlotRead.got := by
  rw [obtainedBy, List.filterMap_flatMap]
  rfl

omit [DecidableEq ι] in
/-- What a read obtains is the item with the number its slot is at. -/
theorem RingHolds.serial_of_held (h : RingHolds k sent r) {w pos : ℕ} {arc : Arc T}
    (hheld : held k sent w pos = some arc) :
    latest (2 ^ k) w pos = some arc.serial ∧ arc ∈ sent := by
  obtain ⟨n, hn, harc⟩ := Option.bind_eq_some_iff.mp hheld
  rw [h.serials harc]
  exact ⟨hn, List.mem_of_getElem? harc⟩

theorem RingHolds.sent_pairwise (h : RingHolds k sent r) :
    sent.Pairwise fun a b => a.serial < b.serial := by
  rw [List.pairwise_iff_getElem]
  intro i j hi hj hij
  rw [h.serials (List.getElem?_eq_getElem hi), h.serials (List.getElem?_eq_getElem hj)]
  exact hij

/-- Every read of a receiver's polls found the item at its own position. -/
def ReadsInTime (cap : ℕ) (polls : List (Poll T)) : Prop :=
  ∀ poll ∈ polls, ∀ a ∈ poll.reads, a.pos.toNat < a.stored ∧ a.stored ≤ a.pos.toNat + cap

instance (cap : ℕ) (polls : List (Poll T)) : Decidable (ReadsInTime cap polls) :=
  inferInstanceAs (Decidable (∀ poll ∈ polls, ∀ a ∈ poll.reads, _))

theorem BroadcastHolds.reads_of_clean (h : BroadcastHolds k trace p) {i : ι}
    (hclean : CleanStream (2 ^ k) trace i) : ReadsInTime (2 ^ k) (pollsOf i trace) := by
  obtain ⟨hpolls, bound, hreads⟩ := (h.receivers i).reads
  let reads := ((pollsOf i trace).flatMap Poll.reads).map fun a => (a.pos.toNat, a.stored)
  have hcovered : ∀ a ∈ reads, ∃ b ∈ reads, latest (2 ^ k) b.2 b.1 = some a.1 := by
    intro _ hmem
    obtain ⟨a, ha, rfl⟩ := List.mem_map.mp hmem
    obtain ⟨poll, hpoll, ha⟩ := List.mem_flatMap.mp ha
    obtain ⟨hfrom, hto, hroom⟩ := (hpolls poll hpoll a.pos.toNat).mp ⟨a, ha, rfl⟩
    rcases hclean.2 poll hpoll a.pos.toNat hfrom hto with ⟨arc, harc, hserial⟩ | hskipped
    · rw [obtainedBy_eq, List.mem_filterMap] at harc
      obtain ⟨b, hb, hgot⟩ := harc
      rw [(hreads.got b hb).2] at hgot
      refine ⟨_, List.mem_map_of_mem hb, ?_⟩
      rw [(h.ring.serial_of_held hgot).1, hserial]
    · omega
  have horder : reads.Pairwise fun a b => a.1 < b.1 ∧ a.2 ≤ b.2 :=
    List.pairwise_map.mpr hreads.order
  intro poll hpoll a ha
  apply (latest_self_iff (Nat.two_pow_pos k)).mp
  exact latest_self_of_covered (Nat.two_pow_pos k) horder hcovered _
    (List.mem_map_of_mem (List.mem_flatMap_of_mem hpoll ha))

omit [DecidableEq ι] in
/-- A read in time obtains the item at its own position. -/
theorem RingHolds.own_of_read (h : RingHolds k sent r) {a : SlotRead T}
    (hread : a.stored ≤ sent.length ∧ a.got = held k sent a.stored a.pos.toNat)
    (hintime : a.pos.toNat < a.stored ∧ a.stored ≤ a.pos.toNat + 2 ^ k) :
    ∃ arc ∈ sent, a.got = some arc ∧ arc.serial = a.pos.toNat := by
  have hlatest := (latest_self_iff (Nat.two_pow_pos k)).mpr hintime
  have hlt : a.pos.toNat < sent.length := hintime.1.trans_le hread.1
  refine ⟨_, List.getElem_mem hlt, ?_, h.serials (List.getElem?_eq_getElem hlt)⟩
  rw [hread.2, held, hlatest, Option.bind_some, List.getElem?_eq_getElem hlt]

omit [DecidableEq ι] in
/-- Reads at rising positions that obtain their own items select from what was sent. -/
theorem RingHolds.sublist_of_own (h : RingHolds k sent r) {reads : List (SlotRead T)}
    (horder : reads.Pairwise fun a b => a.pos.toNat < b.pos.toNat ∧ a.stored ≤ b.stored)
    (hown : ∀ a ∈ reads, ∃ arc ∈ sent, a.got = some arc ∧ arc.serial = a.pos.toNat) :
    (reads.filterMap SlotRead.got).Sublist sent := by
  have hgot : ∀ a ∈ reads, ∀ arc, a.got = some arc → arc ∈ sent ∧ arc.serial = a.pos.toNat := by
    intro a ha arc harc
    obtain ⟨own, hmem, hgot, hserial⟩ := hown a ha
    obtain rfl := Option.some.inj (hgot.symm.trans harc)
    exact ⟨hmem, hserial⟩
  have hrising : (reads.filterMap SlotRead.got).Pairwise fun a b => a.serial < b.serial := by
    rw [List.pairwise_filterMap]
    apply horder.imp_of_mem
    intro a b ha hb hab arc harc arc' harc'
    rw [(hgot a ha arc harc).2, (hgot b hb arc' harc').2]
    exact hab.1
  have hsubset : reads.filterMap SlotRead.got ⊆ sent := by
    intro arc harc
    obtain ⟨a, ha, harc⟩ := List.mem_filterMap.mp harc
    exact (hgot a ha arc harc).1
  have hantisymm : Std.Antisymm fun a b : Arc T => a.serial < b.serial :=
    ⟨fun _ _ hab hba => absurd hab hba.asymm⟩
  have hnodup : (reads.filterMap SlotRead.got).Nodup :=
    hrising.imp fun hlt heq => absurd (congrArg Arc.serial heq) hlt.ne
  exact List.sublist_of_subperm_of_pairwise (List.subperm_of_subset hnodup hsubset) hrising
    h.sent_pairwise

theorem BroadcastHolds.clean_of_reads (h : BroadcastHolds k trace p) {i : ι}
    (hintime : ReadsInTime (2 ^ k) (pollsOf i trace)) : CleanStream (2 ^ k) trace i := by
  obtain ⟨hpolls, bound, hreads⟩ := (h.receivers i).reads
  have hown : ∀ a ∈ (pollsOf i trace).flatMap Poll.reads,
      ∃ arc ∈ sentIn trace, a.got = some arc ∧ arc.serial = a.pos.toNat := by
    intro a ha
    obtain ⟨poll, hpoll, hmem⟩ := List.mem_flatMap.mp ha
    exact h.ring.own_of_read (hreads.got a ha) (hintime poll hpoll a hmem)
  constructor
  · rw [obtainedBy_eq]
    exact h.ring.sublist_of_own hreads.order hown
  · intro poll hpoll n hfrom hto
    by_cases hroom : poll.head.toNat ≤ n + 2 ^ k
    · obtain ⟨a, ha, rfl⟩ := (hpolls poll hpoll n).mpr ⟨hfrom, hto, hroom⟩
      have hmem := List.mem_flatMap_of_mem hpoll ha
      obtain ⟨arc, -, hgot, hserial⟩ := hown a hmem
      refine Or.inl ⟨arc, ?_, hserial⟩
      rw [obtainedBy_eq]
      exact List.mem_filterMap.mpr ⟨a, hmem, hgot⟩
    · exact Or.inr (by omega)

end Invariant

/-- A receiver's stream is clean exactly if, whenever one of its polls reads a slot, the item at
that position is stored already and the one that replaces it is not. -/
theorem broadcast_clean_iff {T ι : Type*} [DecidableEq ι] {trap : Bool} {capacity : UInt64}
    {r : Broadcast T} (hnew : Broadcast.new trap capacity = some r)
    (schedule : List (BroadcastThread ι × T))
    (hsends : begunIn (broadcastRun.trace r.pool schedule) < 2 ^ 64) (i : ι) :
    CleanStream r.capacity.toNat (broadcastRun.trace r.pool schedule) i ↔
      ReadsInTime r.capacity.toNat (pollsOf i (broadcastRun.trace r.pool schedule)) := by
  obtain ⟨k, hk, hcap, hstart⟩ := BroadcastHolds.start (ι := ι) hnew
  have hrun := broadcastHolds_of_run hk hstart schedule hsends
  rw [hcap]
  exact ⟨hrun.reads_of_clean, hrun.clean_of_reads⟩

namespace Sample

def ringOfTwo : Broadcast Char := { mask := 1, slots := fun _ => none, writePos := 0, arcs := 0 }

theorem ringOfTwo_new : Broadcast.new false 2 = some ringOfTwo := by
  have hpow : (2 : UInt64).toNat.nextPowerOfTwo = 2 := by
    decide +kernel
  rw [Broadcast.new, nextPowerOfTwo, hpow]
  rfl

def publishes (item : Char) : BroadcastThread Unit × Char := (.publisher, item)

def reads : BroadcastThread Unit × Char := (.receiver (), ' ')

/-- Two items are sent, then polled. -/
def sentThenPolled : List (BroadcastThread Unit × Char) :=
  [reads, publishes 'a', publishes 'a', publishes 'b', publishes 'b', reads, reads, reads]

/-- A third item has its position, but not yet its slot, when the receiver polls again. -/
def polledTooEarly : List (BroadcastThread Unit × Char) :=
  sentThenPolled ++ [publishes 'c', reads, reads, publishes 'c', reads]

end Sample

open Sample in
theorem broadcast_clean_two_items :
    CleanStream 2 (broadcastRun.trace ringOfTwo.pool sentThenPolled) () :=
  (broadcast_clean_iff ringOfTwo_new sentThenPolled (by decide) ()).mpr (by decide)

open Sample in
/-- The receiver obtains the first item again in the place of the third, which it never gets. -/
theorem broadcast_repeats_stale_item :
    let trace := broadcastRun.trace ringOfTwo.pool polledTooEarly
    (sentIn trace).map Arc.value = ['a', 'b', 'c'] ∧
    (obtainedBy () trace).map Arc.value = ['a', 'b', 'a'] ∧
    ¬ CleanStream 2 trace () := by
  refine ⟨by decide, by decide, ?_⟩
  intro hclean
  exact absurd hclean.1 (by decide)

end Desmos.Core
