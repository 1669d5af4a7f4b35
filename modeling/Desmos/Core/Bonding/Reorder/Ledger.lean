import Desmos.Core.Bonding.Reorder.Drain

/-! # The books of the reorder buffer

In a run that stays within the range of the counters, every call moves packets between four places:
handed out, waiting, counted as a duplicate, dropped. The numbers a call gives up are the ones it
counts as lost.
-/
namespace Desmos.Core
open Library

variable {T : Type*}

def ReorderCall.pushed : ReorderCall T → List (UInt64 × T)
  | .push seq payload _ => [(seq, payload)]
  | .pollTimeout _ => []

variable {mid : ReorderBuffer T} {block : List (UInt64 × Pending T)}

namespace ReorderBuffer

section
variable (buf : ReorderBuffer T)

def waiting : List (UInt64 × T) :=
  buf.pending.entries.map fun e => (e.1, e.2.payload)

/-- The numbers of what waits. -/
def keys : List ℕ := buf.pending.entries.map fun e => e.1.toNat

/-- The call brings a number that is handed out, given up or waiting already. -/
def Repeats : ReorderCall T → Prop
  | .push seq _ _ =>
    buf.initialised = true ∧ (seq < buf.nextExpected ∨ buf.pending.contains seq = true)
  | .pollTimeout _ => False

/-- The call brings a number beyond the window. -/
def WindowSkips : ReorderCall T → Prop
  | .push seq _ _ =>
    buf.initialised = true ∧ buf.nextExpected.toNat + buf.window.toNat ≤ seq.toNat
  | .pollTimeout _ => False

instance (buf : ReorderBuffer T) : DecidablePred buf.Repeats
  | .push _ _ _ => instDecidableAnd
  | .pollTimeout _ => instDecidableFalse

instance (buf : ReorderBuffer T) : DecidablePred buf.WindowSkips
  | .push _ _ _ => instDecidableAnd
  | .pollTimeout _ => instDecidableFalse

def oldestAge (nowMs : UInt64) : UInt64 :=
  (buf.pending.values.map fun p => saturatingSub64 nowMs p.receivedAtMs).max?.getD 0

def duplicated (c : ReorderCall T) : List (UInt64 × T) :=
  if buf.Repeats c then c.pushed else []

/-- What a call throws away: the packets below the number it skips to. -/
def dropped (c : ReorderCall T) : List (UInt64 × T) :=
  if buf.WindowSkips c then buf.waiting.filter fun d => c.pushed.all fun e => d.1 ≤ e.1 else []

def skipped : ReorderCall T → List ℕ
  | .push seq payload nowMs =>
    if buf.WindowSkips (.push seq payload nowMs) then
      List.range' buf.nextExpected.toNat (seq.toNat - buf.nextExpected.toNat)
    else []
  | .pollTimeout nowMs =>
    if buf.oldestAge nowMs < buf.gapTimeoutMs then []
    else
      match buf.pending.firstKey? with
      | none => []
      | some oldestSeq =>
        List.range' buf.nextExpected.toNat (oldestSeq.toNat - buf.nextExpected.toNat)

/-- What waits is within the window. -/
def Within : Prop :=
  ∀ e ∈ buf.pending.entries, e.1.toNat < buf.nextExpected.toNat + buf.window.toNat

end

section Facts
variable {buf : ReorderBuffer T} {seq nowMs : UInt64} {payload : T} {c : ReorderCall T}

theorem Ahead.entries (ha : buf.Ahead) {e : UInt64 × Pending T} (he : e ∈ buf.pending.entries) :
    buf.initialised = true ∧ buf.nextExpected < e.1 ∧ e.1 ≠ 0xFFFFFFFFFFFFFFFF :=
  ha (e.1, e.2.payload) ⟨e.2.receivedAtMs, he⟩

theorem Ahead.entries_eq_nil (ha : buf.Ahead) (hinit : buf.initialised = false) :
    buf.pending.entries = [] := by
  rw [List.eq_nil_iff_forall_not_mem]
  intro e he
  have := (ha.entries he).1
  rw [hinit] at this
  cases this

theorem contains_iff : buf.pending.contains seq = true ↔ ∃ e ∈ buf.pending.entries, e.1 = seq := by
  simp [SortedMap.contains]

theorem keys_nodup (buf : ReorderBuffer T) : buf.keys.Nodup := by
  rw [keys, List.nodup_iff_pairwise_ne, List.pairwise_map]
  refine buf.pending.sorted.imp fun hlt => ?_
  exact (UInt64.lt_iff_toNat_lt.mp hlt).ne

theorem length_waiting (buf : ReorderBuffer T) : buf.waiting.length = buf.keys.length := by
  rw [waiting, keys, List.length_map, List.length_map]

theorem Within.not_repeats (hw : buf.Within) (hskip : buf.WindowSkips c) : ¬ buf.Repeats c := by
  cases c with
  | pollTimeout nowMs => exact hskip.elim
  | push seq payload nowMs =>
    rintro ⟨-, hlt | hin⟩
    · have := UInt64.lt_iff_toNat_lt.mp hlt
      have := hskip.2
      omega
    · obtain ⟨e, he, rfl⟩ := contains_iff.mp hin
      have := hw e he
      have := hskip.2
      omega

theorem Within.dropped_eq (hw : buf.Within) (hskip : buf.WindowSkips c) :
    buf.dropped c = buf.waiting := by
  cases c with
  | pollTimeout nowMs => exact hskip.elim
  | push seq payload nowMs =>
    rw [dropped, if_pos hskip, List.filter_eq_self, waiting]
    intro d hd
    obtain ⟨e, he, rfl⟩ := List.mem_map.mp hd
    have hlt := hw e he
    have hge := hskip.2
    have hle : e.1 ≤ seq := UInt64.le_iff_toNat_le.mpr (by omega)
    simpa [ReorderCall.pushed] using hle

theorem dropped_eq_nil (h : ¬ buf.WindowSkips c) : buf.dropped c = [] := if_neg h

theorem duplicated_eq_nil (h : ¬ buf.Repeats c) : buf.duplicated c = [] := if_neg h

theorem skipped_push_eq_nil (h : ¬ buf.WindowSkips (.push seq payload nowMs)) :
    buf.skipped (.push seq payload nowMs) = [] := if_neg h

/-- What a call gives up are the numbers from the expected one on. -/
theorem le_of_mem_skipped {n : ℕ} (hn : n ∈ buf.skipped c) : buf.nextExpected.toNat ≤ n := by
  cases c with
  | push seq payload nowMs =>
    rw [skipped] at hn
    split at hn
    · exact (List.mem_range'_1.mp hn).1
    · cases hn
  | pollTimeout nowMs =>
    rw [skipped] at hn
    split at hn
    · cases hn
    split at hn
    · cases hn
    · exact (List.mem_range'_1.mp hn).1

/-- Of the numbers that a call gives up, those of waiting packets are as many as it drops. -/
theorem skipped_split (ha : buf.Ahead) (hw : buf.Within) (c : ReorderCall T) :
    ((buf.skipped c).filter (· ∉ buf.keys)).length + (buf.dropped c).length =
      (buf.skipped c).length := by
  by_cases hskip : buf.WindowSkips c
  · cases c with
    | pollTimeout nowMs => exact hskip.elim
    | push seq payload nowMs =>
      have hnumbers : ((buf.skipped (.push seq payload nowMs)).filter (· ∈ buf.keys)).Perm
          buf.keys := by
        refine (List.perm_ext_iff_of_nodup ?_ buf.keys_nodup).mpr fun n => ?_
        · rw [skipped, if_pos hskip]
          exact (List.nodup_range' ..).filter _
        · rw [skipped, if_pos hskip, List.mem_filter, decide_eq_true_eq, and_iff_right_iff_imp,
            List.mem_range'_1]
          intro hn
          obtain ⟨e, he, rfl⟩ := List.mem_map.mp hn
          have := UInt64.lt_iff_toNat_lt.mp (ha.entries he).2.1
          have := hw e he
          have := hskip.2
          omega
      have hlength := hnumbers.length_eq
      have hsplit := List.length_eq_length_filter_add (· ∈ buf.keys)
        (l := buf.skipped (.push seq payload nowMs))
      simp only [← decide_not] at hsplit
      rw [hw.dropped_eq hskip, length_waiting, hsplit, hlength]
      omega
  · rw [dropped_eq_nil hskip, List.length_nil, Nat.add_zero]
    congr 1
    rw [List.filter_eq_self]
    intro n hn
    rw [decide_eq_true_eq]
    cases c with
    | push seq payload nowMs =>
      rw [skipped_push_eq_nil hskip] at hn
      cases hn
    | pollTimeout nowMs =>
      rw [skipped] at hn
      split at hn
      · cases hn
      split at hn
      · cases hn
      next oldestSeq hfirst =>
      rintro hkey
      obtain ⟨e, he, rfl⟩ := List.mem_map.mp hkey
      have hle := UInt64.le_iff_toNat_le.mp ((SortedMap.firstKey?_spec hfirst).2 e he)
      obtain ⟨hge, hlt⟩ := List.mem_range'_1.mp hn
      omega

end Facts

/-- What a call does to the books; `returned` is what it hands out. -/
structure Ledger (buf : ReorderBuffer T) (c : ReorderCall T) (buf' : ReorderBuffer T)
    (returned : List (UInt64 × T)) : Prop where
  window : buf'.window = buf.window
  within : buf'.Within
  initialised : buf'.initialised = true ↔ buf.initialised = true ∨ c.pushed ≠ []
  delivered : buf'.delivered.toNat = buf.delivered.toNat + returned.length
  duplicates : buf'.duplicates.toNat = buf.duplicates.toNat + (buf.duplicated c).length
  lost : buf'.lost.toNat = buf.lost.toNat + (buf.skipped c).length
  next : buf.initialised = true →
    buf'.nextExpected.toNat = buf.nextExpected.toNat + (buf.skipped c).length + returned.length
  first : buf.initialised = false →
    buf.skipped c = [] ∧ ∀ d ∈ c.pushed, buf'.nextExpected.toNat = d.1.toNat + returned.length
  balance : (buf.waiting + c.pushed : Multiset (UInt64 × T)) =
    returned + buf'.waiting + buf.duplicated c + buf.dropped c
  known : ∀ d ∈ buf.waiting ++ c.pushed, d.1.toNat < buf'.nextExpected.toNat ∨ d.1.toNat ∈ buf'.keys

section Calls
variable {buf buf' : ReorderBuffer T} {seq nowMs nextExpected delivered lost : UInt64} {payload : T}
  {c : ReorderCall T} {out : List T} {d : UInt64 × T}

theorem mem_keys_of_mem_waiting (h : d ∈ buf.waiting) : d.1.toNat ∈ buf.keys := by
  obtain ⟨e, he, rfl⟩ := List.mem_map.mp h
  exact List.mem_map_of_mem he

/-- What was there before a push is what was waiting and the new packet. -/
theorem forall_waiting_push {p : UInt64 × T → Prop} :
    (∀ d ∈ buf.waiting ++ (ReorderCall.push seq payload nowMs).pushed, p d) ↔
      (∀ d ∈ buf.waiting, p d) ∧ p (seq, payload) := by
  rw [List.forall_mem_append, ReorderCall.pushed, List.forall_mem_singleton]

theorem Ledger.idle (hw : buf.Within) (hskip : buf.skipped (.pollTimeout nowMs) = []) :
    Ledger buf (.pollTimeout nowMs) buf [] where
  window := rfl
  within := hw
  initialised := by simp [ReorderCall.pushed]
  delivered := rfl
  duplicates := rfl
  lost := by rw [hskip]; rfl
  next _ := by rw [hskip]; rfl
  first _ := ⟨hskip, by simp [ReorderCall.pushed]⟩
  balance := by simp [ReorderCall.pushed, duplicated, dropped, Repeats, WindowSkips]
  known d hd := Or.inr (mem_keys_of_mem_waiting (by simpa [ReorderCall.pushed] using hd))

theorem Ledger.first_push (ha : buf.Ahead) (hinit : buf.initialised = false)
    (hnext : U64.add true seq 1 = some nextExpected)
    (hdel : U64.add true buf.delivered 1 = some delivered) :
    Ledger buf (.push seq payload nowMs) { buf with initialised := true, nextExpected, delivered }
      [(seq, payload)] := by
  have hempty := ha.entries_eq_nil hinit
  have hskips : ¬ buf.WindowSkips (.push seq payload nowMs) := fun h => by
    simp [h.1] at hinit
  have hrepeats : ¬ buf.Repeats (.push seq payload nowMs) := fun h => by
    simp [h.1] at hinit
  have hwaiting : buf.waiting = [] := by rw [waiting, hempty, List.map_nil]
  constructor
  case window => rfl
  case within =>
    intro e he
    rw [hempty] at he
    cases he
  case initialised => simp [ReorderCall.pushed]
  case delivered => exact U64.toNat_of_add_one hdel
  case duplicates => rw [duplicated_eq_nil hrepeats]; rfl
  case lost => rw [skipped_push_eq_nil hskips]; rfl
  case next => simp [hinit]
  case first =>
    refine fun _ => ⟨skipped_push_eq_nil hskips, ?_⟩
    simpa [ReorderCall.pushed] using U64.toNat_of_add_one hnext
  case balance =>
    change (buf.waiting + [(seq, payload)] : Multiset (UInt64 × T)) =
      [(seq, payload)] + buf.waiting + buf.duplicated _ + buf.dropped _
    rw [duplicated_eq_nil hrepeats, dropped_eq_nil hskips, hwaiting]
    rfl
  case known =>
    have hsucc : nextExpected.toNat = seq.toNat + 1 := U64.toNat_of_add_one hnext
    rw [forall_waiting_push, hwaiting]
    exact ⟨by simp, Or.inl (by simp [hsucc])⟩

theorem Ledger.repeated (hw : buf.Within) (hrepeats : buf.Repeats (.push seq payload nowMs))
    {duplicates : UInt64} (hdup : U64.add true buf.duplicates 1 = some duplicates) :
    Ledger buf (.push seq payload nowMs) { buf with duplicates } [] := by
  have hskips : ¬ buf.WindowSkips (.push seq payload nowMs) := fun h => hw.not_repeats h hrepeats
  have hdup' : buf.duplicated (.push seq payload nowMs) = [(seq, payload)] := if_pos hrepeats
  constructor
  case window => rfl
  case within => exact hw
  case initialised => simp [hrepeats.1]
  case delivered => rfl
  case duplicates =>
    rw [hdup']
    exact U64.toNat_of_add_one hdup
  case lost => rw [skipped_push_eq_nil hskips]; rfl
  case next =>
    intro _
    rw [skipped_push_eq_nil hskips]
    rfl
  case first => simp [hrepeats.1]
  case balance =>
    rw [hdup', dropped_eq_nil hskips]
    simp [ReorderCall.pushed, waiting]
  case known =>
    refine forall_waiting_push.mpr ⟨fun d hd => Or.inr (mem_keys_of_mem_waiting hd), ?_⟩
    rcases hrepeats.2 with hlt | hin
    · exact Or.inl (UInt64.lt_iff_toNat_lt.mp hlt)
    · obtain ⟨e, he, rfl⟩ := contains_iff.mp hin
      exact Or.inr (List.mem_map_of_mem he)

theorem Ledger.waits (hw : buf.Within) (hinit : buf.initialised = true)
    (hfresh : ¬ buf.Repeats (.push seq payload nowMs))
    (hskips : ¬ buf.WindowSkips (.push seq payload nowMs)) :
    Ledger buf (.push seq payload nowMs)
      { buf with pending := buf.pending.insert seq ⟨payload, nowMs⟩ } [] := by
  have hnew : ∀ e ∈ buf.pending.entries, e.1 ≠ seq := fun e he heq =>
    hfresh ⟨hinit, Or.inr (contains_iff.mpr ⟨e, he, heq⟩)⟩
  have hperm : (buf.pending.insert seq ⟨payload, nowMs⟩).entries.Perm
      ((seq, ⟨payload, nowMs⟩) :: buf.pending.entries) := SortedMap.insertEntry_perm hnew
  have hless : seq.toNat < buf.nextExpected.toNat + buf.window.toNat :=
    Nat.lt_of_not_le fun hle => hskips ⟨hinit, hle⟩
  constructor
  case window => rfl
  case within =>
    intro e he
    rcases List.mem_cons.mp (hperm.mem_iff.mp he) with rfl | he
    · exact hless
    · exact hw e he
  case initialised => simp [hinit]
  case delivered => rfl
  case duplicates => rw [duplicated_eq_nil hfresh]; rfl
  case lost => rw [skipped_push_eq_nil hskips]; rfl
  case next =>
    intro _
    rw [skipped_push_eq_nil hskips]
    rfl
  case first => simp [hinit]
  case balance =>
    have hwaiting := hperm.map fun e => (e.1, e.2.payload)
    rw [duplicated_eq_nil hfresh, dropped_eq_nil hskips]
    simp only [Multiset.coe_add, Multiset.coe_eq_coe, List.append_nil, List.nil_append]
    exact (List.perm_append_singleton _ _).trans hwaiting.symm
  case known =>
    have hkeys : ∀ n, n = seq.toNat ∨ n ∈ buf.keys →
        n ∈ (buf.pending.insert seq ⟨payload, nowMs⟩).entries.map fun e => e.1.toNat := by
      intro n hn
      rw [(hperm.map fun e => e.1.toNat).mem_iff, List.map_cons, List.mem_cons]
      exact hn
    rw [forall_waiting_push]
    exact ⟨fun d hd => Or.inr (hkeys _ (Or.inr (mem_keys_of_mem_waiting hd))),
      Or.inr (hkeys _ (Or.inl rfl))⟩

theorem deliver_drains
    (h : deliver true mid seq payload = some (out, buf'))
    (hpend : ∀ e ∈ mid.pending.entries, seq < e.1 ∧ e.1 ≠ 0xFFFFFFFFFFFFFFFF) :
    ∃ nextExpected delivered block, nextExpected.toNat = seq.toNat + 1 ∧
      delivered.toNat = mid.delivered.toNat + 1 ∧
      out = payload :: block.map (fun e => e.2.payload) ∧
      Drains true { mid with nextExpected, delivered } block buf' := by
  simp only [deliver] at h
  split at h
  · next nextExpected delivered hnext hdel =>
    have hsucc : nextExpected.toNat = seq.toNat + 1 := U64.toNat_of_add_one hnext
    split at h
    · next tail last hdrain =>
      cases h
      obtain ⟨block, hout, hd⟩ := drainContiguous_drains hdrain fun e he => by
        obtain ⟨hlt, hmax⟩ := hpend e he
        refine ⟨UInt64.le_iff_toNat_le.mpr ?_, hmax⟩
        have := UInt64.lt_iff_toNat_lt.mp hlt
        change nextExpected.toNat ≤ e.1.toNat
        omega
      exact ⟨nextExpected, delivered, block, hsucc, U64.toNat_of_add_one hdel, by rw [hout], hd⟩
    · cases h
  · cases h

theorem Drains.within
    (h : Drains true mid block buf') (hw : mid.Within) : buf'.Within := by
  intro e he
  have hmem : e ∈ mid.pending.entries := by
    rw [h.entries]
    exact List.mem_append_right _ he
  have hlt := hw e hmem
  have hnext := h.next
  obtain ⟨pending, nextExpected, delivered, rfl⟩ := h.frame
  dsimp only at hnext ⊢
  omega

theorem Drains.waiting_eq
    (h : Drains true mid block buf') :
    mid.waiting = block.map (fun e => (e.1, e.2.payload)) ++ buf'.waiting := by
  rw [waiting, waiting, h.entries, List.map_append]

theorem Drains.known
    (h : Drains true mid block buf') (hd : d ∈ mid.waiting) :
    d.1.toNat < buf'.nextExpected.toNat ∨ d.1.toNat ∈ buf'.keys := by
  rw [h.waiting_eq, List.mem_append] at hd
  rcases hd with hd | hd
  · obtain ⟨e, he, rfl⟩ := List.mem_map.mp hd
    exact Or.inl (UInt64.lt_iff_toNat_lt.mp (h.mem_block he).2)
  · exact Or.inr (mem_keys_of_mem_waiting hd)

theorem Drains.ledger {pending : SortedMap UInt64 (Pending T)}
    (hd : Drains true { buf with pending, nextExpected, delivered, lost } block buf')
    (hw : Within { buf with pending, nextExpected, delivered, lost })
    (hinit : buf.initialised = true) (hfresh : ¬ buf.Repeats c)
    (hwaiting : buf.waiting.Perm
      (waiting { buf with pending, nextExpected, delivered, lost } ++ buf.dropped c))
    (hbelow : ∀ d ∈ c.pushed ++ buf.dropped c, d.1.toNat < nextExpected.toNat)
    (hdel : delivered.toNat = buf.delivered.toNat + c.pushed.length)
    (hlost : lost.toNat = buf.lost.toNat + (buf.skipped c).length)
    (hnext : nextExpected.toNat =
      buf.nextExpected.toNat + (buf.skipped c).length + c.pushed.length) :
    Ledger buf c buf' (c.pushed ++ block.map fun e => (e.1, e.2.payload)) := by
  have hlast := hd.next
  have hcount := hd.delivered rfl
  have hwithin := hd.within hw
  dsimp only at hlast hcount
  obtain ⟨pending, next, count, hframe⟩ := hd.frame
  constructor
  case window => rw [hframe]
  case within => exact hwithin
  case initialised => simp [hframe, hinit]
  case delivered =>
    rw [hcount, hdel, List.length_append, List.length_map]
    omega
  case duplicates => rw [duplicated_eq_nil hfresh, hframe]; rfl
  case lost => rw [hframe, hlost]
  case next =>
    intro _
    rw [hlast, hnext, List.length_append, List.length_map]
    omega
  case first => simp [hinit]
  case balance =>
    rw [duplicated_eq_nil hfresh]
    simp only [Multiset.coe_add, Multiset.coe_eq_coe, List.append_nil, List.append_assoc]
    rw [← List.append_assoc (block.map _), ← hd.waiting_eq]
    exact List.perm_append_comm.trans (hwaiting.append_left _)
  case known =>
    have hearly : ∀ d ∈ c.pushed ++ buf.dropped c, d.1.toNat < buf'.nextExpected.toNat :=
      fun d hin => lt_of_lt_of_le (hbelow d hin) (by omega)
    rw [List.forall_mem_append] at hearly ⊢
    refine ⟨fun d hin => ?_, fun d hin => Or.inl (hearly.1 d hin)⟩
    rcases List.mem_append.mp (hwaiting.mem_iff.mp hin) with hin | hin
    · exact hd.known hin
    · exact Or.inl (hearly.2 d hin)

theorem Within.later (hw : buf.Within) (hle : buf.nextExpected.toNat ≤ nextExpected.toNat) :
    Within { buf with nextExpected, delivered, lost } := by
  intro e he
  have := hw e he
  dsimp only
  omega

theorem Ledger.in_order (ha : buf.Ahead) (hw : buf.Within) (hinit : buf.initialised = true)
    (heq : seq = buf.nextExpected) (hfresh : ¬ buf.Repeats (.push seq payload nowMs))
    (hskips : ¬ buf.WindowSkips (.push seq payload nowMs))
    (h : deliver true buf seq payload = some (out, buf')) :
    ∃ returned, returned.map Prod.snd = out ∧
      Ledger buf (.push seq payload nowMs) buf' returned := by
  subst heq
  obtain ⟨nextExpected, delivered, block, hnext, hdel, hout, hd⟩ :=
    deliver_drains h fun e he => (ha.entries he).2
  have hskipped := skipped_push_eq_nil hskips
  have hdropped := dropped_eq_nil hskips
  refine ⟨_, ?_, hd.ledger (hw.later (by omega)) hinit hfresh ?_ ?_ hdel ?_ ?_⟩
  · rw [hout, List.map_append, List.map_map]
    rfl
  · rw [hdropped, List.append_nil]
    rfl
  · simp [hdropped, ReorderCall.pushed, hnext]
  · rw [hskipped]
    rfl
  · rw [hskipped, hnext]
    rfl

theorem Ledger.skips (hw : buf.Within) (hskips : buf.WindowSkips (.push seq payload nowMs))
    (hlost : lost.toNat = buf.lost.toNat + (seq.toNat - buf.nextExpected.toNat))
    (h : deliver true { buf with lost, pending := buf.pending.retain fun k => seq < k } seq payload =
      some (out, buf')) :
    ∃ returned, returned.map Prod.snd = out ∧
      Ledger buf (.push seq payload nowMs) buf' returned := by
  have hfar := hskips.2
  have hempty : (buf.pending.retain fun k => seq < k).entries = [] := by
    rw [List.eq_nil_iff_forall_not_mem]
    intro e he
    obtain ⟨hmem, hlt⟩ := SortedMap.mem_retain.mp he
    have hgt := UInt64.lt_iff_toNat_lt.mp (of_decide_eq_true hlt)
    have hbound := hw e hmem
    omega
  have hskipped : (buf.skipped (.push seq payload nowMs)).length =
      seq.toNat - buf.nextExpected.toNat := by
    rw [skipped, if_pos hskips, List.length_range']
  obtain ⟨nextExpected, delivered, block, hnext, hdel, hout, hd⟩ := deliver_drains h (by simp [hempty])
  change Drains true { buf with
    pending := buf.pending.retain fun k => seq < k, nextExpected, delivered, lost } block buf' at hd
  refine ⟨_, ?_, hd.ledger ?_ hskips.1 (hw.not_repeats hskips) ?_ ?_ hdel ?_ ?_⟩
  · rw [hout, List.map_append, List.map_map]
    rfl
  · simp [Within, hempty]
  · rw [hw.dropped_eq hskips, waiting, waiting, hempty]
    rfl
  · rw [hw.dropped_eq hskips, ReorderCall.pushed, List.singleton_append, List.forall_mem_cons]
    refine ⟨by simp [hnext], fun d hin => ?_⟩
    obtain ⟨e, he, rfl⟩ := List.mem_map.mp hin
    have := hw e he
    dsimp only
    omega
  · rw [hskipped, hlost]
  · rw [hskipped, hnext, ReorderCall.pushed, List.length_singleton]
    omega

/-- A timeout gives up the first gap and hands out the block behind it. -/
theorem Ledger.times_out (ha : buf.Ahead) (hw : buf.Within)
    (hold : ¬ buf.oldestAge nowMs < buf.gapTimeoutMs) {oldestSeq : UInt64}
    (hfirst : buf.pending.firstKey? = some oldestSeq)
    (hlost : lost.toNat = buf.lost.toNat + (oldestSeq.toNat - buf.nextExpected.toNat))
    (h : drainContiguous true { buf with lost, nextExpected := oldestSeq } = some (out, buf')) :
    ∃ returned, returned.map Prod.snd = out ∧
      Ledger buf (.pollTimeout nowMs) buf' returned := by
  obtain ⟨⟨p, hp⟩, hleast⟩ := SortedMap.firstKey?_spec hfirst
  obtain ⟨hinit, hlt, -⟩ := ha.entries hp
  have hgap : buf.nextExpected.toNat < oldestSeq.toNat := UInt64.lt_iff_toNat_lt.mp hlt
  have hskipped : (buf.skipped (.pollTimeout nowMs)).length =
      oldestSeq.toNat - buf.nextExpected.toNat := by
    rw [skipped, if_neg hold, hfirst, List.length_range']
  obtain ⟨block, hout, hd⟩ := drainContiguous_drains h fun e he =>
    ⟨hleast e he, (ha.entries he).2.2⟩
  refine ⟨_, ?_, hd.ledger (hw.later (by omega)) hinit id ?_ nofun rfl ?_ ?_⟩
  · rw [← hout, List.map_append, List.map_map]
    rfl
  · exact (List.append_nil _).symm ▸ .refl _
  · rw [hskipped, hlost]
  · rw [hskipped, ReorderCall.pushed, List.length_nil]
    omega

theorem skipTo_lost (h : buf.skipTo true seq = some mid)
    (hle : buf.nextExpected ≤ seq) : ∃ lost, mid = { buf with lost } ∧
      lost.toNat = buf.lost.toNat + (seq.toNat - buf.nextExpected.toNat) := by
  rw [skipTo, U64.sub_eq_some true hle] at h
  obtain ⟨lost, hadd, rfl⟩ := Option.map_eq_some_iff.mp h
  refine ⟨lost, rfl, ?_⟩
  rw [U64.toNat_of_add hadd (Or.inl rfl), UInt64.toNat_sub_of_le _ _ hle]

theorem push_ledger (ha : buf.Ahead) (hw : buf.Within)
    (h : buf.push true seq payload nowMs = some (out, buf')) :
    ∃ returned, returned.map Prod.snd = out ∧
      Ledger buf (.push seq payload nowMs) buf' returned := by
  have hcount : buf.Repeats (.push seq payload nowMs) →
      buf.countDuplicate true = some (out, buf') → ∃ returned, returned.map Prod.snd = out ∧
        Ledger buf (.push seq payload nowMs) buf' returned := by
    intro hrepeats hd
    obtain ⟨duplicates, hadd, heq⟩ := Option.map_eq_some_iff.mp hd
    cases heq
    exact ⟨[], rfl, .repeated hw hrepeats hadd⟩
  simp only [push] at h
  split at h
  · next hinit =>
    split at h
    · next hnext hdel =>
      cases h
      exact ⟨[(seq, payload)], rfl, .first_push ha hinit hnext hdel⟩
    · cases h
  next hinit =>
  replace hinit : buf.initialised = true := by simpa using hinit
  split at h
  · next hlt => exact hcount ⟨hinit, Or.inl hlt⟩ h
  next hge =>
  split at h
  · next hin => exact hcount ⟨hinit, Or.inr hin⟩ h
  next hout =>
  have hfresh : ¬ buf.Repeats (.push seq payload nowMs) := by
    rintro ⟨-, hlt | hin⟩
    · exact hge hlt
    · exact hout hin
  split at h
  · cases h
  next limit hlimit =>
  have hreach : limit.toNat = buf.nextExpected.toNat + buf.window.toNat :=
    U64.toNat_of_add hlimit (Or.inl rfl)
  split at h
  · next hfar =>
    have hskips : buf.WindowSkips (.push seq payload nowMs) :=
      ⟨hinit, hreach ▸ UInt64.le_iff_toNat_le.mp hfar⟩
    split at h
    · cases h
    next mid hskip =>
    obtain ⟨lost, rfl, hlost⟩ := skipTo_lost hskip (not_lt.mp hge)
    exact Ledger.skips hw hskips hlost h
  next hnear =>
  have hskips : ¬ buf.WindowSkips (.push seq payload nowMs) := fun hfar =>
    hnear (UInt64.le_iff_toNat_le.mpr (hreach ▸ hfar.2))
  split at h
  · next heq => exact Ledger.in_order ha hw hinit heq hfresh hskips h
  · cases h
    exact ⟨[], rfl, .waits hw hinit hfresh hskips⟩

theorem pollTimeout_ledger (ha : buf.Ahead) (hw : buf.Within)
    (h : buf.pollTimeout true nowMs = some (out, buf')) :
    ∃ returned, returned.map Prod.snd = out ∧
      Ledger buf (.pollTimeout nowMs) buf' returned := by
  have hidle : buf.skipped (.pollTimeout nowMs) = [] → some ([], buf) = some (out, buf') →
      ∃ returned, returned.map Prod.snd = out ∧
        Ledger buf (.pollTimeout nowMs) buf' returned := by
    intro hskip heq
    cases heq
    exact ⟨[], rfl, .idle hw hskip⟩
  simp only [pollTimeout] at h
  split at h
  · next hempty =>
    refine hidle ?_ h
    have hnone : buf.pending.firstKey? = none := by
      rw [SortedMap.firstKey?, List.isEmpty_iff.mp hempty]
      rfl
    rw [skipped, hnone, ite_self]
  split at h
  · next hyoung => exact hidle (if_pos hyoung) h
  next hold =>
  split at h
  · cases h
  next oldestSeq hfirst =>
  obtain ⟨⟨p, hp⟩, -⟩ := SortedMap.firstKey?_spec hfirst
  have hlt := (ha.entries hp).2.1
  rw [if_pos hlt] at h
  split at h
  · cases h
  next mid hskip =>
  obtain ⟨lost, rfl, hlost⟩ := skipTo_lost hskip (le_of_lt hlt)
  exact Ledger.times_out ha hw hold hfirst hlost h

theorem call_ledger (ha : buf.Ahead) (hw : buf.Within) (h : buf.call true c = some (out, buf')) :
    ∃ returned, returned.map Prod.snd = out ∧ Ledger buf c buf' returned := by
  cases c with
  | push seq payload nowMs => exact push_ledger ha hw h
  | pollTimeout nowMs => exact pollTimeout_ledger ha hw h

end Calls

end ReorderBuffer

end Desmos.Core
