import Desmos.Proto.Fragment.Reassembly

/-! # Fragmentation round trips

The fragments of packets with distinct ids arrive interleaved, in any order and more than once.
Every packet comes out when the last of its fragments is there.
-/
namespace Desmos.Proto
open Library

/-- A payload that the fragmenter has accepted, with its fragments. -/
structure Packet where
  payload : Bytes
  maxFragmentLen : ℕ
  fragmentId : UInt16
  fragments : List Bytes
  accepted : fragment payload maxFragmentLen fragmentId = .ok fragments

theorem FragmentHeader.encode_zeros (h : FragmentHeader) :
    h.encode (List.replicate fragmentHeaderLen 0) = .ok h.bytes := by
  have hlen : ¬ (List.replicate fragmentHeaderLen (0 : UInt8)).length < fragmentHeaderLen := by simp
  rw [encode, if_neg hlen, List.drop_of_length_le (by simp), List.append_nil]

theorem fragmentChunks_eq (s : FragmentSource) {idx : ℕ} {rest : List Bytes}
    (h : s.bodies.drop idx = rest) :
    fragmentChunks s.fragmentId s.total idx rest =
      .ok ((List.range' idx rest.length).map s.fragmentAt) := by
  induction rest generalizing idx with
  | nil => rfl
  | cons chunk rest ih =>
    have hi : idx < s.bodies.length := by
      rw [← List.drop_eq_nil_iff.not.trans Nat.not_le]
      simp [h]
    rw [List.drop_eq_getElem_cons hi, List.cons_eq_cons] at h
    obtain ⟨rfl, hrest⟩ := h
    have hnew : FragmentHeader.new s.fragmentId (UInt8.ofNat idx) s.total =
        .ok (FragmentSource.header hi) := (FragmentSource.header hi).new_of_valid
    rw [fragmentChunks, hnew]
    simp only [FragmentHeader.encode_zeros, ih hrest, ← FragmentSource.fragmentAt_eq hi]
    rfl

theorem fragment_ok_iff {payload : Bytes} {maxFragmentLen : ℕ} {fragmentId : UInt16}
    {fragments : List Bytes} : fragment payload maxFragmentLen fragmentId = .ok fragments ↔
      payload ≠ [] ∧ 0 < maxFragmentLen - fragmentHeaderLen ∧
        (chunks (maxFragmentLen - fragmentHeaderLen) payload).length ≤ maxFragments ∧
        fragmentChunks fragmentId
          (UInt8.ofNat (chunks (maxFragmentLen - fragmentHeaderLen) payload).length) 0
          (chunks (maxFragmentLen - fragmentHeaderLen) payload) = .ok fragments := by
  rw [fragment]
  by_cases hpayload : payload = []
  · simp [hpayload]
  by_cases hmax : maxFragmentLen ≤ fragmentHeaderLen
  · rw [if_neg hpayload, if_pos hmax]
    simp [Nat.sub_eq_zero_of_le hmax]
  have hpos : 0 < maxFragmentLen - fragmentHeaderLen := by omega
  have hcount : (chunks (maxFragmentLen - fragmentHeaderLen) payload).length ≠ 0 := by
    rw [chunks_of_pos hpos hpayload]
    exact Nat.succ_ne_zero _
  rw [if_neg hpayload, if_neg hmax]
  simp only [← chunks_length hpos]
  split
  · next hmany =>
    constructor
    · intro h
      cases h
    · rintro ⟨-, -, hle, -⟩
      simp only [maxFragments] at hmany hle
      omega
  · next hfew => exact ⟨fun h => ⟨hpayload, hpos, by omega, h⟩, fun h => h.2.2.2⟩

namespace Packet
variable (p : Packet)

/-- What travels under the id of a packet. -/
def source : FragmentSource where
  fragmentId := p.fragmentId
  bodies := chunks (p.maxFragmentLen - fragmentHeaderLen) p.payload
  nonempty := by
    obtain ⟨hpayload, hpos, -⟩ := fragment_ok_iff.mp p.accepted
    rw [chunks_of_pos hpos hpayload]
    exact List.cons_ne_nil _ _
  bounded := (fragment_ok_iff.mp p.accepted).2.2.1

theorem flatten_bodies : p.source.bodies.flatten = p.payload :=
  chunks_flatten (fragment_ok_iff.mp p.accepted).2.1 _

theorem fragments_eq : p.fragments = (List.range p.source.bodies.length).map p.source.fragmentAt := by
  have h := (fragment_ok_iff.mp p.accepted).2.2.2
  rw [List.range_eq_range']
  exact Except.ok.inj (h.symm.trans (fragmentChunks_eq p.source rfl))

theorem fragments_length : p.fragments.length = p.source.bodies.length := by
  rw [fragments_eq, List.length_map, List.length_range]

theorem getD_fragments {i : ℕ} (hi : i < p.source.bodies.length) :
    p.fragments.getD i [] = p.source.fragmentAt i := by
  rw [fragments_eq, List.getD_eq_getElem _ _ (by simpa using hi)]
  simp

theorem fragment_length_le : ∀ f ∈ p.fragments, f.length ≤ p.maxFragmentLen := by
  intro f hf
  rw [fragments_eq, List.mem_map] at hf
  obtain ⟨i, hi, rfl⟩ := hf
  rw [List.mem_range] at hi
  have hpos := (fragment_ok_iff.mp p.accepted).2.1
  have hbody : p.source.bodies[i].length ≤ p.maxFragmentLen - fragmentHeaderLen :=
    chunks_length_le hpos _ _ (List.getElem_mem hi)
  rw [FragmentSource.fragmentAt_eq hi, List.length_append, FragmentHeader.bytes_length]
  omega

end Packet

section Arrivals
variable {κ : Type*} [DecidableEq κ] (packets : κ → Packet)

/-- The bytes of a fragment that arrives: which packet, and which of its fragments. -/
def arriving (a : κ × ℕ) : Bytes := (packets a.1).fragments.getD a.2 []

/-- The answers to a sequence of arrivals, from a new reassembler. -/
def answers (inFlightLimit : ℕ) (arrivals : List (κ × ℕ)) :
    List (Option (Except FragmentError (Option Bytes))) :=
  (reassembly.trace (some (.new inFlightLimit)) (arrivals.map (arriving packets))).map Prod.snd

variable {packets} {inFlightLimit j : ℕ} {arrivals : List (κ × ℕ)} {sources : κ → FragmentSource}
  {k : κ}

theorem answers_getElem? (hids : Function.Injective fun k => (packets k).fragmentId)
    (h : Orderly (fun k => (packets k).source) (max inFlightLimit 1) arrivals) {a : κ × ℕ}
    (ha : arrivals[j]? = some a) :
    (answers packets inFlightLimit arrivals)[j]? =
      some (some (.ok (if Complete (fun k => (packets k).source) (arrivals.take (j + 1)) a.1 then
        some (packets a.1).payload else none))) := by
  have hbytes : arrivals.map (arriving packets) =
      arrivals.map fun a => (packets a.1).source.fragmentAt a.2 :=
    List.map_congr_left fun a ha => (packets a.1).getD_fragments (h.inRange a ha)
  rw [answers, List.getElem?_map, hbytes, h.answer hids ha, Option.map_some, Packet.flatten_bodies]

theorem completed_by_own (hbefore : ¬ Complete sources (arrivals.take j) k)
    (hafter : Complete sources (arrivals.take (j + 1)) k) : ∃ i, arrivals[j]? = some (k, i) := by
  rw [List.take_add_one] at hafter
  cases ha : arrivals[j]? with
  | none =>
    rw [ha, Option.toList_none, List.append_nil] at hafter
    exact absurd hafter hbefore
  | some a =>
    obtain ⟨k', i⟩ := a
    rw [ha, Option.toList_some] at hafter
    by_cases hk : k = k'
    · exact ⟨i, by rw [hk]⟩
    · exact absurd ((other_group hk).2.1.mp hafter) hbefore

theorem completed_once {limit : ℕ} (h : Orderly sources limit arrivals)
    (hall : Complete sources arrivals k) :
    ∃! j, ∃ i, arrivals[j]? = some (k, i) ∧ Complete sources (arrivals.take (j + 1)) k := by
  have hex : ∃ n, Complete sources (arrivals.take n) k := ⟨arrivals.length, by rwa [List.take_length]⟩
  -- the first prefix that is complete is not empty
  obtain ⟨j, hj⟩ : ∃ j, Nat.find hex = j + 1 := by
    apply Nat.exists_eq_succ_of_ne_zero
    intro h0
    have hnil := Nat.find_spec hex
    rw [h0, List.take_zero] at hnil
    exact absurd (hnil 0 (List.length_pos_iff.mpr (sources k).nonempty)) List.not_mem_nil
  have hafter : Complete sources (arrivals.take (j + 1)) k := hj ▸ Nat.find_spec hex
  have hbefore : ¬ Complete sources (arrivals.take j) k := Nat.find_min hex (by omega)
  obtain ⟨i, hi⟩ := completed_by_own hbefore hafter
  refine ⟨j, ⟨i, hi, hafter⟩, ?_⟩
  rintro j' ⟨i', hi', hafter'⟩
  have hle : j + 1 ≤ j' + 1 := hj ▸ Nat.find_min' hex hafter'
  by_contra hne
  refine h.unfinished j' _ hi' fun o ho => ?_
  exact List.take_subset_take_left _ (by omega) (hafter o ho)

/-- The fragments of packets with distinct ids go through a reassembler that never has to
evict: the payload of each packet that all arrives comes out once, with the fragment that was
missing last, and every other push answers that nothing is complete. -/
theorem fragmentation_round_trips (hids : Function.Injective fun k => (packets k).fragmentId)
    (h : Orderly (fun k => (packets k).source) (max inFlightLimit 1) arrivals) :
    (∀ k, ∀ f ∈ (packets k).fragments, f.length ≤ (packets k).maxFragmentLen) ∧
      (∀ (j : ℕ) (a : κ × ℕ), arrivals[j]? = some a → (answers packets inFlightLimit arrivals)[j]? =
        some (some (.ok (if Complete (fun k => (packets k).source) (arrivals.take (j + 1)) a.1 then
          some (packets a.1).payload else none)))) ∧
      ∀ k, (∀ i < (packets k).fragments.length, (k, i) ∈ arrivals) →
        ∃! j : ℕ, ∃ i, arrivals[j]? = some (k, i) ∧
          (answers packets inFlightLimit arrivals)[j]? =
            some (some (.ok (some (packets k).payload))) := by
  refine ⟨fun k => (packets k).fragment_length_le, fun j a => answers_getElem? hids h, ?_⟩
  intro k hall
  rw [Packet.fragments_length] at hall
  have hanswer : ∀ (j : ℕ) i, arrivals[j]? = some (k, i) →
      ((answers packets inFlightLimit arrivals)[j]? = some (some (.ok (some (packets k).payload))) ↔
        Complete (fun k => (packets k).source) (arrivals.take (j + 1)) k) := by
    intro j i hj
    rw [answers_getElem? hids h hj]
    split
    · next hc => simp [hc]
    · next hc => simp [hc]
  have hiff : ∀ j : ℕ, (∃ i, arrivals[j]? = some (k, i) ∧
      (answers packets inFlightLimit arrivals)[j]? = some (some (.ok (some (packets k).payload)))) ↔
      ∃ i, arrivals[j]? = some (k, i) ∧
        Complete (fun k => (packets k).source) (arrivals.take (j + 1)) k :=
    fun j => exists_congr fun i => and_congr_right fun hj => hanswer j i hj
  simp only [hiff]
  exact completed_once h hall

end Arrivals

def twoAndOne : Bool → Packet
  | false => ⟨[1, 2], 5, 0, [[0, 0, 0, 2, 1], [0, 0, 1, 2, 2]], by decide +kernel⟩
  | true => ⟨[3], 5, 1, [[0, 1, 0, 1, 3]], by decide +kernel⟩

/-- Out of order, with a duplicate, while both groups are in flight. -/
def shuffledArrivals : List (Bool × ℕ) := [(false, 1), (true, 0), (false, 1), (false, 0)]

theorem shuffledArrivals_orderly :
    Orderly (fun k => (twoAndOne k).source) (max 2 1) shuffledArrivals where
  inRange := by decide +kernel
  unfinished j a ha := by
    obtain ⟨hj, rfl⟩ := List.getElem?_eq_some_iff.mp ha
    revert j
    decide +kernel
  room j a ha := by
    obtain ⟨hj, rfl⟩ := List.getElem?_eq_some_iff.mp ha
    revert j
    decide +kernel

theorem shuffled_packets_come_out :
    (Function.Injective fun k => (twoAndOne k).fragmentId) ∧
      Orderly (fun k => (twoAndOne k).source) (max 2 1) shuffledArrivals ∧
      ∃! j : ℕ, ∃ i, shuffledArrivals[j]? = some (false, i) ∧
        (answers twoAndOne 2 shuffledArrivals)[j]? =
          some (some (.ok (some (twoAndOne false).payload))) := by
  have hids : Function.Injective fun k => (twoAndOne k).fragmentId := by decide
  exact ⟨hids, shuffledArrivals_orderly,
    (fragmentation_round_trips hids shuffledArrivals_orderly).2.2 false (by decide)⟩

/-- A reassembler for one group holds half of the first packet when the second one comes, which is
complete with its only fragment. The first group is gone when its other fragment arrives. -/
theorem single_fragment_evicts :
    (Function.Injective fun k => (twoAndOne k).fragmentId) ∧
      (∀ j ≤ 3, (incomplete (fun k => (twoAndOne k).source)
        ([(false, 0), (true, 0), (false, 1)].take j)).card ≤ 1) ∧
      Complete (fun k => (twoAndOne k).source) [(false, 0), (true, 0), (false, 1)] false ∧
      answers twoAndOne 1 [(false, 0), (true, 0), (false, 1)] =
        [some (.ok none), some (.ok (some [3])), some (.ok none)] := by
  decide +kernel

end Desmos.Proto
