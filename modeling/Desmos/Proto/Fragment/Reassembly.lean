import Mathlib.Data.List.GetD
import Desmos.Library.Machine
import Desmos.Proto.Fragment

/-! # What the reassembler holds

As long as no group has to be evicted, the reassembler holds exactly the groups that have begun and
are not complete, each with the bodies that have arrived.
-/
namespace Desmos.Proto
open Library

namespace FragmentHeader

@[simp] theorem bytes_length (h : FragmentHeader) : h.bytes.length = fragmentHeaderLen := by
  simp [bytes, fragmentHeaderLen]

theorem new_of_valid (h : FragmentHeader) : new h.fragmentId h.offset h.total = .ok h := by
  rw [new, dif_neg]
  rintro (h0 | hle)
  · have := h.valid
    rw [h0] at this
    exact absurd this (by simp)
  · exact absurd h.valid (UInt8.not_lt.mpr hle)

theorem decode_bytes_append (h : FragmentHeader) (body : Bytes) : decode (h.bytes ++ body) = .ok h := by
  have hid : slice (h.bytes ++ body) 0 2 = toBe 2 h.fragmentId.toNat := by
    rw [bytes, List.append_assoc]
    exact slice_head (by simp) _
  have hl : ¬ (h.bytes ++ body).length < fragmentHeaderLen := by simp
  have hrest : ∀ i, (h.bytes ++ body).getD (2 + i) 0 = ([h.offset, h.total] ++ body).getD i 0 := by
    intro i
    rw [bytes, List.append_assoc, List.getD_append_right _ _ _ _ (by simp)]
    simp
  rw [decode, if_neg hl, hid, ofBe_toBe_uint16, hrest 0, hrest 1]
  exact h.new_of_valid

end FragmentHeader

/-- The bodies that travel under one id. -/
structure FragmentSource where
  fragmentId : UInt16
  bodies : List Bytes
  nonempty : bodies ≠ []
  bounded : bodies.length ≤ maxFragments

namespace FragmentSource
variable (s : FragmentSource)

def total : UInt8 := UInt8.ofNat s.bodies.length

theorem toNat_total : s.total.toNat = s.bodies.length := by
  have hb := s.bounded
  exact Nat.mod_eq_of_lt (by simp only [maxFragments] at hb; omega)

variable {s} {i : ℕ}

theorem toNat_offset (hi : i < s.bodies.length) : (UInt8.ofNat i).toNat = i := by
  have hb := s.bounded
  exact Nat.mod_eq_of_lt (by simp only [maxFragments] at hb; omega)

def header (hi : i < s.bodies.length) : FragmentHeader :=
  ⟨s.fragmentId, UInt8.ofNat i, s.total, by
    rw [UInt8.lt_iff_toNat_lt, toNat_offset hi, toNat_total]
    exact hi⟩

variable (s) in
def fragmentAt (i : ℕ) : Bytes :=
  toBe 2 s.fragmentId.toNat ++ [UInt8.ofNat i, s.total] ++ s.bodies.getD i []

theorem fragmentAt_eq (hi : i < s.bodies.length) :
    s.fragmentAt i = (header hi).bytes ++ s.bodies[i] := by
  rw [fragmentAt, List.getD_eq_getElem _ _ hi]
  rfl

theorem decode_fragmentAt (hi : i < s.bodies.length) :
    FragmentHeader.decode (s.fragmentAt i) = .ok (header hi) := by
  rw [fragmentAt_eq hi, FragmentHeader.decode_bytes_append]

theorem drop_fragmentAt (hi : i < s.bodies.length) :
    (s.fragmentAt i).drop fragmentHeaderLen = s.bodies[i] := by
  rw [fragmentAt_eq hi, List.drop_left' (header hi).bytes_length]

end FragmentSource

section Groups
variable {κ : Type*} [DecidableEq κ] (sources : κ → FragmentSource) (seen : List (κ × ℕ)) (k : κ)

/-- Every fragment of the group has arrived. -/
def Complete : Prop := ∀ i < (sources k).bodies.length, (k, i) ∈ seen

/-- Some fragment of the group has arrived. -/
def Started : Prop := ∃ a ∈ seen, a.1 = k

instance : Decidable (Complete sources seen k) := Nat.decidableBallLT _ _
instance : Decidable (Started seen k) := List.decidableBEx _ _

/-- The slots of a group when `seen` has arrived. -/
def slotsAfter : List (Option Bytes) :=
  (sources k).bodies.mapIdx fun i body => if (k, i) ∈ seen then some body else none

def groupAfter : PartialGroup :=
  { total := (sources k).total
    slots := slotsAfter sources seen k
    received := (slotsAfter sources seen k).countP Option.isSome }

variable {sources seen k} {i : ℕ}

theorem slotsAfter_length : (slotsAfter sources seen k).length = (sources k).bodies.length := by
  simp [slotsAfter]

theorem slotsAfter_getElem? (hi : i < (sources k).bodies.length) :
    (slotsAfter sources seen k)[i]? =
      some (if (k, i) ∈ seen then some (sources k).bodies[i] else none) := by
  simp [slotsAfter, hi]

theorem slotsAfter_set (hi : i < (sources k).bodies.length) :
    (slotsAfter sources seen k).set i (some (sources k).bodies[i]) =
      slotsAfter sources (seen ++ [(k, i)]) k := by
  apply List.ext_getElem
  · rw [List.length_set, slotsAfter_length, slotsAfter_length]
  · intro j h1 h2
    rw [List.getElem_set]
    split
    · next hij =>
      subst hij
      simp [slotsAfter]
    · next hij => simp [slotsAfter, Ne.symm hij]

theorem countP_eq_iff : (slotsAfter sources seen k).countP Option.isSome = (sources k).bodies.length ↔
    Complete sources seen k := by
  rw [← @slotsAfter_length _ _ sources seen k, List.countP_eq_length]
  constructor
  · intro h i hi
    have hmem := h _ (List.mem_of_getElem? (slotsAfter_getElem? hi))
    split at hmem
    · next hin => exact hin
    · cases hmem
  · intro h slot hslot
    obtain ⟨i, hi, rfl⟩ := List.mem_iff_getElem.mp hslot
    rw [slotsAfter_length] at hi
    simp [slotsAfter, h i hi]

theorem countP_push (hi : i < (sources k).bodies.length) (hnew : (k, i) ∉ seen) :
    (slotsAfter sources (seen ++ [(k, i)]) k).countP Option.isSome =
      (slotsAfter sources seen k).countP Option.isSome + 1 := by
  have hlen : i < (slotsAfter sources seen k).length := by rwa [slotsAfter_length]
  have hold : (slotsAfter sources seen k)[i] = none := by
    have hget : (slotsAfter sources seen k)[i]? = _ := slotsAfter_getElem? hi
    rw [List.getElem?_eq_getElem hlen, if_neg hnew] at hget
    exact Option.some.inj hget
  rw [← slotsAfter_set hi, List.countP_set hlen, hold]
  simp

theorem groupAfter_of_mem (h : (k, i) ∈ seen) :
    groupAfter sources (seen ++ [(k, i)]) k = groupAfter sources seen k := by
  have hmem : ∀ j, (k, j) ∈ seen ++ [(k, i)] ↔ (k, j) ∈ seen := by
    intro j
    rw [List.mem_append, List.mem_singleton, or_iff_left_of_imp]
    rintro ⟨⟩
    exact h
  simp only [groupAfter, slotsAfter, hmem]

theorem groupAfter_of_notMem (hi : i < (sources k).bodies.length) (h : (k, i) ∉ seen) :
    groupAfter sources (seen ++ [(k, i)]) k =
      { groupAfter sources seen k with
        slots := (groupAfter sources seen k).slots.set i (some (sources k).bodies[i])
        received := (groupAfter sources seen k).received + 1 } := by
  simp only [groupAfter, slotsAfter_set hi, countP_push hi h]

theorem collect_map_some (bodies : List Bytes) :
    Reassembler.collect (bodies.map some) = some bodies.flatten := by
  induction bodies with
  | nil => rfl
  | cons body bodies ih => simp [Reassembler.collect, ih]

theorem collect_slotsAfter (h : Complete sources seen k) :
    Reassembler.collect (slotsAfter sources seen k) = some (sources k).bodies.flatten := by
  rw [← collect_map_some]
  congr 1
  apply List.ext_getElem
  · simp [slotsAfter]
  · intro j h1 h2
    rw [slotsAfter_length] at h1
    simp [slotsAfter, h j h1]

/-- A fragment of one group tells nothing about another. -/
theorem other_group {k' : κ} (hk : k' ≠ k) :
    (Started (seen ++ [(k, i)]) k' ↔ Started seen k') ∧
      (Complete sources (seen ++ [(k, i)]) k' ↔ Complete sources seen k') ∧
      groupAfter sources (seen ++ [(k, i)]) k' = groupAfter sources seen k' := by
  have hmem : ∀ j, (k', j) ∈ seen ++ [(k, i)] ↔ (k', j) ∈ seen := by
    intro j
    simp [hk]
  have hslots : slotsAfter sources (seen ++ [(k, i)]) k' = slotsAfter sources seen k' := by
    simp only [slotsAfter, hmem]
  refine ⟨?_, ?_, ?_⟩
  · simp [Started, Ne.symm hk]
  · simp only [Complete, hmem]
  · simp only [groupAfter, hslots]

end Groups

section Push
variable {κ : Type*} [DecidableEq κ] {sources : κ → FragmentSource}
  {seen : List (κ × ℕ)} {limit : ℕ} {r : Reassembler} {k : κ} {i : ℕ}

/-- The groups that have begun and are not complete. -/
def incomplete (sources : κ → FragmentSource) (seen : List (κ × ℕ)) : Finset κ :=
  (seen.map Prod.fst).toFinset.filter fun k => ¬ Complete sources seen k

theorem mem_incomplete : k ∈ incomplete sources seen ↔ Started seen k ∧ ¬ Complete sources seen k := by
  simp [incomplete, Started]

/-- The reassembler holds the incomplete groups of what has arrived. -/
structure HoldsGroups (sources : κ → FragmentSource) (seen : List (κ × ℕ)) (limit : ℕ)
    (r : Reassembler) : Prop where
  groups : ∀ k, r.inFlight.lookup (sources k).fragmentId =
    if Started seen k ∧ ¬ Complete sources seen k then some (groupAfter sources seen k) else none
  others : ∀ id, (∀ k, (sources k).fragmentId ≠ id) → r.inFlight.lookup id = none
  limit : r.inFlightLimit = limit

theorem HoldsGroups.new (sources : κ → FragmentSource) (limit : ℕ) :
    HoldsGroups sources [] (max limit 1) (.new limit) where
  groups k := by
    rw [if_neg]
    · rfl
    · rintro ⟨⟨a, ha, -⟩, -⟩
      cases ha
  others _ _ := rfl
  limit := rfl

section
variable (h : HoldsGroups sources seen limit r)
include h

theorem HoldsGroups.length_le : r.inFlight.entries.length ≤ (incomplete sources seen).card := by
  have hkeys : r.inFlight.keys.toFinset ⊆
      (incomplete sources seen).image fun k => (sources k).fragmentId := by
    intro id hid
    rw [List.mem_toFinset, ← AList.mem_keys, ← AList.lookup_isSome] at hid
    by_cases hsource : ∃ k, (sources k).fragmentId = id
    · obtain ⟨k, rfl⟩ := hsource
      rw [h.groups k] at hid
      split at hid
      · next hk => exact Finset.mem_image_of_mem _ (mem_incomplete.mpr hk)
      · cases hid
    · rw [h.others id fun k hk => hsource ⟨k, hk⟩] at hid
      cases hid
  calc r.inFlight.entries.length = r.inFlight.keys.length := (List.length_map _).symm
    _ = r.inFlight.keys.toFinset.card := (List.toFinset_card_of_nodup r.inFlight.keys_nodup).symm
    _ ≤ ((incomplete sources seen).image fun k => (sources k).fragmentId).card :=
        Finset.card_le_card hkeys
    _ ≤ (incomplete sources seen).card := Finset.card_image_le

theorem HoldsGroups.makeRoom (hinc : ¬ Complete sources seen k)
    (hroom : ¬ Started seen k → (incomplete sources seen).card < limit) :
    r.makeRoom (sources k).fragmentId = r := by
  rw [Reassembler.makeRoom, if_neg]
  rintro ⟨hnew, hfull⟩
  rw [← AList.lookup_eq_none, h.groups k] at hnew
  split at hnew
  · cases hnew
  · next hk =>
    have hstart : ¬ Started seen k := fun hs => hk ⟨hs, hinc⟩
    have := h.length_le
    have := hroom hstart
    rw [h.limit] at hfull
    omega

theorem HoldsGroups.groupOf
    (hinc : ¬ Complete sources seen k) (hi : i < (sources k).bodies.length) : ∃ r',
      r.groupOf (FragmentSource.header hi) = (groupAfter sources seen k, r') ∧
      r'.inFlight.lookup (sources k).fragmentId = some (groupAfter sources seen k) ∧
      (∀ id ≠ (sources k).fragmentId, r'.inFlight.lookup id = r.inFlight.lookup id) ∧
      r'.inFlightLimit = limit := by
  have hk := h.groups k
  change r.inFlight.lookup (FragmentSource.header hi).fragmentId = _ at hk
  by_cases hs : Started seen k
  · rw [if_pos ⟨hs, hinc⟩] at hk
    refine ⟨r, ?_, hk, fun _ _ => rfl, h.limit⟩
    rw [Reassembler.groupOf, hk]
  · rw [if_neg fun hc => hs hc.1] at hk
    -- nothing has arrived, so the slots of the group are those of a new one
    have hnone : ∀ j, (k, j) ∉ seen := fun j hj => hs ⟨_, hj, rfl⟩
    have hslots : slotsAfter sources seen k =
        List.replicate (FragmentSource.header hi).total.toNat none := by
      rw [List.eq_replicate_iff, slotsAfter_length]
      refine ⟨(FragmentSource.toNat_total _).symm, fun slot hslot => ?_⟩
      obtain ⟨j, hj, rfl⟩ := List.mem_iff_getElem.mp hslot
      simp [slotsAfter, hnone]
    have hgroup : groupAfter sources seen k = { total := (FragmentSource.header hi).total
                                                slots := List.replicate
                                                  (FragmentSource.header hi).total.toNat none
                                                received := 0 } := by
      rw [groupAfter, hslots]
      simp [FragmentSource.header]
    refine ⟨{ r with order := r.order ++ [(sources k).fragmentId]
                     inFlight := r.inFlight.insert (sources k).fragmentId
                       (groupAfter sources seen k) },
      ?_, AList.lookup_insert _, fun id hne => AList.lookup_insert_ne hne, h.limit⟩
    rw [Reassembler.groupOf, hk, hgroup]
    rfl

/-- What a reassembler must hold after a fragment of the group `k`. -/
theorem HoldsGroups.update
    (hinj : Function.Injective fun k => (sources k).fragmentId) {r' : Reassembler}
    (hk : r'.inFlight.lookup (sources k).fragmentId =
      if Complete sources (seen ++ [(k, i)]) k then none
      else some (groupAfter sources (seen ++ [(k, i)]) k))
    (hother : ∀ id ≠ (sources k).fragmentId, r'.inFlight.lookup id = r.inFlight.lookup id)
    (hlimit : r'.inFlightLimit = limit) :
    HoldsGroups sources (seen ++ [(k, i)]) limit r' where
  groups k' := by
    by_cases hkk : k' = k
    · subst hkk
      have hstart : Started (seen ++ [(k', i)]) k' := ⟨(k', i), by simp, rfl⟩
      rw [hk]
      by_cases hc : Complete sources (seen ++ [(k', i)]) k'
      · rw [if_pos hc, if_neg fun hn => hn.2 hc]
      · rw [if_neg hc, if_pos ⟨hstart, hc⟩]
    · obtain ⟨hs, hc, hg⟩ := @other_group _ _ sources seen k i k' hkk
      rw [hother _ fun hid => hkk (hinj hid), h.groups k', hg]
      simp only [hs, hc]
  others id hid := by
    rw [hother id (hid k).symm, h.others id hid]
  limit := hlimit

theorem HoldsGroups.finish (hinj : Function.Injective fun k => (sources k).fragmentId)
    (hi : i < (sources k).bodies.length) {r' : Reassembler}
    (hk : r'.inFlight.lookup (sources k).fragmentId =
      some (groupAfter sources (seen ++ [(k, i)]) k))
    (hother : ∀ id ≠ (sources k).fragmentId, r'.inFlight.lookup id = r.inFlight.lookup id)
    (hlimit : r'.inFlightLimit = limit) : ∃ r'',
      r'.finish (FragmentSource.header hi) (groupAfter sources (seen ++ [(k, i)]) k) =
        some (.ok (if Complete sources (seen ++ [(k, i)]) k then some (sources k).bodies.flatten
          else none), r'') ∧
      HoldsGroups sources (seen ++ [(k, i)]) limit r'' := by
  have hcount : (groupAfter sources (seen ++ [(k, i)]) k).received =
      (FragmentSource.header hi).total.toNat ↔ Complete sources (seen ++ [(k, i)]) k := by
    rw [← countP_eq_iff, ← FragmentSource.toNat_total]
    rfl
  by_cases hc : Complete sources (seen ++ [(k, i)]) k
  · have hlookup : r'.inFlight.lookup (FragmentSource.header hi).fragmentId =
        some (groupAfter sources (seen ++ [(k, i)]) k) := hk
    have hcollect : Reassembler.collect (groupAfter sources (seen ++ [(k, i)]) k).slots =
        some (sources k).bodies.flatten := collect_slotsAfter hc
    rw [Reassembler.finish, if_pos (hcount.mpr hc), hlookup]
    simp only [hcollect, Option.map_some, if_pos hc]
    refine ⟨_, rfl, h.update hinj ?_ ?_ hlimit⟩
    · rw [if_pos hc]
      exact AList.lookup_erase _ _
    · intro id hne
      rw [← hother id hne]
      exact AList.lookup_erase_ne hne
  · rw [Reassembler.finish, if_neg fun hr => hc (hcount.mp hr), if_neg hc]
    refine ⟨r', rfl, h.update hinj ?_ hother hlimit⟩
    rw [if_neg hc, hk]

theorem HoldsGroups.push (hinj : Function.Injective fun k => (sources k).fragmentId)
    (hi : i < (sources k).bodies.length) (hinc : ¬ Complete sources seen k)
    (hroom : ¬ Started seen k → (incomplete sources seen).card < limit) : ∃ r',
      r.push ((sources k).fragmentAt i) =
        some (.ok (if Complete sources (seen ++ [(k, i)]) k then some (sources k).bodies.flatten
          else none), r') ∧
      HoldsGroups sources (seen ++ [(k, i)]) limit r' := by
  have hmany : ¬ maxFragments < (FragmentSource.header hi).total.toNat := by
    have := (sources k).bounded
    rw [← FragmentSource.toNat_total] at this
    exact Nat.not_lt.mpr this
  obtain ⟨r₁, hgroup, hk, hother, hlimit⟩ := h.groupOf hinc hi
  have hoffset : (FragmentSource.header hi).offset.toNat = i := FragmentSource.toNat_offset hi
  have hslot : (groupAfter sources seen k).slots[i]? =
      some (if (k, i) ∈ seen then some (sources k).bodies[i] else none) := slotsAfter_getElem? hi
  have htotal : ¬ (groupAfter sources seen k).total ≠ (FragmentSource.header hi).total :=
    not_not_intro rfl
  have hempty : r.makeRoom (FragmentSource.header hi).fragmentId = r := h.makeRoom hinc hroom
  rw [Reassembler.push, FragmentSource.decode_fragmentAt hi]
  simp only [if_neg hmany, hempty, hgroup, if_neg htotal, hoffset, hslot,
    FragmentSource.drop_fragmentAt hi]
  by_cases hseen : (k, i) ∈ seen
  · -- a duplicate has the body that is there already
    simp only [if_pos hseen, ne_eq, not_true_eq_false, if_false]
    rw [← groupAfter_of_mem hseen] at hk ⊢
    exact h.finish hinj hi hk hother hlimit
  · -- a new fragment fills its slot and is counted
    simp only [if_neg hseen]
    rw [← groupAfter_of_notMem hi hseen]
    refine h.finish hinj hi (AList.lookup_insert _) ?_ hlimit
    intro id hne
    rw [← hother id hne]
    exact AList.lookup_insert_ne hne

end

end Push

section Runs
variable {κ : Type*} [DecidableEq κ] {sources : κ → FragmentSource} {limit : ℕ}
  {arrivals : List (κ × ℕ)}

/-- Pushes one after the other; after a panic there is nothing left to push to. -/
def reassembly : Machine (Option Reassembler) Bytes (Option (Except FragmentError (Option Bytes))) :=
  fun r fragmentBytes =>
    match r.bind (·.push fragmentBytes) with
    | none => (none, none)
    | some (answer, r) => (some answer, some r)

/-- Fragments that arrive before their group is complete, and begin a group only if there is
room for it. -/
structure Orderly (sources : κ → FragmentSource) (limit : ℕ) (arrivals : List (κ × ℕ)) : Prop where
  inRange : ∀ a ∈ arrivals, a.2 < (sources a.1).bodies.length
  unfinished : ∀ j a, arrivals[j]? = some a → ¬ Complete sources (arrivals.take j) a.1
  room : ∀ j a, arrivals[j]? = some a → ¬ Started (arrivals.take j) a.1 →
    (incomplete sources (arrivals.take j)).card < limit

theorem Orderly.of_append {later : List (κ × ℕ)} (h : Orderly sources limit (arrivals ++ later)) :
    Orderly sources limit arrivals := by
  have hj : ∀ {j : ℕ} {a : κ × ℕ}, arrivals[j]? = some a →
      (arrivals ++ later)[j]? = some a ∧ (arrivals ++ later).take j = arrivals.take j := by
    intro j a ha
    have hlt := (List.getElem?_eq_some_iff.mp ha).1
    exact ⟨by rw [List.getElem?_append_left hlt, ha], List.take_append_of_le_length hlt.le⟩
  refine ⟨fun a ha => h.inRange a (List.mem_append_left _ ha), fun j a ha => ?_, fun j a ha => ?_⟩
  · rw [← (hj ha).2]
    exact h.unfinished j a (hj ha).1
  · rw [← (hj ha).2]
    exact h.room j a (hj ha).1

theorem Orderly.take (h : Orderly sources limit arrivals) (j : ℕ) :
    Orderly sources limit (arrivals.take j) := by
  rw [← List.take_append_drop j arrivals] at h
  exact h.of_append

theorem HoldsGroups.reassembly_step {r : Reassembler} (h : HoldsGroups sources arrivals limit r)
    (hinj : Function.Injective fun k => (sources k).fragmentId) {a : κ × ℕ}
    (ha : Orderly sources limit (arrivals ++ [a])) :
    (reassembly (some r) ((sources a.1).fragmentAt a.2)).1 =
        some (.ok (if Complete sources (arrivals ++ [a]) a.1 then
          some (sources a.1).bodies.flatten else none)) ∧
      ∃ r', (reassembly (some r) ((sources a.1).fragmentAt a.2)).2 = some r' ∧
        HoldsGroups sources (arrivals ++ [a]) limit r' := by
  have hlast : (arrivals ++ [a])[arrivals.length]? = some a := by simp
  have htake : (arrivals ++ [a]).take arrivals.length = arrivals := by simp
  have hinc := ha.unfinished _ a hlast
  have hroom := ha.room _ a hlast
  rw [htake] at hinc hroom
  obtain ⟨r', hpush, hr'⟩ := h.push hinj (ha.inRange a (by simp)) hinc hroom
  simp only [reassembly, Option.bind_some, hpush]
  exact ⟨trivial, r', rfl, hr'⟩

theorem Orderly.holdsGroups (hinj : Function.Injective fun k => (sources k).fragmentId)
    (h : Orderly sources (max limit 1) arrivals) : ∃ r,
      reassembly.final (some (.new limit))
        (arrivals.map fun a => (sources a.1).fragmentAt a.2) = some r ∧
      HoldsGroups sources arrivals (max limit 1) r := by
  induction arrivals using List.reverseRecOn with
  | nil => exact ⟨.new limit, rfl, .new sources limit⟩
  | append_singleton arrivals a ih =>
    obtain ⟨r, hfinal, hr⟩ := ih h.of_append
    obtain ⟨-, r', hstep, hr'⟩ := hr.reassembly_step hinj h
    refine ⟨r', ?_, hr'⟩
    rw [List.map_append, Machine.final_append, hfinal]
    exact hstep

/-- Along an orderly run a payload comes out with the last fragment of its group, and nothing
comes out otherwise. -/
theorem Orderly.answer (hinj : Function.Injective fun k => (sources k).fragmentId)
    (h : Orderly sources (max limit 1) arrivals) {j : ℕ} {a : κ × ℕ} (ha : arrivals[j]? = some a) :
    (reassembly.trace (some (.new limit))
        (arrivals.map fun a => (sources a.1).fragmentAt a.2))[j]? =
      some ((sources a.1).fragmentAt a.2,
        some (.ok (if Complete sources (arrivals.take (j + 1)) a.1 then
          some (sources a.1).bodies.flatten else none))) := by
  have hsucc : arrivals.take (j + 1) = arrivals.take j ++ [a] := by
    rw [List.take_add_one, ha, Option.toList_some]
  obtain ⟨r, hfinal, hr⟩ := (h.take j).holdsGroups hinj
  have hstep := (hr.reassembly_step hinj (hsucc ▸ h.take (j + 1))).1
  have hinput : (arrivals.map fun a => (sources a.1).fragmentAt a.2)[j]? =
      some ((sources a.1).fragmentAt a.2) := by
    rw [List.getElem?_map, ha, Option.map_some]
  rw [Machine.trace_getElem? _ _ hinput, ← List.map_take, hfinal, hstep, hsucc]

end Runs

end Desmos.Proto
