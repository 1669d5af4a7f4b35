import Desmos.Proto.Fragment.Reassembly

/-! # The reassembler under arbitrary fragments

A push makes room, finds or starts a group, fills a slot and takes a complete group out, and each of
these stages keeps the map, the queue and the counters of the groups in step.
-/
namespace Desmos.Proto
open Library

/-- A group that waits for a fragment, with a slot for each one that its header announced. -/
structure PartialGroup.WellFormed (g : PartialGroup) : Prop where
  total_pos : 1 ≤ g.total.toNat
  total_le : g.total.toNat ≤ 64
  slots : g.slots.length = g.total.toNat
  received : g.received = g.slots.countP Option.isSome
  waiting : g.received < g.total.toNat

namespace Reassembler

/-- The queue lists the groups in flight, and they are not too many. -/
structure Queued (r : Reassembler) : Prop where
  order : r.order.Perm r.inFlight.keys
  limited : r.inFlight.entries.length ≤ r.inFlightLimit
  limit_pos : 1 ≤ r.inFlightLimit

structure WellFormed (r : Reassembler) : Prop extends Queued r where
  groups : ∀ id g, r.inFlight.lookup id = some g → g.WellFormed

theorem WellFormed.new (limit : ℕ) : (new limit).WellFormed where
  order := List.Perm.refl []
  limited := Nat.zero_le _
  limit_pos := le_max_right _ _
  groups id g h := by
    cases h

theorem WellFormed.clear {r : Reassembler} (h : r.WellFormed) : r.clear.WellFormed where
  order := List.Perm.refl []
  limited := Nat.zero_le _
  limit_pos := h.limit_pos
  groups id g hg := by
    cases hg

section Stages
variable {r : Reassembler} {id : UInt16} {g : PartialGroup} {hdr : FragmentHeader}

theorem keys_length (r : Reassembler) : r.inFlight.keys.length = r.inFlight.entries.length :=
  List.length_map _

theorem Queued.order_nodup (h : r.Queued) : r.order.Nodup :=
  h.order.nodup_iff.mpr r.inFlight.keys_nodup

theorem Queued.mem_order (h : r.Queued) : id ∈ r.order ↔ id ∈ r.inFlight := by
  rw [h.order.mem_iff, AList.mem_keys]

theorem mem_of_lookup (h : r.inFlight.lookup id = some g) : id ∈ r.inFlight := by
  rw [← AList.lookup_isSome, h, Option.isSome_some]

theorem makeRoom_of_mem (hin : id ∈ r.inFlight) : r.makeRoom id = r := by
  rw [makeRoom, if_neg fun h => h.1 hin]

theorem makeRoom_of_room (hroom : r.inFlight.entries.length < r.inFlightLimit) :
    r.makeRoom id = r := by
  rw [makeRoom, if_neg fun h => absurd h.2 (Nat.not_le.mpr hroom)]

theorem Queued.makeRoom_of_full (h : r.Queued) (hnew : id ∉ r.inFlight)
    (hfull : r.inFlightLimit ≤ r.inFlight.entries.length) : ∃ oldest order,
      r.order = oldest :: order ∧
      r.makeRoom id = { r with order, inFlight := r.inFlight.erase oldest } := by
  cases horder : r.order with
  | nil =>
    have hlen := h.order.length_eq
    rw [horder, keys_length, List.length_nil] at hlen
    have := h.limit_pos
    omega
  | cons oldest order =>
    refine ⟨oldest, order, rfl, ?_⟩
    rw [makeRoom, if_pos ⟨hnew, hfull⟩, horder]

theorem Queued.erase (h : r.Queued) (id : UInt16) :
    Queued { r with inFlight := r.inFlight.erase id, order := r.order.erase id } where
  order := by
    rw [AList.keys_erase]
    exact h.order.erase id
  limited := by
    have hle : (r.inFlight.erase id).keys.length ≤ r.inFlight.keys.length := by
      rw [AList.keys_erase]
      exact List.length_erase_le
    rw [← keys_length]
    exact hle.trans (r.keys_length ▸ h.limited)
  limit_pos := h.limit_pos

theorem Queued.wellFormed_erase (h : r.Queued) (id : UInt16)
    (hgroups : ∀ id' ≠ id, ∀ g, r.inFlight.lookup id' = some g → g.WellFormed) :
    WellFormed { r with inFlight := r.inFlight.erase id, order := r.order.erase id } where
  toQueued := h.erase id
  groups id' g hg := by
    by_cases hid : id' = id
    · rw [hid, AList.lookup_erase] at hg
      cases hg
    · rw [AList.lookup_erase_ne hid] at hg
      exact hgroups id' hid g hg

theorem Queued.insert (h : r.Queued) (hin : id ∈ r.inFlight) (g : PartialGroup) :
    Queued { r with inFlight := r.inFlight.insert id g } := by
  have hperm : (r.inFlight.insert id g).keys.Perm r.inFlight.keys := by
    rw [AList.keys_insert]
    exact (List.perm_cons_erase (AList.mem_keys.mp hin)).symm
  constructor
  case order => exact h.order.trans hperm.symm
  case limited =>
    rw [← keys_length]
    exact hperm.length_eq.trans_le (r.keys_length ▸ h.limited)
  case limit_pos => exact h.limit_pos

/-- Room has been made for a group that is not in flight. -/
structure MakesRoom (r : Reassembler) (id : UInt16) (r' : Reassembler) : Prop where
  wellFormed : r'.WellFormed
  limit : r'.inFlightLimit = r.inFlightLimit
  absent : id ∉ r'.inFlight
  room : r'.inFlight.entries.length < r'.inFlightLimit
  order : r'.order.Sublist r.order

theorem WellFormed.makeRoom (h : r.WellFormed) (hnew : id ∉ r.inFlight) :
    MakesRoom r id (r.makeRoom id) := by
  by_cases hfull : r.inFlightLimit ≤ r.inFlight.entries.length
  · obtain ⟨oldest, order, horder, hroom⟩ := h.makeRoom_of_full hnew hfull
    have hwf := h.toQueued.wellFormed_erase oldest fun id' _ => h.groups id'
    have htail : r.order.erase oldest = order := by rw [horder, List.erase_cons_head]
    rw [htail] at hwf
    have hless : (r.inFlight.erase oldest).entries.length + 1 = r.inFlight.entries.length := by
      have hlen := hwf.order.length_eq
      have hold := h.order.length_eq
      rw [horder, keys_length, List.length_cons] at hold
      rw [keys_length] at hlen
      exact (congrArg (· + 1) hlen.symm).trans hold
    have hlimited := h.limited
    rw [hroom]
    refine ⟨hwf, rfl, fun hin => hnew (AList.mem_erase.mp hin).2, ?_, ?_⟩
    · change (r.inFlight.erase oldest).entries.length < r.inFlightLimit
      omega
    · rw [horder]
      exact List.sublist_cons_self oldest order
  · rw [makeRoom_of_room (Nat.lt_of_not_le hfull)]
    exact ⟨h, rfl, hnew, Nat.lt_of_not_le hfull, List.Sublist.refl _⟩

def emptyGroup (hdr : FragmentHeader) : PartialGroup :=
  { total := hdr.total, slots := List.replicate hdr.total.toNat none, received := 0 }

theorem emptyGroup_wellFormed (hmany : hdr.total.toNat ≤ 64) : (emptyGroup hdr).WellFormed where
  total_pos := by
    have := UInt8.lt_iff_toNat_lt.mp hdr.valid
    exact Nat.succ_le_of_lt (Nat.zero_lt_of_lt this)
  total_le := hmany
  slots := List.length_replicate
  received := by
    rw [emptyGroup, List.countP_replicate]
    rfl
  waiting := Nat.zero_lt_of_lt (UInt8.lt_iff_toNat_lt.mp hdr.valid)

def start (r : Reassembler) (hdr : FragmentHeader) : Reassembler :=
  { r with order := r.order ++ [hdr.fragmentId]
           inFlight := r.inFlight.insert hdr.fragmentId (emptyGroup hdr) }

theorem groupOf_of_lookup (hg : r.inFlight.lookup hdr.fragmentId = some g) :
    r.groupOf hdr = (g, r) := by
  rw [groupOf, hg]

theorem groupOf_of_absent (hnew : hdr.fragmentId ∉ r.inFlight) :
    r.groupOf hdr = (emptyGroup hdr, r.start hdr) := by
  rw [groupOf, AList.lookup_eq_none.mpr hnew]
  rfl

theorem WellFormed.start (h : r.WellFormed) (hnew : hdr.fragmentId ∉ r.inFlight)
    (hroom : r.inFlight.entries.length < r.inFlightLimit) (hmany : hdr.total.toNat ≤ 64) :
    (r.start hdr).WellFormed := by
  have hkeys : (r.start hdr).inFlight.keys = hdr.fragmentId :: r.inFlight.keys := by
    rw [Reassembler.start, AList.keys_insert, List.erase_of_not_mem]
    exact fun hin => hnew (AList.mem_keys.mpr hin)
  refine ⟨⟨?order, ?limited, h.limit_pos⟩, ?groups⟩
  case order =>
    rw [hkeys]
    exact (List.perm_append_singleton _ _).trans (h.order.cons _)
  case limited =>
    rw [← keys_length, hkeys, List.length_cons, keys_length]
    exact hroom
  case groups =>
    intro id g hg
    by_cases hid : id = hdr.fragmentId
    · rw [hid, Reassembler.start, AList.lookup_insert] at hg
      cases hg
      exact emptyGroup_wellFormed hmany
    · rw [Reassembler.start, AList.lookup_insert_ne hid] at hg
      exact h.groups id g hg

theorem collect_ne_none {slots : List (Option Bytes)} (h : ∀ slot ∈ slots, slot.isSome) :
    ∃ out, collect slots = some out := by
  induction slots with
  | nil => exact ⟨[], rfl⟩
  | cons slot slots ih =>
    rw [List.forall_mem_cons] at h
    obtain ⟨body, rfl⟩ := Option.isSome_iff_exists.mp h.1
    obtain ⟨out, hout⟩ := ih h.2
    exact ⟨body ++ out, by rw [collect, hout, Option.map_some]⟩

/-- What happens to the other groups and to the queue when a slot of a group is filled. -/
structure Fills (r : Reassembler) (id : UInt16) (r' : Reassembler) : Prop where
  wellFormed : r'.WellFormed
  limit : r'.inFlightLimit = r.inFlightLimit
  order : r'.order.Sublist r.order
  others : ∀ id' ≠ id, r'.inFlight.lookup id' = r.inFlight.lookup id'

/-- A group whose empty slot is filled goes on waiting, or it is complete and leaves. -/
theorem WellFormed.fill (h : r.WellFormed) (hg : r.inFlight.lookup hdr.fragmentId = some g)
    (htotal : g.total = hdr.total) (hslot : g.slots[hdr.offset.toNat]? = some none) (body : Bytes) :
    let g' := { g with slots := g.slots.set hdr.offset.toNat (some body)
                       received := g.received + 1 }
    ∃ out r', finish { r with inFlight := r.inFlight.insert hdr.fragmentId g' } hdr g' =
        some (.ok out, r') ∧ Fills r hdr.fragmentId r' := by
  intro g'
  have hwf := h.groups _ _ hg
  have hin := mem_of_lookup hg
  have hqueued := h.toQueued.insert hin g'
  have hothers : ∀ id ≠ hdr.fragmentId,
      (r.inFlight.insert hdr.fragmentId g').lookup id = r.inFlight.lookup id :=
    fun id hid => AList.lookup_insert_ne hid
  obtain ⟨hlt, hempty⟩ := List.getElem?_eq_some_iff.mp hslot
  have hcount : g'.received = g'.slots.countP Option.isSome := by
    rw [List.countP_set hlt, hempty]
    exact congrArg (· + 1) hwf.received
  have hlength : g'.slots.length = g.total.toNat := (List.length_set).trans hwf.slots
  by_cases hdone : g'.received = hdr.total.toNat
  · have hfull : ∀ slot ∈ g'.slots, slot.isSome := by
      rw [← List.countP_eq_length, ← hcount, hdone, hlength, htotal]
    obtain ⟨out, hout⟩ := collect_ne_none hfull
    refine ⟨some out, _, ?_, hqueued.wellFormed_erase hdr.fragmentId ?_, rfl, ?_, ?_⟩
    · rw [finish, if_pos hdone]
      simp [AList.lookup_insert, hout]
    · intro id hid g₁ hg₁
      rw [hothers id hid] at hg₁
      exact h.groups id g₁ hg₁
    · exact List.erase_sublist
    · intro id hid
      rw [AList.lookup_erase_ne hid, hothers id hid]
  · refine ⟨none, _, by rw [finish, if_neg hdone], ⟨hqueued, ?_⟩, rfl, List.Sublist.refl _, hothers⟩
    intro id g₁ hg₁
    by_cases hid : id = hdr.fragmentId
    · rw [hid, AList.lookup_insert] at hg₁
      cases hg₁
      have hless : g'.received < g.total.toNat := by
        rw [← htotal] at hdone
        exact lt_of_le_of_ne (Nat.succ_le_of_lt hwf.waiting) hdone
      exact ⟨hwf.total_pos, hwf.total_le, hlength, hcount, hless⟩
    · rw [hothers id hid] at hg₁
      exact h.groups id g₁ hg₁

end Stages

section Push
variable {r : Reassembler} {hdr : FragmentHeader} {g : PartialGroup} {fragmentBytes : Bytes}

/-- The fragment announces another body for a slot that is filled. -/
def Conflicts (r : Reassembler) (hdr : FragmentHeader) (body : Bytes) : Prop :=
  ∃ g existing, r.inFlight.lookup hdr.fragmentId = some g ∧ g.total = hdr.total ∧
    g.slots[hdr.offset.toNat]? = some (some existing) ∧ existing ≠ body

/-- What a push with an acceptable header can do. -/
structure PushStep (r : Reassembler) (hdr : FragmentHeader) (body : Bytes)
    (answer : Except FragmentError (Option Bytes)) (r' : Reassembler) : Prop where
  wellFormed : r'.WellFormed
  limit : r'.inFlightLimit = r.inFlightLimit
  order : ∃ fresh : Option UInt16, (∀ id ∈ fresh, id ∉ r.inFlight) ∧
    r'.order.Sublist (r.order ++ fresh.toList)
  others : ∀ id ≠ hdr.fragmentId,
    r'.inFlight.lookup id = (r.makeRoom hdr.fragmentId).inFlight.lookup id
  error : ∀ e, answer = .error e → r' = r
  inconsistent : answer = .error .inconsistent ↔ r.Conflicts hdr body

theorem PushStep.unchanged (h : r.WellFormed) (hin : hdr.fragmentId ∈ r.inFlight) {body : Bytes}
    {answer : Except FragmentError (Option Bytes)}
    (hanswer : answer = .error .inconsistent ↔ r.Conflicts hdr body) :
    PushStep r hdr body answer r where
  wellFormed := h
  limit := rfl
  order := ⟨none, by simp, by simp⟩
  others _ _ := by rw [makeRoom_of_mem hin]
  error _ _ := rfl
  inconsistent := hanswer

/-- The part of `push` that has a group. -/
def settle (r : Reassembler) (hdr : FragmentHeader) (body : Bytes) (group : PartialGroup) :
    Option (Except FragmentError (Option Bytes) × Reassembler) :=
  if group.total ≠ hdr.total then some (.error .mismatchedTotal, r)
  else
    match group.slots[hdr.offset.toNat]? with
    | none => none
    | some (some existing) =>
      if existing ≠ body then some (.error .inconsistent, r) else r.finish hdr group
    | some none =>
      let group := { group with slots := group.slots.set hdr.offset.toNat (some body)
                                received := group.received + 1 }
      finish { r with inFlight := r.inFlight.insert hdr.fragmentId group } hdr group

theorem push_eq_settle (hdec : FragmentHeader.decode fragmentBytes = .ok hdr)
    (hmany : hdr.total.toNat ≤ 64) {r₁ : Reassembler}
    (hgroup : (r.makeRoom hdr.fragmentId).groupOf hdr = (g, r₁)) :
    r.push fragmentBytes = r₁.settle hdr (fragmentBytes.drop fragmentHeaderLen) g := by
  rw [push, hdec]
  simp only [if_neg (Nat.not_lt.mpr hmany), maxFragments, hgroup]
  rfl

theorem WellFormed.settle_known (h : r.WellFormed) (body : Bytes)
    (hg : r.inFlight.lookup hdr.fragmentId = some g) :
    ∃ answer r', r.settle hdr body g = some (answer, r') ∧ PushStep r hdr body answer r' := by
  have hin := mem_of_lookup hg
  have hwf := h.groups _ _ hg
  have hoffset := UInt8.lt_iff_toNat_lt.mp hdr.valid
  by_cases htotal : g.total = hdr.total
  · have hlt : hdr.offset.toNat < g.slots.length := by rwa [hwf.slots, htotal]
    have hslot : g.slots[hdr.offset.toNat]? = some g.slots[hdr.offset.toNat] :=
      List.getElem?_eq_getElem hlt
    have hconflict : r.Conflicts hdr body ↔
        ∃ existing, g.slots[hdr.offset.toNat] = some existing ∧ existing ≠ body := by
      simp [Conflicts, hg, htotal, hlt]
    cases hold : g.slots[hdr.offset.toNat] with
    | none =>
      rw [hold] at hslot hconflict
      obtain ⟨out, r', hfinish, hfills⟩ := h.fill hg htotal hslot body
      refine ⟨.ok out, r', ?_, hfills.wellFormed, hfills.limit, ⟨none, ?_⟩, ?_, ?_, ?_⟩
      · rw [settle, if_neg (not_not_intro htotal), hslot]
        exact hfinish
      · simpa using hfills.order
      · rw [makeRoom_of_mem hin]
        exact hfills.others
      · rintro e ⟨⟩
      · simp [hconflict]
    | some existing =>
      rw [hold] at hslot hconflict
      by_cases hsame : existing = body
      · refine ⟨.ok none, r, ?_, PushStep.unchanged h hin ?_⟩
        · have hwaiting : g.received ≠ hdr.total.toNat := by
            rw [← htotal]
            exact hwf.waiting.ne
          rw [settle, if_neg (not_not_intro htotal), hslot]
          simp only [hsame, ne_eq, not_true_eq_false, if_false]
          rw [finish, if_neg hwaiting]
        · simp [hconflict, hsame]
      · refine ⟨.error .inconsistent, r, ?_, PushStep.unchanged h hin ?_⟩
        · rw [settle, if_neg (not_not_intro htotal), hslot]
          exact if_pos hsame
        · simp [hconflict, hsame]
  · refine ⟨.error .mismatchedTotal, r, ?_, PushStep.unchanged h hin ?_⟩
    · rw [settle, if_pos htotal]
    · simp [Conflicts, hg, htotal]

theorem WellFormed.settle_new (h : r.WellFormed) (body : Bytes) (hmany : hdr.total.toNat ≤ 64)
    (hnew : hdr.fragmentId ∉ r.inFlight) :
    ∃ answer r', ((r.makeRoom hdr.fragmentId).start hdr).settle hdr body (emptyGroup hdr) =
      some (answer, r') ∧ PushStep r hdr body answer r' := by
  have hroom := h.makeRoom hnew
  have hstart := hroom.wellFormed.start hroom.absent hroom.room hmany
  have hg : ((r.makeRoom hdr.fragmentId).start hdr).inFlight.lookup hdr.fragmentId =
      some (emptyGroup hdr) := AList.lookup_insert _
  have hslot : (emptyGroup hdr).slots[hdr.offset.toNat]? = some none := by
    rw [emptyGroup, List.getElem?_replicate, if_pos (UInt8.lt_iff_toNat_lt.mp hdr.valid)]
  obtain ⟨out, r', hfinish, hfills⟩ := hstart.fill hg rfl hslot body
  refine ⟨.ok out, r', ?_, hfills.wellFormed, hfills.limit.trans hroom.limit,
    ⟨some hdr.fragmentId, by simpa using hnew, ?_⟩, ?_, ?_, ?_⟩
  · have htotal : (emptyGroup hdr).total = hdr.total := rfl
    rw [settle, if_neg (not_not_intro htotal), hslot]
    exact hfinish
  · exact hfills.order.trans (hroom.order.append_right _)
  · intro id hid
    rw [hfills.others id hid]
    exact AList.lookup_insert_ne hid
  · rintro e ⟨⟩
  · have hnone : ¬ r.Conflicts hdr body := by
      rintro ⟨g, existing, hg, -⟩
      rw [AList.lookup_eq_none.mpr hnew] at hg
      cases hg
    simp [hnone]

theorem WellFormed.push (h : r.WellFormed)
    (hdec : FragmentHeader.decode fragmentBytes = .ok hdr) (hmany : hdr.total.toNat ≤ 64) :
    ∃ answer r', r.push fragmentBytes = some (answer, r') ∧
      PushStep r hdr (fragmentBytes.drop fragmentHeaderLen) answer r' := by
  cases hg : r.inFlight.lookup hdr.fragmentId with
  | some g =>
    have hin := mem_of_lookup hg
    rw [push_eq_settle hdec hmany ((congrArg (groupOf · hdr) (makeRoom_of_mem hin)).trans
      (groupOf_of_lookup hg))]
    exact h.settle_known _ hg
  | none =>
    have hnew := AList.lookup_eq_none.mp hg
    rw [push_eq_settle hdec hmany (groupOf_of_absent (h.makeRoom hnew).absent)]
    exact h.settle_new _ hmany hnew

theorem push_refused (hbad : ∀ hdr, FragmentHeader.decode fragmentBytes = .ok hdr →
    64 < hdr.total.toNat) :
    ∃ e, r.push fragmentBytes = some (.error e, r) ∧ e ≠ .inconsistent := by
  cases hdec : FragmentHeader.decode fragmentBytes with
  | error e =>
    refine ⟨e, by rw [push, hdec], ?_⟩
    rintro rfl
    simp only [FragmentHeader.decode, FragmentHeader.new] at hdec
    split at hdec
    · cases hdec
    · split at hdec
      · cases hdec
      · cases hdec
  | ok hdr =>
    refine ⟨.tooManyFragments, ?_, by simp⟩
    rw [push, hdec]
    exact if_pos (hbad hdr hdec)

theorem WellFormed.push_cases (h : r.WellFormed) (fragmentBytes : Bytes) :
    (∃ hdr answer r', FragmentHeader.decode fragmentBytes = .ok hdr ∧
      r.push fragmentBytes = some (answer, r') ∧
      PushStep r hdr (fragmentBytes.drop fragmentHeaderLen) answer r') ∨
    ∃ e, r.push fragmentBytes = some (.error e, r) ∧ e ≠ .inconsistent := by
  by_cases hgood : ∃ hdr, FragmentHeader.decode fragmentBytes = .ok hdr ∧ hdr.total.toNat ≤ 64
  · obtain ⟨hdr, hdec, hmany⟩ := hgood
    obtain ⟨answer, r', hpush, hstep⟩ := h.push hdec hmany
    exact Or.inl ⟨hdr, answer, r', hdec, hpush, hstep⟩
  · push Not at hgood
    exact Or.inr (push_refused hgood)

end Push

end Reassembler

inductive ReassemblerCall where
  | push (fragmentBytes : Bytes)
  | clear

open Reassembler

/-- Calls one after the other; `clear` has nothing to answer. -/
def reassembling :
    Machine (Option Reassembler) ReassemblerCall (Option (Except FragmentError (Option Bytes)))
  | r, .push fragmentBytes => reassembly r fragmentBytes
  | r, .clear => (some (.ok none), r.map clear)

/-- The call with number `n` of the run started the group that is in flight under the id. -/
def StartedAt (limit : ℕ) (run : List ReassemblerCall) (id : UInt16) (n : ℕ) : Prop :=
  reassembling.BeganAt (some (.new limit)) (fun s => ∃ r, s = some r ∧ id ∈ r.inFlight) run n

/-- The ids are listed in the order in which their groups were started. -/
def InStartOrder (limit : ℕ) (run : List ReassemblerCall) (order : List UInt16) : Prop :=
  ∃ start : UInt16 → ℕ, (∀ id ∈ order, StartedAt limit run id (start id)) ∧
    order.Pairwise fun a b => start a < start b

variable {fragmentBytes : Bytes} {r : Reassembler}

section Runs
variable {limit : ℕ} {run : List ReassemblerCall} {r r' : Reassembler}

structure CallStep (r r' : Reassembler) : Prop where
  wellFormed : r'.WellFormed
  limit : r'.inFlightLimit = r.inFlightLimit
  order : ∃ fresh : Option UInt16, (∀ id ∈ fresh, id ∉ r.inFlight) ∧
    r'.order.Sublist (r.order ++ fresh.toList)

theorem reassembling_push {answer : Except FragmentError (Option Bytes)}
    (h : r.push fragmentBytes = some (answer, r')) :
    reassembling (some r) (.push fragmentBytes) = (some answer, some r') := by
  rw [reassembling, reassembly, Option.bind_some, h]

theorem reassembling_step (h : r.WellFormed) (call : ReassemblerCall) :
    ∃ r', (reassembling (some r) call).2 = some r' ∧ CallStep r r' := by
  cases call with
  | clear => exact ⟨r.clear, rfl, h.clear, rfl, none, by simp, List.nil_sublist _⟩
  | push fragmentBytes =>
    rcases h.push_cases fragmentBytes with ⟨hdr, answer, r', -, hpush, hstep⟩ | ⟨e, hpush, -⟩
    · rw [reassembling_push hpush]
      exact ⟨r', rfl, hstep.wellFormed, hstep.limit, hstep.order⟩
    · rw [reassembling_push hpush]
      exact ⟨r, rfl, h, rfl, none, by simp, by simp⟩

theorem InStartOrder.step {call : ReassemblerCall}
    (hfinal : reassembling.final (some (.new limit)) run = some r)
    (hnext : reassembling.final (some (.new limit)) (run ++ [call]) = some r')
    (hr : r.WellFormed) (hstep : CallStep r r') (h : InStartOrder limit run r.order) :
    InStartOrder limit (run ++ [call]) r'.order := by
  obtain ⟨start, hstart, hsorted⟩ := h
  obtain ⟨fresh, hfresh, hsub⟩ := hstep.order
  have hin : ∀ id ∈ r'.order, ∃ r₁, reassembling.final (some (.new limit)) (run ++ [call]) =
      some r₁ ∧ id ∈ r₁.inFlight :=
    fun id hid => ⟨r', hnext, hstep.wellFormed.mem_order.mp hid⟩
  let later := fun id => if id ∈ r.order then start id else run.length
  have hkept : ∀ id ∈ r.order, later id = start id := fun id hid => if_pos hid
  have hlast : ∀ id ∉ r.order, later id = run.length := fun id hid => if_neg hid
  refine ⟨later, fun id hid => ?_, ?_⟩
  · by_cases hold : id ∈ r.order
    · rw [hkept id hold]
      exact (hstart id hold).concat (hin id hid)
    · rw [hlast id hold]
      refine Machine.BeganAt.start ?_ (hin id hid)
      rintro ⟨r₁, hr₁, hmem⟩
      rw [hfinal] at hr₁
      cases hr₁
      exact hold (hr.mem_order.mpr hmem)
  · refine List.Pairwise.sublist hsub (List.pairwise_append.mpr ⟨?_, ?_, ?_⟩)
    · refine hsorted.imp_of_mem fun ha hb hab => ?_
      rw [hkept _ ha, hkept _ hb]
      exact hab
    · cases fresh with
      | none => exact List.Pairwise.nil
      | some id => exact List.pairwise_singleton _ _
    · intro a ha b hb
      have hb' : b ∉ r.order := fun hmem =>
        hfresh b (Option.mem_toList.mp hb) (hr.mem_order.mp hmem)
      rw [hkept a ha, hlast b hb']
      exact (hstart a ha).lt_length

structure Reached (limit : ℕ) (run : List ReassemblerCall) (r : Reassembler) : Prop where
  final : reassembling.final (some (.new limit)) run = some r
  wellFormed : r.WellFormed
  capacity : r.inFlightLimit = max limit 1
  order : InStartOrder limit run r.order

theorem exists_reached (limit : ℕ) (run : List ReassemblerCall) : ∃ r, Reached limit run r := by
  induction run using List.reverseRecOn with
  | nil => exact ⟨.new limit, rfl, WellFormed.new limit, rfl, fun _ => 0, by simp [new], .nil⟩
  | append_singleton run call ih =>
    obtain ⟨r, hr⟩ := ih
    obtain ⟨r', hnext, hstep⟩ := reassembling_step hr.wellFormed call
    have hfinal : reassembling.final (some (.new limit)) (run ++ [call]) = some r' := by
      rw [Machine.final_concat, hr.final, hnext]
    exact ⟨r', hfinal, hstep.wellFormed, hstep.limit.trans hr.capacity,
      hr.order.step hr.final hfinal hr.wellFormed hstep⟩

theorem Reached.evicts_first (h : Reached limit run r)
    {hdr : FragmentHeader} (hdec : FragmentHeader.decode fragmentBytes = .ok hdr)
    (hmany : hdr.total.toNat ≤ 64) (hnew : hdr.fragmentId ∉ r.inFlight)
    (hfull : max limit 1 ≤ r.inFlight.entries.length) :
    ∃ oldest answer r', oldest ∈ r.inFlight ∧
      (∀ id ∈ r.inFlight, id ≠ oldest → ∃ m n, StartedAt limit run oldest m ∧
        StartedAt limit run id n ∧ m < n) ∧
      r.push fragmentBytes = some (answer, r') ∧ oldest ∉ r'.inFlight ∧
      ∀ id, id ≠ oldest → id ≠ hdr.fragmentId → r'.inFlight.lookup id = r.inFlight.lookup id := by
  have hwf := h.wellFormed
  obtain ⟨oldest, rest, horder, hroom⟩ := hwf.makeRoom_of_full hnew (h.capacity ▸ hfull)
  obtain ⟨answer, r', hpush, hstep⟩ := hwf.push hdec hmany
  obtain ⟨start, hstart, hsorted⟩ := h.order
  have hhead : oldest ∈ r.order := horder ▸ List.mem_cons_self
  have hne : oldest ≠ hdr.fragmentId := fun heq => hnew (heq ▸ hwf.mem_order.mp hhead)
  refine ⟨oldest, answer, r', hwf.mem_order.mp hhead, fun id hid hother => ?_, hpush, ?_, ?_⟩
  · have hmem := hwf.mem_order.mpr hid
    refine ⟨start oldest, start id, hstart oldest hhead, hstart id hmem, ?_⟩
    rw [horder] at hmem hsorted
    exact List.rel_of_pairwise_cons hsorted (List.mem_of_ne_of_mem hother hmem)
  · rw [← AList.lookup_eq_none, hstep.others oldest hne, hroom]
    exact AList.lookup_erase _ _
  · intro id hid hid'
    rw [hstep.others id hid', hroom]
    exact AList.lookup_erase_ne hid

end Runs

/-- After every run of pushes and clears: the queue lists the ids in flight once each, in the order
of their groups; there are no more groups than the limit; each has its slots and its count right and
waits for a fragment; no push panics; and room is taken from the group that was started first. -/
theorem reassembler_invariant (limit : ℕ) (run : List ReassemblerCall) :
    ∃ r, reassembling.final (some (.new limit)) run = some r ∧
      r.order.Nodup ∧ r.order.Perm r.inFlight.keys ∧ InStartOrder limit run r.order ∧
      r.inFlight.entries.length ≤ max limit 1 ∧
      (∀ id g, r.inFlight.lookup id = some g → g.WellFormed) ∧
      (∀ fragmentBytes, r.push fragmentBytes ≠ none) ∧
      ∀ fragmentBytes hdr, FragmentHeader.decode fragmentBytes = .ok hdr → hdr.total.toNat ≤ 64 →
        hdr.fragmentId ∉ r.inFlight → max limit 1 ≤ r.inFlight.entries.length →
        ∃ oldest answer r', oldest ∈ r.inFlight ∧
          (∀ id ∈ r.inFlight, id ≠ oldest → ∃ m n, StartedAt limit run oldest m ∧
            StartedAt limit run id n ∧ m < n) ∧
          r.push fragmentBytes = some (answer, r') ∧ oldest ∉ r'.inFlight ∧
          ∀ id, id ≠ oldest → id ≠ hdr.fragmentId →
            r'.inFlight.lookup id = r.inFlight.lookup id := by
  obtain ⟨r, h⟩ := exists_reached limit run
  refine ⟨r, h.final, h.wellFormed.order_nodup, h.wellFormed.order, h.order,
    h.capacity ▸ h.wellFormed.limited, h.wellFormed.groups, fun fragmentBytes hpanic => ?_,
    fun fragmentBytes hdr hdec hmany => h.evicts_first hdec hmany⟩
  obtain ⟨r', hnext, -⟩ := reassembling_step h.wellFormed (.push fragmentBytes)
  rw [reassembling, reassembly, Option.bind_some, hpanic] at hnext
  cases hnext

/-- The errors in front of the group's own checks and `MismatchedTotal` change nothing, and
`Inconsistent` takes out the fragment's group alone. -/
def ErrorsAreClean (r : Reassembler) (fragmentBytes : Bytes) : Prop :=
  ∀ e r', r.push fragmentBytes = some (.error e, r') →
    (e = .shortHeader ∨ e = .invalidHeader ∨ e = .tooManyFragments ∨ e = .mismatchedTotal →
      r' = r) ∧
    (e = .inconsistent → ∀ hdr, FragmentHeader.decode fragmentBytes = .ok hdr →
      hdr.fragmentId ∉ r'.inFlight ∧
      ∀ id ≠ hdr.fragmentId, r'.inFlight.lookup id = r.inFlight.lookup id)

theorem Reassembler.WellFormed.push_error (h : r.WellFormed) {e : FragmentError} {r' : Reassembler}
    (hpush : r.push fragmentBytes = some (.error e, r')) :
    r' = r ∧ (e = .inconsistent → ∃ hdr, FragmentHeader.decode fragmentBytes = .ok hdr ∧
      r.Conflicts hdr (fragmentBytes.drop fragmentHeaderLen)) := by
  rcases h.push_cases fragmentBytes with ⟨hdr, answer, r₁, hdec, hpush₁, hstep⟩ | ⟨e₁, hpush₁, hne⟩
  · rw [hpush] at hpush₁
    cases hpush₁
    refine ⟨hstep.error e rfl, ?_⟩
    rintro rfl
    exact ⟨hdr, hdec, hstep.inconsistent.mp rfl⟩
  · rw [hpush] at hpush₁
    cases hpush₁
    exact ⟨rfl, fun he => absurd he hne⟩

theorem Reassembler.WellFormed.push_conflict (h : r.WellFormed) {hdr : FragmentHeader}
    (hdec : FragmentHeader.decode fragmentBytes = .ok hdr)
    (hconflict : r.Conflicts hdr (fragmentBytes.drop fragmentHeaderLen)) :
    r.push fragmentBytes = some (.error .inconsistent, r) := by
  obtain ⟨g, existing, hg, htotal, -⟩ := id hconflict
  have hmany := (h.groups _ g hg).total_le
  rw [htotal] at hmany
  obtain ⟨answer, r', hpush, hstep⟩ := h.push hdec hmany
  have hanswer := hstep.inconsistent.mpr hconflict
  rw [hpush, hstep.error _ hanswer, hanswer]

/-- After every run and for every fragment, no error changes the reassembler at all. The errors
are as they should be exactly when the fragment has no other body for a slot of its group that is
filled. -/
theorem reassembler_errors_clean_iff (limit : ℕ) (run : List ReassemblerCall) :
    ∃ r, reassembling.final (some (.new limit)) run = some r ∧ ∀ fragmentBytes,
      (∀ e r', r.push fragmentBytes = some (.error e, r') → r' = r) ∧
      (ErrorsAreClean r fragmentBytes ↔
        ∀ hdr, FragmentHeader.decode fragmentBytes = .ok hdr →
          ¬ r.Conflicts hdr (fragmentBytes.drop fragmentHeaderLen)) := by
  obtain ⟨r, h⟩ := exists_reached limit run
  refine ⟨r, h.final, fun fragmentBytes =>
    ⟨fun e r' hpush => (h.wellFormed.push_error hpush).1, fun hclean hdr hdec hconflict => ?_,
      fun hnone e r' hpush => ?_⟩⟩
  · have hpush := h.wellFormed.push_conflict hdec hconflict
    have hgone := ((hclean _ r hpush).2 rfl hdr hdec).1
    obtain ⟨g, existing, hg, -⟩ := hconflict
    rw [AList.lookup_eq_none.mpr hgone] at hg
    cases hg
  · obtain ⟨hsame, hinconsistent⟩ := h.wellFormed.push_error hpush
    refine ⟨fun _ => hsame, fun he => ?_⟩
    obtain ⟨hdr, hdec, hconflict⟩ := hinconsistent he
    exact absurd hconflict (hnone hdr hdec)

/-- The group of a conflict stays in flight, and its first body is part of a later payload. -/
theorem conflicting_group_completes :
    (reassembling.trace (some (.new 32))
      [.push [0, 1, 0, 2, 65], .push [0, 1, 0, 2, 66], .push [0, 1, 1, 2, 67]]).map Prod.snd =
      [some (.ok none), some (.error .inconsistent), some (.ok (some [65, 67]))] ∧
    ∃ r, reassembling.final (some (.new 32)) [.push [0, 1, 0, 2, 65]] = some r ∧
      ¬ ErrorsAreClean r [0, 1, 0, 2, 66] := by
  refine ⟨by decide, _, rfl, fun hclean => ?_⟩
  have hgone := ((hclean _ _ rfl).2 rfl _ rfl).1
  exact hgone (by decide)

end Desmos.Proto
