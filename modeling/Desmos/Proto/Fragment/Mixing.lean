import Desmos.Proto.Fragment.RoundTrip

/-! # Packets under one id

Ids have 16 bits, so a long stream uses them again. A group that waits for a lost fragment takes the
fragment of a later packet with the same id and the same number of fragments.
-/
namespace Desmos.Proto
open Library

/-- Packets in the order in which they are sent, under ids that count up and wrap around. -/
structure PacketStream where
  first : UInt16
  packets : List Packet
  consecutive : ∀ j p, packets[j]? = some p → p.fragmentId = first + UInt16.ofNat j

/-- The body of fragment `o` of a packet sent under an id in `count` fragments. -/
def FromSent (packets : List Packet) (fragmentId : UInt16) (count o : ℕ) (body : Bytes) : Prop :=
  ∃ p ∈ packets, p.fragmentId = fragmentId ∧ p.source.bodies.length = count ∧
    p.source.bodies[o]? = some body

/-- Bodies taken fragment by fragment from packets that share an id and a number of fragments
make up the payload of a packet. -/
def MixClosed (packets : List Packet) : Prop :=
  ∀ fragmentId bodies, bodies ≠ [] →
    (∀ o body, bodies[o]? = some body → FromSent packets fragmentId bodies.length o body) →
    ∃ p ∈ packets, p.payload = bodies.flatten

/-- Whatever the network loses, repeats and reorders, only payloads that were sent come out. -/
def NeverMixes (inFlightLimit : ℕ) (packets : List Packet) : Prop :=
  ∀ network : List Bytes, (∀ f ∈ network, ∃ p ∈ packets, f ∈ p.fragments) →
    ∀ e ∈ reassembly.trace (some (.new inFlightLimit)) network, ∀ payload,
      e.2 = some (.ok (some payload)) → ∃ p ∈ packets, p.payload = payload

variable {p : Packet}

theorem Packet.mem_fragments {f : Bytes} :
    f ∈ p.fragments ↔ ∃ i < p.source.bodies.length, p.source.fragmentAt i = f := by
  rw [p.fragments_eq, List.mem_map]
  simp

section Invariant
variable {packets : List Packet} {r r' : Reassembler} {id : UInt16} {group : PartialGroup}
  {out : Bytes} {answer : Except FragmentError (Option Bytes)}

/-- Every body of a group comes from a packet with the id and the count of the group. -/
structure SentGroup (packets : List Packet) (id : UInt16) (group : PartialGroup) : Prop where
  nonempty : group.slots ≠ []
  slots : group.slots.length = group.total.toNat
  bodies : ∀ o body, group.slots[o]? = some (some body) →
    FromSent packets id group.slots.length o body

def HoldsSent (packets : List Packet) (r : Reassembler) : Prop :=
  ∀ id group, r.inFlight.lookup id = some group → SentGroup packets id group

theorem HoldsSent.new (packets : List Packet) (inFlightLimit : ℕ) :
    HoldsSent packets (.new inFlightLimit) := by
  intro id group h
  cases h

theorem HoldsSent.insert (h : HoldsSent packets r) (hg : SentGroup packets id group)
    (order : List UInt16) :
    HoldsSent packets { r with order, inFlight := r.inFlight.insert id group } := by
  intro id' group' hlookup
  by_cases hid : id' = id
  · subst hid
    have := (AList.lookup_insert r.inFlight).symm.trans hlookup
    cases this
    exact hg
  · exact h id' group' ((AList.lookup_insert_ne hid).symm.trans hlookup)

theorem HoldsSent.erase (h : HoldsSent packets r) (id : UInt16) (order : List UInt16) :
    HoldsSent packets { r with order, inFlight := r.inFlight.erase id } := by
  intro id' group' hlookup
  by_cases hid : id' = id
  · subst hid
    cases (AList.lookup_erase _ _).symm.trans hlookup
  · exact h id' group' ((AList.lookup_erase_ne hid).symm.trans hlookup)

theorem HoldsSent.makeRoom (h : HoldsSent packets r) (id : UInt16) :
    HoldsSent packets (r.makeRoom id) := by
  rw [Reassembler.makeRoom]
  split
  · split
    · exact h
    · next oldest order _ => exact h.erase oldest order
  · exact h

theorem HoldsSent.groupOf (h : HoldsSent packets r) (hdr : FragmentHeader) :
    SentGroup packets hdr.fragmentId (r.groupOf hdr).1 ∧ HoldsSent packets (r.groupOf hdr).2 := by
  rw [Reassembler.groupOf]
  split
  · next group hlookup => exact ⟨h _ _ hlookup, h⟩
  · have hnew : SentGroup packets hdr.fragmentId
        { total := hdr.total, slots := List.replicate hdr.total.toNat none, received := 0 } := by
      have hpos : 0 < hdr.total.toNat :=
        Nat.zero_lt_of_lt (UInt8.lt_iff_toNat_lt.mp hdr.valid)
      refine ⟨?_, List.length_replicate, fun o body ho => ?_⟩
      · rw [← List.length_pos_iff, List.length_replicate]
        exact hpos
      · have := List.mem_of_getElem? ho
        rw [List.mem_replicate] at this
        cases this.2
    exact ⟨hnew, h.insert hnew _⟩

theorem SentGroup.set (h : SentGroup packets id group) {o : ℕ} {body : Bytes}
    (hbody : FromSent packets id group.slots.length o body) (received : ℕ) :
    SentGroup packets id { group with slots := group.slots.set o (some body), received } := by
  refine ⟨?_, (List.length_set ..).trans h.slots, fun o' body' ho' => ?_⟩
  · rw [← List.length_pos_iff, List.length_set, List.length_pos_iff]
    exact h.nonempty
  rw [List.length_set]
  rw [List.getElem?_set] at ho'
  split at ho'
  · next ho =>
    subst ho
    split at ho'
    · cases ho'
      exact hbody
    · cases ho'
  · exact h.bodies o' body' ho'

theorem collect_eq_some {slots : List (Option Bytes)} (h : Reassembler.collect slots = some out) :
    ∃ bodies : List Bytes, slots = bodies.map some ∧ out = bodies.flatten := by
  induction slots generalizing out with
  | nil =>
    cases h
    exact ⟨[], rfl, rfl⟩
  | cons slot slots ih =>
    cases slot with
    | none => cases h
    | some body =>
      rw [Reassembler.collect, Option.map_eq_some_iff] at h
      obtain ⟨rest, hrest, rfl⟩ := h
      obtain ⟨bodies, rfl, rfl⟩ := ih hrest
      exact ⟨body :: bodies, rfl, rfl⟩

theorem SentGroup.collect (h : SentGroup packets id group) (hmix : MixClosed packets)
    (hout : Reassembler.collect group.slots = some out) : ∃ p ∈ packets, p.payload = out := by
  obtain ⟨bodies, hslots, rfl⟩ := collect_eq_some hout
  have hne := h.nonempty
  rw [hslots, Ne, List.map_eq_nil_iff] at hne
  refine hmix id bodies hne fun o body ho => ?_
  have hbody := h.bodies o body (by rw [hslots, List.getElem?_map, ho, Option.map_some])
  rwa [hslots, List.length_map] at hbody

/-- A push that keeps to what was sent. -/
def SentPush (packets : List Packet) (answer : Except FragmentError (Option Bytes))
    (r : Reassembler) : Prop :=
  HoldsSent packets r ∧ ∀ payload, answer = .ok (some payload) → ∃ p ∈ packets, p.payload = payload

theorem HoldsSent.finish (h : HoldsSent packets r) (hmix : MixClosed packets) {hdr : FragmentHeader}
    (hfinish : r.finish hdr group = some (answer, r')) : SentPush packets answer r' := by
  rw [Reassembler.finish] at hfinish
  split at hfinish
  · split at hfinish
    · cases hfinish
    · next done hdone =>
      rw [Option.map_eq_some_iff] at hfinish
      obtain ⟨out, hout, heq⟩ := hfinish
      cases heq
      refine ⟨h.erase _ _, fun payload hpayload => ?_⟩
      cases hpayload
      exact (h _ _ hdone).collect hmix hout
  · cases hfinish
    exact ⟨h, fun payload hpayload => by cases hpayload⟩

theorem HoldsSent.push (h : HoldsSent packets r) (hmix : MixClosed packets) {f : Bytes}
    (hf : ∃ p ∈ packets, f ∈ p.fragments) (hpush : r.push f = some (answer, r')) :
    SentPush packets answer r' := by
  obtain ⟨p, hp, hf⟩ := hf
  obtain ⟨i, hi, rfl⟩ := Packet.mem_fragments.mp hf
  have hoffset : (FragmentSource.header hi).offset.toNat = i := FragmentSource.toNat_offset hi
  have hrefused : ∀ {e : FragmentError} {r : Reassembler}, HoldsSent packets r →
      SentPush packets (.error e) r := fun h => ⟨h, fun _ hpayload => by cases hpayload⟩
  obtain ⟨hgroup, hr⟩ := (h.makeRoom (FragmentSource.header hi).fragmentId).groupOf
    (FragmentSource.header hi)
  rw [Reassembler.push, FragmentSource.decode_fragmentAt hi] at hpush
  simp only [FragmentSource.drop_fragmentAt hi, hoffset] at hpush
  split at hpush
  · cases hpush
    exact hrefused h
  · split at hpush
    · cases hpush
      exact hrefused hr
    · next htotal =>
      rw [ne_eq, not_not] at htotal
      split at hpush
      · cases hpush
      · split at hpush
        · cases hpush
          exact hrefused hr
        · exact hr.finish hmix hpush
      · -- an empty slot takes the body
        refine (hr.insert (hgroup.set ?_ _) _).finish hmix hpush
        refine ⟨p, hp, rfl, ?_, List.getElem?_eq_getElem hi⟩
        rw [hgroup.slots, htotal]
        exact p.source.toNat_total.symm

theorem MixClosed.neverMixes (hmix : MixClosed packets) (inFlightLimit : ℕ) :
    NeverMixes inFlightLimit packets := by
  intro network hnetwork
  refine Machine.trace_invariant_on (I := fun r => ∀ x, r = some x → HoldsSent packets x)
    (q := fun f => ∃ p ∈ packets, f ∈ p.fragments) ?_ ?_ hnetwork
  · intro r f hr hf
    simp only [reassembly]
    split
    · constructor
      · intro _ h
        cases h
      · intro _ h
        cases h
    · next answer r' hpush =>
      rw [Option.bind_eq_some_iff] at hpush
      obtain ⟨x, hx, hpush⟩ := hpush
      obtain ⟨hholds, hanswer⟩ := (hr x hx).push hmix hf hpush
      refine ⟨fun _ h => ?_, fun payload h => hanswer payload (Option.some.inj h)⟩
      cases h
      exact hholds
  · intro x hx
    cases hx
    exact .new packets inFlightLimit

end Invariant

section Mixture
variable {packets : List Packet} {s : FragmentSource} {i : ℕ} {stream : PacketStream}

theorem fragmentAt_congr {t : FragmentSource} (hid : s.fragmentId = t.fragmentId)
    (hlen : s.bodies.length = t.bodies.length) (hbody : s.bodies[i]? = t.bodies[i]?) :
    s.fragmentAt i = t.fragmentAt i := by
  rw [FragmentSource.fragmentAt, FragmentSource.fragmentAt, FragmentSource.total,
    FragmentSource.total, hid, hlen, List.getD_eq_getElem?_getD, List.getD_eq_getElem?_getD, hbody]

def inOrder (s : FragmentSource) : List (Unit × ℕ) := (List.range s.bodies.length).map fun i => ((), i)

theorem mem_take_inOrder {j : ℕ} : ((), i) ∈ (inOrder s).take j ↔ i < j ∧ i < s.bodies.length := by
  rw [inOrder, ← List.map_take, List.take_range]
  simp

theorem inOrder_orderly (s : FragmentSource) (inFlightLimit : ℕ) :
    Orderly (fun _ : Unit => s) (max inFlightLimit 1) (inOrder s) where
  inRange := by simp [inOrder]
  unfinished j a ha hc := by
    have hj : j < s.bodies.length := by
      have := (List.getElem?_eq_some_iff.mp ha).1
      simpa [inOrder] using this
    exact absurd (mem_take_inOrder.mp (hc j hj)).1 (lt_irrefl j)
  room j a _ hnew := by
    have hempty : incomplete (fun _ : Unit => s) ((inOrder s).take j) = ∅ := by
      rw [Finset.eq_empty_iff_forall_notMem]
      intro k hk
      exact hnew (mem_incomplete.mp hk).1
    rw [hempty, Finset.card_empty]
    omega

theorem NeverMixes.mixClosed {inFlightLimit : ℕ} (h : NeverMixes inFlightLimit packets) :
    MixClosed packets := by
  intro fragmentId bodies hne hsent
  have hpos := List.length_pos_iff.mpr hne
  obtain ⟨p, -, -, hlen, -⟩ := hsent 0 bodies[0] (List.getElem?_eq_getElem hpos)
  -- the mixture as the bodies of one source, which nothing in the network tells apart
  let s : FragmentSource := ⟨fragmentId, bodies, hne, hlen ▸ p.source.bounded⟩
  have hnetwork : ∀ f ∈ (inOrder s).map fun a => s.fragmentAt a.2, ∃ p ∈ packets, f ∈ p.fragments := by
    intro f hf
    simp only [inOrder, List.map_map, List.mem_map, List.mem_range] at hf
    obtain ⟨i, hi, rfl⟩ := hf
    obtain ⟨q, hq, hid, hcount, hbody⟩ := hsent i bodies[i] (List.getElem?_eq_getElem hi)
    refine ⟨q, hq, Packet.mem_fragments.mpr ⟨i, hcount.symm ▸ hi, ?_⟩⟩
    exact fragmentAt_congr hid hcount (hbody.trans (List.getElem?_eq_getElem hi).symm)
  have hlast : (inOrder s)[bodies.length - 1]? = some ((), bodies.length - 1) := by
    simp [inOrder, s, hpos]
  have hcomplete : Complete (fun _ : Unit => s) ((inOrder s).take (bodies.length - 1 + 1)) () :=
    fun i hi => mem_take_inOrder.mpr ⟨by rw [Nat.sub_add_cancel hpos]; exact hi, hi⟩
  have hanswer := (inOrder_orderly s inFlightLimit).answer (fun _ _ _ => rfl) hlast
  rw [if_pos hcomplete] at hanswer
  exact h _ hnetwork _ (List.mem_of_getElem? hanswer) _ rfl

/-- The reassembler keeps to the packets of a stream exactly if all mixtures under its ids are
packets of the stream. -/
theorem neverMixes_iff (inFlightLimit : ℕ) (stream : PacketStream) :
    NeverMixes inFlightLimit stream.packets ↔ MixClosed stream.packets :=
  ⟨fun h => h.mixClosed, fun h => h.neverMixes inFlightLimit⟩

theorem PacketStream.eq_of_fragmentId {p q : Packet}
    (hlen : stream.packets.length ≤ 2 ^ 16) (hp : p ∈ stream.packets) (hq : q ∈ stream.packets)
    (hid : p.fragmentId = q.fragmentId) : p = q := by
  obtain ⟨j, hj⟩ := List.mem_iff_getElem?.mp hp
  obtain ⟨k, hk⟩ := List.mem_iff_getElem?.mp hq
  rw [stream.consecutive j p hj, stream.consecutive k q hk, UInt16.add_right_inj] at hid
  have hwrap := congrArg UInt16.toNat hid
  rw [UInt16.toNat_ofNat', UInt16.toNat_ofNat',
    Nat.mod_eq_of_lt ((List.getElem?_eq_some_iff.mp hj).1.trans_le hlen),
    Nat.mod_eq_of_lt ((List.getElem?_eq_some_iff.mp hk).1.trans_le hlen)] at hwrap
  rw [hwrap] at hj
  exact Option.some.inj (hj.symm.trans hk)

/-- A stream that uses no id twice has no mixtures. -/
theorem PacketStream.mixClosed (hlen : stream.packets.length ≤ 2 ^ 16) :
    MixClosed stream.packets := by
  intro fragmentId bodies hne hsent
  have hpos := List.length_pos_iff.mpr hne
  obtain ⟨p, hp, hid, hcount, -⟩ := hsent 0 bodies[0] (List.getElem?_eq_getElem hpos)
  refine ⟨p, hp, ?_⟩
  rw [← p.flatten_bodies]
  congr 1
  refine List.ext_getElem hcount fun o ho ho' => ?_
  obtain ⟨q, hq, hid', -, hbody⟩ := hsent o bodies[o] (List.getElem?_eq_getElem ho')
  obtain rfl := stream.eq_of_fragmentId hlen hp hq (hid.trans hid'.symm)
  exact (List.getElem?_eq_some_iff.mp hbody).2

end Mixture

def pairPacket (a b : UInt8) (fragmentId : UInt16) : Packet where
  payload := [a, b]
  maxFragmentLen := 5
  fragmentId := fragmentId
  fragments := [toBe 2 fragmentId.toNat ++ [0, 2] ++ [a], toBe 2 fragmentId.toNat ++ [1, 2] ++ [b]]
  accepted := by
    have hchunks : chunks 1 [a, b] = [[a], [b]] := by
      simp [chunks_of_pos]
    have hloop := @fragmentChunks_eq ⟨fragmentId, [[a], [b]], by simp, by simp [maxFragments]⟩
      0 _ rfl
    rw [fragment_ok_iff]
    simp only [fragmentHeaderLen, Nat.reduceSub, hchunks]
    exact ⟨List.cons_ne_nil _ _, Nat.one_pos, by simp [maxFragments], hloop⟩

/-- A turn of the ids with one payload, and then another payload. -/
def turnStream : PacketStream where
  first := 0
  packets := (List.range (2 ^ 16 + 1)).map fun j =>
    if j < 2 ^ 16 then pairPacket 1 2 (UInt16.ofNat j) else pairPacket 3 4 (UInt16.ofNat j)
  consecutive j p hp := by
    rw [List.getElem?_map, Option.map_eq_some_iff] at hp
    obtain ⟨j', hj', rfl⟩ := hp
    obtain ⟨-, rfl⟩ := List.getElem?_eq_some_iff.mp hj'
    rw [List.getElem_range, UInt16.zero_add]
    split <;> rfl

theorem mem_turnStream : p ∈ turnStream.packets ↔ ∃ j < 2 ^ 16 + 1,
    (if j < 2 ^ 16 then pairPacket 1 2 (UInt16.ofNat j) else pairPacket 3 4 (UInt16.ofNat j)) = p := by
  simp [turnStream]

/-- The second half of the first packet and the first half of the last one are lost. -/
theorem turn_mixes_packets :
    (∀ f ∈ [[0, 0, 0, 2, 1], [0, 0, 1, 2, 4]], ∃ p ∈ turnStream.packets, f ∈ p.fragments) ∧
      (reassembly.trace (some (.new 32)) [[0, 0, 0, 2, 1], [0, 0, 1, 2, 4]]).map Prod.snd =
        [some (.ok none), some (.ok (some [1, 4]))] ∧
      ∀ p ∈ turnStream.packets, p.payload ≠ [1, 4] := by
  refine ⟨?_, by decide +kernel, ?_⟩
  · rw [List.forall_mem_cons, List.forall_mem_singleton]
    exact ⟨⟨pairPacket 1 2 0, mem_turnStream.mpr ⟨0, by decide, rfl⟩, by decide⟩,
      ⟨pairPacket 3 4 0, mem_turnStream.mpr ⟨2 ^ 16, by decide, rfl⟩, by decide⟩⟩
  · intro p hp
    obtain ⟨j, -, rfl⟩ := mem_turnStream.mp hp
    split
    · exact show ([1, 2] : Bytes) ≠ [1, 4] by decide
    · exact show ([3, 4] : Bytes) ≠ [1, 4] by decide

end Desmos.Proto
