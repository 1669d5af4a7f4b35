import Desmos.Core.Daemon.Replay
import Desmos.Core.Server.Admission

/-! # Sessions that no address leads to

Every accepted handshake files a new session and points its source address at it. What the address
pointed at before stays in the table, where no datagram gets to it any more.
-/
namespace Desmos.Core
open Library Proto

/-- Every session in the table is the one that some address is mapped to. -/
def ServerState.AllReachable (st : ServerState) : Prop :=
  ∀ id, st.registry.table.get id ≠ none → ∃ source, st.addrMap.lookup source = some id

/-- The addresses whose handshakes were accepted, which are those that were answered. -/
def acceptedFrom (trace : List (Arrival × List Datagram × List Bytes)) : List SocketAddr :=
  trace.filterMap fun
    | (_, [], _) => none
    | (arrival, _ :: _, _) => some arrival.source

/-- The table and the address map after handshakes from the addresses in `accepted`. -/
structure Mapping (accepted : List SocketAddr) (st : ServerState) : Prop where
  filed : ∀ {source id}, st.addrMap.lookup source = some id → st.registry.table.get id ≠ none
  single : ∀ {source source' id}, st.addrMap.lookup source = some id →
    st.addrMap.lookup source' = some id → source = source'
  known : ∀ source, st.addrMap.lookup source = none ↔ source ∉ accepted
  count : st.registry.table.len = accepted.length
  reachable : st.AllReachable ↔ accepted.Nodup

/-- A turn that files a new session and points its source address at it. -/
structure Files (source : SocketAddr) (sid : SessionId) (st st' : ServerState) : Prop where
  addrMap : st'.addrMap = st.addrMap.insert source sid
  free : st.registry.table.get sid = none
  filed : st'.registry.table.get sid ≠ none
  others : ∀ id, id ≠ sid → st'.registry.table.get id = st.registry.table.get id
  len : st'.registry.table.len = st.registry.table.len + 1

section Files
variable {source source' : SocketAddr} {sid : SessionId} {st st' : ServerState}

theorem Files.self (h : Files source sid st st') : st'.addrMap.lookup source = some sid := by
  rw [h.addrMap, AList.lookup_insert]

theorem Files.other (h : Files source sid st st') (hne : source' ≠ source) :
    st'.addrMap.lookup source' = st.addrMap.lookup source' := by
  rw [h.addrMap, AList.lookup_insert_ne hne]

end Files

namespace Mapping
variable {accepted : List SocketAddr} {source source' : SocketAddr} {sid id : SessionId}
  {st st' : ServerState}

theorem start (staticKey : X25519PrivateKey) (knownClients : List PublicKey) (prologue : Bytes)
    (maxClients : UInt32) (metrics : PipelineMetrics) :
    Mapping [] (.init (.new staticKey knownClients prologue maxClients) metrics) := by
  refine ⟨?_, ?_, ?_, rfl, ?_⟩
  · intro source id h
    cases h
  · intro source source' id h
    cases h
  · intro source
    exact iff_of_true rfl (List.not_mem_nil)
  · exact iff_of_true (fun id h => absurd rfl h) .nil

section
variable (h : Mapping accepted st)
include h

theorem unchanged (hmap : st'.addrMap = st.addrMap)
    (htable : ∀ id, st'.registry.table.get id = none ↔ st.registry.table.get id = none)
    (hlen : st'.registry.table.len = st.registry.table.len) : Mapping accepted st' := by
  refine ⟨?_, ?_, ?_, hlen.trans h.count, ?_⟩
  · intro source id hm
    rw [hmap] at hm
    exact (htable id).not.mpr (h.filed hm)
  · rw [hmap]
    exact h.single
  · rw [hmap]
    exact h.known
  · rw [← h.reachable]
    unfold ServerState.AllReachable
    simp [hmap, htable]

theorem fresh (hf : Files source sid st st') (hm : st.addrMap.lookup source' = some id) :
    id ≠ sid := by
  rintro rfl
  exact h.filed hm hf.free

theorem accept_filed (hf : Files source sid st st') (hm : st'.addrMap.lookup source' = some id) :
    st'.registry.table.get id ≠ none := by
  by_cases hs : source' = source
  · subst hs
    obtain rfl := Option.some.inj (hf.self.symm.trans hm)
    exact hf.filed
  · rw [hf.other hs] at hm
    rw [hf.others id (h.fresh hf hm)]
    exact h.filed hm

theorem accept_single (hf : Files source sid st st')
    {s1 s2 : SocketAddr} (h1 : st'.addrMap.lookup s1 = some id)
    (h2 : st'.addrMap.lookup s2 = some id) : s1 = s2 := by
  by_cases hs1 : s1 = source <;> by_cases hs2 : s2 = source
  · rw [hs1, hs2]
  · subst hs1
    obtain rfl := Option.some.inj (hf.self.symm.trans h1)
    rw [hf.other hs2] at h2
    exact absurd rfl (h.fresh hf h2)
  · subst hs2
    obtain rfl := Option.some.inj (hf.self.symm.trans h2)
    rw [hf.other hs1] at h1
    exact absurd rfl (h.fresh hf h1)
  · rw [hf.other hs1] at h1
    rw [hf.other hs2] at h2
    exact h.single h1 h2

theorem lookup_of_reachable (hf : Files source sid st st')
    (hreach : st'.AllReachable) : st.addrMap.lookup source = none := by
  cases hold : st.addrMap.lookup source with
  | none => rfl
  | some id =>
    have hin := h.filed hold
    rw [← hf.others id (h.fresh hf hold)] at hin
    obtain ⟨source', hm⟩ := hreach id hin
    by_cases hs : source' = source
    · subst hs
      exact absurd (Option.some.inj (hm.symm.trans hf.self)) (h.fresh hf hold)
    · rw [hf.other hs] at hm
      exact absurd (h.single hm hold) hs

theorem accept_reachable (hf : Files source sid st st') :
    st'.AllReachable ↔ st.addrMap.lookup source = none ∧ st.AllReachable := by
  constructor
  · intro hreach
    refine ⟨h.lookup_of_reachable hf hreach, fun id hin => ?_⟩
    have hne : id ≠ sid := by
      rintro rfl
      exact hin hf.free
    rw [← hf.others id hne] at hin
    obtain ⟨source', hm⟩ := hreach id hin
    have hs : source' ≠ source := by
      rintro rfl
      exact hne (Option.some.inj (hm.symm.trans hf.self))
    exact ⟨source', (hf.other hs).symm.trans hm⟩
  · rintro ⟨hnone, hreach⟩ id hin
    by_cases hid : id = sid
    · exact ⟨source, hid ▸ hf.self⟩
    · rw [hf.others id hid] at hin
      obtain ⟨source', hm⟩ := hreach id hin
      have hs : source' ≠ source := by
        rintro rfl
        rw [hnone] at hm
        cases hm
      exact ⟨source', (hf.other hs).trans hm⟩

theorem accept (hf : Files source sid st st') : Mapping (accepted ++ [source]) st' := by
  refine ⟨h.accept_filed hf, h.accept_single hf, ?_, ?_, ?_⟩
  · intro source'
    by_cases hs : source' = source
    · subst hs
      simp [hf.self]
    · simp [hf.other hs, h.known, hs]
  · rw [hf.len, h.count, List.length_append, List.length_singleton]
  · rw [List.nodup_append_comm, List.singleton_append, List.nodup_cons, ← h.known, ← h.reachable]
    exact h.accept_reachable hf

end

end Mapping

section Run
variable {P : Primitives} {udp : UdpSocket} {st : ServerState}

theorem Mapping.step {trace : List (Arrival × List Datagram × List Bytes)}
    (h : Mapping (acceptedFrom trace) st) (arrival : Arrival) :
    Mapping (acceptedFrom (trace ++ [(arrival, (serverLoop P udp st arrival).1)]))
      (serverLoop P udp st arrival).2 := by
  have happend : ∀ answer, acceptedFrom (trace ++ [(arrival, answer)]) =
      acceptedFrom trace ++ acceptedFrom [(arrival, answer)] := fun _ => List.filterMap_append
  rw [happend]
  rcases handleIncoming_cases P udp arrival.env st arrival.data arrival.source with
    hout | ⟨header, s, hout⟩ | ⟨sid, msg2, hout⟩
  · have hsilent : acceptedFrom [(arrival, (serverLoop P udp st arrival).1)] = [] := by
      simp [acceptedFrom, serverLoop, hout.sent]
    rw [hsilent, List.append_nil]
    exact h.unchanged hout.silent.addrMap hout.silent.sessions
      (congrArg SessionTable.len hout.table)
  · have hsilent : acceptedFrom [(arrival, (serverLoop P udp st arrival).1)] = [] := by
      simp [acceptedFrom, serverLoop, hout.sent]
    obtain ⟨sid, -, hget⟩ := ServerState.sessionOf_eq_some_iff.mp hout.session
    have hid : s.id = sid := st.registry.table.filed sid (.established s) hget
    rw [hsilent, List.append_nil]
    apply h.unchanged hout.silent.addrMap hout.silent.sessions
    refine (congrArg SessionTable.len hout.table).trans (SessionTable.len_set_of_taken ?_)
    change st.registry.table.get (s.decryptData P _ _).2.id ≠ none
    rw [Session.decryptData_id, hid, hget]
    exact Option.some_ne_none _
  · have haccepted : acceptedFrom [(arrival, (serverLoop P udp st arrival).1)] =
        [arrival.source] := by
      simp [acceptedFrom, serverLoop, hout.sent]
    obtain ⟨-, -, hlen, hfree, hothers⟩ := ClientRegistry.acceptClientMsg1_adds hout.accept
    obtain ⟨-, keys, htable⟩ := ClientRegistry.acceptClientMsg1_installs hout.accept
    rw [haccepted]
    refine h.accept ⟨hout.addrMap, hfree.2, ?_, hothers, hlen⟩
    have hget : (st.registry.table.set (.established
        (freshSession sid keys arrival.env.nowMs))).get sid =
          some (.established (freshSession sid keys arrival.env.nowMs)) :=
      SessionTable.get_set_self _ _
    rw [← htable] at hget
    exact fun hnone => absurd (hget.symm.trans hnone) (Option.some_ne_none _)

theorem mapping_of_run (P : Primitives) (udp : UdpSocket) (h : Mapping [] st) (run : List Arrival) :
    Mapping (acceptedFrom ((serverLoop P udp).trace st run)) ((serverLoop P udp).final st run) := by
  induction run using List.reverseRecOn with
  | nil => exact h
  | append_singleton run arrival ih =>
    rw [Machine.trace_append, Machine.final_concat]
    exact ih.step arrival

end Run

/-- From an empty server, every session can be reached exactly if no address had two handshakes
accepted: each accepted handshake takes a slot, and none is ever given back. -/
theorem sessions_reachable_iff (P : Primitives) (udp : UdpSocket) (staticKey : X25519PrivateKey)
    (knownClients : List PublicKey) (prologue : Bytes) (maxClients : UInt32)
    (metrics : PipelineMetrics) (run : List Arrival) :
    let start := ServerState.init (.new staticKey knownClients prologue maxClients) metrics
    let accepted := acceptedFrom ((serverLoop P udp).trace start run)
    (((serverLoop P udp).final start run).AllReachable ↔ accepted.Nodup) ∧
      ((serverLoop P udp).final start run).registry.table.len = accepted.length := by
  intro start accepted
  have hrun := mapping_of_run P udp
    (Mapping.start staticKey knownClients prologue maxClients metrics) run
  exact ⟨hrun.reachable, hrun.count⟩

namespace Sample

/-- The first client connects twice from its address. -/
def reconnected : List Arrival := [⟨turn, hello, addr 1⟩, ⟨turn, hello, addr 1⟩]

theorem reconnected_acceptedFrom :
    acceptedFrom ((serverLoop .transparent udp).trace server reconnected) = [addr 1, addr 1] := by
  obtain ⟨hfirst, -⟩ := hello_accepted
  obtain ⟨hsecond, -⟩ := replay_accepted
  have htrace : (serverLoop .transparent udp).trace server reconnected =
      [(⟨turn, hello, addr 1⟩, (serverLoop .transparent udp server ⟨turn, hello, addr 1⟩).1),
        (⟨turn, hello, addr 1⟩, (serverLoop .transparent udp server1 ⟨turn, hello, addr 1⟩).1)] :=
    rfl
  rw [htrace]
  simp [acceptedFrom, serverLoop, hfirst.sent, hsecond.sent]

end Sample

/-- Two connections from one address take two slots, and the first session is out of reach. -/
theorem reconnect_leaves_orphan :
    let st := (serverLoop .transparent Sample.udp).final Sample.server Sample.reconnected
    st.registry.table.len = 2 ∧ ¬ st.AllReachable := by
  intro st
  have hrun : Mapping [Sample.addr 1, Sample.addr 1] st :=
    Sample.reconnected_acceptedFrom ▸ mapping_of_run _ _ (Mapping.start ..) Sample.reconnected
  exact ⟨hrun.count, hrun.reachable.not.mpr (by decide)⟩

end Desmos.Core
