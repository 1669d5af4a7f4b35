import Desmos.Core.Daemon.Framing
import Desmos.Core.Session.Peers

/-! # The session ids of the two ends

The client gives its session the id 1 and never learns another. The handshake succeeds all the same,
but packets carry the id in their associated data.
-/
namespace Desmos.Core
open Library Proto

namespace ClientRegistry

/-- The next accept hands out the id of the client: it is free, and the search gets to
it before any other free id. -/
def OffersClientId (r : ClientRegistry) : Prop :=
  r.table.get clientSessionId = none ∧
    (r.nextId ≤ clientSessionId ∨ ∀ id, r.nextId ≤ id → r.table.get id ≠ none)

theorem toNat_cursor_add (cursor : UInt16) (k : ℕ) :
    (cursor + UInt16.ofNat k).toNat = (cursor.toNat + k) % 65536 := by
  simp [UInt16.toNat_add]

section Search
variable {r : ClientRegistry} {id : SessionId} {cursor : UInt16}

theorem offersClientId_of_found
    (h : findId r.table 65536 r.nextId = (some clientSessionId, cursor)) : r.OffersClientId := by
  obtain ⟨k, hk, hid, -, hfree, hfirst⟩ := findId_some_iff.mp h
  refine ⟨hfree.2, ?_⟩
  by_cases hle : r.nextId ≤ clientSessionId
  · exact Or.inl hle
  · -- the search went past every id from the cursor to the top
    refine Or.inr fun j hj hnone => ?_
    have hc : r.nextId.toNat < 65536 := r.nextId.toNat_lt
    have hjn : j.toNat < 65536 := j.toNat_lt
    have hone : 1 = (r.nextId.toNat + k) % 65536 := by rw [← toNat_cursor_add, ← hid]; rfl
    have hgt : ¬ r.nextId.toNat ≤ 1 := hle
    have hjc : r.nextId.toNat ≤ j.toNat := hj
    have hat : r.nextId + UInt16.ofNat (j.toNat - r.nextId.toNat) = j := by
      apply UInt16.toNat_inj.mp
      rw [toNat_cursor_add]
      omega
    apply hfirst (j.toNat - r.nextId.toNat) (by omega)
    rw [hat]
    refine ⟨?_, hnone⟩
    rintro rfl
    exact hgt (hjc.trans (by decide))

theorem found_of_offersClientId (h : findId r.table 65536 r.nextId = (some id, cursor))
    (ho : r.OffersClientId) : id = clientSessionId := by
  obtain ⟨k, hk, hid, -, hfree, hfirst⟩ := findId_some_iff.mp h
  obtain ⟨hone, hreach⟩ := ho
  by_contra hne
  have hc : r.nextId.toNat < 65536 := r.nextId.toNat_lt
  have hidn : id.toNat = (r.nextId.toNat + k) % 65536 := by rw [hid, toNat_cursor_add]
  have hid0 : id.toNat ≠ 0 := fun h0 => hfree.1 (UInt16.toNat_inj.mp h0)
  have hid1 : id.toNat ≠ 1 := fun h1 => hne (UInt16.toNat_inj.mp h1)
  -- the search never gets past the free id 1
  have hbefore : ∀ d < k, (r.nextId.toNat + d) % 65536 ≠ 1 := by
    intro d hd h1
    have hat : r.nextId + UInt16.ofNat d = clientSessionId :=
      UInt16.toNat_inj.mp ((toNat_cursor_add _ _).trans h1)
    exact hfirst d hd (hat ▸ ⟨by decide, hone⟩)
  rcases hreach with hle | htaken
  · have hle' : r.nextId.toNat ≤ 1 := hle
    have := hbefore (1 - r.nextId.toNat)
    omega
  · refine htaken id ?_ hfree.2
    rw [UInt16.le_iff_toNat_le]
    by_contra hlt
    have := hbefore (65537 - r.nextId.toNat)
    omega

theorem acceptClientMsg1_clientId_iff {P : Primitives} {r' : ClientRegistry}
    {entropy : Option Key32} {msg1 msg2 : Bytes} {nowMs : UInt64}
    (h : r.acceptClientMsg1 P entropy msg1 nowMs = (.ok (id, msg2), r')) :
    clientSessionId = id ↔ r.OffersClientId := by
  obtain ⟨-, cursor, -, hfind, -⟩ := acceptClientMsg1_ok_iff.mp h
  constructor
  · rintro rfl
    exact offersClientId_of_found hfind
  · exact fun ho => (found_of_offersClientId hfind ho).symm

end Search

end ClientRegistry

section Setup
variable {P : Primitives} {env : SetupEnv} {serverText : String} {interfaces : List InterfaceConfig}
  {engine : Engine} {d : Datagram} {r r' : ClientRegistry} {sid : SessionId} {msg2 : Bytes}
  {entropyR : Option Key32} {nowR : UInt64}

theorem setup_completes (hP : P.LawfulAead) (hD : P.DhCommutes)
    (hprologue : r.prologue = daemonPrologue)
    (hpub : env.serverPub = .ok (r.staticKey.publicKey P))
    (hsent : d ∈ (setupSocketsAndHandshake P env serverText interfaces engine).sent)
    (hacc : r.acceptClientMsg1 P entropyR d.payload nowR = (.ok (sid, msg2), r'))
    (skipped : List RecvTurn) {turns : List RecvTurn} {nowMs : UInt64}
    (hskip : ∀ t ∈ skipped, t.Skipped d.dst)
    (hturns : env.handshake.turns = skipped ++ ⟨.ok (msg2, d.dst), nowMs⟩ :: turns) :
    ∃ sockets keysI keysR, keysI.send = keysR.recv ∧ keysI.recv = keysR.send ∧
      r'.table.get sid = some (.established (freshSession sid keysR nowR)) ∧
      (setupSocketsAndHandshake P env serverText interfaces engine).result =
        .ok (sockets, freshSession clientSessionId keysI nowMs) := by
  obtain ⟨server, privateKey, serverPub, entry, entries, -, -, hpub', hset⟩ :=
    setupSocketsAndHandshake_of_sent hsent
  obtain rfl : serverPub = r.staticKey.publicKey P := by simpa [hpub] using hpub'.symm
  rw [hset] at hsent ⊢
  obtain ⟨msg1, next, hadv, hrun⟩ := clientHandshake_of_sent hsent
  simp only [setupSocketsAndHandshake.connect, hrun, List.mem_singleton] at hsent ⊢
  subst hsent
  rw [← hprologue] at hadv
  obtain ⟨hl, keysI, keysR, hs, hr, htable, hcompl⟩ :=
    ClientRegistry.accept_completes hP hD hadv hacc
  refine ⟨entry :: entries, keysI, keysR, hs, hr, htable ▸ SessionTable.get_set_self _ _, ?_⟩
  rw [hturns, awaitMsg2_skipped hskip, awaitMsg2_answered hl (hcompl nowMs)]
  rfl

end Setup

/-- An accepted client and the session that the server installed for it understand each
other exactly when the registry was about to hand out the id 1. -/
theorem accepted_client_canTalk_iff (P : Primitives) (hP : P.LawfulAead) (hD : P.DhCommutes)
    (hA : BindsSessionId P) (r : ClientRegistry) (hprologue : r.prologue = daemonPrologue)
    (env : SetupEnv) (hpub : env.serverPub = .ok (r.staticKey.publicKey P)) (serverText : String)
    (interfaces : List InterfaceConfig) (engine : Engine) (d : Datagram)
    (hsent : d ∈ (setupSocketsAndHandshake P env serverText interfaces engine).sent)
    (entropyR : Option Key32) (nowR : UInt64) (sid : SessionId) (msg2 : Bytes) (r' : ClientRegistry)
    (hacc : r.acceptClientMsg1 P entropyR d.payload nowR = (.ok (sid, msg2), r'))
    (skipped turns : List RecvTurn) (nowMs : UInt64) (hskip : ∀ t ∈ skipped, t.Skipped d.dst)
    (hturns : env.handshake.turns = skipped ++ ⟨.ok (msg2, d.dst), nowMs⟩ :: turns) :
    ∃ sockets client session,
      (setupSocketsAndHandshake P env serverText interfaces engine).result =
        .ok (sockets, client) ∧
      r'.table.get sid = some (.established session) ∧
      (CanTalk P client session ↔ r.OffersClientId) := by
  obtain ⟨sockets, keysI, keysR, hs, hr, hget, hres⟩ :=
    setup_completes hP hD hprologue hpub hsent hacc skipped hskip hturns
  refine ⟨sockets, _, _, hres, hget, ?_⟩
  rw [freshSession_canTalk_iff hP hA hs hr, ClientRegistry.acceptClientMsg1_clientId_iff hacc]

namespace Sample

variable (key : X25519PrivateKey)

variable (turns : List RecvTurn)

def setupEnv : SetupEnv where
  serverAddr := some udp.localAddr
  privateKey := .ok key
  serverPub := .ok (serverKey.publicKey .transparent)
  bind i := .ok ⟨addr (UInt16.ofNat i + 1), none⟩
  bindAny := .ok ⟨addr 0, none⟩
  handshake := { handshakeEnv with turns := turns }

def setup : SetupOutcome :=
  setupSocketsAndHandshake .transparent (setupEnv key turns) "" [⟨"eth0", 10, true⟩]
    (Engine.newWithRoundRobin ⟨[]⟩)

theorem setup_sent : ⟨addr 1, udp.localAddr, msg1 key⟩ ∈ (setup key turns).sent := by
  obtain ⟨next, hadv⟩ := advance_msg1 key
  have hset : setup key turns = setupSocketsAndHandshake.connect .transparent (setupEnv key turns)
      [⟨"eth0", 10, true⟩] (Engine.newWithRoundRobin ⟨[]⟩) udp.localAddr key
      (serverKey.publicKey .transparent) ⟨1, ⟨addr 1, none⟩⟩ [] := rfl
  have hsend : (setupEnv key turns).handshake.sendTo = .ok () := rfl
  have hadv' : (Session.newInitiator .transparent clientSessionId key
      (serverKey.publicKey .transparent) daemonPrologue).advance .transparent
        (setupEnv key turns).handshake.entropy none (setupEnv key turns).handshake.nowMs =
          .ok (.needsMore (msg1 key) next) := hadv
  rw [hset, setupSocketsAndHandshake.connect, clientHandshake_of_written hadv' hsend]
  exact List.mem_singleton_self _

def secondKey : X25519PrivateKey := ⟨Vector.replicate 32 5⟩

def registry1 : ClientRegistry :=
  (server.registry.acceptClientMsg1 .transparent turn.entropy (msg1 clientKey) turn.nowMs).2

theorem registry1_accepted :
    server.registry.acceptClientMsg1 .transparent turn.entropy (msg1 clientKey) turn.nowMs =
      (.ok (1, msg2 server.registry clientKey), registry1) ∧
    ∃ keys, registry1 = { server.registry with
      nextId := 2, table := server.registry.table.set (.established (freshSession 1 keys 0)) } := by
  obtain ⟨r1, -, keys, hacc, -, htable⟩ := accepts clientKey rfl rfl rfl rfl server_finds_one
  obtain ⟨-, cursor, session, hfind, -, hr1⟩ := ClientRegistry.acceptClientMsg1_ok_iff.mp hacc
  obtain rfl : 2 = cursor := by simpa [server_finds_one] using hfind
  have hreg : registry1 = r1 := congrArg Prod.snd hacc
  rw [hreg]
  refine ⟨hacc, keys, ?_⟩
  rw [hr1] at htable ⊢
  exact congrArg (fun table => { server.registry with nextId := 2, table := table }) htable

end Sample

theorem accepted_client_canTalk_first :
    ∃ r' sockets client session,
      Sample.server.registry.acceptClientMsg1 .transparent Sample.turn.entropy
        (Sample.msg1 Sample.clientKey) Sample.turn.nowMs =
          (.ok (1, Sample.msg2 Sample.server.registry Sample.clientKey), r') ∧
      (Sample.setup Sample.clientKey [⟨.ok (Sample.msg2 Sample.server.registry Sample.clientKey,
        Sample.udp.localAddr), 0⟩]).result = .ok (sockets, client) ∧
      r'.table.get 1 = some (.established session) ∧
      (CanTalk .transparent client session ↔ Sample.server.registry.OffersClientId) := by
  obtain ⟨r', -, -, hacc, -⟩ := Sample.accepts Sample.clientKey rfl rfl rfl rfl
    Sample.server_finds_one
  obtain ⟨sockets, client, session, hres, hget, htalk⟩ :=
    accepted_client_canTalk_iff .transparent Primitives.transparent_lawfulAead
      Primitives.transparent_dhCommutes transparent_bindsSessionId Sample.server.registry rfl
      (Sample.setupEnv Sample.clientKey
        [⟨.ok (Sample.msg2 Sample.server.registry Sample.clientKey, Sample.udp.localAddr), 0⟩])
      rfl "" _ _ _ (Sample.setup_sent _ _) _ _ 1 _ r' hacc [] [] 0 (by simp) rfl
  exact ⟨r', sockets, client, session, hacc, hres, hget, htalk⟩

/-- The second client of a fresh server is accepted and cannot talk to it. -/
theorem second_client_cannot_talk :
    ∃ r2 sockets client session,
      (Sample.server.registry.acceptClientMsg1 .transparent Sample.turn.entropy
        (Sample.msg1 Sample.clientKey) Sample.turn.nowMs).1 =
          .ok (1, Sample.msg2 Sample.server.registry Sample.clientKey) ∧
      Sample.registry1.acceptClientMsg1 .transparent Sample.turn.entropy
        (Sample.msg1 Sample.secondKey) Sample.turn.nowMs =
          (.ok (2, Sample.msg2 Sample.registry1 Sample.secondKey), r2) ∧
      (Sample.setup Sample.secondKey
        [⟨.ok (Sample.msg2 Sample.registry1 Sample.secondKey, Sample.udp.localAddr), 0⟩]).result =
          .ok (sockets, client) ∧
      r2.table.get 2 = some (.established session) ∧ ¬ CanTalk .transparent client session := by
  obtain ⟨hacc1, keys1, hreg⟩ := Sample.registry1_accepted
  have hfind2 : ClientRegistry.findId
      (Sample.server.registry.table.set (.established (freshSession 1 keys1 0))) 65536 2 =
        (some 2, 3) := ClientRegistry.findId_of_free ⟨by decide, rfl⟩
  obtain ⟨r2, -, -, hacc2, -⟩ := Sample.accepts (r := Sample.registry1) Sample.secondKey
    (by rw [hreg]; rfl) (by rw [hreg]; rfl) (by rw [hreg]; rfl) (by rw [hreg]; rfl)
    (by rw [hreg]; exact hfind2)
  obtain ⟨sockets, keysI, keysR, hs, hr, hget, hres⟩ :=
    setup_completes Primitives.transparent_lawfulAead Primitives.transparent_dhCommutes
      (by rw [hreg]; rfl) (by rw [hreg]; rfl) (Sample.setup_sent Sample.secondKey
        [⟨.ok (Sample.msg2 Sample.registry1 Sample.secondKey, Sample.udp.localAddr), 0⟩])
      hacc2 [] (by simp) rfl
  refine ⟨r2, sockets, _, _, congrArg Prod.fst hacc1, hacc2, hres, hget, ?_⟩
  rw [freshSession_canTalk_iff Primitives.transparent_lawfulAead transparent_bindsSessionId hs hr]
  decide

end Desmos.Core
