import Desmos.Proto.Handshake.Transcript

/-! # Tamper evidence of Noise IK

An attacker delivers its own messages to both ends of one run. If no end opens a ciphertext that was
not sealed in the run, and the digest and the key derivation keep the inputs of the run apart, then
accepted messages are the sent ones.
-/
namespace Desmos.Proto
open Library Transcript

/-- One run under attack: the states and the answers of the four calls. -/
structure AttackedRun where
  ini1 : Initiator
  sent1 : Except HandshakeError Bytes
  res1 : Responder
  read1 : Except HandshakeError Unit
  res2 : Responder
  sent2 : Except HandshakeError (Bytes × TransportKeys)
  ini2 : Initiator
  read2 : Except HandshakeError TransportKeys

/-- The initiator writes message 1, the responder reads `m1` and answers, the
initiator reads `m2`; the two ends may have been given different prologues. -/
def attackedRun (P : Primitives) (si sr : X25519PrivateKey) (known : List PublicKey)
    (prologueI prologueR : Bytes) (ek rk : Key32) (m1 m2 : Bytes) : AttackedRun :=
  let w1 := (Initiator.new P si (sr.publicKey P) prologueI).writeMessage1 P (some ek)
  let r1 := (Responder.new P sr known prologueR).readMessage1 P m1
  let w2 := r1.2.writeMessage2 P (some rk)
  let r2 := w1.2.readMessage2 P m2
  { ini1 := w1.2, sent1 := w1.1, res1 := r1.2, read1 := r1.1
    res2 := w2.2, sent2 := w2.1, ini2 := r2.2, read2 := r2.1 }

namespace AttackedRun

def states (r : AttackedRun) : List SymmetricState :=
  [r.ini1.symm, r.ini2.symm, r.res1.symm, r.res2.symm]

def hashed (r : AttackedRun) : List Bytes := r.states.flatMap SymmetricState.hashed
def derived (r : AttackedRun) : List (Key32 × Bytes) := r.states.flatMap SymmetricState.derived
def sealed (r : AttackedRun) : List Sealing := r.states.flatMap SymmetricState.sealed
def opened (r : AttackedRun) : List Sealing := r.states.flatMap SymmetricState.opened

/-- The cryptographic idealisation of one run: whatever was opened in it had been
sealed in it under the same key, nonce and associated data, and neither the
digest nor the derivation of cipher keys collides on its inputs. -/
structure Ideal (P : Primitives) (r : AttackedRun) : Prop where
  authentic : ∀ o ∈ r.opened, o ∈ r.sealed
  hash_inj : Set.InjOn P.sha256 {b | b ∈ r.hashed}
  hkdf_inj : Set.InjOn (fun d : Key32 × Bytes => Hkdf.block2 P d.1.toList d.2) {d | d ∈ r.derived}

end AttackedRun

section Quiet
variable {P : Primitives}

theorem Responder.readMessage1_sealed (P : Primitives) (res : Responder) (msg : Bytes) :
    (res.readMessage1 P msg).2.symm.sealed = res.symm.sealed := by
  unfold Responder.readMessage1
  simp only [SymmetricState.mixKey_eq]
  split
  · rfl
  split
  · rfl
  have h1 := SymmetricState.decryptAndHash_sealed P
    ((res.symm.mixHash P (leadingKey msg).bytes.toList).keyed P
      (res.s.diffieHellman P (leadingKey msg)).toList)
    ((msg.drop publicKeyLen).take (publicKeyLen + tagLen))
  split
  · next he => rwa [he] at h1
  next sBytes symm1 he =>
  rw [he] at h1
  split
  · exact h1
  split
  · exact h1
  have h2 := SymmetricState.decryptAndHash_sealed P
    (symm1.keyed P (res.s.diffieHellman P ⟨ByteArr.ofBytes 32 sBytes⟩).toList)
    (msg.drop (publicKeyLen + publicKeyLen + tagLen))
  split
  · next he2 =>
    rw [he2] at h2
    exact h2.trans h1
  next he2 =>
  rw [he2] at h2
  split
  · exact h2.trans h1
  · exact h2.trans h1

theorem Responder.readMessage1_re {res : Responder} {msg : Bytes} {re : PublicKey}
    (hn : res.re = none) (h : (res.readMessage1 P msg).2.re = some re) :
    (res.readMessage1 P msg).1 = .ok () := by
  revert h
  unfold Responder.readMessage1
  simp only [SymmetricState.mixKey_eq]
  split
  · simp [hn]
  split
  · simp [hn]
  split
  · simp [hn]
  split
  · simp [hn]
  split
  · simp [hn]
  split
  · simp [hn]
  split
  · simp [hn]
  · simp

theorem Initiator.readMessage2_sealed (P : Primitives) (ini : Initiator) (msg : Bytes) :
    (ini.readMessage2 P msg).2.symm.sealed = ini.symm.sealed := by
  unfold Initiator.readMessage2
  simp only [SymmetricState.mixKey_eq, SymmetricState.split_eq]
  split
  · rfl
  split
  · rfl
  next e _ =>
  have h1 := SymmetricState.decryptAndHash_sealed P
    (((ini.symm.mixHash P (leadingKey msg).bytes.toList).keyed P
      (e.diffieHellman P (leadingKey msg)).toList).keyed P
        (ini.s.diffieHellman P (leadingKey msg)).toList) (msg.drop publicKeyLen)
  split
  · next he => rwa [he] at h1
  next he =>
  rw [he] at h1
  split
  · exact h1
  · exact h1

theorem Responder.writeMessage2_sealed (P : Primitives) (res : Responder) (ek : Key32) :
    (res.writeMessage2 P (some ek)).2.symm.sealed = res.symm.sealed ∨
      ∃ msg keys, (res.writeMessage2 P (some ek)).1 = .ok (msg, keys) := by
  unfold Responder.writeMessage2
  simp only [SymmetricState.mixKey_eq, SymmetricState.split_eq, X25519PrivateKey.generate]
  split
  · exact Or.inl rfl
  · exact Or.inl rfl
  next re rs _ _ =>
  split
  · next err symm he =>
    left
    rw [SymmetricState.encryptAndHash_keyed_error he]
    rfl
  · exact Or.inr ⟨_, _, rfl⟩

end Quiet

section Chains
variable {P : Primitives} {H : List Bytes}

theorem Transcript.absorb_inj (hinj : Set.InjOn P.sha256 {b | b ∈ H}) {h h' : Key32} {x y : Bytes}
    (hx : h.toList ++ x ∈ H) (hy : h'.toList ++ y ∈ H) (he : absorb P h x = absorb P h' y) :
    h = h' ∧ x = y :=
  ByteArr.append_inj (hinj hx hy he)

/-- All digest inputs of one end up to the end of message 1 lie in `H`. -/
structure Flight1 (P : Primitives) (H : List Bytes) (prologue : Bytes) (rs : PublicKey)
    (msg : Bytes) : Prop where
  length : msg.length = msg1Len
  first : ∀ b ∈ inputs0 P prologue rs, b ∈ H
  second : ∀ b ∈ inputs1 P (start P prologue rs) msg, b ∈ H

namespace Flight1
variable {prologue prologue' msg msg' : Bytes} {rs rs' : PublicKey}

section
variable (hinj : Set.InjOn P.sha256 {b | b ∈ H})
include hinj

theorem start_inj (f : Flight1 P H prologue rs msg)
    (f' : Flight1 P H prologue' rs' msg') (he : start P prologue rs = start P prologue' rs') :
    prologue = prologue' := by
  have hname : (ByteArr.ofBytes 32 protocolName).toList = protocolName :=
    ByteArr.toList_ofBytes protocolName_length
  obtain ⟨h0, -⟩ :=
    absorb_inj hinj (f.first _ (by simp [inputs0])) (f'.first _ (by simp [inputs0])) he
  refine (absorb_inj hinj (h := ByteArr.ofBytes 32 protocolName) ?_ ?_ h0).2
  · exact f.first _ (by simp [inputs0, hname])
  · exact f'.first _ (by simp [inputs0, hname])

theorem static_inj (f : Flight1 P H prologue rs msg) (f' : Flight1 P H prologue' rs' msg')
    (he : static P (start P prologue rs) msg = static P (start P prologue' rs') msg') :
    prologue = prologue' ∧ leadingKey msg = leadingKey msg' ∧ encS msg = encS msg' := by
  obtain ⟨h2, hs⟩ :=
    absorb_inj hinj (f.second _ (by simp [inputs1])) (f'.second _ (by simp [inputs1])) he
  obtain ⟨h1, hk⟩ :=
    absorb_inj hinj (f.second _ (by simp [inputs1])) (f'.second _ (by simp [inputs1])) h2
  refine ⟨f.start_inj hinj f' h1, ?_, hs⟩
  have hb := Vector.toList_inj.mp hk
  cases hl : leadingKey msg
  cases hl' : leadingKey msg'
  simpa [hl, hl'] using hb

theorem after1_inj (f : Flight1 P H prologue rs msg) (f' : Flight1 P H prologue' rs' msg')
    (he : after1 P (start P prologue rs) msg = after1 P (start P prologue' rs') msg') :
    prologue = prologue' ∧ msg = msg' := by
  obtain ⟨hs, hp⟩ :=
    absorb_inj hinj (f.second _ (by simp [inputs1])) (f'.second _ (by simp [inputs1])) he
  obtain ⟨hpro, hk, henc⟩ := f.static_inj hinj f' hs
  refine ⟨hpro, ?_⟩
  rw [msg1_eq f.length, msg1_eq f'.length, hk]
  exact congrArg₂ _ (congrArg _ henc) hp

theorem ephemeral_ne_static (f : Flight1 P H prologue rs msg) {h : Key32} {m : Bytes}
    (hm : h.toList ++ (leadingKey m).bytes.toList ∈ H) :
    ephemeral P h m ≠ static P (start P prologue rs) msg := by
  intro he
  obtain ⟨-, hb⟩ := absorb_inj hinj hm (f.second _ (by simp [inputs1])) he
  have hl := congrArg List.length hb
  rw [encS_length f.length] at hl
  simp [publicKeyLen, tagLen] at hl

/-- The hash before message 1 and the hash after it have inputs of different
lengths. -/
theorem start_ne_after1 (f : Flight1 P H prologue rs msg) (f' : Flight1 P H prologue' rs' msg') :
    start P prologue rs ≠ after1 P (start P prologue' rs') msg' := by
  intro he
  obtain ⟨-, hb⟩ :=
    absorb_inj hinj (f.first _ (by simp [inputs0])) (f'.second _ (by simp [inputs1])) he
  have hl := congrArg List.length hb
  rw [encPayload1_length f'.length] at hl
  simp [tagLen] at hl

end

end Flight1

end Chains

section Run
variable {P : Primitives} {si sr : X25519PrivateKey} {known : List PublicKey}
  {prologueI prologueR : Bytes} {ek rk : Key32} {m1 m1' m2' : Bytes} {r : AttackedRun}

variable (hr : r = attackedRun P si sr known prologueI prologueR ek rk m1' m2')
include hr

theorem attackedRun_wrote1 (hP : P.SealAppendsTag) (hs : r.sent1 = .ok m1) :
    Flight1 P r.hashed prologueI (sr.publicKey P) m1 ∧
      r.ini1.symm.h = after1 P (start P prologueI (sr.publicKey P)) m1 ∧
      ∃ k1 k2, r.ini1.symm.sealed = uses1 P (start P prologueI (sr.publicKey P)) m1 k1 k2 := by
  have hw : (Initiator.new P si (sr.publicKey P) prologueI).writeMessage1 P (some ek) =
      (.ok m1, r.ini1) := by
    subst hr
    exact Prod.ext hs rfl
  obtain ⟨hh, hi, hse⟩ := Initiator.new_symm P si (sr.publicKey P) prologueI
  obtain ⟨hl, hafter, hhash, k1, k2, hseal⟩ := Initiator.writeMessage1_transcript hP hw
  have hsub : ∀ b ∈ r.ini1.symm.hashed, b ∈ r.hashed := fun b hb =>
    List.mem_flatMap.mpr ⟨_, by simp [AttackedRun.states], hb⟩
  rw [hhash] at hsub
  exact ⟨⟨hl, fun b hb => hsub b (List.mem_append_left _ hb),
    fun b hb => hsub b (List.mem_append_right _ hb)⟩, hafter, k1, k2, hseal⟩

theorem attackedRun_read1 (ha : r.read1 = .ok ()) :
    Flight1 P r.hashed prologueR (sr.publicKey P) m1' ∧
      r.res1.symm.h = after1 P (start P prologueR (sr.publicKey P)) m1' ∧
      ∃ k1 k2, ∀ o ∈ uses1 P (start P prologueR (sr.publicKey P)) m1' k1 k2, o ∈ r.opened := by
  have hread : (Responder.new P sr known prologueR).readMessage1 P m1' = (.ok (), r.res1) := by
    subst hr
    exact Prod.ext ha rfl
  obtain ⟨hh, hi, -⟩ := Initiator.new_symm P sr (sr.publicKey P) prologueR
  obtain ⟨hl, hafter, hhash, k1, k2, hopen⟩ := Responder.readMessage1_transcript hread
  rw [Responder.new_symm, hh] at hafter hhash hopen
  have hmem : r.res1.symm ∈ r.states := by simp [AttackedRun.states]
  have hsub : ∀ b ∈ r.res1.symm.hashed, b ∈ r.hashed := fun b hb =>
    List.mem_flatMap.mpr ⟨_, hmem, hb⟩
  rw [hhash] at hsub
  refine ⟨⟨hl, fun b hb => hsub b (List.mem_append_left _ hb),
    fun b hb => hsub b (List.mem_append_right _ hb)⟩, hafter, k1, k2, fun o ho => ?_⟩
  refine List.mem_flatMap.mpr ⟨_, hmem, ?_⟩
  rw [hopen]
  exact List.mem_append_right _ ho

theorem attackedRun_wrote2 (hP : P.SealAppendsTag) {m2 : Bytes} {keysR : TransportKeys}
    (hs : r.sent2 = .ok (m2, keysR)) :
    r.read1 = .ok () ∧ ∃ ck dh, Message2Effect P r.res1.symm m2 ck dh r.res2.symm ∧
      r.res2.symm.sealed = [use2 P r.res1.symm.h m2 (Hkdf.block2 P ck.toList dh)] ∧
      keysR = { send := Hkdf.block2 P r.res2.symm.ck.toList []
                recv := Hkdf.block1 P r.res2.symm.ck.toList []
                handshakeHash := r.res2.symm.h } := by
  have hw : r.res1.writeMessage2 P (some rk) = (.ok (m2, keysR), r.res2) := by
    subst hr
    exact Prod.ext hs rfl
  have hsealed : r.res1.symm.sealed = [] := by
    subst hr
    exact (Responder.readMessage1_sealed P _ m1').trans (Initiator.new_symm P sr _ prologueR).2.2
  obtain ⟨re, -, -, -, hre, -⟩ := Responder.writeMessage2_ok_iff.mp hw
  obtain ⟨ck, dh, heff, hseal, hkeys⟩ := Responder.writeMessage2_transcript hP hw
  rw [hsealed, List.nil_append] at hseal
  refine ⟨?_, ck, dh, heff, hseal, hkeys⟩
  subst hr
  exact Responder.readMessage1_re rfl hre

theorem attackedRun_sealed {o : Sealing} (ho : o ∈ r.sealed) : o ∈ r.ini1.symm.sealed ∨
      ∃ m2 keysR, r.sent2 = .ok (m2, keysR) ∧ o ∈ r.res2.symm.sealed := by
  have h2 : r.ini2.symm.sealed = r.ini1.symm.sealed := by
    subst hr
    exact Initiator.readMessage2_sealed P _ m2'
  have h3 : r.res1.symm.sealed = [] := by
    subst hr
    exact (Responder.readMessage1_sealed P _ m1').trans (Initiator.new_symm P sr _ prologueR).2.2
  have h4 : r.res2.symm.sealed = r.res1.symm.sealed ∨ ∃ m2 keysR, r.sent2 = .ok (m2, keysR) := by
    subst hr
    exact Responder.writeMessage2_sealed P _ rk
  simp only [AttackedRun.sealed, AttackedRun.states, List.flatMap_cons, List.flatMap_nil,
    List.append_nil, List.mem_append, h2, h3, List.not_mem_nil, false_or] at ho
  rcases ho with ho | ho | ho
  · exact Or.inl ho
  · exact Or.inl ho
  · rcases h4 with h4 | ⟨m2, keysR, h4⟩
    · simp [h4, h3] at ho
    · exact Or.inr ⟨m2, keysR, h4, ho⟩

theorem attackedRun_match1 (hP : P.SealAppendsTag) (hid : r.Ideal P) (hs : r.sent1 = .ok m1)
    (ha : r.read1 = .ok ()) : prologueI = prologueR ∧ m1' = m1 := by
  obtain ⟨fI, -, k1, k2, hseal⟩ := attackedRun_wrote1 hr hP hs
  obtain ⟨fR, hafter, k1', k2', hopen⟩ := attackedRun_read1 hr ha
  have hin := hid.authentic _ (hopen _ (List.mem_cons_of_mem _ List.mem_cons_self))
  rcases attackedRun_sealed hr hin with hin | ⟨m2, keysR, hs2, hin⟩
  · rw [hseal] at hin
    rcases List.mem_cons.mp hin with heq | hin
    · have haad := Vector.toList_inj.mp (congrArg Sealing.aad heq)
      exact absurd haad.symm
        (fR.ephemeral_ne_static hid.hash_inj (fI.second _ (by simp [inputs1])))
    · have heq := List.mem_singleton.mp hin
      have haad := Vector.toList_inj.mp (congrArg Sealing.aad heq)
      have hct : encPayload1 m1' = encPayload1 m1 := congrArg Sealing.ciphertext heq
      have hafter : after1 P (start P prologueI (sr.publicKey P)) m1 =
          after1 P (start P prologueR (sr.publicKey P)) m1' := by
        simp only [after1, haad, hct]
      obtain ⟨hpro, hm⟩ := fI.after1_inj hid.hash_inj fR hafter
      exact ⟨hpro, hm.symm⟩
  · obtain ⟨-, ck, dh, heff, hsealed, -⟩ := attackedRun_wrote2 hr hP hs2
    rw [hsealed] at hin
    have haad := Vector.toList_inj.mp (congrArg Sealing.aad (List.mem_singleton.mp hin))
    refine absurd haad.symm (fR.ephemeral_ne_static hid.hash_inj ?_)
    refine List.mem_flatMap.mpr ⟨r.res2.symm, by simp [AttackedRun.states], ?_⟩
    rw [heff.hashed]
    simp [inputs2]

/-- An accepted message 2 was written by the responder in answer to the
initiator's own message 1, and leaves both ends with the same keys. -/
theorem attackedRun_match2 (hP : P.SealAppendsTag) (hid : r.Ideal P) {keysI : TransportKeys}
    (hs : r.sent1 = .ok m1)
    (ha : r.read2 = .ok keysI) :
    prologueI = prologueR ∧ m1' = m1 ∧ ∃ keysR, r.sent2 = .ok (m2', keysR) ∧
      keysI.send = keysR.recv ∧ keysI.recv = keysR.send ∧
      keysI.handshakeHash = keysR.handshakeHash := by
  obtain ⟨fI, hI, k1, k2, hseal⟩ := attackedRun_wrote1 hr hP hs
  have hread : r.ini1.readMessage2 P m2' = (.ok keysI, r.ini2) := by
    subst hr
    exact Prod.ext ha rfl
  obtain ⟨ck, dh, heff, hopen, rfl⟩ := Initiator.readMessage2_transcript hread
  have hmemI : r.ini2.symm ∈ r.states := by simp [AttackedRun.states]
  have hmemR : r.res2.symm ∈ r.states := by simp [AttackedRun.states]
  have hkey : r.ini1.symm.h.toList ++ (leadingKey m2').bytes.toList ∈ r.hashed := by
    refine List.mem_flatMap.mpr ⟨_, hmemI, ?_⟩
    rw [heff.hashed]
    simp [inputs2]
  have hin : use2 P r.ini1.symm.h m2' (Hkdf.block2 P ck.toList dh) ∈ r.sealed := by
    refine hid.authentic _ (List.mem_flatMap.mpr ⟨_, hmemI, ?_⟩)
    rw [hopen]
    simp
  rcases attackedRun_sealed hr hin with hin | ⟨m2, keysR, hs2, hin⟩
  · rw [hseal] at hin
    rcases List.mem_cons.mp hin with heq | hin
    · have haad := Vector.toList_inj.mp (congrArg Sealing.aad heq)
      obtain ⟨hst, -⟩ := absorb_inj hid.hash_inj hkey (fI.second _ (by simp [inputs1])) haad
      exact absurd (hst.symm.trans hI) (fI.start_ne_after1 hid.hash_inj fI)
    · have haad := Vector.toList_inj.mp (congrArg Sealing.aad (List.mem_singleton.mp hin))
      exact absurd haad (fI.ephemeral_ne_static hid.hash_inj hkey)
  · obtain ⟨hr1, ck', dh', heff', hsealed, rfl⟩ := attackedRun_wrote2 hr hP hs2
    obtain ⟨fR, hR, -⟩ := attackedRun_read1 hr hr1
    rw [hsealed] at hin
    have heq := List.mem_singleton.mp hin
    have haad := Vector.toList_inj.mp (congrArg Sealing.aad heq)
    have hct : encPayload2 m2' = encPayload2 m2 := congrArg Sealing.ciphertext heq
    have hkeys : (ck, dh) = (ck', dh') :=
      hid.hkdf_inj (List.mem_flatMap.mpr ⟨_, hmemI, heff.derived⟩)
        (List.mem_flatMap.mpr ⟨_, hmemR, heff'.derived⟩) (congrArg Sealing.key heq)
    have hkey' : r.res1.symm.h.toList ++ (leadingKey m2).bytes.toList ∈ r.hashed := by
      refine List.mem_flatMap.mpr ⟨_, hmemR, ?_⟩
      rw [heff'.hashed]
      simp [inputs2]
    obtain ⟨hh, hlead⟩ := absorb_inj hid.hash_inj hkey hkey' haad
    obtain ⟨hpro, hm1⟩ := fI.after1_inj hid.hash_inj fR (hI.symm.trans (hh.trans hR))
    have hm2 : m2' = m2 := by
      rw [msg2_eq heff.length, msg2_eq heff'.length, hlead]
      exact congrArg _ hct
    subst hm2
    obtain ⟨rfl, rfl⟩ := Prod.mk.inj hkeys
    have hck : r.ini2.symm.ck = r.res2.symm.ck := heff.ck_eq.trans heff'.ck_eq.symm
    have hhash : r.ini2.symm.h = r.res2.symm.h := by rw [heff.h, heff'.h, hh]
    exact ⟨hpro, hm1.symm, _, hs2, by simp [hck], by simp [hck], hhash⟩

end Run

/-- For all keys, whitelists and prologues and every pair of delivered messages: if both ends
accept, both messages arrived as they were sent and the ends hold matching keys and one handshake
hash; with different prologues neither accepts anything. -/
theorem noiseIk_tamper_evident (P : Primitives) (hP : P.SealAppendsTag)
    (si sr : X25519PrivateKey) (known : List PublicKey) (prologueI prologueR : Bytes)
    (ek rk : Key32) (m1 m1' m2' : Bytes) (r : AttackedRun)
    (hr : r = attackedRun P si sr known prologueI prologueR ek rk m1' m2')
    (hs : r.sent1 = .ok m1) (hid : r.Ideal P) :
    (∀ m2 keysR keysI, r.read1 = .ok () → r.sent2 = .ok (m2, keysR) → r.read2 = .ok keysI →
      m1' = m1 ∧ m2' = m2 ∧ keysI.send = keysR.recv ∧ keysI.recv = keysR.send ∧
        keysI.handshakeHash = keysR.handshakeHash) ∧
    (prologueI ≠ prologueR → r.read1 ≠ .ok () ∧ ∀ keysI, r.read2 ≠ .ok keysI) := by
  constructor
  · intro m2 keysR keysI _ hs2 hr2
    obtain ⟨-, hm1, keysR', hs2', hsend, hrecv, hhash⟩ := attackedRun_match2 hr hP hid hs hr2
    rw [hs2, Except.ok.injEq, Prod.mk.injEq] at hs2'
    obtain ⟨rfl, rfl⟩ := hs2'
    exact ⟨hm1, rfl, hsend, hrecv, hhash⟩
  · intro hne
    refine ⟨fun hr1 => hne (attackedRun_match1 hr hP hid hs hr1).1, fun keysI hr2 => ?_⟩
    exact hne (attackedRun_match2 hr hP hid hs hr2).1

/-! The assumptions about a run can be met. The primitives below only count: the
first byte of a digest is one more than that of its input, and the first byte of
a MAC is that of its key plus the length of the message. An undisturbed run over
them is written out, and what it hashed, derived, sealed and opened is read off. -/

namespace CountingRun

def counting : Primitives :=
  { Primitives.transparent with
    sha256 := fun bs => ByteArr.ofBytes 32 [bs.headD 0 + 1]
    hmacSha256 := fun k bs => ByteArr.ofBytes 32 [k.headD 0 + UInt8.ofNat bs.length] }

def cell (n : UInt8) : Key32 := ByteArr.ofBytes 32 [n]
def point (a b : UInt8) : Key32 := ByteArr.ofBytes 32 (a :: List.replicate 31 b)
def tag (n : UInt8) : Bytes := n :: List.replicate 15 0

def msg1 : Bytes := (point 10 3).toList ++ ((point 8 1).toList ++ tag 81) ++ tag 82
def msg2 : Bytes := (point 13 4).toList ++ tag 84

def run : AttackedRun :=
  attackedRun counting ⟨point 1 1⟩ ⟨point 2 2⟩ [] [] [] (point 3 3) (point 4 4) msg1 msg2

def hashed1 : List Bytes :=
  [protocolName, (cell 79).toList ++ (point 11 2).toList, (cell 80).toList ++ (point 10 3).toList,
    (cell 81).toList ++ ((point 8 1).toList ++ tag 81), (cell 82).toList ++ tag 82]

def hashed2 : List Bytes :=
  hashed1 ++ [(cell 83).toList ++ (point 13 4).toList, (cell 84).toList ++ tag 84]

def derived1 : List (Key32 × Bytes) :=
  [(ByteArr.ofBytes 32 protocolName, (point 8 1).toList), (cell 111, (point 10 3).toList)]

def derived2 : List (Key32 × Bytes) :=
  derived1 ++ [(cell 144, (point 14 7).toList), (cell 177, (point 12 5).toList)]

def flight1 : List Sealing :=
  [⟨cell 143, nonceBytes 0, (cell 81).toList, (point 8 1).toList ++ tag 81⟩,
    ⟨cell 176, nonceBytes 0, (cell 82).toList, tag 82⟩]

def flight2 : List Sealing :=
  [⟨cell 242, nonceBytes 0, (cell 84).toList, tag 84⟩]

def state1 (sealed opened : List Sealing) : SymmetricState :=
  { ck := cell 144, h := cell 83, k := some ⟨cell 176⟩, n := 1, hashed := hashed1
    derived := derived1, sealed, opened }

def state2 (sealed opened : List Sealing) : SymmetricState :=
  { ck := cell 210, h := cell 85, k := some ⟨cell 242⟩, n := 1, hashed := hashed2
    derived := derived2, sealed, opened }

theorem run_outcome : run.states =
      [state1 flight1 [], state2 flight1 flight2, state1 [] flight1, state2 flight2 flight1] ∧
    run.sent1 = .ok msg1 ∧ run.read1 = .ok () ∧
    run.read2 = .ok { send := cell 211, recv := cell 243, handshakeHash := cell 85 } := by
  -- one evaluation for all four, since each of them runs the handshake
  decide +kernel

theorem counting_sealAppendsTag : counting.SealAppendsTag := by
  intro k n ad pt ct h
  change Primitives.transparent.aeadSeal k n ad pt = some ct at h
  exact Primitives.transparent_lawfulAead.seal_length h

/-- The hash counts the first byte up, so it tells apart what differs there. -/
theorem sha256_headD {a b : Bytes} (h : counting.sha256 a = counting.sha256 b) :
    a.headD 0 = b.headD 0 := by
  have h0 := congrArg (fun v : Key32 => v[0]) h
  simpa [counting, ByteArr.ofBytes] using h0

theorem run_ideal : run.Ideal counting where
  authentic := by
    simp only [AttackedRun.opened, AttackedRun.sealed, run_outcome.1, List.flatMap_cons,
      List.flatMap_nil, state1, state2, List.mem_append]
    tauto
  hash_inj := by
    have hsub : ∀ b ∈ run.hashed, b ∈ hashed2 := by
      simp only [AttackedRun.hashed, run_outcome.1, List.flatMap_cons, List.flatMap_nil, state1,
        state2, hashed2, List.mem_append]
      tauto
    have hheads : (hashed2.map fun a => a.headD 0).Nodup := by decide +kernel
    exact fun a ha b hb h => List.inj_on_of_nodup_map hheads (hsub a ha) (hsub b hb) (sha256_headD h)
  hkdf_inj := by
    have hsub : ∀ d ∈ run.derived, d ∈ derived2 := by
      simp only [AttackedRun.derived, run_outcome.1, List.flatMap_cons, List.flatMap_nil, state1,
        state2, derived2, List.mem_append]
      tauto
    have hinj : ∀ a ∈ derived2, ∀ b ∈ derived2,
        Hkdf.block2 counting a.1.toList a.2 = Hkdf.block2 counting b.1.toList b.2 → a = b := by
      decide +kernel
    exact fun a ha b hb => hinj a (hsub a ha) b (hsub b hb)

end CountingRun

open CountingRun in
theorem noiseIk_tamper_evident_counting :
    ∃ keysI, run.read2 = .ok keysI ∧ run.read1 = .ok () ∧
      ∀ m2 keysR, run.sent2 = .ok (m2, keysR) → msg2 = m2 ∧ keysI.send = keysR.recv := by
  have h := (noiseIk_tamper_evident counting counting_sealAppendsTag ⟨point 1 1⟩ ⟨point 2 2⟩ []
    [] [] (point 3 3) (point 4 4) msg1 msg1 msg2 run rfl run_outcome.2.1 run_ideal).1
  obtain ⟨-, -, h1, h2⟩ := run_outcome
  exact ⟨_, h2, h1, fun m2 keysR hs => ⟨(h m2 keysR _ h1 hs h2).2.1, (h m2 keysR _ h1 hs h2).2.2.1⟩⟩

end Desmos.Proto
