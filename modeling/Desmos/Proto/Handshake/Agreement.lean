import Desmos.Proto.Handshake.Noise

/-! # Agreement of an undisturbed Noise IK exchange

Whatever one end mixes, the other end mixes as well, because Diffie-Hellman commutes and the AEAD
opens what it sealed.
-/
namespace Desmos.Proto
open Library

variable {P : Primitives} {ini ini1 : Initiator} {ek : Key32} {msg1 : Bytes} {res : Responder}

theorem new_agree (P : Primitives) (si sr : X25519PrivateKey) (known : List PublicKey)
    (prologue : Bytes) :
    (Initiator.new P si (sr.publicKey P) prologue).symm.Agree
      (Responder.new P sr known prologue).symm :=
  ⟨rfl, rfl⟩

theorem Initiator.writeMessage1_succeeds (hP : P.LawfulAead) (he : ini.e = none)
    (ek : Key32) : ∃ msg1 ini1, ini.writeMessage1 P (some ek) = (.ok msg1, ini1) := by
  obtain ⟨encS, symm1, hs1⟩ := SymmetricState.encryptAndHash_keyed_ok hP
    (ini.symm.mixHash P (X25519PrivateKey.publicKey P ⟨ek⟩).bytes.toList)
    (X25519PrivateKey.diffieHellman P ⟨ek⟩ ini.rs).toList
    (ini.s.publicKey P).bytes.toList (by simp [Primitives.maxInputLen])
  obtain ⟨encPayload, symm2, hs2⟩ := SymmetricState.encryptAndHash_keyed_ok hP symm1
    (ini.s.diffieHellman P ini.rs).toList [] (by simp)
  exact ⟨_, _, Initiator.writeMessage1_ok_iff.mpr
    ⟨he, encS, symm1, encPayload, symm2, hs1, hs2, rfl, rfl⟩⟩

theorem Initiator.writeMessage1_length (hP : P.LawfulAead)
    (hw : ini.writeMessage1 P (some ek) = (.ok msg1, ini1)) :
    msg1.length = msg1Len := by
  obtain ⟨-, encS, symm1, encPayload, symm2, hs1, hs2, rfl, -⟩ :=
    Initiator.writeMessage1_ok_iff.mp hw
  apply msg1_length
  · simpa [publicKeyLen] using SymmetricState.encryptAndHash_keyed_length hP hs1
  · simpa using SymmetricState.encryptAndHash_keyed_length hP hs2

theorem Responder.decrypts_message1 (hP : P.LawfulAead) (hD : P.DhCommutes)
    (hab : ini.symm.Agree res.symm)
    (hrs : ini.rs = res.s.publicKey P) (hw : ini.writeMessage1 P (some ek) = (.ok msg1, ini1)) :
    leadingKey msg1 = X25519PrivateKey.publicKey P ⟨ek⟩ ∧ ∃ symm1 symm2 symmI,
      ((res.symm.mixHash P (leadingKey msg1).bytes.toList).keyed P
        (res.s.diffieHellman P (leadingKey msg1)).toList).decryptAndHash P
          ((msg1.drop publicKeyLen).take (publicKeyLen + tagLen)) =
            (.ok (ini.s.publicKey P).bytes.toList, symm1) ∧
      (symm1.keyed P (res.s.diffieHellman P (ini.s.publicKey P)).toList).decryptAndHash P
        (msg1.drop (publicKeyLen + publicKeyLen + tagLen)) = (.ok [], symm2) ∧
      symmI.Agree symm2 ∧ ini1 = { ini with symm := symmI, e := some ⟨ek⟩ } := by
  obtain ⟨-, encS, symm1, encPayload, symm2, hs1, hs2, rfl, rfl⟩ :=
    Initiator.writeMessage1_ok_iff.mp hw
  have hl : encS.length = publicKeyLen + tagLen := by
    simpa [publicKeyLen] using SymmetricState.encryptAndHash_keyed_length hP hs1
  obtain ⟨symm1', hd1, hab1⟩ := (hab.mixHash _).crypt hP hs1
  obtain ⟨symm2', hd2, hab2⟩ := hab1.crypt hP hs2
  refine ⟨?_, symm1', symm2', symm2, ?_, ?_, hab2, rfl⟩
  · rw [List.append_assoc, leadingKey_append]
  · rw [msg1_encS hl, List.append_assoc, leadingKey_append]
    rwa [hrs, hD] at hd1
  · rw [msg1_payload hl]
    rwa [hrs, hD] at hd2

/-- What a responder holds after it read a message 1 that was written for it. -/
theorem Responder.readMessage1_agree (hP : P.LawfulAead) (hD : P.DhCommutes)
    {res1 : Responder} (hab : ini.symm.Agree res.symm)
    (hrs : ini.rs = res.s.publicKey P) (hw : ini.writeMessage1 P (some ek) = (.ok msg1, ini1))
    (hr : res.readMessage1 P msg1 = (.ok (), res1)) :
    ini1.symm.Agree res1.symm ∧ ini1.e = some ⟨ek⟩ ∧ ini1.s = ini.s ∧
      res1.re = some (X25519PrivateKey.publicKey P ⟨ek⟩) ∧ res1.rs = some (ini.s.publicKey P) := by
  obtain ⟨hk, symm1, symm2, symmI, hd1, hd2, hab2, rfl⟩ :=
    Responder.decrypts_message1 hP hD hab hrs hw
  obtain ⟨-, -, sBytes, symm1', symm2', hd1', -, -, hd2', rfl⟩ :=
    Responder.readMessage1_ok_iff.mp hr
  obtain ⟨hs, rfl⟩ : (ini.s.publicKey P).bytes.toList = sBytes ∧ symm1 = symm1' := by
    simpa [hd1] using hd1'
  subst hs
  obtain rfl : symm2 = symm2' := by simpa [hd2] using hd2'
  exact ⟨hab2, rfl, rfl, by rw [hk], by rw [ByteArr.ofBytes_toList]⟩

/-- Message 1 carries the lock step from the start to the responder's answer. -/
theorem message1_agreement (hP : P.LawfulAead) (hD : P.DhCommutes) (ini : Initiator)
    (res : Responder) (ek : Key32) (hab : ini.symm.Agree res.symm)
    (hrs : ini.rs = res.s.publicKey P) (he : ini.e = none) (hre : res.re = none)
    (hk : res.knownInitiators = [] ∨ ini.s.publicKey P ∈ res.knownInitiators) :
    ∃ msg1 ini1 res1, ini.writeMessage1 P (some ek) = (.ok msg1, ini1) ∧
      res.readMessage1 P msg1 = (.ok (), res1) := by
  obtain ⟨msg1, ini1, hw⟩ := Initiator.writeMessage1_succeeds hP he ek
  obtain ⟨-, symm1, symm2, symmI, hd1, hd2, -, -⟩ := Responder.decrypts_message1 hP hD hab hrs hw
  have hl : msg1.length = msg1Len := Initiator.writeMessage1_length hP hw
  refine ⟨msg1, _, _, hw, Responder.readMessage1_ok_iff.mpr
    ⟨hl, hre, _, symm1, symm2, hd1, by simp [publicKeyLen], ?_, ?_, rfl⟩⟩
  · simpa using hk
  · simpa using hd2

/-- Message 2 ends the lock step: both ends split the same chaining key. -/
theorem message2_agreement (hP : P.LawfulAead) (hD : P.DhCommutes) (ini : Initiator)
    (res : Responder) (ek rk : Key32) (hab : ini.symm.Agree res.symm) (he : ini.e = some ⟨ek⟩)
    (hre : res.re = some (X25519PrivateKey.publicKey P ⟨ek⟩))
    (hrs : res.rs = some (ini.s.publicKey P)) :
    ∃ msg2 keysR keysI symmR symmI,
      res.writeMessage2 P (some rk) =
        (.ok (msg2, keysR), { res with symm := symmR, re := none, rs := none }) ∧
      ini.readMessage2 P msg2 = (.ok keysI, { ini with symm := symmI, e := none }) ∧
      symmI.Agree symmR ∧ keysI.send = keysR.recv ∧ keysI.recv = keysR.send ∧
      keysI.handshakeHash = keysR.handshakeHash := by
  obtain ⟨encPayload, symm, hs⟩ := SymmetricState.encryptAndHash_keyed_ok hP
    ((res.symm.mixHash P (X25519PrivateKey.publicKey P ⟨rk⟩).bytes.toList).keyed P
      (X25519PrivateKey.diffieHellman P ⟨rk⟩ (X25519PrivateKey.publicKey P ⟨ek⟩)).toList)
    (X25519PrivateKey.diffieHellman P ⟨rk⟩ (ini.s.publicKey P)).toList [] (by simp)
  obtain ⟨symm', hd, hab'⟩ := ((hab.symm.mixHash _).keyed _).crypt hP hs
  refine ⟨_, _, _, symm, symm', Responder.writeMessage2_ok_iff.mpr
    ⟨_, _, encPayload, symm, hre, hrs, hs, rfl, rfl, rfl⟩,
    Initiator.readMessage2_ok_iff.mpr ⟨?_, ⟨ek⟩, symm', he, ?_, rfl, rfl⟩, hab'.symm, ?_⟩
  · simpa [msg2Len, publicKeyLen] using SymmetricState.encryptAndHash_keyed_length hP hs
  · rw [leadingKey_append, List.drop_left' (by simp [publicKeyLen])]
    rwa [hD ⟨rk⟩ ⟨ek⟩, hD ⟨rk⟩ ini.s] at hd
  · simp [hab'.ck, hab'.h]

/-- For all four keys and every prologue, an undisturbed run of the four methods
succeeds on an empty or matching whitelist, and leaves both ends with the same
transport keys and the same handshake hash. -/
theorem noiseIk_agreement (P : Primitives) (hP : P.LawfulAead) (hD : P.DhCommutes)
    (si sr : X25519PrivateKey) (ek rk : Key32) (prologue : Bytes) (known : List PublicKey)
    (hk : known = [] ∨ si.publicKey P ∈ known) :
    ∃ msg1 ini1 res1 msg2 keysR res2 keysI ini2,
      (Initiator.new P si (sr.publicKey P) prologue).writeMessage1 P (some ek) = (.ok msg1, ini1) ∧
      (Responder.new P sr known prologue).readMessage1 P msg1 = (.ok (), res1) ∧
      res1.writeMessage2 P (some rk) = (.ok (msg2, keysR), res2) ∧
      ini1.readMessage2 P msg2 = (.ok keysI, ini2) ∧
      res1.initiatorStatic = some (si.publicKey P) ∧
      keysI.send = keysR.recv ∧ keysI.recv = keysR.send ∧
      keysI.handshakeHash = keysR.handshakeHash := by
  obtain ⟨msg1, ini1, res1, hw1, hr1⟩ := message1_agreement hP hD
    (Initiator.new P si (sr.publicKey P) prologue) (Responder.new P sr known prologue) ek
    (new_agree P si sr known prologue) rfl rfl rfl hk
  obtain ⟨hab, he, hs, hre, hrs⟩ := Responder.readMessage1_agree hP hD
    (new_agree P si sr known prologue) rfl hw1 hr1
  obtain ⟨msg2, keysR, keysI, symm2, symm2', hw2, hr2, -, hkeys⟩ :=
    message2_agreement hP hD ini1 res1 ek rk hab he hre (hs ▸ hrs)
  exact ⟨msg1, ini1, res1, msg2, keysR, _, keysI, _, hw1, hr1, hw2, hr2, hrs, hkeys⟩

theorem noiseIk_agreement_transparent :
    let P := Primitives.transparent
    let si : X25519PrivateKey := ⟨Vector.replicate 32 1⟩
    let sr : X25519PrivateKey := ⟨Vector.replicate 32 2⟩
    ∃ msg1 ini1 res1 msg2 keysR res2 keysI ini2,
      (Initiator.new P si (sr.publicKey P) []).writeMessage1 P (some (Vector.replicate 32 3)) =
        (.ok msg1, ini1) ∧
      (Responder.new P sr [si.publicKey P] []).readMessage1 P msg1 = (.ok (), res1) ∧
      res1.writeMessage2 P (some (Vector.replicate 32 4)) = (.ok (msg2, keysR), res2) ∧
      ini1.readMessage2 P msg2 = (.ok keysI, ini2) ∧
      res1.initiatorStatic = some (si.publicKey P) ∧
      keysI.send = keysR.recv ∧ keysI.recv = keysR.send ∧
      keysI.handshakeHash = keysR.handshakeHash :=
  noiseIk_agreement .transparent Primitives.transparent_lawfulAead
    Primitives.transparent_dhCommutes ⟨Vector.replicate 32 1⟩ ⟨Vector.replicate 32 2⟩
    (Vector.replicate 32 3) (Vector.replicate 32 4) [] _ (Or.inr (List.mem_singleton.mpr rfl))

end Desmos.Proto
