import SCMessenger.Crypto.KeySeparation
import SCMessenger.Crypto.SessionManager

/-!
# Establishing a session from two bundles

The initiator's and the responder's session agree on every hybrid suite.  On the others the initiator's
root comes from its signing key and the responder's from the initiator's X25519 key.
-/

namespace SCMessenger

variable {K : Type} {P : Primitives K}

/-! ## The two sessions of a bootstrap -/

namespace RatchetSession

def hybridSender (P : Primitives K) (suite : UInt8) (hash : Arr 32) (hct : HybridCiphertext) (root : K)
    (draws : HybridDraws) (b : IdentityKeys) : RatchetSession K :=
  { senderState P draws.dhSecret (P.x25519Public b.x25519EncryptionSecret)
      (rootKeyRatchetV2 P root
        (P.diffieHellman draws.dhSecret (P.x25519Public b.x25519EncryptionSecret)) none) with
    negotiatedSuite := some suite
    transcriptHash := some hash
    bootstrapHct := some hct
    pqOurKeypair := some ⟨draws.keypairSeed⟩
    pqTheirEncapsKey := some (b.mlkemKeypair.publicKey P).1 }

def hybridReceiver (P : Primitives K) (suite : UInt8) (hash : Arr 32) (hct : HybridCiphertext)
    (root : K) (dhSecret : Arr 32) (b : IdentityKeys) : RatchetSession K :=
  { receiverState P dhSecret root b.x25519EncryptionSecret with
    negotiatedSuite := some suite
    transcriptHash := some hash
    bootstrapHct := some hct
    pqOurKeypair := some b.mlkemKeypair
    pqTheirEncapsKey := some hct.mlkemCiphertext }

/-- The initiator's session of any other suite, whose first root comes from a static secret. -/
def classicalSender (P : Primitives K) (suite : UInt8) (hash : Arr 32) (static : K)
    (dhSecret : Arr 32) (b : IdentityKeys) : RatchetSession K :=
  let theirPublic := P.x25519Public (ed25519ToX25519Secret P b.signingKey)
  { senderState P dhSecret theirPublic
      (rootKeyRatchetV1 P (deriveRootKeyV1 P P.zeroKey static) (P.diffieHellman dhSecret theirPublic))
    with
    negotiatedSuite := some suite
    transcriptHash := some hash }

def classicalReceiver (P : Primitives K) (suite : UInt8) (hash : Arr 32) (static : K)
    (dhSecret : Arr 32) (b : IdentityKeys) : RatchetSession K :=
  { receiverState P dhSecret (deriveRootKeyV1 P P.zeroKey static)
      (ed25519ToX25519Secret P b.signingKey) with
    negotiatedSuite := some suite
    transcriptHash := some hash }

end RatchetSession

open RatchetSession

def bootstrapHctOf (P : Primitives K) (draws : HybridDraws) (b : IdentityKeys) : HybridCiphertext :=
  ⟨P.x25519Public draws.ephemeralSecret,
    (P.mlkemEncapsulate (b.mlkemKeypair.publicKey P) draws.encapRand).1.1⟩

def transcriptHashOf (P : Primitives K) (a b : IdentityKeys) (sA sB : Bytes) (suite : UInt8) :
    Arr 32 :=
  P.deriveBytes "iron-core suite-transcript v1"
    (sA ++ [0xFF] ++ sB ++ [0xFF] ++ [suite] ++ (P.edPublic a.signingKey).1
      ++ (P.edPublic b.signingKey).1)

variable {suite : UInt8}

theorem negotiateSuite_bundles {a b : IdentityKeys} {sA sB : Bytes}
    (hs : commonSuite sA sB = some suite) :
    negotiateSuite P (a.bundle P sA).supportedSuites (b.bundle P sB).supportedSuites
      (a.bundle P sA).ed25519Public (b.bundle P sB).ed25519Public
      = .ok (suite, transcriptHashOf P a b sA sB suite) := by
  simp only [negotiateSuite, IdentityKeys.bundle, hs, transcriptHashOf]

theorem initWith_bundle (hd : DhIdeal P) (hk : KemIdeal P) (suite : UInt8) (r : K → K)
    (draws : HybridDraws) (b : IdentityKeys) (sB : Bytes) (hash : Arr 32) :
    ∃ ss, initAsSenderWith P suite r draws (b.bundle P sB) hash
        = .ok (hybridSender P suite hash (bootstrapHctOf P draws b) (r ss) draws b)
      ∧ ∀ dhSecret, initAsReceiverWith P suite r dhSecret b.x25519EncryptionSecret b.mlkemKeypair
          (bootstrapHctOf P draws b) hash
        = .ok (hybridReceiver P suite hash (bootstrapHctOf P draws b) (r ss) dhSecret b) := by
  obtain ⟨ss, he, hde⟩ := hybridDecapsulate_encapsulate hd hk b.x25519EncryptionSecret
    b.mlkemKeypair draws.ephemeralSecret draws.encapRand
  refine ⟨ss, ?_, fun dhSecret => ?_⟩
  · simp only [initAsSenderWith, IdentityKeys.bundle, he]
    rfl
  · simp only [initAsReceiverWith, bootstrapHctOf, hde]
    rfl

/-- **Both sides of a hybrid suite start from one root.** -/
theorem bootstrap_hybrid (hd : DhIdeal P) (hk : KemIdeal P) (a b : IdentityKeys) {sA sB : Bytes}
    (hsu : commonSuite sA sB = some suite) (hh : suite ∈ hybridSuiteIds) (draws : HybridDraws) :
    ∃ r, senderSessionHybrid P draws a.signingKey a.x25519EncryptionSecret (a.bundle P sA)
          (b.bundle P sB)
        = .ok (hybridSender P suite (transcriptHashOf P a b sA sB suite) (bootstrapHctOf P draws b)
          r draws b)
      ∧ ∀ dhSecret, receiverSessionHybrid P dhSecret b.signingKey b.x25519EncryptionSecret
          b.mlkemKeypair (b.bundle P sB) (a.bundle P sA) (some (bootstrapHctOf P draws b))
        = .ok (hybridReceiver P suite (transcriptHashOf P a b sA sB suite) (bootstrapHctOf P draws b)
          r dhSecret b) := by
  unfold senderSessionHybrid receiverSessionHybrid
  rw [negotiateSuite_bundles hsu]
  rcases List.mem_pair.mp hh with rfl | rfl
  · obtain ⟨ss, hs, hr⟩ := initWith_bundle hd hk 0x02
      (sessionRootV2 P (transcriptHashOf P a b sA sB 0x02)) draws b sB
      (transcriptHashOf P a b sA sB 0x02)
    exact ⟨_, hs, hr⟩
  · -- the static term of suite 0x03 is one secret by the commutation of Diffie-Hellman
    have hst : P.diffieHellman b.x25519EncryptionSecret (P.x25519Public a.x25519EncryptionSecret)
        = P.diffieHellman a.x25519EncryptionSecret (P.x25519Public b.x25519EncryptionSecret) :=
      hd.comm _ _
    obtain ⟨ss, hs, hr⟩ := initWith_bundle hd hk 0x03
      (sessionRootV3 P (P.diffieHellman a.x25519EncryptionSecret
        (P.x25519Public b.x25519EncryptionSecret)) (transcriptHashOf P a b sA sB 0x03)) draws b sB
      (transcriptHashOf P a b sA sB 0x03)
    refine ⟨_, hs, fun dhSecret => ?_⟩
    rw [← hr dhSecret, ← hst]
    rfl

/-- **The two sides of any other suite** start from two different keys of the initiator. -/
theorem bootstrap_classical (he : EdConversion P) (a b : IdentityKeys) {sA sB : Bytes}
    (hs : commonSuite sA sB = some suite) (hc : suite ∉ hybridSuiteIds) (draws : HybridDraws) :
    senderSessionHybrid P draws a.signingKey a.x25519EncryptionSecret (a.bundle P sA) (b.bundle P sB)
        = .ok (classicalSender P suite (transcriptHashOf P a b sA sB suite)
          (P.diffieHellman (ed25519ToX25519Secret P a.signingKey)
            (P.x25519Public (ed25519ToX25519Secret P b.signingKey))) draws.dhSecret b)
      ∧ ∀ dhSecret hct, receiverSessionHybrid P dhSecret b.signingKey b.x25519EncryptionSecret
          b.mlkemKeypair (b.bundle P sB) (a.bundle P sA) hct
        = .ok (classicalReceiver P suite (transcriptHashOf P a b sA sB suite)
          (P.diffieHellman (ed25519ToX25519Secret P b.signingKey)
            (P.x25519Public a.x25519EncryptionSecret)) dhSecret b) := by
  have h3 : suite ≠ 0x03 := fun h => hc (by simp [h, hybridSuiteIds])
  have h2 : suite ≠ 0x02 := fun h => hc (by simp [h, hybridSuiteIds])
  have hk : ed25519PublicToX25519 P (b.bundle P sB).ed25519Public
      = .ok (P.x25519Public (ed25519ToX25519Secret P b.signingKey)) := by
    simp only [ed25519PublicToX25519, IdentityKeys.bundle, he b.signingKey]
  unfold senderSessionHybrid receiverSessionHybrid
  simp only [negotiateSuite_bundles hs, h3, h2, if_false, hk]
  exact ⟨rfl, fun _ _ => rfl⟩

/-! ## Agreement and the first envelope -/

namespace RatchetSession

/-- The responder's first ratchet step leads to the initiator's root and first chain key. -/
structure Agrees (P : Primitives K) (s r : RatchetSession K) : Prop where
  suite : s.negotiatedSuite = r.negotiatedSuite
  keys : ∃ ck, s.sendingChain = some (Chain.new ck)
    ∧ r.receivingKeys P s.ourDhPublic = (s.rootKey, ck)

variable {suite : UInt8}

theorem isPqHybrid_of_suite {s : RatchetSession K} (h : s.negotiatedSuite = some suite) :
    s.isPqHybrid = decide (suite ∈ hybridSuiteIds) := by
  simp only [isPqHybrid, h, List.contains_eq_mem]

theorem hybrid_agrees (hd : DhIdeal P) (hhy : suite ∈ hybridSuiteIds) (hash : Arr 32)
    (hct : HybridCiphertext) (r : K) (draws : HybridDraws) (dhSecret : Arr 32) (b : IdentityKeys) :
    (hybridSender P suite hash hct r draws b).Agrees P
      (hybridReceiver P suite hash hct r dhSecret b) := by
  have hh : (hybridReceiver P suite hash hct r dhSecret b).isPqHybrid = true := by
    rw [isPqHybrid_of_suite rfl]
    simpa using hhy
  refine ⟨rfl, _, rfl, ?_⟩
  rw [receivingKeys, rootStep_hybrid hh]
  exact congrArg (rootKeyRatchetV2 P r · none)
    (hd.comm b.x25519EncryptionSecret draws.dhSecret)

theorem classical_agrees_iff (hd : DhIdeal P) (hk : KdfIdeal P) (hc : suite ∉ hybridSuiteIds)
    (hash : Arr 32) (x y : K) (dh dh' : Arr 32) (b : IdentityKeys) :
    (classicalSender P suite hash x dh b).Agrees P (classicalReceiver P suite hash y dh' b)
      ↔ x = y := by
  have hh : (classicalReceiver P suite hash y dh' b).isPqHybrid = false := by
    rw [isPqHybrid_of_suite rfl]
    simpa using hc
  have hke : (classicalReceiver P suite hash y dh' b).receivingKeys P
        (classicalSender P suite hash x dh b).ourDhPublic
      = rootKeyRatchetV1 P (deriveRootKeyV1 P P.zeroKey y)
          (P.diffieHellman dh (P.x25519Public (ed25519ToX25519Secret P b.signingKey))) := by
    rw [receivingKeys, rootStep_classical hh]
    exact congrArg (rootKeyRatchetV1 P (deriveRootKeyV1 P P.zeroKey y))
      (hd.comm (ed25519ToX25519Secret P b.signingKey) dh)
  constructor
  · rintro ⟨-, ck, -, hr⟩
    have hf := congrArg Prod.fst (hke.symm.trans hr)
    have hm := rootKeyRatchet_fst_inj hk hf
    simp only [List.cons.injEq, Material.secret.injEq] at hm
    obtain ⟨-, hs⟩ := hk.inj _ _ _ _ hm.1
    simp only [List.cons.injEq, Material.secret.injEq] at hs
    exact hs.2.1.symm
  · rintro rfl
    exact ⟨rfl, _, rfl, hke⟩

end RatchetSession

def WireEnvelope.bootstrap : WireEnvelope → Outcome String (Option HybridCiphertext)
  | .v1 _ => .ok none
  | .v2 e => bootstrapCiphertext e

def decryptWire (P : Primitives K) (rng : Nat → Arr 32) (r : RatchetSession K) :
    WireEnvelope → Except String Bytes × RatchetSession K
  | .v1 e => decryptMessageRatcheted P rng r e
  | .v2 e => decryptMessageRatchetedV2 P rng r e

def firstChain (P : Primitives K) (root : K) (draws : HybridDraws) (b : IdentityKeys) : Chain K :=
  Chain.new (rootKeyRatchetV2 P root
    (P.diffieHellman draws.dhSecret (P.x25519Public b.x25519EncryptionSecret)) none).2

/-- The first envelope carries the bootstrap ciphertext, the initiator's key and the transcript hash. -/
theorem hybridSender_firstEnvelope (hhy : suite ∈ hybridSuiteIds) (hash : Arr 32) (r : K)
    (draws : HybridDraws) (b : IdentityKeys) (s : SendDraws) (sk : Arr 32) (p : Bytes) :
    ∃ e, encryptMessageRatcheted P s sk
          (hybridSender P suite hash (bootstrapHctOf P draws b) r draws b) p
        = (.ok (.v2 e), (hybridSender P suite hash (bootstrapHctOf P draws b) r draws b).afterSend P
            (firstChain P r draws b))
      ∧ Carries P (P.x25519Public draws.dhSecret) (firstChain P r draws b) p (.v2 e)
      ∧ bootstrapCiphertext e = .ok (some (bootstrapHctOf P draws b))
      ∧ e.transcriptHash = some hash.1 := by
  have hh : (hybridSender P suite hash (bootstrapHctOf P draws b) r draws b).isPqHybrid = true := by
    rw [isPqHybrid_of_suite rfl]
    simpa using hhy
  obtain ⟨e, s', he, -, hc, hpq, hep, ht⟩ := encryptMessageRatcheted_hybrid (P := P) hh
    rfl (by decide : (1 : UInt32) < maxRatchetSteps) s sk p
  have hf : ((some (bootstrapHctOf P draws b).mlkemCiphertext,
        some ((⟨draws.keypairSeed⟩ : MlKem768KeyPair).publicKey P).1),
        (hybridSender P suite hash (bootstrapHctOf P draws b) r draws b).afterSend P
          (firstChain P r draws b))
      = ((e.pqKemCiphertext, e.pqEncapsKey), s') := hpq
  obtain ⟨hp, rfl⟩ := Prod.mk.inj hf
  have hk : e.pqKemCiphertext = some (bootstrapHctOf P draws b).mlkemCiphertext :=
    (Prod.mk.inj hp).1.symm
  have he' : e.ephemeralPublicKey = (P.x25519Public draws.ephemeralSecret).1 := hep
  refine ⟨e, he, hc, ?_, ht⟩
  simp [bootstrapCiphertext, hk, he', bootstrapHctOf]

/-- A responder's session that has received nothing. -/
structure RatchetSession.Fresh (r : RatchetSession K) : Prop where
  skippedKeys : r.skippedKeys = ∅
  theirDhPublic : r.theirDhPublic = none
  peerConfirmed : r.peerConfirmed = false

/-- **Sessions that agree carry the first message across.** -/
theorem firstEnvelope_opens (ha : AeadIdeal P) {s r : RatchetSession K} (hag : s.Agrees P r)
    (hr : r.Fresh) {c : Chain K} (hc : s.sendingChain = some c) {p : Bytes} {w : WireEnvelope}
    (hca : Carries P s.ourDhPublic c p w)
    (ht : ∀ e, w = .v2 e → e.transcriptHash = r.transcriptHash.map (·.1)) (rng : Nat → Arr 32) :
    decryptWire P rng r w = (.ok p, r.afterRatchet P (rng 0) s.ourDhPublic) := by
  obtain ⟨-, ck, hck, hk⟩ := hag
  have hd : r.theirDhPublic ≠ some s.ourDhPublic := by simp [hr.theirDhPublic]
  have he : RatchetSession.Expects P r rng s.ourDhPublic _ _ := .ratchet hd
  obtain rfl : c = Chain.new (r.receivingKeys P s.ourDhPublic).2 := by
    rw [hk]
    exact Option.some.inj (hc.symm.trans hck)
  cases w with
  | v1 e => exact decryptMessageRatcheted_expected ha hr.skippedKeys he hca
  | v2 e =>
    have hm : transcriptMismatch r e = false := by
      simp only [transcriptMismatch, hr.peerConfirmed, ht e rfl]
      cases r.transcriptHash <;> simp
    have hab : absorbPqFields P r e (Chain.new (r.receivingKeys P s.ourDhPublic).2).index
        = (.ok (), r) := by
      simp [absorbPqFields, hr.peerConfirmed]
    exact decryptMessageRatchetedV2_expected ha hm hab hr.skippedKeys he hca

/-! ## The bootstrap as a whole -/

/-- Both managers make sessions that agree, and the first envelope decrypts. -/
def BootstrapAgrees (P : Primitives K) (a b : IdentityKeys) (sA sB : Bytes) (plaintext : Bytes)
    (draws : EncryptDraws) (dhSecret : Arr 32) (rng : Nat → Arr 32)
    (mA mB : RatchetSessionManager K) (idA idB : String) : Prop :=
  ∃ s mA' w s' hct r mB',
    mA.getOrCreateSessionHybrid P draws.session idB a.signingKey a.x25519EncryptionSecret
        (a.bundle P sA) (b.bundle P sB) = .ok (s, mA')
      ∧ encryptMessageRatcheted P draws.send a.signingKey s plaintext = (.ok w, s')
      ∧ w.bootstrap = .ok hct
      ∧ mB.createReceiverSessionHybrid P dhSecret idA b.signingKey b.x25519EncryptionSecret
        b.mlkemKeypair (b.bundle P sB) (a.bundle P sA) hct = .ok (r, mB')
      ∧ s.Agrees P r ∧ (decryptWire P rng r w).1 = .ok plaintext

section

variable {a b : IdentityKeys} {sA sB : Bytes} {suite : UInt8} {plaintext : Bytes}
  {draws : EncryptDraws} {dhSecret : Arr 32} {rng : Nat → Arr 32}
  {mA mB : RatchetSessionManager K} {idA idB : String}

theorem getOrCreateSessionHybrid_new {s : RatchetSession K} (hn : mA.sessions idB = none)
    (hs : senderSessionHybrid P draws.session a.signingKey a.x25519EncryptionSecret (a.bundle P sA)
      (b.bundle P sB) = .ok s) :
    mA.getOrCreateSessionHybrid P draws.session idB a.signingKey a.x25519EncryptionSecret
      (a.bundle P sA) (b.bundle P sB) = .ok (s, mA.insert idB s) := by
  simp only [RatchetSessionManager.getOrCreateSessionHybrid, hn, hs]

theorem createReceiverSessionHybrid_ok {r : RatchetSession K} {hct : Option HybridCiphertext}
    (hr : receiverSessionHybrid P dhSecret b.signingKey b.x25519EncryptionSecret b.mlkemKeypair
      (b.bundle P sB) (a.bundle P sA) hct = .ok r) :
    mB.createReceiverSessionHybrid P dhSecret idA b.signingKey b.x25519EncryptionSecret
      b.mlkemKeypair (b.bundle P sB) (a.bundle P sA) hct = .ok (r, mB.insert idA r) := by
  simp only [RatchetSessionManager.createReceiverSessionHybrid, hr]

theorem bootstrapAgrees_hybrid (hd : DhIdeal P) (hk : KemIdeal P) (hae : AeadIdeal P)
    (hsu : commonSuite sA sB = some suite) (hh : suite ∈ hybridSuiteIds)
    (hn : mA.sessions idB = none) :
    BootstrapAgrees P a b sA sB plaintext draws dhSecret rng mA mB idA idB := by
  obtain ⟨r, hs, hr⟩ := bootstrap_hybrid hd hk a b hsu hh draws.session
  obtain ⟨e, he, hc, hhc, ht⟩ := hybridSender_firstEnvelope (P := P) hh
    (transcriptHashOf P a b sA sB suite) r draws.session b draws.send a.signingKey plaintext
  have ha := hybrid_agrees hd hh (transcriptHashOf P a b sA sB suite)
    (bootstrapHctOf P draws.session b) r draws.session dhSecret b
  have ho := firstEnvelope_opens hae ha ⟨rfl, rfl, rfl⟩ rfl hc
    (fun e' he' => by cases he'; exact ht) rng
  exact ⟨_, _, .v2 e, _, _, _, _, getOrCreateSessionHybrid_new hn hs, he, hhc,
    createReceiverSessionHybrid_ok (hr dhSecret), ha, congrArg Prod.fst ho⟩

theorem bootstrapAgrees_classical_iff (hd : DhIdeal P) (hkd : KdfIdeal P) (hae : AeadIdeal P)
    (hed : EdConversion P) (hsu : commonSuite sA sB = some suite) (hc : suite ∉ hybridSuiteIds)
    (hn : mA.sessions idB = none) :
    BootstrapAgrees P a b sA sB plaintext draws dhSecret rng mA mB idA idB
      ↔ P.x25519Public a.x25519EncryptionSecret
        = P.x25519Public (ed25519ToX25519Secret P a.signingKey) := by
  obtain ⟨hs, hr⟩ := bootstrap_classical hed a b hsu hc draws.session
  have har : ∀ x y, (classicalSender P suite (transcriptHashOf P a b sA sB suite) x
      draws.session.dhSecret b).Agrees P (classicalReceiver P suite
        (transcriptHashOf P a b sA sB suite) y dhSecret b) ↔ x = y :=
    fun x y => classical_agrees_iff hd hkd hc _ x y _ _ b
  -- the initiator's static secret, seen from the responder's side
  have hco := hd.comm (ed25519ToX25519Secret P a.signingKey)
    (ed25519ToX25519Secret P b.signingKey)
  constructor
  · rintro ⟨s, mA', w, s', hct, r, mB', hse, -, -, hre, ha, -⟩
    rw [getOrCreateSessionHybrid_new hn hs] at hse
    rw [createReceiverSessionHybrid_ok (hr dhSecret hct)] at hre
    cases hse
    cases hre
    have hst := (har _ _).mp ha
    exact (hd.inj _ _ _ (hco.symm.trans hst)).symm
  · intro hk
    have hh : (classicalSender P suite (transcriptHashOf P a b sA sB suite)
        (P.diffieHellman (ed25519ToX25519Secret P a.signingKey)
          (P.x25519Public (ed25519ToX25519Secret P b.signingKey))) draws.session.dhSecret
          b).isPqHybrid = false := by
      rw [isPqHybrid_of_suite rfl]
      simpa using hc
    obtain ⟨e, he, -, hca⟩ := encryptMessageRatcheted_classical (P := P) hh rfl
      (by decide : (1 : UInt32) < maxRatchetSteps) draws.send a.signingKey plaintext
    have ha := (har _ _).mpr (hco.trans (congrArg _ hk.symm))
    have ho := firstEnvelope_opens hae ha ⟨rfl, rfl, rfl⟩ rfl hca
      (fun e' he' => by cases he') rng
    exact ⟨_, _, .v1 e, _, _, _, _, getOrCreateSessionHybrid_new hn hs, he, rfl,
      createReceiverSessionHybrid_ok (hr dhSecret none), ha, congrArg Prod.fst ho⟩

end

/-- **Bootstrap agreement** exactly when the suite is hybrid, or the initiator's X25519 key is the converted
one. -/
theorem bootstrapAgrees_iff (hdh : DhIdeal P) (hkdf : KdfIdeal P) (hkem : KemIdeal P) (haead : AeadIdeal P)
    (hed : EdConversion P) (a b : IdentityKeys) (sA sB : Bytes) (hsuites : ∃ suite ∈ sA, suite ∈ sB)
    (plaintext : Bytes) (draws : EncryptDraws) (dhSecret : Arr 32) (rng : Nat → Arr 32)
    (mA mB : RatchetSessionManager K) (idA idB : String) (hnew : mA.sessions idB = none) :
    BootstrapAgrees P a b sA sB plaintext draws dhSecret rng mA mB idA idB
      ↔ (∃ suite ∈ hybridSuiteIds, commonSuite sA sB = some suite)
        ∨ P.x25519Public a.x25519EncryptionSecret
          = P.x25519Public (ed25519ToX25519Secret P a.signingKey) := by
  cases hs : commonSuite sA sB with
  | none =>
    obtain ⟨x, hxA, hxB⟩ := hsuites
    exact absurd hxB (commonSuite_eq_none.mp hs x hxA)
  | some suite =>
    by_cases hh : suite ∈ hybridSuiteIds
    · have ha : BootstrapAgrees P a b sA sB plaintext draws dhSecret rng mA mB idA idB :=
        bootstrapAgrees_hybrid hdh hkem haead hs hh hnew
      exact ⟨fun _ => .inl ⟨suite, hh, rfl⟩, fun _ => ha⟩
    · rw [bootstrapAgrees_classical_iff hdh hkdf haead hed hs hh hnew]
      constructor
      · exact .inr
      · rintro (⟨x, hx, hxs⟩ | hk)
        · cases hxs
          exact absurd hx hh
        · exact hk

/-- Two identities that support the suites of a current and of an old release. -/
theorem bootstrapAgrees_suite03 :
    BootstrapAgrees termPrimitives alice bob [1, 3] [1, 2, 3] [42] (sampleEncryptDraws 7)
      (Arr.fit 32 [8]) (fun _ => Arr.fit 32 [9]) .new .new "alice" "bob" :=
  (bootstrapAgrees_iff termDh termKdf termKem termAead termEdConversion alice bob [1, 3] [1, 2, 3]
    ⟨3, by decide, by decide⟩ [42] (sampleEncryptDraws 7) (Arr.fit 32 [8])
    (fun _ => Arr.fit 32 [9]) .new .new "alice" "bob" rfl).mpr
      (.inl ⟨3, by decide, by decide⟩)

/-- **Two identities that share only suite 0x01 never agree.** -/
theorem classical_bootstrap_disagrees :
    ¬ BootstrapAgrees termPrimitives alice bob [1] [1] [42] (sampleEncryptDraws 7)
      (Arr.fit 32 [8]) (fun _ => Arr.fit 32 [9]) .new .new "alice" "bob" := by
  have hs : commonSuite [1] [1] = some 1 := by decide
  rw [bootstrapAgrees_classical_iff termDh termKdf termAead termEdConversion hs (by decide) rfl]
  decide

end SCMessenger
