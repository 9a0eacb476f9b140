import SCMessenger.Lib.TermModel

/-!
# Key bundles, suite negotiation and the hybrid KEM

What two peers agree on before a session exists (`crypto/negotiation.rs`, `crypto/pq/mod.rs`,
`crypto/pq/hybrid.rs`).
-/

namespace SCMessenger

variable {K : Type} (P : Primitives K)

def ascii (s : String) : Bytes := s.toList.map fun c => UInt8.ofNat c.toNat

/-! ## Bundles and identities -/

/-- The public keys and suites a peer publishes. -/
structure PublicKeyBundle where
  ed25519Public : Arr 32
  x25519Public : Arr 32
  mlkemEncapsKey : Bytes
  supportedSuites : Bytes

/-- An ML-KEM-768 keypair is determined by its seed. -/
structure MlKem768KeyPair where
  seed : Arr 64
deriving DecidableEq

def MlKem768KeyPair.publicKey (kp : MlKem768KeyPair) : Arr 1184 := P.mlkemPublic kp.seed

/-- The secret keys of an identity. -/
structure IdentityKeys where
  signingKey : Arr 32
  x25519EncryptionSecret : Arr 32
  mlkemKeypair : MlKem768KeyPair

def IdentityKeys.bundle (keys : IdentityKeys) (suites : Bytes) : PublicKeyBundle where
  ed25519Public := P.edPublic keys.signingKey
  x25519Public := P.x25519Public keys.x25519EncryptionSecret
  mlkemEncapsKey := (keys.mlkemKeypair.publicKey P).1
  supportedSuites := suites

def ed25519ToX25519Secret (signingKey : Arr 32) : Arr 32 :=
  Arr.fit 32 (P.sha512 signingKey.1).1

def ed25519PublicToX25519 (publicKey : Arr 32) : Except String (Arr 32) :=
  match P.edToMontgomery publicKey with
  | some montgomery => .ok montgomery
  | none => .error "Failed to decompress Ed25519 public key"

def EdConversion : Prop :=
  ∀ sk, P.edToMontgomery (P.edPublic sk) = some (P.x25519Public (ed25519ToX25519Secret P sk))

theorem termEdConversion : EdConversion termPrimitives := by
  intro sk
  have hl : 32 ≤ sk.1.length := sk.2.ge
  have hf : (Arr.fit 32 (Arr.fit 64 sk.1).1).1 = sk.1 := by
    have h := Arr.take_fit (n := 64) (m := 32) (b := sk.1) (by omega) hl
    rw [List.take_of_length_le sk.2.le] at h
    simp only [Arr.fit] at h ⊢
    rw [List.take_append_of_le_length (by simp), h]
  exact congrArg some (Subtype.ext hf.symm)

/-! ## Suite negotiation -/

def hybridSuiteIds : List UInt8 := [0x02, 0x03]

def commonSuite (ourSuites theirSuites : Bytes) : Option UInt8 :=
  (ourSuites.filter (· ∈ theirSuites)).max?

/-- The negotiated suite and the transcript hash over both offers, the initiator's first. -/
def negotiateSuite (ourSuites theirSuites : Bytes) (ourEd25519Pub theirEd25519Pub : Arr 32) :
    Except String (UInt8 × Arr 32) :=
  match commonSuite ourSuites theirSuites with
  | none => .error "Cryptographic error"
  | some suite =>
    let material := ourSuites ++ [0xFF] ++ theirSuites ++ [0xFF] ++ [suite]
      ++ ourEd25519Pub.1 ++ theirEd25519Pub.1
    .ok (suite, P.deriveBytes "iron-core suite-transcript v1" material)

theorem max_uint8 (a b : UInt8) : max a b = if a ≤ b then b else a := rfl

instance lawfulOrderMaxUInt8 : Std.LawfulOrderMax UInt8 where
  max_eq_or a b := by
    rw [max_uint8]
    split
    · exact .inr rfl
    · exact .inl rfl
  max_le_iff a b c := by
    rw [max_uint8]
    split <;> simp only [UInt8.le_iff_toNat_le] at * <;> omega

theorem commonSuite_eq_some {a b : Bytes} {s : UInt8} :
    commonSuite a b = some s ↔ (s ∈ a ∧ s ∈ b) ∧ ∀ t, t ∈ a → t ∈ b → t ≤ s := by
  simp [commonSuite, List.max?_eq_some_iff]

/-- **Negotiation is symmetric**: the suite does not depend on who starts. -/
theorem commonSuite_comm (a b : Bytes) : commonSuite a b = commonSuite b a := by
  ext s
  simp only [commonSuite_eq_some]
  constructor
  · rintro ⟨⟨ha, hb⟩, hm⟩
    exact ⟨⟨hb, ha⟩, fun t ht hta => hm t hta ht⟩
  · rintro ⟨⟨hb, ha⟩, hm⟩
    exact ⟨⟨ha, hb⟩, fun t hta ht => hm t ht hta⟩

theorem commonSuite_eq_none {a b : Bytes} : commonSuite a b = none ↔ ∀ s ∈ a, s ∉ b := by
  simp [commonSuite, List.max?_eq_none_iff, List.filter_eq_nil_iff]

/-! ## ML-KEM-768 -/

def encapsulate (encapsKey : Bytes) (encapRand : Arr 32) : Except String (Arr 1088 × K) :=
  match Arr.ofBytes? 1184 encapsKey with
  | none => .error s!"Invalid ML-KEM-768 public key length: expected 1184, got {encapsKey.length}"
  | some key => .ok (P.mlkemEncapsulate key encapRand)

/-- Decapsulate received ciphertext bytes, which must have the length of a ciphertext. -/
def decapsulate (keypair : MlKem768KeyPair) (ct : Bytes) : Except String K :=
  match Arr.ofBytes? 1088 ct with
  | none => .error s!"Invalid ML-KEM-768 ciphertext length: expected 1088, got {ct.length}"
  | some ctBytes => .ok (P.mlkemDecapsulate keypair.seed ctBytes)

/-! ## The hybrid KEM -/

/-- The ephemeral key and the ML-KEM ciphertext that bootstrap a hybrid session. -/
structure HybridCiphertext where
  x25519EphemeralPublic : Arr 32
  mlkemCiphertext : Bytes
deriving DecidableEq

def hybridSecret (ssX25519 ssMlkem : K) (ephemeralPublic x25519Public : Arr 32)
    (mlkemCiphertext mlkemEncapsKey : Bytes) : K :=
  P.deriveKey "iron-core hybrid-kem v1 X25519+MLKEM768 2026-07"
    [.secret ssX25519, .secret ssMlkem, .raw ephemeralPublic.1, .raw x25519Public.1,
      .raw mlkemCiphertext, .raw mlkemEncapsKey]

/-- Encapsulate to a bundle's keys, with the ephemeral secret and ML-KEM randomness drawn. -/
def hybridEncapsulate (theirX25519Public : Arr 32) (theirMlkemEncapsKey : Bytes)
    (ephemeralSecret encapRand : Arr 32) : Except String (HybridCiphertext × K) :=
  if theirMlkemEncapsKey.length ≠ 1184 then
    .error s!"Invalid ML-KEM-768 public key length: expected 1184, got {theirMlkemEncapsKey.length}"
  else
    let ephemeralPublic := P.x25519Public ephemeralSecret
    let ssX25519 := P.diffieHellman ephemeralSecret theirX25519Public
    if P.wasContributory ssX25519 = false then .error "X25519 all-zero shared secret"
    else
      match encapsulate P theirMlkemEncapsKey encapRand with
      | .error e => .error e
      | .ok (ct, ssMlkem) =>
        .ok (⟨ephemeralPublic, ct.1⟩,
          hybridSecret P ssX25519 ssMlkem ephemeralPublic theirX25519Public ct.1 theirMlkemEncapsKey)

def hybridDecapsulate (ourX25519Secret : Arr 32) (ourMlkemKeypair : MlKem768KeyPair)
    (ct : HybridCiphertext) : Except String K :=
  if ct.mlkemCiphertext.length ≠ 1088 then
    .error s!"Invalid ML-KEM-768 ciphertext length: expected 1088, got {ct.mlkemCiphertext.length}"
  else
    let ssX25519 := P.diffieHellman ourX25519Secret ct.x25519EphemeralPublic
    if P.wasContributory ssX25519 = false then .error "X25519 all-zero shared secret"
    else
      match decapsulate P ourMlkemKeypair ct.mlkemCiphertext with
      | .error e => .error e
      | .ok ssMlkem =>
        .ok (hybridSecret P ssX25519 ssMlkem ct.x25519EphemeralPublic (P.x25519Public ourX25519Secret)
          ct.mlkemCiphertext (ourMlkemKeypair.publicKey P).1)

variable {P}

theorem encapsulate_publicKey (kp : MlKem768KeyPair) (r : Arr 32) :
    encapsulate P (kp.publicKey P).1 r = .ok (P.mlkemEncapsulate (kp.publicKey P) r) := by
  simp [encapsulate]

theorem decapsulate_of_arr (kp : MlKem768KeyPair) (ct : Arr 1088) :
    decapsulate P kp ct.1 = .ok (P.mlkemDecapsulate kp.seed ct) := by
  simp [decapsulate]

/-- **The hybrid KEM is correct**: an identity decapsulates what was encapsulated to its bundle. -/
theorem hybridDecapsulate_encapsulate (hd : DhIdeal P) (hk : KemIdeal P) (x : Arr 32)
    (kp : MlKem768KeyPair) (eph r : Arr 32) :
    ∃ ss, hybridEncapsulate P (P.x25519Public x) (kp.publicKey P).1 eph r
        = .ok (⟨P.x25519Public eph, (P.mlkemEncapsulate (kp.publicKey P) r).1.1⟩, ss)
      ∧ hybridDecapsulate P x kp
          ⟨P.x25519Public eph, (P.mlkemEncapsulate (kp.publicKey P) r).1.1⟩ = .ok ss := by
  have hl : (kp.publicKey P).1.length = 1184 := (kp.publicKey P).2
  have hct : (P.mlkemEncapsulate (kp.publicKey P) r).1.1.length = 1088 :=
    (P.mlkemEncapsulate (kp.publicKey P) r).1.2
  have hs : P.mlkemDecapsulate kp.seed (P.mlkemEncapsulate (kp.publicKey P) r).1
      = (P.mlkemEncapsulate (kp.publicKey P) r).2 := hk.correct kp.seed r
  refine ⟨hybridSecret P (P.diffieHellman eph (P.x25519Public x))
    (P.mlkemEncapsulate (kp.publicKey P) r).2 (P.x25519Public eph) (P.x25519Public x)
    (P.mlkemEncapsulate (kp.publicKey P) r).1.1 (kp.publicKey P).1, ?_, ?_⟩
  · simp [hybridEncapsulate, hl, hd.contributory, encapsulate_publicKey]
  · simp [hybridDecapsulate, hct, hd.contributory, decapsulate_of_arr, hs, hd.comm x eph]

/-! ## Two identities over the term model -/

def sampleIdentity (x : UInt8) : IdentityKeys where
  signingKey := Arr.fit 32 [x, 1]
  x25519EncryptionSecret := Arr.fit 32 [x, 2]
  mlkemKeypair := ⟨Arr.fit 64 [x, 3]⟩

def alice : IdentityKeys := sampleIdentity 1
def bob : IdentityKeys := sampleIdentity 2

end SCMessenger
