import SCMessenger.Message.Codec

/-!
# Wire formats

The encoders of `message/codec.rs`.  The formats are told apart by their first byte: a tag, the length of
the sender's key, or the version of a Drift envelope.
-/

namespace SCMessenger

def WireEnvelope.ephemeralPublicKey : WireEnvelope → Bytes
  | .v1 e => e.ephemeralPublicKey
  | .v2 e => e.ephemeralPublicKey

/-! ## Well-formed envelopes -/

def HasLength (field : Option Bytes) (n : Nat) : Prop := ∀ b, field = some b → b.length = n

/-- Every field has its length. -/
structure Envelope.WellFormed (e : Envelope) : Prop where
  sender : e.senderPublicKey.length = 32
  ephemeral : e.ephemeralPublicKey.length = 32
  nonce : e.nonce.length = 24
  ratchet : HasLength e.ratchetDhPublic 32

/-- Every field has its length. -/
structure EnvelopeV2.WellFormed (e : EnvelopeV2) : Prop where
  sender : e.senderPublicKey.length = 32
  ephemeral : e.ephemeralPublicKey.length = 32
  nonce : e.nonce.length = 24
  ratchet : HasLength e.ratchetDhPublic 32
  kem : HasLength e.pqKemCiphertext 1088
  key : HasLength e.pqEncapsKey 1184
  hash : HasLength e.transcriptHash 32

def WireEnvelope.WellFormed : WireEnvelope → Prop
  | .v1 e => e.WellFormed
  | .v2 e => e.WellFormed

def WireSignedEnvelope.WellFormed : WireSignedEnvelope → Prop
  | .v1 s => s.envelope.WellFormed ∧ s.signature.length = 64
  | .v2 s => s.envelope.WellFormed ∧ s.signature.length = 64

/-! ## The checks of the decoders -/

theorem checkLengths_eq_ok {ch : List (Nat × Nat × String)} :
    checkLengths ch = .ok () ↔ ∀ c ∈ ch, c.1 = c.2.1 := by
  induction ch with
  | nil => simp [checkLengths]
  | cons c ch ih =>
    obtain ⟨got, w, m⟩ := c
    by_cases h : got = w
    · simp [checkLengths, h, ih]
    · simp [checkLengths, h]

theorem lengthCheck_eq_ok {f : Option Bytes} {n : Nat} {m : String} :
    (∀ c ∈ lengthCheck f n m, c.1 = c.2.1) ↔ HasLength f n := by
  cases f with
  | none => simp [lengthCheck, HasLength]
  | some b => simp [lengthCheck, HasLength]

theorem checks_eq_ok_iff {v : String} {e : Envelope} {s : List (Nat × Nat × String)} :
    checkLengths (envelopeChecks v e ++ s ++ ratchetCheck e v) = .ok ()
      ↔ e.WellFormed ∧ ∀ c ∈ s, c.1 = c.2.1 := by
  rw [checkLengths_eq_ok]
  simp only [List.forall_mem_append, ratchetCheck, lengthCheck_eq_ok]
  constructor
  · rintro ⟨⟨hf, hs⟩, hr⟩
    simp only [envelopeChecks, List.forall_mem_cons] at hf
    exact ⟨⟨hf.1, hf.2.1, hf.2.2.1, hr⟩, hs⟩
  · rintro ⟨he, hs⟩
    refine ⟨⟨?_, hs⟩, he.ratchet⟩
    simp [envelopeChecks, he.sender, he.ephemeral, he.nonce]

theorem checksV2_eq_ok_iff {v : String} {e : EnvelopeV2} {s : List (Nat × Nat × String)} :
    checkLengths (envelopeV2Checks v e ++ s ++ optionalChecks v e) = .ok ()
      ↔ e.WellFormed ∧ ∀ c ∈ s, c.1 = c.2.1 := by
  rw [checkLengths_eq_ok]
  simp only [List.forall_mem_append, optionalChecks, lengthCheck_eq_ok]
  constructor
  · rintro ⟨⟨hf, hs⟩, ⟨⟨hr, hk⟩, hke⟩, hh⟩
    simp only [envelopeV2Checks, List.forall_mem_cons] at hf
    exact ⟨⟨hf.1, hf.2.1, hf.2.2.1, hr, hk, hke, hh⟩, hs⟩
  · rintro ⟨he, hs⟩
    refine ⟨⟨?_, hs⟩, ⟨⟨he.ratchet, he.kem⟩, he.key⟩, he.hash⟩
    simp [envelopeV2Checks, he.sender, he.ephemeral, he.nonce]

/-! ## The encoders -/

def WireEnvelope.serialize : WireEnvelope → Bytes
  | .v1 e => envelopeCodec.serialize e
  | .v2 e => wireTagV2 :: envelopeV2Codec.serialize e

def WireSignedEnvelope.serialize : WireSignedEnvelope → Bytes
  | .v1 s => signedEnvelopeCodec.serialize s
  | .v2 s => wireTagV2 :: signedEnvelopeV2Codec.serialize s

def encodeWireEnvelope (e : WireEnvelope) : Except CodecError Bytes :=
  if maxMessageSize < e.serialize.length then
    .error (.text (match e with
      | .v1 _ => "Encoded V1 envelope too large"
      | .v2 _ => "Encoded V2 envelope too large"))
  else .ok e.serialize

def encodeWireSignedEnvelope (s : WireSignedEnvelope) : Except CodecError Bytes :=
  if maxMessageSize < s.serialize.length then
    .error (.text (match s with
      | .v1 _ => "Encoded V1 signed envelope too large"
      | .v2 _ => "Encoded V2 signed envelope too large"))
  else .ok s.serialize

/-! ## Round trips -/

open Codec.FitsBelow in
theorem envelopeCodec_fitsBelow : envelopeCodec.FitsBelow maxMessageSize := by
  have hb : Codec.bytes.FitsBelow maxMessageSize := bytes (by decide)
  exact iso (pair hb (pair hb (pair hb (pair hb (pair (option hb) (option u32))))))

open Codec.FitsBelow in
theorem envelopeV2Codec_fitsBelow : envelopeV2Codec.FitsBelow maxMessageSize := by
  have hb : Codec.bytes.FitsBelow maxMessageSize := bytes (by decide)
  exact iso (pair u8 (pair hb (pair hb (pair hb (pair hb (pair (option hb)
    (pair (option u32) (pair (option hb) (pair (option hb) (option hb))))))))))

theorem Codec.FitsBelow.deserialize {α : Type} {c : Codec α} {n : Nat} (hc : c.FitsBelow n) {a : α}
    (ha : (c.serialize a).length ≤ n) : c.deserialize (c.serialize a) = some a :=
  c.deserialize_serialize_self (hc a ha)

theorem serialize_eq_cons {e : Envelope} (he : e.WellFormed) (r : Bytes) :
    ∃ t, envelopeCodec.serialize e ++ r = 0x20 :: t := by
  have hl : (Codec.uint 8).encode e.senderPublicKey.length = 0x20 :: leBytes 7 0 := by
    rw [he.sender]
    rfl
  have hs : Codec.bytes.encode e.senderPublicKey = 0x20 :: (leBytes 7 0 ++ e.senderPublicKey) := by
    show (Codec.uint 8).encode e.senderPublicKey.length ++ e.senderPublicKey = _
    rw [hl]
    rfl
  have hw : envelopeCodec.serialize e ++ r = Codec.bytes.encode e.senderPublicKey ++ _ :=
    List.append_assoc _ _ r
  rw [hw, hs]
  exact ⟨_, rfl⟩

theorem DriftEnvelope.fromBytes_of_tag {tag : UInt8} (ht : tag ≠ driftVersion) (lz4 : Lz4) (t : Bytes)
    (d : DriftEnvelope) : DriftEnvelope.fromBytes lz4 (tag :: t) ≠ .ok d := by
  have hf : byteAt (tag :: t) 0 = tag := rfl
  unfold fromBytes
  rw [hf, if_pos ht]
  split <;> nofun

section Decoding

variable {K : Type} (P : Primitives K) (lz4 : Lz4)

/-- **Round trip of envelopes.** -/
theorem decodeWireEnvelope_serialize {e : WireEnvelope} (he : e.WellFormed)
    (hs : e.serialize.length ≤ maxMessageSize) :
    decodeWireEnvelope P lz4 e.serialize = .ok e ∧ ∀ d, DriftEnvelope.fromBytes lz4 e.serialize ≠ .ok d := by
  cases e with
  | v1 e =>
    have hr := envelopeCodec_fitsBelow.deserialize hs
    have hc : checkLengths (envelopeChecks "" e ++ [] ++ ratchetCheck e "") = .ok () :=
      checks_eq_ok_iff.mpr ⟨he, nofun⟩
    rw [List.append_nil] at hc
    obtain ⟨t, ht⟩ := serialize_eq_cons he []
    rw [List.append_nil] at ht
    rw [WireEnvelope.serialize] at hs ⊢
    rw [ht] at hs hr ⊢
    refine ⟨?_, DriftEnvelope.fromBytes_of_tag (by decide) lz4 t⟩
    rw [decodeWireEnvelope, if_neg (Nat.not_lt.mpr hs), if_neg (by decide)]
    simp only [if_neg (show (0x20 : UInt8) ≠ wireTagV2 by decide), hr, hc]
    rfl
  | v2 e =>
    have hr := envelopeV2Codec_fitsBelow.deserialize (Nat.le_of_succ_le hs)
    have hc : checkLengths (envelopeV2Checks "" e ++ [] ++ optionalChecks "" e) = .ok () :=
      checksV2_eq_ok_iff.mpr ⟨he, nofun⟩
    rw [List.append_nil] at hc
    rw [WireEnvelope.serialize] at hs ⊢
    refine ⟨?_, DriftEnvelope.fromBytes_of_tag (by decide) lz4 _⟩
    rw [decodeWireEnvelope, if_neg (Nat.not_lt.mpr hs), if_neg (by decide)]
    simp only [if_pos, hr, hc]
    rfl

end Decoding

/-- **Round trip of signed envelopes.** -/
theorem decodeWireSignedEnvelope_serialize {s : WireSignedEnvelope} (hs : s.WellFormed)
    (hsi : s.serialize.length ≤ maxMessageSize) : decodeWireSignedEnvelope s.serialize = .ok s := by
  have hsg : ∀ (b : Bytes) (m : String), b.length = 64 →
      ∀ c ∈ [(b.length, 64, m)], c.1 = c.2.1 := by
    simp
  have hb : Codec.bytes.FitsBelow maxMessageSize := .bytes (by decide)
  cases s with
  | v1 s =>
    have hf : signedEnvelopeCodec.FitsBelow maxMessageSize := .iso (.pair envelopeCodec_fitsBelow hb)
    have hr := hf.deserialize hsi
    have hc := (checks_eq_ok_iff (v := "signed ")).mpr
      ⟨hs.1, hsg _ "Invalid V1 signed signature length" hs.2⟩
    obtain ⟨t, ht⟩ : ∃ t, signedEnvelopeCodec.serialize s = 0x20 :: t :=
      serialize_eq_cons hs.1 (Codec.bytes.encode s.signature)
    rw [WireSignedEnvelope.serialize] at hsi ⊢
    rw [ht] at hsi hr ⊢
    rw [decodeWireSignedEnvelope, if_neg (Nat.not_lt.mpr hsi)]
    simp only [if_neg (show (0x20 : UInt8) ≠ wireTagV2 by decide), hr, hc]
    rfl
  | v2 s =>
    have hf : signedEnvelopeV2Codec.FitsBelow maxMessageSize :=
      .iso (.pair envelopeV2Codec_fitsBelow hb)
    have hr := hf.deserialize (Nat.le_of_succ_le hsi)
    have hc := (checksV2_eq_ok_iff (v := "signed ")).mpr
      ⟨hs.1, hsg _ "Invalid V2 signature length" hs.2⟩
    rw [WireSignedEnvelope.serialize] at hsi ⊢
    rw [decodeWireSignedEnvelope, if_neg (Nat.not_lt.mpr hsi)]
    simp only [if_pos, hr, hc]
    rfl

/-- **The wire formats are not confused**: what is encoded is decoded in its own format, signed or not. -/
theorem wire_round_trip {K : Type} (P : Primitives K) (lz4 : Lz4) :
    (∀ e : WireEnvelope, e.WellFormed → e.serialize.length ≤ maxMessageSize →
      ∃ b, encodeWireEnvelope e = .ok b ∧ decodeWireEnvelope P lz4 b = .ok e
        ∧ ∀ d, DriftEnvelope.fromBytes lz4 b ≠ .ok d)
    ∧ ∀ s : WireSignedEnvelope, s.WellFormed → s.serialize.length ≤ maxMessageSize →
      ∃ b, encodeWireSignedEnvelope s = .ok b ∧ decodeWireSignedEnvelope b = .ok s := by
  constructor
  · intro e he hsi
    exact ⟨e.serialize, if_neg (Nat.not_lt.mpr hsi), decodeWireEnvelope_serialize P lz4 he hsi⟩
  · intro s hs hsi
    exact ⟨s.serialize, if_neg (Nat.not_lt.mpr hsi), decodeWireSignedEnvelope_serialize hs hsi⟩

end SCMessenger
