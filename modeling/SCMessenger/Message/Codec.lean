import SCMessenger.Drift.Envelope

/-!
# The message codec

The functions of `message/codec.rs` that read messages and envelopes, with their length checks, and the
signature checks of `crypto/encrypt.rs`.
-/

namespace SCMessenger

def maxMessageSize : Nat := 256 * 1024
def maxPayloadSize : Nat := 8 * 1024
def wireTagV2 : UInt8 := 0x02

/-- Why a codec function fails: with a text of its own, or inside bincode. -/
inductive CodecError where
  | text (message : String)
  | bincode
deriving DecidableEq, Repr

/-! ## Formats -/

def messageTypeCodec : Codec MessageType :=
  .variant (fun t => match t with | .text => 0 | .receipt => 1 | .onionRelay => 2)
    (fun n => match n with | 0 => some .text | 1 => some .receipt | 2 => some .onionRelay | _ => none)
    (fun t => by cases t <;> rfl)

def messageCodec : Codec Message :=
  (Codec.string.pair (Codec.string.pair (Codec.string.pair (messageTypeCodec.pair
      (Codec.bytes.pair Codec.u64))))).iso
    (fun (id, sender, recipient, type, payload, time) => ⟨id, sender, recipient, type, payload, time⟩)
    (fun m => (m.id, m.senderId, m.recipientId, m.messageType, m.payload, m.timestamp))
    (fun _ => rfl)

def envelopeCodec : Codec Envelope :=
  (Codec.bytes.pair (Codec.bytes.pair (Codec.bytes.pair (Codec.bytes.pair
      (Codec.bytes.option.pair Codec.u32.option))))).iso
    (fun (sender, ephemeral, nonce, ct, dh, n) => ⟨sender, ephemeral, nonce, ct, dh, n⟩)
    (fun e => (e.senderPublicKey, e.ephemeralPublicKey, e.nonce, e.ciphertext, e.ratchetDhPublic,
      e.ratchetMessageNumber))
    (fun _ => rfl)

def signedEnvelopeCodec : Codec SignedEnvelope :=
  (envelopeCodec.pair Codec.bytes).iso (fun (e, s) => ⟨e, s⟩) (fun s => (s.envelope, s.signature))
    (fun _ => rfl)

def envelopeV2Codec : Codec EnvelopeV2 :=
  (Codec.u8.pair (Codec.bytes.pair (Codec.bytes.pair (Codec.bytes.pair (Codec.bytes.pair
      (Codec.bytes.option.pair (Codec.u32.option.pair (Codec.bytes.option.pair
        (Codec.bytes.option.pair Codec.bytes.option))))))))).iso
    (fun (suite, sender, ephemeral, nonce, ct, dh, n, kem, key, hash) =>
      ⟨suite, sender, ephemeral, nonce, ct, dh, n, kem, key, hash⟩)
    (fun e => (e.suite, e.senderPublicKey, e.ephemeralPublicKey, e.nonce, e.ciphertext,
      e.ratchetDhPublic, e.ratchetMessageNumber, e.pqKemCiphertext, e.pqEncapsKey, e.transcriptHash))
    (fun _ => rfl)

def signedEnvelopeV2Codec : Codec SignedEnvelopeV2 :=
  (envelopeV2Codec.pair Codec.bytes).iso (fun (e, s) => ⟨e, s⟩) (fun s => (s.envelope, s.signature))
    (fun _ => rfl)

/-! ## Messages -/

def validatePayloadSize (payload : Bytes) : Except CodecError Unit :=
  if maxPayloadSize < payload.length then
    .error (.text s!"Payload too large: {payload.length} bytes (max {maxPayloadSize})")
  else .ok ()

def encodeMessage (msg : Message) : Except CodecError Bytes :=
  match validatePayloadSize msg.payload with
  | .error e => .error e
  | .ok () =>
    let bytes := messageCodec.serialize msg
    if maxMessageSize < bytes.length then
      .error (.text s!"Encoded message too large: {bytes.length} bytes (max {maxMessageSize})")
    else .ok bytes

def decodeMessage (bytes : Bytes) : Except CodecError Message :=
  if maxMessageSize < bytes.length then
    .error (.text s!"Message too large: {bytes.length} bytes (max {maxMessageSize})")
  else
    match messageCodec.deserialize bytes with
    | some msg => .ok msg
    | none => .error .bincode

/-! ## Envelopes -/

/-- A signed envelope of either format. -/
inductive WireSignedEnvelope where
  | v1 (signed : SignedEnvelope)
  | v2 (signed : SignedEnvelopeV2)
deriving DecidableEq

def checkLengths : List (Nat × Nat × String) → Except CodecError Unit
  | [] => .ok ()
  | (got, want, message) :: rest =>
    if got ≠ want then .error (.text message) else checkLengths rest

def lengthCheck (field : Option Bytes) (want : Nat) (message : String) : List (Nat × Nat × String) :=
  match field with
  | some b => [(b.length, want, message)]
  | none => []

def envelopeChecks (v : String) (e : Envelope) : List (Nat × Nat × String) :=
  [(e.senderPublicKey.length, 32, "Invalid V1 " ++ v ++ "sender public key length"),
   (e.ephemeralPublicKey.length, 32, "Invalid V1 " ++ v ++ "ephemeral public key length"),
   (e.nonce.length, 24, "Invalid V1 " ++ v ++ "nonce length")]

def envelopeV2Checks (v : String) (e : EnvelopeV2) : List (Nat × Nat × String) :=
  [(e.senderPublicKey.length, 32, "Invalid V2 " ++ v ++ "sender public key length"),
   (e.ephemeralPublicKey.length, 32, "Invalid V2 " ++ v ++ "ephemeral public key length"),
   (e.nonce.length, 24, "Invalid V2 " ++ v ++ "nonce length")]

def ratchetCheck (e : Envelope) (v : String) : List (Nat × Nat × String) :=
  lengthCheck e.ratchetDhPublic 32 ("Invalid V1 " ++ v ++ "ratchet DH public key length")

def optionalChecks (v : String) (e : EnvelopeV2) : List (Nat × Nat × String) :=
  lengthCheck e.ratchetDhPublic 32 ("Invalid V2 " ++ v ++ "ratchet DH public key length")
    ++ lengthCheck e.pqKemCiphertext 1088 ("Invalid V2 " ++ v ++ "PQ KEM ciphertext length")
    ++ lengthCheck e.pqEncapsKey 1184 ("Invalid V2 " ++ v ++ "PQ encapsulation key length")
    ++ lengthCheck e.transcriptHash 32 ("Invalid V2 " ++ v ++ "transcript hash length")

def decodeWireSignedEnvelope (buf : Bytes) : Except CodecError WireSignedEnvelope :=
  match buf with
  | [] => .error (.text "Empty signed envelope buffer")
  | tag :: rest =>
    if maxMessageSize < buf.length then .error (.text "Signed envelope buffer too large")
    else
      -- a buffer that does not parse in the second format is tried in the first as a whole
      match (if tag = wireTagV2 then signedEnvelopeV2Codec.deserialize rest else none) with
      | some signed =>
        (checkLengths (envelopeV2Checks "signed " signed.envelope
          ++ [(signed.signature.length, 64, "Invalid V2 signature length")]
          ++ optionalChecks "signed " signed.envelope)).map fun _ => .v2 signed
      | none =>
        match signedEnvelopeCodec.deserialize buf with
        | none => .error .bincode
        | some signed =>
          (checkLengths (envelopeChecks "signed " signed.envelope
            ++ [(signed.signature.length, 64, "Invalid V1 signed signature length")]
            ++ ratchetCheck signed.envelope "signed ")).map fun _ => .v1 signed

section Verification

variable {K : Type} (P : Primitives K) (lz4 : Lz4)

/-- Decode an envelope of any format; only the Drift format carries a signature here. -/
def decodeWireEnvelope (buf : Bytes) : Outcome CodecError WireEnvelope :=
  match buf with
  | [] => .err (.text "Empty envelope buffer")
  | tag :: rest =>
    if maxMessageSize < buf.length then .err (.text "Envelope buffer too large")
    else
      let others : Outcome CodecError WireEnvelope :=
        match (if tag = wireTagV2 then envelopeV2Codec.deserialize rest else none) with
        | some e => .ofExcept ((checkLengths (envelopeV2Checks "" e ++ optionalChecks "" e)).map
            fun _ => .v2 e)
        | none =>
          match envelopeCodec.deserialize buf with
          | none => .err .bincode
          | some e => .ofExcept ((checkLengths (envelopeChecks "" e ++ ratchetCheck e "")).map
              fun _ => .v1 e)
      if tag = driftVersion then
        match DriftEnvelope.fromBytes lz4 buf with
        | .panicked => .panicked
        | .err _ => others
        | .ok e =>
          match e.verify P with
          | .error _ => .err (.text "Drift envelope signature verification failed")
          | .ok () => .ok e.toWireEnvelope
      else others

def verifySignature (publicKey signature signed : Bytes)
    (keyLength signatureLength failed : String) : Except String Unit :=
  match Arr.ofBytes? 32 publicKey with
  | none => .error keyLength
  | some key =>
    if P.edKeyValid key = false then .error "Invalid sender public key"
    else
      match Arr.ofBytes? 64 signature with
      | none => .error signatureLength
      | some sig =>
        if P.edVerify key signed sig = false then .error failed else .ok ()

def verifyEnvelope (s : SignedEnvelope) : Except String Unit :=
  verifySignature P s.envelope.senderPublicKey s.signature (envelopeCodec.serialize s.envelope)
    "Invalid sender public key length" "Invalid signature length" "Signature verification failed"

/-- The signature of an envelope of the second format, over its tagged serialization. -/
def verifyEnvelopeV2 (s : SignedEnvelopeV2) : Except String Unit :=
  verifySignature P s.envelope.senderPublicKey s.signature
    (wireTagV2 :: envelopeV2Codec.serialize s.envelope)
    "Invalid sender public key length in V2 envelope" "Invalid V2 signature length"
    "V2 signature verification failed"

variable {P}

theorem verifySignature_ok {p s si : Bytes} {t₁ t₂ t₃ : String}
    (h : verifySignature P p s si t₁ t₂ t₃ = .ok ()) :
    ∃ (key : Arr 32) (sig : Arr 64), p = key.1 ∧ s = sig.1
      ∧ P.edKeyValid key = true ∧ P.edVerify key si sig = true := by
  unfold verifySignature at h
  cases hk : Arr.ofBytes? 32 p with
  | none => simp [hk] at h
  | some key =>
    cases hs : Arr.ofBytes? 64 s with
    | none =>
      simp only [hk, hs] at h
      split at h <;> cases h
    | some sig =>
      simp only [hk, hs] at h
      split at h
      · cases h
      · rename_i hv
        split at h
        · cases h
        · rename_i hve
          refine ⟨key, sig, Arr.ofBytes?_eq_some.mp hk, Arr.ofBytes?_eq_some.mp hs, ?_, ?_⟩
          · simpa using hv
          · simpa using hve

end Verification

end SCMessenger
