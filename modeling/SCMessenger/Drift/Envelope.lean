import SCMessenger.Lib.Bincode
import SCMessenger.Lib.Outcome
import SCMessenger.Lib.Primitives
import SCMessenger.Message.Types

/-!
# The Drift envelope

The binary format of `drift/envelope.rs`, read at the offsets of the source.  LZ4 is a parameter; the texts
of errors from other libraries are cut after the source's own beginning.
-/

namespace SCMessenger

/-- The compression the format may use. -/
structure Lz4 where
  compress : Bytes → Bytes
  decompress : Bytes → Except String Bytes

inductive DriftError where
  | bufferTooShort (need got : Nat)
  | invalidEnvelopeType (value : UInt8)
  | ciphertextTooLarge (size : Nat)
  | invalidVersion (value : UInt8)
  | crcMismatch
  | decompressionFailed (reason : String)
  | invalidFrameType (value : UInt8)
  | timeout
  | ioError (reason : String)
deriving DecidableEq, Repr

def driftVersion : UInt8 := 0x01
def compressionThreshold : Nat := 256
def compressionFlag : UInt8 := 0x80

/-- What an envelope carries. -/
inductive EnvelopeType where
  | encryptedMessage
  | deliveryReceipt
  | syncRequest
  | syncResponse
  | peerAnnouncement
  | routeAdvertisement
  | coverTraffic
  | onionMessage
deriving DecidableEq, Repr

def EnvelopeType.asU8 : EnvelopeType → UInt8
  | .encryptedMessage => 0x01
  | .deliveryReceipt => 0x02
  | .syncRequest => 0x03
  | .syncResponse => 0x04
  | .peerAnnouncement => 0x05
  | .routeAdvertisement => 0x06
  | .coverTraffic => 0x07
  | .onionMessage => 0x08

def EnvelopeType.fromU8 (value : UInt8) : Except DriftError EnvelopeType :=
  if value = 0x01 then .ok .encryptedMessage
  else if value = 0x02 then .ok .deliveryReceipt
  else if value = 0x03 then .ok .syncRequest
  else if value = 0x04 then .ok .syncResponse
  else if value = 0x05 then .ok .peerAnnouncement
  else if value = 0x06 then .ok .routeAdvertisement
  else if value = 0x07 then .ok .coverTraffic
  else if value = 0x08 then .ok .onionMessage
  else .error (.invalidEnvelopeType value)

/-- An envelope of the mesh: header, sender's keys, signature and payload. -/
structure DriftEnvelope where
  version : UInt8
  envelopeType : EnvelopeType
  compressed : Bool
  messageId : Arr 16
  recipientHint : Arr 4
  createdAt : UInt32
  ttlExpiry : UInt32
  hopCount : UInt8
  priority : UInt8
  senderPublicKey : Arr 32
  ephemeralPublicKey : Arr 32
  nonce : Arr 24
  signature : Arr 64
  ciphertext : Bytes
  ratchetDhPublic : Option (Arr 32)
  ratchetMessageNumber : Option UInt32
  suite : Option UInt8
  pqKemCiphertext : Option Bytes
  pqEncapsKey : Option Bytes
  transcriptHash : Option Bytes
deriving DecidableEq

namespace DriftEnvelope

def fixedOverhead : Nat := 187
def maxCiphertext : Nat := 65535

/-! ## Writing -/

def typeByte (e : DriftEnvelope) : UInt8 :=
  e.envelopeType.asU8 ||| (if e.compressed then compressionFlag else 0)

def hasPqExtension (e : DriftEnvelope) : Bool :=
  e.suite.isSome || e.pqKemCiphertext.isSome || e.pqEncapsKey.isSome || e.transcriptHash.isSome

def blob (v : Option Bytes) : Bytes := leBytes 4 (v.getD []).length ++ v.getD []

def headerBytes (e : DriftEnvelope) : Bytes :=
  [e.version, e.typeByte] ++ e.messageId.1 ++ e.recipientHint.1 ++ leBytes 4 e.createdAt.toNat
    ++ leBytes 4 e.ttlExpiry.toNat ++ [e.hopCount, e.priority] ++ e.senderPublicKey.1
    ++ e.ephemeralPublicKey.1 ++ e.nonce.1

def ratchetBytes (e : DriftEnvelope) : Bytes :=
  match e.ratchetDhPublic with
  | some dhPublic => [0x01] ++ dhPublic.1 ++ leBytes 4 (e.ratchetMessageNumber.getD 0).toNat
  | none => [0x00]

def pqBytes (e : DriftEnvelope) : Bytes :=
  if e.hasPqExtension then
    [0x01, e.suite.getD 0x02] ++ blob e.pqKemCiphertext ++ blob e.pqEncapsKey ++ blob e.transcriptHash
  else []

def toBytes (lz4 : Lz4) (e : DriftEnvelope) : Except DriftError Bytes :=
  let ciphertext := if e.compressed then lz4.compress e.ciphertext else e.ciphertext
  if maxCiphertext < ciphertext.length then .error (.ciphertextTooLarge ciphertext.length)
  else .ok (e.headerBytes ++ e.signature.1 ++ leBytes 2 ciphertext.length ++ ciphertext
    ++ e.ratchetBytes ++ e.pqBytes)

/-! ## Reading -/

def byteAt (data : Bytes) (offset : Nat) : UInt8 := data.getD offset 0

def sliceAt (data : Bytes) (offset len : Nat) : Bytes := (data.drop offset).take len

def arrAt (data : Bytes) (offset n : Nat) : Arr n := Arr.fit n (data.drop offset)

def u32At (data : Bytes) (offset : Nat) : UInt32 := UInt32.ofNat (leNat (sliceAt data offset 4))

def readRatchet (data : Bytes) (offset : Nat) :
    Outcome DriftError ((Option (Arr 32) × Option UInt32) × Nat) :=
  if offset < data.length then
    let start := offset + 1
    if byteAt data offset = 0x01 then
      if start + 32 + 4 ≤ data.length then
        .ok ((some (arrAt data start 32), some (u32At data (start + 32))), start + 32 + 4)
      else .err (.bufferTooShort (start + 32 + 4) data.length)
    else .ok ((none, none), start)
  else .ok ((none, none), offset)

def readBlob (data : Bytes) (offset : Nat) : Outcome DriftError (Option Bytes × Nat) :=
  if data.length < offset + 4 then .err (.bufferTooShort (offset + 4) data.length)
  else
    let len := (u32At data offset).toNat
    let start := offset + 4
    if len = 0 then .ok (none, start)
    else if data.length < start + len then .err (.bufferTooShort (start + len) data.length)
    else .ok (some (sliceAt data start len), start + len)

/-- The optional fields behind the ciphertext. -/
structure PqExtension where
  suite : Option UInt8
  pqKemCiphertext : Option Bytes
  pqEncapsKey : Option Bytes
  transcriptHash : Option Bytes

def readPq (data : Bytes) (offset : Nat) : Outcome DriftError PqExtension :=
  if offset < data.length then
    if byteAt data offset = 0x01 then
      match data[offset + 1]? with
      | none => .panicked
      | some suite =>
        (readBlob data (offset + 2)).bind fun (kem, o₁) =>
        (readBlob data o₁).bind fun (key, o₂) =>
        (readBlob data o₂).bind fun (hash, _) =>
        .ok ⟨some suite, kem, key, hash⟩
    else .ok ⟨none, none, none, none⟩
  else .ok ⟨none, none, none, none⟩

def fromBytes (lz4 : Lz4) (data : Bytes) : Outcome DriftError DriftEnvelope :=
  if data.length < fixedOverhead then .err (.bufferTooShort fixedOverhead data.length)
  else if byteAt data 0 ≠ driftVersion then .err (.invalidVersion (byteAt data 0))
  else
    let compressed := (byteAt data 1 &&& compressionFlag) != 0
    match EnvelopeType.fromU8 (byteAt data 1 &&& ~~~compressionFlag) with
    | .error e => .err e
    | .ok envelopeType =>
      let ciphertextLen := leNat (sliceAt data 184 2)
      if data.length < 186 + ciphertextLen then
        .err (.bufferTooShort (186 + ciphertextLen) data.length)
      else
        let stored := sliceAt data 186 ciphertextLen
        match (if compressed then lz4.decompress stored else .ok stored) with
        | .error reason => .err (.decompressionFailed reason)
        | .ok ciphertext =>
          (readRatchet data (186 + ciphertextLen)).bind fun (ratchet, offset) =>
          (readPq data offset).bind fun pq =>
          .ok { version := byteAt data 0
                envelopeType := envelopeType
                compressed := compressed
                messageId := arrAt data 2 16
                recipientHint := arrAt data 18 4
                createdAt := u32At data 22
                ttlExpiry := u32At data 26
                hopCount := byteAt data 30
                priority := byteAt data 31
                senderPublicKey := arrAt data 32 32
                ephemeralPublicKey := arrAt data 64 32
                nonce := arrAt data 96 24
                signature := arrAt data 120 64
                ciphertext := ciphertext
                ratchetDhPublic := ratchet.1
                ratchetMessageNumber := ratchet.2
                suite := pq.suite
                pqKemCiphertext := pq.pqKemCiphertext
                pqEncapsKey := pq.pqEncapsKey
                transcriptHash := pq.transcriptHash }

/-! ## Envelopes of the two message formats -/

def toLegacyEnvelope (e : DriftEnvelope) : Envelope where
  senderPublicKey := e.senderPublicKey.1
  ephemeralPublicKey := e.ephemeralPublicKey.1
  nonce := e.nonce.1
  ciphertext := e.ciphertext
  ratchetDhPublic := e.ratchetDhPublic.map (·.1)
  ratchetMessageNumber := e.ratchetMessageNumber

def toWireEnvelope (e : DriftEnvelope) : WireEnvelope :=
  if e.hasPqExtension then
    .v2 { suite := e.suite.getD 0x02
          senderPublicKey := e.senderPublicKey.1
          ephemeralPublicKey := e.ephemeralPublicKey.1
          nonce := e.nonce.1
          ciphertext := e.ciphertext
          ratchetDhPublic := e.ratchetDhPublic.map (·.1)
          ratchetMessageNumber := e.ratchetMessageNumber
          pqKemCiphertext := e.pqKemCiphertext
          pqEncapsKey := e.pqEncapsKey
          transcriptHash := e.transcriptHash }
  else .v1 e.toLegacyEnvelope

theorem toWireEnvelope_senderPublicKey (e : DriftEnvelope) :
    e.toWireEnvelope.senderPublicKey = e.senderPublicKey.1 := by
  unfold toWireEnvelope
  split
  · rfl
  · rfl

section Signing

variable {K : Type} (P : Primitives K)

def hintFromPublicKey (publicKey : Arr 32) : Arr 4 := Arr.fit 4 (P.blake3 publicKey.1).1

def signingHash (e : DriftEnvelope) : Arr 32 :=
  P.blake3 (e.headerBytes ++ leBytes 2 e.ciphertext.length ++ e.ciphertext ++ e.ratchetBytes
    ++ e.pqBytes)

def sign (signingKey : Arr 32) (e : DriftEnvelope) : Arr 64 :=
  P.edSign signingKey (e.signingHash P).1

def verify (e : DriftEnvelope) : Except DriftError Unit :=
  if P.edKeyValid e.senderPublicKey = false then .error (.ioError "Invalid sender public key")
  else if P.edVerify e.senderPublicKey (e.signingHash P).1 e.signature = false then
    .error (.ioError "Signature verification failed")
  else .ok ()

def defaultTtl : UInt32 := 604800

def wrap (messageId : Arr 16) (recipientPublicKey : Arr 32) (now : UInt64)
    (senderPublicKey ephemeralPublicKey nonce ciphertext : Bytes) (ratchetDhPublic : Option Bytes)
    (ratchetMessageNumber : Option UInt32) : Except DriftError DriftEnvelope :=
  match Arr.ofBytes? 32 senderPublicKey, Arr.ofBytes? 32 ephemeralPublicKey, Arr.ofBytes? 24 nonce with
  | none, _, _ => .error (.ioError "Invalid sender public key length")
  | some _, none, _ => .error (.ioError "Invalid ephemeral public key length")
  | some _, some _, none => .error (.ioError "Invalid nonce length")
  | some sender, some ephemeral, some nonce =>
    match ratchetDhPublic.map (Arr.ofBytes? 32) with
    | some none => .error (.ioError "Invalid ratchet_dh_public length")
    | dh =>
      .ok { version := driftVersion
            envelopeType := .encryptedMessage
            compressed := compressionThreshold < ciphertext.length
            messageId := messageId
            recipientHint := hintFromPublicKey P recipientPublicKey
            createdAt := now.toUInt32
            ttlExpiry := now.toUInt32 + defaultTtl
            hopCount := 0
            priority := 128
            senderPublicKey := sender
            ephemeralPublicKey := ephemeral
            nonce := nonce
            signature := Arr.fit 64 []
            ciphertext := ciphertext
            ratchetDhPublic := dh.join
            ratchetMessageNumber := ratchetMessageNumber
            suite := none
            pqKemCiphertext := none
            pqEncapsKey := none
            transcriptHash := none }

/-- Wrap and sign an envelope of the first format.  The message id is the parsed UUID. -/
def fromLegacyEnvelope (legacy : Envelope) (messageId : Arr 16) (recipientPublicKey signingKey : Arr 32)
    (now : UInt64) : Except DriftError DriftEnvelope :=
  (wrap P messageId recipientPublicKey now legacy.senderPublicKey legacy.ephemeralPublicKey legacy.nonce
    legacy.ciphertext legacy.ratchetDhPublic legacy.ratchetMessageNumber).map fun e =>
    { e with signature := e.sign P signingKey }

def fromV2Envelope (v2 : EnvelopeV2) (messageId : Arr 16) (recipientPublicKey signingKey : Arr 32)
    (now : UInt64) : Except DriftError DriftEnvelope :=
  (wrap P messageId recipientPublicKey now v2.senderPublicKey v2.ephemeralPublicKey v2.nonce
    v2.ciphertext v2.ratchetDhPublic v2.ratchetMessageNumber).map fun e =>
    let e' := { e with
      suite := some v2.suite
      pqKemCiphertext := v2.pqKemCiphertext
      pqEncapsKey := v2.pqEncapsKey
      transcriptHash := v2.transcriptHash }
    { e' with signature := e'.sign P signingKey }

end Signing

end DriftEnvelope

end SCMessenger
