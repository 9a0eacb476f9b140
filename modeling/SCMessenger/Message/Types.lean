import SCMessenger.Lib.Bytes

/-!
# Messages and envelopes

The data of `message/types.rs`.  Byte fields are unchecked vectors, as they come off the wire.
-/

namespace SCMessenger

inductive MessageType where
  | text
  | receipt
  | onionRelay
deriving DecidableEq, Repr

inductive DeliveryStatus where
  | sent
  | delivered
  | read
  | failed
deriving DecidableEq, Repr

/-- A plaintext message; `senderId` is what its author put there. -/
structure Message where
  id : String
  senderId : String
  recipientId : String
  messageType : MessageType
  payload : Bytes
  timestamp : UInt64
deriving DecidableEq, Repr

/-- A receipt for a message. -/
structure Receipt where
  messageId : String
  status : DeliveryStatus
  timestamp : UInt64
deriving DecidableEq, Repr

/-- The first envelope format. -/
structure Envelope where
  senderPublicKey : Bytes
  ephemeralPublicKey : Bytes
  nonce : Bytes
  ciphertext : Bytes
  ratchetDhPublic : Option Bytes
  ratchetMessageNumber : Option UInt32
deriving DecidableEq, Repr

structure SignedEnvelope where
  envelope : Envelope
  signature : Bytes
deriving DecidableEq, Repr

/-- The envelope format of hybrid sessions. -/
structure EnvelopeV2 where
  suite : UInt8
  senderPublicKey : Bytes
  ephemeralPublicKey : Bytes
  nonce : Bytes
  ciphertext : Bytes
  ratchetDhPublic : Option Bytes
  ratchetMessageNumber : Option UInt32
  pqKemCiphertext : Option Bytes
  pqEncapsKey : Option Bytes
  transcriptHash : Option Bytes
deriving DecidableEq, Repr

structure SignedEnvelopeV2 where
  envelope : EnvelopeV2
  signature : Bytes
deriving DecidableEq, Repr

/-- An envelope of either format. -/
inductive WireEnvelope where
  | v1 (envelope : Envelope)
  | v2 (envelope : EnvelopeV2)
deriving DecidableEq, Repr

def isRatchetedEnvelope (envelope : Envelope) : Bool :=
  envelope.ratchetDhPublic.isSome && envelope.ratchetMessageNumber.isSome

namespace WireEnvelope

def senderPublicKey : WireEnvelope → Bytes
  | .v1 e => e.senderPublicKey
  | .v2 e => e.senderPublicKey

def ratchetDhPublic : WireEnvelope → Option Bytes
  | .v1 e => e.ratchetDhPublic
  | .v2 e => e.ratchetDhPublic

def ratchetMessageNumber : WireEnvelope → Option UInt32
  | .v1 e => e.ratchetMessageNumber
  | .v2 e => e.ratchetMessageNumber

def nonce : WireEnvelope → Bytes
  | .v1 e => e.nonce
  | .v2 e => e.nonce

def ciphertext : WireEnvelope → Bytes
  | .v1 e => e.ciphertext
  | .v2 e => e.ciphertext

def isRatcheted (e : WireEnvelope) : Bool :=
  e.ratchetDhPublic.isSome && e.ratchetMessageNumber.isSome

end WireEnvelope

end SCMessenger
