import SCMessenger.Crypto.SessionManager
import SCMessenger.Message.Codec
import SCMessenger.Store.Inbox
import SCMessenger.Store.Outbox

/-!
# The state of a node

`IronCore` (`iron_core.rs`) as far as sending and receiving read or change it.  Calls into components that
never influence the result are listed as effects, in the order they are made.
-/

namespace SCMessenger

inductive IronCoreError where
  | notInitialized
  | alreadyRunning
  | storageError
  | cryptoError
  | networkError
  | invalidInput
  | blocked
  | consentRequired
  | internal
  | corruptionDetected
  | dialSelf
  | noAddresses
  | connectionLimit
  | multiaddrNotSupported
  | ioError
  | onionRoutingDisabled
deriving DecidableEq, Repr

/-! ## Identities -/

section Identity

variable {K : Type} (P : Primitives K)

def publicKeyPrefix : String := "pk:"

def isValidPublicKey (hexStr : String) : Bool :=
  if hexStr.utf8ByteSize ≠ 64 ∨ hexStr.toList.all (fun c => c.isDigit || ('a' ≤ c && c ≤ 'f')
      || ('A' ≤ c && c ≤ 'F')) = false then false
  else
    match hexDecode hexStr with
    | .error _ => false
    | .ok bytes =>
      match Arr.ofBytes? 32 bytes with
      | none => false
      | some key => P.edKeyValid key

def identityIdFromPublicKeyHex (publicKeyHex : String) : Option String :=
  if isValidPublicKey P publicKeyHex = false then none
  else
    match hexDecode publicKeyHex with
    | .error _ => none
    | .ok bytes => some (hexEncode (P.blake3 bytes).1)

def identityIdOf (publicKey : Bytes) : String := hexEncode (P.blake3 publicKey).1

theorem identityIdFromPublicKeyHex_hexEncode {pk : Bytes} {id : String}
    (h : identityIdFromPublicKeyHex P (hexEncode pk) = some id) : id = identityIdOf P pk := by
  unfold identityIdFromPublicKeyHex at h
  split at h
  · cases h
  · rw [hexDecode_hexEncode] at h
    exact (Option.some.inj h).symm

def IdentityKeys.publicKeyHex (keys : IdentityKeys) : String := hexEncode (P.edPublic keys.signingKey).1

def IdentityKeys.identityId (keys : IdentityKeys) : String :=
  identityIdOf P (P.edPublic keys.signingKey).1

def advertisedSuites : Bytes := [0x01, 0x03]

def signBundle (keys : IdentityKeys) : PublicKeyBundle := keys.bundle P advertisedSuites

end Identity

/-! ## Stores that are read -/

/-- The fields of a contact that sending and receiving read. -/
structure Contact where
  peerId : String
  publicKey : String
  lastKnownDeviceId : Option String
deriving DecidableEq, Repr

/-- The answers of the contact store. -/
structure ContactManager where
  get : String → Except IronCoreError (Option Contact)
  getByPublicKey : String → Except IronCoreError (Option Contact)
  list : Except IronCoreError (List Contact)
  getContactBundle : String → Except IronCoreError (Option PublicKeyBundle)

/-- The answers of the block store. -/
structure BlockedManager where
  isBlockedAndDeletedResolved : String → Except IronCoreError Bool
  isBlockedResolved : String → Option String → Except IronCoreError Bool

/-! ## The node -/

/-- A call into a component outside the model. -/
inductive Effect where
  | onMessageReceived (senderId senderPublicKeyHex messageId : String) (senderTimestamp : UInt64)
      (data : Bytes)
  | onReceiptReceived (messageId status : String)
  | markMessageSent (messageId : String)
  | enqueue (message : QueuedMessage)
  | storeInDrift (messageId : Arr 16) (envelopeData : Bytes)
deriving DecidableEq

/-- The part of the core that sending and receiving read and write. -/
structure IronCore (K : Type) where
  identity : Option IdentityKeys
  ratchetSessions : RatchetSessionManager K
  contactManager : ContactManager
  blockedManager : BlockedManager
  inbox : Inbox
  historyManager : HistoryManager
  auditLog : List AuditEvent
  /-- whether a delegate is set -/
  delegate : Bool

/-- The libraries the node decodes with. -/
structure Libraries where
  lz4 : Lz4
  decodeReceipt : Bytes → Option Receipt

end SCMessenger
