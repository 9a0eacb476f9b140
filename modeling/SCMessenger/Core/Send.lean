import SCMessenger.Core.Receive

/-!
# Preparing a message

`IronCore::prepare_message_internal`, from the recipient's text to the envelope handed to the Drift store
or the outbox.  What the world contributes to a call is its `PrepareEnv`.
-/

namespace SCMessenger

variable {K : Type} (P : Primitives K) (lib : Libraries)

/-- What `prepareMessage` hands to the transport. -/
structure PreparedMessage where
  messageId : String
  envelopeData : Bytes
deriving DecidableEq

/-- What the environment supplies to one preparation. -/
structure PrepareEnv where
  draws : EncryptDraws
  /-- the UUID drawn for the message -/
  messageId : Arr 16
  /-- the clock, in seconds -/
  now : UInt64
  /-- the clock, in milliseconds, when the message is queued -/
  nowMs : UInt64
  /-- the wrapping of onion routing, when it is enabled and relays are known -/
  onion : Option (Bytes → Except IronCoreError Bytes)
  /-- whether the routing decision is to store and carry -/
  storeAndCarry : Bool
  /-- whether the recipient is connected -/
  connected : Bool

def uuidText (id : Arr 16) : String :=
  let group (offset len : Nat) : String := hexEncode ((id.1.drop offset).take len)
  group 0 4 ++ "-" ++ group 4 2 ++ "-" ++ group 6 2 ++ "-" ++ group 8 2 ++ "-" ++ group 10 6

/-! ## The recipient -/

def knownByPubkey (contacts : ContactManager) (recipientId : String) : Bool :=
  ((contacts.get recipientId).toOption.join.or
    (contacts.getByPublicKey recipientId).toOption.join).isSome

/-- Whether 32 bytes are the hash of a contact's public key. -/
def isIdentityHash (contacts : ContactManager) (recipientPk : Arr 32) : Bool :=
  match contacts.list with
  | .error _ => false
  | .ok contacts => contacts.any fun contact =>
    match hexDecode contact.publicKey with
    | .error _ => false
    | .ok pkBytes => P.blake3 pkBytes == recipientPk

/-- The recipient's key, unless the text is malformed, all zeros, or the identity id of a contact. -/
def checkRecipient (contacts : ContactManager) (recipientId : String) :
    Except IronCoreError (Arr 32) :=
  match hexDecode recipientId with
  | .error _ => .error .invalidInput
  | .ok recipientBytes =>
    match Arr.ofBytes? 32 recipientBytes with
    | none => .error .invalidInput
    | some recipientPk =>
      if recipientPk.1.all (· == 0) then .error .invalidInput
      else if !knownByPubkey contacts recipientId && isIdentityHash P contacts recipientPk then
        .error .invalidInput
      else .ok recipientPk

/-! ## The call -/

def IronCore.encryptFor (core : IronCore K) (env : PrepareEnv) (keys : IdentityKeys)
    (recipientId : String) (recipientPk : Arr 32) (messageBytes : Bytes) :
    Except String WireEnvelope × IronCore K :=
  let sent := encryptWithRatchetFallback P env.draws
    { signingKey := keys.signingKey
      recipientBundle := (core.contactManager.getContactBundle recipientId).toOption.join
      recipientPublicKeyFallback := recipientPk
      ourBundle := some (signBundle P keys)
      ourX25519Secret := some keys.x25519EncryptionSecret
      requirePq := false }
    messageBytes (some core.ratchetSessions) recipientId (some core.auditLog)
  (sent.result, { core with
    ratchetSessions := sent.manager.getD core.ratchetSessions
    auditLog := sent.auditLog.getD core.auditLog })

def packEnvelope (env : PrepareEnv) (keys : IdentityKeys) (recipientPk : Arr 32)
    (wire : WireEnvelope) : Except IronCoreError Bytes :=
  let drift := match wire with
    | .v1 e => DriftEnvelope.fromLegacyEnvelope P e env.messageId recipientPk keys.signingKey env.now
    | .v2 e => DriftEnvelope.fromV2Envelope P e env.messageId recipientPk keys.signingKey env.now
  match drift with
  | .error _ => .error .internal
  | .ok driftEnv =>
    match driftEnv.toBytes lib.lz4 with
    | .error _ => .error .internal
    | .ok envelopeData =>
      match env.onion with
      | none => .ok envelopeData
      | some wrap => wrap envelopeData

def dispatchEffects (env : PrepareEnv) (recipientId : String) (envelopeData : Bytes) : List Effect :=
  if env.storeAndCarry then [.storeInDrift env.messageId envelopeData]
  else if env.connected then []
  else
    [.enqueue
      { version := 1
        messageId := uuidText env.messageId
        recipientId := recipientId
        envelopeData := envelopeData
        queuedAt := env.nowMs
        attempts := 0
        nextRetryAt := none
        inCustody := false
        custodyEstablishedAt := 0
        state := .enqueued }]

def IronCore.prepareMessage (core : IronCore K) (env : PrepareEnv) (recipientId content : String)
    (messageType : MessageType) : CoreStep K PreparedMessage :=
  match core.identity with
  | none => .fail core .notInitialized
  | some keys =>
    match checkRecipient P core.contactManager recipientId with
    | .error e => .fail core e
    | .ok recipientPk =>
      match encodeMessage
          { id := uuidText env.messageId
            senderId := keys.publicKeyHex P
            recipientId := recipientId
            messageType := messageType
            payload := content.toUTF8.data.toList
            timestamp := env.now } with
      | .error _ => .fail core .internal
      | .ok messageBytes =>
        match core.encryptFor P env keys recipientId recipientPk messageBytes with
        | (.error _, core') => .fail core' .cryptoError
        | (.ok wire, core') =>
          match packEnvelope P lib env keys recipientPk wire with
          | .error e => .fail core' e
          | .ok envelopeData =>
            ⟨.ok ⟨uuidText env.messageId, envelopeData⟩,
              { core' with auditLog := core'.auditLog
                  ++ [⟨.messageSent, some (keys.identityId P), some recipientId, none⟩] },
              dispatchEffects env recipientId envelopeData⟩

/-! ## What a call does to the sessions -/

/-- **Sessions after a preparation**: they stay, or are those an encryption leaves. -/
theorem prepareMessage_sessions (c : IronCore K) (env : PrepareEnv) (r co : String)
    (mt : MessageType) :
    (c.prepareMessage P lib env r co mt).core.ratchetSessions
        = c.ratchetSessions
    ∨ ∃ keys rp m,
      (c.prepareMessage P lib env r co mt).core.ratchetSessions
        = (c.encryptFor P env keys r rp m).2.ratchetSessions := by
  unfold IronCore.prepareMessage
  cases c.identity with
  | none => exact .inl rfl
  | some keys =>
  simp only
  cases checkRecipient P c.contactManager r with
  | error e => exact .inl rfl
  | ok rp =>
  simp only
  split
  · exact .inl rfl
  · rename_i m _
    refine .inr ⟨keys, rp, m, ?_⟩
    cases c.encryptFor P env keys r rp m with
    | mk re c' =>
    cases re with
    | error e => rfl
    | ok w =>
      simp only
      split <;> rfl

end SCMessenger
