import SCMessenger.Core.State
import SCMessenger.Crypto.Recovery

/-!
# Receiving a message

`IronCore::receive_message`: bytes are decoded in one of three formats, verified and decrypted, and the
message is checked against the block store, recorded and handed to the delegate.
-/

namespace SCMessenger

variable {K : Type} (P : Primitives K) (lib : Libraries)

/-! ## Ingress -/

/-- Decode an incoming envelope and verify its signature. -/
def ingress (envelopeData : Bytes) : Outcome IronCoreError WireEnvelope :=
  if envelopeData.head? = some driftVersion then
    match DriftEnvelope.fromBytes lib.lz4 envelopeData with
    | .panicked => .panicked
    | .err _ => .err .cryptoError
    | .ok driftEnv =>
      match driftEnv.verify P with
      | .error _ => .err .cryptoError
      | .ok () => .ok driftEnv.toWireEnvelope
  else
    match decodeWireSignedEnvelope envelopeData with
    | .ok (.v1 s1) =>
      match verifyEnvelope P s1 with
      | .error _ => .err .cryptoError
      | .ok () => .ok (.v1 s1.envelope)
    | .ok (.v2 s2) =>
      match verifyEnvelopeV2 P s2 with
      | .error _ => .err .cryptoError
      | .ok () => .ok (.v2 s2.envelope)
    | .error _ =>
      match decodeWireEnvelope P lib.lz4 envelopeData with
      | .panicked => .panicked
      | .err _ => .err .cryptoError
      | .ok _ => .err .cryptoError

/-- The bytes carry the envelope `wire` with a signature over it that verifies under `pk`. -/
inductive Authenticated (data : Bytes) : WireEnvelope → Arr 32 → Prop
  | drift (e : DriftEnvelope) (hv : data.head? = some driftVersion)
      (hd : DriftEnvelope.fromBytes lib.lz4 data = .ok e) (hk : P.edKeyValid e.senderPublicKey = true)
      (hs : P.edVerify e.senderPublicKey (e.signingHash P).1 e.signature = true) :
      Authenticated data e.toWireEnvelope e.senderPublicKey
  | v1 (s : SignedEnvelope) (pk : Arr 32) (sig : Arr 64) (hv : data.head? ≠ some driftVersion)
      (hd : decodeWireSignedEnvelope data = .ok (.v1 s)) (hpk : s.envelope.senderPublicKey = pk.1)
      (hsig : s.signature = sig.1) (hk : P.edKeyValid pk = true)
      (hs : P.edVerify pk (envelopeCodec.serialize s.envelope) sig = true) :
      Authenticated data (.v1 s.envelope) pk
  | v2 (s : SignedEnvelopeV2) (pk : Arr 32) (sig : Arr 64) (hv : data.head? ≠ some driftVersion)
      (hd : decodeWireSignedEnvelope data = .ok (.v2 s)) (hpk : s.envelope.senderPublicKey = pk.1)
      (hsig : s.signature = sig.1) (hk : P.edKeyValid pk = true)
      (hs : P.edVerify pk (wireTagV2 :: envelopeV2Codec.serialize s.envelope) sig = true) :
      Authenticated data (.v2 s.envelope) pk

/-! ## The call -/

/-- What the environment supplies to one call: draws, the clock, and the iteration order of sets. -/
structure ReceiveEnv where
  draws : ReceiveDraws
  now : UInt64
  iterate : List (Arr 32) → List (Arr 32)

def senderDeviceId (contacts : ContactManager) : List String → Except IronCoreError (Option String)
  | [] => .ok none
  | identifier :: rest =>
    match contacts.get identifier with
    | .ok (some contact) => .ok contact.lastKnownDeviceId
    | .ok none => senderDeviceId contacts rest
    | .error e => .error e

def receiptEffects (core : IronCore K) (payload : Bytes) : List Effect :=
  match lib.decodeReceipt payload with
  | none => []
  | some receipt =>
    let statusStr := match receipt.status with
      | .sent => "Sent"
      | _ => "Delivered"
    (if core.delegate then [.onReceiptReceived receipt.messageId statusStr] else [])
      ++ (match receipt.status with
        | .delivered | .read => [.markMessageSent receipt.messageId]
        | _ => [])

def IronCore.record (core : IronCore K) (env : ReceiveEnv) (senderPubkey : Bytes)
    (canonicalPeerId : String) (anyBlocked : Bool) (message : Message) : IronCore K :=
  { core with
    inbox :=
      if core.inbox.isDuplicate P message.id then core.inbox
      else (core.inbox.receive P env.iterate
        { version := 1
          messageId := message.id
          senderId := canonicalPeerId
          payload := message.payload
          receivedAt := env.now
          senderPublicKeyHex := some (hexEncode senderPubkey) }).2
    historyManager := core.historyManager.add
      { id := message.id
        direction := .received
        peerId := canonicalPeerId
        content := (String.fromUTF8? (ByteArray.mk message.payload.toArray)).getD ""
        timestamp := message.timestamp
        senderTimestamp := message.timestamp
        delivered := true
        hidden := anyBlocked }
    auditLog := core.auditLog ++ [⟨.messageReceived, core.identity.map (·.identityId P),
      some canonicalPeerId, none⟩] }

def deliveryEffects (core : IronCore K) (message : Message) : List Effect :=
  if core.delegate then
    [.onMessageReceived message.senderId message.senderId message.id message.timestamp message.payload]
  else []

/-- The result of a call: what it returns, the node after it, and the calls it made. -/
structure CoreStep (K : Type) (α : Type) where
  result : Outcome IronCoreError α
  core : IronCore K
  effects : List Effect

def CoreStep.fail {α : Type} (core : IronCore K) (e : IronCoreError) : CoreStep K α :=
  ⟨.err e, core, []⟩

def IronCore.deliver (core : IronCore K) (env : ReceiveEnv) (senderPubkey plaintext : Bytes) :
    CoreStep K Message :=
  match decodeMessage plaintext with
  | .error _ => .fail core .internal
  | .ok message =>
    let senderPublicKeyHex := hexEncode senderPubkey
    match identityIdFromPublicKeyHex P senderPublicKeyHex with
    | none => .fail core .cryptoError
    | some canonicalPeerId =>
      match senderDeviceId core.contactManager [senderPublicKeyHex, canonicalPeerId] with
      | .error e => .fail core e
      | .ok deviceId =>
        let authenticatedSenderKey := publicKeyPrefix ++ senderPublicKeyHex
        match core.blockedManager.isBlockedAndDeletedResolved authenticatedSenderKey with
        | .ok true => .fail core .blocked
        | .error _ => .fail core .blocked
        | .ok false =>
          let anyBlocked := match core.blockedManager.isBlockedResolved authenticatedSenderKey deviceId with
            | .ok blocked => blocked
            | .error _ => true
          if message.messageType = .receipt then
            ⟨.ok message, core, receiptEffects lib core message.payload⟩
          else
            ⟨.ok message, core.record P env senderPubkey canonicalPeerId anyBlocked message,
              deliveryEffects core message⟩

def IronCore.receiverKeys (core : IronCore K) (keys : IdentityKeys) (senderPubkey : Bytes) :
    ReceiverKeys where
  signingKey := keys.signingKey
  x25519Secret := some keys.x25519EncryptionSecret
  mlkemKeypair := some keys.mlkemKeypair
  ourBundle := some (signBundle P keys)
  senderBundle := (core.contactManager.getContactBundle (hexEncode senderPubkey)).toOption.join

def IronCore.withSessions (core : IronCore K) (sessions : Option (RatchetSessionManager K)) :
    IronCore K :=
  { core with ratchetSessions := sessions.getD core.ratchetSessions }

def IronCore.receiveMessage (core : IronCore K) (env : ReceiveEnv) (envelopeData : Bytes) :
    CoreStep K Message :=
  match ingress P lib envelopeData with
  | .panicked => ⟨.panicked, core, []⟩
  | .err e => .fail core e
  | .ok wire =>
    match core.identity with
    | none => .fail core .notInitialized
    | some keys =>
      let senderPubkey := wire.senderPublicKey
      match decryptWithRatchetFallback P env.draws (core.receiverKeys P keys senderPubkey) wire
          (some core.ratchetSessions) with
      | (.panicked, sessions) => ⟨.panicked, core.withSessions sessions, []⟩
      | (.err _, sessions) => .fail (core.withSessions sessions) .cryptoError
      | (.ok plaintext, sessions) =>
        (core.withSessions sessions).deliver P lib env senderPubkey plaintext

/-! ## What a call can do -/

variable {P lib}

theorem DriftEnvelope.verify_ok {e : DriftEnvelope} (h : e.verify P = .ok ()) :
    P.edKeyValid e.senderPublicKey = true
      ∧ P.edVerify e.senderPublicKey (e.signingHash P).1 e.signature = true := by
  unfold DriftEnvelope.verify at h
  split at h
  · cases h
  · rename_i hv
    split at h
    · cases h
    · rename_i hve
      exact ⟨by simpa using hv, by simpa using hve⟩

variable {data : Bytes} {wire : WireEnvelope}

theorem Authenticated.of_ingress (h : ingress P lib data = .ok wire) :
    ∃ pk, Authenticated P lib data wire pk := by
  unfold ingress at h
  by_cases hv : data.head? = some driftVersion
  · rw [if_pos hv] at h
    split at h
    · cases h
    · cases h
    · rename_i e hd
      split at h
      · cases h
      · rename_i hve
        cases h
        obtain ⟨hk, hs⟩ := DriftEnvelope.verify_ok hve
        exact ⟨_, .drift e hv hd hk hs⟩
  · rw [if_neg hv] at h
    split at h
    · rename_i s hd
      split at h
      · cases h
      · rename_i hve
        cases h
        obtain ⟨pk, sig, hp, hsi, hk, hs⟩ := verifySignature_ok hve
        exact ⟨pk, .v1 s pk sig hv hd hp hsi hk hs⟩
    · rename_i s hd
      split at h
      · cases h
      · rename_i hve
        cases h
        obtain ⟨pk, sig, hp, hsi, hk, hs⟩ := verifySignature_ok hve
        exact ⟨pk, .v2 s pk sig hv hd hp hsi hk hs⟩
    · -- an unsigned envelope is refused whatever it decodes to
      split at h <;> cases h

variable {pk : Arr 32}

theorem Authenticated.senderPublicKey (h : Authenticated P lib data wire pk) :
    wire.senderPublicKey = pk.1 := by
  cases h with
  | drift e => exact e.toWireEnvelope_senderPublicKey
  | v1 s pk sig hv hd hpk => exact hpk
  | v2 s pk sig hv hd hpk => exact hpk

theorem verifySignature_eq_ok {sig : Arr 64} {s : Bytes} {t₁ t₂ t₃ : String}
    (hk : P.edKeyValid pk = true) (hs : P.edVerify pk s sig = true) :
    verifySignature P pk.1 sig.1 s t₁ t₂ t₃ = .ok () := by
  simp [verifySignature, hk, hs]

theorem Authenticated.ingress (h : Authenticated P lib data wire pk) : ingress P lib data = .ok wire := by
  unfold SCMessenger.ingress
  cases h with
  | drift e hv hd hk hs =>
    have hve : e.verify P = .ok () := by simp [DriftEnvelope.verify, hk, hs]
    simp only [if_pos hv, hd, hve]
  | v1 s pk sig hv hd hp hsi hk hs =>
    have hve : verifyEnvelope P s = .ok () := by
      rw [verifyEnvelope, hp, hsi]
      exact verifySignature_eq_ok hk hs
    simp only [if_neg hv, hd, hve]
  | v2 s pk sig hv hd hp hsi hk hs =>
    have hve : verifyEnvelopeV2 P s = .ok () := by
      rw [verifyEnvelopeV2, hp, hsi]
      exact verifySignature_eq_ok hk hs
    simp only [if_neg hv, hd, hve]

/-- **Ingress**: exactly the bytes with a verified signature yield an envelope. -/
theorem ingress_eq_ok_iff : ingress P lib data = .ok wire ↔ ∃ pk, Authenticated P lib data wire pk :=
  ⟨Authenticated.of_ingress, fun ⟨_, h⟩ => h.ingress⟩

variable (P lib)

def BlockedSender (core : IronCore K) (pk : Bytes) : Prop :=
  ∀ device, senderDeviceId core.contactManager [hexEncode pk, identityIdOf P pk] = .ok device →
    core.blockedManager.isBlockedResolved (publicKeyPrefix ++ hexEncode pk) device = .ok true

def IronCore.opens (core : IronCore K) (env : ReceiveEnv) (wire : WireEnvelope) : Option Message :=
  core.identity.bind fun keys =>
    match (decryptWithRatchetFallback P env.draws (core.receiverKeys P keys wire.senderPublicKey) wire
        (some core.ratchetSessions)).1 with
    | .ok plaintext => (decodeMessage plaintext).toOption
    | _ => none

/-- The contact store can be read, and the sender is not blocked and deleted. -/
def IronCore.admits (core : IronCore K) (pk : Bytes) : Bool :=
  match identityIdFromPublicKeyHex P (hexEncode pk) with
  | none => false
  | some canonicalPeerId =>
    match senderDeviceId core.contactManager [hexEncode pk, canonicalPeerId] with
    | .error _ => false
    | .ok _ =>
      match core.blockedManager.isBlockedAndDeletedResolved (publicKeyPrefix ++ hexEncode pk) with
      | .ok false => true
      | _ => false

def IronCore.afterDecrypt (core : IronCore K) (env : ReceiveEnv) (wire : WireEnvelope) : IronCore K :=
  core.withSessions (core.identity.bind fun keys =>
    (decryptWithRatchetFallback P env.draws (core.receiverKeys P keys wire.senderPublicKey) wire
      (some core.ratchetSessions)).2)

/-- **How a call ends**: without a message, with a receipt, or with a message recorded and reported. -/
inductive Delivered (core : IronCore K) (env : ReceiveEnv) (pk : Bytes) (opened : Option Message) :
    CoreStep K Message → Prop
  | refused {result : Outcome IronCoreError Message} (hfail : ∀ m, result ≠ .ok m)
      (hrefused : ∀ m, opened = some m → core.admits P pk = false) :
      Delivered core env pk opened ⟨result, core, []⟩
  | receipt {m : Message} (hopened : opened = some m) (hadmits : core.admits P pk = true)
      (htype : m.messageType = .receipt) :
      Delivered core env pk opened ⟨.ok m, core, receiptEffects lib core m.payload⟩
  | recorded {m : Message} {hidden : Bool} (hopened : opened = some m) (hadmits : core.admits P pk = true)
      (htype : m.messageType ≠ .receipt) (hhidden : BlockedSender P core pk → hidden = true) :
      Delivered core env pk opened
        ⟨.ok m, core.record P env pk (identityIdOf P pk) hidden m, deliveryEffects core m⟩

theorem deliver_delivered (core : IronCore K) (env : ReceiveEnv) (pk p : Bytes) :
    Delivered P lib core env pk (decodeMessage p).toOption (core.deliver P lib env pk p) := by
  have hr : core.admits P pk = false → ∀ m, (decodeMessage p).toOption = some m →
      core.admits P pk = false := fun h _ _ => h
  unfold IronCore.deliver
  cases hm : decodeMessage p with
  | error e => exact .refused (by simp) (by simp [Except.toOption])
  | ok m =>
  rw [hm] at hr
  unfold IronCore.admits at hr
  simp only
  cases hi : identityIdFromPublicKeyHex P (hexEncode pk) with
  | none => exact .refused (by simp) (hr (by simp [hi]))
  | some id =>
  obtain rfl := identityIdFromPublicKeyHex_hexEncode P hi
  simp only
  cases hd : senderDeviceId core.contactManager [hexEncode pk, identityIdOf P pk] with
  | error e => exact .refused (by simp) (hr (by simp [hi, hd]))
  | ok de =>
  simp only
  cases hde : core.blockedManager.isBlockedAndDeletedResolved
      (publicKeyPrefix ++ hexEncode pk) with
  | error e => exact .refused (by simp) (hr (by simp [hi, hd, hde]))
  | ok d =>
  cases d with
  | true => exact .refused (by simp) (hr (by simp [hi, hd, hde]))
  | false =>
    have ha : core.admits P pk = true := by simp [IronCore.admits, hi, hd, hde]
    by_cases ht : m.messageType = .receipt
    · simp only [if_pos ht]
      exact .receipt rfl ha ht
    · simp only [if_neg ht]
      refine .recorded rfl ha ht fun hb => ?_
      rw [hb de hd]

variable {P lib}

/-- **Everything a call on a signed envelope can do.** -/
theorem receiveMessage_delivered (ha : Authenticated P lib data wire pk) (core : IronCore K)
    (env : ReceiveEnv) :
    Delivered P lib (core.afterDecrypt P env wire) env pk.1 (core.opens P env wire)
      (core.receiveMessage P lib env data) := by
  unfold IronCore.receiveMessage IronCore.opens IronCore.afterDecrypt
  rw [ha.ingress]
  simp only
  cases core.identity with
  | none => exact .refused (by simp) (by simp)
  | some keys =>
  simp only [Option.bind_some, ha.senderPublicKey]
  cases decryptWithRatchetFallback P env.draws (core.receiverKeys P keys pk.1) wire
      (some core.ratchetSessions) with
  | mk res sessions =>
  cases res with
  | panicked => exact .refused (by simp) (by simp)
  | err e => exact .refused (by simp) (by simp)
  | ok p => exact deliver_delivered P lib _ env pk.1 p

theorem receiveMessage_unsigned (hn : ¬ ∃ wire pk, Authenticated P lib data wire pk) (core : IronCore K)
    (env : ReceiveEnv) :
    (core.receiveMessage P lib env data).core = core
      ∧ (core.receiveMessage P lib env data).effects = []
      ∧ ∀ m, (core.receiveMessage P lib env data).result ≠ .ok m := by
  unfold IronCore.receiveMessage
  cases hi : ingress P lib data with
  | panicked => exact ⟨rfl, rfl, by simp⟩
  | err e => exact ⟨rfl, rfl, by simp [CoreStep.fail]⟩
  | ok wire => exact absurd ⟨wire, ingress_eq_ok_iff.mp hi⟩ hn

variable {core : IronCore K} {env : ReceiveEnv} {step : CoreStep K Message} {m : Message}

theorem Delivered.opened {pk : Bytes} {o : Option Message}
    (h : Delivered P lib core env pk o step) (ho : step.result = .ok m) : o = some m := by
  cases h with
  | refused hf => exact absurd ho (hf m)
  | receipt hp =>
    cases ho
    exact hp
  | recorded hp =>
    cases ho
    exact hp

/-! ## A sample sender -/

def sampleCore (keys : IdentityKeys) : IronCore Term where
  identity := some keys
  ratchetSessions := .new
  contactManager := ⟨fun _ => .ok none, fun _ => .ok none, .ok [], fun _ => .ok none⟩
  blockedManager := ⟨fun _ => .ok false, fun _ _ => .ok false⟩
  inbox := .new
  historyManager := ⟨fun _ => none, true⟩
  auditLog := []
  delegate := true

def sampleLibraries : Libraries := ⟨⟨id, .ok⟩, fun _ => none⟩

def sampleEnv : ReceiveEnv := ⟨drawsWith (Arr.fit 32 [9]), 0, id⟩

def mallory : IdentityKeys := sampleIdentity 3

def claimedMessage (senderId : String) : Message :=
  ⟨"m1", senderId, "bob", .text, ascii "hi", 0⟩

/-- A message to Bob in the envelopes of its sender. -/
def sealedEnvelope (sender : IdentityKeys) (message : Message) : Except DriftError DriftEnvelope :=
  match encryptMessage termPrimitives (Arr.fit 32 [5]) (Arr.fit 24 [6]) sender.signingKey
      bob.signingKey (messageCodec.serialize message) with
  | .ok e => DriftEnvelope.fromLegacyEnvelope termPrimitives e (Arr.fit 16 [7]) bob.signingKey
      sender.signingKey 0
  | .error _ => .error .timeout

def sealedBytes (sender : IdentityKeys) (message : Message) : Bytes :=
  match sealedEnvelope sender message with
  | .ok e => (e.toBytes sampleLibraries.lz4).toOption.getD []
  | .error _ => []

def malloryBytes (senderId : String) : Bytes := sealedBytes mallory (claimedMessage senderId)

def malloryStep (senderId : String) : CoreStep Term Message :=
  (sampleCore bob).receiveMessage termPrimitives sampleLibraries sampleEnv (malloryBytes senderId)

def malloryWire (senderId : String) : WireEnvelope :=
  match sealedEnvelope mallory (claimedMessage senderId) with
  | .ok e => e.toWireEnvelope
  | .error _ => .v1 ⟨[], [], [], [], none, none⟩

theorem Authenticated.of_senderPublicKey (h : SCMessenger.ingress P lib data = .ok wire)
    (hp : wire.senderPublicKey = pk.1) : Authenticated P lib data wire pk := by
  obtain ⟨pk', ha⟩ := Authenticated.of_ingress h
  obtain rfl : pk' = pk := Subtype.ext (ha.senderPublicKey.symm.trans hp)
  exact ha

def aliceHex : String := hexEncode alice.signingKey.1

def malloryHex : String := hexEncode mallory.signingKey.1

/-! ## Records are authenticated -/

/-- What a call adds to the inbox or the history carries the sender's identity. -/
theorem record_peerId {pk : Bytes} {id : String} {h : Bool} :
    (∀ r, (core.record P env pk id h m).inbox.Holds r → ¬ core.inbox.Holds r →
        r.senderId = id ∧ r.senderPublicKeyHex = some (hexEncode pk))
    ∧ ∀ i r, (core.record P env pk id h m).historyManager.records i = some r →
        core.historyManager.records i ≠ some r → r.peerId = id := by
  constructor
  · intro r hr hn
    simp only [IronCore.record] at hr
    split at hr
    · exact absurd hr hn
    · rcases Inbox.receive_holds hr with ho | rfl
      · exact absurd ho hn
      · exact ⟨rfl, rfl⟩
  · intro i r hr hn
    rcases HistoryManager.add_get hr with ho | rfl
    · exact absurd ho hn
    · rfl

theorem Delivered.records {pk : Bytes} {o : Option Message}
    (h : Delivered P lib core env pk o step) :
    (∀ r, step.core.inbox.Holds r → ¬ core.inbox.Holds r →
        r.senderId = identityIdOf P pk ∧ r.senderPublicKeyHex = some (hexEncode pk))
    ∧ ∀ i r, step.core.historyManager.records i = some r → core.historyManager.records i ≠ some r →
        r.peerId = identityIdOf P pk := by
  cases h with
  | refused => exact ⟨fun r hr hn => absurd hr hn, fun i r hr hn => absurd hr hn⟩
  | receipt => exact ⟨fun r hr hn => absurd hr hn, fun i r hr hn => absurd hr hn⟩
  | recorded => exact record_peerId

/-- **Authenticated storage.** Records carry the identity of a key that signed the envelope; else nothing
changes. -/
theorem receiveMessage_authenticated (core : IronCore K) (env : ReceiveEnv) (data : Bytes) :
    (∀ r, (core.receiveMessage P lib env data).core.inbox.Holds r → ¬ core.inbox.Holds r →
      ∃ wire pk, Authenticated P lib data wire pk ∧ r.senderId = identityIdOf P pk.1
        ∧ r.senderPublicKeyHex = some (hexEncode pk.1))
    ∧ (∀ i r, (core.receiveMessage P lib env data).core.historyManager.records i = some r →
      core.historyManager.records i ≠ some r →
      ∃ wire pk, Authenticated P lib data wire pk ∧ r.peerId = identityIdOf P pk.1)
    ∧ ((∀ wire pk, ¬ Authenticated P lib data wire pk) →
      (core.receiveMessage P lib env data).core = core
        ∧ (core.receiveMessage P lib env data).effects = []
        ∧ ∀ m, (core.receiveMessage P lib env data).result ≠ .ok m) := by
  by_cases hs : ∃ wire pk, Authenticated P lib data wire pk
  · obtain ⟨wire, pk, ha⟩ := hs
    obtain ⟨hi, hh⟩ := (receiveMessage_delivered ha core env).records
    exact ⟨fun r hr hn => ⟨wire, pk, ha, hi r hr hn⟩,
      fun i r hr hn => ⟨wire, pk, ha, hh i r hr hn⟩, fun hno => absurd ha (hno wire pk)⟩
  · obtain ⟨hc, hq⟩ := receiveMessage_unsigned hs core env
    rw [hc]
    exact ⟨fun r hr hn => absurd hr hn, fun i r hr hn => absurd hr hn, fun _ => ⟨rfl, hq⟩⟩

theorem malloryStep_alice :
    (malloryStep aliceHex).core.inbox.holdsAt (identityIdOf termPrimitives mallory.signingKey.1)
        ⟨1, "m1", identityIdOf termPrimitives mallory.signingKey.1, ascii "hi", 0, some malloryHex⟩ = true
      ∧ (malloryStep aliceHex).result = .ok (claimedMessage aliceHex)
      ∧ (malloryStep aliceHex).effects = [.onMessageReceived aliceHex aliceHex "m1" 0 (ascii "hi")]
      ∧ ingress termPrimitives sampleLibraries (malloryBytes aliceHex) = .ok (malloryWire aliceHex)
      ∧ (malloryWire aliceHex).senderPublicKey = mallory.signingKey.1 := by
  decide +kernel

/-- Mallory's message is recorded under Mallory's identity, whatever it says. -/
theorem authenticated_impersonation :
    ∃ r, (malloryStep aliceHex).core.inbox.Holds r ∧ ¬ (sampleCore bob).inbox.Holds r
      ∧ ∃ wire pk, Authenticated termPrimitives sampleLibraries (malloryBytes aliceHex) wire pk
        ∧ r.senderId = identityIdOf termPrimitives pk.1
        ∧ r.senderPublicKeyHex = some (hexEncode pk.1) := by
  have hr : (malloryStep aliceHex).core.inbox.Holds
      ⟨1, "m1", identityIdOf termPrimitives mallory.signingKey.1, ascii "hi", 0, some malloryHex⟩ :=
    ⟨identityIdOf termPrimitives mallory.signingKey.1, malloryStep_alice.1⟩
  have hn : ¬ (sampleCore bob).inbox.Holds
      ⟨1, "m1", identityIdOf termPrimitives mallory.signingKey.1, ascii "hi", 0, some malloryHex⟩ :=
    Inbox.not_holds_new _
  unfold malloryStep at hr ⊢
  exact ⟨_, hr, hn, (receiveMessage_authenticated _ _ _).1 _ hr hn⟩

/-! ## Attribution -/

/-- A text that denotes the identity of a public key: its hexadecimal form or its identity id. -/
def Denotes (P : Primitives K) (pk : Arr 32) (id : String) : Prop :=
  id = hexEncode pk.1 ∨ id = identityIdOf P pk.1

def Seals (P : Primitives K) (wire : WireEnvelope) (m : Message) : Prop :=
  ∃ (k : K) (N : Arr 24) (p : Bytes), wire.ciphertext = P.aeadSeal k N p wire.senderPublicKey
    ∧ decodeMessage p = .ok m

theorem IronCore.opens_seals (ha : AeadIdeal P) (h : core.opens P env wire = some m) :
    Seals P wire m := by
  obtain ⟨keys, -, hop⟩ := Option.bind_eq_some_iff.mp h
  split at hop
  · rename_i p hdc
    obtain ⟨k, N, ho⟩ := decryptWithRatchetFallback_opens (Prod.ext hdc rfl)
    refine ⟨k, N, p, (ha.open_iff _ _ _ _ _).mp ho, ?_⟩
    cases hd : decodeMessage p with
    | error e => simp [hd, Except.toOption] at hop
    | ok m' => simpa [hd, Except.toOption] using hop
  · cases hop

theorem receiveMessage_seals (ha : AeadIdeal P) (h : (core.receiveMessage P lib env data).result = .ok m)
    (hau : Authenticated P lib data wire pk) : Seals P wire m :=
  core.opens_seals ha ((receiveMessage_delivered hau core env).opened h)

theorem Seals.unique (ha : AeadIdeal P) {m' : Message} (h : Seals P wire m) (h' : Seals P wire m') :
    m = m' := by
  obtain ⟨k, N, p, hc, hm⟩ := h
  obtain ⟨k', N', p', hc', hm'⟩ := h'
  obtain ⟨-, -, rfl, -⟩ := ha.inj _ _ _ _ _ _ _ _ (hc.symm.trans hc')
  exact Except.ok.inj (hm.symm.trans hm')

theorem Delivered.notifies {pk : Bytes} {o : Option Message}
    (h : Delivered P lib core env pk o step) (ho : step.result = .ok m)
    (ht : m.messageType ≠ .receipt) {se s id : String} {t : UInt64} {d : Bytes}
    (he : .onMessageReceived se s id t d ∈ step.effects) : se = m.senderId := by
  cases h with
  | refused hf => exact absurd ho (hf m)
  | receipt hp ha htype' =>
    cases ho
    exact absurd htype' ht
  | recorded =>
    cases ho
    simp only [deliveryEffects] at he
    split at he
    · simp only [List.mem_singleton, Effect.onMessageReceived.injEq] at he
      exact he.1
    · simp at he

/-- **Attribution.** A message is delivered under its signer's identity exactly when it names it. -/
theorem attribution_iff (haead : AeadIdeal P) (core : IronCore K) (env : ReceiveEnv) (data : Bytes)
    (m : Message) (hok : (core.receiveMessage P lib env data).result = .ok m)
    (htype : m.messageType ≠ .receipt) (wire : WireEnvelope) (pk : Arr 32)
    (hauth : Authenticated P lib data wire pk) :
    (Denotes P pk m.senderId
      ∧ ∀ sender senderHex id t d, Effect.onMessageReceived sender senderHex id t d
        ∈ (core.receiveMessage P lib env data).effects → Denotes P pk sender)
      ↔ ∃ sealed, Seals P wire sealed ∧ Denotes P pk sealed.senderId := by
  have hs := receiveMessage_seals haead hok hauth
  constructor
  · rintro ⟨hm, -⟩
    exact ⟨m, hs, hm⟩
  · rintro ⟨sealed, hsl, hd⟩
    obtain rfl := hs.unique haead hsl
    refine ⟨hd, ?_⟩
    intro sender senderHex id t d he
    rw [(receiveMessage_delivered hauth core env).notifies hok htype he]
    exact hd

theorem malloryStep_honest :
    (malloryStep malloryHex).result = .ok (claimedMessage malloryHex)
      ∧ ingress termPrimitives sampleLibraries (malloryBytes malloryHex) = .ok (malloryWire malloryHex)
      ∧ (malloryWire malloryHex).senderPublicKey = mallory.signingKey.1 := by
  decide +kernel

theorem malloryBytes_authenticated : Authenticated termPrimitives sampleLibraries
    (malloryBytes malloryHex) (malloryWire malloryHex) mallory.signingKey :=
  .of_senderPublicKey malloryStep_honest.2.1 malloryStep_honest.2.2

/-- A message that names its signer is delivered under the signer's name. -/
theorem attribution_honest :
    (malloryStep malloryHex).result = .ok (claimedMessage malloryHex)
      ∧ ∀ sender senderHex id t d, Effect.onMessageReceived sender senderHex id t d
        ∈ (malloryStep malloryHex).effects → Denotes termPrimitives mallory.signingKey sender := by
  have ho := malloryStep_honest.1
  have ha := malloryBytes_authenticated
  have hi := attribution_iff termAead (sampleCore bob) sampleEnv (malloryBytes malloryHex) _ ho
    (by decide) (malloryWire malloryHex) mallory.signingKey ha
  exact ⟨ho, (hi.mpr ⟨_, receiveMessage_seals termAead ho ha, .inl rfl⟩).2⟩

/-- Mallory's message names Alice as its sender, and Bob's node reports it as hers. -/
theorem impersonation_delivered :
    (malloryStep aliceHex).result = .ok (claimedMessage aliceHex)
      ∧ (malloryStep aliceHex).effects = [.onMessageReceived aliceHex aliceHex "m1" 0 (ascii "hi")]
      ∧ Authenticated termPrimitives sampleLibraries (malloryBytes aliceHex) (malloryWire aliceHex)
          mallory.signingKey
      ∧ ¬ Denotes termPrimitives mallory.signingKey (claimedMessage aliceHex).senderId := by
  obtain ⟨-, hr, he, hin, hs⟩ := malloryStep_alice
  refine ⟨hr, he, .of_senderPublicKey hin hs, ?_⟩
  unfold Denotes
  decide +kernel

end SCMessenger
