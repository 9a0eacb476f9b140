import SCMessenger.Store.Inbox
import SCMessenger.Store.Outbox

/-!
# Records from before there were versions

A record is stored behind the version byte `1`; before there was one, it began with the length of its
identifier.  Both readers go by the first byte.
-/

namespace SCMessenger

/-! ## Received messages -/

/-- The stored form before there were versions. -/
structure LegacyReceivedMessage where
  messageId : String
  senderId : String
  payload : Bytes
  receivedAt : UInt64

def LegacyReceivedMessage.upgrade (legacy : LegacyReceivedMessage) : ReceivedMessage where
  version := 1
  messageId := legacy.messageId
  senderId := legacy.senderId
  payload := legacy.payload
  receivedAt := legacy.receivedAt
  senderPublicKeyHex := none

def receivedMessageCodec : Codec ReceivedMessage :=
  (Codec.u8.pair (Codec.string.pair (Codec.string.pair (Codec.bytes.pair (Codec.u64.pair
      Codec.string.option))))).iso
    (fun (version, id, sender, payload, receivedAt, key) => ⟨version, id, sender, payload, receivedAt, key⟩)
    (fun m => (m.version, m.messageId, m.senderId, m.payload, m.receivedAt, m.senderPublicKeyHex))
    (fun _ => rfl)

def legacyReceivedMessageCodec : Codec LegacyReceivedMessage :=
  (Codec.string.pair (Codec.string.pair (Codec.bytes.pair Codec.u64))).iso
    (fun (id, sender, payload, receivedAt) => ⟨id, sender, payload, receivedAt⟩)
    (fun m => (m.messageId, m.senderId, m.payload, m.receivedAt))
    (fun _ => rfl)

/-- Read a stored message: the first byte tells the versioned format from the old one. -/
def deserializeReceivedMessage : Bytes → Option ReceivedMessage :=
  Codec.readVersioned receivedMessageCodec legacyReceivedMessageCodec (·.upgrade)

/-- The lengths of a message have eight bytes, as those of every value in memory. -/
structure ReceivedMessage.Fits (m : ReceivedMessage) : Prop where
  messageId : m.messageId.toUTF8.size < 256 ^ 8
  senderId : m.senderId.toUTF8.size < 256 ^ 8
  payload : m.payload.length < 256 ^ 8
  senderPublicKeyHex : ∀ key, m.senderPublicKeyHex = some key → key.toUTF8.size < 256 ^ 8

def ReceivedMessage.toLegacy (m : ReceivedMessage) : LegacyReceivedMessage :=
  ⟨m.messageId, m.senderId, m.payload, m.receivedAt⟩

def QueuedMessage.toLegacy (m : QueuedMessage) : LegacyQueuedMessage where
  messageId := m.messageId
  recipientId := m.recipientId
  envelopeData := m.envelopeData
  queuedAt := m.queuedAt
  attempts := m.attempts
  nextRetryAt := m.nextRetryAt
  inCustody := m.inCustody
  custodyEstablishedAt := m.custodyEstablishedAt
  state := m.state

/-! ## Both formats -/

theorem messageStateCodec_canonical : messageStateCodec.Canonical := by
  refine Codec.Canonical.variant fun n a h => ?_
  match n with
  | 0 => cases h; rfl
  | 1 => cases h; rfl
  | 2 => cases h; rfl
  | n + 3 => cases h

theorem queuedMessageCodec_canonical : queuedMessageCodec.Canonical := by
  refine Codec.Canonical.iso ?_ fun _ _ _ _ => rfl
  exact .pair .u8 (.pair .string (.pair .string (.pair .bytes (.pair .u64 (.pair .u32 (.pair (.option .u64)
    (.pair .bool (.pair .u64 messageStateCodec_canonical))))))))

theorem receivedMessageCodec_canonical : receivedMessageCodec.Canonical := by
  refine Codec.Canonical.iso ?_ fun _ _ _ _ => rfl
  exact .pair .u8 (.pair .string (.pair .string (.pair .bytes (.pair .u64 (.option .string)))))

theorem head_encode_string (s : String) (r : Bytes) :
    (Codec.string.encode s ++ r).head? = some (UInt8.ofNat s.toUTF8.size) := by
  show (leBytes 8 s.toUTF8.data.toList.length ++ _ ++ _).head? = _
  rw [leBytes_succ, Array.length_toList]
  rfl

theorem ofNat_ne_one_iff (n : Nat) : UInt8.ofNat n ≠ 1 ↔ n % 256 ≠ 1 := by
  rw [Ne, ← UInt8.toNat_inj, UInt8.toNat_ofNat']
  rfl

/-- An old queued message is read exactly if its first byte is not the version. -/
theorem deserializeQueuedMessage_legacy_iff {m : QueuedMessage} (hv : m.version = 1) (hf : m.Fits) :
    deserializeQueuedMessage (legacyQueuedMessageCodec.serialize m.toLegacy) = some m
      ↔ m.messageId.toUTF8.size % 256 ≠ 1 := by
  have ho : legacyQueuedMessageCodec.fits m.toLegacy := (queuedMessageCodec_fits hf).2
  have hl : (legacyQueuedMessageCodec.serialize m.toLegacy).length < (queuedMessageCodec.serialize m).length :=
    Nat.lt_succ_self _
  have hu : m.toLegacy.upgrade = m := by
    cases m
    cases hv
    rfl
  have hfi : (legacyQueuedMessageCodec.serialize m.toLegacy).head? = some (UInt8.ofNat m.messageId.toUTF8.size) :=
    head_encode_string m.messageId _
  rw [deserializeQueuedMessage, Codec.readVersioned_old_iff queuedMessageCodec_canonical ho hl hfi,
    ofNat_ne_one_iff]
  exact and_iff_left hu

variable {m : ReceivedMessage}

theorem receivedMessageCodec_fits (h : m.Fits) : receivedMessageCodec.fits m :=
  ⟨m.version.toNat_lt, h.messageId, h.senderId, h.payload, m.receivedAt.toNat_lt, h.senderPublicKeyHex⟩

theorem deserializeReceivedMessage_serialize (hv : m.version = 1) (hf : m.Fits) :
    deserializeReceivedMessage (receivedMessageCodec.serialize m) = some m := by
  refine Codec.readVersioned_serialize (receivedMessageCodec_fits hf) ?_
  cases m
  cases hv
  rfl

/-- An old received message is read exactly if that is so and it has no public key. -/
theorem deserializeReceivedMessage_legacy_iff (hv : m.version = 1) (hf : m.Fits) :
    deserializeReceivedMessage (legacyReceivedMessageCodec.serialize m.toLegacy) = some m
      ↔ m.messageId.toUTF8.size % 256 ≠ 1 ∧ m.senderPublicKeyHex = none := by
  have ho : legacyReceivedMessageCodec.fits m.toLegacy :=
    ⟨hf.messageId, hf.senderId, hf.payload, m.receivedAt.toNat_lt⟩
  have hl : (legacyReceivedMessageCodec.serialize m.toLegacy).length
      < (receivedMessageCodec.serialize m).length := by
    simp only [Codec.serialize, legacyReceivedMessageCodec, receivedMessageCodec, Codec.iso, Codec.pair,
      ReceivedMessage.toLegacy, List.length_append, Codec.u8, Codec.uint, leBytes_length]
    omega
  have hu : m.toLegacy.upgrade = m ↔ m.senderPublicKeyHex = none := by
    cases m
    cases hv
    simp [ReceivedMessage.toLegacy, LegacyReceivedMessage.upgrade, eq_comm]
  have hfi : (legacyReceivedMessageCodec.serialize m.toLegacy).head? = some (UInt8.ofNat m.messageId.toUTF8.size) :=
    head_encode_string m.messageId _
  rw [deserializeReceivedMessage, Codec.readVersioned_old_iff receivedMessageCodec_canonical ho hl hfi,
    ofNat_ne_one_iff, hu]

/-- **Which records are read back in both formats**: by identifier length and public key. -/
theorem stored_records_iff {q : QueuedMessage} {r : ReceivedMessage} (hq : q.version = 1)
    (hr : r.version = 1) (hqfits : q.Fits) (hrfits : r.Fits) :
    (deserializeQueuedMessage (queuedMessageCodec.serialize q) = some q
        ∧ deserializeQueuedMessage (legacyQueuedMessageCodec.serialize q.toLegacy) = some q
        ∧ deserializeReceivedMessage (receivedMessageCodec.serialize r) = some r
        ∧ deserializeReceivedMessage (legacyReceivedMessageCodec.serialize r.toLegacy) = some r)
      ↔ q.messageId.toUTF8.size % 256 ≠ 1 ∧ r.messageId.toUTF8.size % 256 ≠ 1 ∧ r.senderPublicKeyHex = none := by
  rw [deserializeQueuedMessage_legacy_iff hq hqfits, deserializeReceivedMessage_legacy_iff hr hrfits]
  constructor
  · rintro ⟨-, hi, -, hi', hk⟩
    exact ⟨hi, hi', hk⟩
  · rintro ⟨hi, hi', hk⟩
    exact ⟨deserializeQueuedMessage_serialize hq hqfits, hi, deserializeReceivedMessage_serialize hr hrfits,
      hi', hk⟩

def receivedFrom (senderId messageId : String) (key : Option String) : ReceivedMessage :=
  ⟨1, messageId, senderId, [42], 0, key⟩

/-- Records with identifiers of two bytes are read back. -/
theorem stored_records_sample :
    (queuedFor "alice" "m1").version = 1 ∧ (queuedFor "alice" "m1").Fits
      ∧ deserializeQueuedMessage (legacyQueuedMessageCodec.serialize (queuedFor "alice" "m1").toLegacy)
          = some (queuedFor "alice" "m1")
      ∧ (receivedFrom "bob" "m1" none).version = 1 ∧ (receivedFrom "bob" "m1" none).Fits
      ∧ deserializeReceivedMessage (legacyReceivedMessageCodec.serialize (receivedFrom "bob" "m1" none).toLegacy)
          = some (receivedFrom "bob" "m1" none) := by
  have hq : (queuedFor "alice" "m1").Fits := ⟨by decide, by decide, by decide⟩
  have hr : (receivedFrom "bob" "m1" none).Fits := ⟨by decide, by decide, by decide, by simp [receivedFrom]⟩
  obtain ⟨-, ho, -, ho'⟩ := (stored_records_iff rfl rfl hq hr).mpr ⟨by decide, by decide, rfl⟩
  exact ⟨rfl, hq, ho, rfl, hr, ho'⟩

/-- Old records with identifiers of one byte are not read, and public keys are lost. -/
theorem legacy_records_lost :
    deserializeQueuedMessage (legacyQueuedMessageCodec.serialize (queuedFor "alice" "m").toLegacy) = none
      ∧ deserializeReceivedMessage (legacyReceivedMessageCodec.serialize (receivedFrom "bob" "m" none).toLegacy) = none
      ∧ deserializeReceivedMessage
          (legacyReceivedMessageCodec.serialize (receivedFrom "bob" "m1" (some "00")).toLegacy)
        = some (receivedFrom "bob" "m1" none) := by
  refine ⟨by decide +kernel, by decide +kernel, by decide +kernel⟩

end SCMessenger
