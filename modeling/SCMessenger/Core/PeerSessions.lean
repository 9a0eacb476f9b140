import SCMessenger.Core.Send
import SCMessenger.Crypto.Persistence

/-!
# The sessions a node holds for one peer

Sending files a peer's session under a hexadecimal form of its key, receiving under the hash of the key.
So a node that does both holds two, and its replies leave the ratchet the peer's messages advance alone.
-/

namespace SCMessenger

variable {K : Type} (P : Primitives K) (lib : Libraries)

/-! ## Runs of a node with one peer -/

/-- A message prepared by the core, or one that it got. -/
inductive CoreEvent where
  | prepare (env : PrepareEnv) (recipientId content : String) (messageType : MessageType)
  | receive (env : ReceiveEnv) (envelopeData : Bytes)

def CoreEvent.Concerns (pk : Arr 32) : CoreEvent → Prop
  | .prepare _ recipientId _ _ => hexDecode recipientId = .ok pk.1
  | .receive _ data => ∀ wire sender, Authenticated P lib data wire sender → sender = pk

def CoreEvent.sessionKey (pk : Arr 32) : CoreEvent → String
  | .prepare _ recipientId _ _ => recipientId
  | .receive _ _ => peerIdOf P pk.1

def IronCore.step (core : IronCore K) : CoreEvent → IronCore K
  | .prepare env recipientId content messageType =>
    (core.prepareMessage P lib env recipientId content messageType).core
  | .receive env data => (core.receiveMessage P lib env data).core

/-- The identifiers under which a node may file a session with a peer. -/
def FiledUnder (pk : Arr 32) (id : String) : Prop := hexDecode id = .ok pk.1 ∨ id = peerIdOf P pk.1

def IronCore.HoldsFor (core : IronCore K) (pk : Arr 32) (id : String) : Prop :=
  FiledUnder P pk id ∧ (core.ratchetSessions.sessions id).isSome

def IronCore.OneSession (core : IronCore K) (pk : Arr 32) : Prop :=
  ∀ id id', core.HoldsFor P pk id → core.HoldsFor P pk id' → id = id'

/-- A step that leaves a session where it files one finds no session of the peer elsewhere. -/
def AddressesHeld (pk : Arr 32) (core : IronCore K) (event : CoreEvent) : Prop :=
  (core.step P lib event).HoldsFor P pk (event.sessionKey P pk) →
    ∀ id, core.HoldsFor P pk id → id = event.sessionKey P pk

variable {P lib}

/-! ## One step touches one session -/

variable {id : String}

theorem encryptFor_sessions_of_ne (c : IronCore K) (env : PrepareEnv) (k : IdentityKeys)
    {r : String} (hi : id ≠ r) (rp : Arr 32) (b : Bytes) :
    (c.encryptFor P env k r rp b).2.ratchetSessions.sessions id
      = c.ratchetSessions.sessions id := by
  unfold IronCore.encryptFor
  obtain ⟨m', hm, hf⟩ := encryptWithRatchetFallback_frame (P := P) env.draws
    { signingKey := k.signingKey
      recipientBundle := (c.contactManager.getContactBundle r).toOption.join
      recipientPublicKeyFallback := rp
      ourBundle := some (signBundle P k)
      ourX25519Secret := some k.x25519EncryptionSecret
      requirePq := false }
    b c.ratchetSessions r (some c.auditLog)
  simp only [hm, Option.getD_some]
  exact hf id hi

theorem Delivered.sessions {c : IronCore K} {env : ReceiveEnv} {pk : Bytes} {o : Option Message}
    {st : CoreStep K Message} (h : Delivered P lib c env pk o st) :
    st.core.ratchetSessions = c.ratchetSessions := by
  cases h <;> rfl

theorem receiveMessage_sessions_of_ne {c : IronCore K} {env : ReceiveEnv} {d : Bytes} {pk : Arr 32}
    (hp : ∀ w se, Authenticated P lib d w se → se = pk) (hi : id ≠ peerIdOf P pk.1) :
    (c.receiveMessage P lib env d).core.ratchetSessions.sessions id
      = c.ratchetSessions.sessions id := by
  by_cases hs : ∃ w se, Authenticated P lib d w se
  · obtain ⟨w, se, ha⟩ := hs
    obtain rfl := hp w se ha
    rw [(receiveMessage_delivered ha c env).sessions, IronCore.afterDecrypt, IronCore.withSessions]
    cases c.identity with
    | none => rfl
    | some keys =>
      obtain ⟨m', hm, hf⟩ := decryptWithRatchetFallback_frame (P := P) env.draws
        (c.receiverKeys P keys w.senderPublicKey) w c.ratchetSessions
      rw [Option.bind_some, hm, Option.getD_some]
      exact hf id (by rwa [ha.senderPublicKey])
  · rw [(receiveMessage_unsigned hs c env).1]

/-- **One step**: sessions under other identifiers than the one it addresses stay. -/
theorem step_sessions_of_ne (c : IronCore K) {pk : Arr 32} {e : CoreEvent}
    (hc : e.Concerns P lib pk) (hi : id ≠ e.sessionKey P pk) :
    (c.step P lib e).ratchetSessions.sessions id = c.ratchetSessions.sessions id := by
  cases e with
  | prepare env r co m =>
    rcases prepareMessage_sessions P lib c env r co m
      with h | ⟨keys, recipientPk, bytes, h⟩
    · rw [IronCore.step, h]
    · rw [IronCore.step, h]
      exact encryptFor_sessions_of_ne c env keys hi recipientPk bytes
  | receive env d => exact receiveMessage_sessions_of_ne hc hi

/-! ## The ratchet key of an envelope -/

variable {s : RatchetSession K}

theorem encryptMessageRatcheted_dh {d : SendDraws} {sk : Arr 32} {p : Bytes} {w : WireEnvelope}
    (h : (encryptMessageRatcheted P d sk s p).1 = .ok w) :
    w.ratchetDhPublic = some s.ourDhPublic.1 := by
  by_cases hf : s.sendingChain = none ∨ maxRatchetSteps ≤ s.dhStepCount
  · obtain ⟨err, her⟩ := encryptMessageRatcheted_error (P := P) hf d sk p
    rw [her] at h
    cases h
  · obtain ⟨hch, hs⟩ := not_or.mp hf
    obtain ⟨c, hc⟩ := Option.ne_none_iff_exists'.mp hch
    cases hh : s.isPqHybrid with
    | false =>
      obtain ⟨e, he, -, hca⟩ :=
        encryptMessageRatcheted_classical (P := P) hh hc (UInt32.not_le.mp hs) d sk p
      rw [he] at h
      cases h
      exact hca.dh
    | true =>
      obtain ⟨e, s', he, -, hca, -⟩ :=
        encryptMessageRatcheted_hybrid (P := P) hh hc (UInt32.not_le.mp hs) d sk p
      rw [he] at h
      cases h
      exact hca.dh

theorem senderSession_new {dr : EncryptDraws} {ke : SenderKeys} {m m' : RatchetSessionManager K}
    (hn : m.sessions id = none) (h : senderSession P dr ke id m = .ok (s, m')) :
    s.ourDhPublic = P.x25519Public dr.session.dhSecret := by
  unfold senderSession at h
  split at h
  · split at h
    · cases h
    · simp only [RatchetSessionManager.getOrCreateSessionHybrid, hn] at h
      split at h
      · cases h
      · next hs =>
        cases h
        rcases senderSessionHybrid_cases hs with ⟨_, _, _, -, hi⟩ | ⟨_, _, _, rfl⟩
        · unfold RatchetSession.initAsSenderWith at hi
          split at hi
          · cases hi
          · cases hi
            rfl
        · rfl
  · split at h
    · cases h
    · simp only [RatchetSessionManager.getOrCreateSession, hn] at h
      cases h
      rfl

/-- An envelope sent without a session announces the key drawn for a new one, if any. -/
theorem encryptWithRatchetFallback_new {dr : EncryptDraws} {ke : SenderKeys} {p : Bytes}
    {m : RatchetSessionManager K} {log : Option (List AuditEvent)} (hn : m.sessions id = none)
    {w : WireEnvelope} (h : (encryptWithRatchetFallback P dr ke p (some m) id log).result = .ok w)
    {dh : Bytes} (hd : w.ratchetDhPublic = some dh) : dh = (P.x25519Public dr.session.dhSecret).1 := by
  unfold encryptWithRatchetFallback at h
  simp only at h
  split at h
  · cases h
  · split at h
    · cases h
    · next hs =>
      have hdh := encryptMessageRatcheted_dh h
      rw [senderSession_new hn hs] at hdh
      exact Option.some.inj (hd.symm.trans hdh)
  · split at h
    · cases h
    · next e he =>
      cases h
      unfold encryptMessage at he
      split at he
      · cases he
      · cases he
        cases hd

/-! ## One session for a peer -/

/-- No session that the node holds for a peer announces this ratchet key. -/
def IronCore.NewKey (P : Primitives K) (core : IronCore K) (pk : Arr 32) (dh : Bytes) : Prop :=
  ∀ id s, FiledUnder P pk id → core.ratchetSessions.sessions id = some s → s.ourDhPublic.1 ≠ dh

/-- After a decrypted message, the next envelope has a new key exactly if no session was held for sending. -/
def RepliesRotate (P : Primitives K) (lib : Libraries) (pk : Arr 32) (core : IronCore K) : Prop :=
  ∀ renv data reply, (CoreEvent.receive renv data).Concerns P lib pk →
    (core.receiveMessage P lib renv data).result = .ok reply →
    ∀ penv recipientId keys recipientPk bytes sent dh, hexDecode recipientId = .ok pk.1 →
      core.NewKey P pk (P.x25519Public penv.draws.session.dhSecret).1 →
      ((core.step P lib (.receive renv data)).encryptFor P penv keys recipientId recipientPk bytes).1
        = .ok sent → sent.ratchetDhPublic = some dh →
      (core.NewKey P pk dh ↔ core.ratchetSessions.sessions recipientId = none)

variable {pk : Arr 32}

/-- The identity id of a peer is no form of its key, unless the hash maps the key to itself. -/
theorem ne_peerIdOf (hkey : P.blake3 pk.1 ≠ pk) (hi : hexDecode id = .ok pk.1) : id ≠ peerIdOf P pk.1 := by
  rintro rfl
  rw [peerIdOf, hexDecode_hexEncode] at hi
  exact hkey (Subtype.ext (Except.ok.inj hi))

theorem repliesRotate (hkey : P.blake3 pk.1 ≠ pk) (c : IronCore K) : RepliesRotate P lib pk c := by
  intro re da reply hc _ pe r keys recipientPk bytes sent dh hr hnew hsent hdh
  -- the reply touches the session under the identity id only
  have hs : (c.step P lib (.receive re da)).ratchetSessions.sessions r = c.ratchetSessions.sessions r :=
    step_sessions_of_ne c hc (ne_peerIdOf hkey hr)
  cases hh : c.ratchetSessions.sessions r with
  | some s =>
    have hst := encryptMessageRatcheted_dh (encryptWithRatchetFallback_stored (hs.trans hh) hsent)
    have he : s.ourDhPublic.1 = dh := Option.some.inj (hst.symm.trans hdh)
    exact iff_of_false (fun hn => hn r s (.inl hr) hh he) (by simp)
  | none =>
    obtain rfl := encryptWithRatchetFallback_new (hs.trans hh) hsent hdh
    exact iff_of_true hnew rfl

/-- **One step keeps one session** exactly if it addresses the one that is held. -/
theorem oneSession_step_iff {c : IronCore K} {e : CoreEvent} (hc : e.Concerns P lib pk)
    (h : c.OneSession P pk) : (c.step P lib e).OneSession P pk ↔ AddressesHeld P lib pk c e := by
  have hk : ∀ id, id ≠ e.sessionKey P pk →
      ((c.step P lib e).HoldsFor P pk id ↔ c.HoldsFor P pk id) := by
    intro id hne
    rw [IronCore.HoldsFor, IronCore.HoldsFor, step_sessions_of_ne c hc hne]
  constructor
  · intro ho hf id hi
    by_contra hne
    exact hne (ho id _ ((hk id hne).mpr hi) hf)
  · intro ha id id' hi hi'
    by_cases hne : id = e.sessionKey P pk
    · by_cases hne' : id' = e.sessionKey P pk
      · rw [hne, hne']
      · exact absurd (ha (hne ▸ hi) id' ((hk id' hne').mp hi')) hne'
    · by_cases hne' : id' = e.sessionKey P pk
      · exact absurd (ha (hne' ▸ hi') id ((hk id hne).mp hi)) hne
      · exact h id id' ((hk id hne).mp hi) ((hk id' hne').mp hi')

def hashedPrimitives : Primitives (Arr 32) :=
  { bytePrimitives with blake3 := fun b => Arr.fit 32 (1 :: b) }

def sampleNode (keys contact : IdentityKeys) : IronCore (Arr 32) where
  identity := some keys
  ratchetSessions := .new
  contactManager := ⟨fun _ => .ok none, fun _ => .ok none, .ok [], fun id =>
    .ok (if id = contact.publicKeyHex hashedPrimitives then some (signBundle hashedPrimitives contact)
      else none)⟩
  blockedManager := ⟨fun _ => .ok false, fun _ _ => .ok false⟩
  inbox := .new
  historyManager := ⟨fun _ => none, true⟩
  auditLog := []
  delegate := true

def samplePrepareEnv (x : UInt8) : PrepareEnv :=
  ⟨sampleEncryptDraws x, Arr.fit 16 [x], 0, 0, none, false, false⟩

def messageToBob (x : UInt8) : CoreEvent :=
  .prepare (samplePrepareEnv x) (bob.publicKeyHex hashedPrimitives) "hi" .text

theorem sampleNode_holdsNone (k c : IdentityKeys) (pk : Arr 32) (id : String) :
    ¬ (sampleNode k c).HoldsFor hashedPrimitives pk id := by
  rintro ⟨-, hs⟩
  cases hs

theorem messageToBob_concerns (x : UInt8) :
    (messageToBob x).Concerns hashedPrimitives sampleLibraries bob.signingKey :=
  hexDecode_hexEncode _

def preparedBytes (step : CoreStep (Arr 32) PreparedMessage) : Bytes :=
  match step.result with
  | .ok prepared => prepared.envelopeData
  | _ => []

def prepareSample (core : IronCore (Arr 32)) (x : UInt8) (recipient : IdentityKeys) :
    CoreStep (Arr 32) PreparedMessage :=
  core.prepareMessage hashedPrimitives sampleLibraries (samplePrepareEnv x)
    (recipient.publicKeyHex hashedPrimitives) "hi" .text

def bobSent : CoreStep (Arr 32) PreparedMessage := prepareSample (sampleNode bob alice) 3 alice

/-- The bytes of Bob's first and second message to Alice. -/
def bobBytes : Bytes := preparedBytes bobSent
def bobSecondBytes : Bytes := preparedBytes (prepareSample bobSent.core 4 alice)

theorem concerns_of_ingress {d : Bytes} (env : ReceiveEnv)
    (h : (ingress P lib d).map (·.senderPublicKey) = .ok pk.1) :
    (CoreEvent.receive env d).Concerns P lib pk := by
  intro w se ha
  rw [ha.ingress] at h
  exact Subtype.ext (ha.senderPublicKey.symm.trans (Outcome.ok.inj h))

theorem holdsFor_step_of_none {c : IronCore K} {e : CoreEvent} (hc : e.Concerns P lib pk)
    (hnone : ∀ id, ¬ c.HoldsFor P pk id) (hi : (c.step P lib e).HoldsFor P pk id) :
    id = e.sessionKey P pk := by
  by_contra hne
  rw [IronCore.HoldsFor, step_sessions_of_ne c hc hne] at hi
  exact hnone id hi

/-- Alice after Bob's first message, and her answer after the second. -/
def aliceOnce : IronCore (Arr 32) :=
  (sampleNode alice bob).step hashedPrimitives sampleLibraries (.receive sampleEnv bobBytes)
def aliceAnswer : Except String WireEnvelope × IronCore (Arr 32) :=
  (aliceOnce.step hashedPrimitives sampleLibraries (.receive sampleEnv bobSecondBytes)).encryptFor
    hashedPrimitives (samplePrepareEnv 2) alice (bob.publicKeyHex hashedPrimitives) bob.signingKey (ascii "hi")

theorem bobReplies_run :
    (ingress hashedPrimitives sampleLibraries bobBytes).map (·.senderPublicKey) = .ok bob.signingKey.1
      ∧ (ingress hashedPrimitives sampleLibraries bobSecondBytes).map (·.senderPublicKey)
        = .ok bob.signingKey.1
      ∧ (match (aliceOnce.receiveMessage hashedPrimitives sampleLibraries sampleEnv bobSecondBytes).result with
        | .ok _ => true | _ => false) = true
      ∧ (aliceOnce.ratchetSessions.sessions (peerIdOf hashedPrimitives bob.signingKey.1)).any (fun s =>
        s.ourDhPublic.1 ≠ (samplePrepareEnv 2).draws.session.dhSecret.1) = true
      ∧ (aliceAnswer.1.toOption.bind (·.ratchetDhPublic)).isSome := by
  decide +kernel

def aliceSent : CoreStep (Arr 32) PreparedMessage := prepareSample (sampleNode alice bob) 1 bob

def aliceReceived : CoreStep (Arr 32) Message :=
  aliceSent.core.receiveMessage hashedPrimitives sampleLibraries sampleEnv bobBytes

def announcedKey (envelopeData : Bytes) : Option (Arr 32) :=
  match DriftEnvelope.fromBytes sampleLibraries.lz4 envelopeData with
  | .ok e => e.ratchetDhPublic
  | _ => none

theorem aliceReceived_run :
    (match aliceReceived.result with | .ok _ => true | _ => false) = true
      ∧ (aliceReceived.core.ratchetSessions.sessions (bob.publicKeyHex hashedPrimitives)).isSome
      ∧ (aliceReceived.core.ratchetSessions.sessions
        (peerIdOf hashedPrimitives bob.signingKey.1)).isSome
      ∧ (announcedKey (preparedBytes aliceSent)).isSome
      ∧ announcedKey (preparedBytes (prepareSample aliceReceived.core 2 bob))
        = announcedKey (preparedBytes aliceSent) := by
  decide +kernel

end SCMessenger
