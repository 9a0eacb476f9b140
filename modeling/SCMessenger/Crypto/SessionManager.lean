import SCMessenger.Crypto.Encrypt
import SCMessenger.Lib.Outcome

/-!
# The session manager and the two message paths

The send and the receive path of `crypto/encrypt.rs` choose, create and replace the sessions of a
`RatchetSessionManager`.  Both receive branches follow the pattern `withRecovery`.
-/

namespace SCMessenger

/-- The sessions of a node by peer identifier.  The storage backend is not part of the model. -/
structure RatchetSessionManager (K : Type) where
  sessions : String → Option (RatchetSession K)

variable {K : Type} (P : Primitives K)

namespace RatchetSessionManager

def new : RatchetSessionManager K := ⟨fun _ => none⟩

def hasSession (m : RatchetSessionManager K) (peerId : String) : Bool := (m.sessions peerId).isSome

def insert (m : RatchetSessionManager K) (peerId : String) (s : RatchetSession K) :
    RatchetSessionManager K :=
  ⟨Function.update m.sessions peerId (some s)⟩

variable (m : RatchetSessionManager K)

@[simp] theorem insert_sessions_self (p : String) (s : RatchetSession K) : (m.insert p s).sessions p = some s := by
  simp [insert]

theorem insert_sessions_of_ne {p q : String} (s : RatchetSession K) (h : q ≠ p) :
    (m.insert p s).sessions q = m.sessions q := by
  simp [insert, h]

@[simp] theorem insert_insert (p : String) (s t : RatchetSession K) : (m.insert p s).insert p t = m.insert p t := by
  simp [insert]

theorem insert_eq_self {m : RatchetSessionManager K} {p : String} {s : RatchetSession K}
    (h : m.sessions p = some s) : m.insert p s = m := by
  simp [insert, ← h]

def getOrCreateSession (m : RatchetSessionManager K) (dhSecret : Arr 32) (peerId : String)
    (ourSigningKey theirIdentityPublicX25519 : Arr 32) :
    RatchetSession K × RatchetSessionManager K :=
  match m.sessions peerId with
  | some session => (session, m)
  | none =>
    let session := RatchetSession.initAsSender P dhSecret ourSigningKey theirIdentityPublicX25519
    (session, m.insert peerId session)

end RatchetSessionManager

/-! ## Sessions of a negotiated suite -/

def senderSessionHybrid (draws : RatchetSession.HybridDraws) (ourSigningKey ourX25519Secret : Arr 32)
    (ourBundle theirBundle : PublicKeyBundle) : Except String (RatchetSession K) :=
  match negotiateSuite P ourBundle.supportedSuites theirBundle.supportedSuites
      ourBundle.ed25519Public theirBundle.ed25519Public with
  | .error e => .error e
  | .ok (suite, hash) =>
    if suite = 0x03 then
      RatchetSession.initAsSenderHybrid P draws ourX25519Secret theirBundle hash
    else if suite = 0x02 then
      RatchetSession.initAsSenderHybridSuite02 P draws theirBundle hash
    else
      match ed25519PublicToX25519 P theirBundle.ed25519Public with
      | .error e => .error e
      | .ok theirX25519 =>
        .ok { RatchetSession.initAsSender P draws.dhSecret ourSigningKey theirX25519 with
              negotiatedSuite := some suite
              transcriptHash := some hash }

/-- Accept a session of the common suite.  The classical branch takes the dedicated X25519 key. -/
def receiverSessionHybrid (dhSecret ourSigningKey ourX25519Secret : Arr 32)
    (ourMlkemKeypair : MlKem768KeyPair) (ourBundle theirBundle : PublicKeyBundle)
    (hctOpt : Option HybridCiphertext) : Except String (RatchetSession K) :=
  match negotiateSuite P theirBundle.supportedSuites ourBundle.supportedSuites
      theirBundle.ed25519Public ourBundle.ed25519Public with
  | .error e => .error e
  | .ok (suite, hash) =>
    if suite = 0x03 then
      match hctOpt with
      | some hct =>
        RatchetSession.initAsReceiverHybrid P dhSecret ourX25519Secret ourMlkemKeypair theirBundle
          hct hash
      | none => .error "Suite 0x03 requires hybrid ciphertext for receiver initialization"
    else if suite = 0x02 then
      match hctOpt with
      | some hct =>
        RatchetSession.initAsReceiverHybridSuite02 P dhSecret ourX25519Secret ourMlkemKeypair hct
          hash
      | none => .error "Suite 0x02 requires hybrid ciphertext for receiver initialization"
    else
      .ok { RatchetSession.initAsReceiver P dhSecret ourSigningKey theirBundle.x25519Public with
            negotiatedSuite := some suite
            transcriptHash := some hash }

section

variable {P} {s : RatchetSession K} {sk x25519Secret : Arr 32} {o t : PublicKeyBundle}

/-- A sender's session is hybrid, of either suite, or classical. -/
theorem senderSessionHybrid_cases {draws : RatchetSession.HybridDraws}
    (h : senderSessionHybrid P draws sk x25519Secret o t = .ok s) :
    (∃ suite root hash, hybridSuiteIds.contains suite = true
      ∧ RatchetSession.initAsSenderWith P suite root draws t hash = .ok s)
    ∨ ∃ theirX25519 suite hash, s = { RatchetSession.initAsSender P draws.dhSecret sk theirX25519 with
        negotiatedSuite := some suite
        transcriptHash := some hash } := by
  unfold senderSessionHybrid at h
  split at h
  · cases h
  · split at h
    · exact .inl ⟨_, _, _, rfl, h⟩
    · split at h
      · exact .inl ⟨_, _, _, rfl, h⟩
      · split at h
        · cases h
        · exact .inr ⟨_, _, _, (Except.ok.inj h).symm⟩

theorem receiverSessionHybrid_cases {d : Arr 32} {keypair : MlKem768KeyPair} {hct : Option HybridCiphertext}
    (h : receiverSessionHybrid P d sk x25519Secret keypair o t hct = .ok s) :
    (∃ suite root hc hash, hybridSuiteIds.contains suite = true
      ∧ RatchetSession.initAsReceiverWith P suite root d x25519Secret keypair hc hash = .ok s)
    ∨ ∃ suite hash, s = { RatchetSession.initAsReceiver P d sk t.x25519Public with
        negotiatedSuite := some suite
        transcriptHash := some hash } := by
  unfold receiverSessionHybrid at h
  split at h
  · cases h
  · split at h
    · split at h
      · exact .inl ⟨_, _, _, _, rfl, h⟩
      · cases h
    · split at h
      · split at h
        · exact .inl ⟨_, _, _, _, rfl, h⟩
        · cases h
      · exact .inr ⟨_, _, (Except.ok.inj h).symm⟩

end

namespace RatchetSessionManager

def getOrCreateSessionHybrid (m : RatchetSessionManager K) (draws : RatchetSession.HybridDraws)
    (peerId : String) (ourSigningKey ourX25519Secret : Arr 32)
    (ourBundle theirBundle : PublicKeyBundle) :
    Except String (RatchetSession K × RatchetSessionManager K) :=
  match m.sessions peerId with
  | some session => .ok (session, m)
  | none =>
    match senderSessionHybrid P draws ourSigningKey ourX25519Secret ourBundle theirBundle with
    | .error e => .error e
    | .ok session => .ok (session, m.insert peerId session)

def createReceiverSessionHybrid (m : RatchetSessionManager K) (dhSecret : Arr 32) (peerId : String)
    (ourSigningKey ourX25519Secret : Arr 32) (ourMlkemKeypair : MlKem768KeyPair)
    (ourBundle theirBundle : PublicKeyBundle) (hctOpt : Option HybridCiphertext) :
    Except String (RatchetSession K × RatchetSessionManager K) :=
  match receiverSessionHybrid P dhSecret ourSigningKey ourX25519Secret ourMlkemKeypair ourBundle
      theirBundle hctOpt with
  | .error e => .error e
  | .ok session => .ok (session, m.insert peerId session)

end RatchetSessionManager

/-! ## Sending -/

inductive AuditEventType where
  | messageSent
  | messageReceived
  | legacyStaticEcdhSend
deriving DecidableEq, Repr

/-- An event of the audit log, without its time and hash. -/
structure AuditEvent where
  eventType : AuditEventType
  identityId : Option String
  peerId : Option String
  details : Option String
deriving DecidableEq, Repr

def shouldUseRatchetedEncryption (recipientBundle : Option PublicKeyBundle) (sessionExists : Bool)
    (requirePq : Bool) (peerId : String) : Except String Bool :=
  let supportsHybrid := match recipientBundle with
    | some bundle => bundle.supportedSuites.any (hybridSuiteIds.contains ·)
    | none => false
  if supportsHybrid then .ok true
  else if sessionExists then .ok true
  else if requirePq then
    .error ("V1 peer " ++ peerId ++ " cannot be sent to when require_pq=true")
  else .ok false

/-- What the operating system draws on the send path. -/
structure EncryptDraws where
  session : RatchetSession.HybridDraws
  send : SendDraws
  ephemeralSecret : Arr 32

/-- The arguments of the send path that describe the two parties. -/
structure SenderKeys where
  signingKey : Arr 32
  recipientBundle : Option PublicKeyBundle
  recipientPublicKeyFallback : Arr 32
  ourBundle : Option PublicKeyBundle
  ourX25519Secret : Option (Arr 32)
  requirePq : Bool

def senderSession (draws : EncryptDraws) (keys : SenderKeys) (peerId : String)
    (m : RatchetSessionManager K) : Except String (RatchetSession K × RatchetSessionManager K) :=
  match keys.ourBundle, keys.recipientBundle with
  | some ourB, some theirB =>
    match keys.ourX25519Secret with
    | none => .error ("Hybrid session for peer " ++ peerId ++ " requires our dedicated X25519 secret")
    | some ourX25519 =>
      m.getOrCreateSessionHybrid P draws.session peerId keys.signingKey ourX25519 ourB theirB
  | _, _ =>
    match ed25519PublicToX25519 P keys.recipientPublicKeyFallback with
    | .error e => .error e
    | .ok theirX25519 =>
      .ok (m.getOrCreateSession P draws.session.dhSecret peerId keys.signingKey theirX25519)

/-- What the send path leaves. -/
structure SendResult (K : Type) where
  result : Except String WireEnvelope
  manager : Option (RatchetSessionManager K)
  auditLog : Option (List AuditEvent)

/-- Encrypt for a peer: with its session, created if need be, or with per-message Diffie-Hellman. -/
def encryptWithRatchetFallback (draws : EncryptDraws) (keys : SenderKeys) (plaintext : Bytes)
    (manager : Option (RatchetSessionManager K)) (peerId : String)
    (auditLog : Option (List AuditEvent)) : SendResult K :=
  let sessionExists := match manager with
    | some m => m.hasSession peerId
    | none => false
  match shouldUseRatchetedEncryption keys.recipientBundle sessionExists keys.requirePq peerId with
  | .error e => ⟨.error e, manager, auditLog⟩
  | .ok true =>
    match manager with
    | none => ⟨.error "Session exists but no session manager provided", none, auditLog⟩
    | some m =>
      match senderSession P draws keys peerId m with
      | .error e => ⟨.error e, some m, auditLog⟩
      | .ok (session, m') =>
        let (result, session') :=
          encryptMessageRatcheted P draws.send keys.signingKey session plaintext
        ⟨result, some (m'.insert peerId session'), auditLog⟩
  | .ok false =>
    let auditLog' := auditLog.map (· ++ [⟨.legacyStaticEcdhSend, none, some peerId, none⟩])
    match encryptMessage P draws.ephemeralSecret draws.send.nonce keys.signingKey
        keys.recipientPublicKeyFallback plaintext with
    | .error e => ⟨.error e, manager, auditLog'⟩
    | .ok envelope => ⟨.ok (.v1 envelope), manager, auditLog'⟩

/-! ## Receiving -/

def peerIdOf (senderPublicKey : Bytes) : String := hexEncode (P.blake3 senderPublicKey).1

/-- The key material of the receive path. -/
structure ReceiverKeys where
  signingKey : Arr 32
  x25519Secret : Option (Arr 32)
  mlkemKeypair : Option MlKem768KeyPair
  ourBundle : Option PublicKeyBundle
  senderBundle : Option PublicKeyBundle

/-- Draws for the session built first, its try, the session built over it, and the retry. -/
structure ReceiveDraws where
  initSecret : Arr 32
  firstTry : Nat → Arr 32
  rebuildSecret : Arr 32
  retry : Nat → Arr 32

def initReceiverV1Session (keys : ReceiverKeys) (envelope : Envelope) (dhSecret : Arr 32) :
    Outcome String (RatchetSession K) :=
  match Arr.ofBytes? 32 envelope.senderPublicKey with
  | none => .panicked
  | some senderEd =>
    match ed25519PublicToX25519 P senderEd with
    | .error e => .err e
    | .ok senderX25519 =>
      .ok (RatchetSession.initAsReceiver P dhSecret keys.signingKey senderX25519)

def bootstrapCiphertext (envelope : EnvelopeV2) : Outcome String (Option HybridCiphertext) :=
  match envelope.pqKemCiphertext with
  | none => .ok none
  | some mlk =>
    match Arr.ofBytes? 32 envelope.ephemeralPublicKey, Arr.ofBytes? 1088 mlk with
    | some e, some m => .ok (some ⟨e, m.1⟩)
    | _, _ => .panicked

def initReceiverV2Session (keys : ReceiverKeys) (envelope : EnvelopeV2) (dhSecret : Arr 32) :
    Outcome String (RatchetSession K) :=
  match keys.mlkemKeypair, keys.ourBundle, keys.senderBundle with
  | some ourK, some ourB, some theirB =>
    match bootstrapCiphertext envelope with
    | .panicked => .panicked
    | .err e => .err e
    | .ok hct =>
      match keys.x25519Secret with
      | none => .err "V2 session requires recipient x25519 secret"
      | some x25519Secret =>
        .ofExcept (receiverSessionHybrid P dhSecret keys.signingKey x25519Secret ourK ourB theirB hct)
  | _, _, _ => .err "V2 ratcheted envelope received, but missing keys/bundles for hybrid init"

variable {P}

/-- Try a session, and on failure build one over it and try that; `report` chooses the error. -/
def tryThenRebuild (build : Arr 32 → Outcome String (RatchetSession K))
    (attempt : (Nat → Arr 32) → RatchetSession K → Except String Bytes × RatchetSession K)
    (report : String → String → String) (draws : ReceiveDraws) (peerId : String)
    (m : RatchetSessionManager K) (session : RatchetSession K) :
    Outcome String Bytes × RatchetSessionManager K :=
  match attempt draws.firstTry session with
  | (.ok plaintext, session') => (.ok plaintext, m.insert peerId session')
  | (.error firstError, session') =>
    match build draws.rebuildSecret with
    | .panicked => (.panicked, m.insert peerId session')
    | .err e => (.err (report firstError e), m.insert peerId session')
    | .ok rebuilt =>
      match attempt draws.retry rebuilt with
      | (.ok plaintext, rebuilt') => (.ok plaintext, m.insert peerId rebuilt')
      | (.error _, rebuilt') => (.err firstError, m.insert peerId rebuilt')

/-- The receive pattern of both formats: use the stored session, or build one when there is none. -/
def withRecovery (build : Arr 32 → Outcome String (RatchetSession K))
    (attempt : (Nat → Arr 32) → RatchetSession K → Except String Bytes × RatchetSession K)
    (report : String → String → String) (draws : ReceiveDraws) (peerId : String)
    (m : RatchetSessionManager K) : Outcome String Bytes × RatchetSessionManager K :=
  match m.sessions peerId with
  | some session => tryThenRebuild build attempt report draws peerId m session
  | none =>
    match build draws.initSecret with
    | .panicked => (.panicked, m)
    | .err e => (.err e, m)
    | .ok session => tryThenRebuild build attempt report draws peerId m session

variable (P)

def decryptV1WithManager (draws : ReceiveDraws) (keys : ReceiverKeys) (envelope : Envelope)
    (m : RatchetSessionManager K) : Outcome String Bytes × RatchetSessionManager K :=
  withRecovery (initReceiverV1Session P keys envelope)
    (fun rng session => decryptMessageRatcheted P rng session envelope)
    (fun _ buildError => buildError) draws (peerIdOf P envelope.senderPublicKey) m

def decryptV2WithManager (draws : ReceiveDraws) (keys : ReceiverKeys) (envelope : EnvelopeV2)
    (m : RatchetSessionManager K) : Outcome String Bytes × RatchetSessionManager K :=
  withRecovery (initReceiverV2Session P keys envelope)
    (fun rng session => decryptMessageRatchetedV2 P rng session envelope)
    (fun firstError _ => firstError) draws (peerIdOf P envelope.senderPublicKey) m

def decryptWithRatchetFallback (draws : ReceiveDraws) (keys : ReceiverKeys) (wire : WireEnvelope)
    (manager : Option (RatchetSessionManager K)) :
    Outcome String Bytes × Option (RatchetSessionManager K) :=
  match wire with
  | .v1 envelope =>
    if isRatchetedEnvelope envelope then
      match manager with
      | some m =>
        let (result, m') := decryptV1WithManager P draws keys envelope m
        (result, some m')
      | none => (.err "Ratcheted V1 envelope received but no active ratchet session", none)
    else (.ofExcept (decryptMessage P keys.signingKey envelope), manager)
  | .v2 envelope =>
    match manager with
    | some m =>
      let (result, m') := decryptV2WithManager P draws keys envelope m
      (result, some m')
    | none => (.err "V2 envelope received but no session manager available", none)

variable {P}

/-! ## What one call does to the manager -/

section Recovery

variable {build : Arr 32 → Outcome String (RatchetSession K)}
  {attempt : (Nat → Arr 32) → RatchetSession K → Except String Bytes × RatchetSession K}
  {report : String → String → String} {draws : ReceiveDraws} {peerId : String}
  {m : RatchetSessionManager K}

/-- `p` came from an attempt on the stored or a built session, whose result is stored. -/
def RecoveredBy (build : Arr 32 → Outcome String (RatchetSession K))
    (attempt : (Nat → Arr 32) → RatchetSession K → Except String Bytes × RatchetSession K)
    (draws : ReceiveDraws) (peerId : String) (m : RatchetSessionManager K) (p : Bytes)
    (m' : RatchetSessionManager K) : Prop :=
  ∃ rng s s', (rng = draws.firstTry ∨ rng = draws.retry)
    ∧ (m.sessions peerId = some s ∨ ∃ x, build x = .ok s)
    ∧ attempt rng s = (.ok p, s') ∧ m' = m.insert peerId s'

theorem withRecovery_ok {p : Bytes} {m' : RatchetSessionManager K}
    (h : withRecovery build attempt report draws peerId m = (.ok p, m')) :
    RecoveredBy build attempt draws peerId m p m' := by
  have ht : ∀ s, (m.sessions peerId = some s ∨ ∃ x, build x = .ok s) →
      tryThenRebuild build attempt report draws peerId m s = (.ok p, m') →
      RecoveredBy build attempt draws peerId m p m' := by
    intro s hs hr
    unfold tryThenRebuild at hr
    split at hr
    · rename_i q s' he
      cases hr
      exact ⟨_, s, s', .inl rfl, hs, he, rfl⟩
    · split at hr
      · cases hr
      · cases hr
      · rename_i r hb
        split at hr
        · rename_i s' he
          cases hr
          exact ⟨_, r, s', .inr rfl, .inr ⟨_, hb⟩, he, rfl⟩
        · cases hr
  unfold withRecovery at h
  split at h
  · rename_i s hs
    exact ht s (.inl hs) h
  · split at h
    · cases h
    · cases h
    · rename_i s hb
      exact ht s (.inr ⟨_, hb⟩) h

theorem withRecovery_sessions_of_ne {k : String} (hk : k ≠ peerId) :
    (withRecovery build attempt report draws peerId m).2.sessions k = m.sessions k := by
  have ht : ∀ s, (tryThenRebuild build attempt report draws peerId m s).2.sessions k
      = m.sessions k := by
    intro s
    unfold tryThenRebuild
    split
    · exact m.insert_sessions_of_ne _ hk
    · split
      · exact m.insert_sessions_of_ne _ hk
      · exact m.insert_sessions_of_ne _ hk
      · split <;> exact m.insert_sessions_of_ne _ hk
  unfold withRecovery
  split
  · exact ht _
  · split
    · rfl
    · rfl
    · exact ht _

/-- Receiving is a matter of the session of the sender alone. -/
theorem withRecovery_local {m' : RatchetSessionManager K} (h : m.sessions peerId = m'.sessions peerId) :
    (withRecovery build attempt report draws peerId m).1
        = (withRecovery build attempt report draws peerId m').1
      ∧ (withRecovery build attempt report draws peerId m).2.sessions peerId
        = (withRecovery build attempt report draws peerId m').2.sessions peerId := by
  have ht : ∀ s, ∃ r s', ∀ m, tryThenRebuild build attempt report draws peerId m s = (r, m.insert peerId s') := by
    intro s
    unfold tryThenRebuild
    split
    · exact ⟨_, _, fun _ => rfl⟩
    · split
      · exact ⟨_, _, fun _ => rfl⟩
      · exact ⟨_, _, fun _ => rfl⟩
      · split <;> exact ⟨_, _, fun _ => rfl⟩
  unfold withRecovery
  rw [← h]
  split
  · next s _ =>
    obtain ⟨r, s', he⟩ := ht s
    simp [he]
  · split
    · exact ⟨rfl, h⟩
    · exact ⟨rfl, h⟩
    · next s _ =>
      obtain ⟨r, s', he⟩ := ht s
      simp [he]

end Recovery

theorem decryptWithRatchetFallback_frame (draws : ReceiveDraws) (ke : ReceiverKeys) (w : WireEnvelope)
    (m : RatchetSessionManager K) :
    ∃ m', (decryptWithRatchetFallback P draws ke w (some m)).2 = some m'
      ∧ ∀ k, k ≠ peerIdOf P w.senderPublicKey → m'.sessions k = m.sessions k := by
  cases w with
  | v1 e =>
    unfold decryptWithRatchetFallback
    simp only
    split
    · exact ⟨_, rfl, fun k hk => withRecovery_sessions_of_ne hk⟩
    · exact ⟨m, rfl, fun k _ => rfl⟩
  | v2 e => exact ⟨_, rfl, fun k hk => withRecovery_sessions_of_ne hk⟩

theorem senderSession_frame {draws : EncryptDraws} {ke : SenderKeys} {peerId : String}
    {m m' : RatchetSessionManager K} {s : RatchetSession K}
    (h : senderSession P draws ke peerId m = .ok (s, m')) :
    (∀ k, k ≠ peerId → m'.sessions k = m.sessions k)
      ∧ ∀ t, m.sessions peerId = some t → s = t := by
  unfold senderSession at h
  split at h
  · split at h
    · cases h
    · unfold RatchetSessionManager.getOrCreateSessionHybrid at h
      split at h
      · rename_i t ht
        cases h
        exact ⟨fun k _ => rfl, fun t' ht' => Option.some.inj (ht.symm.trans ht')⟩
      · rename_i hn
        split at h
        · cases h
        · cases h
          exact ⟨fun k hk => m.insert_sessions_of_ne _ hk,
            fun t' ht' => absurd (hn.symm.trans ht') (by simp)⟩
  · split at h
    · cases h
    · unfold RatchetSessionManager.getOrCreateSession at h
      split at h
      · rename_i t ht
        cases h
        exact ⟨fun k _ => rfl, fun t' ht' => Option.some.inj (ht.symm.trans ht')⟩
      · rename_i hn
        cases h
        exact ⟨fun k hk => m.insert_sessions_of_ne _ hk,
          fun t' ht' => absurd (hn.symm.trans ht') (by simp)⟩

theorem encryptWithRatchetFallback_frame (draws : EncryptDraws) (ke : SenderKeys) (p : Bytes)
    (m : RatchetSessionManager K) (peerId : String) (log : Option (List AuditEvent)) :
    ∃ m', (encryptWithRatchetFallback P draws ke p (some m) peerId log).manager = some m'
      ∧ ∀ k, k ≠ peerId → m'.sessions k = m.sessions k := by
  unfold encryptWithRatchetFallback
  simp only
  split
  · exact ⟨m, rfl, fun k _ => rfl⟩
  · split
    · exact ⟨m, rfl, fun k _ => rfl⟩
    · rename_i s m' hs
      refine ⟨_, rfl, fun k hk => ?_⟩
      rw [m'.insert_sessions_of_ne _ hk]
      exact (senderSession_frame hs).1 k hk
  · split <;> exact ⟨m, rfl, fun k _ => rfl⟩

theorem encryptWithRatchetFallback_stored {draws : EncryptDraws} {k : SenderKeys} {p : Bytes}
    {m : RatchetSessionManager K} {peerId : String} {log : Option (List AuditEvent)} {s : RatchetSession K}
    (hs : m.sessions peerId = some s) {w : WireEnvelope}
    (h : (encryptWithRatchetFallback P draws k p (some m) peerId log).result = .ok w) :
    (encryptMessageRatcheted P draws.send k.signingKey s p).1 = .ok w := by
  have hu : ∀ b r, shouldUseRatchetedEncryption b (m.hasSession peerId) r peerId = .ok true := by
    intro b r
    simp [shouldUseRatchetedEncryption, RatchetSessionManager.hasSession, hs]
  unfold encryptWithRatchetFallback at h
  simp only [hu] at h
  split at h
  · cases h
  · rename_i t m' ht
    obtain rfl := (senderSession_frame ht).2 s hs
    exact h

/-- What the receive path returns was in the ciphertext, under some key. -/
theorem decryptWithRatchetFallback_opens {draws : ReceiveDraws} {ke : ReceiverKeys} {w : WireEnvelope}
    {ma m' : Option (RatchetSessionManager K)} {p : Bytes}
    (h : decryptWithRatchetFallback P draws ke w ma = (.ok p, m')) :
    ∃ (k : K) (N : Arr 24), P.aeadOpen k N w.ciphertext w.senderPublicKey = some p := by
  have h₁ := congrArg Prod.fst h
  cases w with
  | v1 e =>
    unfold decryptWithRatchetFallback at h₁
    simp only at h₁
    split at h₁
    · cases ma with
      | none => cases h₁
      | some m =>
        obtain ⟨rng, s, s', -, -, he, -⟩ := withRecovery_ok (Prod.ext h₁ rfl)
        rcases decryptMessageRatcheted_spec (P := P) s rng e with
          ⟨d, n, k, q, s'', hop, -, hr⟩ | ⟨-, err, hr⟩
        · cases hr.symm.trans he
          obtain ⟨N, -, ho⟩ := hop.opens
          exact ⟨k, N, ho⟩
        · cases hr.symm.trans he
    · cases hd : decryptMessage P ke.signingKey e with
      | error err => simp [hd, Outcome.ofExcept] at h₁
      | ok q =>
        simp only [hd, Outcome.ofExcept, Outcome.ok.injEq] at h₁
        subst h₁
        exact decryptMessage_opens hd
  | v2 e =>
    unfold decryptWithRatchetFallback at h₁
    cases ma with
    | none => cases h₁
    | some m =>
      obtain ⟨rng, s, s', -, -, he, -⟩ := withRecovery_ok (Prod.ext h₁ rfl)
      rcases decryptMessageRatchetedV2_spec (P := P) s rng e with
        ⟨s₁, d, n, k, q, s'', hop, -, hr⟩ | ⟨-, err, hr⟩
      · cases hr.symm.trans he
        obtain ⟨N, -, ho⟩ := hop.opens.opens
        exact ⟨k, N, ho⟩
      · cases hr.symm.trans he

/-! ## Sample draws, told apart by one byte -/

def sampleSendDraws (x : UInt8) : SendDraws := ⟨Arr.fit 24 [x], Arr.fit 32 [x], Arr.fit 64 [x]⟩

def sampleEncryptDraws (x : UInt8) : EncryptDraws where
  session := ⟨Arr.fit 32 [x, 1], Arr.fit 32 [x, 2], Arr.fit 32 [x, 3], Arr.fit 64 [x, 4]⟩
  send := sampleSendDraws x
  ephemeralSecret := Arr.fit 32 [x, 5]

end SCMessenger
