import SCMessenger.Crypto.Conversation
import SCMessenger.Crypto.Recovery

/-!
# Two peers that write first

When two first envelopes cross, each side replaces its session by one over the other's envelope, and from
then on answers a session the other side no longer holds.
-/

namespace SCMessenger

open RatchetSession

variable {K : Type} {P : Primitives K}

/-! ## Root keys of two kinds -/

/-- The root keys a session starts from. -/
inductive StartRoot (P : Primitives K) : K → Prop
  | classical (static : K) : StartRoot P (deriveRootKeyV1 P P.zeroKey static)
  | suite02 (hash : Arr 32) (ss : K) : StartRoot P (sessionRootV2 P hash ss)
  | suite03 (static : K) (hash : Arr 32) (ss : K) : StartRoot P (sessionRootV3 P static hash ss)

theorem StartRoot.ne_step (hk : KdfIdeal P) {k r : K} {keys : K × K} (h : StartRoot P k)
    (hs : RootStep P r keys) : k ≠ keys.1 := by
  intro he
  cases h <;> cases hs <;>
    exact absurd (hk.inj _ _ _ _ he).1 (by decide)

theorem RootStep.start_unique (hk : KdfIdeal P) {r r' : K} {keys k' : K × K} (h : RootStep P r keys)
    (h' : RootStep P r' k') (he : keys.1 = k'.1) : r = r' := by
  cases h <;> cases h' <;>
    · have hi := rootKeyRatchet_fst_inj hk he
      simp only [List.cons_append, List.cons.injEq, Material.secret.injEq] at hi
      exact hi.1

/-! ## Messages of another root -/

/-- A session from which no key of a chain's first message derived from the root `ρ` can come. -/
structure Foreign (s : RatchetSession K) (ρ : K) : Prop where
  skippedKeys : s.skippedKeys = ∅
  advanced : ∀ c, s.receivingChain = some c → 0 < c.index
  root : s.rootKey ≠ ρ

namespace Foreign

variable {s : RatchetSession K} {ρ : K} {keys : K × K}

theorem openingKey_ne (hkd : KdfIdeal P) (h : Foreign s ρ) (hs : RootStep P ρ keys) (d : Arr 32) :
    s.openingKey P d 0 ≠ some (messageKey P keys.2) := by
  intro he
  have hn : s.skippedKeys[(d, (0 : UInt32))]? = none := by simp [h.skippedKeys]
  simp only [openingKey, hn, chainFor] at he
  split at he
  · -- a chain in use is past its first message
    obtain ⟨c, hc, hk⟩ := Option.bind_eq_some_iff.mp he
    have hl := (Chain.messageKeyAt_eq_some hk).1
    exact absurd (h.advanced c hc) (UInt32.not_lt.mpr hl)
  · have hk := Chain.messageKeyAt_index (P := P) (Chain.new (s.receivingKeys P d).2)
    have hch := messageKey_inj hkd (Option.some.inj (hk.symm.trans he))
    exact h.root ((rootStep_spec s _ _ _).root_unique hkd hs hch)

theorem absorb (h : Foreign s ρ) {e : EnvelopeV2} {n : UInt32} {s₁ : RatchetSession K}
    (ha : absorbPqFields P s e n = (.ok (), s₁)) : Foreign s₁ ρ := by
  rcases absorbPqFields_cases (P := P) s e n with
    ⟨_, h'⟩ | h' | ⟨_, _, _, _, _, _, _, _, h'⟩
  · cases h'.symm.trans ha
  · cases h'.symm.trans ha
    exact h
  · cases h'.symm.trans ha
    exact ⟨h.skippedKeys, h.advanced, h.root⟩

/-- **The first message of a chain derived from another root is rejected.** -/
theorem rejects (hkd : KdfIdeal P) (ha : AeadIdeal P) (h : Foreign s ρ) (hs : RootStep P ρ keys)
    {d : Arr 32} {p : Bytes} {w : WireEnvelope} (hc : Carries P d (Chain.new keys.2) p w)
    (rng : Nat → Arr 32) : ∃ e s', decryptWire P rng s w = (.error e, s') := by
  obtain ⟨hd, hn, N, hN, hct⟩ := hc
  -- whatever opens the ciphertext is the key that sealed it
  have hno : ∀ {t : RatchetSession K} {d' : Arr 32} {n : UInt32} {k : K} {q : Bytes}, Foreign t ρ →
      ¬ Opens P t w.ratchetDhPublic w.ratchetMessageNumber w.nonce w.ciphertext w.senderPublicKey
        d' n k q := by
    intro t d' n k q ht hop
    obtain rfl : (0 : UInt32) = n := Option.some.inj (hn.symm.trans hop.number_eq)
    obtain ⟨N', -, ho⟩ := hop.opens
    rw [hct] at ho
    have hk := ha.key_unique ho (ha.open_seal _ N p w.senderPublicKey)
    exact ht.openingKey_ne hkd hs d' (hk ▸ hop.key)
  cases w with
  | v1 e =>
    rcases decryptMessageRatcheted_spec (P := P) s rng e with
      ⟨d', n, k, q, s', hop, -⟩ | ⟨-, err, he⟩
    · exact absurd hop (hno h)
    · exact ⟨err, s, he⟩
  | v2 e =>
    rcases decryptMessageRatchetedV2_spec (P := P) s rng e with
      ⟨s₁, d', n, k, q, s', hop, -⟩ | ⟨-, err, he⟩
    · exact absurd hop.opens (hno (h.absorb hop.absorb))
    · exact ⟨err, _, he⟩

end Foreign

/-! ## The receive path on either format -/

def rebuildFor (P : Primitives K) (keys : ReceiverKeys) :
    WireEnvelope → Arr 32 → Outcome String (RatchetSession K)
  | .v1 e => initReceiverV1Session P keys e
  | .v2 e => initReceiverV2Session P keys e

variable {w : WireEnvelope}

theorem decryptWithRatchetFallback_ratcheted {d : Arr 32} {c : Chain K} {p : Bytes}
    (hc : Carries P d c p w) (dr : ReceiveDraws) (keys : ReceiverKeys) (m : RatchetSessionManager K) :
    ∃ re, decryptWithRatchetFallback P dr keys w (some m)
      = ((withRecovery (rebuildFor P keys w) (fun rng s => decryptWire P rng s w) re dr
            (peerIdOf P w.senderPublicKey) m).1,
          some (withRecovery (rebuildFor P keys w) (fun rng s => decryptWire P rng s w) re dr
            (peerIdOf P w.senderPublicKey) m).2) := by
  cases w with
  | v1 e =>
    have hd : e.ratchetDhPublic = some d.1 := hc.dh
    have hn : e.ratchetMessageNumber = some c.index := hc.number
    have hr : isRatchetedEnvelope e = true := by simp [isRatchetedEnvelope, hd, hn]
    refine ⟨fun _ be => be, ?_⟩
    simp only [decryptWithRatchetFallback, hr, if_true]
    rfl
  | v2 e => exact ⟨fun f _ => f, rfl⟩

/-- A session the receive path has just built. -/
structure JustBuilt (P : Primitives K) (r : RatchetSession K) : Prop where
  fresh : FreshReceiver r
  root : StartRoot P r.rootKey
  steps : r.dhStepCount = 0

variable {x : Arr 32} {r : RatchetSession K}

theorem receiverSessionHybrid_justBuilt {sk x25519Secret : Arr 32} {kp : MlKem768KeyPair}
    {o t : PublicKeyBundle} {hct : Option HybridCiphertext}
    (h : receiverSessionHybrid P x sk x25519Secret kp o t hct = .ok r) :
    StartRoot P r.rootKey ∧ r.dhStepCount = 0 := by
  -- both hybrid suites go through one construction
  have hw : ∀ {su : UInt8} {ro : K → K} {hc : HybridCiphertext} {hash : Arr 32},
      (∀ ss, StartRoot P (ro ss)) →
      initAsReceiverWith P su ro x x25519Secret kp hc hash = .ok r →
      StartRoot P r.rootKey ∧ r.dhStepCount = 0 := by
    intro su ro hc hash hr hi
    unfold initAsReceiverWith at hi
    split at hi
    · cases hi
    · cases hi
      exact ⟨hr _, rfl⟩
  unfold receiverSessionHybrid at h
  split at h
  · cases h
  · split at h
    · split at h
      · exact hw (fun _ => .suite03 _ _ _) h
      · cases h
    · split at h
      · split at h
        · exact hw (fun _ => .suite02 _ _) h
        · cases h
      · cases h
        exact ⟨.classical _, rfl⟩

theorem rebuildFor_justBuilt {keys : ReceiverKeys} (h : rebuildFor P keys w x = .ok r) : JustBuilt P r := by
  cases w with
  | v1 e =>
    have hf := (initReceiverV1Session_builds keys e).fresh h
    simp only [rebuildFor, initReceiverV1Session] at h
    split at h
    · cases h
    · split at h
      · cases h
      · cases h
        exact ⟨hf, .classical _, rfl⟩
  | v2 e =>
    have hf := (initReceiverV2Session_builds keys e).fresh h
    simp only [rebuildFor, initReceiverV2Session] at h
    split at h
    · split at h
      · cases h
      · cases h
      · split at h
        · cases h
        · obtain ⟨hr, hs⟩ := receiverSessionHybrid_justBuilt (Outcome.ofExcept_eq_ok.mp h)
          exact ⟨hf, hr, hs⟩
    · cases h

/-! ## The session after a first message -/

section Answer

variable {r : RatchetSession K} (x d : Arr 32)

theorem afterRatchet_keys (r : RatchetSession K) : ∃ keys : K × K,
    RootStep P (r.receivingKeys P d).1 keys ∧ (r.afterRatchet P x d).rootKey = keys.1
      ∧ (r.afterRatchet P x d).sendingChain = some (Chain.new keys.2) :=
  ⟨_, rootStep_spec r _ _ _, rfl, rfl⟩

/-- A session that has opened a first message answers with the first message of a chain of its own. -/
theorem JustBuilt.answers (h : JustBuilt P r) (dr : SendDraws) (sk : Arr 32) (p : Bytes) :
    ∃ w s' keys, encryptMessageRatcheted P dr sk (r.afterRatchet P x d) p = (.ok w, s')
      ∧ w.senderPublicKey = (P.edPublic sk).1 ∧ RootStep P (r.receivingKeys P d).1 keys
      ∧ Carries P (P.x25519Public x) (Chain.new keys.2) p w := by
  obtain ⟨keys, hs, -, hch⟩ := afterRatchet_keys (P := P) x d r
  have hst : (r.afterRatchet P x d).dhStepCount < maxRatchetSteps := by
    have ho : (r.afterRatchet P x d).dhStepCount = r.dhStepCount + 1 := rfl
    rw [ho, h.steps]
    decide
  cases hh : (r.afterRatchet P x d).isPqHybrid with
  | true =>
    obtain ⟨e, s', he, hp, hc, -⟩ :=
      encryptMessageRatcheted_hybrid (P := P) hh hch hst dr sk p
    exact ⟨.v2 e, s', keys, he, hp, hs, hc⟩
  | false =>
    obtain ⟨e, he, hp, hc⟩ :=
      encryptMessageRatcheted_classical (P := P) hh hch hst dr sk p
    exact ⟨.v1 e, _, keys, he, hp, hs, hc⟩

theorem JustBuilt.foreign (hk : KdfIdeal P) (h : JustBuilt P r) {t : RatchetSession K} (d : Arr 32) :
    Foreign r (t.receivingKeys P d).1 where
  skippedKeys := h.fresh.skippedKeys
  advanced c hc := absurd (h.fresh.receivingChain.symm.trans hc) (by simp)
  root := h.root.ne_step hk (rootStep_spec t _ _ _)

theorem JustBuilt.foreign_afterRatchet (hk : KdfIdeal P) (h : JustBuilt P r) {t : RatchetSession K}
    (ht : JustBuilt P t) (d' : Arr 32) :
    Foreign (r.afterRatchet P x d) (t.receivingKeys P d').1 where
  skippedKeys := h.fresh.skippedKeys
  advanced c hc := by
    have hn : some ((Chain.new (r.receivingKeys P d).2).nextMessageKey P).2 = some c := hc
    rw [← Option.some.inj hn]
    exact (by decide : (0 : UInt32) < 0 + 1)
  root := by
    intro he
    obtain ⟨keys, hs, hr, -⟩ := afterRatchet_keys (P := P) x d r
    have hst := hs.start_unique hk (rootStep_spec t _ _ _) (hr.symm.trans he)
    exact ht.root.ne_step hk (rootStep_spec r _ _ _) hst.symm

end Answer

/-- **The answer is lost**: it is rejected by the stored session and by the one built over it. -/
theorem answer_rejected (hk : KdfIdeal P) (ha : AeadIdeal P) {t : RatchetSession K}
    (hr : JustBuilt P r) (ht : JustBuilt P t) {d d' d'' : Arr 32} {keys : K × K}
    (hsp : RootStep P (t.receivingKeys P d').1 keys) {p : Bytes}
    (hc : Carries P d'' (Chain.new keys.2) p w) {m : RatchetSessionManager K}
    (hm : m.sessions (peerIdOf P w.senderPublicKey) = some (r.afterRatchet P x d)) (dr : ReceiveDraws)
    (rk : ReceiverKeys) : (decryptWithRatchetFallback P dr rk w (some m)).1 ≠ .ok p := by
  obtain ⟨re, he⟩ := decryptWithRatchetFallback_ratcheted hc dr rk m
  rw [he]
  intro ho
  obtain ⟨rng, s, s', -, hs, hat, -⟩ := withRecovery_ok (Prod.ext ho rfl)
  have hf : Foreign s (t.receivingKeys P d').1 := by
    rcases hs with hst | ⟨y, hb⟩
    · obtain rfl := Option.some.inj (hm.symm.trans hst)
      exact hr.foreign_afterRatchet x d hk ht d'
    · exact (rebuildFor_justBuilt hb).foreign hk d'
  obtain ⟨e, s'', hre⟩ := hf.rejects hk ha hsp hc rng
  cases hre.symm.trans hat

/-! ## The parties -/

/-- A party: its keys, its suites, whether it sends with its own bundle, whether it insists on PQ. -/
structure Party where
  keys : IdentityKeys
  suites : Bytes
  offersBundle : Bool
  requirePq : Bool

namespace Party

def peerId (P : Primitives K) (a : Party) : String := peerIdOf P (P.edPublic a.keys.signingKey).1

def senderKeys (P : Primitives K) (a b : Party) : SenderKeys where
  signingKey := a.keys.signingKey
  recipientBundle := some (b.keys.bundle P b.suites)
  recipientPublicKeyFallback := P.edPublic b.keys.signingKey
  ourBundle := if a.offersBundle then some (a.keys.bundle P a.suites) else none
  ourX25519Secret := some a.keys.x25519EncryptionSecret
  requirePq := a.requirePq

def receiverKeys (P : Primitives K) (b a : Party) : ReceiverKeys where
  signingKey := b.keys.signingKey
  x25519Secret := some b.keys.x25519EncryptionSecret
  mlkemKeypair := some b.keys.mlkemKeypair
  ourBundle := some (b.keys.bundle P b.suites)
  senderBundle := some (a.keys.bundle P a.suites)

/-- `a` starts a session when it writes to `b`: a hybrid suite is listed, with its own bundle a common one. -/
def Starts (a b : Party) : Prop :=
  (∃ suite ∈ b.suites, suite ∈ hybridSuiteIds)
    ∧ (a.offersBundle = true → ∃ suite ∈ a.suites, suite ∈ b.suites)

end Party

variable {a b : Party} {m : RatchetSessionManager K} {p : Bytes}

theorem shouldUse_of_starts (h : a.Starts b) (exists_ : Bool) (id : String) :
    shouldUseRatchetedEncryption (a.senderKeys P b).recipientBundle exists_
      (a.senderKeys P b).requirePq id = .ok true := by
  obtain ⟨su, hm, hh⟩ := h.1
  have ha : b.suites.any (hybridSuiteIds.contains ·) = true :=
    List.any_eq_true.mpr ⟨su, hm, by simpa using hh⟩
  simp only [shouldUseRatchetedEncryption, Party.senderKeys, IdentityKeys.bundle, ha, if_true]

variable {s : RatchetSession K}

theorem encryptWithRatchetFallback_of_session (h : a.Starts b) {dr : EncryptDraws} {id : String}
    {s' : RatchetSession K} {m' : RatchetSessionManager K}
    (hs : senderSession P dr (a.senderKeys P b) id m = .ok (s, m'))
    (he : encryptMessageRatcheted P dr.send a.keys.signingKey s p = (.ok w, s')) :
    encryptWithRatchetFallback P dr (a.senderKeys P b) p (some m) id none
      = ⟨.ok w, some (m'.insert id s'), none⟩ := by
  have he' : encryptMessageRatcheted P dr.send (a.senderKeys P b).signingKey s p
      = (.ok w, s') := he
  simp only [encryptWithRatchetFallback, shouldUse_of_starts h, hs, he']

theorem senderSession_stored (he : EdConversion P) (dr : EncryptDraws) {id : String}
    (hs : m.sessions id = some s) : senderSession P dr (a.senderKeys P b) id m = .ok (s, m) := by
  unfold senderSession Party.senderKeys
  cases a.offersBundle with
  | true => simp [RatchetSessionManager.getOrCreateSessionHybrid, hs]
  | false =>
    simp [ed25519PublicToX25519, he b.keys.signingKey,
      RatchetSessionManager.getOrCreateSession, hs]

/-! ## First contact -/

/-- `a` has written to `b` first, and `b` can build a session that opens the envelope. -/
structure FirstContact (P : Primitives K) (a b : Party) (p : Bytes) (w : WireEnvelope)
    (s' : RatchetSession K) : Prop where
  sender : w.senderPublicKey = (P.edPublic a.keys.signingKey).1
  skippedKeys : s'.skippedKeys = ∅
  receivingChain : s'.receivingChain = none
  opens : ∃ ρ keys d, StartRoot P ρ ∧ RootStep P ρ keys ∧ s'.rootKey = keys.1
    ∧ Carries P d (Chain.new keys.2) p w
    ∧ ∀ x rng, ∃ r, rebuildFor P (b.receiverKeys P a) w x = .ok r
      ∧ decryptWire P rng r w = (.ok p, r.afterRatchet P (rng 0) d)

theorem encryptMessageRatcheted_sender {dr : SendDraws} {sk : Arr 32} {s' : RatchetSession K}
    (h : encryptMessageRatcheted P dr sk s p = (.ok w, s')) : w.senderPublicKey = (P.edPublic sk).1 := by
  unfold encryptMessageRatcheted at h
  simp only at h
  split at h
  · cases h
  · split at h
    · cases h
      rfl
    · cases h
      rfl

/-- **First contact with a hybrid suite.** -/
theorem firstContact_hybrid (hd : DhIdeal P) (hk : KemIdeal P) (ha : AeadIdeal P) {su : UInt8}
    (hsu : commonSuite a.suites b.suites = some su) (hh : su ∈ hybridSuiteIds)
    (dr : EncryptDraws) (p : Bytes) :
    ∃ s w s', senderSessionHybrid P dr.session a.keys.signingKey a.keys.x25519EncryptionSecret
          (a.keys.bundle P a.suites) (b.keys.bundle P b.suites) = .ok s
      ∧ encryptMessageRatcheted P dr.send a.keys.signingKey s p = (.ok w, s')
      ∧ FirstContact P a b p w s' := by
  obtain ⟨ro, hs, hr⟩ := bootstrap_hybrid hd hk a.keys b.keys hsu hh dr.session
  obtain ⟨e, he, hc, hhc, ht⟩ := hybridSender_firstEnvelope (P := P) hh
    (transcriptHashOf P a.keys b.keys a.suites b.suites su) ro dr.session b.keys dr.send
    a.keys.signingKey p
  obtain ⟨hro, -⟩ := receiverSessionHybrid_justBuilt (hr dr.session.dhSecret)
  have hb : ∀ x, rebuildFor P (b.receiverKeys P a) (.v2 e) x = .ok (hybridReceiver P su
      (transcriptHashOf P a.keys b.keys a.suites b.suites su)
      (bootstrapHctOf P dr.session b.keys) ro x b.keys) := by
    intro x
    simp only [rebuildFor, initReceiverV2Session, Party.receiverKeys, hhc, hr x]
    rfl
  have ho := fun x rng => firstEnvelope_opens ha (hybrid_agrees hd hh
    (transcriptHashOf P a.keys b.keys a.suites b.suites su)
    (bootstrapHctOf P dr.session b.keys) ro dr.session x b.keys) ⟨rfl, rfl, rfl⟩ rfl hc
    (fun e' he' => by cases he'; exact ht) rng
  exact ⟨_, _, _, hs, he, encryptMessageRatcheted_sender he, rfl, rfl, ro, _, _, hro,
    .v2 _ _, rfl, hc, fun x rng => ⟨_, hb x, ho x rng⟩⟩

/-- Both sides of a classical first contact convert the sender's Ed25519 key. -/
theorem firstContact_classical (hdh : DhIdeal P) (ha : AeadIdeal P) (hed : EdConversion P) (hs : s = { initAsSender P x a.keys.signingKey
        (P.x25519Public (ed25519ToX25519Secret P b.keys.signingKey)) with
      negotiatedSuite := s.negotiatedSuite
      transcriptHash := s.transcriptHash }) (hcl : s.isPqHybrid = false) (dr : SendDraws)
    (p : Bytes) :
    ∃ w s', encryptMessageRatcheted P dr a.keys.signingKey s p = (.ok w, s')
      ∧ FirstContact P a b p w s' := by
  obtain ⟨root, hro⟩ : ∃ root, root = deriveRootKeyV1 P P.zeroKey
    (P.diffieHellman (ed25519ToX25519Secret P a.keys.signingKey)
      (P.x25519Public (ed25519ToX25519Secret P b.keys.signingKey))) := ⟨_, rfl⟩
  have hk : s.rootKey = (rootKeyRatchetV1 P root (P.diffieHellman x
        (P.x25519Public (ed25519ToX25519Secret P b.keys.signingKey)))).1
      ∧ s.sendingChain = some (Chain.new (rootKeyRatchetV1 P root (P.diffieHellman x
        (P.x25519Public (ed25519ToX25519Secret P b.keys.signingKey)))).2)
      ∧ s.ourDhPublic = P.x25519Public x ∧ s.skippedKeys = ∅ ∧ s.receivingChain = none
      ∧ s.dhStepCount = 1 := by
    rw [hs, hro]
    exact ⟨rfl, rfl, rfl, rfl, rfl, rfl⟩
  obtain ⟨hrt, hch, hp, hsk, hre, hco⟩ := hk
  obtain ⟨e, he, hpk, hc⟩ := encryptMessageRatcheted_classical (P := P) hcl hch
    (by rw [hco]; decide) dr a.keys.signingKey p
  rw [hp] at hc
  refine ⟨.v1 e, _, he, hpk, hsk, hre, root, _, _, hro ▸ .classical _, .v1 _, hrt,
    hc, fun y rng => ?_⟩
  -- the session built from the static keys starts from the same root
  obtain ⟨r, hr⟩ : ∃ r, r = receiverState P y root (ed25519ToX25519Secret P b.keys.signingKey) :=
    ⟨_, rfl⟩
  have hb : rebuildFor P (b.receiverKeys P a) (.v1 e) y = .ok r := by
    have hse : Arr.ofBytes? 32 e.senderPublicKey = some (P.edPublic a.keys.signingKey) :=
      Arr.ofBytes?_eq_some.mpr hpk
    simp only [rebuildFor, initReceiverV1Session, hse, ed25519PublicToX25519,
      hed a.keys.signingKey, Party.receiverKeys, initAsReceiver, hr, hro]
    rw [hdh.comm]
  have hk : r.receivingKeys P (P.x25519Public x) = rootKeyRatchetV1 P root (P.diffieHellman x
      (P.x25519Public (ed25519ToX25519Secret P b.keys.signingKey))) := by
    rw [hr, ← hdh.comm]
    rfl
  rw [← hk] at hc
  have hd : r.theirDhPublic ≠ some (P.x25519Public x) := by simp [hr, receiverState]
  have hs' : r.skippedKeys = ∅ := by simp [hr, receiverState]
  exact ⟨r, hb, decryptMessageRatcheted_expected ha hs' (.ratchet hd) hc⟩

/-- **First contact**: the other party can build a session that opens the envelope. -/
theorem firstContact (hd : DhIdeal P) (hk : KemIdeal P) (ha : AeadIdeal P) (hed : EdConversion P)
    (h : a.Starts b) (hno : m.sessions (b.peerId P) = none) (dr : EncryptDraws) (p : Bytes) :
    ∃ w s', FirstContact P a b p w s'
      ∧ encryptWithRatchetFallback P dr (a.senderKeys P b) p (some m) (b.peerId P) none
        = ⟨.ok w, some (m.insert (b.peerId P) s'), none⟩ := by
  have hco : ed25519PublicToX25519 P (P.edPublic b.keys.signingKey)
      = .ok (P.x25519Public (ed25519ToX25519Secret P b.keys.signingKey)) := by
    simp only [ed25519PublicToX25519, hed b.keys.signingKey]
  have hf : ∀ {s w s'}, senderSession P dr (a.senderKeys P b) (b.peerId P) m
        = .ok (s, m.insert (b.peerId P) s) →
      encryptMessageRatcheted P dr.send a.keys.signingKey s p = (.ok w, s') →
      FirstContact P a b p w s' → ∃ w s', FirstContact P a b p w s'
        ∧ encryptWithRatchetFallback P dr (a.senderKeys P b) p (some m) (b.peerId P) none
          = ⟨.ok w, some (m.insert (b.peerId P) s'), none⟩ := by
    intro s w s' hs he hfi
    refine ⟨w, s', hfi, ?_⟩
    rw [encryptWithRatchetFallback_of_session h hs he, RatchetSessionManager.insert_insert]
  cases ho : a.offersBundle with
  | false =>
    obtain ⟨w, s', he, hfi⟩ := firstContact_classical (a := a) (b := b) hd ha hed
      (s := initAsSender P dr.session.dhSecret a.keys.signingKey
        (P.x25519Public (ed25519ToX25519Secret P b.keys.signingKey))) rfl rfl dr.send p
    refine hf ?_ he hfi
    simp only [senderSession, Party.senderKeys, ho, Bool.false_eq_true, if_false, hco,
      RatchetSessionManager.getOrCreateSession, hno]
  | true =>
    obtain ⟨t, ht, htB⟩ := h.2 ho
    obtain ⟨su, hsu⟩ : ∃ su, commonSuite a.suites b.suites = some su := by
      cases hc : commonSuite a.suites b.suites with
      | some su => exact ⟨su, rfl⟩
      | none => exact absurd htB (commonSuite_eq_none.mp hc t ht)
    have hn : ∀ {s}, senderSessionHybrid P dr.session a.keys.signingKey
          a.keys.x25519EncryptionSecret (a.keys.bundle P a.suites) (b.keys.bundle P b.suites)
            = .ok s →
        senderSession P dr (a.senderKeys P b) (b.peerId P) m
          = .ok (s, m.insert (b.peerId P) s) := by
      intro s hs
      simp only [senderSession, Party.senderKeys, ho, if_true,
        getOrCreateSessionHybrid_new hno hs]
    by_cases hh : su ∈ hybridSuiteIds
    · obtain ⟨s, w, s', hs, he, hfi⟩ :=
        firstContact_hybrid hd hk ha hsu hh dr p
      exact hf (hn hs) he hfi
    · obtain ⟨hs, -⟩ := bootstrap_classical hed a.keys b.keys hsu hh dr.session
      have hcl : (classicalSender P su (transcriptHashOf P a.keys b.keys a.suites b.suites su)
          (P.diffieHellman (ed25519ToX25519Secret P a.keys.signingKey)
            (P.x25519Public (ed25519ToX25519Secret P b.keys.signingKey))) dr.session.dhSecret
          b.keys).isPqHybrid = false := by
        rw [isPqHybrid_of_suite rfl]
        simpa using hh
      obtain ⟨w, s', he, hfi⟩ := firstContact_classical (a := a) (b := b) hd ha hed rfl
        hcl dr.send p
      exact hf (hn hs) he hfi

/-- The session `b` has started rejects the envelope, and one built from the envelope replaces it. -/
theorem deliver_crossed (hk : KdfIdeal P) (ha : AeadIdeal P) {pA pB : Bytes} {wA wB : WireEnvelope}
    {sA sB : RatchetSession K} (hA : FirstContact P a b pA wA sA) (hB : FirstContact P b a pB wB sB)
    (hm : m.sessions (a.peerId P) = some sB) (dr : ReceiveDraws) :
    ∃ r x d, JustBuilt P r
      ∧ decryptWithRatchetFallback P dr (b.receiverKeys P a) wA (some m)
        = (.ok pA, some (m.insert (a.peerId P) (r.afterRatchet P x d))) := by
  obtain ⟨ρ, keys, d, hρ, hs, -, hca, ho⟩ := hA.opens
  obtain ⟨ρ', k', -, -, hs', hr', -⟩ := hB.opens
  have hf : Foreign sB ρ := {
    skippedKeys := hB.skippedKeys
    advanced := fun c hc => absurd (hB.receivingChain.symm.trans hc) (by simp)
    root := fun he => hρ.ne_step hk hs' (he.symm.trans hr') }
  obtain ⟨e, s', hr⟩ := hf.rejects hk ha hs hca dr.firstTry
  obtain ⟨r, hb, hd⟩ := ho dr.rebuildSecret dr.retry
  obtain ⟨re, he⟩ := decryptWithRatchetFallback_ratcheted hca dr (b.receiverKeys P a) m
  have hi : peerIdOf P wA.senderPublicKey = a.peerId P := by rw [hA.sender]; rfl
  refine ⟨r, dr.retry 0, d, rebuildFor_justBuilt hb, ?_⟩
  rw [he, hi]
  simp only [withRecovery, hm, tryThenRebuild, hr, hb, hd]

/-! ## The exchange -/

/-- Two managers, the envelopes on their way, and the plaintext and result of every delivery. -/
structure Exchange (K : Type) where
  manager : Side → RatchetSessionManager K
  queue : Side → List (Bytes × WireEnvelope)
  log : List (Bytes × Outcome String Bytes)

/-- A party sends, or the oldest envelope of a sender arrives. -/
inductive ExchangeEvent where
  | send (side : Side) (draws : EncryptDraws) (plaintext : Bytes)
  | deliver (sender : Side) (draws : ReceiveDraws)

def Exchange.step (P : Primitives K) (party : Side → Party) (x : Exchange K) :
    ExchangeEvent → Exchange K
  | .send side draws plaintext =>
    let sent := encryptWithRatchetFallback P draws ((party side).senderKeys P (party side.other))
      plaintext (some (x.manager side)) ((party side.other).peerId P) none
    { x with
      manager := Function.update x.manager side (sent.manager.getD (x.manager side))
      queue := match sent.result with
        | .ok w => Function.update x.queue side (x.queue side ++ [(plaintext, w)])
        | .error _ => x.queue }
  | .deliver sender draws =>
    match x.queue sender with
    | [] => x
    | (plaintext, w) :: rest =>
      let received := decryptWithRatchetFallback P draws
        ((party sender.other).receiverKeys P (party sender)) w (some (x.manager sender.other))
      { manager := Function.update x.manager sender.other
          (received.2.getD (x.manager sender.other))
        queue := Function.update x.queue sender rest
        log := x.log ++ [(plaintext, received.1)] }

def crossing (draws : Side → EncryptDraws) (plaintext : Side → Bytes)
    (receive : Side → ReceiveDraws) : List ExchangeEvent :=
  [.send .initiator (draws .initiator) (plaintext .initiator),
    .send .responder (draws .responder) (plaintext .responder),
    .deliver .initiator (receive .responder), .deliver .responder (receive .initiator)]

def Exchange.Recovers (P : Primitives K) (party : Side → Party) (x : Exchange K) : Prop :=
  ∀ later : List ExchangeEvent,
    ∀ entry ∈ (later.foldl (Exchange.step P party) { x with log := [] }).log, entry.2 = .ok entry.1

section Steps

variable (party : Side → Party) {x : Exchange K} (side : Side) {w : WireEnvelope}
  (rest : List (Bytes × WireEnvelope)) {result : Outcome String Bytes}

theorem step_send {dr : EncryptDraws} {held : RatchetSessionManager K} (hm : x.manager side = held)
    (h : encryptWithRatchetFallback P dr ((party side).senderKeys P (party side.other)) p
      (some held) ((party side.other).peerId P) none = ⟨.ok w, some m, none⟩) :
    x.step P party (.send side dr p) = { x with
      manager := Function.update x.manager side m
      queue := Function.update x.queue side (x.queue side ++ [(p, w)]) } := by
  simp only [Exchange.step, hm, h]
  rfl

theorem step_deliver {dr : ReceiveDraws} {held : RatchetSessionManager K}
    (hq : x.queue side = (p, w) :: rest) (hm : x.manager side.other = held)
    (h : decryptWithRatchetFallback P dr ((party side.other).receiverKeys P (party side)) w
      (some held) = (result, some m)) :
    x.step P party (.deliver side dr) =
      ⟨Function.update x.manager side.other m, Function.update x.queue side rest,
        x.log ++ [(p, result)]⟩ := by
  simp only [Exchange.step, hq, hm, h]
  rfl

end Steps

/-- **What a crossing leaves**: each manager holds a session that has opened a first message. -/
theorem crossing_managers (hd : DhIdeal P) (hkd : KdfIdeal P) (hk : KemIdeal P) (ha : AeadIdeal P)
    (he : EdConversion P) {party : Side → Party} (hs : ∀ side, (party side).Starts (party side.other))
    {ma : Side → RatchetSessionManager K}
    (hn : ∀ side, (ma side).sessions ((party side.other).peerId P) = none)
    (dr : Side → EncryptDraws) (pl : Side → Bytes) (rc : Side → ReceiveDraws) :
    ∃ x : Exchange K, (crossing dr pl rc).foldl (Exchange.step P party)
          ⟨ma, fun _ => [], []⟩ = x
      ∧ x.queue = (fun _ => [])
      ∧ x.log = [(pl .initiator, .ok (pl .initiator)),
          (pl .responder, .ok (pl .responder))]
      ∧ ∀ side, ∃ r y d, JustBuilt P r ∧ (x.manager side).sessions ((party side.other).peerId P)
        = some (r.afterRatchet P y d) := by
  obtain ⟨wA, sA, hA, hse⟩ := firstContact hd hk ha he (hs .initiator)
    (hn .initiator) (dr .initiator) (pl .initiator)
  obtain ⟨wB, sB, hB, hsn⟩ := firstContact hd hk ha he (hs .responder)
    (hn .responder) (dr .responder) (pl .responder)
  obtain ⟨rB, xB, dB, hrB, hr⟩ := deliver_crossed hkd ha hA hB
    ((ma .responder).insert_sessions_self _ sB) (rc .responder)
  obtain ⟨rA, xA, dA, hrA, hre⟩ := deliver_crossed hkd ha hB hA
    ((ma .initiator).insert_sessions_self _ sA) (rc .initiator)
  refine ⟨_, rfl, ?_⟩
  simp only [crossing, List.foldl_cons, List.foldl_nil]
  rw [step_send party .initiator ?_ hse, step_send party .responder ?_ hsn,
    step_deliver party .initiator [] (p := pl .initiator) ?_ ?_ hr,
    step_deliver party .responder [] (p := pl .responder) ?_ ?_ hre]
  · refine ⟨?_, rfl, fun side => ?_⟩
    · funext side
      cases side with
      | initiator => rfl
      | responder => rfl
    · cases side with
      | initiator => exact ⟨rA, xA, dA, hrA, RatchetSessionManager.insert_sessions_self _ _ _⟩
      | responder => exact ⟨rB, xB, dB, hrB, RatchetSessionManager.insert_sessions_self _ _ _⟩
  -- each event finds the managers and queues the ones before it left
  all_goals rfl

theorem next_lost (hk : KdfIdeal P) (ha : AeadIdeal P) (hed : EdConversion P)
    {party : Side → Party} (hs : ∀ side, (party side).Starts (party side.other))
    {x : Exchange K} (hq : x.queue = fun _ => [])
    (hx : ∀ side, ∃ r y d, JustBuilt P r ∧ (x.manager side).sessions ((party side.other).peerId P)
      = some (r.afterRatchet P y d)) (side : Side) (dr : EncryptDraws) (re : ReceiveDraws)
    (p : Bytes) :
    ∃ result, result ≠ .ok p ∧ ([ExchangeEvent.send side dr p, .deliver side re].foldl
      (Exchange.step P party) x).log = x.log ++ [(p, result)] := by
  obtain ⟨t, y, d, ht, hsr⟩ := hx side
  obtain ⟨r, y', d', hr, hs'⟩ := hx side.other
  obtain ⟨w, s', keys, he, hp, hsp, hc⟩ :=
    ht.answers y d dr.send (party side).keys.signingKey p
  have hse := encryptWithRatchetFallback_of_session (hs side)
    (senderSession_stored hed dr hsr) he
  rw [Side.other_other] at hs'
  have hi : peerIdOf P w.senderPublicKey = (party side).peerId P := by rw [hp]; rfl
  have hl := answer_rejected hk ha hr ht hsp hc (hi ▸ hs') re
    ((party side.other).receiverKeys P (party side))
  obtain ⟨m', hm', -⟩ := decryptWithRatchetFallback_frame (P := P) re
    ((party side.other).receiverKeys P (party side)) w (x.manager side.other)
  have hqu : Function.update x.queue side (x.queue side ++ [(p, w)]) side = [(p, w)] := by
    simp [hq]
  refine ⟨_, hl, ?_⟩
  simp only [List.foldl_cons, List.foldl_nil]
  -- the sender's manager is not the one that receives
  rw [step_send party side rfl hse,
    step_deliver party side [] hqu (Function.update_of_ne side.other_ne _ _) (Prod.ext rfl hm')]

def sampleParty : Side → Party
  | .initiator => ⟨alice, [1, 3], true, false⟩
  | .responder => ⟨bob, [1, 2, 3], true, false⟩

def sampleCrossed : Exchange Term :=
  (crossing (fun | .initiator => sampleEncryptDraws 1 | .responder => sampleEncryptDraws 2)
    (fun | .initiator => [1] | .responder => [2])
    (fun | .initiator => drawsWith (Arr.fit 32 [3]) | .responder => drawsWith (Arr.fit 32 [4]))).foldl
    (Exchange.step termPrimitives sampleParty) ⟨fun _ => .new, fun _ => [], []⟩

/-- **No recovery from simultaneous initiation**: once the first envelopes have crossed, a later one fails. -/
theorem crossing_never_recovers (hdh : DhIdeal P) (hkdf : KdfIdeal P) (hkem : KemIdeal P)
    (haead : AeadIdeal P) (hed : EdConversion P) {party : Side → Party}
    (hstarts : ∀ side, (party side).Starts (party side.other)) {manager : Side → RatchetSessionManager K}
    (hnone : ∀ side, (manager side).sessions ((party side.other).peerId P) = none)
    (draws : Side → EncryptDraws) (plaintext : Side → Bytes) (receive : Side → ReceiveDraws) :
    ¬ ((crossing draws plaintext receive).foldl (Exchange.step P party)
      ⟨manager, fun _ => [], []⟩).Recovers P party := by
  obtain ⟨x, hr, hq, -, hx⟩ := crossing_managers hdh hkdf hkem haead hed hstarts hnone draws plaintext
    receive
  rw [hr]
  intro hre
  obtain ⟨result, hn, hl⟩ := next_lost (x := { x with log := [] }) hkdf haead hed hstarts hq hx
    .initiator (draws .initiator) (receive .responder) []
  exact hn (hre _ ([], result) (by rw [hl]; simp))

theorem sampleParty_starts (side : Side) : (sampleParty side).Starts (sampleParty side.other) := by
  cases side with
  | initiator => exact ⟨⟨3, by decide, by decide⟩, fun _ => ⟨3, by decide, by decide⟩⟩
  | responder => exact ⟨⟨3, by decide, by decide⟩, fun _ => ⟨3, by decide, by decide⟩⟩

theorem crossing_never_recovers_sample : ¬ sampleCrossed.Recovers termPrimitives sampleParty := by
  unfold sampleCrossed
  exact crossing_never_recovers termDh termKdf termKem termAead termEdConversion sampleParty_starts
    (fun _ => rfl) _ _ _

/-- **Failing input**: both first envelopes decrypt, and Alice's next one does not. -/
theorem crossing_loses_message :
    (([ExchangeEvent.send .initiator (sampleEncryptDraws 5) [5],
        .deliver .initiator (drawsWith (Arr.fit 32 [6]))].foldl
      (Exchange.step termPrimitives sampleParty) sampleCrossed).log.map fun entry =>
        (entry.1, decide (entry.2 = .ok entry.1))) = [([1], true), ([2], true), ([5], false)] := by
  have hn : ∀ side : Side, (RatchetSessionManager.new : RatchetSessionManager Term).sessions
      ((sampleParty side.other).peerId termPrimitives) = none := fun _ => rfl
  obtain ⟨x, hr, hq, hl, hx⟩ := crossing_managers termDh termKdf termKem termAead termEdConversion
    sampleParty_starts hn
    (fun | .initiator => sampleEncryptDraws 1 | .responder => sampleEncryptDraws 2)
    (fun | .initiator => [1] | .responder => [2])
    (fun | .initiator => drawsWith (Arr.fit 32 [3]) | .responder => drawsWith (Arr.fit 32 [4]))
  obtain ⟨result, hne, hnx⟩ := next_lost termKdf termAead termEdConversion sampleParty_starts hq hx
    .initiator (sampleEncryptDraws 5) (drawsWith (Arr.fit 32 [6])) [5]
  rw [sampleCrossed, hr, hnx, hl]
  simp [hne]

end SCMessenger
