import SCMessenger.Crypto.RatchetSpec
import SCMessenger.Message.Types

/-!
# Encrypting and decrypting one envelope

The functions of `crypto/encrypt.rs` that work on a single envelope and, where it is ratcheted, on a
single session.
-/

namespace SCMessenger

variable {K : Type} (P : Primitives K)

def kdfContext : String := "iron-core v2 message encryption 2026-02-05"

/-! ## Per-message Diffie-Hellman -/

def encryptMessage (ephemeralSecret : Arr 32) (nonce : Arr 24)
    (senderSigningKey recipientPublicKey : Arr 32) (plaintext : Bytes) : Except String Envelope :=
  match ed25519PublicToX25519 P recipientPublicKey with
  | .error e => .error e
  | .ok recipientX25519 =>
    let key := P.deriveKey kdfContext [.secret (P.diffieHellman ephemeralSecret recipientX25519)]
    let senderPublic := P.edPublic senderSigningKey
    .ok { senderPublicKey := senderPublic.1
          ephemeralPublicKey := (P.x25519Public ephemeralSecret).1
          nonce := nonce.1
          ciphertext := P.aeadSeal key nonce plaintext senderPublic.1
          ratchetDhPublic := none
          ratchetMessageNumber := none }

def decryptMessage (recipientSigningKey : Arr 32) (envelope : Envelope) : Except String Bytes :=
  match Arr.ofBytes? 32 envelope.ephemeralPublicKey with
  | none => .error "Invalid ephemeral public key length"
  | some ephemeralPublic =>
    match Arr.ofBytes? 24 envelope.nonce with
    | none => .error "Invalid nonce length"
    | some nonce =>
      let secret := ed25519ToX25519Secret P recipientSigningKey
      let key := P.deriveKey kdfContext [.secret (P.diffieHellman secret ephemeralPublic)]
      if envelope.senderPublicKey.length ≠ 32 then .error "Invalid sender public key length"
      else
        match P.aeadOpen key nonce envelope.ciphertext envelope.senderPublicKey with
        | some plaintext => .ok plaintext
        | none => .error
            "Decryption failed: invalid ciphertext, wrong key, or tampered sender public key"

/-! ## The ratchet, receiving -/

def decryptMessageRatcheted (rng : Nat → Arr 32) (session : RatchetSession K)
    (envelope : Envelope) : Except String Bytes × RatchetSession K :=
  match envelope.ratchetDhPublic with
  | none => (.error "Ratcheted envelope missing ratchet_dh_public field", session)
  | some dhPublic =>
    match envelope.ratchetMessageNumber with
    | none => (.error "Ratcheted envelope missing ratchet_message_number field", session)
    | some messageNumber =>
      match Arr.ofBytes? 24 envelope.nonce with
      | none => (.error "Invalid nonce length in ratcheted envelope", session)
      | some nonce =>
        match session.decrypt P rng dhPublic messageNumber nonce envelope.ciphertext
            envelope.senderPublicKey with
        | (.error e, session') => (.error e, session')
        | (.ok plaintext, session') => (.ok plaintext, { session' with peerConfirmed := true })

def transcriptMismatch (session : RatchetSession K) (envelope : EnvelopeV2) : Bool :=
  match session.peerConfirmed, session.transcriptHash, envelope.transcriptHash with
  | false, some expected, some received => expected.1 != received
  | _, _, _ => false

def isCadenceNumber (n : UInt32) : Bool := 0 < n && n % 100 == 0

def absorbPqFields (session : RatchetSession K) (envelope : EnvelopeV2) (messageNumber : UInt32) :
    Except String Unit × RatchetSession K :=
  if session.isPqHybrid && session.peerConfirmed then
    let check : Except String Unit :=
      if isCadenceNumber messageNumber then
        session.validatePqFieldsPresent envelope.pqKemCiphertext.isSome
      else .ok ()
    match check with
    | .error e => (.error e, session)
    | .ok () =>
      match envelope.pqKemCiphertext, envelope.pqEncapsKey with
      | some ct, some key =>
        match session.handleIncomingPqFields P ct key with
        | (.error e, session') => (.error e, session')
        | (.ok _, session') => (.ok (), session')
      | _, _ => (.ok (), session)
  else (.ok (), session)

def decryptMessageRatchetedV2 (rng : Nat → Arr 32) (session : RatchetSession K)
    (envelope : EnvelopeV2) : Except String Bytes × RatchetSession K :=
  match envelope.ratchetDhPublic with
  | none => (.error "Ratcheted V2 envelope missing ratchet_dh_public field", session)
  | some dhPublic =>
    match envelope.ratchetMessageNumber with
    | none => (.error "Ratcheted V2 envelope missing ratchet_message_number field", session)
    | some messageNumber =>
      match Arr.ofBytes? 24 envelope.nonce with
      | none => (.error "Invalid nonce length in ratcheted V2 envelope", session)
      | some nonce =>
        if transcriptMismatch session envelope then (.error "Transcript hash mismatch", session)
        else
          match absorbPqFields P session envelope messageNumber with
          | (.error e, session') => (.error e, session')
          | (.ok (), session') =>
            match session'.decrypt P rng dhPublic messageNumber nonce envelope.ciphertext
                envelope.senderPublicKey with
            | (.error e, session'') => (.error e, session'')
            | (.ok plaintext, session'') =>
              (.ok plaintext, { session'' with peerConfirmed := true })

/-! ## The ratchet, sending -/

/-- What the operating system draws for one ratcheted envelope. -/
structure SendDraws where
  nonce : Arr 24
  encapRand : Arr 32
  keypairSeed : Arr 64

/-- The bootstrap ciphertext while the peer is unconfirmed, a new step at the cadence. -/
def pqSendFields (draws : SendDraws) (session : RatchetSession K) :
    (Option Bytes × Option Bytes) × RatchetSession K :=
  if session.peerConfirmed = false then
    match session.bootstrapHct with
    | some hct =>
      ((some hct.mlkemCiphertext, session.pqOurKeypair.map fun kp => (kp.publicKey P).1), session)
    | none => ((none, none), session)
  else
    match session.sendingChain with
    | none => ((none, none), session)
    | some chain =>
      let currentMessageNumber := if chain.index = 0 then 0 else chain.index - 1
      if isCadenceNumber currentMessageNumber then
        match session.performPqRatchetStep P draws.encapRand draws.keypairSeed with
        | (.ok (ct, encapsKey), session') => ((some ct, some encapsKey), session')
        | (.error _, session') => ((none, none), session')
      else ((none, none), session)

/-- Encrypt in the second format for a hybrid session, in the first otherwise. -/
def encryptMessageRatcheted (draws : SendDraws) (senderSigningKey : Arr 32)
    (session : RatchetSession K) (plaintext : Bytes) :
    Except String WireEnvelope × RatchetSession K :=
  let senderPublic := P.edPublic senderSigningKey
  match session.encrypt P draws.nonce plaintext senderPublic.1 with
  | (.error e, session') => (.error e, session')
  | (.ok result, session') =>
    if session'.isPqHybrid then
      let ((pqKemCiphertext, pqEncapsKey), session'') := pqSendFields P draws session'
      let ephemeralPublicKey :=
        match session''.peerConfirmed, session''.bootstrapHct with
        | false, some hct => hct.x25519EphemeralPublic
        | _, _ => result.ourDhPublic
      (.ok (.v2 {
          suite := session''.negotiatedSuite.getD 0x02
          senderPublicKey := senderPublic.1
          ephemeralPublicKey := ephemeralPublicKey.1
          nonce := result.nonce.1
          ciphertext := result.ciphertext
          ratchetDhPublic := some result.ourDhPublic.1
          ratchetMessageNumber := some result.messageNumber
          pqKemCiphertext := pqKemCiphertext
          pqEncapsKey := pqEncapsKey
          transcriptHash := if session''.peerConfirmed then none
            else session''.transcriptHash.map (·.1) }),
        session'')
    else
      (.ok (.v1 {
          senderPublicKey := senderPublic.1
          ephemeralPublicKey := result.ourDhPublic.1
          nonce := result.nonce.1
          ciphertext := result.ciphertext
          ratchetDhPublic := some result.ourDhPublic.1
          ratchetMessageNumber := some result.messageNumber }),
        session')

/-! ## What receiving one envelope does -/

variable {P}

theorem decryptMessage_opens {sk : Arr 32} {e : Envelope} {p : Bytes}
    (h : decryptMessage P sk e = .ok p) :
    ∃ (k : K) (N : Arr 24), P.aeadOpen k N e.ciphertext e.senderPublicKey = some p := by
  unfold decryptMessage at h
  split at h
  · cases h
  · split at h
    · cases h
    · simp only at h
      split at h
      · cases h
      · split at h
        · rename_i he
          cases h
          exact ⟨_, _, he⟩
        · cases h

variable {s s' : RatchetSession K} {rng : Nat → Arr 32} {d : Arr 32}

theorem RatchetSession.Accepted.peerConfirmed {n : UInt32} {k : K}
    (h : RatchetSession.Accepted P s rng d n k s') : s'.peerConfirmed = true := by
  cases h <;> rfl

variable {c : Chain K}

theorem RatchetSession.Expects.peerConfirmed (h : RatchetSession.Expects P s rng d c s') :
    s'.peerConfirmed = true := by
  cases h <;> rfl

theorem confirm_eq_self (h : s.peerConfirmed = true) : { s with peerConfirmed := true } = s := by
  cases s
  simp_all

/-- An envelope's ratchet fields name a key of the session that opens its ciphertext. -/
structure Opens (P : Primitives K) (s : RatchetSession K) (dh : Option Bytes) (number : Option UInt32)
    (nonce ct aad : Bytes) (d : Arr 32) (n : UInt32) (k : K) (p : Bytes) : Prop where
  dh_eq : dh = some d.1
  number_eq : number = some n
  key : s.openingKey P d n = some k
  opens : ∃ N : Arr 24, nonce = N.1 ∧ P.aeadOpen k N ct aad = some p

def OpensV1 (P : Primitives K) (s : RatchetSession K) (e : Envelope) (d : Arr 32) (n : UInt32)
    (k : K) (p : Bytes) : Prop :=
  Opens P s e.ratchetDhPublic e.ratchetMessageNumber e.nonce e.ciphertext e.senderPublicKey d n k p

/-- **Receiving the first format**: it opens and the session advances, or the session stays. -/
theorem decryptMessageRatcheted_spec (s : RatchetSession K) (rng : Nat → Arr 32) (e : Envelope) :
    (∃ d n k p s', OpensV1 P s e d n k p ∧ RatchetSession.Accepted P s rng d n k s'
        ∧ decryptMessageRatcheted P rng s e = (.ok p, s'))
    ∨ ((∀ d n k p, ¬ OpensV1 P s e d n k p)
        ∧ ∃ err, decryptMessageRatcheted P rng s e = (.error err, s)) := by
  unfold decryptMessageRatcheted
  cases hdh : e.ratchetDhPublic with
  | none => exact .inr ⟨fun d n k p h => by simpa [hdh] using h.dh_eq, _, rfl⟩
  | some dh =>
  cases hn : e.ratchetMessageNumber with
  | none => exact .inr ⟨fun d n k p h => by simpa [hn] using h.number_eq, _, rfl⟩
  | some n =>
  cases hN : Arr.ofBytes? 24 e.nonce with
  | none =>
    refine .inr ⟨fun d n k p h => ?_, _, rfl⟩
    obtain ⟨N, hno, -⟩ := h.opens
    exact Arr.ofBytes?_eq_none.mp hN (hno ▸ N.2)
  | some N =>
  simp only
  cases hr : s.decrypt P rng dh n N e.ciphertext e.senderPublicKey with
  | mk res s' =>
  cases res with
  | ok p =>
    obtain ⟨d, k, rfl, hk, ho, ha⟩ := RatchetSession.decrypt_cases hr
    refine .inl ⟨d, n, k, p, s', ⟨hdh, hn, hk, N, Arr.ofBytes?_eq_some.mp hN, ho⟩, ha, ?_⟩
    simp only [confirm_eq_self ha.peerConfirmed]
  | error err =>
    obtain rfl := RatchetSession.decrypt_of_error hr
    refine .inr ⟨fun d n' k p h => ?_, err, rfl⟩
    obtain ⟨N', hno, ho⟩ := h.opens
    obtain rfl : N = N' := Subtype.ext ((Arr.ofBytes?_eq_some.mp hN).symm.trans hno)
    have hd : dh = d.1 := Option.some.inj (hdh.symm.trans h.dh_eq)
    obtain rfl : n = n' := Option.some.inj (hn.symm.trans h.number_eq)
    have hok := (RatchetSession.decrypt_ok_iff rng).mpr ⟨d, k, hd, h.key, ho⟩
    rw [hr] at hok
    cases hok

theorem absorbPqFields_cases (s : RatchetSession K) (e : EnvelopeV2) (n : UInt32) :
    (∃ err, absorbPqFields P s e n = (.error err, s))
    ∨ absorbPqFields P s e n = (.ok (), s)
    ∨ ∃ ct key ss, e.pqKemCiphertext = some ct ∧ e.pqEncapsKey = some key
        ∧ s.isPqHybrid = true ∧ s.peerConfirmed = true ∧ s.decapsulateIncoming P ct = some ss
        ∧ absorbPqFields P s e n = (.ok (), { s with
            pqPendingRecv := if s.isDuplicateSecret P ss then s.pqPendingRecv else some ss
            pqTheirEncapsKey := some key
            pqPendingCt := none }) := by
  unfold absorbPqFields
  by_cases hc : (s.isPqHybrid && s.peerConfirmed) = true
  · obtain ⟨hh, hcn⟩ := Bool.and_eq_true_iff.mp hc
    simp only [hc, if_true]
    split
    · exact .inl ⟨_, rfl⟩
    · split
      · rename_i ct key hct hk
        simp only [RatchetSession.handleIncomingPqFields, hh, Bool.true_eq_false, if_false]
        cases hd : s.decapsulateIncoming P ct with
        | none => exact .inr (.inl rfl)
        | some ss => exact .inr (.inr ⟨ct, key, ss, hct, hk, trivial, hcn, hd, rfl⟩)
      · exact .inr (.inl rfl)
  · simp only [hc]
    exact .inr (.inl rfl)

/-- What a rejected envelope leaves: its post-quantum fields are taken over once they were reached. -/
def sessionAfterReject (P : Primitives K) (s : RatchetSession K) (e : EnvelopeV2) :
    RatchetSession K :=
  match e.ratchetDhPublic, e.ratchetMessageNumber, Arr.ofBytes? 24 e.nonce with
  | some _, some n, some _ => if transcriptMismatch s e then s else (absorbPqFields P s e n).2
  | _, _, _ => s

/-- The negotiation agrees, the post-quantum fields are taken over, and the session left has the key. -/
structure OpensV2 (P : Primitives K) (s s₁ : RatchetSession K) (e : EnvelopeV2) (d : Arr 32)
    (n : UInt32) (k : K) (p : Bytes) : Prop where
  transcript : transcriptMismatch s e = false
  absorb : absorbPqFields P s e n = (.ok (), s₁)
  opens : Opens P s₁ e.ratchetDhPublic e.ratchetMessageNumber e.nonce e.ciphertext e.senderPublicKey
    d n k p

/-- **Receiving the second format**: it opens, or at most its post-quantum fields were taken over. -/
theorem decryptMessageRatchetedV2_spec (s : RatchetSession K) (rng : Nat → Arr 32) (e : EnvelopeV2) :
    (∃ s₁ d n k p s', OpensV2 P s s₁ e d n k p ∧ RatchetSession.Accepted P s₁ rng d n k s'
        ∧ decryptMessageRatchetedV2 P rng s e = (.ok p, s'))
    ∨ ((∀ s₁ d n k p, ¬ OpensV2 P s s₁ e d n k p)
        ∧ ∃ err, decryptMessageRatchetedV2 P rng s e = (.error err, sessionAfterReject P s e)) := by
  unfold decryptMessageRatchetedV2 sessionAfterReject
  cases hdh : e.ratchetDhPublic with
  | none => exact .inr ⟨fun s₁ d n k p h => by simpa [hdh] using h.opens.dh_eq, _, rfl⟩
  | some dh =>
  cases hn : e.ratchetMessageNumber with
  | none => exact .inr ⟨fun s₁ d n k p h => by simpa [hn] using h.opens.number_eq, _, rfl⟩
  | some n =>
  cases hN : Arr.ofBytes? 24 e.nonce with
  | none =>
    refine .inr ⟨fun s₁ d n k p h => ?_, _, rfl⟩
    obtain ⟨N, hno, -⟩ := h.opens.opens
    exact Arr.ofBytes?_eq_none.mp hN (hno ▸ N.2)
  | some N =>
  simp only
  by_cases hm : transcriptMismatch s e = true
  · simp only [hm, if_true]
    exact .inr ⟨fun s₁ d n k p h => by simpa [hm] using h.transcript, _, rfl⟩
  have hm' : transcriptMismatch s e = false := by simpa using hm
  simp only [hm', Bool.false_eq_true, if_false]
  cases ha : absorbPqFields P s e n with
  | mk res s₁ =>
  cases res with
  | error err =>
    refine .inr ⟨fun s₁' d n' k p h => ?_, err, rfl⟩
    obtain rfl : n = n' := Option.some.inj (hn.symm.trans h.opens.number_eq)
    simpa [ha] using h.absorb
  | ok u =>
  simp only
  cases hr : s₁.decrypt P rng dh n N e.ciphertext e.senderPublicKey with
  | mk res s' =>
  cases res with
  | ok p =>
    obtain ⟨d, k, rfl, hk, ho, hac⟩ := RatchetSession.decrypt_cases hr
    refine .inl ⟨s₁, d, n, k, p, s', ⟨hm', ha, ⟨hdh, hn, hk, N,
      Arr.ofBytes?_eq_some.mp hN, ho⟩⟩, hac, ?_⟩
    simp only [confirm_eq_self hac.peerConfirmed]
  | error err =>
    obtain rfl := RatchetSession.decrypt_of_error hr
    refine .inr ⟨fun s₁' d n' k p h => ?_, err, rfl⟩
    obtain ⟨N', hno, ho⟩ := h.opens.opens
    obtain rfl : N = N' := Subtype.ext ((Arr.ofBytes?_eq_some.mp hN).symm.trans hno)
    have hd : dh = d.1 := Option.some.inj (hdh.symm.trans h.opens.dh_eq)
    obtain rfl : n = n' := Option.some.inj (hn.symm.trans h.opens.number_eq)
    obtain rfl : s' = s₁' := congrArg Prod.snd (ha.symm.trans h.absorb)
    have hok := (RatchetSession.decrypt_ok_iff rng).mpr ⟨d, k, hd, h.opens.key, ho⟩
    rw [hr] at hok
    cases hok

/-! ## What sending one envelope does -/

def RatchetSession.afterSend (P : Primitives K) (s : RatchetSession K) (c : Chain K) :
    RatchetSession K :=
  { s with sendingChain := some (c.nextMessageKey P).2 }

theorem RatchetSession.encrypt_chain (hc : s.sendingChain = some c)
    (hs : s.dhStepCount < maxRatchetSteps) (N : Arr 24) (p aad : Bytes) :
    s.encrypt P N p aad = (.ok ⟨P.aeadSeal (messageKey P c.chainKey) N p aad, N, c.index,
      s.ourDhPublic⟩, s.afterSend P c) := by
  have hl : ¬ maxRatchetSteps ≤ s.dhStepCount := by simpa using hs
  simp [encrypt, hc, hl, afterSend, Chain.nextMessageKey]

/-- An envelope carries a plaintext under the next key of the chain `c` and the ratchet key `d`. -/
structure Carries (P : Primitives K) (d : Arr 32) (c : Chain K) (p : Bytes) (w : WireEnvelope) :
    Prop where
  dh : w.ratchetDhPublic = some d.1
  number : w.ratchetMessageNumber = some c.index
  seals : ∃ N : Arr 24, w.nonce = N.1
    ∧ w.ciphertext = P.aeadSeal (messageKey P c.chainKey) N p w.senderPublicKey

/-- **Sending with a classical session** gives an envelope of the first format. -/
theorem encryptMessageRatcheted_classical (hh : s.isPqHybrid = false) (hc : s.sendingChain = some c)
    (hs : s.dhStepCount < maxRatchetSteps) (dr : SendDraws) (sk : Arr 32) (p : Bytes) :
    ∃ e, encryptMessageRatcheted P dr sk s p = (.ok (.v1 e), s.afterSend P c)
      ∧ e.senderPublicKey = (P.edPublic sk).1 ∧ Carries P s.ourDhPublic c p (.v1 e) := by
  have hh' : (s.afterSend P c).isPqHybrid = false := hh
  unfold encryptMessageRatcheted
  simp only [RatchetSession.encrypt_chain hc hs, hh', Bool.false_eq_true, if_false]
  exact ⟨_, rfl, rfl, ⟨rfl, rfl, dr.nonce, rfl, rfl⟩⟩

/-- The fields of the bootstrap and the post-quantum ratchet, and the session they leave. -/
structure FieldsV2 (P : Primitives K) (draws : SendDraws) (s : RatchetSession K) (c : Chain K)
    (e : EnvelopeV2) (s' : RatchetSession K) : Prop where
  pq : pqSendFields P draws (s.afterSend P c) = ((e.pqKemCiphertext, e.pqEncapsKey), s')
  ephemeral : e.ephemeralPublicKey = (match s'.peerConfirmed, s'.bootstrapHct with
    | false, some hct => hct.x25519EphemeralPublic
    | _, _ => s.ourDhPublic).1
  transcript : e.transcriptHash = if s'.peerConfirmed then none else s'.transcriptHash.map (·.1)

/-- **Sending with a hybrid session** gives an envelope of the second format. -/
theorem encryptMessageRatcheted_hybrid (hh : s.isPqHybrid = true) (hc : s.sendingChain = some c)
    (hs : s.dhStepCount < maxRatchetSteps) (dr : SendDraws) (sk : Arr 32) (p : Bytes) :
    ∃ e s', encryptMessageRatcheted P dr sk s p = (.ok (.v2 e), s')
      ∧ e.senderPublicKey = (P.edPublic sk).1 ∧ Carries P s.ourDhPublic c p (.v2 e)
      ∧ FieldsV2 P dr s c e s' := by
  have hh' : (s.afterSend P c).isPqHybrid = true := hh
  unfold encryptMessageRatcheted
  simp only [RatchetSession.encrypt_chain hc hs, hh', if_true]
  cases hp : pqSendFields P dr (s.afterSend P c) with
  | mk f s' => exact ⟨_, _, rfl, rfl, ⟨rfl, rfl, dr.nonce, rfl, rfl⟩, ⟨hp, rfl, rfl⟩⟩

theorem encryptMessageRatcheted_error (h : s.sendingChain = none ∨ maxRatchetSteps ≤ s.dhStepCount)
    (dr : SendDraws) (sk : Arr 32) (p : Bytes) :
    ∃ err, encryptMessageRatcheted P dr sk s p = (.error err, s) := by
  unfold encryptMessageRatcheted RatchetSession.encrypt
  cases hc : s.sendingChain with
  | none => exact ⟨_, rfl⟩
  | some c =>
    have hl : maxRatchetSteps ≤ s.dhStepCount := h.resolve_left (by simp [hc])
    simp only [hl, if_true]
    exact ⟨_, rfl⟩

/-! ## Receiving the next message in order -/

theorem decryptMessageRatcheted_expected (ha : AeadIdeal P) (hs : s.skippedKeys = ∅)
    (h : RatchetSession.Expects P s rng d c s') {p : Bytes} {e : Envelope} (hc : Carries P d c p (.v1 e)) :
    decryptMessageRatcheted P rng s e = (.ok p, s') := by
  obtain ⟨hd, hn, N, hN, hct⟩ := hc
  have hd' : e.ratchetDhPublic = some d.1 := hd
  have hn' : e.ratchetMessageNumber = some c.index := hn
  have hN' : Arr.ofBytes? 24 e.nonce = some N := Arr.ofBytes?_eq_some.mpr hN
  have hc' : e.ciphertext = P.aeadSeal (messageKey P c.chainKey) N p e.senderPublicKey := hct
  unfold decryptMessageRatcheted
  simp only [hd', hn', hN', hc', RatchetSession.decrypt_expected ha hs h,
    confirm_eq_self h.peerConfirmed]

/-- The next message of the expected chain is accepted, once its post-quantum fields are. -/
theorem decryptMessageRatchetedV2_expected (ha : AeadIdeal P) {s₁ : RatchetSession K} {e : EnvelopeV2}
    (hm : transcriptMismatch s e = false) (hab : absorbPqFields P s e c.index = (.ok (), s₁))
    (hs : s₁.skippedKeys = ∅) (h : RatchetSession.Expects P s₁ rng d c s') {p : Bytes}
    (hc : Carries P d c p (.v2 e)) : decryptMessageRatchetedV2 P rng s e = (.ok p, s') := by
  obtain ⟨hd, hn, N, hN, hct⟩ := hc
  have hd' : e.ratchetDhPublic = some d.1 := hd
  have hn' : e.ratchetMessageNumber = some c.index := hn
  have hN' : Arr.ofBytes? 24 e.nonce = some N := Arr.ofBytes?_eq_some.mpr hN
  have hc' : e.ciphertext = P.aeadSeal (messageKey P c.chainKey) N p e.senderPublicKey := hct
  unfold decryptMessageRatchetedV2
  simp only [hd', hn', hN', hc', hm, Bool.false_eq_true, if_false, hab,
    RatchetSession.decrypt_expected ha hs h, confirm_eq_self h.peerConfirmed]

end SCMessenger
