import SCMessenger.Crypto.SessionManager
import SCMessenger.Crypto.Snapshot
import SCMessenger.Lib.Run

/-!
# What survives a restart

A session is a machine that answers calls (`RatchetSession.call`), and storing it is faithful when what is
read back answers alike.  Nothing reads the transition counter; the post-quantum state is never stored.
-/

namespace SCMessenger

variable {K : Type}

/-! ## Calls -/

/-- A call on a session, with what the operating system draws for it. -/
inductive SessionCall where
  | encrypt (nonce : Arr 24) (plaintext aad : Bytes)
  | decrypt (rng : Nat → Arr 32) (theirDhPublic : Bytes) (messageNumber : UInt32) (nonce : Arr 24)
      (ciphertext aad : Bytes)
  | encryptMessage (draws : SendDraws) (senderSigningKey : Arr 32) (plaintext : Bytes)
  | decryptMessage (rng : Nat → Arr 32) (envelope : Envelope)
  | decryptMessageV2 (rng : Nat → Arr 32) (envelope : EnvelopeV2)

/-- What a call returns. -/
inductive CallResult where
  | encrypted (result : Except String RatchetEncryptResult)
  | sent (result : Except String WireEnvelope)
  | opened (result : Except String Bytes)

def RatchetSession.call (P : Primitives K) (s : RatchetSession K) :
    SessionCall → CallResult × RatchetSession K
  | .encrypt nonce p aad => (s.encrypt P nonce p aad).map .encrypted id
  | .decrypt rng dh n nonce ct aad => (s.decrypt P rng dh n nonce ct aad).map .opened id
  | .encryptMessage draws sk p => (encryptMessageRatcheted P draws sk s p).map .sent id
  | .decryptMessage rng e => (decryptMessageRatcheted P rng s e).map .opened id
  | .decryptMessageV2 rng e => (decryptMessageRatchetedV2 P rng s e).map .opened id

variable {P : Primitives K}

/-! ## The transition counter is never read -/

def RatchetSession.withCounter (s : RatchetSession K) (x : UInt64) : RatchetSession K :=
  { s with transitionCounter := x }

/-- Two outcomes with one result, whose sessions differ at most in the transition counter. -/
structure Alike {α : Type} (r r' : α × RatchetSession K) : Prop where
  result : r'.1 = r.1
  session : ∃ y, r'.2 = r.2.withCounter y

namespace RatchetSession

variable (s : RatchetSession K) (x : UInt64)

theorem encrypt_withCounter (N : Arr 24) (p aad : Bytes) :
    (s.withCounter x).encrypt P N p aad = (s.encrypt P N p aad).map id (·.withCounter x) := by
  have hc : (s.withCounter x).sendingChain = s.sendingChain := rfl
  have hs : (s.withCounter x).dhStepCount = s.dhStepCount := rfl
  unfold encrypt
  rw [hc, hs]
  cases s.sendingChain with
  | none => rfl
  | some c =>
    by_cases hm : maxRatchetSteps ≤ s.dhStepCount
    · simp only [hm, if_true]
      rfl
    · simp only [hm, if_false]
      rfl

theorem getMessageKey_withCounter (d : Arr 32) (n : UInt32) :
    (s.withCounter x).getMessageKey P d n = (s.getMessageKey P d n).map id (·.withCounter x) := by
  have hs : (s.withCounter x).skippedKeys = s.skippedKeys := rfl
  have hc : (s.withCounter x).receivingChain = s.receivingChain := rfl
  unfold getMessageKey
  rw [hs, hc]
  cases s.skippedKeys[(d, n)]? with
  | some key => rfl
  | none =>
    cases s.receivingChain with
    | none => rfl
    | some c =>
      by_cases hb : n < c.index
      · simp only [hb, if_true]
        rfl
      · by_cases hf : maxSkipKeys < (n - c.index).toNat
        · simp only [hb, hf, if_true, if_false]
          rfl
        · simp only [hb, hf, if_false]
          rfl

theorem tryCandidates_withCounter (rng : Nat → Arr 32) (d : Arr 32) (n : UInt32) (N : Arr 24)
    (ct aad : Bytes) :
    ∀ c i er, Alike (s.tryCandidates P rng d n N ct aad c i er)
      ((s.withCounter x).tryCandidates P rng d n N ct aad c i er) := by
  intro c
  induction c with
  | nil => intro i er; exact ⟨rfl, x, rfl⟩
  | cons ca re ih =>
    intro i er
    have ht : (s.withCounter x).ratchetTrial P (rng i) d ca
        = (s.ratchetTrial P (rng i) d ca).withCounter x := rfl
    simp only [tryCandidates, ht, getMessageKey_withCounter]
    cases (s.ratchetTrial P (rng i) d ca).getMessageKey P d n with
    | mk r t =>
    cases r with
    | error e => exact ih _ _
    | ok key =>
      simp only [Prod.map, id]
      cases P.aeadOpen key N ct aad with
      | none => exact ih _ _
      | some p => exact ⟨rfl, x + 2, rfl⟩

theorem decrypt_withCounter (rng : Nat → Arr 32) (dh : Bytes) (n : UInt32) (N : Arr 24) (ct aad : Bytes) :
    Alike (s.decrypt P rng dh n N ct aad) ((s.withCounter x).decrypt P rng dh n N ct aad) := by
  unfold decrypt
  cases Arr.ofBytes? 32 dh with
  | none => exact ⟨rfl, x, rfl⟩
  | some d =>
  have hs : (s.withCounter x).skippedKeys = s.skippedKeys := rfl
  have ht : (s.withCounter x).theirDhPublic = s.theirDhPublic := rfl
  simp only [hs, ht, getMessageKey_withCounter]
  cases s.skippedKeys[(d, n)]? with
  | some key =>
    simp only
    cases P.aeadOpen key N ct aad with
    | none => exact ⟨rfl, x, rfl⟩
    | some p => exact ⟨rfl, x, rfl⟩
  | none =>
    simp only
    split
    · cases s.getMessageKey P d n with
      | mk r c =>
      cases r with
      | error e => exact ⟨rfl, x, rfl⟩
      | ok key =>
        simp only [Prod.map, id]
        cases P.aeadOpen key N ct aad with
        | none => exact ⟨rfl, x, rfl⟩
        | some p => exact ⟨rfl, x, rfl⟩
    · exact tryCandidates_withCounter s x rng d n N ct aad _ _ _

end RatchetSession

variable (s : RatchetSession K) (x : UInt64)

theorem performPqRatchetStep_withCounter (r : Arr 32) (se : Arr 64) :
    (s.withCounter x).performPqRatchetStep P r se
      = (s.performPqRatchetStep P r se).map id (·.withCounter x) := by
  have hk : (s.withCounter x).pqTheirEncapsKey = s.pqTheirEncapsKey := rfl
  have hh : (s.withCounter x).isPqHybrid = s.isPqHybrid := rfl
  unfold RatchetSession.performPqRatchetStep
  rw [hk, hh]
  cases s.isPqHybrid with
  | false => rfl
  | true =>
  cases s.pqTheirEncapsKey with
  | none => rfl
  | some key =>
    simp only [Bool.true_eq_false, if_false]
    cases encapsulate P key r <;> rfl

theorem pqSendFields_withCounter (d : SendDraws) (s : RatchetSession K) (x : UInt64) :
    pqSendFields P d (s.withCounter x)
      = (pqSendFields P d s).map id (·.withCounter x) := by
  have hc : (s.withCounter x).peerConfirmed = s.peerConfirmed := rfl
  have hh : (s.withCounter x).bootstrapHct = s.bootstrapHct := rfl
  have hch : (s.withCounter x).sendingChain = s.sendingChain := rfl
  unfold pqSendFields
  rw [hc, hh, hch, performPqRatchetStep_withCounter]
  cases s.peerConfirmed with
  | false => cases s.bootstrapHct <;> rfl
  | true =>
  cases s.sendingChain with
  | none => rfl
  | some ch =>
    simp only [Bool.true_eq_false, if_false]
    generalize isCadenceNumber _ = c
    cases c with
    | false => rfl
    | true =>
      cases s.performPqRatchetStep P d.encapRand d.keypairSeed with
      | mk r s' => cases r <;> rfl

theorem encryptMessageRatcheted_withCounter (d : SendDraws) (sk : Arr 32) (s : RatchetSession K)
    (x : UInt64) (p : Bytes) :
    Alike (encryptMessageRatcheted P d sk s p)
      (encryptMessageRatcheted P d sk (s.withCounter x) p) := by
  unfold encryptMessageRatcheted
  simp only [RatchetSession.encrypt_withCounter]
  cases s.encrypt P d.nonce p (P.edPublic sk).1 with
  | mk re s' =>
  cases re with
  | error e => exact ⟨rfl, x, rfl⟩
  | ok r =>
  have hh : (s'.withCounter x).isPqHybrid = s'.isPqHybrid := rfl
  simp only [Prod.map, id, hh, pqSendFields_withCounter]
  cases s'.isPqHybrid with
  | false => exact ⟨rfl, x, rfl⟩
  | true => exact ⟨rfl, x, rfl⟩

theorem absorbPqFields_withCounter (e : EnvelopeV2) (n : UInt32) :
    absorbPqFields P (s.withCounter x) e n
      = (absorbPqFields P s e n).map id (·.withCounter x) := by
  have hh : (s.withCounter x).isPqHybrid = s.isPqHybrid := rfl
  have hc : (s.withCounter x).peerConfirmed = s.peerConfirmed := rfl
  have hch : (s.withCounter x).validatePqFieldsPresent e.pqKemCiphertext.isSome
      = s.validatePqFieldsPresent e.pqKemCiphertext.isSome := rfl
  have hd : ∀ ct, (s.withCounter x).decapsulateIncoming P ct = s.decapsulateIncoming P ct :=
    fun _ => rfl
  unfold absorbPqFields RatchetSession.handleIncomingPqFields
  simp only [hh, hc, hch, hd]
  split
  · rename_i hcn
    obtain ⟨hh', -⟩ := Bool.and_eq_true_iff.mp hcn
    simp only [hh', Bool.true_eq_false, if_false]
    split
    · rfl
    · split
      · cases s.decapsulateIncoming P _ <;> rfl
      · rfl
  · rfl

theorem Alike.confirm {r r' : Except String Bytes × RatchetSession K} : Alike r r' →
    Alike (α := Except String Bytes)
      (match r with
        | (.error e, s) => (.error e, s)
        | (.ok p, s) => (.ok p, { s with peerConfirmed := true }))
      (match r' with
        | (.error e, s) => (.error e, s)
        | (.ok p, s) => (.ok p, { s with peerConfirmed := true })) := by
  obtain ⟨res, s⟩ := r
  obtain ⟨res', s'⟩ := r'
  rintro ⟨hr, y, hs⟩
  obtain rfl : res' = res := hr
  obtain rfl : s' = s.withCounter y := hs
  cases res' with
  | error err => exact ⟨rfl, y, rfl⟩
  | ok p => exact ⟨rfl, y, rfl⟩

variable (rng : Nat → Arr 32)

theorem decryptMessageRatcheted_withCounter (s : RatchetSession K) (x : UInt64) (e : Envelope) :
    Alike (decryptMessageRatcheted P rng s e) (decryptMessageRatcheted P rng (s.withCounter x) e) := by
  unfold decryptMessageRatcheted
  cases e.ratchetDhPublic with
  | none => exact ⟨rfl, x, rfl⟩
  | some dh =>
  cases e.ratchetMessageNumber with
  | none => exact ⟨rfl, x, rfl⟩
  | some n =>
  cases Arr.ofBytes? 24 e.nonce with
  | none => exact ⟨rfl, x, rfl⟩
  | some N => exact (s.decrypt_withCounter x rng dh n N e.ciphertext e.senderPublicKey).confirm

theorem decryptMessageRatchetedV2_withCounter (s : RatchetSession K) (x : UInt64) (e : EnvelopeV2) :
    Alike (decryptMessageRatchetedV2 P rng s e)
      (decryptMessageRatchetedV2 P rng (s.withCounter x) e) := by
  have hm : transcriptMismatch (s.withCounter x) e = transcriptMismatch s e := rfl
  unfold decryptMessageRatchetedV2
  rw [hm]
  cases e.ratchetDhPublic with
  | none => exact ⟨rfl, x, rfl⟩
  | some dh =>
  cases e.ratchetMessageNumber with
  | none => exact ⟨rfl, x, rfl⟩
  | some n =>
  cases Arr.ofBytes? 24 e.nonce with
  | none => exact ⟨rfl, x, rfl⟩
  | some N =>
  cases transcriptMismatch s e with
  | true => exact ⟨rfl, x, rfl⟩
  | false =>
  simp only [Bool.false_eq_true, if_false, absorbPqFields_withCounter]
  cases absorbPqFields P s e n with
  | mk r s₁ =>
  cases r with
  | error err => exact ⟨rfl, x, rfl⟩
  | ok u => exact (s₁.decrypt_withCounter x rng dh n N e.ciphertext e.senderPublicKey).confirm

/-- **No call reads the transition counter.** -/
theorem call_withCounter (c : SessionCall) : Alike (s.call P c) ((s.withCounter x).call P c) := by
  have hm : ∀ {α : Type} {f : α → CallResult} {r r' : α × RatchetSession K}, Alike r r' →
      Alike (r.map f id) (r'.map f id) :=
    fun {_ f _ _} h => ⟨congrArg f h.result, h.session⟩
  cases c with
  | encrypt N p aad =>
    have h : Alike (s.encrypt P N p aad) ((s.withCounter x).encrypt P N p aad) := by
      rw [RatchetSession.encrypt_withCounter]
      exact ⟨rfl, x, rfl⟩
    exact hm h
  | decrypt rng dh n N ct aad => exact hm (s.decrypt_withCounter x rng dh n N ct aad)
  | encryptMessage draws sk p => exact hm (encryptMessageRatcheted_withCounter draws sk s x p)
  | decryptMessage rng e => exact hm (decryptMessageRatcheted_withCounter rng s x e)
  | decryptMessageV2 rng e => exact hm (decryptMessageRatchetedV2_withCounter rng s x e)

theorem sameBehaviour_withCounter : SameBehaviour (RatchetSession.call P) s (s.withCounter x) := by
  refine SameBehaviour.of_simulation (fun s t => ∃ x, t = s.withCounter x) ?_ ⟨x, rfl⟩
  rintro s t c ⟨x, rfl⟩
  obtain ⟨hr, y, hs⟩ := call_withCounter (P := P) s x c
  exact ⟨hr.symm, y, hs⟩

/-! ## What calls do to the post-quantum state -/

/-- The session holds no post-quantum state. -/
structure RatchetSession.PqEmpty (s : RatchetSession K) : Prop where
  ourKeypair : s.pqOurKeypair = none
  prevKeypair : s.pqPrevKeypair = none
  theirEncapsKey : s.pqTheirEncapsKey = none
  pendingCt : s.pqPendingCt = none
  pendingSent : s.pqPendingSent = none
  pendingRecv : s.pqPendingRecv = none
  lastMixedFp : s.pqLastMixedFp = none

/-- Every call keeps the suite, the bootstrap ciphertext, and what there is of post-quantum state. -/
structure KeepsPq (s s' : RatchetSession K) : Prop where
  suite : s'.negotiatedSuite = s.negotiatedSuite
  hct : s'.bootstrapHct = s.bootstrapHct
  empty : s.PqEmpty → s'.PqEmpty
  ourKeypair : s.pqOurKeypair.isSome → s'.pqOurKeypair.isSome
  theirEncapsKey : s.pqTheirEncapsKey.isSome → s'.pqTheirEncapsKey.isSome

namespace KeepsPq

variable (s : RatchetSession K)

theorem refl : KeepsPq s s := ⟨rfl, rfl, id, id, id⟩

theorem trans {s t u : RatchetSession K} (h₁ : KeepsPq s t) (h₂ : KeepsPq t u) : KeepsPq s u :=
  ⟨h₂.suite.trans h₁.suite, h₂.hct.trans h₁.hct, h₂.empty ∘ h₁.empty,
    h₂.ourKeypair ∘ h₁.ourKeypair, h₂.theirEncapsKey ∘ h₁.theirEncapsKey⟩

theorem isPqHybrid {s s' : RatchetSession K} (h : KeepsPq s s') : s'.isPqHybrid = s.isPqHybrid := by
  rw [RatchetSession.isPqHybrid, RatchetSession.isPqHybrid, h.suite]

theorem encrypt (N : Arr 24) (p aad : Bytes) : KeepsPq s (s.encrypt P N p aad).2 := by
  unfold RatchetSession.encrypt
  split
  · exact refl s
  · split
    · exact refl s
    · exact ⟨rfl, rfl, fun h => ⟨h.1, h.2, h.3, h.4, h.5, h.6, h.7⟩, id, id⟩

theorem accepted {s s' : RatchetSession K} {rng : Nat → Arr 32} {d : Arr 32} {n : UInt32} {k : K}
    (h : RatchetSession.Accepted P s rng d n k s') : KeepsPq s s' := by
  cases h with
  | cached _ => exact ⟨rfl, rfl, fun h => ⟨h.1, h.2, h.3, h.4, h.5, h.6, h.7⟩, id, id⟩
  | chain c _ _ _ _ => exact ⟨rfl, rfl, fun h => ⟨h.1, h.2, h.3, h.4, h.5, h.6, h.7⟩, id, id⟩
  | ratchet _ _ _ =>
    refine ⟨rfl, rfl, fun h => ⟨h.1, h.2, h.3, ?_, ?_, rfl, ?_⟩, id, id⟩
    · simp [RatchetSession.adoptTrial, RatchetSession.takeKey, RatchetSession.ratchetTrial, h.4]
    · simp [RatchetSession.adoptTrial, RatchetSession.takeKey, RatchetSession.ratchetTrial, h.5]
    · simp [RatchetSession.adoptTrial, RatchetSession.takeKey, RatchetSession.ratchetTrial, h.6,
        h.7]

theorem decrypt (rng : Nat → Arr 32) (dh : Bytes) (n : UInt32) (N : Arr 24) (ct aad : Bytes) :
    KeepsPq s (s.decrypt P rng dh n N ct aad).2 := by
  cases hr : s.decrypt P rng dh n N ct aad with
  | mk r s' =>
  cases r with
  | error e =>
    obtain rfl := RatchetSession.decrypt_of_error hr
    exact refl s'
  | ok p =>
    obtain ⟨d, k, -, -, -, ha⟩ := RatchetSession.decrypt_cases hr
    exact accepted ha

theorem performPqRatchetStep (r : Arr 32) (se : Arr 64) :
    KeepsPq s (s.performPqRatchetStep P r se).2 := by
  unfold RatchetSession.performPqRatchetStep
  split
  · exact refl s
  · split
    · exact refl s
    · rename_i key hk
      split
      · exact refl s
      · exact ⟨rfl, rfl, fun h => absurd (hk.symm.trans h.theirEncapsKey) (by simp),
          fun _ => rfl, id⟩

theorem pqSendFields (d : SendDraws) (s : RatchetSession K) : KeepsPq s (pqSendFields P d s).2 := by
  have hs := performPqRatchetStep (P := P) s d.encapRand d.keypairSeed
  unfold SCMessenger.pqSendFields
  split
  · split <;> exact refl s
  · split
    · exact refl s
    · simp only
      generalize isCadenceNumber _ = c
      cases c with
      | false => exact refl s
      | true =>
        simp only [if_true]
        cases hr : s.performPqRatchetStep P d.encapRand d.keypairSeed with
        | mk r s' =>
        rw [hr] at hs
        cases r <;> exact hs

theorem absorbPqFields (e : EnvelopeV2) (n : UInt32) : KeepsPq s (absorbPqFields P s e n).2 := by
  rcases absorbPqFields_cases (P := P) s e n with ⟨err, h⟩ | h | ⟨ct, key, ss, -, -, -, -, hd, h⟩
  · rw [h]
    exact refl s
  · rw [h]
    exact refl s
  · rw [h]
    refine ⟨rfl, rfl, fun he => ?_, id, fun _ => rfl⟩
    -- without a keypair nothing decapsulates
    simp [RatchetSession.decapsulateIncoming, he.ourKeypair, he.prevKeypair] at hd

/-- **One call** keeps the suite, the bootstrap ciphertext and the post-quantum state. -/
theorem call (c : SessionCall) : KeepsPq s (s.call P c).2 := by
  cases c with
  | encrypt N p aad => exact encrypt s N p aad
  | decrypt rng dh n N ct aad => exact decrypt s rng dh n N ct aad
  | encryptMessage draws sk p =>
    have he := encrypt (P := P) s draws.nonce p (P.edPublic sk).1
    change KeepsPq s (encryptMessageRatcheted P draws sk s p).2
    unfold encryptMessageRatcheted
    cases hr : s.encrypt P draws.nonce p (P.edPublic sk).1 with
    | mk re s' =>
    rw [hr] at he
    simp only [hr]
    cases re with
    | error e => exact he
    | ok r =>
      simp only
      split
      · exact he.trans (pqSendFields draws s')
      · exact he
  | decryptMessage rng e =>
    change KeepsPq s (decryptMessageRatcheted P rng s e).2
    rcases decryptMessageRatcheted_spec (P := P) s rng e with
      ⟨d, n, k, p, s', -, ha, h⟩ | ⟨-, err, h⟩
    · rw [h]
      exact accepted ha
    · rw [h]
      exact refl s
  | decryptMessageV2 rng e =>
    change KeepsPq s (decryptMessageRatchetedV2 P rng s e).2
    rcases decryptMessageRatchetedV2_spec (P := P) s rng e with
      ⟨s₁, d, n, k, p, s', ho, ha, h⟩ | ⟨-, err, h⟩
    · have hab := absorbPqFields (P := P) s e n
      rw [ho.absorb] at hab
      rw [h]
      exact hab.trans (accepted ha)
    · rw [h]
      unfold sessionAfterReject
      split
      · split
        · exact refl s
        · exact absorbPqFields s e _
      · exact refl s

end KeepsPq

/-! ## Telling a session from one without post-quantum state -/

def AeadCorrect (P : Primitives K) : Prop :=
  ∀ k N p aad, P.aeadOpen k N (P.aeadSeal k N p aad) aad = some p

/-- The session holds post-quantum state. -/
structure RatchetSession.PqHolds (s : RatchetSession K) : Prop where
  hybrid : s.isPqHybrid = true
  ourKeypair : s.pqOurKeypair.isSome
  theirEncapsKey : s.pqTheirEncapsKey.isSome

theorem KeepsPq.holds {s s' : RatchetSession K} (h : KeepsPq s s') (hs : s.PqHolds) : s'.PqHolds :=
  ⟨h.isPqHybrid.trans hs.hybrid, h.ourKeypair hs.ourKeypair, h.theirEncapsKey hs.theirEncapsKey⟩

theorem exists_confirming (ha : AeadCorrect P) (s : RatchetSession K) :
    ∃ c, (s.call P c).2.peerConfirmed = true := by
  obtain ⟨d, hd⟩ : ∃ d : Arr 32, s.theirDhPublic ≠ some d := by
    by_cases h : s.theirDhPublic = some (Arr.fit 32 [0])
    · exact ⟨Arr.fit 32 [1], by rw [h]; decide⟩
    · exact ⟨_, h⟩
  obtain ⟨k, hk⟩ : ∃ k, s.openingKey P d 0 = some k := by
    unfold RatchetSession.openingKey
    cases s.skippedKeys[(d, (0 : UInt32))]? with
    | some k => exact ⟨k, rfl⟩
    | none =>
      refine ⟨messageKey P (s.receivingKeys P d).2, ?_⟩
      simp only [RatchetSession.chainFor, hd, if_false, Option.bind_some]
      exact Chain.messageKeyAt_index (Chain.new (s.receivingKeys P d).2)
  let N : Arr 24 := Arr.fit 24 []
  refine ⟨.decrypt (fun _ => d) d.1 0 N (P.aeadSeal k N [] []) [], ?_⟩
  rcases RatchetSession.decrypt_spec (P := P) s (fun _ => d) d 0 N (P.aeadSeal k N [] []) [] with
    ⟨k', p, s', -, -, hac, he⟩ | ⟨hn, -⟩
  · change (s.decrypt P (fun _ => d) d.1 0 N (P.aeadSeal k N [] []) []).2.peerConfirmed = true
    rw [he]
    exact hac.peerConfirmed
  · exact absurd ((hn k hk).symm.trans (ha k N [] [])) (by simp)

def strippedEnvelope : EnvelopeV2 where
  suite := 0x03
  senderPublicKey := []
  ephemeralPublicKey := []
  nonce := (Arr.fit 24 []).1
  ciphertext := []
  ratchetDhPublic := some []
  ratchetMessageNumber := some 100
  pqKemCiphertext := none
  pqEncapsKey := none
  transcriptHash := none

theorem decryptMessageRatchetedV2_stripped :
    (decryptMessageRatchetedV2 P rng s strippedEnvelope).1
      = (absorbPqFields P s strippedEnvelope 100).1.bind
          fun _ => .error "Invalid DH public key length" := by
  have hd : strippedEnvelope.ratchetDhPublic = some [] := rfl
  have hn : strippedEnvelope.ratchetMessageNumber = some 100 := rfl
  have hN : Arr.ofBytes? 24 strippedEnvelope.nonce = some (Arr.fit 24 []) := Arr.ofBytes?_val _
  have hm : transcriptMismatch s strippedEnvelope = false := by
    unfold transcriptMismatch
    split
    · rename_i h
      cases h
    · rfl
  unfold decryptMessageRatchetedV2
  simp only [hd, hn, hN, hm, Bool.false_eq_true, if_false]
  cases absorbPqFields P s strippedEnvelope 100 with
  | mk r s' => cases r <;> rfl

theorem stripped_empty {s : RatchetSession K} (h : s.pqTheirEncapsKey = none) (rng : Nat → Arr 32) :
    (decryptMessageRatchetedV2 P rng s strippedEnvelope).1
      = .error "Invalid DH public key length" := by
  rw [decryptMessageRatchetedV2_stripped]
  simp [absorbPqFields, RatchetSession.validatePqFieldsPresent, h, strippedEnvelope, Except.bind]

theorem stripped_holds {s : RatchetSession K} (h : s.PqHolds) (hc : s.peerConfirmed = true)
    (rng : Nat → Arr 32) :
    (decryptMessageRatchetedV2 P rng s strippedEnvelope).1
      = .error ("PQ stripping attempt detected: DH step without PQ fields on a PQ-hybrid session "
        ++ "(suite " ++ RatchetSession.debugSuite s.negotiatedSuite ++ ")") := by
  rw [decryptMessageRatchetedV2_stripped]
  simp [absorbPqFields, RatchetSession.validatePqFieldsPresent, h.hybrid, hc,
    h.theirEncapsKey, strippedEnvelope, isCadenceNumber, Except.bind]

/-- **A session with post-quantum state behaves unlike any session without.** -/
theorem not_sameBehaviour (ha : AeadCorrect P) {s t : RatchetSession K} (hs : s.PqHolds) (ht : t.PqEmpty) :
    ¬ SameBehaviour (RatchetSession.call P) s t := by
  intro hsa
  obtain ⟨c, hc⟩ := exists_confirming ha s
  have hs' := (KeepsPq.call (P := P) s c).holds hs
  have ht' := (KeepsPq.call (P := P) t c).empty ht
  let rng : Nat → Arr 32 := fun _ => Arr.fit 32 []
  have ho := hsa [c, .decryptMessageV2 rng strippedEnvelope]
  have hl : (decryptMessageRatchetedV2 P rng (s.call P c).2 strippedEnvelope).1
      = (decryptMessageRatchetedV2 P rng (t.call P c).2 strippedEnvelope).1 :=
    CallResult.opened.inj (List.cons.inj (List.cons.inj ho).2).1
  rw [stripped_holds hs' hc, stripped_empty ht'.theirEncapsKey] at hl
  -- the two messages differ in their first letter
  have hte := congrArg String.toList (Except.error.inj hl)
  simp at hte

/-! ## Sessions a program can hold -/

/-- A session as the manager sets it up, in either role. -/
inductive Established (P : Primitives K) : RatchetSession K → Prop
  | sender (dhSecret signingKey theirX25519 : Arr 32) :
      Established P (RatchetSession.initAsSender P dhSecret signingKey theirX25519)
  | receiver (dhSecret signingKey senderX25519 : Arr 32) :
      Established P (RatchetSession.initAsReceiver P dhSecret signingKey senderX25519)
  | senderHybrid {s : RatchetSession K} (draws : RatchetSession.HybridDraws)
      (signingKey x25519Secret : Arr 32) (ourBundle theirBundle : PublicKeyBundle)
      (h : senderSessionHybrid P draws signingKey x25519Secret ourBundle theirBundle = .ok s) :
      Established P s
  | receiverHybrid {s : RatchetSession K} (dhSecret signingKey x25519Secret : Arr 32)
      (keypair : MlKem768KeyPair) (ourBundle theirBundle : PublicKeyBundle)
      (hct : Option HybridCiphertext)
      (h : receiverSessionHybrid P dhSecret signingKey x25519Secret keypair ourBundle theirBundle hct
        = .ok s) :
      Established P s

/-- The sessions a program can hold: set up, advanced by calls, stored and read back. -/
inductive Held (P : Primitives K) : RatchetSession K → Prop
  | established {s : RatchetSession K} (h : Established P s) : Held P s
  | call {s : RatchetSession K} (h : Held P s) (c : SessionCall) : Held P (s.call P c).2
  | reloaded {s : RatchetSession K} (h : Held P s) : Held P s.reloaded

/-- What held sessions have in common. -/
structure PqInv (s : RatchetSession K) : Prop where
  pq : s.PqEmpty ∨ s.PqHolds
  hct : ∀ hct, s.bootstrapHct = some hct → hct.mlkemCiphertext.length = 1088

theorem pqEmpty_reloaded : s.reloaded.PqEmpty :=
  ⟨rfl, rfl, rfl, rfl, rfl, rfl, rfl⟩

theorem pqInv_classical {s : RatchetSession K} (h : s.PqEmpty) (hh : s.bootstrapHct = none) : PqInv s :=
  ⟨.inl h, fun hct hs => by simp [hh] at hs⟩

theorem pqInv_initAsSenderWith {su : UInt8} (hsu : hybridSuiteIds.contains su = true)
    {r0 : K → K} {d : RatchetSession.HybridDraws} {t : PublicKeyBundle} {hash : Arr 32}
    {s : RatchetSession K}
    (h : RatchetSession.initAsSenderWith P su r0 d t hash = .ok s) : PqInv s := by
  unfold RatchetSession.initAsSenderWith at h
  cases he : hybridEncapsulate P t.x25519Public t.mlkemEncapsKey
      d.ephemeralSecret d.encapRand with
  | error e => simp [he] at h
  | ok r =>
  obtain ⟨hct, ss⟩ := r
  simp only [he, Except.ok.injEq] at h
  subst h
  refine ⟨.inr ⟨hsu, rfl, rfl⟩, fun hc' hs => ?_⟩
  obtain rfl : hct = hc' := Option.some.inj hs
  -- the ciphertext comes from an encapsulation, which returns an array
  unfold hybridEncapsulate at he
  split at he
  · cases he
  · simp only at he
    split at he
    · cases he
    · split at he
      · cases he
      · rename_i ct _ _
        cases he
        exact ct.2

theorem pqInv_initAsReceiverWith {su : UInt8} (hsu : hybridSuiteIds.contains su = true)
    {r0 : K → K} {d x25519Secret : Arr 32} {k : MlKem768KeyPair} {hct : HybridCiphertext}
    {hash : Arr 32} {s : RatchetSession K}
    (h : RatchetSession.initAsReceiverWith P su r0 d x25519Secret k hct hash = .ok s) :
    PqInv s := by
  unfold RatchetSession.initAsReceiverWith at h
  cases hd : hybridDecapsulate P x25519Secret k hct with
  | error e => simp [hd] at h
  | ok ss =>
  simp only [hd, Except.ok.injEq] at h
  subst h
  refine ⟨.inr ⟨hsu, rfl, rfl⟩, fun hc' hs => ?_⟩
  obtain rfl : hct = hc' := Option.some.inj hs
  -- decapsulation checks the length first
  unfold hybridDecapsulate at hd
  split at hd
  · cases hd
  · rename_i hl
    exact not_not.mp hl

theorem Established.pqInv {s : RatchetSession K} (h : Established P s) : PqInv s := by
  cases h with
  | sender => exact pqInv_classical ⟨rfl, rfl, rfl, rfl, rfl, rfl, rfl⟩ rfl
  | receiver => exact pqInv_classical ⟨rfl, rfl, rfl, rfl, rfl, rfl, rfl⟩ rfl
  | senderHybrid draws sk x25519Secret o t h =>
    rcases senderSessionHybrid_cases h with ⟨_, _, _, hsu, hi⟩ | ⟨_, _, _, rfl⟩
    · exact pqInv_initAsSenderWith hsu hi
    · exact pqInv_classical ⟨rfl, rfl, rfl, rfl, rfl, rfl, rfl⟩ rfl
  | receiverHybrid d sk x25519Secret keypair o t hct h =>
    rcases receiverSessionHybrid_cases h with ⟨_, _, _, _, hsu, hi⟩ | ⟨_, _, rfl⟩
    · exact pqInv_initAsReceiverWith hsu hi
    · exact pqInv_classical ⟨rfl, rfl, rfl, rfl, rfl, rfl, rfl⟩ rfl

/-- **The invariant of held sessions.** -/
theorem Held.pqInv {s : RatchetSession K} (h : Held P s) : PqInv s := by
  induction h with
  | established h => exact h.pqInv
  | @call s _ c ih =>
    have hk := KeepsPq.call (P := P) s c
    exact ⟨ih.pq.imp hk.empty hk.holds, fun hct hs => ih.hct hct (hk.hct ▸ hs)⟩
  | @reloaded s _ ih => exact ⟨.inl (pqEmpty_reloaded s), ih.hct⟩

/-! ## Faithful storage -/

/-- A stored session is read back, and answers every sequence of calls as the original does. -/
def ReloadFaithful (P : Primitives (Arr 32)) (s : RatchetSession (Arr 32)) : Prop :=
  ∃ s', (SerializableRatchetSession.fromSession s).intoSession = .ok s'
    ∧ SameBehaviour (RatchetSession.call P) s s'

theorem RatchetSession.PqEmpty.reloaded {s : RatchetSession K} (h : s.PqEmpty) :
    s.reloaded = s.withCounter 0 := by
  cases s
  obtain ⟨rfl, rfl, rfl, rfl, rfl, rfl, rfl⟩ := h
  rfl

theorem RatchetSession.PqHolds.not_reloadFaithful {P : Primitives (Arr 32)} (ha : AeadCorrect P)
    {s : RatchetSession (Arr 32)} (hi : PqInv s) (h : s.PqHolds) : ¬ ReloadFaithful P s := by
  rintro ⟨s', hl, hs⟩
  rw [intoSession_fromSession hi.hct, Except.ok.injEq] at hl
  subst hl
  exact not_sameBehaviour ha h (pqEmpty_reloaded s) hs

/-- Primitives over 32-byte secrets: a derivation cuts its input, a ciphertext shows key and nonce. -/
def bytePrimitives : Primitives (Arr 32) where
  zeroKey := Arr.fit 32 []
  deriveKey _ m := Arr.fit 32 (m.flatMap fun
    | .secret k => k.1
    | .raw b => b)
  deriveBytes _ b := Arr.fit 32 b
  blake3 b := Arr.fit 32 b
  blake3Secret k := k
  sha512 b := Arr.fit 64 b
  x25519Public a := a
  diffieHellman a p := Arr.fit 32 (a.1.zipWith (· ^^^ ·) p.1)
  wasContributory _ := true
  edPublic a := a
  edToMontgomery a := some a
  edKeyValid _ := true
  edSign s m := Arr.fit 64 (s.1 ++ m)
  edVerify v m s := decide (s = Arr.fit 64 (v.1 ++ m))
  mlkemPublic s := Arr.fit 1184 s.1
  mlkemEncapsulate _ r := (Arr.fit 1088 r.1, r)
  mlkemDecapsulate _ c := Arr.fit 32 c.1
  aeadSeal k N p _ := k.1 ++ N.1 ++ p
  aeadOpen k N c _ := if (k.1 ++ N.1).isPrefixOf c then some (c.drop (k.1 ++ N.1).length) else none

theorem aeadCorrect_byte : AeadCorrect bytePrimitives := by
  intro k N p aad
  have hp : (k.1 ++ N.1).isPrefixOf (k.1 ++ N.1 ++ p) = true :=
    List.isPrefixOf_iff_prefix.mpr (List.prefix_append _ _)
  simp only [bytePrimitives, hp, if_true, List.drop_left]

def sampleHybrid : Except String (RatchetSession (Arr 32)) :=
  senderSessionHybrid bytePrimitives (sampleEncryptDraws 1).session alice.signingKey
    alice.x25519EncryptionSecret (alice.bundle bytePrimitives [1, 2, 3])
    (bob.bundle bytePrimitives [1, 2, 3])

/-- **Which sessions survive a restart**: exactly those without an ML-KEM keypair. -/
theorem reload_faithful_iff {P : Primitives (Arr 32)} (haead : AeadCorrect P) {s : RatchetSession (Arr 32)}
    (h : Held P s) : ReloadFaithful P s ↔ s.pqOurKeypair = none := by
  have hi := h.pqInv
  constructor
  · intro hf
    rcases hi.pq with he | hh
    · exact he.ourKeypair
    · exact absurd hf (hh.not_reloadFaithful haead hi)
  · intro hn
    have he : s.PqEmpty := hi.pq.resolve_right fun hh => by
      simpa [hn] using hh.ourKeypair
    refine ⟨s.reloaded, intoSession_fromSession hi.hct, ?_⟩
    rw [he.reloaded]
    exact sameBehaviour_withCounter s 0

/-- Alice's classical session once it was stored, read back and used for a message. -/
def usedClassical : RatchetSession (Arr 32) :=
  ((RatchetSession.initAsSender bytePrimitives (Arr.fit 32 [1]) alice.signingKey bob.signingKey).reloaded.call
    bytePrimitives (.encryptMessage (sampleSendDraws 2) alice.signingKey [104, 105])).2

theorem reload_faithful_classical :
    usedClassical.sendingChain.map (·.index) = some 1 ∧ ReloadFaithful bytePrimitives usedClassical :=
  ⟨by decide +kernel, (reload_faithful_iff aeadCorrect_byte
    (.call (.reloaded (.established (.sender _ _ _))) _)).mpr (by decide +kernel)⟩

def CallResult.advertisesKey : CallResult → Bool
  | .sent (.ok (.v2 e)) => e.pqEncapsKey.isSome
  | _ => false

/-- The next envelope of Alice's session carries her ML-KEM key, that of the one read back none. -/
theorem reload_forgets_keypair :
    ∃ s, sampleHybrid = .ok s ∧ Held bytePrimitives s ∧ ¬ ReloadFaithful bytePrimitives s := by
  cases h : sampleHybrid with
  | error e =>
    have hok : sampleHybrid.isOk = true := by decide +kernel
    simp [h, Except.isOk, Except.toBool] at hok
  | ok s =>
  have he : Established bytePrimitives s := .senderHybrid _ _ _ _ _ h
  refine ⟨s, rfl, .established he, ?_⟩
  rintro ⟨s', hl, hs⟩
  rw [intoSession_fromSession he.pqInv.hct, Except.ok.injEq] at hl
  subst hl
  let call : SessionCall := .encryptMessage (sampleSendDraws 2) alice.signingKey [104, 105]
  have hb : sampleHybrid.toOption.map (fun s => (s.call bytePrimitives call).1.advertisesKey)
      = some true := by decide +kernel
  have ha : sampleHybrid.toOption.map
      (fun s => (s.reloaded.call bytePrimitives call).1.advertisesKey) = some false := by
    decide +kernel
  rw [h] at hb ha
  have hk : (s.call bytePrimitives call).1.advertisesKey = true := Option.some.inj hb
  have hn : (s.reloaded.call bytePrimitives call).1.advertisesKey = false :=
    Option.some.inj ha
  have ho := congrArg CallResult.advertisesKey (List.cons.inj (hs [call])).1
  exact absurd ((hk.symm.trans ho).trans hn) (by decide)

end SCMessenger
