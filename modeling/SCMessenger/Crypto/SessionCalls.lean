import SCMessenger.Crypto.Persistence
import SCMessenger.Crypto.Replay

/-!
# Calls on one session

What one call can do to the session it is made on, and what whole sequences of calls cannot.
-/

namespace SCMessenger

variable {K : Type} {P : Primitives K}

/-! ## Rejected messages -/

/-- A message as `RatchetSession::decrypt` takes it. -/
structure RatchetMessage where
  dhPublic : Bytes
  number : UInt32
  nonce : Arr 24
  ciphertext : Bytes
  aad : Bytes
deriving DecidableEq

def RatchetSession.accept (P : Primitives K) (s : RatchetSession K) (rng : Nat → Arr 32)
    (m : RatchetMessage) : Except String Bytes × RatchetSession K :=
  s.decrypt P rng m.dhPublic m.number m.nonce m.ciphertext m.aad

def bobEstablished : RatchetSession Term :=
  let start := RatchetSession.initAsReceiver termPrimitives (Arr.fit 32 [8]) bob.signingKey
    alice.signingKey
  match classicalMessages with
  | .v1 e :: _ => (decryptMessageRatcheted termPrimitives (fun _ => Arr.fit 32 [9]) start e).2
  | _ => start

def forgedMessage : RatchetMessage := ⟨List.replicate 32 5, 3, Arr.fit 24 [], [1, 2, 3], []⟩

/-- **Decryption is atomic on error.** -/
theorem decrypt_atomic (s : RatchetSession K) (rng : Nat → Arr 32) (m : RatchetMessage) {e : String}
    (h : (s.accept P rng m).1 = .error e) : (s.accept P rng m).2 = s := by
  have hp : s.accept P rng m = (.error e, (s.accept P rng m).2) := Prod.ext h rfl
  exact RatchetSession.decrypt_of_error hp

theorem exists_error_of_toBool {α : Type} {r : Except String α} (h : r.toBool = false) :
    ∃ e, r = .error e := by
  cases r with
  | error e => exact ⟨e, rfl⟩
  | ok a => cases h

/-- The forged message is rejected by a ratchet step that is not adopted. -/
theorem decrypt_atomic_forged :
    bobEstablished.receivingChain.isSome = true
      ∧ (bobEstablished.accept termPrimitives (fun _ => Arr.fit 32 [9]) forgedMessage).1.toBool = false
      ∧ (bobEstablished.accept termPrimitives (fun _ => Arr.fit 32 [9]) forgedMessage).2
        = bobEstablished := by
  have hr : (bobEstablished.accept termPrimitives (fun _ => Arr.fit 32 [9])
      forgedMessage).1.toBool = false := by
    cases hre : (bobEstablished.accept termPrimitives (fun _ => Arr.fit 32 [9]) forgedMessage).1 with
    | error e => rfl
    | ok p =>
      -- no ciphertext is shorter than its nonce
      obtain ⟨_, _, -, -, ho⟩ := (RatchetSession.decrypt_ok_iff (P := termPrimitives) _).mp hre
      have hl := congrArg List.length ((termAead.open_iff _ _ _ _ _).mp ho)
      have hn : (Arr.fit 24 []).1.length = 24 := (Arr.fit 24 []).2
      simp [termPrimitives, termHeader, forgedMessage] at hl
      omega
  obtain ⟨e, he⟩ := exists_error_of_toBool hr
  exact ⟨by decide +kernel, hr, decrypt_atomic _ _ _ he⟩

/-! ## Rejected envelopes of the second format -/

/-- The secret of a readable envelope is known, the peer's key is held, and no ciphertext is pending. -/
def NothingNew (P : Primitives K) (s : RatchetSession K) (e : EnvelopeV2) : Prop :=
  s.isPqHybrid = true → s.peerConfirmed = true →
  e.ratchetDhPublic.isSome = true → e.ratchetMessageNumber.isSome = true → e.nonce.length = 24 →
  ∀ ct key ss, e.pqKemCiphertext = some ct → e.pqEncapsKey = some key →
    s.decapsulateIncoming P ct = some ss →
    s.isDuplicateSecret P ss = true ∧ s.pqTheirEncapsKey = some key ∧ s.pqPendingCt = none

variable {s : RatchetSession K}

theorem isDuplicateSecret_of_pending {ss : K} (h : s.pqPendingRecv = some ss) :
    s.isDuplicateSecret P ss = true := by
  simp [RatchetSession.isDuplicateSecret, h]

theorem takeOver_eq_self_iff (s : RatchetSession K) (ss : K) (key : Bytes) :
    ({ s with
        pqPendingRecv := if s.isDuplicateSecret P ss then s.pqPendingRecv else some ss
        pqTheirEncapsKey := some key
        pqPendingCt := none } : RatchetSession K) = s
      ↔ s.isDuplicateSecret P ss = true ∧ s.pqTheirEncapsKey = some key ∧ s.pqPendingCt = none := by
  constructor
  · intro h
    have hr := congrArg RatchetSession.pqPendingRecv h
    have hk := congrArg RatchetSession.pqTheirEncapsKey h
    have hct := congrArg RatchetSession.pqPendingCt h
    refine ⟨?_, hk.symm, hct.symm⟩
    by_contra hd
    simp only [hd] at hr
    exact hd (isDuplicateSecret_of_pending hr.symm)
  · rintro ⟨hd, hk, hct⟩
    cases s
    simp_all

theorem transcriptMismatch_of_confirmed (h : s.peerConfirmed = true) (e : EnvelopeV2) :
    transcriptMismatch s e = false := by
  simp [transcriptMismatch, h]

/-- What a readable envelope leaves of a confirmed hybrid session that rejects it. -/
theorem sessionAfterReject_of_readable {e : EnvelopeV2} (hh : s.isPqHybrid = true)
    (hc : s.peerConfirmed = true) {dh : Bytes} {n : UInt32} {N : Arr 24}
    (hd : e.ratchetDhPublic = some dh) (hn : e.ratchetMessageNumber = some n)
    (hN : Arr.ofBytes? 24 e.nonce = some N) {ct key : Bytes} {ss : K} (hct : e.pqKemCiphertext = some ct)
    (hk : e.pqEncapsKey = some key) (hs : s.decapsulateIncoming P ct = some ss) :
    sessionAfterReject P s e = { s with
      pqPendingRecv := if s.isDuplicateSecret P ss then s.pqPendingRecv else some ss
      pqTheirEncapsKey := some key
      pqPendingCt := none } := by
  simp [sessionAfterReject, hd, hn, hN, transcriptMismatch_of_confirmed hc, absorbPqFields, hh,
    hc, hct, hk, RatchetSession.validatePqFieldsPresent, RatchetSession.handleIncomingPqFields,
    hs]

/-- A rejected envelope leaves the session itself exactly when it holds nothing new. -/
theorem sessionAfterReject_eq_self_iff (s : RatchetSession K) (e : EnvelopeV2) :
    sessionAfterReject P s e = s ↔ NothingNew P s e := by
  constructor
  · intro h hh hc hd hn hN ct key ss hct hk hs
    obtain ⟨dh, hd⟩ := Option.isSome_iff_exists.mp hd
    obtain ⟨n, hn⟩ := Option.isSome_iff_exists.mp hn
    have hN' : Arr.ofBytes? 24 e.nonce = some ⟨e.nonce, hN⟩ := Arr.ofBytes?_eq_some.mpr rfl
    rw [sessionAfterReject_of_readable hh hc hd hn hN' hct hk hs] at h
    exact (takeOver_eq_self_iff s ss key).mp h
  · intro h
    unfold sessionAfterReject
    split
    · rename_i dh n N hd hn hN
      split
      · rfl
      · rcases absorbPqFields_cases (P := P) s e n with
          ⟨_, ha⟩ | ha | ⟨ct, key, ss, hct, hk, hh, hc, hs, ha⟩
        · rw [ha]
        · rw [ha]
        · rw [ha]
          have hl : e.nonce.length = 24 := (Arr.ofBytes?_eq_some.mp hN) ▸ N.2
          exact (takeOver_eq_self_iff s ss key).mpr (h hh hc (Option.isSome_iff_exists.mpr ⟨dh, hd⟩)
            (Option.isSome_iff_exists.mpr ⟨n, hn⟩) hl ct key ss hct hk hs)
    · rfl

/-- **A rejected envelope leaves no trace** exactly when its post-quantum fields hold nothing new. -/
theorem decryptMessageRatchetedV2_atomic_iff (s : RatchetSession K) (rng : Nat → Arr 32) (e : EnvelopeV2)
    {err : String} (h : (decryptMessageRatchetedV2 P rng s e).1 = .error err) :
    (decryptMessageRatchetedV2 P rng s e).2 = s ↔ NothingNew P s e := by
  rcases decryptMessageRatchetedV2_spec (P := P) s rng e with
    ⟨_, _, _, _, p, _, _, _, he⟩ | ⟨_, _, he⟩
  · rw [he] at h
    cases h
  · rw [he]
    exact sessionAfterReject_eq_self_iff s e

def sampleTranscript : Arr 32 := Arr.fit 32 [42]

/-- Alice's first envelope in a hybrid session, with the bootstrap ciphertext Bob needs for it. -/
def aliceHybrid : Option (HybridCiphertext × WireEnvelope) := do
  let s ← (RatchetSession.initAsSenderHybrid termPrimitives (sampleEncryptDraws 1).session
    alice.x25519EncryptionSecret (bob.bundle termPrimitives [1, 2, 3]) sampleTranscript).toOption
  let hct ← s.bootstrapHct
  let w ← (encryptMessageRatcheted termPrimitives (sampleSendDraws 1) alice.signingKey s
    (ascii "hi")).1.toOption
  some (hct, w)

def bobHybrid : Option (RatchetSession Term) := do
  let (hct, w) ← aliceHybrid
  let s ← (RatchetSession.initAsReceiverHybrid termPrimitives (Arr.fit 32 [8])
    bob.x25519EncryptionSecret bob.mlkemKeypair (alice.bundle termPrimitives [1, 2, 3]) hct
    sampleTranscript).toOption
  match w with
  | .v2 e => some (decryptMessageRatchetedV2 termPrimitives (fun _ => Arr.fit 32 [9]) s e).2
  | .v1 _ => none

/-- An envelope anyone can write: no ciphertext, and a KEM ciphertext and key of the writer. -/
def forgedEnvelope (key : Option Bytes) : EnvelopeV2 where
  suite := 0x03
  senderPublicKey := (termPrimitives.edPublic alice.signingKey).1
  ephemeralPublicKey := List.replicate 32 5
  nonce := List.replicate 24 0
  ciphertext := []
  ratchetDhPublic := some (List.replicate 32 5)
  ratchetMessageNumber := some 1
  pqKemCiphertext := some (List.replicate 1088 6)
  pqEncapsKey := key
  transcriptHash := none

theorem exists_of_any {α : Type} {o : Option α} {p : α → Bool} (h : o.any p = true) :
    ∃ a, o = some a ∧ p a = true := by
  cases o with
  | none => cases h
  | some a => exact ⟨a, rfl, h⟩

theorem bobHybrid_forged :
    bobHybrid.any (fun s =>
      let rejects := fun key => decryptMessageRatchetedV2 termPrimitives (fun _ => Arr.fit 32 [9]) s
        (forgedEnvelope key)
      s.isPqHybrid && s.peerConfirmed && !(rejects none).1.toBool
        && decide ((s.isPqHybrid, (rejects (some [7, 7])).1.toBool, s.pqPendingRecv.isSome,
            (rejects (some [7, 7])).2.pqPendingRecv.isSome, s.pqTheirEncapsKey == some [7, 7],
            (rejects (some [7, 7])).2.pqTheirEncapsKey == some [7, 7])
          = (true, false, false, true, false, true))) = true := by
  decide +kernel

/-- Without a key of its own the forged envelope leaves no trace. -/
theorem atomic_of_missing_key :
    ∃ s, bobHybrid = some s ∧ s.isPqHybrid = true ∧ s.peerConfirmed = true
      ∧ (decryptMessageRatchetedV2 termPrimitives (fun _ => Arr.fit 32 [9]) s
          (forgedEnvelope none)).2 = s := by
  obtain ⟨s, hs, hf⟩ := exists_of_any bobHybrid_forged
  simp only [Bool.and_eq_true, Bool.not_eq_true'] at hf
  obtain ⟨err, he⟩ := exists_error_of_toBool hf.1.2
  refine ⟨s, hs, hf.1.1.1, hf.1.1.2, (decryptMessageRatchetedV2_atomic_iff s _ _ he).mpr ?_⟩
  intro _ _ _ _ _ ct key ss _ hk
  cases hk

/-- After a rejected envelope Bob's session holds its writer's key and secret. -/
theorem rejected_envelope_leaves_trace :
    (bobHybrid.map fun s =>
      let r := decryptMessageRatchetedV2 termPrimitives (fun _ => Arr.fit 32 [9]) s
        (forgedEnvelope (some [7, 7]))
      (s.isPqHybrid, r.1.toBool, s.pqPendingRecv.isSome, r.2.pqPendingRecv.isSome,
        s.pqTheirEncapsKey == some [7, 7], r.2.pqTheirEncapsKey == some [7, 7]))
      = some (true, false, false, true, false, true) := by
  obtain ⟨s, hs, hf⟩ := exists_of_any bobHybrid_forged
  rw [hs, Option.map_some]
  exact congrArg some (of_decide_eq_true (Bool.and_eq_true_iff.mp hf).2)

/-! ## Sessions that were just set up -/

theorem initWith_empty {su : UInt8} {r0 : K → K}
    (h : (∃ draws bundle hash,
        RatchetSession.initAsSenderWith P su r0 draws bundle hash = .ok s)
      ∨ ∃ d x25519Secret keypair hct hash, RatchetSession.initAsReceiverWith P su r0
          d x25519Secret keypair hct hash = .ok s) :
    s.receivingChain = none ∧ s.skippedKeys = ∅ := by
  rcases h with ⟨draws, bundle, hash, h⟩ | ⟨d, x25519Secret, keypair, hct, hash, h⟩
  · unfold RatchetSession.initAsSenderWith at h
    split at h
    · cases h
    · cases h
      exact ⟨rfl, rfl⟩
  · unfold RatchetSession.initAsReceiverWith at h
    split at h
    · cases h
    · cases h
      exact ⟨rfl, rfl⟩

theorem Established.empty (h : Established P s) : s.receivingChain = none ∧ s.skippedKeys = ∅ := by
  cases h with
  | sender => exact ⟨rfl, rfl⟩
  | receiver => exact ⟨rfl, rfl⟩
  | senderHybrid draws sk x25519Secret o t h =>
    rcases senderSessionHybrid_cases h with ⟨_, _, _, -, hi⟩ | ⟨_, _, _, rfl⟩
    · exact initWith_empty (.inl ⟨_, _, _, hi⟩)
    · exact ⟨rfl, rfl⟩
  | receiverHybrid d sk x25519Secret keypair o t hct h =>
    rcases receiverSessionHybrid_cases h with ⟨_, _, _, _, -, hi⟩ | ⟨_, _, rfl⟩
    · exact initWith_empty (.inr ⟨_, _, _, _, _, hi⟩)
    · exact ⟨rfl, rfl⟩

/-! ## Sending touches no key a message is opened with -/

theorem SameKeys.trans {t u : RatchetSession K} (h : SameKeys s t) (h' : SameKeys t u) : SameKeys s u :=
  ⟨h.root.trans h'.root, h.chain.trans h'.chain, h.cache.trans h'.cache⟩

theorem sameKeys_encrypt (s : RatchetSession K) (N : Arr 24) (p aad : Bytes) :
    SameKeys s (s.encrypt P N p aad).2 := by
  unfold RatchetSession.encrypt
  split
  · exact ⟨rfl, rfl, rfl⟩
  · split <;> exact ⟨rfl, rfl, rfl⟩

theorem sameKeys_performPqRatchetStep (s : RatchetSession K) (r : Arr 32) (se : Arr 64) :
    SameKeys s (s.performPqRatchetStep P r se).2 := by
  unfold RatchetSession.performPqRatchetStep
  split
  · exact ⟨rfl, rfl, rfl⟩
  · split
    · exact ⟨rfl, rfl, rfl⟩
    · split <;> exact ⟨rfl, rfl, rfl⟩

theorem sameKeys_pqSendFields (d : SendDraws) (s : RatchetSession K) :
    SameKeys s (pqSendFields P d s).2 := by
  have hs := sameKeys_performPqRatchetStep (P := P) s d.encapRand d.keypairSeed
  unfold pqSendFields
  split
  · split <;> exact ⟨rfl, rfl, rfl⟩
  · split
    · exact ⟨rfl, rfl, rfl⟩
    · rename_i c _
      dsimp only
      generalize (if c.index = 0 then 0 else c.index - 1) = n
      by_cases hn : isCadenceNumber n = true
      · rw [if_pos hn]
        cases hr : s.performPqRatchetStep P d.encapRand d.keypairSeed with
        | mk r s' =>
        rw [hr] at hs
        cases r <;> exact hs
      · rw [if_neg hn]
        exact ⟨rfl, rfl, rfl⟩

theorem sameKeys_encryptMessageRatcheted (d : SendDraws) (sk : Arr 32) (s : RatchetSession K)
    (p : Bytes) : SameKeys s (encryptMessageRatcheted P d sk s p).2 := by
  have he := sameKeys_encrypt (P := P) s d.nonce p (P.edPublic sk).1
  unfold encryptMessageRatcheted
  cases hr : s.encrypt P d.nonce p (P.edPublic sk).1 with
  | mk re s' =>
  rw [hr] at he
  simp only [hr]
  cases re with
  | error e => exact he
  | ok r =>
    simp only
    split
    · exact he.trans (sameKeys_pqSendFields d s')
    · exact he

/-! ## One call -/

def RatchetMessage.OpenedBy (P : Primitives K) (m : RatchetMessage) (k : K) : Prop :=
  ∃ p, P.aeadOpen k m.nonce m.ciphertext m.aad = some p

theorem accept_cases (hkd : KdfIdeal P) (hs : WellFormed P s) (rng : Nat → Arr 32) (m : RatchetMessage) :
    ((s.accept P rng m).1.toBool = false ∧ (s.accept P rng m).2 = s)
    ∨ (s.accept P rng m).1.toBool = true ∧ ∃ d k, m.OpenedBy P k ∧ ¬ Spent P s k
        ∧ Spent P (s.accept P rng m).2 k
        ∧ RatchetSession.Accepted P s rng d m.number k (s.accept P rng m).2 := by
  cases hr : s.accept P rng m with
  | mk r s' =>
  cases r with
  | error e =>
    exact .inl ⟨rfl, RatchetSession.decrypt_of_error hr⟩
  | ok p =>
    obtain ⟨d, k, -, hk, ho, ha⟩ := RatchetSession.decrypt_cases hr
    exact .inr ⟨rfl, d, k, ⟨p, ho⟩, fun hsp => hsp.openingKey_ne hkd d m.number hk,
      Accepted.spent hkd hs ha, ha⟩

/-- What a call leaves intact: well-formed sessions stay so, and spent keys stay spent. -/
structure KeepsKeys (P : Primitives K) (s t : RatchetSession K) : Prop where
  wellFormed : WellFormed P s → WellFormed P t
  spent : ∀ k, WellFormed P s → Spent P s k → Spent P t k

theorem SameKeys.keepsKeys {t : RatchetSession K} (h : SameKeys s t) : KeepsKeys P s t :=
  ⟨fun hs => hs.congr h, fun _ _ hk => hk.congr h⟩

theorem SpendsKeys.keepsKeys {w : WireEnvelope}
    {a : (Nat → Arr 32) → RatchetSession K → Except String Bytes × RatchetSession K}
    (h : SpendsKeys P w a) (rng : Nat → Arr 32) (s : RatchetSession K) :
    KeepsKeys P s (a rng s).2 :=
  ⟨h.wellFormed rng s, fun k _ => h.keepsSpent rng s k⟩

theorem keepsKeys_accept (hkd : KdfIdeal P) (s : RatchetSession K) (rng : Nat → Arr 32)
    (m : RatchetMessage) : KeepsKeys P s (s.accept P rng m).2 := by
  constructor
  · intro hs
    rcases accept_cases hkd hs rng m with ⟨-, he⟩ | ⟨-, d, k, -, -, -, ha⟩
    · rwa [he]
    · exact Accepted.wellFormed hkd hs ha
  · intro k₀ hs hk
    rcases accept_cases hkd hs rng m with ⟨-, he⟩ | ⟨-, d, k, -, -, -, ha⟩
    · rwa [he]
    · exact Accepted.keepsSpent hkd hk ha

/-- **One call** keeps the keys. -/
theorem keepsKeys_call (hk : KdfIdeal P) (s : RatchetSession K) (c : SessionCall) :
    KeepsKeys P s (s.call P c).2 := by
  cases c with
  | encrypt N p aad => exact (sameKeys_encrypt s N p aad).keepsKeys
  | decrypt rng dh n N ct aad => exact keepsKeys_accept hk s rng ⟨dh, n, N, ct, aad⟩
  | encryptMessage draws sk p => exact (sameKeys_encryptMessageRatcheted draws sk s p).keepsKeys
  | decryptMessage rng e => exact (spendsKeysV1 hk e).keepsKeys rng s
  | decryptMessageV2 rng e => exact (spendsKeysV2 hk e).keepsKeys rng s

/-- **Every session a program can hold is well-formed.** -/
theorem Held.wellFormed (hk : KdfIdeal P) (h : Held P s) : WellFormed P s := by
  induction h with
  | established h => exact wellFormed_of_empty h.empty.1 h.empty.2
  | @call s _ c ih => exact (keepsKeys_call hk s c).wellFormed ih
  | @reloaded s _ ih => exact ih.congr ⟨rfl, rfl, rfl⟩

/-! ## Sequences of calls -/

/-- A session under use, with the messages `decrypt` accepted so far. -/
structure SessionRun (K : Type) where
  session : RatchetSession K
  accepted : List RatchetMessage

def SessionRun.step (P : Primitives K) (r : SessionRun K) (c : SessionCall) : SessionRun K where
  session := (r.session.call P c).2
  accepted := match c with
    | .decrypt rng dh n N ct aad =>
      if (r.session.decrypt P rng dh n N ct aad).1.toBool then r.accepted ++ [⟨dh, n, N, ct, aad⟩]
      else r.accepted
    | _ => r.accepted

/-- The invariant of a run: every accepted message was opened by a key that is spent. -/
structure AcceptedOnce (P : Primitives K) (r : SessionRun K) : Prop where
  wellFormed : WellFormed P r.session
  spent : ∀ m ∈ r.accepted, ∃ k, m.OpenedBy P k ∧ Spent P r.session k
  nodup : r.accepted.Nodup

theorem AcceptedOnce.keep {r r' : SessionRun K} (h : AcceptedOnce P r)
    (hk : KeepsKeys P r.session r'.session) (ha : r'.accepted = r.accepted) : AcceptedOnce P r' := by
  constructor
  · exact hk.wellFormed h.wellFormed
  · intro m hm
    rw [ha] at hm
    obtain ⟨k, ho, hs⟩ := h.spent m hm
    exact ⟨k, ho, hk.spent k h.wellFormed hs⟩
  · rw [ha]
    exact h.nodup

theorem AcceptedOnce.step (hkd : KdfIdeal P) (hae : AeadIdeal P) {r : SessionRun K}
    (h : AcceptedOnce P r) (c : SessionCall) : AcceptedOnce P (r.step P c) := by
  have hk := keepsKeys_call hkd r.session c
  cases c with
  | decrypt rng dh n N ct aad =>
    let m : RatchetMessage := ⟨dh, n, N, ct, aad⟩
    rcases accept_cases hkd h.wellFormed rng m with
      ⟨hf, -⟩ | ⟨hok, d, k, ho, hn, hs, -⟩
    · refine h.keep hk ?_
      change (if (r.session.accept P rng m).1.toBool then r.accepted ++ [m] else r.accepted) = _
      simp [hf]
    · have ha : (r.step P (.decrypt rng dh n N ct aad)).accepted = r.accepted ++ [m] := by
        change (if (r.session.accept P rng m).1.toBool then r.accepted ++ [m] else r.accepted) = _
        simp [hok]
      refine ⟨hk.wellFormed h.wellFormed, ?_, ?_⟩
      · intro m' hm'
        rw [ha] at hm'
        rcases mem_concat.mp hm' with hol | rfl
        · obtain ⟨k', ho', hs'⟩ := h.spent m' hol
          exact ⟨k', ho', hk.spent k' h.wellFormed hs'⟩
        · exact ⟨k, ho, hs⟩
      · -- a second acceptance would use a key that is spent
        rw [ha, List.nodup_append]
        refine ⟨h.nodup, by simp, ?_⟩
        rintro m' hm' _ hl rfl
        obtain rfl := List.mem_singleton.mp hl
        obtain ⟨k', ⟨p', ho'⟩, hs'⟩ := h.spent m hm'
        obtain ⟨p, ho⟩ := ho
        obtain rfl := hae.key_unique ho' ho
        exact hn hs'
  | encrypt N p aad => exact h.keep hk rfl
  | encryptMessage draws sk p => exact h.keep hk rfl
  | decryptMessage rng e => exact h.keep hk rfl
  | decryptMessageV2 rng e => exact h.keep hk rfl

/-- **No message is accepted twice** in a sequence of calls on a session a program can hold. -/
theorem decrypted_nodup (hkdf : KdfIdeal P) (haead : AeadIdeal P) {s : RatchetSession K} (hs : Held P s)
    (calls : List SessionCall) : (calls.foldl (SessionRun.step P) ⟨s, []⟩).accepted.Nodup := by
  have hi : AcceptedOnce P ⟨s, []⟩ := ⟨hs.wellFormed hkdf, by simp, List.nodup_nil⟩
  have hru : Guarded (fun _ _ => True) (SessionRun.step P) ⟨s, []⟩ calls :=
    .of_forall _ (fun _ _ => trivial) _
  exact (hru.invariant (AcceptedOnce P) (fun r c hr _ => hr.step hkdf haead c) hi).nodup

def deliveredTwice : List SessionCall :=
  (classicalMessages ++ classicalMessages).filterMap fun
    | .v1 e => do
      let dh ← e.ratchetDhPublic
      let n ← e.ratchetMessageNumber
      let N ← Arr.ofBytes? 24 e.nonce
      some (.decrypt (fun _ => Arr.fit 32 [9]) dh n N e.ciphertext e.senderPublicKey)
    | .v2 _ => none

theorem decrypted_nodup_delivered_twice :
    let s := RatchetSession.initAsReceiver termPrimitives (Arr.fit 32 [8]) bob.signingKey
      alice.signingKey
    deliveredTwice.length = 4
      ∧ (deliveredTwice.foldl (SessionRun.step termPrimitives) ⟨s, []⟩).accepted.length = 2
      ∧ (deliveredTwice.foldl (SessionRun.step termPrimitives) ⟨s, []⟩).accepted.Nodup := by
  intro s
  have hl : deliveredTwice.length = 4
      ∧ (deliveredTwice.foldl (SessionRun.step termPrimitives) ⟨s, []⟩).accepted.length = 2 := by
    decide +kernel
  exact ⟨hl.1, hl.2,
    decrypted_nodup termKdf termAead (.established (.receiver _ _ _)) deliveredTwice⟩

end SCMessenger
