import Mathlib.Tactic.Linarith
import SCMessenger.Crypto.Hybrid

/-!
# The double ratchet session

The session of `crypto/ratchet.rs`.  An operation on `&mut self` returns its result with the session it
leaves, on failure too; random values are arguments.  The counters wrap as in a release build.
-/

namespace SCMessenger

/-! ## Constants -/

def ratchetKdfContext : String := "iron-core ratchet v1 2026-04-15"
def rootKdfContextV1 : String := "iron-core root-chain v1 2026-04-15"
def rootKdfContextV2 : String := "iron-core root-chain v2 hybrid 2026-07"
def sessionRootContextV2 : String := "iron-core session-root v2 2026-07"
def sessionRootContextV3 : String := "iron-core session-root v3 2026-08"

def maxSkipKeys : Nat := 256

def maxRatchetSteps : UInt32 := 10000

/-! ## State -/

/-- A chain: its key and how many message keys it has given. -/
structure Chain (K : Type) where
  chainKey : K
  index : UInt32

def Chain.new {K : Type} (chainKey : K) : Chain K := ⟨chainKey, 0⟩

abbrev SkipKey := Arr 32 × UInt32

/-- By the bytes of the ratchet key, then by number. -/
def SkipKey.cmp : SkipKey → SkipKey → Ordering :=
  compareLex (compareOn fun a => a.1.1) (compareOn fun a => a.2)

instance : Std.TransCmp SkipKey.cmp := by
  unfold SkipKey.cmp
  infer_instance

instance : Std.LawfulEqCmp SkipKey.cmp where
  eq_of_compare {a b} h := by
    unfold SkipKey.cmp compareLex compareOn at h
    simp only [Ordering.then_eq_eq, Std.compare_eq_iff_eq] at h
    exact Prod.ext (Subtype.ext h.1) h.2

abbrev SkippedKeys (K : Type) := Std.ExtTreeMap SkipKey K SkipKey.cmp

/-- A secret held until the peer proves that it has mixed it in. -/
structure PendingPqSecret (K : Type) where
  ss : K
  createdStep : UInt32

/-- The state of a session with one peer. -/
structure RatchetSession (K : Type) where
  ourDhSecret : Arr 32
  ourDhPublic : Arr 32
  theirDhPublic : Option (Arr 32)
  rootKey : K
  sendingChain : Option (Chain K)
  receivingChain : Option (Chain K)
  dhStepCount : UInt32
  skippedKeys : SkippedKeys K
  initialized : Bool
  ourIdentitySecret : Option (Arr 32)
  negotiatedSuite : Option UInt8
  transcriptHash : Option (Arr 32)
  peerConfirmed : Bool
  bootstrapHct : Option HybridCiphertext
  pqOurKeypair : Option MlKem768KeyPair
  pqPrevKeypair : Option MlKem768KeyPair
  pqTheirEncapsKey : Option Bytes
  pqPendingCt : Option Bytes
  pqPendingSent : Option (PendingPqSecret K)
  pqPendingRecv : Option K
  pqLastMixedFp : Option (Arr 16)
  transitionCounter : UInt64

variable {K : Type} (P : Primitives K)

/-! ## Key derivation -/

def deriveKeyWithInfo (key : K) (info : Bytes) : K :=
  P.deriveKey (ratchetKdfContext ++ ":" ++ hexEncode (P.blake3 info).1) [.secret key]

def messageKey (chainKey : K) : K := deriveKeyWithInfo P chainKey (ascii "message-key")

def nextChainKey (chainKey : K) : K := deriveKeyWithInfo P chainKey (ascii "chain-key")

/-- One root step: a mixed value is split into the next root key and a chain key. -/
def rootKeyRatchet (context : String) (input : List (Material K)) : K × K :=
  let combined := P.deriveKey context input
  (P.deriveKey (context ++ ":root") [.secret combined],
    P.deriveKey (context ++ ":chain") [.secret combined])

def rootKeyRatchetV1 (rootKey dhOutput : K) : K × K :=
  rootKeyRatchet P rootKdfContextV1 [.secret rootKey, .secret dhOutput]

def rootKeyRatchetV2 (rootKey dhOutput : K) (pqSs : Option K) : K × K :=
  rootKeyRatchet P rootKdfContextV2
    ([.secret rootKey, .secret dhOutput] ++ (pqSs.map Material.secret).toList)

def deriveRootKeyV1 (priorRoot sharedSecret : K) : K :=
  P.deriveKey rootKdfContextV1 [.secret priorRoot, .secret sharedSecret]

def pqSsFingerprint (ss : K) : Arr 16 := Arr.fit 16 (P.blake3Secret ss).1

/-- Takes the next message key from a chain. -/
def Chain.nextMessageKey (c : Chain K) : K × Chain K :=
  (messageKey P c.chainKey, ⟨nextChainKey P c.chainKey, c.index + 1⟩)

/-! ## Establishing a session -/

namespace RatchetSession

def senderState (ourDhSecret theirPublic : Arr 32) (keys : K × K) : RatchetSession K where
  ourDhSecret := ourDhSecret
  ourDhPublic := P.x25519Public ourDhSecret
  theirDhPublic := some theirPublic
  rootKey := keys.1
  sendingChain := some (Chain.new keys.2)
  receivingChain := none
  dhStepCount := 1
  skippedKeys := ∅
  initialized := true
  ourIdentitySecret := none
  negotiatedSuite := none
  transcriptHash := none
  peerConfirmed := false
  bootstrapHct := none
  pqOurKeypair := none
  pqPrevKeypair := none
  pqTheirEncapsKey := none
  pqPendingCt := none
  pqPendingSent := none
  pqPendingRecv := none
  pqLastMixedFp := none
  transitionCounter := 1

/-- The responder's session: a root key, and the identity secret for the first ratchet step. -/
def receiverState (ourDhSecret : Arr 32) (rootKey : K) (identitySecret : Arr 32) :
    RatchetSession K where
  ourDhSecret := ourDhSecret
  ourDhPublic := P.x25519Public ourDhSecret
  theirDhPublic := none
  rootKey := rootKey
  sendingChain := none
  receivingChain := none
  dhStepCount := 0
  skippedKeys := ∅
  initialized := false
  ourIdentitySecret := some identitySecret
  negotiatedSuite := none
  transcriptHash := none
  peerConfirmed := false
  bootstrapHct := none
  pqOurKeypair := none
  pqPrevKeypair := none
  pqTheirEncapsKey := none
  pqPendingCt := none
  pqPendingSent := none
  pqPendingRecv := none
  pqLastMixedFp := none
  transitionCounter := 0

def initAsSender (ourDhSecret ourSigningKey theirIdentityPublicX25519 : Arr 32) :
    RatchetSession K :=
  let ourX25519 := ed25519ToX25519Secret P ourSigningKey
  let rootKey := deriveRootKeyV1 P P.zeroKey (P.diffieHellman ourX25519 theirIdentityPublicX25519)
  let dhOutput := P.diffieHellman ourDhSecret theirIdentityPublicX25519
  senderState P ourDhSecret theirIdentityPublicX25519 (rootKeyRatchetV1 P rootKey dhOutput)

def initAsReceiver (ourDhSecret ourSigningKey senderIdentityPublicX25519 : Arr 32) :
    RatchetSession K :=
  let ourX25519 := ed25519ToX25519Secret P ourSigningKey
  let rootKey := deriveRootKeyV1 P P.zeroKey (P.diffieHellman ourX25519 senderIdentityPublicX25519)
  receiverState P ourDhSecret rootKey ourX25519

/-- What the operating system draws when a hybrid session is started. -/
structure HybridDraws where
  dhSecret : Arr 32
  ephemeralSecret : Arr 32
  encapRand : Arr 32
  keypairSeed : Arr 64

/-- Start a hybrid session of a suite, given how its first root key follows from the KEM secret. -/
def initAsSenderWith (suite : UInt8) (rootKey0 : K → K) (draws : HybridDraws)
    (theirBundle : PublicKeyBundle) (transcriptHash : Arr 32) : Except String (RatchetSession K) :=
  match hybridEncapsulate P theirBundle.x25519Public theirBundle.mlkemEncapsKey
      draws.ephemeralSecret draws.encapRand with
  | .error e => .error e
  | .ok (hct, ssHybrid) =>
    let dhOutput := P.diffieHellman draws.dhSecret theirBundle.x25519Public
    .ok { senderState P draws.dhSecret theirBundle.x25519Public
            (rootKeyRatchetV2 P (rootKey0 ssHybrid) dhOutput none) with
          negotiatedSuite := some suite
          transcriptHash := some transcriptHash
          bootstrapHct := some hct
          pqOurKeypair := some ⟨draws.keypairSeed⟩
          pqTheirEncapsKey := some theirBundle.mlkemEncapsKey }

/-- Accept a hybrid session.  The peer's key is set to the ML-KEM ciphertext, as in the source. -/
def initAsReceiverWith (suite : UInt8) (rootKey0 : K → K) (ourDhSecret ourX25519Secret : Arr 32)
    (ourMlkemKeypair : MlKem768KeyPair) (hct : HybridCiphertext) (transcriptHash : Arr 32) :
    Except String (RatchetSession K) :=
  match hybridDecapsulate P ourX25519Secret ourMlkemKeypair hct with
  | .error e => .error e
  | .ok ssHybrid =>
    .ok { receiverState P ourDhSecret (rootKey0 ssHybrid) ourX25519Secret with
          negotiatedSuite := some suite
          transcriptHash := some transcriptHash
          bootstrapHct := some hct
          pqOurKeypair := some ourMlkemKeypair
          pqTheirEncapsKey := some hct.mlkemCiphertext }

/-- The first root key of suite 0x03: with a static-static term that authenticates the sender. -/
def sessionRootV3 (dhStatic : K) (transcriptHash : Arr 32) (ssHybrid : K) : K :=
  P.deriveKey sessionRootContextV3 [.secret ssHybrid, .secret dhStatic, .raw transcriptHash.1]

def sessionRootV2 (transcriptHash : Arr 32) (ssHybrid : K) : K :=
  P.deriveKey sessionRootContextV2 [.secret ssHybrid, .raw transcriptHash.1]

def initAsSenderHybrid (draws : HybridDraws) (ourX25519Secret : Arr 32)
    (theirBundle : PublicKeyBundle) (transcriptHash : Arr 32) : Except String (RatchetSession K) :=
  let dhStatic := P.diffieHellman ourX25519Secret theirBundle.x25519Public
  initAsSenderWith P 0x03 (sessionRootV3 P dhStatic transcriptHash) draws theirBundle transcriptHash

def initAsReceiverHybrid (ourDhSecret ourX25519Secret : Arr 32) (ourMlkemKeypair : MlKem768KeyPair)
    (senderBundle : PublicKeyBundle) (hct : HybridCiphertext) (transcriptHash : Arr 32) :
    Except String (RatchetSession K) :=
  let dhStatic := P.diffieHellman ourX25519Secret senderBundle.x25519Public
  initAsReceiverWith P 0x03 (sessionRootV3 P dhStatic transcriptHash) ourDhSecret ourX25519Secret
    ourMlkemKeypair hct transcriptHash

def initAsSenderHybridSuite02 (draws : HybridDraws) (theirBundle : PublicKeyBundle)
    (transcriptHash : Arr 32) : Except String (RatchetSession K) :=
  initAsSenderWith P 0x02 (sessionRootV2 P transcriptHash) draws theirBundle transcriptHash

def initAsReceiverHybridSuite02 (ourDhSecret ourX25519Secret : Arr 32)
    (ourMlkemKeypair : MlKem768KeyPair) (hct : HybridCiphertext) (transcriptHash : Arr 32) :
    Except String (RatchetSession K) :=
  initAsReceiverWith P 0x02 (sessionRootV2 P transcriptHash) ourDhSecret ourX25519Secret
    ourMlkemKeypair hct transcriptHash

/-! ## Encryption -/

def isPqHybrid (s : RatchetSession K) : Bool :=
  match s.negotiatedSuite with
  | some suite => hybridSuiteIds.contains suite
  | none => false

end RatchetSession

/-- A ciphertext with the header of its message. -/
structure RatchetEncryptResult where
  ciphertext : Bytes
  nonce : Arr 24
  messageNumber : UInt32
  ourDhPublic : Arr 32

namespace RatchetSession

/-- Encrypts with the next key of the sending chain. -/
def encrypt (s : RatchetSession K) (nonce : Arr 24) (plaintext aad : Bytes) :
    Except String RatchetEncryptResult × RatchetSession K :=
  match s.sendingChain with
  | none => (.error "Sending chain not initialized", s)
  | some chain =>
    if maxRatchetSteps ≤ s.dhStepCount then
      (.error "Ratchet session has exceeded maximum steps", s)
    else
      let (key, chain') := chain.nextMessageKey P
      (.ok { ciphertext := P.aeadSeal key nonce plaintext aad
             nonce := nonce
             messageNumber := chain'.index - 1
             ourDhPublic := s.ourDhPublic },
        { s with sendingChain := some chain' })

/-! ## Decryption -/

/-- Drops the smallest cached key when there are too many. -/
def evictSkipped (m : SkippedKeys K) : SkippedKeys K :=
  if maxSkipKeys < m.size then
    match m.minKey? with
    | some oldest => m.erase oldest
    | none => m
  else m

/-- Caches the message keys before `target`; `n` bounds the rounds. -/
def skipMessageKeys (theirDh : Arr 32) (target : UInt32) :
    Nat → Chain K → SkippedKeys K → Chain K × SkippedKeys K
  | 0, chain, skipped => (chain, skipped)
  | n + 1, chain, skipped =>
    if chain.index < target then
      let (key, chain') := chain.nextMessageKey P
      skipMessageKeys theirDh target n chain'
        (evictSkipped (skipped.insert (theirDh, chain'.index - 1) key))
    else (chain, skipped)

/-- The key of a message: from the cache, or from the chain after caching what it skips. -/
def getMessageKey (s : RatchetSession K) (theirDh : Arr 32) (target : UInt32) :
    Except String K × RatchetSession K :=
  match s.skippedKeys[(theirDh, target)]? with
  | some key => (.ok key, { s with skippedKeys := s.skippedKeys.erase (theirDh, target) })
  | none =>
    match s.receivingChain with
    | none => (.error "Receiving chain not initialized", s)
    | some chain =>
      if target < chain.index then
        (.error "Message number is behind current chain position", s)
      else if maxSkipKeys < (target - chain.index).toNat then
        (.error "Too many skipped messages", s)
      else
        let (chain', skipped) :=
          skipMessageKeys P theirDh target (target - chain.index).toNat chain s.skippedKeys
        let (key, chain'') := chain'.nextMessageKey P
        (.ok key, { s with receivingChain := some chain'', skippedKeys := skipped })

/-- One root step, by the derivation of the session's suite. -/
def rootStep (s : RatchetSession K) (rootKey dhOutput : K) (pqSs : Option K) : K × K :=
  if s.isPqHybrid then rootKeyRatchetV2 P rootKey dhOutput pqSs
  else rootKeyRatchetV1 P rootKey dhOutput

def firstDhSecret (s : RatchetSession K) : Arr 32 := s.ourIdentitySecret.getD s.ourDhSecret

/-- The root and receiving chain key towards a new key of the peer. -/
def receivingKeys (s : RatchetSession K) (theirNewDh : Arr 32) : K × K :=
  s.rootStep P s.rootKey (P.diffieHellman s.firstDhSecret theirNewDh) s.pqPendingRecv

/-- A copy of the session after a ratchet step, with `candidate` mixed into the sending side. -/
def ratchetTrial (s : RatchetSession K) (newSecret theirNewDh : Arr 32) (candidate : Option K) :
    RatchetSession K :=
  let recv := s.receivingKeys P theirNewDh
  let send := s.rootStep P recv.1 (P.diffieHellman newSecret theirNewDh) candidate
  { s with
    ourIdentitySecret := none
    theirDhPublic := some theirNewDh
    receivingChain := some (Chain.new recv.2)
    ourDhSecret := newSecret
    ourDhPublic := P.x25519Public newSecret
    rootKey := send.1
    sendingChain := some (Chain.new send.2)
    dhStepCount := s.dhStepCount + 1
    initialized := true }

def adoptTrial (trial : RatchetSession K) (candidate : Option K) : RatchetSession K :=
  { trial with
    pqPendingSent := if candidate.isSome then none else trial.pqPendingSent
    pqPendingCt := if candidate.isSome then none else trial.pqPendingCt
    pqLastMixedFp := match trial.pqPendingRecv with
      | some ss => some (pqSsFingerprint P ss)
      | none => trial.pqLastMixedFp
    pqPendingRecv := none
    transitionCounter := trial.transitionCounter + 2
    peerConfirmed := true }

def trialCandidates (s : RatchetSession K) : List (Option K) :=
  match s.pqPendingSent with
  | some pending => [some pending.ss, none]
  | none => [none]

def debugList (errors : List String) : String :=
  "[" ++ ", ".intercalate (errors.map fun e => "\"" ++ e ++ "\"") ++ "]"

/-- The candidates in turn; the `i`-th draws the `i`-th secret. -/
def tryCandidates (s : RatchetSession K) (rng : Nat → Arr 32) (theirNewDh : Arr 32)
    (messageNumber : UInt32) (nonce : Arr 24) (ciphertext aad : Bytes) :
    List (Option K) → Nat → List String → Except String Bytes × RatchetSession K
  | [], _, errors =>
    (.error ("Trial decryption failed for all candidates. Errors: " ++ debugList errors), s)
  | candidate :: rest, i, errors =>
    match (s.ratchetTrial P (rng i) theirNewDh candidate).getMessageKey P theirNewDh
        messageNumber with
    | (.error e, _) =>
      tryCandidates s rng theirNewDh messageNumber nonce ciphertext aad rest (i + 1)
        (errors ++ ["get_message_key failed: " ++ e])
    | (.ok key, trial) =>
      match P.aeadOpen key nonce ciphertext aad with
      | some plaintext => (.ok plaintext, trial.adoptTrial P candidate)
      | none =>
        tryCandidates s rng theirNewDh messageNumber nonce ciphertext aad rest (i + 1)
          (errors ++ ["decryption failed: aead::Error"])

def handleDhRatchetTrial (s : RatchetSession K) (rng : Nat → Arr 32) (theirNewDh : Arr 32)
    (messageNumber : UInt32) (nonce : Arr 24) (ciphertext aad : Bytes) :
    Except String Bytes × RatchetSession K :=
  s.tryCandidates P rng theirNewDh messageNumber nonce ciphertext aad s.trialCandidates 0 []

/-- Decrypt with a cached key, with the receiving chain, or after a ratchet step. -/
def decrypt (s : RatchetSession K) (rng : Nat → Arr 32) (theirDhPublic : Bytes)
    (messageNumber : UInt32) (nonce : Arr 24) (ciphertext aad : Bytes) :
    Except String Bytes × RatchetSession K :=
  match Arr.ofBytes? 32 theirDhPublic with
  | none => (.error "Invalid DH public key length", s)
  | some theirDh =>
    match s.skippedKeys[(theirDh, messageNumber)]? with
    | some key =>
      match P.aeadOpen key nonce ciphertext aad with
      | none => (.error "Decryption failed with skipped key", s)
      | some plaintext =>
        (.ok plaintext, { s with
          skippedKeys := s.skippedKeys.erase (theirDh, messageNumber)
          peerConfirmed := true })
    | none =>
      if s.theirDhPublic = some theirDh then
        match s.getMessageKey P theirDh messageNumber with
        | (.error e, _) => (.error e, s)
        | (.ok key, cloned) =>
          match P.aeadOpen key nonce ciphertext aad with
          | none => (.error "Decryption failed", s)
          | some plaintext => (.ok plaintext, { cloned with peerConfirmed := true })
      else s.handleDhRatchetTrial P rng theirDh messageNumber nonce ciphertext aad

/-! ## Post-quantum ratchet steps -/

def debugSuite : Option UInt8 → String
  | some suite => s!"Some({suite})"
  | none => "None"

/-- Encapsulate to the peer's key, keep the secret pending, and rotate our keypair. -/
def performPqRatchetStep (s : RatchetSession K) (encapRand : Arr 32) (keypairSeed : Arr 64) :
    Except String (Bytes × Bytes) × RatchetSession K :=
  if s.isPqHybrid = false then
    (.error ("PQ ratchet step only supported for PQ-hybrid suites (0x02/0x03), session negotiated "
      ++ debugSuite s.negotiatedSuite), s)
  else
    match s.pqTheirEncapsKey with
    | none => (.error "No PQ encapsulation key from peer", s)
    | some theirEncapsKey =>
      match encapsulate P theirEncapsKey encapRand with
      | .error e => (.error e, s)
      | .ok (ct, ss) =>
        let newKeypair : MlKem768KeyPair := ⟨keypairSeed⟩
        (.ok (ct.1, (newKeypair.publicKey P).1),
          { s with
            pqPendingSent := some ⟨ss, s.dhStepCount⟩
            pqPrevKeypair := s.pqOurKeypair
            pqOurKeypair := some newKeypair
            pqPendingCt := some ct.1 })

/-- The current keypair is tried first, and the previous one's result replaces it. -/
def decapsulateIncoming (s : RatchetSession K) (pqKemCiphertext : Bytes) : Option K :=
  let current := s.pqOurKeypair.bind fun kp => (decapsulate P kp pqKemCiphertext).toOption
  let previous := s.pqPrevKeypair.bind fun kp => (decapsulate P kp pqKemCiphertext).toOption
  previous.or current

def isDuplicateSecret (s : RatchetSession K) (ss : K) : Bool :=
  s.pqLastMixedFp == some (pqSsFingerprint P ss)
    || s.pqPendingRecv.map (pqSsFingerprint P) == some (pqSsFingerprint P ss)

/-- Takes over the post-quantum fields of an envelope. -/
def handleIncomingPqFields (s : RatchetSession K) (pqKemCiphertext pqEncapsKey : Bytes) :
    Except String (Option K) × RatchetSession K :=
  if s.isPqHybrid = false then
    (.error ("PQ fields only expected for PQ-hybrid suites (0x02/0x03), session negotiated "
      ++ debugSuite s.negotiatedSuite), s)
  else
    match s.decapsulateIncoming P pqKemCiphertext with
    | none => (.ok none, s)
    | some ss =>
      (.ok (some ss), { s with
        pqPendingRecv := if s.isDuplicateSecret P ss then s.pqPendingRecv else some ss
        pqTheirEncapsKey := some pqEncapsKey
        pqPendingCt := none })

/-- Refuse a cadence message of a hybrid session that carries no post-quantum ciphertext. -/
def validatePqFieldsPresent (s : RatchetSession K) (hasPqFields : Bool) : Except String Unit :=
  if s.isPqHybrid && s.pqTheirEncapsKey.isSome && !hasPqFields then
    .error ("PQ stripping attempt detected: DH step without PQ fields on a PQ-hybrid session (suite "
      ++ debugSuite s.negotiatedSuite ++ ")")
  else .ok ()

end RatchetSession

end SCMessenger
