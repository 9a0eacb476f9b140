import Mathlib.Data.List.Forall2
import SCMessenger.Crypto.Bootstrap
import SCMessenger.Crypto.Lockstep
import SCMessenger.Lib.Run

/-!
# A hybrid conversation

Two parties exchange envelopes of a hybrid suite.  Each direction is a queue without loss or repetition;
sends and deliveries interleave in any way.
-/

namespace SCMessenger

open RatchetSession

variable {K : Type} (P : Primitives K)

/-! ## The system -/

/-- An envelope in flight, with what its sender put into it. -/
structure Flight (K : Type) where
  envelope : WireEnvelope
  plaintext : Bytes
  kem : Option (Arr 1184 × K)

/-- Both sessions, the envelopes on their way, and the plaintext and result of every delivery. -/
structure Conversation (K : Type) where
  session : Side → RatchetSession K
  queue : Side → List (Flight K)
  log : List (Bytes × Except String Bytes)

/-- One party sends, or the oldest envelope of a sender arrives. -/
inductive Event where
  | send (side : Side) (draws : SendDraws) (plaintext : Bytes)
  | deliver (sender : Side) (rng : Nat → Arr 32)

def pqStep (draws : SendDraws) (s : RatchetSession K) : Option (Arr 1184 × K) :=
  match s.peerConfirmed, s.sendingChain, s.pqTheirEncapsKey.bind (Arr.ofBytes? 1184) with
  | true, some chain, some key =>
    if isCadenceNumber chain.index then some (key, (P.mlkemEncapsulate key draws.encapRand).2)
    else none
  | _, _, _ => none

def receiveV2 (rng : Nat → Arr 32) (s : RatchetSession K) :
    WireEnvelope → Except String Bytes × RatchetSession K
  | .v2 e => decryptMessageRatchetedV2 P rng s e
  | .v1 _ => (.error "V1 envelope in a hybrid session", s)

namespace Conversation

def step (signingKey : Side → Arr 32) (c : Conversation K) : Event → Conversation K
  | .send side draws plaintext =>
    match encryptMessageRatcheted P draws (signingKey side) (c.session side) plaintext with
    | (.ok envelope, s') =>
      { c with
        session := Function.update c.session side s'
        queue := Function.update c.queue side
          (c.queue side ++ [⟨envelope, plaintext, pqStep P draws (c.session side)⟩]) }
    | (.error _, s') => { c with session := Function.update c.session side s' }
  | .deliver sender rng =>
    match c.queue sender with
    | [] => c
    | flight :: rest =>
      let (result, s') := receiveV2 P rng (c.session sender.other) flight.envelope
      { session := Function.update c.session sender.other s'
        queue := Function.update c.queue sender rest
        log := c.log ++ [(flight.plaintext, result)] }

/-- The conversation after the bootstrap, with the initiator's first envelope on its way. -/
def start (a b : IdentityKeys) (sA sB : Bytes) (draws : EncryptDraws) (dhSecret : Arr 32)
    (plaintext : Bytes) : Option (Conversation K) :=
  match senderSessionHybrid P draws.session a.signingKey a.x25519EncryptionSecret (a.bundle P sA)
      (b.bundle P sB) with
  | .error _ => none
  | .ok s =>
    match encryptMessageRatcheted P draws.send a.signingKey s plaintext with
    | (.ok (.v2 e), s') =>
      let keys : ReceiverKeys := ⟨b.signingKey, some b.x25519EncryptionSecret, some b.mlkemKeypair,
        some (b.bundle P sB), some (a.bundle P sA)⟩
      match initReceiverV2Session P keys e dhSecret with
      | .ok r => some {
          session := fun | .initiator => s' | .responder => r
          queue := fun | .initiator => [⟨.v2 e, plaintext, none⟩] | .responder => []
          log := [] }
      | _ => none
    | _ => none

end Conversation

/-! ## The condition -/

/-- Nothing more before the first reply, and at the cadence only with a key of the peer. -/
def MaySend (s : RatchetSession K) : Prop :=
  ∀ chain ∈ s.sendingChain, s.peerConfirmed = true
    ∧ (isCadenceNumber chain.index = true → s.pqTheirEncapsKey.map List.length = some 1184)

/-- The key encapsulated to is the one tried first, and the secret is not already held. -/
def MayReceive (s : RatchetSession K) (kem : Option (Arr 1184 × K)) : Prop :=
  ∀ step ∈ kem, (s.pqPrevKeypair.or s.pqOurKeypair).map (·.publicKey P) = some step.1
    ∧ s.isDuplicateSecret P step.2 = false

/-- What is sent and received may be, and a drawn secret does not give a key the other side holds. -/
def Admissible (c : Conversation K) : Event → Prop
  | .send side _ _ => MaySend (c.session side)
  | .deliver sender rng =>
    (c.session sender).theirDhPublic ≠ some (P.x25519Public (rng 0))
      ∧ ∀ flight ∈ (c.queue sender).head?, MayReceive P (c.session sender.other) flight.kem

instance (s : RatchetSession K) : Decidable (MaySend s) := by
  unfold MaySend
  infer_instance

instance (s : RatchetSession K) (kem : Option (Arr 1184 × K)) : Decidable (MayReceive P s kem) := by
  unfold MayReceive
  infer_instance

instance (c : Conversation K) : ∀ event, Decidable (Admissible P c event)
  | .send side _ _ => inferInstanceAs (Decidable (MaySend (c.session side)))
  | .deliver _ _ => inferInstanceAs (Decidable (_ ∧ _))

variable {P}

/-! ## Sending -/

/-- What an envelope of a confirmed session says about its encapsulation. -/
inductive Tagged (P : Primitives K) (e : EnvelopeV2) : Option (Arr 1184 × K) → Prop where
  | plain (htr : e.transcriptHash = none) (hct : e.pqKemCiphertext = none)
      (hn : ∀ n, e.ratchetMessageNumber = some n → isCadenceNumber n = false) : Tagged P e none
  | step (key : Arr 1184) (r : Arr 32) (encapsKey : Bytes) (htr : e.transcriptHash = none)
      (hct : e.pqKemCiphertext = some (P.mlkemEncapsulate key r).1.1)
      (hkey : e.pqEncapsKey = some encapsKey)
      (hn : ∀ n, e.ratchetMessageNumber = some n → isCadenceNumber n = true) :
      Tagged P e (some (key, (P.mlkemEncapsulate key r).2))

theorem isCadenceNumber_next (n : UInt32) :
    isCadenceNumber (if n + 1 = 0 then 0 else n + 1 - 1) = isCadenceNumber n := by
  split
  · rename_i h
    obtain rfl : n = 4294967295 := by
      have := congrArg UInt32.toNat h
      rw [UInt32.toNat_add] at this
      apply UInt32.toNat_inj.mp
      have hl := n.toNat_lt
      simp only [UInt32.toNat_one, UInt32.toNat_zero] at this
      change n.toNat = 4294967295
      omega
    decide
  · rw [UInt32.add_sub_cancel]

variable {s : RatchetSession K}

theorem pqSendFields_confirmed (hc : s.peerConfirmed = true) (c : Chain K) (d : SendDraws) :
    pqSendFields P d (s.afterSend P c) = if isCadenceNumber c.index then
        match (s.afterSend P c).performPqRatchetStep P d.encapRand d.keypairSeed with
        | (.ok (ct, e), s') => ((some ct, some e), s')
        | (.error _, s') => ((none, none), s')
      else ((none, none), s.afterSend P c) := by
  have hc' : (s.afterSend P c).peerConfirmed = true := hc
  have hch : (s.afterSend P c).sendingChain = some ⟨nextChainKey P c.chainKey, c.index + 1⟩ := rfl
  unfold pqSendFields
  rw [hch, if_neg (by simp [hc'])]
  -- the condition is decided by the number of the message that was sent
  exact if_congr (iff_of_eq (congrArg (· = true) (isCadenceNumber_next c.index))) rfl rfl

theorem performPqRatchetStep_ok (hh : s.isPqHybrid = true) {key : Arr 1184}
    (hk : s.pqTheirEncapsKey = some key.1) (r : Arr 32) (se : Arr 64) :
    s.performPqRatchetStep P r se
      = (.ok ((P.mlkemEncapsulate key r).1.1, ((⟨se⟩ : MlKem768KeyPair).publicKey P).1), { s with
          pqPendingSent := some ⟨(P.mlkemEncapsulate key r).2, s.dhStepCount⟩
          pqPrevKeypair := s.pqOurKeypair
          pqOurKeypair := some ⟨se⟩
          pqPendingCt := some (P.mlkemEncapsulate key r).1.1 }) := by
  simp [performPqRatchetStep, hh, hk, encapsulate]

/-- A confirmed session sends the next message, at the cadence with an encapsulation to the peer's key. -/
theorem send_spec {c : Chain K} (hh : s.isPqHybrid = true) (hc : s.sendingChain = some c)
    (hsp : s.dhStepCount < maxRatchetSteps) (hm : MaySend s) (d : SendDraws) (sk : Arr 32)
    (p : Bytes) :
    ∃ e s', encryptMessageRatcheted P d sk s p = (.ok (.v2 e), s')
      ∧ Carries P s.ourDhPublic c p (.v2 e) ∧ Tagged P e (pqStep P d s)
      ∧ Sends P s s' c ((pqStep P d s).map (·.2)) := by
  obtain ⟨e, s', he, -, hcr, hpq, -, ht⟩ :=
    encryptMessageRatcheted_hybrid (P := P) hh hc hsp d sk p
  obtain ⟨hco, hky⟩ := hm c hc
  have hnu : ∀ n, e.ratchetMessageNumber = some n → n = c.index :=
    fun n hn => Option.some.inj (hn.symm.trans hcr.number)
  rw [pqSendFields_confirmed hco] at hpq
  refine ⟨e, s', he, hcr, ?_⟩
  cases hca : isCadenceNumber c.index with
  | false =>
    rw [hca, if_neg Bool.false_ne_true] at hpq
    obtain ⟨hp, rfl⟩ := Prod.mk.inj hpq
    have ht' : e.transcriptHash = none := ht.trans (if_pos hco)
    have hs : pqStep P d s = none := by
      simp only [pqStep, hco, hc]
      split <;> simp_all
    rw [hs]
    exact ⟨.plain ht' (Prod.mk.inj hp).1.symm fun n hn => by rw [hnu n hn, hca],
      hc, rfl, rfl, fun _ => rfl⟩
  | true =>
    obtain ⟨k, hk, hl⟩ := Option.map_eq_some_iff.mp (hky hca)
    obtain ⟨key, rfl⟩ : ∃ key : Arr 1184, key.1 = k := ⟨⟨k, hl⟩, rfl⟩
    have hk' : (s.afterSend P c).pqTheirEncapsKey = some key.1 := hk
    rw [hca, if_pos rfl, performPqRatchetStep_ok (P := P) (s := s.afterSend P c) hh hk'] at hpq
    obtain ⟨hp, rfl⟩ := Prod.mk.inj hpq
    have ht' : e.transcriptHash = none := ht.trans (if_pos hco)
    have hs : pqStep P d s = some (key, (P.mlkemEncapsulate key d.encapRand).2) := by
      simp [pqStep, hco, hc, hk, hca]
    rw [hs]
    refine ⟨.step _ _ _ ht' (Prod.mk.inj hp).1.symm (Prod.mk.inj hp).2.symm
      fun n hn => by rw [hnu n hn, hca], hc, rfl, rfl, fun h0 => ?_⟩
    rw [h0] at hca
    exact absurd hca (by decide)

/-! ## Receiving -/

theorem decapsulateIncoming_arr (s : RatchetSession K) (ct : Arr 1088) :
    s.decapsulateIncoming P ct.1
      = (s.pqPrevKeypair.or s.pqOurKeypair).map fun kp => P.mlkemDecapsulate kp.seed ct := by
  unfold decapsulateIncoming
  cases s.pqPrevKeypair <;> cases s.pqOurKeypair <;> simp [decapsulate_of_arr, Except.toOption]

/-- **The fields of a tagged envelope are taken over** by a session that may receive them. -/
theorem Tagged.absorb (hk : KemIdeal P) (hh : s.isPqHybrid = true) {e : EnvelopeV2}
    {kem : Option (Arr 1184 × K)} (ht : Tagged P e kem) {n : UInt32}
    (hn : e.ratchetMessageNumber = some n) (hco : s.peerConfirmed = false → isCadenceNumber n = false)
    (hm : MayReceive P s kem) :
    transcriptMismatch s e = false
      ∧ ∃ s₁, absorbPqFields P s e n = (.ok (), s₁) ∧ TakesOver s s₁ (kem.map (·.2)) := by
  cases ht with
  | plain htr hct hc =>
    refine ⟨by simp [transcriptMismatch, htr], s, ?_, s.pqTheirEncapsKey, s.pqPendingCt, rfl⟩
    simp [absorbPqFields, hc n hn, hct]
  | step key r ek htr hct hke hc =>
    have hc' : s.peerConfirmed = true := by
      by_contra hne
      have hf := hco (by simpa using hne)
      simp [hc n hn] at hf
    obtain ⟨hp, hd⟩ := hm _ rfl
    obtain ⟨kp, hkp, rfl⟩ := Option.map_eq_some_iff.mp hp
    have hde : s.decapsulateIncoming P (P.mlkemEncapsulate (kp.publicKey P) r).1.1
        = some (P.mlkemEncapsulate (kp.publicKey P) r).2 := by
      rw [decapsulateIncoming_arr, hkp]
      exact congrArg some (hk.correct kp.seed r)
    refine ⟨by simp [transcriptMismatch, htr], _, ?_, some ek, none, rfl⟩
    simp [absorbPqFields, hh, hc', hc n hn, validatePqFieldsPresent, hct, hke,
      handleIncomingPqFields, hde, hd]

/-- The first envelope of the initiator, as an unconfirmed responder sees it. -/
structure Bootstrapping (s : RatchetSession K) (f : Flight K) : Prop where
  unconfirmed : s.peerConfirmed = false
  kem : f.kem = none
  transcript : ∀ e, f.envelope = .v2 e → transcriptMismatch s e = false

/-- A flight's envelope carries the plaintext at the parcel's chain position. -/
structure Transports (P : Primitives K) (p : Parcel K) (f : Flight K) : Prop where
  carries : Carries P p.dh p.chain f.plaintext f.envelope
  secret : p.secret = f.kem.map (·.2)

def Readable (P : Primitives K) (s : RatchetSession K) (f : Flight K) : Prop :=
  ∃ e, f.envelope = .v2 e ∧ (Tagged P e f.kem ∨ Bootstrapping s f)

/-- **Receiving in step**: the oldest flight decrypts to its plaintext. -/
theorem receive_spec (hd : DhIdeal P) (hk : KemIdeal P) (ha : AeadIdeal P) {x y : RatchetSession K}
    {p : Parcel K} {toY toX : List (Parcel K)} {f : Flight K} {rng : Nat → Arr 32}
    (h : InStep P x y (p :: toY) toX) (hh : y.isPqHybrid = true)
    (hun : y.peerConfirmed = false → y.receivingChain = none) (hf : Transports P p f)
    (hr : Readable P y f) (hm : MayReceive P y f.kem)
    (hfr : x.theirDhPublic ≠ some (P.x25519Public (rng 0))) :
    ∃ y', receiveV2 P rng y f.envelope = (.ok f.plaintext, y') ∧ InStep P x y' toY toX
      ∧ y'.peerConfirmed = true ∧ y'.isPqHybrid = true := by
  obtain ⟨e, he, hta⟩ := hr
  have hc : Carries P p.dh p.chain f.plaintext (.v2 e) := he ▸ hf.carries
  have hn : e.ratchetMessageNumber = some p.chain.index := hc.number
  have hfi : y.peerConfirmed = false → isCadenceNumber p.chain.index = false := fun hu => by
    rw [h.index_eq_zero (hun hu)]
    decide
  have hab : transcriptMismatch y e = false ∧ ∃ y₁,
      absorbPqFields P y e p.chain.index = (.ok (), y₁) ∧ TakesOver y y₁ (f.kem.map (·.2)) := by
    rcases hta with hta | hb
    · exact hta.absorb hk hh hn hfi hm
    · refine ⟨hb.transcript e he, y, ?_, y.pqTheirEncapsKey, y.pqPendingCt, ?_⟩
      · simp [absorbPqFields, hb.unconfirmed]
      · rw [hb.kem]
        rfl
  obtain ⟨hmi, y₁, has, ht⟩ := hab
  obtain ⟨y', hex, hi⟩ := h.receive hd.comm (hf.secret ▸ ht) hfr
  have hh₁ : y₁.isPqHybrid = true ∧ y₁.skippedKeys = ∅ := by
    obtain ⟨key, ct, rfl⟩ := ht
    exact ⟨hh, h.skippedKeys⟩
  refine ⟨y', ?_, hi, hex.peerConfirmed, hex.isPqHybrid.trans hh₁.1⟩
  rw [he]
  exact decryptMessageRatchetedV2_expected ha hmi has hh₁.2 hex hc

/-! ## The invariant of a conversation -/

/-- The sessions are in step with readable flights, and every delivery gave the plaintext sent. -/
structure ConversationInv (P : Primitives K) (c : Conversation K) : Prop where
  hybrid : ∀ side, (c.session side).isPqHybrid = true
  unconfirmed : ∀ side, (c.session side).peerConfirmed = false →
    (c.session side).receivingChain = none
  inStep : ∃ parcels : Side → List (Parcel K),
    (∀ side, List.Forall₂ (Transports P) (parcels side) (c.queue side))
    ∧ ∀ side, InStep P (c.session side) (c.session side.other) (parcels side) (parcels side.other)
  /-- Only the oldest flight of a sender can be the initiator's first envelope. -/
  readable : ∀ side f rest, c.queue side = f :: rest → Readable P (c.session side.other) f
    ∧ ∀ g ∈ rest, ∃ e, g.envelope = .v2 e ∧ Tagged P e g.kem
  delivered : ∀ entry ∈ c.log, entry.2 = .ok entry.1

namespace ConversationInv

variable {c : Conversation K} {z : Side}

/-- **A send keeps the invariant.** -/
theorem send (h : ConversationInv P c) (sk : Side → Arr 32) (d : SendDraws) (p : Bytes)
    (hm : MaySend (c.session z)) : ConversationInv P (c.step P sk (.send z d p)) := by
  by_cases hn : (c.session z).sendingChain = none ∨ maxRatchetSteps ≤ (c.session z).dhStepCount
  · -- nothing is sent and nothing changes
    obtain ⟨err, he⟩ := encryptMessageRatcheted_error (P := P) hn d (sk z) p
    simpa only [Conversation.step, he, Function.update_eq_self] using h
  obtain ⟨hch, hst⟩ := not_or.mp hn
  obtain ⟨ch, hc⟩ := Option.ne_none_iff_exists'.mp hch
  obtain ⟨e, s', hen, hca, hta, hs⟩ := send_spec (P := P) (h.hybrid z) hc
    (UInt32.not_le.mp hst) hm d (sk z) p
  have hco : (c.session z).peerConfirmed = true := (hm ch hc).1
  have ho := z.other_ne
  simp only [Conversation.step, hen]
  obtain ⟨pa, htn, hi⟩ := h.inStep
  refine ⟨fun si => ?_, fun si hu => ?_, ?_, fun si f r hq => ?_, h.delivered⟩
  · rcases si.eq_or_other z with rfl | rfl
    · simpa [hs.isPqHybrid] using h.hybrid si
    · simpa [ho] using h.hybrid z.other
  · rcases si.eq_or_other z with rfl | rfl
    · simp [hs.peerConfirmed, hco] at hu
    · simp only [ne_eq, ho, not_false_eq_true, Function.update_of_ne] at hu ⊢
      exact h.unconfirmed _ hu
  · refine ⟨Function.update pa z (pa z ++ [⟨(c.session z).ourDhPublic, ch,
      (pqStep P d (c.session z)).map (·.2)⟩]), fun si => ?_, inStep_sides z ?_⟩
    · rcases si.eq_or_other z with rfl | rfl
      · simp only [Function.update_self]
        exact List.rel_append (htn si) (.cons ⟨hca, rfl⟩ .nil)
      · simpa [ho] using htn z.other
    · simpa [ho] using (hi z).send hs
  · rcases si.eq_or_other z with rfl | rfl
    · simp only [Function.update_self, ne_eq, ho, not_false_eq_true, Function.update_of_ne] at hq ⊢
      cases hol : c.queue si with
      | nil =>
        rw [hol] at hq
        obtain ⟨rfl, rfl⟩ := List.cons.inj hq
        exact ⟨⟨e, rfl, .inl hta⟩, by simp⟩
      | cons f' r' =>
        rw [hol] at hq
        obtain ⟨rfl, rfl⟩ := List.cons.inj hq
        obtain ⟨hh, ht⟩ := h.readable si f' r' hol
        refine ⟨hh, fun g hg => ?_⟩
        rcases mem_concat.mp hg with hg | rfl
        · exact ht g hg
        · exact ⟨e, rfl, hta⟩
    · simp only [ne_eq, ho, not_false_eq_true, Function.update_of_ne, Side.other_other,
        Function.update_self] at hq ⊢
      obtain ⟨⟨e', he', ht'⟩, ht⟩ := h.readable z.other f r hq
      rw [Side.other_other] at ht'
      -- a session that sends is confirmed, so no first envelope is on its way to it
      exact ⟨⟨e', he', .inl (ht'.resolve_right fun hb => by simpa [hco] using hb.unconfirmed)⟩,
        ht⟩

/-- **A delivery keeps the invariant.** -/
theorem deliver (hd : DhIdeal P) (hk : KemIdeal P) (ha : AeadIdeal P) (h : ConversationInv P c)
    (sk : Side → Arr 32) (rng : Nat → Arr 32) (had : Admissible P c (.deliver z rng)) :
    ConversationInv P (c.step P sk (.deliver z rng)) := by
  obtain ⟨hfr, hm⟩ := had
  cases hq : c.queue z with
  | nil => simpa only [Conversation.step, hq] using h
  | cons f r =>
  obtain ⟨pa, htn, hin⟩ := h.inStep
  have hz := htn z
  rw [hq] at hz
  cases hp : pa z with
  | nil =>
    rw [hp] at hz
    cases hz
  | cons p ps =>
  rw [hp] at hz
  obtain ⟨hf, hps⟩ := List.forall₂_cons.mp hz
  have hi := hin z
  rw [hp] at hi
  obtain ⟨hre, ht⟩ := h.readable z f r hq
  obtain ⟨y', hr, hi', hc', hh'⟩ := receive_spec hd hk ha hi (h.hybrid z.other)
    (h.unconfirmed z.other) hf hre (hm f (by simp [hq])) hfr
  have ho := z.other_ne
  simp only [Conversation.step, hq, hr]
  refine ⟨fun si => ?_, fun si hu => ?_, ?_, fun si g r' hg => ?_, fun entry hen => ?_⟩
  · rcases si.eq_or_other z with rfl | rfl
    · simpa [ho.symm] using h.hybrid si
    · simpa using hh'
  · rcases si.eq_or_other z with rfl | rfl
    · simp only [ne_eq, ho.symm, not_false_eq_true, Function.update_of_ne] at hu ⊢
      exact h.unconfirmed _ hu
    · simp [hc'] at hu
  · refine ⟨Function.update pa z ps, fun si => ?_, inStep_sides z ?_⟩
    · rcases si.eq_or_other z with rfl | rfl
      · simpa using hps
      · simpa [ho] using htn z.other
    · simpa [ho, ho.symm] using hi'
  · rcases si.eq_or_other z with rfl | rfl
    · simp only [Function.update_self] at hg ⊢
      rw [hg] at ht
      obtain ⟨e, he, hta⟩ := ht g (by simp)
      exact ⟨⟨e, he, .inl hta⟩, fun g' hg' => ht g' (by simp [hg'])⟩
    · simp only [ne_eq, ho, not_false_eq_true, Function.update_of_ne, Side.other_other] at hg ⊢
      rw [Function.update_of_ne ho.symm]
      simpa only [Side.other_other] using h.readable z.other g r' hg
  · rcases mem_concat.mp hen with hol | rfl
    · exact h.delivered entry hol
    · rfl

end ConversationInv

/-! ## From the bootstrap on -/

theorem hybrid_ahead (hd : DhIdeal P) {su : UInt8} (hh : su ∈ hybridSuiteIds) (hash : Arr 32)
    (hct : HybridCiphertext) (r : K) (dr : HybridDraws) (d : Arr 32) (b : IdentityKeys) :
    Ahead P (hybridSender P su hash hct r dr b)
      (hybridReceiver P su hash hct r d b) [] [] [] := by
  obtain ⟨hs, ck, hc, hk⟩ := hybrid_agrees hd hh hash hct r dr d b
  exact {
    suite := rfl
    skippedAhead := rfl
    skippedBehind := rfl
    ownKey := rfl
    noIdentity := rfl
    unseen := fun h => by cases h
    root := ⟨ck, _, hk, hc, .nil _⟩
    oldStream := .inl rfl
    backStream := .inl ⟨rfl, rfl⟩
    sentAhead := rfl
    sentBehind := rfl
    first := by simp }

/-- **The bootstrap of a hybrid suite succeeds** and leaves a conversation in order. -/
theorem start_inv (hd : DhIdeal P) (hk : KemIdeal P) (a b : IdentityKeys) {sA sB : Bytes} {su : UInt8}
    (hsu : commonSuite sA sB = some su) (hhy : su ∈ hybridSuiteIds) (d : EncryptDraws)
    (ds : Arr 32) (p : Bytes) :
    ∃ c₀, Conversation.start P a b sA sB d ds p = some c₀ ∧ ConversationInv P c₀ := by
  obtain ⟨ro, hs, hr⟩ := bootstrap_hybrid hd hk a b hsu hhy d.session
  obtain ⟨e, he, hc, hhc, ht⟩ := hybridSender_firstEnvelope (P := P) hhy
    (transcriptHashOf P a b sA sB su) ro d.session b d.send a.signingKey p
  have hi : initReceiverV2Session P ⟨b.signingKey, some b.x25519EncryptionSecret,
        some b.mlkemKeypair, some (b.bundle P sB), some (a.bundle P sA)⟩ e ds
      = .ok (hybridReceiver P su (transcriptHashOf P a b sA sB su)
          (bootstrapHctOf P d.session b) ro ds b) := by
    simp only [initReceiverV2Session, hhc, hr, Outcome.ofExcept]
  have ha := hybrid_ahead hd hhy (transcriptHashOf P a b sA sB su)
    (bootstrapHctOf P d.session b) ro d.session ds b
  have hse : Sends P (hybridSender P su (transcriptHashOf P a b sA sB su)
        (bootstrapHctOf P d.session b) ro d.session b)
      ((hybridSender P su (transcriptHashOf P a b sA sB su)
        (bootstrapHctOf P d.session b) ro d.session b).afterSend P
          (firstChain P ro d.session b)) (firstChain P ro d.session b) none :=
    ⟨rfl, rfl, rfl, fun _ => rfl⟩
  have hh : ∀ s : RatchetSession K, s.negotiatedSuite = some su → s.isPqHybrid = true :=
    fun s hs' => by simpa [isPqHybrid_of_suite hs'] using hhy
  refine ⟨_, by simp only [Conversation.start, hs, he, hi]; rfl, ?_⟩
  refine ⟨fun si => ?_, fun si _ => ?_, ?_, fun si f re hq => ?_, by simp⟩
  · cases si with
    | initiator => exact hh _ rfl
    | responder => exact hh _ rfl
  · cases si with
    | initiator => rfl
    | responder => rfl
  · refine ⟨fun | .initiator => [⟨P.x25519Public d.session.dhSecret,
      firstChain P ro d.session b, none⟩] | .responder => [], fun si => ?_,
      inStep_sides .initiator (.inl ⟨[], _, rfl, ha.sendAhead hse⟩)⟩
    cases si with
    | initiator => exact .cons ⟨hc, rfl⟩ .nil
    | responder => exact .nil
  · cases si with
    | initiator =>
      obtain ⟨rfl, rfl⟩ := List.cons.inj hq
      refine ⟨⟨e, rfl, .inr ⟨rfl, rfl, fun e' he' => ?_⟩⟩, by simp⟩
      cases he'
      simp [transcriptMismatch, Side.other, ht, hybridReceiver, receiverState]
    | responder => cases hq

/-! ## Sample conversations -/

def sampleSigningKey : Side → Arr 32
  | .initiator => alice.signingKey
  | .responder => bob.signingKey

def sampleStart : Option (Conversation Term) :=
  Conversation.start termPrimitives alice bob [1, 3] [1, 3] (sampleEncryptDraws 7) (Arr.fit 32 [8]) [0]

def firstReply : List Event :=
  [.deliver .initiator fun _ => Arr.fit 32 [11], .send .responder (sampleSendDraws 2) [2],
    .deliver .responder fun _ => Arr.fit 32 [13]]

def secondFlight : List Event :=
  [.send .initiator (sampleSendDraws 1) [1], .deliver .initiator fun _ => Arr.fit 32 [11],
    .deliver .initiator fun _ => Arr.fit 32 [12], .send .responder (sampleSendDraws 2) [2],
    .deliver .responder fun _ => Arr.fit 32 [13], .send .initiator (sampleSendDraws 3) [3],
    .deliver .initiator fun _ => Arr.fit 32 [14]]

/-- The plaintexts delivered in a run of the sample conversation, with what they decrypted to. -/
def sampleLog (events : List Event) : Option (List (Bytes × Option Bytes)) :=
  sampleStart.map fun c₀ =>
    (events.foldl (Conversation.step termPrimitives sampleSigningKey) c₀).log.map
      fun entry => (entry.1, entry.2.toOption)

/-- **Two-party hybrid conversation**: in every admissible run every delivery yields the plaintext sent. -/
theorem conversation_delivers (hdh : DhIdeal P) (hkem : KemIdeal P) (haead : AeadIdeal P)
    (a b : IdentityKeys) {sA sB : Bytes} {suite : UInt8} (hsuite : commonSuite sA sB = some suite)
    (hhyb : suite ∈ hybridSuiteIds) (draws : EncryptDraws) (dhSecret : Arr 32) (p : Bytes)
    (signingKey : Side → Arr 32) (events : List Event) :
    ∃ c₀, Conversation.start P a b sA sB draws dhSecret p = some c₀
      ∧ (Guarded (Admissible P) (Conversation.step P signingKey) c₀ events →
        ∀ entry ∈ (events.foldl (Conversation.step P signingKey) c₀).log, entry.2 = .ok entry.1) := by
  obtain ⟨c₀, hs, hi⟩ := start_inv hdh hkem a b hsuite hhyb draws dhSecret p
  refine ⟨c₀, hs, fun hg => ?_⟩
  have hr := hg.invariant (ConversationInv P) (fun c e hc ha => ?_) hi
  · exact hr.delivered
  · cases e with
    | send si draws pl => exact hc.send signingKey draws pl ha
    | deliver se rng => exact hc.deliver hdh hkem haead signingKey rng ha

/-- A first message and its reply. -/
theorem firstReply_delivers :
    ∃ c₀, sampleStart = some c₀
      ∧ ∀ entry ∈ (firstReply.foldl (Conversation.step termPrimitives sampleSigningKey) c₀).log,
        entry.2 = .ok entry.1 := by
  obtain ⟨c₀, hs, hr⟩ := conversation_delivers termDh termKem termAead alice bob
    (by decide : commonSuite [1, 3] [1, 3] = some 3) (by decide) (sampleEncryptDraws 7)
    (Arr.fit 32 [8]) [0] sampleSigningKey firstReply
  have hg : ∀ c ∈ sampleStart, Guarded (Admissible termPrimitives)
      (Conversation.step termPrimitives sampleSigningKey) c firstReply := by
    decide +kernel
  exact ⟨c₀, hs, hr (hg c₀ hs)⟩

/-- Alice sends twice before the first reply, and her first message after it does not decrypt. -/
theorem second_flight_breaks :
    sampleLog secondFlight
      = some [([0], some [0]), ([1], some [1]), ([2], some [2]), ([3], none)] := by
  decide +kernel

end SCMessenger
