import Mathlib.Data.List.Forall2
import SCMessenger.Crypto.Lockstep
import SCMessenger.Lib.Run

/-!
# A classical conversation

Two sessions exchange messages with `encrypt` and `decrypt` alone; a delivery takes any message on its way.
The generator is assumed not to repeat itself (`FreshDraws`).
-/

namespace SCMessenger

open RatchetSession

variable {K : Type} (P : Primitives K)

/-! ## The system -/

/-- A message on its way: what `encrypt` returned, and what it was given. -/
structure Letter where
  sealed : RatchetEncryptResult
  aad : Bytes
  plaintext : Bytes

/-- Both sessions, the messages on their way, and the plaintext and result of every delivery. -/
structure Dialogue (K : Type) where
  session : Side → RatchetSession K
  flight : Side → List Letter
  log : List (Bytes × Except String Bytes)

/-- A party sends, or the `i`-th message on its way from a sender arrives. -/
inductive DialogueEvent where
  | send (side : Side) (nonce : Arr 24) (plaintext aad : Bytes)
  | deliver (sender : Side) (i : Nat) (rng : Nat → Arr 32)

namespace Dialogue

def step (d : Dialogue K) : DialogueEvent → Dialogue K
  | .send side nonce plaintext aad =>
    match (d.session side).encrypt P nonce plaintext aad with
    | (.ok result, s') =>
      { d with
        session := Function.update d.session side s'
        flight := Function.update d.flight side (d.flight side ++ [⟨result, aad, plaintext⟩]) }
    | (.error _, s') => { d with session := Function.update d.session side s' }
  | .deliver sender i rng =>
    match (d.flight sender)[i]? with
    | none => d
    | some letter =>
      let (result, s') := (d.session sender.other).decrypt P rng letter.sealed.ourDhPublic.1
        letter.sealed.messageNumber letter.sealed.nonce letter.sealed.ciphertext letter.aad
      { session := Function.update d.session sender.other s'
        flight := Function.update d.flight sender ((d.flight sender).eraseIdx i)
        log := d.log ++ [(letter.plaintext, result)] }

/-- Two sessions from matching keys: each side holds the X25519 form of the other's signing key. -/
def start (initiatorKey responderKey initiatorSecret responderSecret : Arr 32) : Dialogue K where
  session
    | .initiator => initAsSender P initiatorSecret initiatorKey
        (P.x25519Public (ed25519ToX25519Secret P responderKey))
    | .responder => initAsReceiver P responderSecret responderKey
        (P.x25519Public (ed25519ToX25519Secret P initiatorKey))
  flight _ := []
  log := []

end Dialogue

def DialogueEvent.drawn : DialogueEvent → List (Arr 32)
  | .send _ _ _ _ => []
  | .deliver _ _ rng => [P.x25519Public (rng 0)]

/-- The responder's identity key and all ratchet keys drawn in a run are different. -/
def FreshDraws (responderKey initiatorSecret responderSecret : Arr 32)
    (events : List DialogueEvent) : Prop :=
  ([P.x25519Public (ed25519ToX25519Secret P responderKey), P.x25519Public initiatorSecret,
    P.x25519Public responderSecret] ++ events.flatMap (DialogueEvent.drawn P)).Nodup

instance (responderKey initiatorSecret responderSecret : Arr 32) (events : List DialogueEvent) :
    Decidable (FreshDraws P responderKey initiatorSecret responderSecret events) :=
  inferInstanceAs (Decidable (List.Nodup _))

variable {P}

/-! ## Keys in use -/

/-- Every ratchet key that a party holds or that is on its way is in the list. -/
structure KeysSeen (seen : List (Arr 32)) (d : Dialogue K) : Prop where
  own : ∀ side, (d.session side).ourDhPublic ∈ seen
  their : ∀ side k, (d.session side).theirDhPublic = some k → k ∈ seen
  flight : ∀ side, ∀ letter ∈ d.flight side, letter.sealed.ourDhPublic ∈ seen

theorem encrypt_cases (s : RatchetSession K) (N : Arr 24) (p aad : Bytes) :
    (∃ c, s.sendingChain = some c
        ∧ s.encrypt P N p aad = (.ok ⟨P.aeadSeal (messageKey P c.chainKey) N p aad, N, c.index,
          s.ourDhPublic⟩, s.afterSend P c))
      ∨ ∃ e, s.encrypt P N p aad = (.error e, s) := by
  cases hc : s.sendingChain with
  | none => exact .inr ⟨"Sending chain not initialized", by simp only [encrypt, hc]⟩
  | some c =>
    by_cases hs : maxRatchetSteps ≤ s.dhStepCount
    · exact .inr ⟨"Ratchet session has exceeded maximum steps",
        by simp only [encrypt, hc, hs, if_true]⟩
    · exact .inl ⟨c, rfl, encrypt_chain hc (UInt32.not_le.mp hs) N p aad⟩

theorem RatchetSession.Accepted.keys {s s' : RatchetSession K} {rng : Nat → Arr 32} {d : Arr 32}
    {n : UInt32} {k : K} (h : Accepted P s rng d n k s') :
    (s'.ourDhPublic = s.ourDhPublic ∨ s'.ourDhPublic = P.x25519Public (rng 0))
      ∧ (s'.theirDhPublic = s.theirDhPublic ∨ s'.theirDhPublic = some d) := by
  cases h with
  | cached hs => exact ⟨.inl rfl, .inl rfl⟩
  | chain c hs hd hc hk => exact ⟨.inl rfl, .inl rfl⟩
  | ratchet hs hd hk => exact ⟨.inr rfl, .inr rfl⟩

namespace KeysSeen

variable {seen : List (Arr 32)} {d : Dialogue K}

theorem mono (h : KeysSeen seen d) (m : List (Arr 32)) : KeysSeen (seen ++ m) d where
  own side := List.mem_append_left _ (h.own side)
  their side k hk := List.mem_append_left _ (h.their side k hk)
  flight side l hl := List.mem_append_left _ (h.flight side l hl)

theorem update (h : KeysSeen seen d) (z y : Side) {s' : RatchetSession K} (ho : s'.ourDhPublic ∈ seen)
    (ht : ∀ k, s'.theirDhPublic = some k → k ∈ seen) {le : List Letter}
    (hl : ∀ l ∈ le, l.sealed.ourDhPublic ∈ seen) (log : List (Bytes × Except String Bytes)) :
    KeysSeen seen ⟨Function.update d.session z s', Function.update d.flight y le, log⟩ := by
  refine ⟨fun s => ?_, fun s => ?_, fun s => ?_⟩
  · rcases eq_or_ne s z with rfl | hz
    · simpa using ho
    · simpa [hz] using h.own s
  · rcases eq_or_ne s z with rfl | hz
    · simpa using ht
    · simpa [hz] using h.their s
  · rcases eq_or_ne s y with rfl | hy
    · simpa using hl
    · simpa [hy] using h.flight s

/-- Every step keeps the keys in use among those seen and the one drawn. -/
theorem step (h : KeysSeen seen d) (ev : DialogueEvent) :
    KeysSeen (seen ++ ev.drawn P) (d.step P ev) := by
  cases ev with
  | send z N p aad =>
    rcases encrypt_cases (P := P) (d.session z) N p aad with ⟨c, -, he⟩ | ⟨e, he⟩
    · simp only [Dialogue.step, he]
      refine mono (update h z z ?_ ?_ (fun l hl => ?_) _) _
      · exact h.own z
      · exact h.their z
      · rcases mem_concat.mp hl with ho | rfl
        · exact h.flight z l ho
        · exact h.own z
    · simpa only [Dialogue.step, he, Function.update_eq_self] using h.mono _
  | deliver z i rng =>
    cases hi : (d.flight z)[i]? with
    | none => simpa only [Dialogue.step, hi] using h.mono _
    | some letter =>
      have hle := h.flight z letter (List.mem_of_getElem? hi)
      simp only [Dialogue.step, hi]
      cases hde : (d.session z.other).decrypt P rng letter.sealed.ourDhPublic.1
          letter.sealed.messageNumber letter.sealed.nonce letter.sealed.ciphertext
          letter.aad with
      | mk r s' =>
      have hr : ∀ l ∈ (d.flight z).eraseIdx i, l.sealed.ourDhPublic ∈ seen :=
        fun l hl => h.flight z l (List.mem_of_mem_eraseIdx hl)
      cases r with
      | error e =>
        obtain rfl := decrypt_of_error hde
        exact (h.update z.other z (h.own _) (h.their _) hr _).mono _
      | ok q =>
        -- the receiver's keys are its old ones, the one drawn and the letter's
        obtain ⟨k, n, hd, -, -, ha⟩ := decrypt_cases hde
        obtain rfl := Subtype.ext hd
        refine (h.mono _).update z.other z ?_ (fun k hk => ?_)
          (fun l hl => List.mem_append_left _ (hr l hl)) _
        · rcases ha.keys.1 with hs | hn
          · exact hs ▸ List.mem_append_left _ (h.own _)
          · exact hn ▸ List.mem_append_right _ List.mem_cons_self
        · rcases ha.keys.2 with hs | hn
          · exact List.mem_append_left _ (h.their _ k (hs ▸ hk))
          · obtain rfl := Option.some.inj (hn.symm.trans hk)
            exact List.mem_append_left _ hle

end KeysSeen

theorem keysSeen_start (a b x y : Arr 32) :
    KeysSeen [P.x25519Public (ed25519ToX25519Secret P b), P.x25519Public x, P.x25519Public y]
      (Dialogue.start P a b x y) where
  own side := by cases side <;> simp [Dialogue.start, initAsSender, initAsReceiver, senderState,
    receiverState]
  their side k hk := by
    cases side with
    | initiator =>
      obtain rfl := Option.some.inj hk
      exact List.mem_cons_self
    | responder => cases hk
  flight side l hl := by cases hl

theorem start_receivingKeys (hd : DhCommutes P) (a b x y : Arr 32) :
    ((Dialogue.start P a b x y).session .responder).receivingKeys P
        ((Dialogue.start P a b x y).session .initiator).ourDhPublic
      = (((Dialogue.start P a b x y).session .initiator).rootKey, (rootKeyRatchetV1 P
          (deriveRootKeyV1 P P.zeroKey (P.diffieHellman (ed25519ToX25519Secret P a)
            (P.x25519Public (ed25519ToX25519Secret P b))))
          (P.diffieHellman x (P.x25519Public (ed25519ToX25519Secret P b)))).2) := by
  have hs := hd (ed25519ToX25519Secret P b) (ed25519ToX25519Secret P a)
  have hr := hd (ed25519ToX25519Secret P b) x
  simp only [Dialogue.start, initAsSender, initAsReceiver, senderState, receiverState,
    receivingKeys, firstDhSecret, rootStep, isPqHybrid, Option.getD_some, Bool.false_eq_true,
    if_false, hs, hr]

/-! ## Delivery in order -/

def DialogueEvent.InOrder : DialogueEvent → Prop
  | .send _ _ _ _ => True
  | .deliver _ i _ => i = 0

/-- A letter carries the message of a chain position. -/
structure Carried (P : Primitives K) (p : Parcel K) (l : Letter) : Prop where
  dh : l.sealed.ourDhPublic = p.dh
  number : l.sealed.messageNumber = p.chain.index
  seals : l.sealed.ciphertext
    = P.aeadSeal (messageKey P p.chain.chainKey) l.sealed.nonce l.plaintext l.aad
  secret : p.secret = none

/-- The sessions are in step with what is on its way, and every delivery gave what was sent. -/
structure DialogueInv (P : Primitives K) (d : Dialogue K) : Prop where
  inStep : ∃ parcels : Side → List (Parcel K),
    (∀ side, List.Forall₂ (Carried P) (parcels side) (d.flight side))
    ∧ ∀ side, InStep P (d.session side) (d.session side.other) (parcels side) (parcels side.other)
  delivered : ∀ entry ∈ d.log, entry.2 = .ok entry.1

namespace DialogueInv

variable {d : Dialogue K} {z : Side}

/-- **A send keeps the invariant.** -/
theorem send (h : DialogueInv P d) (N : Arr 24) (p aad : Bytes) :
    DialogueInv P (d.step P (.send z N p aad)) := by
  rcases encrypt_cases (P := P) (d.session z) N p aad with ⟨c, hc, he⟩ | ⟨e, he⟩
  · obtain ⟨pa, hca, hi⟩ := h.inStep
    have ho := z.other_ne
    have hs : Sends P (d.session z) ((d.session z).afterSend P c) c none :=
      ⟨hc, rfl, rfl, fun _ => rfl⟩
    simp only [Dialogue.step, he]
    refine ⟨⟨Function.update pa z (pa z ++ [⟨(d.session z).ourDhPublic, c, none⟩]),
      fun s => ?_, inStep_sides z ?_⟩, h.delivered⟩
    · rcases eq_or_ne s z with rfl | hz
      · simp only [Function.update_self]
        exact List.rel_append (hca s) (.cons ⟨rfl, rfl, rfl, rfl⟩ .nil)
      · simpa [hz] using hca s
    · simpa [ho] using (hi z).send hs
  · simpa only [Dialogue.step, he, Function.update_eq_self] using h

/-- The delivery of the oldest message keeps the invariant, when a key drawn for it is new. -/
theorem deliver (hd : DhCommutes P) (ha : AeadIdeal P) (h : DialogueInv P d) {rng : Nat → Arr 32}
    (hf : (d.session z).theirDhPublic ≠ some (P.x25519Public (rng 0))) :
    DialogueInv P (d.step P (.deliver z 0 rng)) := by
  cases hq : d.flight z with
  | nil => simpa only [Dialogue.step, hq, List.getElem?_nil] using h
  | cons l r =>
  obtain ⟨pa, hc, hin⟩ := h.inStep
  have hz := hc z
  rw [hq] at hz
  obtain ⟨p, ps, hl, hps, hp⟩ := List.forall₂_cons_right_iff.mp hz
  have hi := hin z
  rw [hp] at hi
  have ht : TakesOver (d.session z.other) (d.session z.other) p.secret :=
    ⟨_, _, by rw [hl.secret]; rfl⟩
  obtain ⟨y', hex, hi'⟩ := hi.receive hd ht hf
  have hde : (d.session z.other).decrypt P rng l.sealed.ourDhPublic.1
      l.sealed.messageNumber l.sealed.nonce l.sealed.ciphertext l.aad
      = (.ok l.plaintext, y') := by
    rw [hl.dh, hl.number, hl.seals]
    exact decrypt_expected ha hi.skippedKeys hex _ _ _
  have ho := z.other_ne
  simp only [Dialogue.step, hq, List.getElem?_cons_zero, hde, List.eraseIdx_cons_zero]
  refine ⟨⟨Function.update pa z ps, fun s => ?_, inStep_sides z ?_⟩, fun entry he => ?_⟩
  · rcases eq_or_ne s z with rfl | hn
    · simpa using hps
    · simpa [hn] using hc s
  · simpa [ho, ho.symm] using hi'
  · rcases mem_concat.mp he with hol | rfl
    · exact h.delivered entry hol
    · rfl

theorem start (hd : DhCommutes P) (a b x y : Arr 32) :
    DialogueInv P (Dialogue.start P a b x y) where
  inStep := by
    refine ⟨fun _ => [], fun _ => .nil, inStep_sides .initiator (.inl ⟨[], [], rfl, ?_⟩)⟩
    exact {
      suite := rfl
      skippedAhead := rfl
      skippedBehind := rfl
      ownKey := rfl
      noIdentity := rfl
      unseen := nofun
      root := ⟨_, _, start_receivingKeys hd a b x y, rfl, .nil _⟩
      oldStream := .inl rfl
      backStream := .inl ⟨rfl, rfl⟩
      sentAhead := rfl
      sentBehind := rfl
      first := by simp }
  delivered := by simp [Dialogue.start]

end DialogueInv

/-! ## The conversation as a whole -/

def sampleDialogue : List DialogueEvent :=
  [.send .initiator (Arr.fit 24 [1]) [1] [9], .deliver .initiator 0 fun _ => Arr.fit 32 [11],
    .send .responder (Arr.fit 24 [2]) [2] [9], .send .initiator (Arr.fit 24 [3]) [3] [9],
    .deliver .responder 0 fun _ => Arr.fit 32 [12], .send .initiator (Arr.fit 24 [4]) [4] [9],
    .deliver .initiator 0 fun _ => Arr.fit 32 [13], .deliver .initiator 0 fun _ => Arr.fit 32 [14]]

/-- **Two-party classical conversation**: what arrives in order decrypts to the plaintext sent. -/
theorem dialogue_delivers (hdh : DhCommutes P) (haead : AeadIdeal P)
    (initiatorKey responderKey initiatorSecret responderSecret : Arr 32) (events : List DialogueEvent)
    (horder : ∀ event ∈ events, event.InOrder)
    (hfresh : FreshDraws P responderKey initiatorSecret responderSecret events) :
    ∀ entry ∈ (events.foldl (Dialogue.step P) (Dialogue.start P initiatorKey responderKey
      initiatorSecret responderSecret)).log, entry.2 = .ok entry.1 := by
  have hg := Guarded.of_forall (Dialogue.step P) horder
    (Dialogue.start P initiatorKey responderKey initiatorSecret responderSecret)
  have hr := hg.invariant_fresh (DialogueEvent.drawn P)
    (fun seen d => KeysSeen seen d ∧ DialogueInv P d) hfresh (fun seen d event hd hi hn => ?_)
    ⟨keysSeen_start _ _ _ _, .start hdh _ _ _ _⟩
  · exact hr.2.delivered
  · refine ⟨hd.1.step event, ?_⟩
    cases event with
    | send z N p aad => exact hd.2.send N p aad
    | deliver z i rng =>
      obtain rfl : i = 0 := hi
      refine hd.2.deliver hdh haead fun he => ?_
      -- the key the sender holds was seen, the one drawn was not
      have hs := hd.1.their z _ he
      exact (List.nodup_append.mp hn).2.2 _ hs _ List.mem_cons_self rfl

/-- The sample conversation delivers what was sent. -/
theorem sampleDialogue_delivers :
    FreshDraws termPrimitives bob.signingKey (Arr.fit 32 [7]) (Arr.fit 32 [8]) sampleDialogue
      ∧ ∀ entry ∈ (sampleDialogue.foldl (Dialogue.step termPrimitives) (Dialogue.start termPrimitives
        alice.signingKey bob.signingKey (Arr.fit 32 [7]) (Arr.fit 32 [8]))).log,
        entry.2 = .ok entry.1 := by
  have hf : FreshDraws termPrimitives bob.signingKey (Arr.fit 32 [7]) (Arr.fit 32 [8])
      sampleDialogue := by decide
  refine ⟨hf, dialogue_delivers termDh.comm termAead _ _ _ _ sampleDialogue ?_ hf⟩
  intro e he
  simp only [sampleDialogue, List.mem_cons, List.not_mem_nil, or_false] at he
  rcases he with rfl | rfl | rfl | rfl | rfl | rfl | rfl | rfl <;> trivial

end SCMessenger
