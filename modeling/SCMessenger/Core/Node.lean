import SCMessenger.Core.Receive
import SCMessenger.Drift.MeshStore
import SCMessenger.Lib.Uuid

/-!
# Receipts and the messages they release

A node with its outbox and its Drift store.  `mark_message_sent` removes the message a receipt names from
both, whomever it is for.
-/

namespace SCMessenger

variable {K : Type} (P : Primitives K) (lib : Libraries)

/-! ## The node -/

/-- The core of a device, with its outbox and what it carries for others. -/
structure Node (K : Type) where
  core : IronCore K
  outbox : Outbox
  driftStore : MeshStore

structure NodeEnv where
  receive : ReceiveEnv
  outbox : OutboxEnv

def Effect.releases : Effect → Option String
  | .markMessageSent messageId => some messageId
  | _ => none

namespace Node

def markMessageSent (node : Node K) (env : OutboxEnv) (messageId : String) : Bool × Node K :=
  let (outboxRemoved, outbox) := node.outbox.remove env messageId
  match Uuid.parseStr messageId with
  | some parsedId =>
    let (driftRemoved, driftStore) := node.driftStore.remove parsedId
    (outboxRemoved || driftRemoved, { node with outbox := outbox, driftStore := driftStore })
  | none => (outboxRemoved, { node with outbox := outbox })

def release (node : Node K) (env : OutboxEnv) : Option String → Node K
  | none => node
  | some messageId => (node.markMessageSent env messageId).2

def receiveMessage (node : Node K) (env : NodeEnv) (envelopeData : Bytes) :
    CoreStep K Message × Node K :=
  let step := node.core.receiveMessage P lib env.receive envelopeData
  (step, (step.effects.filterMap Effect.releases).foldl
    (fun node messageId => (node.markMessageSent env.outbox messageId).2)
    { node with core := step.core })

end Node

def Receipt.confirms (receipt : Receipt) : Bool :=
  match receipt.status with
  | .delivered | .read => true
  | _ => false

def releasedBy (payload : Bytes) : Option String :=
  (lib.decodeReceipt payload).bind fun receipt =>
    if receipt.confirms then some receipt.messageId else none

variable {P lib}

/-! ## What a call does to the stores -/

variable (core : IronCore K)

theorem receiptEffects_releases (p : Bytes) :
    (receiptEffects lib core p).filterMap Effect.releases = (releasedBy lib p).toList := by
  unfold receiptEffects releasedBy
  cases lib.decodeReceipt p with
  | none => rfl
  | some r =>
    obtain ⟨id, s, t⟩ := r
    by_cases hd : core.delegate = true
    · simp only [if_pos hd]
      cases s <;> rfl
    · simp only [if_neg hd]
      cases s <;> rfl

theorem deliveryEffects_releases (m : Message) :
    (deliveryEffects core m).filterMap Effect.releases = [] := by
  unfold deliveryEffects
  split <;> rfl

namespace Node

variable {node : Node K} {env : OutboxEnv} {id : String}

theorem markMessageSent_outbox :
    (node.markMessageSent env id).2.outbox = (node.outbox.remove env id).2 := by
  unfold markMessageSent
  cases Uuid.parseStr id <;> rfl

theorem markMessageSent_get (u : Arr 16) :
    (node.markMessageSent env id).2.driftStore.get u
      = if Uuid.parseStr id = some u then none else node.driftStore.get u := by
  unfold markMessageSent
  cases hp : Uuid.parseStr id with
  | none => simp
  | some p =>
    by_cases he : p = u
    · subst he
      simp
    · rw [if_neg (by simpa using he)]
      exact MeshStore.get_remove_of_ne _ (Ne.symm he)

theorem markMessageSent_withCore (core : IronCore K) :
    (({ node with core := core } : Node K).markMessageSent env id).2
      = { (node.markMessageSent env id).2 with core := core } := by
  unfold markMessageSent
  cases Uuid.parseStr id <;> rfl

theorem foldl_receiptEffects (core : IronCore K) (p : Bytes) :
    ((receiptEffects lib core p).filterMap Effect.releases).foldl
        (fun node m => (node.markMessageSent env m).2) { node with core := core }
      = { node.release env (releasedBy lib p) with core := core } := by
  rw [receiptEffects_releases]
  cases releasedBy lib p with
  | none => rfl
  | some id => exact markMessageSent_withCore core

end Node

/-! ## Receipts -/

/-- A queued message is for a key: its recipient is the key in hexadecimal, or its identity id. -/
def AddressedTo (P : Primitives K) (pk : Arr 32) (q : QueuedMessage) : Prop :=
  hexDecode q.recipientId = .ok pk.1 ∨ q.recipientId = identityIdOf P pk.1

/-- Nothing is removed from the outbox or the Drift store but messages for the holder of a key. -/
structure ReceiptConfined (P : Primitives K) (pk : Arr 32) (before after : Node K) : Prop where
  outbox : ∀ q, ¬ AddressedTo P pk q →
    after.outbox.messages.count q = before.outbox.messages.count q
  drift : ∀ id e, before.driftStore.get id = some e →
    e.recipientHint ≠ DriftEnvelope.hintFromPublicKey P pk → after.driftStore.get id = some e

/-- What an identifier stands for in the outbox and in the Drift store is for the holder of a key. -/
def NamesOwn (P : Primitives K) (pk : Arr 32) (node : Node K) (env : OutboxEnv) (id : String) : Prop :=
  (∀ q, node.outbox.removed env id = some q → AddressedTo P pk q)
    ∧ ∀ uuid e, Uuid.parseStr id = some uuid → node.driftStore.get uuid = some e →
      e.recipientHint = DriftEnvelope.hintFromPublicKey P pk

theorem markMessageSent_confined_iff {pk : Arr 32} {node : Node K} {env : OutboxEnv} {id : String} :
    ReceiptConfined P pk node (node.markMessageSent env id).2 ↔ NamesOwn P pk node env id := by
  constructor
  · intro h
    refine ⟨fun q hq => ?_, fun u e hp hg => ?_⟩
    · by_contra ho
      obtain ⟨l₁, l₂, hb, ha⟩ := Outbox.remove_of_removed_some hq
      have hc := h.outbox q ho
      rw [Node.markMessageSent_outbox, hb, ha, List.count_append, List.count_append,
        List.count_cons_self] at hc
      omega
    · by_contra ho
      have hk := h.drift u e hg ho
      rw [Node.markMessageSent_get, if_pos hp] at hk
      cases hk
  · rintro ⟨hou, hd⟩
    refine ⟨fun q ho => ?_, fun u e hg ho => ?_⟩
    · rw [Node.markMessageSent_outbox]
      cases hr : node.outbox.removed env id with
      | none => rw [Outbox.remove_of_removed_none hr]
      | some q' =>
        obtain ⟨l₁, l₂, hb, ha⟩ := Outbox.remove_of_removed_some hr
        have hn : q' ≠ q := by
          rintro rfl
          exact ho (hou q' hr)
        rw [hb, ha, List.count_append, List.count_append, List.count_cons_of_ne hn]
    · rw [Node.markMessageSent_get, if_neg ?_]
      · exact hg
      · intro hp
        exact ho (hd u e hp hg)

theorem receiptConfined_withCore {pk : Arr 32} {b a : Node K} :
    ReceiptConfined P pk b { a with core := core } ↔ ReceiptConfined P pk b a :=
  ⟨fun h => ⟨h.outbox, h.drift⟩, fun h => ⟨h.outbox, h.drift⟩⟩

theorem ReceiptConfined.refl (pk : Arr 32) (node : Node K) : ReceiptConfined P pk node node :=
  ⟨fun _ _ => rfl, fun _ _ h _ => h⟩

/-- **Receipts act only on their sender's messages** exactly when the message they name is one. -/
theorem receipt_confined_iff (node : Node K) (env : NodeEnv) (data : Bytes) (wire : WireEnvelope)
    (pk : Arr 32) (hauth : Authenticated P lib data wire pk) :
    ReceiptConfined P pk node (node.receiveMessage P lib env data).2
      ↔ ∀ m, node.core.opens P env.receive wire = some m → node.core.admits P pk.1 = true →
          m.messageType = .receipt →
          ∀ id, releasedBy lib m.payload = some id → NamesOwn P pk node env.outbox id := by
  have hd := receiveMessage_delivered hauth node.core env.receive
  simp only [Node.receiveMessage]
  generalize node.core.receiveMessage P lib env.receive data = step at hd ⊢
  cases hd with
  | refused hfail hr =>
    rw [List.filterMap_nil, List.foldl_nil, receiptConfined_withCore]
    refine ⟨fun _ m hm ha => ?_, fun _ => ReceiptConfined.refl pk node⟩
    cases (hr m hm).symm.trans ha
  | @receipt m ho ha ht =>
    have ha' : node.core.admits P pk.1 = true := ha
    simp only [Node.foldl_receiptEffects, receiptConfined_withCore, ho, ha', Option.some.injEq,
      forall_eq', ht, forall_const]
    cases releasedBy lib m.payload with
    | none => exact ⟨by simp, fun _ => ReceiptConfined.refl pk node⟩
    | some id =>
      simp only [Option.some.injEq, forall_eq']
      exact markMessageSent_confined_iff
  | recorded ho ha ht =>
    rw [deliveryEffects_releases, List.foldl_nil, receiptConfined_withCore]
    simp only [ho, Option.some.injEq, forall_eq', ht, false_implies, implies_true, iff_true]
    exact ReceiptConfined.refl pk node

def malloryReceipt : Message := ⟨"r1", malloryHex, "bob", .receipt, ascii "ok", 0⟩

def receiptLibraries : Libraries :=
  { sampleLibraries with decodeReceipt := fun _ => some ⟨"m9", .delivered, 0⟩ }

def sampleNodeEnv : NodeEnv := ⟨sampleEnv, sampleOutboxEnv⟩

def nodeWithQueued (core : IronCore Term) (recipientId : String) : Node Term :=
  ⟨core, ((Outbox.new.enqueue sampleOutboxEnv (queuedFor recipientId "m9"))).2, .new⟩

def receiptStep (core : IronCore Term) (recipientId : String) : CoreStep Term Message × Node Term :=
  (nodeWithQueued core recipientId).receiveMessage termPrimitives receiptLibraries sampleNodeEnv
    (sealedBytes mallory malloryReceipt)

theorem malloryReceipt_authenticated : ∃ w, Authenticated termPrimitives receiptLibraries
    (sealedBytes mallory malloryReceipt) w mallory.signingKey := by
  have hi : (ingress termPrimitives receiptLibraries (sealedBytes mallory malloryReceipt)).map
      (·.senderPublicKey) = .ok mallory.signingKey.1 := by decide +kernel
  cases h : ingress termPrimitives receiptLibraries (sealedBytes mallory malloryReceipt) with
  | panicked => rw [h] at hi; cases hi
  | err e => rw [h] at hi; cases hi
  | ok w =>
    rw [h] at hi
    exact ⟨w, Authenticated.of_senderPublicKey h (Outcome.ok.inj hi)⟩

/-- Mallory's receipt for a message to Mallory is confined. -/
theorem receipt_confined_own :
    ReceiptConfined termPrimitives mallory.signingKey (nodeWithQueued (sampleCore bob) malloryHex)
      (receiptStep (sampleCore bob) malloryHex).2 := by
  obtain ⟨w, ha⟩ := malloryReceipt_authenticated
  unfold receiptStep
  refine (receipt_confined_iff _ sampleNodeEnv _ w _ ha).mpr fun m _ _ _ id hi => ?_
  obtain rfl : "m9" = id := Option.some.inj hi
  refine ⟨fun q hq => .inl ?_, fun u e hp => ?_⟩
  · have hf : (nodeWithQueued (sampleCore bob) malloryHex).outbox.removed sampleOutboxEnv "m9"
        = some (queuedFor malloryHex "m9") := by decide +kernel
    obtain rfl := Option.some.inj (hf.symm.trans hq)
    exact hexDecode_hexEncode _
  · have hn : Uuid.parseStr "m9" = none := by decide
    rw [hn] at hp
    cases hp

/-- Mallory's receipt removes a message that is queued for Alice. -/
theorem receipt_removes_foreign :
    (receiptStep (sampleCore bob) aliceHex).1.result = .ok malloryReceipt
      ∧ (nodeWithQueued (sampleCore bob) aliceHex).outbox.messages = [queuedFor aliceHex "m9"]
      ∧ (receiptStep (sampleCore bob) aliceHex).2.outbox.messages = []
      ∧ (∃ wire, Authenticated termPrimitives receiptLibraries (sealedBytes mallory malloryReceipt) wire
          mallory.signingKey)
      ∧ ¬ AddressedTo termPrimitives mallory.signingKey (queuedFor aliceHex "m9")
      ∧ ¬ ReceiptConfined termPrimitives mallory.signingKey
          (nodeWithQueued (sampleCore bob) aliceHex) (receiptStep (sampleCore bob) aliceHex).2 := by
  obtain ⟨hr, hb, ha⟩ : (receiptStep (sampleCore bob) aliceHex).1.result = .ok malloryReceipt
      ∧ (nodeWithQueued (sampleCore bob) aliceHex).outbox.messages = [queuedFor aliceHex "m9"]
      ∧ (receiptStep (sampleCore bob) aliceHex).2.outbox.messages = [] := by
    decide +kernel
  have hf : ¬ AddressedTo termPrimitives mallory.signingKey (queuedFor aliceHex "m9") := by
    unfold AddressedTo
    decide +kernel
  refine ⟨hr, hb, ha, malloryReceipt_authenticated, hf, fun h => ?_⟩
  have hc := h.outbox _ hf
  rw [hb, ha] at hc
  simp at hc

end SCMessenger
