import SCMessenger.Core.Node

/-!
# What a blocked sender can do

A sender who is blocked and deleted is refused.  For one who is only blocked, `receive_message` sets the
`hidden` flag of the history record and goes on as for any other.
-/

namespace SCMessenger

variable {K : Type} {P : Primitives K} {lib : Libraries}

/-! ## Silence -/

def Effect.heard : Effect → Bool
  | .onMessageReceived _ _ _ _ _ => true
  | .onReceiptReceived _ _ => true
  | _ => false

/-- Nothing comes of a call but hidden records in the history. -/
structure Silent (before after : Node K) (effects : List Effect) : Prop where
  quiet : ∀ e ∈ effects, e.heard = false
  outbox : after.outbox.messages = before.outbox.messages
  drift : ∀ id, after.driftStore.get id = before.driftStore.get id
  inbox : ∀ r, after.core.inbox.Holds r → before.core.inbox.Holds r
  history : ∀ id r, after.core.historyManager.records id = some r →
    before.core.historyManager.records id = some r ∨ r.hidden = true

def receivedMessage (P : Primitives K) (env : ReceiveEnv) (pk : Bytes) (m : Message) :
    ReceivedMessage where
  version := 1
  messageId := m.id
  senderId := identityIdOf P pk
  payload := m.payload
  receivedAt := env.now
  senderPublicKeyHex := some (hexEncode pk)

def NamesNothing (node : Node K) (env : OutboxEnv) (id : String) : Prop :=
  node.outbox.removed env id = none
    ∧ ∀ uuid, Uuid.parseStr id = some uuid → node.driftStore.get uuid = none

/-- A message without effect: an unread or idle receipt, or another that is in the inbox and unreported. -/
def Inert (P : Primitives K) (lib : Libraries) (node : Node K) (env : NodeEnv) (pk : Bytes)
    (m : Message) : Prop :=
  if m.messageType = .receipt then
    ∀ receipt, lib.decodeReceipt m.payload = some receipt → node.core.delegate = false
      ∧ (receipt.confirms = true → NamesNothing node env.outbox receipt.messageId)
  else
    node.core.delegate = false ∧ (node.core.inbox.isDuplicate P m.id = true
      ∨ node.core.inbox.Holds (receivedMessage P env.receive pk m))

/-! ## What each branch leaves -/

theorem receiptEffects_quiet_iff (c : IronCore K) (p : Bytes) :
    (∀ e ∈ receiptEffects lib c p, e.heard = false)
      ↔ ∀ r, lib.decodeReceipt p = some r → c.delegate = false := by
  unfold receiptEffects
  cases lib.decodeReceipt p with
  | none => simp
  | some r =>
    obtain ⟨id, s, t⟩ := r
    by_cases hd : c.delegate = true
    · simp [hd, Effect.heard]
    · cases s <;> simp [hd, Effect.heard]

theorem deliveryEffects_quiet_iff (c : IronCore K) (m : Message) :
    (∀ e ∈ deliveryEffects c m, e.heard = false) ↔ c.delegate = false := by
  unfold deliveryEffects
  by_cases hd : c.delegate = true
  · simp [hd, Effect.heard]
  · simp [hd]

theorem record_inbox_iff {c : IronCore K} {env : ReceiveEnv} {pk : Bytes} {m : Message} (hi : Bool) :
    (∀ r, (c.record P env pk (identityIdOf P pk) hi m).inbox.Holds r → c.inbox.Holds r)
      ↔ c.inbox.isDuplicate P m.id = true ∨ c.inbox.Holds (receivedMessage P env pk m) := by
  show (∀ r, (if c.inbox.isDuplicate P m.id then c.inbox
      else (c.inbox.receive P env.iterate (receivedMessage P env pk m)).2).Holds r → _) ↔ _
  cases hd : c.inbox.isDuplicate P m.id with
  | true => simp
  | false =>
    simp only [Bool.false_eq_true, if_false, false_or]
    constructor
    · intro h
      exact h _ (Inbox.receive_holds_self env.iterate hd)
    · intro h r hr
      rcases Inbox.receive_holds hr with ho | rfl
      · exact ho
      · exact h

theorem markMessageSent_idle_iff {n : Node K} {env : OutboxEnv} {id : String} :
    ((n.markMessageSent env id).2.outbox.messages = n.outbox.messages
        ∧ ∀ u, (n.markMessageSent env id).2.driftStore.get u = n.driftStore.get u)
      ↔ NamesNothing n env id := by
  simp only [Node.markMessageSent_outbox, Node.markMessageSent_get]
  constructor
  · rintro ⟨ho, hd⟩
    refine ⟨?_, fun u hp => ?_⟩
    · by_contra hsome
      obtain ⟨q, hq⟩ := Option.ne_none_iff_exists'.mp hsome
      obtain ⟨l₁, l₂, hb, ha⟩ := Outbox.remove_of_removed_some hq
      rw [hb, ha] at ho
      have hl := congrArg List.length ho
      simp at hl
    · have hg := hd u
      rw [if_pos hp] at hg
      exact hg.symm
  · rintro ⟨hn, hd⟩
    refine ⟨by rw [Outbox.remove_of_removed_none hn], fun u => ?_⟩
    split
    · rename_i hp
      exact (hd u hp).symm
    · rfl

theorem receipt_silent_iff {n : Node K} {env : OutboxEnv} {p : Bytes}
    {s : Option (RatchetSessionManager K)} :
    Silent n
        { n.release env (releasedBy lib p) with core := n.core.withSessions s }
        (receiptEffects lib n.core p)
      ↔ ∀ r, lib.decodeReceipt p = some r → n.core.delegate = false
          ∧ (r.confirms = true → NamesNothing n env r.messageId) := by
  constructor
  · intro h r hr
    refine ⟨(receiptEffects_quiet_iff n.core p).mp h.quiet r hr, ?_⟩
    intro hc
    have hre : releasedBy lib p = some r.messageId := by
      simp [releasedBy, hr, hc]
    have ho := h.outbox
    have hd := h.drift
    rw [hre] at ho hd
    exact markMessageSent_idle_iff.mp ⟨ho, hd⟩
  · intro h
    have hk : (n.release env (releasedBy lib p)).outbox.messages = n.outbox.messages
        ∧ ∀ id, (n.release env (releasedBy lib p)).driftStore.get id
          = n.driftStore.get id := by
      cases hre : releasedBy lib p with
      | none => exact ⟨rfl, fun _ => rfl⟩
      | some id =>
        simp only [releasedBy, Option.bind_eq_some_iff, Option.ite_none_right_eq_some,
          Option.some.injEq] at hre
        obtain ⟨r, hr, hc, rfl⟩ := hre
        exact markMessageSent_idle_iff.mpr ((h r hr).2 hc)
    exact ⟨(receiptEffects_quiet_iff n.core p).mpr fun r hr =>
      (h r hr).1, hk.1, hk.2, fun _ h => h, fun _ _ h => .inl h⟩

theorem record_history_hidden {c : IronCore K} {env : ReceiveEnv} {pk : Bytes} {p : String}
    {m : Message} {id : String} {r : MessageRecord}
    (hr : (c.record P env pk p true m).historyManager.records id = some r) :
    c.historyManager.records id = some r ∨ r.hidden = true := by
  simp only [IronCore.record, HistoryManager.add] at hr
  split at hr
  · simp only [Function.update_apply] at hr
    split at hr
    · obtain rfl := Option.some.inj hr
      exact .inr rfl
    · exact .inl hr
  · exact .inl hr

/-! ## Blocked senders -/

/-- **A blocked sender is silent** exactly when the message would have made no difference in any case. -/
theorem blocked_silent_iff (node : Node K) (env : NodeEnv) (data : Bytes) (wire : WireEnvelope)
    (pk : Arr 32) (hauth : Authenticated P lib data wire pk) (hblocked : BlockedSender P node.core pk.1) :
    Silent node (node.receiveMessage P lib env data).2 (node.receiveMessage P lib env data).1.effects
      ↔ ∀ m, node.core.opens P env.receive wire = some m → node.core.admits P pk.1 = true →
          Inert P lib node env pk.1 m := by
  have hd := receiveMessage_delivered hauth node.core env.receive
  simp only [Node.receiveMessage]
  generalize node.core.receiveMessage P lib env.receive data = step at hd ⊢
  cases hd with
  | refused hfail hr =>
    constructor
    · intro _ m hm ha
      cases (hr m hm).symm.trans ha
    · intro _
      exact ⟨by simp, rfl, fun _ => rfl, fun _ h => h, fun _ _ h => .inl h⟩
  | receipt ho ha htype =>
    have ha' : node.core.admits P pk.1 = true := ha
    simp only [Node.foldl_receiptEffects, ho, ha', Option.some.injEq, forall_eq', forall_const,
      Inert, if_pos htype]
    exact receipt_silent_iff
  | @recorded m hn ho ha htype hh =>
    obtain rfl := hh hblocked
    have ha' : node.core.admits P pk.1 = true := ha
    rw [deliveryEffects_releases, List.foldl_nil]
    simp only [ho, ha', Option.some.injEq, forall_eq', forall_const, Inert, if_neg htype]
    constructor
    · intro h
      exact ⟨(deliveryEffects_quiet_iff node.core m).mp h.quiet, (record_inbox_iff true).mp h.inbox⟩
    · rintro ⟨hdl, hi⟩
      exact ⟨(deliveryEffects_quiet_iff node.core m).mpr hdl, rfl, fun _ => rfl,
        (record_inbox_iff true).mpr hi, fun _ _ => record_history_hidden⟩

def blockingCore (delegate : Bool) : IronCore Term :=
  { sampleCore bob with
    blockedManager := ⟨fun _ => .ok false,
      fun key _ => .ok (decide (key = publicKeyPrefix ++ malloryHex))⟩
    delegate := delegate }

theorem blockingCore_blocked (d : Bool) :
    BlockedSender termPrimitives (blockingCore d) mallory.signingKey.1 := by
  intro de _
  simp [blockingCore, malloryHex]

/-- A blocked sender's receipt for a missing message is silent without a delegate. -/
theorem blocked_silent_receipt :
    Silent (⟨blockingCore false, .new, .new⟩ : Node Term)
      ((⟨blockingCore false, .new, .new⟩ : Node Term).receiveMessage termPrimitives receiptLibraries
        sampleNodeEnv (sealedBytes mallory malloryReceipt)).2
      ((⟨blockingCore false, .new, .new⟩ : Node Term).receiveMessage termPrimitives receiptLibraries
        sampleNodeEnv (sealedBytes mallory malloryReceipt)).1.effects := by
  obtain ⟨w, ha⟩ := malloryReceipt_authenticated
  refine (blocked_silent_iff _ sampleNodeEnv _ w _ ha (blockingCore_blocked false)).mpr
    fun m hm _ => ?_
  -- the envelope opens to Mallory's receipt
  have ho : (ingress termPrimitives receiptLibraries (sealedBytes mallory malloryReceipt)).map
      ((blockingCore false).opens termPrimitives sampleEnv) = .ok (some malloryReceipt) := by
    decide +kernel
  rw [ha.ingress] at ho
  obtain rfl : malloryReceipt = m := Option.some.inj ((Outcome.ok.inj ho).symm.trans hm)
  rw [Inert, if_pos (show malloryReceipt.messageType = .receipt from rfl)]
  intro receipt hr
  obtain rfl := Option.some.inj hr
  refine ⟨rfl, fun _ => ⟨by decide +kernel, fun u hp => ?_⟩⟩
  have hn : Uuid.parseStr "m9" = none := by decide
  rw [hn] at hp
  cases hp

def blockedText : CoreStep Term Message × Node Term :=
  (nodeWithQueued (blockingCore true) aliceHex).receiveMessage termPrimitives sampleLibraries
    sampleNodeEnv (malloryBytes malloryHex)

/-- A blocked sender's text is reported, and its receipt removes a message queued for Alice. -/
theorem blocked_sender_heard :
    BlockedSender termPrimitives (blockingCore true) mallory.signingKey.1
      ∧ Authenticated termPrimitives sampleLibraries (malloryBytes malloryHex)
          (malloryWire malloryHex) mallory.signingKey
      ∧ blockedText.1.effects
        = [.onMessageReceived malloryHex malloryHex "m1" 0 (ascii "hi")]
      ∧ ¬ Silent (nodeWithQueued (blockingCore true) aliceHex) blockedText.2 blockedText.1.effects
      ∧ (∃ wire, Authenticated termPrimitives receiptLibraries (sealedBytes mallory malloryReceipt) wire
          mallory.signingKey)
      ∧ (receiptStep (blockingCore true) aliceHex).1.effects
        = [.onReceiptReceived "m9" "Delivered", .markMessageSent "m9"]
      ∧ (receiptStep (blockingCore true) aliceHex).2.outbox.messages = []
      ∧ ¬ Silent (nodeWithQueued (blockingCore true) aliceHex)
          (receiptStep (blockingCore true) aliceHex).2
          (receiptStep (blockingCore true) aliceHex).1.effects := by
  have ht : blockedText.1.effects
      = [.onMessageReceived malloryHex malloryHex "m1" 0 (ascii "hi")] := by decide +kernel
  obtain ⟨hr, he⟩ : (receiptStep (blockingCore true) aliceHex).1.effects
        = [.onReceiptReceived "m9" "Delivered", .markMessageSent "m9"]
      ∧ (receiptStep (blockingCore true) aliceHex).2.outbox.messages = [] := by
    decide +kernel
  refine ⟨blockingCore_blocked true, malloryBytes_authenticated, ht, fun h => ?_,
    malloryReceipt_authenticated, hr, he, fun h => ?_⟩
  · have hq := h.quiet
    rw [ht] at hq
    simp [Effect.heard] at hq
  · have hq := h.quiet
    rw [hr] at hq
    simp [Effect.heard] at hq

end SCMessenger
