import Mathlib.Data.Finset.Card
import SCMessenger.Core.Receive

/-!
# How often a message is delivered, and what it overwrites

A message whose identifier the inbox has seen is still recorded and reported.  The history has one record
for each identifier, which is the sender's choice.
-/

namespace SCMessenger

variable {K : Type} (P : Primitives K) (lib : Libraries)

/-! ## Runs of calls -/

/-- A message of a sender: the key that signed its envelope, and its identifier. -/
structure DeliveryKey where
  senderPublicKey : Bytes
  messageId : String
deriving DecidableEq, Repr

def Effect.notifies (senderPublicKey : Bytes) : Effect → Option DeliveryKey
  | .onMessageReceived _ _ messageId _ _ => some ⟨senderPublicKey, messageId⟩
  | _ => none

def notifications (data : Bytes) (step : CoreStep K Message) : List DeliveryKey :=
  match ingress P lib data with
  | .ok wire => step.effects.filterMap (Effect.notifies wire.senderPublicKey)
  | _ => []

def recordings (data : Bytes) (step : CoreStep K Message) : List DeliveryKey :=
  match ingress P lib data, step.result with
  | .ok wire, .ok message =>
    if message.messageType = .receipt then [] else [⟨wire.senderPublicKey, message.id⟩]
  | _, _ => []

/-- A node after a number of calls, with everything they reported and recorded. -/
structure DeliveryRun (K : Type) where
  core : IronCore K
  notified : List DeliveryKey
  recorded : List DeliveryKey

namespace DeliveryRun

def start (core : IronCore K) : DeliveryRun K := ⟨core, [], []⟩

def step (run : DeliveryRun K) (call : ReceiveEnv × Bytes) : DeliveryRun K :=
  let result := run.core.receiveMessage P lib call.1 call.2
  { core := result.core
    notified := run.notified ++ notifications P lib call.2 result
    recorded := run.recorded ++ recordings P lib call.2 result }

def AtMostOnce (run : DeliveryRun K) : Prop := run.notified.Nodup ∧ run.recorded.Nodup

end DeliveryRun

def Unseen (core : IronCore K) (data : Bytes) : Prop :=
  ∀ wire pk m, Authenticated P lib data wire pk → Seals P wire m → m.messageType ≠ .receipt →
    core.inbox.isDuplicate P m.id = false

def FewMessages (calls : List (ReceiveEnv × Bytes)) : Prop :=
  ∃ ids : Finset String, ids.card < maxSeenIds ∧ ∀ call ∈ calls, ∀ wire pk m,
    Authenticated P lib call.2 wire pk → Seals P wire m → m.id ∈ ids

variable {P lib}

/-! ## What one call adds -/

theorem notifications_eq {d : Bytes} {w : WireEnvelope} {pk : Arr 32}
    (ha : Authenticated P lib d w pk) (s : CoreStep K Message) :
    notifications P lib d s = s.effects.filterMap (Effect.notifies pk.1) := by
  rw [notifications, ha.ingress]
  simp only [ha.senderPublicKey]

theorem receiptEffects_notifies (c : IronCore K) (p pk : Bytes) :
    (receiptEffects lib c p).filterMap (Effect.notifies pk) = [] := by
  unfold receiptEffects
  split
  · rfl
  · rename_i r _
    obtain ⟨id, s, t⟩ := r
    cases s <;> by_cases hd : c.delegate = true <;> simp [hd, Effect.notifies]

theorem deliveryEffects_notifies (c : IronCore K) (m : Message) (pk : Bytes) :
    (deliveryEffects c m).filterMap (Effect.notifies pk)
      = if c.delegate then [⟨pk, m.id⟩] else [] := by
  unfold deliveryEffects
  split <;> rfl

theorem notifications_of_effects_nil (d : Bytes) {s : CoreStep K Message} (h : s.effects = []) :
    notifications P lib d s = [] := by
  unfold notifications
  split <;> simp [h]

theorem recordings_eq_nil (d : Bytes) {s : CoreStep K Message}
    (h : ∀ m, s.result = .ok m → m.messageType = .receipt) : recordings P lib d s = [] := by
  unfold recordings
  split
  · rename_i hm
    exact if_pos (h _ hm)
  · rfl

variable (lib) in
/-- **Everything a call can add**: nothing, or one sealed message, whether the inbox has seen it or not. -/
theorem receiveMessage_adds (hae : AeadIdeal P) (c : IronCore K) (env : ReceiveEnv)
    (d : Bytes) :
    ((c.receiveMessage P lib env d).core.inbox = c.inbox
        ∧ (c.receiveMessage P lib env d).core.historyManager = c.historyManager
        ∧ notifications P lib d (c.receiveMessage P lib env d) = []
        ∧ recordings P lib d (c.receiveMessage P lib env d) = [])
    ∨ ∃ w pk m h, Authenticated P lib d w pk ∧ Seals P w m
        ∧ m.messageType ≠ .receipt
        ∧ (c.receiveMessage P lib env d).core.inbox
          = (c.record P env pk.1 (identityIdOf P pk.1) h m).inbox
        ∧ (c.receiveMessage P lib env d).core.historyManager
          = (c.record P env pk.1 (identityIdOf P pk.1) h m).historyManager
        ∧ notifications P lib d (c.receiveMessage P lib env d)
          = (if c.delegate then [⟨pk.1, m.id⟩] else [])
        ∧ recordings P lib d (c.receiveMessage P lib env d) = [⟨pk.1, m.id⟩] := by
  by_cases hs : ∃ w pk, Authenticated P lib d w pk
  · obtain ⟨w, pk, ha⟩ := hs
    have hd := receiveMessage_delivered ha c env
    generalize c.receiveMessage P lib env d = step at hd ⊢
    cases hd with
    | refused hf => exact .inl ⟨rfl, rfl, notifications_of_effects_nil d rfl,
        recordings_eq_nil d fun m hm => absurd hm (hf m)⟩
    | receipt ho hi ht =>
      refine .inl ⟨rfl, rfl, ?_, recordings_eq_nil d fun m' hm' => ?_⟩
      · rw [notifications_eq ha]
        exact receiptEffects_notifies _ _ _
      · cases hm'
        exact ht
    | @recorded m h ho hi ht =>
      refine .inr ⟨w, pk, m, h, ha, c.opens_seals hae ho, ht, rfl, rfl, ?_, ?_⟩
      · rw [notifications_eq ha]
        exact deliveryEffects_notifies _ _ _
      · simp only [recordings, ha.ingress, ha.senderPublicKey, if_neg ht]
  · obtain ⟨hc, he, hf⟩ := receiveMessage_unsigned hs c env
    rw [hc]
    exact .inl ⟨rfl, rfl, notifications_of_effects_nil d he,
      recordings_eq_nil d fun m hm => absurd hm (hf m)⟩

/-! ## At most once -/

/-- Every message recorded so far is remembered by the inbox, and nothing else is. -/
structure DeliveryInv (P : Primitives K) (ids : Finset String) (run : DeliveryRun K) : Prop where
  distinct : (run.recorded.map DeliveryKey.messageId).Nodup
  known : ∀ d ∈ run.recorded, d.messageId ∈ ids
  seen : run.core.inbox.seenIds
    = (run.recorded.map fun d => Inbox.idHash P d.messageId).reverse
  notified : run.notified.Sublist run.recorded

namespace DeliveryInv

variable {ids : Finset String} {run : DeliveryRun K}

theorem atMostOnce (h : DeliveryInv P ids run) : run.AtMostOnce := by
  have hr : run.recorded.Nodup := h.distinct.of_map _
  exact ⟨hr.sublist h.notified, hr⟩

theorem room (h : DeliveryInv P ids run) (hi : ids.card < maxSeenIds) :
    run.core.inbox.seenIds.length < maxSeenIds := by
  have hs : (run.recorded.map DeliveryKey.messageId).toFinset ⊆ ids := by
    intro id hid
    obtain ⟨d, hd, rfl⟩ := List.mem_map.mp (List.mem_toFinset.mp hid)
    exact h.known d hd
  have hc := Finset.card_le_card hs
  rw [List.toFinset_card_of_nodup h.distinct, List.length_map] at hc
  rw [h.seen, List.length_reverse, List.length_map]
  omega

theorem unrecorded (h : DeliveryInv P ids run) {id : String}
    (hn : run.core.inbox.isDuplicate P id = false) : id ∉ run.recorded.map DeliveryKey.messageId := by
  intro hi
  obtain ⟨d, hd, rfl⟩ := List.mem_map.mp hi
  rw [Inbox.isDuplicate_eq, h.seen] at hn
  simp only [List.contains_eq_mem, decide_eq_false_iff_not, List.mem_reverse] at hn
  exact hn (List.mem_map.mpr ⟨d, hd, rfl⟩)

theorem step (hae : AeadIdeal P) (h : DeliveryInv P ids run) (his : ids.card < maxSeenIds)
    {c : ReceiveEnv × Bytes} (hu : Unseen P lib run.core c.2)
    (hk : ∀ w pk m, Authenticated P lib c.2 w pk → Seals P w m → m.id ∈ ids) :
    DeliveryInv P ids (run.step P lib c) := by
  rcases receiveMessage_adds lib hae run.core c.1 c.2 with
    ⟨hi, -, hno, hr⟩ | ⟨w, pk, m, he, ha, hs, ht, hi, -, hno, hr⟩
  · constructor
    · simpa only [DeliveryRun.step, hr, List.append_nil] using h.distinct
    · simpa only [DeliveryRun.step, hr, List.append_nil] using h.known
    · simpa only [DeliveryRun.step, hi, hr, List.append_nil] using h.seen
    · simpa only [DeliveryRun.step, hno, hr, List.append_nil] using h.notified
  · have hn := hu w pk m ha hs ht
    constructor
    · simp only [DeliveryRun.step, hr, List.map_append, List.map_cons, List.map_nil]
      rw [← List.concat_eq_append]
      exact h.distinct.concat (h.unrecorded hn)
    · intro d hd
      simp only [DeliveryRun.step, hr, List.mem_append, List.mem_singleton] at hd
      rcases hd with hd | rfl
      · exact h.known d hd
      · exact hk w pk m ha hs
    · simp only [DeliveryRun.step, hi, hr, List.map_append, List.map_cons, List.map_nil,
        List.reverse_append, List.reverse_singleton, List.singleton_append, IronCore.record, hn,
        Bool.false_eq_true, if_false]
      rw [Inbox.receive_seenIds _ hn (h.room his), h.seen]
    · simp only [DeliveryRun.step, hno, hr]
      refine h.notified.append ?_
      split
      · exact List.Sublist.refl _
      · exact List.nil_sublist _

end DeliveryInv

/-- **At most once**: in a run of calls on unseen messages none is reported or recorded twice. -/
theorem at_most_once (haead : AeadIdeal P) (core : IronCore K) (hnew : core.inbox.seenIds = [])
    (calls : List (ReceiveEnv × Bytes)) (hfew : FewMessages P lib calls)
    (hrun : Guarded (fun run call => Unseen P lib run.core call.2) (DeliveryRun.step P lib)
      (.start core) calls) :
    (calls.foldl (DeliveryRun.step P lib) (.start core)).AtMostOnce := by
  obtain ⟨ids, hi, hk⟩ := hfew
  have hgu := hrun.and (Guarded.of_forall (DeliveryRun.step P lib) hk (.start core))
  have hs : DeliveryInv P ids (.start core) := ⟨List.nodup_nil, by simp [DeliveryRun.start],
    hnew, List.Sublist.refl _⟩
  exact (hgu.invariant (DeliveryInv P ids)
    (fun run call h hg => h.step haead hi hg.1 hg.2) hs).atMostOnce

def malloryCall : ReceiveEnv × Bytes := (sampleEnv, malloryBytes malloryHex)

theorem sealedBytes_seals {sender : IdentityKeys} {message m : Message} {w : WireEnvelope} {pk : Arr 32}
    (ho : ((sampleCore bob).receiveMessage termPrimitives sampleLibraries sampleEnv
      (sealedBytes sender message)).result = .ok message)
    (ha : Authenticated termPrimitives sampleLibraries (sealedBytes sender message) w pk)
    (hm : Seals termPrimitives w m) : m = message :=
  hm.unique termAead (receiveMessage_seals termAead ho ha)

theorem malloryBytes_seals {w : WireEnvelope} {pk : Arr 32} {m : Message}
    (ha : Authenticated termPrimitives sampleLibraries (malloryBytes malloryHex) w pk)
    (hm : Seals termPrimitives w m) : m = claimedMessage malloryHex :=
  sealedBytes_seals malloryStep_honest.1 ha hm

theorem malloryCall_few (n : Nat) :
    FewMessages termPrimitives sampleLibraries (List.replicate n malloryCall) := by
  refine ⟨{"m1"}, by simp [maxSeenIds], fun call hc w pk m ha hm => ?_⟩
  rw [List.eq_of_mem_replicate hc, malloryCall] at ha
  simp only at ha
  have hi : m.id = "m1" := congrArg Message.id (malloryBytes_seals ha hm)
  exact Finset.mem_singleton.mpr hi

def textWithId (id : String) : Message := ⟨id, "", "bob", .text, ascii "hi", 0⟩

def crossedSenders : List (IdentityKeys × String) := [(alice, "m1"), (mallory, "m2"), (alice, "m3")]

def crossedCalls : List (ReceiveEnv × Bytes) :=
  crossedSenders.map fun sent => (sampleEnv, sealedBytes sent.1 (textWithId sent.2))

theorem crossedSenders_run :
    (∀ sent ∈ crossedSenders, ((sampleCore bob).receiveMessage termPrimitives sampleLibraries sampleEnv
      (sealedBytes sent.1 (textWithId sent.2))).result = .ok (textWithId sent.2))
    ∧ (crossedCalls.foldl (DeliveryRun.step termPrimitives sampleLibraries) (.start (sampleCore bob))).notified
      = crossedSenders.map (fun sent => ⟨sent.1.signingKey.1, sent.2⟩)
    ∧ Guarded (fun (run : DeliveryRun Term) sent => run.core.inbox.isDuplicate termPrimitives sent.2 = false)
      (fun run sent => run.step termPrimitives sampleLibraries (sampleEnv, sealedBytes sent.1 (textWithId sent.2)))
      (.start (sampleCore bob)) crossedSenders := by
  decide +kernel

theorem crossed_unseen (sender : IdentityKeys) (id : String) (hs : (sender, id) ∈ crossedSenders)
    (core : IronCore Term) (h : core.inbox.isDuplicate termPrimitives id = false) :
    Unseen termPrimitives sampleLibraries core (sealedBytes sender (textWithId id)) := by
  intro w pk m ha hm _
  rw [sealedBytes_seals (crossedSenders_run.1 _ hs) ha hm]
  exact h

/-- Three messages of two senders are each reported and recorded once. -/
theorem at_most_once_crossed :
    (crossedCalls.foldl (DeliveryRun.step termPrimitives sampleLibraries) (.start (sampleCore bob))).AtMostOnce
      ∧ (crossedCalls.foldl (DeliveryRun.step termPrimitives sampleLibraries) (.start (sampleCore bob))).notified
        = crossedSenders.map fun sent => ⟨sent.1.signingKey.1, sent.2⟩ := by
  obtain ⟨hopen, hnotified, hunseen⟩ := crossedSenders_run
  refine ⟨at_most_once termAead (sampleCore bob) rfl crossedCalls ?_ ?_, hnotified⟩
  · refine ⟨{"m1", "m2", "m3"}, by decide, fun call hc w pk m ha hm => ?_⟩
    obtain ⟨sent, hs, rfl⟩ := List.mem_map.mp hc
    rw [sealedBytes_seals (hopen sent hs) ha hm]
    have hid : ∀ sent ∈ crossedSenders, (textWithId sent.2).id ∈ ({"m1", "m2", "m3"} : Finset String) := by
      decide
    exact hid sent hs
  · simp only [crossedSenders, Guarded, and_true] at hunseen
    simp only [crossedCalls, crossedSenders, List.map_cons, List.map_nil, Guarded, and_true]
    exact ⟨crossed_unseen alice "m1" (by simp [crossedSenders]) _ hunseen.1,
      crossed_unseen mallory "m2" (by simp [crossedSenders]) _ hunseen.2.1,
      crossed_unseen alice "m3" (by simp [crossedSenders]) _ hunseen.2.2⟩

def replayRun : DeliveryRun Term :=
  (List.replicate 2 malloryCall).foldl (DeliveryRun.step termPrimitives sampleLibraries)
    (.start (sampleCore bob))

/-- An envelope that arrives twice is reported twice and recorded twice. -/
theorem replay_delivered_twice :
    FewMessages termPrimitives sampleLibraries (List.replicate 2 malloryCall)
      ∧ replayRun.notified = List.replicate 2 ⟨mallory.signingKey.1, "m1"⟩
      ∧ replayRun.recorded = List.replicate 2 ⟨mallory.signingKey.1, "m1"⟩
      ∧ ¬ replayRun.AtMostOnce := by
  obtain ⟨hn, hr⟩ : replayRun.notified = List.replicate 2 ⟨mallory.signingKey.1, "m1"⟩
      ∧ replayRun.recorded = List.replicate 2 ⟨mallory.signingKey.1, "m1"⟩ := by
    decide +kernel
  refine ⟨malloryCall_few 2, hn, hr, fun h => ?_⟩
  have hnd := h.1
  rw [hn] at hnd
  simp at hnd

/-! ## What a message overwrites -/

def HistoryIsolated (P : Primitives K) (pk : Arr 32) (before after : HistoryManager) : Prop :=
  ∀ id r, before.records id = some r → (¬ Denotes P pk r.peerId ∨ r.direction = .sent) →
    after.records id = some r

/-- **History isolation**: other records stay unless one of them has the identifier of the message. -/
theorem history_isolated_iff (haead : AeadIdeal P) (core : IronCore K) (env : ReceiveEnv) (data : Bytes)
    (m : Message) (hok : (core.receiveMessage P lib env data).result = .ok m) (wire : WireEnvelope)
    (pk : Arr 32) (hauth : Authenticated P lib data wire pk) :
    HistoryIsolated P pk core.historyManager (core.receiveMessage P lib env data).core.historyManager
      ↔ ∀ sealed, Seals P wire sealed → sealed.messageType = .receipt
          ∨ core.historyManager.writable = false
          ∨ ∀ r, core.historyManager.records sealed.id = some r →
            Denotes P pk r.peerId ∧ r.direction = .received := by
  have hsl := receiveMessage_seals haead hok hauth
  have hsd : ∀ {Q : Message → Prop}, (∀ sealed, Seals P wire sealed → Q sealed) ↔ Q m :=
    ⟨fun h => h m hsl, fun h sealed hs => hsl.unique haead hs ▸ h⟩
  rw [hsd]
  rcases receiveMessage_adds lib haead core env data with
    ⟨-, hh, -, hre⟩ | ⟨w', pk', m', he, ha', hs', ht, -, hh, -, -⟩
  · -- nothing was recorded, so the message is a receipt
    have ht : m.messageType = .receipt := by
      by_contra hn
      simp [recordings, hauth.ingress, hok, hn] at hre
    rw [hh]
    exact ⟨fun _ => .inl ht, fun _ id r hr _ => hr⟩
  · obtain rfl : wire = w' := Outcome.ok.inj (hauth.ingress.symm.trans ha'.ingress)
    obtain rfl : pk = pk' := Subtype.ext (hauth.senderPublicKey.symm.trans ha'.senderPublicKey)
    obtain rfl := hsl.unique haead hs'
    rw [hh]
    simp only [IronCore.record, HistoryManager.add, ht, false_or]
    cases hw : core.historyManager.writable with
    | false => exact ⟨fun _ => .inl rfl, fun _ id r hr _ => hr⟩
    | true =>
      simp only [if_true, Bool.true_eq_false, false_or]
      constructor
      · intro hi r hr
        by_contra hother
        rw [not_and_or] at hother
        have hse : ¬ Denotes P pk r.peerId ∨ r.direction = .sent := by
          refine hother.imp_right fun hdi => ?_
          cases hd : r.direction with
          | sent => rfl
          | received => exact absurd hd hdi
        have hk := hi m.id r hr hse
        simp only [Function.update_self] at hk
        obtain rfl := Option.some.inj hk
        exact hother.elim (fun hn => hn (.inr rfl)) fun hn => hn rfl
      · intro ho id r hr hse
        simp only
        by_cases hid : id = m.id
        · subst hid
          obtain ⟨hde, hdi⟩ := ho r hr
          rcases hse with hn | hse
          · exact absurd hde hn
          · rw [hdi] at hse
            cases hse
        · rw [Function.update_of_ne hid]
          exact hr

def sentRecord : MessageRecord := ⟨"m1", .sent, aliceHex, "hello", 0, 0, true, false⟩

def coreWithRecord (id : String) : IronCore Term :=
  { sampleCore bob with historyManager := ⟨fun i => if i = id then some sentRecord else none, true⟩ }

/-- Mallory's message leaves a record under another identifier alone. -/
theorem history_isolated_other :
    HistoryIsolated termPrimitives mallory.signingKey (coreWithRecord "m2").historyManager
      ((coreWithRecord "m2").receiveMessage termPrimitives sampleLibraries sampleEnv
        (malloryBytes malloryHex)).core.historyManager := by
  have ho : ((coreWithRecord "m2").receiveMessage termPrimitives sampleLibraries sampleEnv
      (malloryBytes malloryHex)).result = .ok (claimedMessage malloryHex) := by decide +kernel
  have ha := malloryBytes_authenticated
  refine (history_isolated_iff termAead _ sampleEnv _ _ ho _ _ ha).mpr fun m hm => ?_
  rw [malloryBytes_seals ha hm]
  exact .inr (.inr fun r hr => by simp [coreWithRecord, claimedMessage] at hr)

def overwritten : CoreStep Term Message :=
  (coreWithRecord "m1").receiveMessage termPrimitives sampleLibraries sampleEnv
    (malloryBytes malloryHex)

/-- Mallory's message replaces the record of what Bob wrote to Alice. -/
theorem history_overwritten :
    Authenticated termPrimitives sampleLibraries (malloryBytes malloryHex) (malloryWire malloryHex)
        mallory.signingKey
      ∧ overwritten.result = .ok (claimedMessage malloryHex)
      ∧ (coreWithRecord "m1").historyManager.records "m1" = some sentRecord
      ∧ overwritten.core.historyManager.records "m1"
        = some ⟨"m1", .received, identityIdOf termPrimitives mallory.signingKey.1, "hi", 0, 0, true,
            false⟩
      ∧ ¬ HistoryIsolated termPrimitives mallory.signingKey (coreWithRecord "m1").historyManager
          overwritten.core.historyManager := by
  obtain ⟨hr, ha⟩ : overwritten.result = .ok (claimedMessage malloryHex)
      ∧ overwritten.core.historyManager.records "m1"
        = some ⟨"m1", .received, identityIdOf termPrimitives mallory.signingKey.1, "hi", 0, 0, true,
            false⟩ := by
    decide +kernel
  refine ⟨malloryBytes_authenticated, hr, rfl, ha, fun h => ?_⟩
  have hk := h "m1" sentRecord rfl (.inr rfl)
  rw [ha] at hk
  simp [sentRecord] at hk

end SCMessenger
