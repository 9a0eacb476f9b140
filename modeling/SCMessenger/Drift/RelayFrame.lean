import SCMessenger.Drift.Eviction
import SCMessenger.Drift.RelayEngine

/-!
# What the relay engine changes

A call stores and counts an envelope, looks at the hour and drops it, or changes nothing (`Processed`).
-/

namespace SCMessenger

inductive RelayError where
  | networkDormant
  | serializationFailed (reason : String)
  | invalidEnvelope (reason : String)
deriving DecidableEq, Repr

namespace RelayEngine

/-- Prepare an envelope for sending.  `debug` is how an error is printed. -/
def prepareOutgoing (lz4 : Lz4) (debug : DriftError → String) (engine : RelayEngine) (e : DriftEnvelope) :
    Except RelayError Bytes :=
  if engine.state = .dormant then .error .networkDormant
  else (e.toBytes lz4).mapError fun error => .serializationFailed ("Failed to serialize envelope: " ++ debug error)

def relayed (engine : RelayEngine) (clock : RelayClock) (data : Bytes) (e : DriftEnvelope) : RelayEngine :=
  { engine.counting clock.nowMillis e with
    store := (engine.store.put (e.stored data clock.receivedAt)).evictIfOverBudget clock.scores
    relayCountThisHour :=
      if e.isCoverTraffic then (engine.counting clock.nowMillis e).relayCountThisHour
      else (engine.counting clock.nowMillis e).relayCountThisHour + 1 }

/-- What a call does: the result, and the engine afterwards. -/
inductive Processed (lz4 : Lz4) (engine : RelayEngine) (clock : RelayClock) (spammer : Bool) (data : Bytes) :
    Outcome DriftError RelayDecision → RelayEngine → Prop
  | relayed {e : DriftEnvelope} (parse : DriftEnvelope.fromBytes lz4 data = .ok e)
      (passes : engine.Passes clock.now spammer e)
      (rate : (engine.counting clock.nowMillis e).overRate e = false) :
      Processed lz4 engine clock spammer data (.ok (.storeAndRelay e.messageId)) (engine.relayed clock data e)
  | limited {e : DriftEnvelope} (parse : DriftEnvelope.fromBytes lz4 data = .ok e)
      (passes : engine.Passes clock.now spammer e)
      (rate : (engine.counting clock.nowMillis e).overRate e = true) :
      Processed lz4 engine clock spammer data (.ok (.dropped e.messageId .rateLimited))
        (engine.counting clock.nowMillis e)
  | unchanged {result : Outcome DriftError RelayDecision}
      (none : ∀ e, DriftEnvelope.fromBytes lz4 data = .ok e → ¬ engine.Passes clock.now spammer e)
      (kept : ∀ id, result ≠ .ok (.storeAndRelay id)) :
      Processed lz4 engine clock spammer data result engine

variable {lz4 : Lz4} {engine : RelayEngine} {clock : RelayClock} {data : Bytes} {sender : Option String}
  {spammer : String → Bool} {e : DriftEnvelope}

theorem storeAndRelay_of_overRate (hr : (engine.counting clock.nowMillis e).overRate e = true) :
    engine.storeAndRelay clock data e
      = (.dropped e.messageId .rateLimited, engine.counting clock.nowMillis e) := by
  rw [storeAndRelay, if_pos hr]

theorem storeAndRelay_of_room (hn : engine.store.contains e.messageId = false)
    (hr : (engine.counting clock.nowMillis e).overRate e = false) :
    engine.storeAndRelay clock data e = (.storeAndRelay e.messageId, engine.relayed clock data e) := by
  have hs : (engine.counting clock.nowMillis e).store = engine.store := counting_store _ _
  rw [storeAndRelay, hr, if_neg Bool.false_ne_true, keep_of_new (by rwa [hs]), hs]
  rfl

/-- **Every call does one of three things.** -/
theorem processed (lz4 : Lz4) (spammer : String → Bool) (engine : RelayEngine) (clock : RelayClock)
    (data : Bytes) (sender : Option String) :
    Processed lz4 engine clock (sender.any spammer) data
      (engine.processIncomingFrom lz4 spammer clock data sender).1
      (engine.processIncomingFrom lz4 spammer clock data sender).2 := by
  unfold processIncomingFrom
  cases hpa : DriftEnvelope.fromBytes lz4 data with
  | err x => exact .unchanged (fun e he => by rw [hpa] at he; cases he) (by simp)
  | panicked => exact .unchanged (fun e he => by rw [hpa] at he; cases he) (by simp)
  | ok e =>
    cases hr : engine.route clock.now (sender.any spammer) e with
    | some d =>
      simp only [hr]
      refine .unchanged ?_ ?_
      · intro e' he' hp
        rw [hpa] at he'
        cases he'
        rw [route_eq_none_iff.mpr hp] at hr
        cases hr
      · intro id heq
        cases heq
        exact route_ne_storeAndRelay hr
    | none =>
      have hp := route_eq_none_iff.mp hr
      simp only [hr]
      by_cases hra : (engine.counting clock.nowMillis e).overRate e = true
      · rw [storeAndRelay_of_overRate hra]
        exact .limited hpa hp hra
      · rw [storeAndRelay_of_room hp.new (Bool.eq_false_iff.mpr hra)]
        exact .relayed hpa hp (Bool.eq_false_iff.mpr hra)

theorem overRate_eq_false_iff :
    engine.overRate e = false ↔ e.isCoverTraffic = true ∨ engine.config.maxRelayPerHour = 0
      ∨ engine.relayCountThisHour < engine.config.maxRelayPerHour := by
  simp only [overRate, Bool.and_eq_false_iff, Bool.not_eq_false', decide_eq_false_iff_not, UInt32.not_lt,
    UInt32.not_le, UInt32.le_zero_iff, or_assoc]

theorem counting_frame (engine : RelayEngine) (now : UInt64) (e : DriftEnvelope) :
    (engine.counting now e).config = engine.config ∧ (engine.counting now e).state = engine.state
      ∧ (engine.counting now e).localHint = engine.localHint := by
  unfold counting checkRateLimit
  repeat' split
  all_goals exact ⟨rfl, rfl, rfl⟩

/-- **The frame of a call**: the store changes only for an envelope that may be passed on. -/
theorem relay_frame (lz4 : Lz4) (spammer : String → Bool) (debug : DriftError → String)
    (engine : RelayEngine) (clock : RelayClock) (data : Bytes) (sender : Option String) :
    ((engine.processIncomingFrom lz4 spammer clock data sender).2.store ≠ engine.store →
        ∃ id, (engine.processIncomingFrom lz4 spammer clock data sender).1 = .ok (.storeAndRelay id))
      ∧ (∀ id, (engine.processIncomingFrom lz4 spammer clock data sender).1 = .ok (.storeAndRelay id) →
        ∃ e, DriftEnvelope.fromBytes lz4 data = .ok e ∧ e.messageId = id
          ∧ engine.Passes clock.now (sender.any spammer) e
          ∧ (e.isCoverTraffic = true ∨ engine.config.maxRelayPerHour = 0
            ∨ (engine.counting clock.nowMillis e).relayCountThisHour < engine.config.maxRelayPerHour))
      ∧ (engine.state = .dormant → (engine.processIncomingFrom lz4 spammer clock data sender).2 = engine
        ∧ ∀ e, engine.prepareOutgoing lz4 debug e = .error .networkDormant) := by
  have hc := processed lz4 spammer engine clock data sender
  generalize (engine.processIncomingFrom lz4 spammer clock data sender).1 = re at hc
  generalize (engine.processIncomingFrom lz4 spammer clock data sender).2 = after at hc
  refine ⟨?_, ?_, ?_⟩
  · intro hs
    cases hc with
    | relayed parse p r => exact ⟨_, rfl⟩
    | limited parse p r => exact absurd (counting_store _ _) hs
    | unchanged none k => exact absurd rfl hs
  · intro id hi
    cases hc with
    | @relayed e parse p r =>
      cases hi
      have hb := overRate_eq_false_iff.mp r
      rw [(counting_frame _ _ _).1] at hb
      exact ⟨e, parse, rfl, p, hb⟩
    | limited parse p r => cases hi
    | unchanged none k => exact absurd hi (k id)
  · intro hd
    refine ⟨?_, fun e => if_pos hd⟩
    cases hc with
    | relayed parse p r =>
      have ha := p.active
      rw [hd] at ha
      cases ha
    | limited parse p r =>
      have ha := p.active
      rw [hd] at ha
      cases ha
    | unchanged none k => rfl

/-! ## Whether what was accepted is kept -/

theorem processIncomingFrom_of_passes (clock : RelayClock)
    (hpa : DriftEnvelope.fromBytes lz4 data = .ok e)
    (hp : engine.Passes clock.now (sender.any spammer) e)
    (hr : (engine.counting clock.nowMillis e).overRate e = false) :
    engine.processIncomingFrom lz4 spammer clock data sender
      = (.ok (.storeAndRelay e.messageId), engine.relayed clock data e) := by
  unfold processIncomingFrom
  simp only [hpa, route_eq_none_iff.mpr hp, storeAndRelay_of_room hp.new hr]

/-- **An accepted envelope is stored** exactly if there is room or enough messages with lower scores. -/
theorem accepted_stored_iff {β : Type} [LinearOrder β] (score : StoredEnvelope → β)
    (hparse : DriftEnvelope.fromBytes lz4 data = .ok e)
    (haccepted : (engine.processIncomingFrom lz4 spammer clock data sender).1 = .ok (.storeAndRelay e.messageId)) :
    (∀ scores : Scores, scores.Respects score →
        (engine.processIncomingFrom lz4 spammer { clock with scores := scores } data sender).2.store.contains
          e.messageId = true)
      ↔ engine.store.len < engine.store.maxMessages + engine.store.weaker score (e.stored data clock.receivedAt) := by
  obtain ⟨hp, hra⟩ : engine.Passes clock.now (sender.any spammer) e
      ∧ (engine.counting clock.nowMillis e).overRate e = false := by
    have hc := processed lz4 spammer engine clock data sender
    rw [haccepted] at hc
    generalize (engine.processIncomingFrom lz4 spammer clock data sender).2 = after at hc
    generalize hr : Outcome.ok (RelayDecision.storeAndRelay e.messageId) = re at hc
    cases hc with
    | relayed parse p r =>
      rw [hparse] at parse
      cases parse
      exact ⟨p, r⟩
    | limited parse p r => cases hr
    | unchanged none k => exact absurd hr.symm (k _)
  have hs (scores : Scores) :
      (engine.processIncomingFrom lz4 spammer { clock with scores := scores } data sender).2.store
        = (engine.store.put (e.stored data clock.receivedAt)).evictIfOverBudget scores := by
    rw [processIncomingFrom_of_passes { clock with scores := scores } hparse hp hra]
    rfl
  simp only [hs]
  exact MeshStore.contains_evict_put_iff score
    (show engine.store.contains (e.stored data clock.receivedAt).messageId = false from hp.new)

def crowded (priority : UInt8) : RelayEngine :=
  { (stranger 16 DriftEnvelope.extendedEnvelope).1 with
    store := (MeshStore.withCapacity 1).put (MeshStore.rated priority) }

def priorityClock : RelayClock :=
  { (stranger 16 DriftEnvelope.extendedEnvelope).2 with scores := .ofScore fun x => x.priority.toNat }

theorem crowded_accepts (p : UInt8)
    (hn : (crowded p).store.contains DriftEnvelope.extendedEnvelope.messageId = false)
    (hpa : DriftEnvelope.fromBytes lz4 data = .ok DriftEnvelope.extendedEnvelope) :
    (crowded p).processIncomingFrom lz4 (fun _ => false) priorityClock data none
      = (.ok (.storeAndRelay DriftEnvelope.extendedEnvelope.messageId),
          (crowded p).relayed priorityClock data DriftEnvelope.extendedEnvelope) := by
  have hp : (crowded p).Passes priorityClock.now false DriftEnvelope.extendedEnvelope :=
    { stranger_passes (show DriftEnvelope.extendedEnvelope.hopCount < 16 by decide) with new := hn }
  have hc : (crowded p).counting priorityClock.nowMillis DriftEnvelope.extendedEnvelope
      = crowded p := if_neg (show ¬ hourMillis < 0 - 0 by decide)
  refine processIncomingFrom_of_passes priorityClock hpa hp ?_
  rw [hc]
  exact overRate_eq_false_iff.mpr (.inr (.inr (show (0 : UInt32) < 1000 by decide)))

/-- An envelope of priority 128 takes the place of a message of priority 100. -/
theorem accepted_stored_sample :
    ∃ data, DriftEnvelope.fromBytes DriftEnvelope.storedLz4 data = .ok DriftEnvelope.extendedEnvelope
      ∧ ((crowded 100).processIncoming DriftEnvelope.storedLz4 priorityClock data).1
          = .ok (.storeAndRelay DriftEnvelope.extendedEnvelope.messageId)
      ∧ ((crowded 100).processIncoming DriftEnvelope.storedLz4 priorityClock data).2.store.contains
          DriftEnvelope.extendedEnvelope.messageId = true := by
  obtain ⟨data, -, hp⟩ := DriftEnvelope.extendedEnvelope_read
  have ha := congrArg Prod.fst (crowded_accepts 100 (by decide) hp)
  refine ⟨data, hp, ha, ?_⟩
  exact (accepted_stored_iff (fun x : StoredEnvelope => x.priority.toNat) hp ha).mpr
    (show 1 < 1 + 1 by decide) _ (Scores.respects_ofScore _)

/-- An envelope of priority 128 is passed on and is itself what the full store evicts. -/
theorem accepted_not_stored :
    ∃ data, DriftEnvelope.fromBytes DriftEnvelope.storedLz4 data = .ok DriftEnvelope.extendedEnvelope
      ∧ ((crowded 200).processIncoming DriftEnvelope.storedLz4 priorityClock data).1
          = .ok (.storeAndRelay DriftEnvelope.extendedEnvelope.messageId)
      ∧ ((crowded 200).processIncoming DriftEnvelope.storedLz4 priorityClock data).2.store.contains
          DriftEnvelope.extendedEnvelope.messageId = false := by
  obtain ⟨data, -, hp⟩ := DriftEnvelope.extendedEnvelope_read
  have hn : (crowded 200).store.contains DriftEnvelope.extendedEnvelope.messageId = false := by decide
  have ha := crowded_accepts 200 hn hp
  refine ⟨data, hp, congrArg Prod.fst ha, ?_⟩
  rw [processIncoming, ha]
  have he : ((crowded 200).store.put (DriftEnvelope.extendedEnvelope.stored data 0)).messages.entries
      = ⟨DriftEnvelope.extendedEnvelope.messageId, DriftEnvelope.extendedEnvelope.stored data 0⟩
        :: (crowded 200).store.messages.entries := MeshStore.entries_put hn
  have hg : (((crowded 200).store.put (DriftEnvelope.extendedEnvelope.stored data 0)).evictIfOverBudget
      (.ofScore fun x => x.priority.toNat)).get DriftEnvelope.extendedEnvelope.messageId = none :=
    MeshStore.get_evict_eq_none he (show 1 + 0 < 2 by decide)
  rw [MeshStore.contains]
  exact congrArg Option.isSome hg

end RelayEngine

end SCMessenger
