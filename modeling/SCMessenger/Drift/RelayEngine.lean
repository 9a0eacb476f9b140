import SCMessenger.Drift.MeshStore
import SCMessenger.Drift.RoundTrip

/-!
# The relay engine

What a node does with an envelope that comes in (`drift/relay.rs`).  The clock, the store's scores and the
reputation's verdict on the sender are arguments; times subtract as in a release build.
-/

namespace SCMessenger

/-- Whether the node takes part in relaying. -/
inductive NetworkState where
  | active
  | dormant
deriving DecidableEq, Repr

/-- The settings that `processIncoming` reads. -/
structure RelayConfig where
  /-- `0` means without limit -/
  maxRelayPerHour : UInt32 := 1000
  maxHopCount : UInt8 := 16
  minRelayPriority : UInt8 := 0
deriving DecidableEq, Repr

inductive DropReason where
  | expired
  | maxHopsExceeded
  | rateLimited
  | networkDormant
  | lowPriority
  | storeFull
deriving DecidableEq, Repr

/-- What becomes of an envelope that came in. -/
inductive RelayDecision where
  | deliverLocal (messageId : Arr 16)
  | storeAndRelay (messageId : Arr 16)
  | duplicate (messageId : Arr 16)
  | dropped (messageId : Arr 16) (reason : DropReason)
deriving DecidableEq

/-- The relay: its store, its settings and the count of the hour. -/
structure RelayEngine where
  state : NetworkState
  config : RelayConfig
  store : MeshStore
  localHint : Arr 4
  relayCountThisHour : UInt32
  hourStart : UInt64

/-- What a call reads: seconds for expiry, milliseconds for the limit, seconds for the copy, and scores. -/
structure RelayClock where
  now : UInt64
  nowMillis : UInt64
  receivedAt : UInt64
  scores : Scores

namespace DriftEnvelope

def isExpired (e : DriftEnvelope) (now : UInt64) : Bool :=
  e.ttlExpiry != 0 && decide (e.ttlExpiry < now.toUInt32)

def isCoverTraffic (e : DriftEnvelope) : Bool := e.envelopeType == .coverTraffic

def stored (e : DriftEnvelope) (data : Bytes) (receivedAt : UInt64) : StoredEnvelope :=
  ⟨data, e.messageId, e.recipientHint, e.createdAt, e.ttlExpiry, e.hopCount, e.priority, receivedAt⟩

end DriftEnvelope

namespace RelayEngine

def hourMillis : UInt64 := 3600 * 1000

def checkRateLimit (now : UInt64) (engine : RelayEngine) : RelayEngine :=
  if hourMillis < now - engine.hourStart then { engine with relayCountThisHour := 0, hourStart := now }
  else engine

def route (engine : RelayEngine) (now : UInt64) (spammer : Bool) (e : DriftEnvelope) :
    Option RelayDecision :=
  if spammer then some (.dropped e.messageId .rateLimited)
  else if e.isExpired now then some (.dropped e.messageId .expired)
  else if engine.store.contains e.messageId then some (.duplicate e.messageId)
  else if e.recipientHint = engine.localHint then
    if e.envelopeType == .onionMessage || !e.isCoverTraffic then
      some (.deliverLocal e.messageId)
    else some (.dropped e.messageId .expired)
  else if engine.state = .dormant then some (.dropped e.messageId .networkDormant)
  else if engine.config.maxHopCount ≤ e.hopCount then some (.dropped e.messageId .maxHopsExceeded)
  else if e.priority < engine.config.minRelayPriority then some (.dropped e.messageId .lowPriority)
  else none

def counting (engine : RelayEngine) (now : UInt64) (e : DriftEnvelope) : RelayEngine :=
  if e.isCoverTraffic then engine else engine.checkRateLimit now

def overRate (engine : RelayEngine) (e : DriftEnvelope) : Bool :=
  !e.isCoverTraffic && decide (0 < engine.config.maxRelayPerHour)
    && decide (engine.config.maxRelayPerHour ≤ engine.relayCountThisHour)

def keep (engine : RelayEngine) (clock : RelayClock) (data : Bytes) (e : DriftEnvelope) :
    RelayDecision × RelayEngine :=
  match engine.store.insert clock.scores (e.stored data clock.receivedAt) with
  | (true, store) => (.storeAndRelay e.messageId, { engine with
      store := store
      relayCountThisHour :=
        if e.isCoverTraffic then engine.relayCountThisHour else engine.relayCountThisHour + 1 })
  | (false, store) => (.duplicate e.messageId, { engine with store := store })

def storeAndRelay (engine : RelayEngine) (clock : RelayClock) (data : Bytes) (e : DriftEnvelope) :
    RelayDecision × RelayEngine :=
  if (engine.counting clock.nowMillis e).overRate e then
    (.dropped e.messageId .rateLimited, engine.counting clock.nowMillis e)
  else (engine.counting clock.nowMillis e).keep clock data e

/-- Decide on an envelope from a sender; `spammer` tells which senders are held for abusive. -/
def processIncomingFrom (lz4 : Lz4) (spammer : String → Bool) (engine : RelayEngine) (clock : RelayClock)
    (data : Bytes) (sender : Option String) : Outcome DriftError RelayDecision × RelayEngine :=
  match DriftEnvelope.fromBytes lz4 data with
  | .err e => (.err e, engine)
  | .panicked => (.panicked, engine)
  | .ok e =>
    match engine.route clock.now (sender.any spammer) e with
    | some decision => (.ok decision, engine)
    | none =>
      let (decision, engine) := engine.storeAndRelay clock data e
      (.ok decision, engine)

def processIncoming (lz4 : Lz4) (engine : RelayEngine) (clock : RelayClock) (data : Bytes) :
    Outcome DriftError RelayDecision × RelayEngine :=
  processIncomingFrom lz4 (fun _ => false) engine clock data none

/-- How many nodes of a chain store an envelope and pass on the bytes they stored. -/
def relays (lz4 : Lz4) : List (RelayEngine × RelayClock) → Bytes → Nat
  | [], _ => 0
  | (engine, clock) :: rest, data =>
    match engine.processIncoming lz4 clock data with
    | (.ok (.storeAndRelay id), engine) =>
      match engine.store.get id with
      | some envelope => 1 + relays lz4 rest envelope.envelopeData
      | none => 1
    | _ => 0

/-! ## Passing on -/

variable {lz4 : Lz4} {engine engine' : RelayEngine} {clock : RelayClock} {data : Bytes} {id : Arr 16}

variable {e : DriftEnvelope}

theorem route_ne_storeAndRelay {now : UInt64} {s : Bool} :
    engine.route now s e ≠ some (.storeAndRelay id) := by
  unfold route
  repeat' split
  all_goals simp

/-- The conditions for passing an envelope on, apart from the rate limit. -/
structure Passes (engine : RelayEngine) (now : UInt64) (spammer : Bool) (e : DriftEnvelope) : Prop where
  trusted : spammer = false
  fresh : e.isExpired now = false
  new : engine.store.contains e.messageId = false
  forOthers : e.recipientHint ≠ engine.localHint
  active : engine.state = .active
  hops : e.hopCount < engine.config.maxHopCount
  urgent : engine.config.minRelayPriority ≤ e.priority

theorem route_eq_none_iff {now : UInt64} {s : Bool} :
    engine.route now s e = none ↔ engine.Passes now s e := by
  constructor
  · intro h
    unfold route at h
    repeat' split at h
    all_goals try cases h
    rename_i hsp he ho hh hst hho hp
    exact ⟨by simpa using hsp, by simpa using he, by simpa using ho, hh,
      by cases hs : engine.state <;> simp_all, UInt8.not_le.mp hho, UInt8.not_lt.mp hp⟩
  · rintro ⟨hsp, he, ho, hh, hst, hho, hp⟩
    simp [route, hsp, he, ho, hh, hst, UInt8.not_le.mpr hho, UInt8.not_lt.mpr hp]

theorem counting_store (now : UInt64) (e : DriftEnvelope) :
    (engine.counting now e).store = engine.store := by
  unfold counting checkRateLimit
  repeat' split
  all_goals rfl

theorem keep_of_new (hn : engine.store.contains e.messageId = false) :
    engine.keep clock data e = (.storeAndRelay e.messageId, { engine with
      store := (engine.store.put (e.stored data clock.receivedAt)).evictIfOverBudget clock.scores
      relayCountThisHour :=
        if e.isCoverTraffic then engine.relayCountThisHour else engine.relayCountThisHour + 1 }) := by
  have hi : engine.store.insert clock.scores (e.stored data clock.receivedAt)
      = (true, (engine.store.put (e.stored data clock.receivedAt)).evictIfOverBudget clock.scores) :=
    if_neg (Bool.eq_false_iff.mp hn)
  simp only [keep, hi]

theorem storeAndRelay_stored (hn : engine.store.contains e.messageId = false)
    (h : engine.storeAndRelay clock data e = (.storeAndRelay id, engine')) :
    id = e.messageId ∧ engine'.store
      = (engine.store.put (e.stored data clock.receivedAt)).evictIfOverBudget clock.scores := by
  have hs : (engine.counting clock.nowMillis e).store = engine.store := counting_store _ _
  rw [storeAndRelay] at h
  split at h
  · cases h
  · rw [keep_of_new (by rwa [hs]), hs] at h
    cases h
    exact ⟨rfl, rfl⟩

/-- **What is passed on**: an envelope that met the conditions, and the bytes it came as. -/
theorem processIncoming_storeAndRelay
    (h : engine.processIncoming lz4 clock data = (.ok (.storeAndRelay id), engine')) :
    ∃ e, DriftEnvelope.fromBytes lz4 data = .ok e ∧ engine.Passes clock.now false e
      ∧ ∀ en, engine'.store.get id = some en → en.envelopeData = data := by
  unfold processIncoming processIncomingFrom at h
  cases hp : DriftEnvelope.fromBytes lz4 data with
  | err x => simp [hp] at h
  | panicked => simp [hp] at h
  | ok e =>
    simp only [hp, Option.any_none] at h
    cases hr : engine.route clock.now false e with
    | some d =>
      simp only [hr, Prod.mk.injEq, Outcome.ok.injEq] at h
      exact absurd (h.1 ▸ hr) route_ne_storeAndRelay
    | none =>
      have hpa := route_eq_none_iff.mp hr
      simp only [hr, Prod.mk.injEq, Outcome.ok.injEq] at h
      obtain ⟨rfl, hs⟩ := storeAndRelay_stored hpa.new (Prod.ext h.1 h.2)
      refine ⟨e, rfl, hpa, fun en hg => ?_⟩
      rw [hs] at hg
      have hpu := MeshStore.get_of_get_evict hg
      rw [MeshStore.get_put, if_pos (show e.messageId = (e.stored data clock.receivedAt).messageId from rfl)]
        at hpu
      cases hpu
      rfl

/-! ## Chains -/

theorem relays_of_limit (hpa : DriftEnvelope.fromBytes lz4 data = .ok e)
    {c : List (RelayEngine × RelayClock)}
    (hc : ∀ n ∈ c, n.1.config.maxHopCount ≤ e.hopCount) : relays lz4 c data = 0 := by
  cases c with
  | nil => rfl
  | cons n r =>
    rw [relays]
    split
    case h_1 hnode =>
      obtain ⟨x, hx, hp, -⟩ := processIncoming_storeAndRelay hnode
      rw [hpa] at hx
      cases hx
      exact absurd hp.hops (UInt8.not_lt.mpr (hc n List.mem_cons_self))
    case h_2 => rfl

theorem relays_of_unparsed (hp : ∀ e, DriftEnvelope.fromBytes lz4 data ≠ .ok e)
    (c : List (RelayEngine × RelayClock)) : relays lz4 c data = 0 := by
  cases c with
  | nil => rfl
  | cons n r =>
    rw [relays]
    split
    case h_1 hnode =>
      obtain ⟨e, he, -, -⟩ := processIncoming_storeAndRelay hnode
      exact absurd he (hp e)
    case h_2 => rfl

/-- A node that just joined, whose hint is not the one of the envelope. -/
def stranger (limit : UInt8) (e : DriftEnvelope) : RelayEngine × RelayClock :=
  (⟨.active, { maxHopCount := limit }, MeshStore.new,
      if e.recipientHint = Arr.fit 4 [] then Arr.fit 4 [1] else Arr.fit 4 [], 0, 0⟩,
    ⟨e.ttlExpiry.toUInt64, 0, 0, fun _ _ _ => .eq⟩)

variable {limit : UInt8}

theorem stranger_passes (hh : e.hopCount < limit) :
    (stranger limit e).1.Passes (stranger limit e).2.now false e where
  trusted := rfl
  fresh := by simp [DriftEnvelope.isExpired, stranger]
  new := rfl
  forOthers := by
    show e.recipientHint ≠ if e.recipientHint = Arr.fit 4 [] then Arr.fit 4 [1] else Arr.fit 4 []
    split
    case isTrue h =>
      rw [h]
      decide
    case isFalse h => exact h
  active := rfl
  hops := hh
  urgent := UInt8.zero_le

theorem stranger_relays (hp : DriftEnvelope.fromBytes lz4 data = .ok e) (hh : e.hopCount < limit) :
    ∃ engine' en, (stranger limit e).1.processIncoming lz4 (stranger limit e).2 data
        = (.ok (.storeAndRelay e.messageId), engine')
      ∧ engine'.store.get e.messageId = some en ∧ en.envelopeData = data := by
  have hr : (stranger limit e).1.route (stranger limit e).2.now false e = none :=
    route_eq_none_iff.mpr (stranger_passes hh)
  have hc : (stranger limit e).1.counting (stranger limit e).2.nowMillis e = (stranger limit e).1 := by
    unfold counting
    split
    · rfl
    · exact if_neg (show ¬ hourMillis < 0 - 0 by decide)
  have hra : (stranger limit e).1.overRate e = false := by simp [overRate, stranger]
  have hro : (MeshStore.new.put (e.stored data 0)).len ≤ (MeshStore.new.put (e.stored data 0)).maxMessages := by
    rw [← MeshStore.card_ids, MeshStore.ids_put]
    exact show 1 ≤ 10000 by decide
  have hk : (stranger limit e).1.storeAndRelay (stranger limit e).2 data e
      = (stranger limit e).1.keep (stranger limit e).2 data e := by
    rw [storeAndRelay, hc, hra]
    rfl
  refine ⟨((stranger limit e).1.keep (stranger limit e).2 data e).2, e.stored data 0, ?_, ?_, rfl⟩
  · unfold processIncoming processIncomingFrom
    simp only [hp, Option.any_none, hr, hk]
    rw [keep_of_new rfl]
  · rw [keep_of_new rfl]
    show ((MeshStore.new.put (e.stored data 0)).evictIfOverBudget fun _ _ _ => .eq).get _ = _
    rw [MeshStore.evictIfOverBudget_of_le hro, MeshStore.get_put]
    exact if_pos rfl

theorem relays_strangers (hp : DriftEnvelope.fromBytes lz4 data = .ok e) (hh : e.hopCount < limit)
    (n : Nat) : relays lz4 (List.replicate n (stranger limit e)) data = n := by
  induction n with
  | zero => rfl
  | succ n ih =>
    obtain ⟨engine', en, hn, hg, hd⟩ := stranger_relays hp hh
    rw [List.replicate_succ, show stranger limit e = ((stranger limit e).1, (stranger limit e).2) from rfl,
      relays]
    simp only [hn, hg, hd]
    rw [ih, Nat.add_comm]

/-- **The hop limit bounds the relays of an envelope** only if its count has reached it at the start. -/
theorem hop_limit_iff (lz4 : Lz4) (limit : UInt8) (data : Bytes) :
    (∀ chain : List (RelayEngine × RelayClock), (∀ node ∈ chain, node.1.config.maxHopCount = limit) →
        relays lz4 chain data ≤ limit.toNat)
      ↔ ∀ e, DriftEnvelope.fromBytes lz4 data = .ok e → limit ≤ e.hopCount := by
  constructor
  · intro hb e hp
    by_contra hhops
    have hc := hb (List.replicate (limit.toNat + 1) (stranger limit e)) fun node hn => by
      rw [List.eq_of_mem_replicate hn]
      rfl
    rw [relays_strangers hp (UInt8.not_le.mp hhops)] at hc
    omega
  · intro hl chain hc
    cases hp : DriftEnvelope.fromBytes lz4 data with
    | ok e =>
      rw [relays_of_limit hp fun node hn => by
        rw [hc node hn]
        exact hl e hp]
      exact Nat.zero_le _
    | err x =>
      rw [relays_of_unparsed fun e he => by rw [hp] at he; cases he]
      exact Nat.zero_le _
    | panicked =>
      rw [relays_of_unparsed fun e he => by rw [hp] at he; cases he]
      exact Nat.zero_le _

/-- Seventeen nodes with the limit of sixteen all store an envelope without hops and pass it on. -/
theorem seventeen_relays :
    ∃ data, DriftEnvelope.extendedEnvelope.toBytes DriftEnvelope.storedLz4 = .ok data
      ∧ relays DriftEnvelope.storedLz4 (List.replicate 17 (stranger 16 DriftEnvelope.extendedEnvelope)) data = 17 := by
  obtain ⟨data, hd, hp⟩ := DriftEnvelope.extendedEnvelope_read
  exact ⟨data, hd, relays_strangers hp (by decide) 17⟩

end RelayEngine

end SCMessenger
