import SCMessenger.Lib.Primitives
import SCMessenger.Lib.Run
import SCMessenger.Routing.Layers

/-!
# The optimized routing engine

Before the three layers, the negative cache, the prefetched routes and the delivery paths are asked.  The
hasher is a parameter.  Timeout budgets and adaptive TTLs, which no decision reads, are left out.
-/

namespace SCMessenger

namespace Routing

/-! ## The negative cache -/

abbrev TextHash := String → UInt64 × UInt64

/-- A filter of `size` bits with `k` hashes. -/
structure BloomFilter where
  bits : Nat → Bool
  size : Nat
  k : Nat

namespace BloomFilter

def forPeerCache : BloomFilter := ⟨fun _ => false, 9586, 7⟩

def hashPositions (filter : BloomFilter) (hash : TextHash) (peerId : String) : List Nat :=
  let (h₁, h₂) := hash peerId
  (List.range filter.k).map fun i => (h₁ + UInt64.ofNat i * h₂).toNat % filter.size

def insert (filter : BloomFilter) (hash : TextHash) (peerId : String) : BloomFilter :=
  { filter with bits := fun pos => filter.bits pos || (filter.hashPositions hash peerId).contains pos }

def contains (filter : BloomFilter) (hash : TextHash) (peerId : String) : Bool :=
  (filter.hashPositions hash peerId).all filter.bits

theorem contains_insert_self (f : BloomFilter) (hash : TextHash) (x : String) :
    (f.insert hash x).contains hash x = true := by
  change ((f.hashPositions hash x).all fun pos =>
    f.bits pos || (f.hashPositions hash x).contains pos) = true
  rw [List.all_eq_true]
  intro pos hp
  simp [hp]

theorem contains_insert_of_contains {f : BloomFilter} {hash : TextHash} {x y : String}
    (h : f.contains hash x = true) : (f.insert hash y).contains hash x = true := by
  change ((f.hashPositions hash x).all fun pos =>
    f.bits pos || (f.hashPositions hash y).contains pos) = true
  rw [List.all_eq_true]
  intro pos hp
  rw [List.all_eq_true.mp h pos hp]
  rfl

end BloomFilter

/-- When, how often and for how long a peer was found unreachable. -/
structure NegativeCacheEntry where
  confirmedAt : Nat
  ttl : Nat
  confirmationCount : Nat

def NegativeCacheEntry.isExpired (entry : NegativeCacheEntry) (now : Nat) : Bool :=
  entry.ttl < now - entry.confirmedAt

/-- The peers found unreachable; each one with an entry is in the filter. -/
structure NegativeCache (hash : TextHash) where
  bloom : BloomFilter
  entries : Table String NegativeCacheEntry
  defaultTtl : Nat
  maxEntries : Nat
  covered : ∀ x entry, entries.lookup x = some entry → bloom.contains hash x = true

namespace NegativeCache

variable {hash : TextHash}

def withDefaults : NegativeCache hash where
  bloom := .forPeerCache
  entries := ∅
  defaultTtl := 600 * 1000000000
  maxEntries := 10000
  covered := by simp

def isDefinitelyUnreachable (cache : NegativeCache hash) (now : Nat) (peerId : String) : Bool :=
  if !cache.bloom.contains hash peerId then false
  else
    match cache.entries.lookup peerId with
    | some entry => !entry.isExpired now
    | none => false

def evictOldest (entries : Table String NegativeCacheEntry) : Table String NegativeCacheEntry :=
  match entries.entries.argmin fun e => e.2.confirmedAt with
  | some oldest => entries.erase oldest.1
  | none => entries

def recordEntry (cache : NegativeCache hash) (now : Nat) (peerId : String) :
    Table String NegativeCacheEntry :=
  match cache.entries.lookup peerId with
  | some entry =>
    cache.entries.insert peerId
      { entry with confirmedAt := now, confirmationCount := entry.confirmationCount + 1 }
  | none =>
    let entries :=
      if cache.maxEntries ≤ cache.entries.keys.length then evictOldest cache.entries
      else cache.entries
    entries.insert peerId ⟨now, cache.defaultTtl, 1⟩

theorem lookup_of_evictOldest {e : Table String NegativeCacheEntry} {x : String}
    {en : NegativeCacheEntry} (h : (evictOldest e).lookup x = some en) :
    e.lookup x = some en := by
  unfold evictOldest at h
  split at h
  · exact (Table.lookup_erase_iff.mp h).2
  · exact h

theorem lookup_recordEntry {c : NegativeCache hash} {now : Nat} {p x : String}
    {e : NegativeCacheEntry} (h : (c.recordEntry now p).lookup x = some e) :
    x = p ∨ c.entries.lookup x = some e := by
  by_cases hx : x = p
  · exact .inl hx
  · right
    unfold recordEntry at h
    split at h
    · rwa [AList.lookup_insert_ne hx] at h
    · rw [AList.lookup_insert_ne hx] at h
      split at h
      · exact lookup_of_evictOldest h
      · exact h

def recordUnreachable (cache : NegativeCache hash) (now : Nat) (peerId : String) :
    NegativeCache hash where
  bloom := cache.bloom.insert hash peerId
  entries := cache.recordEntry now peerId
  defaultTtl := cache.defaultTtl
  maxEntries := cache.maxEntries
  covered := by
    intro x entry h
    rcases lookup_recordEntry h with rfl | hold
    · exact BloomFilter.contains_insert_self _ _ _
    · exact BloomFilter.contains_insert_of_contains (cache.covered x entry hold)

def clearUnreachable (cache : NegativeCache hash) (peerId : String) : NegativeCache hash :=
  { cache with
    entries := cache.entries.erase peerId
    covered := fun x entry h => cache.covered x entry (Table.lookup_erase_iff.mp h).2 }

/-- Drop the entries of a kind. -/
def purge (cache : NegativeCache hash) (gone : NegativeCacheEntry → Bool) : NegativeCache hash :=
  { cache with
    entries := (cache.entries.purge gone).2
    covered := fun x entry h => cache.covered x entry (Table.lookup_purge.mp h).1 }

def cleanupExpired (cache : NegativeCache hash) (now : Nat) : NegativeCache hash :=
  cache.purge (·.isExpired now)

def pruneBelowConfidence (cache : NegativeCache hash) (threshold : Nat) : NegativeCache hash :=
  cache.purge fun entry => decide (entry.confirmationCount < threshold)

/-- **The answer**: a peer is unreachable when there is an entry for it that has not expired. -/
theorem isDefinitelyUnreachable_iff (c : NegativeCache hash) (now : Nat) (x : String) :
    c.isDefinitelyUnreachable now x = true
      ↔ ∃ entry, c.entries.lookup x = some entry ∧ entry.isExpired now = false := by
  unfold isDefinitelyUnreachable
  cases hx : c.entries.lookup x with
  | none => simp
  | some entry => simp [c.covered x entry hx]

end NegativeCache

/-! ## Prefetched routes and delivery paths -/

inductive PrefetchStatus where
  | fresh
  | stale
  | refreshing
  | failed
deriving DecidableEq, Repr

/-- A route kept from before a suspension. -/
structure PrefetchedRoute where
  route : RouteAdvertisement
  lastValidated : Nat
  status : PrefetchStatus

def PrefetchedRoute.isUsable (route : PrefetchedRoute) (now maxStaleAge : Nat) : Bool :=
  match route.status with
  | .fresh | .stale => now - route.lastValidated < maxStaleAge
  | .refreshing => true
  | .failed => false

/-- The routes to be looked at after a resume. -/
structure ResumePrefetchManager where
  routes : Table Hint PrefetchedRoute
  maxStaleAge : Nat

def ResumePrefetchManager.withDefaults : ResumePrefetchManager := ⟨∅, 3600 * 1000000000⟩

def ResumePrefetchManager.getRouteEarly (manager : ResumePrefetchManager) (now : Nat) (hint : Hint) :
    Option RouteAdvertisement :=
  (manager.routes.lookup hint).bind fun prefetched =>
    if prefetched.isUsable now manager.maxStaleAge then some prefetched.route else none

/-- One of several paths to a hint. -/
structure DeliveryPath where
  pathId : UInt64
  peerId : Arr 32
  active : Bool
  score : ℚ

/-- The paths known for each hint. -/
structure MultiPathDelivery where
  paths : Table Hint (List DeliveryPath)

def MultiPathDelivery.activePaths (delivery : MultiPathDelivery) (hint : Hint) : List DeliveryPath :=
  (((delivery.paths.lookup hint).getD []).filter (·.active)).mergeSort fun a b => b.score ≤ a.score

/-! ## The engine -/

/-- The engine with its caches. -/
structure OptimizedRoutingEngine (hash : TextHash) where
  baseEngine : RoutingEngine
  negativeCache : NegativeCache hash
  prefetchManager : ResumePrefetchManager
  multipath : MultiPathDelivery

def hintOf {K : Type} (P : Primitives K) (bytes : Bytes) : Hint := Arr.fit 4 (P.blake3 bytes).1

/-- A direct decision over the transport the peer was last seen on, its others as alternatives. -/
def preferActiveTransport (cell : LocalCell) (decision : RoutingDecision) : RoutingDecision :=
  match decision.primary with
  | .direct peerId transport =>
    match cell.getPeer peerId with
    | some peer =>
      let transport := match peer.status with
        | .active _ active => active
        | _ => transport
      { decision with
        primary := .direct peerId transport
        alternatives := (peer.transports.filter (· ≠ transport)).foldl
          (fun alternatives other =>
            if NextHop.direct peerId other ∈ alternatives then alternatives
            else alternatives ++ [.direct peerId other]) decision.alternatives }
    | none => decision
  | _ => decision

namespace OptimizedRoutingEngine

variable {hash : TextHash}

def new : OptimizedRoutingEngine hash := ⟨.new, .withDefaults, .withDefaults, ⟨∅⟩⟩

def earlyDecision (messageId : Arr 16) (hint : Hint) (primary : NextHop) (alternatives : List NextHop)
    (decidedBy : RoutingLayer) (confidence : ℚ) : RoutingDecision :=
  ⟨messageId, hint, primary, alternatives, decidedBy, confidence⟩

/-- Route a message: negative cache, prefetched routes, delivery paths, and then the layers. -/
def routeMessageOptimized (engine : OptimizedRoutingEngine hash) (recipientHint : Hint)
    (messageId : Arr 16) (priority : UInt8) (now : Nat) : RoutingDecision :=
  if engine.negativeCache.isDefinitelyUnreachable now (hexEncode recipientHint.1) then
    earlyDecision messageId recipientHint .storeAndCarry [] .storeAndCarry 0
  else
    match engine.prefetchManager.getRouteEarly now recipientHint with
    | some route =>
      earlyDecision messageId recipientHint (.globalRoute route.nextHop route.hopCount) []
        .globalRoutes (95 / 100)
    | none =>
      match engine.multipath.activePaths recipientHint with
      | path :: others =>
        earlyDecision messageId recipientHint (.globalRoute path.peerId 1)
          (others.map fun other => .globalRoute other.peerId 1) .globalRoutes (90 / 100)
      | [] =>
        -- what the source records as unreachable here is guarded by a text that is empty unless the
        -- decision is a global route, so nothing is ever recorded
        preferActiveTransport engine.baseEngine.localCell
          (engine.baseEngine.routeMessage recipientHint messageId priority)

def recordUnreachablePeer (engine : OptimizedRoutingEngine hash) (now : Nat) (peerId : String) :
    OptimizedRoutingEngine hash :=
  { engine with negativeCache := engine.negativeCache.recordUnreachable now peerId }

def clearUnreachablePeer (engine : OptimizedRoutingEngine hash) (peerId : String) :
    OptimizedRoutingEngine hash :=
  { engine with negativeCache := engine.negativeCache.clearUnreachable peerId }

def cellAfterSighting (cell : LocalCell) (directHint : Hint) (now : Nat) (peerId : Arr 32)
    (transport : TransportType) : LocalCell :=
  let cell := cell.peerSeen now peerId transport
  match cell.getPeer peerId with
  | some peer =>
    if directHint ∈ peer.reachableHints then cell
    else cell.updatePeerHints peerId (peer.reachableHints ++ [directHint])
  | none => cell

def peerSeen {K : Type} (P : Primitives K) (engine : OptimizedRoutingEngine hash) (now : Nat)
    (peerId : Arr 32) (transport : TransportType) : OptimizedRoutingEngine hash :=
  { engine with
    negativeCache := engine.negativeCache.clearUnreachable (hexEncode peerId.1)
    baseEngine := { engine.baseEngine with
      localCell := cellAfterSighting engine.baseEngine.localCell (hintOf P peerId.1) now peerId
        transport } }

/-- The decision for a recipient, addressed by the hexadecimal text of its key. -/
def preparedDecision {K : Type} (P : Primitives K) (engine : OptimizedRoutingEngine hash)
    (recipientId : String) (messageId : Arr 16) (now : Nat) : RoutingDecision :=
  engine.routeMessageOptimized (hintOf P recipientId.toUTF8.data.toList) messageId 128 now

/-! ## What decides -/

/-- Nothing before the layers answers for a hint. -/
structure Unanswered (engine : OptimizedRoutingEngine hash) (hint : Hint) (now : Nat) : Prop where
  notNegative : ∀ entry, engine.negativeCache.entries.lookup (hexEncode hint.1) = some entry →
    entry.isExpired now = true
  notPrefetched : engine.prefetchManager.getRouteEarly now hint = none
  noPath : engine.multipath.activePaths hint = []

variable (cell : LocalCell) (decision : RoutingDecision)

theorem preferActiveTransport_cases :
    (preferActiveTransport cell decision).primary = decision.primary
    ∨ ∃ id t t', decision.primary = .direct id t
        ∧ (preferActiveTransport cell decision).primary = .direct id t' := by
  unfold preferActiveTransport
  split
  · rename_i id t hp
    split
    · exact .inr ⟨id, t, _, hp, rfl⟩
    · exact .inl rfl
  · exact .inl rfl

theorem preferActiveTransport_direct_iff (p : Arr 32) :
    (∃ t, (preferActiveTransport cell decision).primary = .direct p t)
      ↔ ∃ t, decision.primary = .direct p t := by
  rcases preferActiveTransport_cases cell decision with h | ⟨id, t, t', h, h'⟩
  · rw [h]
  · simp [h, h']

theorem preferActiveTransport_storeAndCarry_iff :
    (preferActiveTransport cell decision).primary = .storeAndCarry
      ↔ decision.primary = .storeAndCarry := by
  rcases preferActiveTransport_cases cell decision with h | ⟨id, t, t', h, h'⟩
  · rw [h]
  · simp [h, h']

section

variable (engine : OptimizedRoutingEngine hash) (hint : Hint) (messageId : Arr 16) (priority : UInt8)
  (now : Nat)

theorem isDefinitelyUnreachable_eq_false_iff :
    engine.negativeCache.isDefinitelyUnreachable now (hexEncode hint.1) = false
      ↔ ∀ entry, engine.negativeCache.entries.lookup (hexEncode hint.1) = some entry →
        entry.isExpired now = true := by
  rw [← Bool.not_eq_true, NegativeCache.isDefinitelyUnreachable_iff]
  simp

theorem route_of_unanswered {engine : OptimizedRoutingEngine hash} {hint : Hint} {now : Nat}
    (h : engine.Unanswered hint now) (messageId : Arr 16) (priority : UInt8) :
    engine.routeMessageOptimized hint messageId priority now
      = preferActiveTransport engine.baseEngine.localCell
        (engine.baseEngine.routeMessage hint messageId priority) := by
  have hn := (engine.isDefinitelyUnreachable_eq_false_iff hint now).mpr h.notNegative
  simp [routeMessageOptimized, hn, h.notPrefetched, h.noPath]

theorem route_cases :
    engine.Unanswered hint now
    ∨ (¬ engine.Unanswered hint now
      ∧ ((engine.negativeCache.isDefinitelyUnreachable now (hexEncode hint.1) = true
          ∧ (engine.routeMessageOptimized hint messageId priority now).primary = .storeAndCarry)
        ∨ engine.negativeCache.isDefinitelyUnreachable now (hexEncode hint.1) = false
          ∧ ∃ id hops, (engine.routeMessageOptimized hint messageId priority now).primary
            = .globalRoute id hops)) := by
  cases hn : engine.negativeCache.isDefinitelyUnreachable now (hexEncode hint.1) with
  | true =>
    right
    refine ⟨fun h => ?_, .inl ⟨rfl, ?_⟩⟩
    · rw [(engine.isDefinitelyUnreachable_eq_false_iff hint now).mpr h.notNegative] at hn
      cases hn
    · simp [routeMessageOptimized, hn, earlyDecision]
  | false =>
    cases hr : engine.prefetchManager.getRouteEarly now hint with
    | some route =>
      right
      refine ⟨fun h => ?_, .inr ⟨rfl, route.nextHop, route.hopCount, ?_⟩⟩
      · cases h.notPrefetched.symm.trans hr
      · simp [routeMessageOptimized, hn, hr, earlyDecision]
    | none =>
      cases hp : engine.multipath.activePaths hint with
      | cons path o =>
        right
        refine ⟨fun h => ?_, .inr ⟨rfl, path.peerId, 1, ?_⟩⟩
        · cases h.noPath.symm.trans hp
        · simp [routeMessageOptimized, hn, hr, hp, earlyDecision]
      | nil =>
        exact .inl ⟨(engine.isDefinitelyUnreachable_eq_false_iff hint now).mp hn, hr,
          hp⟩

/-- Nothing answers before the layers, and the peer is the first active one that reaches the hint. -/
theorem route_direct_iff (p : Arr 32) :
    (∃ t, (engine.routeMessageOptimized hint messageId priority now).primary
        = .direct p t)
      ↔ engine.Unanswered hint now
        ∧ ∃ pe, (engine.baseEngine.localCell.peersForHint hint).head? = some pe
          ∧ pe.peerId = p := by
  rcases engine.route_cases hint messageId priority now with
    h | ⟨h, ⟨-, hc⟩ | ⟨-, id, hops, hg⟩⟩
  · rw [route_of_unanswered h, preferActiveTransport_direct_iff,
      RoutingEngine.routeMessage_direct_iff]
    simp [h]
  · simp [h, hc]
  · simp [h, hg]

/-- A live negative entry, or nothing answers, no layer knows a way, and none is asked for. -/
theorem route_storeAndCarry_iff :
    (engine.routeMessageOptimized hint messageId priority now).primary = .storeAndCarry
      ↔ engine.negativeCache.isDefinitelyUnreachable now (hexEncode hint.1) = true
        ∨ (engine.Unanswered hint now ∧ engine.baseEngine.NoRoute hint
          ∧ (engine.baseEngine.globalRoutes.isRoutePending hint = true ∨ priority < 100)) := by
  rcases engine.route_cases hint messageId priority now with
    h | ⟨h, ⟨hn, hc⟩ | ⟨hn, id, hops, hg⟩⟩
  · have hn := (engine.isDefinitelyUnreachable_eq_false_iff hint now).mpr h.notNegative
    rw [route_of_unanswered h, preferActiveTransport_storeAndCarry_iff,
      RoutingEngine.routeMessage_storeAndCarry_iff]
    simp [h, hn]
  · simp [hc, hn]
  · simp [h, hg, hn]

end

end OptimizedRoutingEngine

end Routing

end SCMessenger
