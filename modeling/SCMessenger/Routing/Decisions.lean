import SCMessenger.Routing.OptimizedEngine
import SCMessenger.Store.BlockAliases

/-!
# Who a decision is about

The engine knows a peer by the hint of its key's bytes or of their hexadecimal text, by that text, and by
its libp2p identifier; its operations do not use the same one.
-/

namespace SCMessenger

namespace Routing

variable {hash : TextHash}

/-- What is done to an engine between two decisions.  Parts that are handed out may change in any way. -/
inductive EngineOp where
  | recordUnreachablePeer (now : Nat) (peerId : String)
  | clearUnreachablePeer (peerId : String)
  | peerSeen (now : Nat) (peerId : Arr 32) (transport : TransportType)
  | baseEngineMut (change : RoutingEngine → RoutingEngine)
  | prefetchManagerMut (change : ResumePrefetchManager → ResumePrefetchManager)
  | multipath (change : MultiPathDelivery → MultiPathDelivery)
  | cleanupExpired (now : Nat)
  | pruneBelowConfidence (threshold : Nat)

namespace OptimizedRoutingEngine

variable {K : Type} (P : Primitives K)

def step (engine : OptimizedRoutingEngine hash) : EngineOp → OptimizedRoutingEngine hash
  | .recordUnreachablePeer now peerId => engine.recordUnreachablePeer now peerId
  | .clearUnreachablePeer peerId => engine.clearUnreachablePeer peerId
  | .peerSeen now peerId transport => engine.peerSeen P now peerId transport
  | .baseEngineMut change => { engine with baseEngine := change engine.baseEngine }
  | .prefetchManagerMut change => { engine with prefetchManager := change engine.prefetchManager }
  | .multipath change => { engine with multipath := change engine.multipath }
  | .cleanupExpired now => { engine with negativeCache := engine.negativeCache.cleanupExpired now }
  | .pruneBelowConfidence threshold =>
    { engine with negativeCache := engine.negativeCache.pruneBelowConfidence threshold }

/-! ## Visible peers -/

theorem mem_peersForHint {cell : LocalCell} {peerId : Arr 32} {peer : PeerInfo}
    {hint : Hint} (hl : cell.getPeer peerId = some peer) (ha : peer.status.isActive = true)
    (hh : hint ∈ peer.reachableHints) : peer ∈ cell.peersForHint hint := by
  refine List.mem_filter.mpr ⟨List.mem_map.mpr ⟨⟨peerId, peer⟩, Table.mem_entries.mpr hl, rfl⟩, ?_⟩
  simp [ha, hh]

/-- A peer that is seen is listed for the hint of its key's bytes. -/
theorem peerSeen_listed (engine : OptimizedRoutingEngine hash) (now : Nat) (peerId : Arr 32)
    (transport : TransportType) :
    let cell := (engine.peerSeen P now peerId transport).baseEngine.localCell
    ∃ peer, cell.getPeer peerId = some peer ∧ peer ∈ cell.peersForHint (hintOf P peerId.1) := by
  have hseen : ∃ peer, (engine.baseEngine.localCell.peerSeen now peerId transport).getPeer peerId = some peer
      ∧ peer.status.isActive = true := by
    unfold LocalCell.peerSeen LocalCell.getPeer
    split
    · exact ⟨_, AList.lookup_insert _, rfl⟩
    · exact ⟨_, AList.lookup_insert _, rfl⟩
  obtain ⟨peer, hl, ha⟩ := hseen
  simp only [peerSeen, cellAfterSighting, hl]
  split
  case isTrue hh => exact ⟨peer, hl, mem_peersForHint hl ha hh⟩
  case isFalse hh =>
    have hu : ((engine.baseEngine.localCell.peerSeen now peerId transport).updatePeerHints peerId
        (peer.reachableHints ++ [hintOf P peerId.1])).getPeer peerId
        = some { peer with reachableHints := peer.reachableHints ++ [hintOf P peerId.1] } := by
      unfold LocalCell.getPeer at hl
      simp [LocalCell.updatePeerHints, LocalCell.getPeer, hl]
    exact ⟨_, hu, mem_peersForHint hu ha (by simp)⟩

/-- A peer is the first active one for a hint, and nothing answers before the local cell. -/
structure FirstFor (engine : OptimizedRoutingEngine hash) (peerId : Arr 32) (hint : Hint) (now : Nat) :
    Prop where
  unanswered : engine.Unanswered hint now
  first : ∃ peer, (engine.baseEngine.localCell.peersForHint hint).head? = some peer
    ∧ peer.peerId = peerId

/-- **When a visible peer is routed to directly**: it is the first that announced the hint of its text. -/
theorem visible_peer_direct_iff (engine : OptimizedRoutingEngine hash) (peerId : Arr 32)
    (transport : TransportType) (seenAt : Nat) (ops : List EngineOp) (recipientId : String)
    (messageId : Arr 16) (now : Nat) :
    let engine' := ops.foldl (step P) (engine.peerSeen P seenAt peerId transport)
    (∃ transport', (engine'.preparedDecision P recipientId messageId now).primary
        = .direct peerId transport')
      ↔ engine'.FirstFor peerId (hintOf P recipientId.toUTF8.data.toList) now := by
  intro engine'
  rw [preparedDecision, route_direct_iff]
  constructor
  · rintro ⟨hu, hf⟩
    exact ⟨hu, hf⟩
  · rintro ⟨hu, hf⟩
    exact ⟨hu, hf⟩

def sampleTextHash : TextHash := fun text => (UInt64.ofNat text.length, 1)

def bobKey : Arr 32 := Arr.fit 32 [2, 1]

def bobSeen : OptimizedRoutingEngine sampleTextHash :=
  OptimizedRoutingEngine.new.peerSeen termPrimitives 0 bobKey .ble

/-- Bob was just seen, and a message to him asks the network for a route. -/
theorem visible_peer_not_direct :
    (bobSeen.preparedDecision termPrimitives (hexEncode bobKey.1) (Arr.fit 16 [1]) 1).primary
        = .routeDiscovery (hintOf termPrimitives (hexEncode bobKey.1).toUTF8.data.toList)
      ∧ (bobSeen.routeMessageOptimized (hintOf termPrimitives bobKey.1) (Arr.fit 16 [1]) 128 1).primary
        = .direct bobKey .ble := by
  decide +kernel

/-! ## Unreachable peers -/

theorem toPeerId_ne_hexEncode {ids : PeerIds} (hi : ids.Lawful) (key : Arr 32) (b : Bytes) :
    hexEncode b ≠ (ids.toPeerId key).text := by
  intro h
  have hs := hi.toPeerId_startsWith key
  rw [← h] at hs
  obtain ⟨r, hr⟩ := List.isPrefixOf_iff_prefix.mp hs
  simp only [hexEncode, String.toList_ofList] at hr
  have hm : 'D' ∈ hexChars b := by
    rw [← hr]
    exact List.mem_append_left r (by decide)
  obtain ⟨n, hn, hd⟩ := mem_hexChars hm
  have hne : ∀ n < 16, 'D' ≠ hexDigit n := by decide
  exact hne n hn hd

theorem route_congr {e e' : OptimizedRoutingEngine hash} {hi : Hint}
    (hb : e'.baseEngine = e.baseEngine)
    (hp : e'.prefetchManager = e.prefetchManager)
    (hpa : e'.multipath = e.multipath)
    (he : e'.negativeCache.entries.lookup (hexEncode hi.1)
      = e.negativeCache.entries.lookup (hexEncode hi.1))
    (m : Arr 16) (p : UInt8) (now : Nat) :
    e'.routeMessageOptimized hi m p now
      = e.routeMessageOptimized hi m p now := by
  have ha : e'.negativeCache.isDefinitelyUnreachable now (hexEncode hi.1)
      = e.negativeCache.isDefinitelyUnreachable now (hexEncode hi.1) := by
    rw [Bool.eq_iff_iff, NegativeCache.isDefinitelyUnreachable_iff,
      NegativeCache.isDefinitelyUnreachable_iff, he]
  unfold routeMessageOptimized
  rw [ha, hp, hpa, hb]

/-- The negative cache has the hint's own text, or nothing knows a way and none is asked for. -/
def Kept (engine : OptimizedRoutingEngine hash) (hint : Hint) (priority : UInt8) (now : Nat) : Prop :=
  (∃ entry, engine.negativeCache.entries.lookup (hexEncode hint.1) = some entry
    ∧ entry.isExpired now = false)
  ∨ (engine.Unanswered hint now ∧ engine.baseEngine.NoRoute hint
    ∧ (engine.baseEngine.globalRoutes.isRoutePending hint = true ∨ priority < 100))

/-- The entry of a peer, which is under its libp2p identifier, has no influence on a decision. -/
theorem route_clearUnreachablePeer {ids : PeerIds} (hi : ids.Lawful) (e : OptimizedRoutingEngine hash)
    (peerId : Arr 32) (hint : Hint) (m : Arr 16) (p : UInt8) (now : Nat) :
    (e.clearUnreachablePeer (ids.toPeerId peerId).text).routeMessageOptimized hint m p now
      = e.routeMessageOptimized hint m p now := by
  refine route_congr ?_ ?_ ?_ ?_ m p now
  · rfl
  · rfl
  · rfl
  · exact AList.lookup_erase_ne (toPeerId_ne_hexEncode hi peerId hint.1)

def SeenAgain (peerId : Arr 32) (ops : List EngineOp) : Prop :=
  ∃ now transport, EngineOp.peerSeen now peerId transport ∈ ops

/-- **Coherence of the negative cache** exactly when the message is kept for another reason. -/
theorem negative_cache_coherent_iff {ids : PeerIds} (hids : ids.Lawful)
    (engine : OptimizedRoutingEngine hash) (peerId : Arr 32) (recordedAt : Nat) (ops : List EngineOp)
    (messageId : Arr 16) (priority : UInt8) (now : Nat) :
    let text := (ids.toPeerId peerId).text
    let recorded := engine.recordUnreachablePeer recordedAt text
    let engine' := ops.foldl (step P) recorded
    let hint := hintOf P peerId.1
    ((recorded.negativeCache.isDefinitelyUnreachable now text = true → ¬ SeenAgain peerId ops →
          (engine'.routeMessageOptimized hint messageId priority now).primary = .storeAndCarry)
        ∧ (SeenAgain peerId ops → engine'.routeMessageOptimized hint messageId priority now
          = (engine'.clearUnreachablePeer text).routeMessageOptimized hint messageId priority now))
      ↔ (recorded.negativeCache.isDefinitelyUnreachable now text = true → ¬ SeenAgain peerId ops →
        engine'.Kept hint priority now) := by
  intro text recorded engine' hint
  rw [and_iff_left fun _ => (route_clearUnreachablePeer hids engine' peerId hint messageId priority now).symm,
    route_storeAndCarry_iff, NegativeCache.isDefinitelyUnreachable_iff (c := engine'.negativeCache)]
  exact Iff.rfl

def aliceKey : Arr 32 := Arr.fit 32 [1, 2]

/-- Alice is seen, Bob is recorded once more, and the expired entries are dropped. -/
def withoutBob : List EngineOp :=
  [.peerSeen 2 aliceKey .tcp, .recordUnreachablePeer 3 (BlockedList.sampleIds.toPeerId bobKey).text,
    .cleanupExpired 4]

def bobUnreachable : OptimizedRoutingEngine sampleTextHash :=
  withoutBob.foldl (step termPrimitives)
    (OptimizedRoutingEngine.new.recordUnreachablePeer 1 (BlockedList.sampleIds.toPeerId bobKey).text)

/-- Without a route to Bob, a message of low priority is kept. -/
theorem kept_without_route :
    (bobUnreachable.routeMessageOptimized (hintOf termPrimitives bobKey.1) (Arr.fit 16 [1]) 50 5).primary
      = .storeAndCarry := by
  have hseen : ¬ SeenAgain bobKey withoutBob := by
    rintro ⟨now, transport, h⟩
    simp only [withoutBob, List.mem_cons, EngineOp.peerSeen.injEq, reduceCtorEq, List.not_mem_nil, or_false] at h
    exact absurd h.2.1 (by decide)
  refine ((negative_cache_coherent_iff termPrimitives BlockedList.sampleIds_lawful OptimizedRoutingEngine.new
    bobKey 1 withoutBob (Arr.fit 16 [1]) 50 5).mpr fun _ _ => .inr ?_).1 (by decide +kernel) hseen
  have hn : bobUnreachable.negativeCache.entries.lookup
      (hexEncode (hintOf termPrimitives bobKey.1).1) = none := by decide +kernel
  have hp : bobUnreachable.multipath.activePaths (hintOf termPrimitives bobKey.1) = [] := by
    simp [bobUnreachable, withoutBob, step, recordUnreachablePeer, peerSeen, OptimizedRoutingEngine.new,
      MultiPathDelivery.activePaths]
  refine ⟨⟨?_, rfl, hp⟩, ⟨by decide +kernel, rfl, rfl⟩, .inr (by decide)⟩
  intro entry he
  cases hn.symm.trans he

/-- Bob is recorded as unreachable, and a message is sent to him directly. -/
theorem recorded_peer_not_kept :
    ((bobSeen.recordUnreachablePeer 1 (BlockedList.sampleIds.toPeerId bobKey).text).routeMessageOptimized
      (hintOf termPrimitives bobKey.1) (Arr.fit 16 [1]) 50 2).primary = .direct bobKey .ble := by
  decide +kernel

end OptimizedRoutingEngine

end Routing

end SCMessenger
