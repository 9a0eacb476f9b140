import Mathlib.Data.List.MinMax
import Mathlib.Data.Prod.Lex
import Mathlib.Algebra.Order.Ring.Rat
import SCMessenger.Lib.Bytes
import SCMessenger.Lib.Table

/-!
# The three layers of a routing decision

A message is addressed by a four-byte hint: the local cell is asked, the gateways, then the global routes
(`routing/engine.rs`).  Scores are exact fractions, and a table is iterated in the order it is kept in.
-/

namespace SCMessenger

namespace Routing

abbrev Hint := Arr 4

inductive TransportType where
  | ble
  | wifiAware
  | wifiDirect
  | tcp
  | quic
deriving DecidableEq, Repr

/-! ## The local cell -/

/-- When and how a peer was last seen. -/
inductive PeerStatus where
  | active (lastSeen : Nat) (transport : TransportType)
  | stale (lastSeen : Nat) (lastTransport : TransportType)
  | dormant (lastSeen : Nat)
deriving DecidableEq, Repr

def PeerStatus.isActive : PeerStatus → Bool
  | .active _ _ => true
  | _ => false

/-- What is known of a peer in radio range. -/
structure PeerInfo where
  peerId : Arr 32
  status : PeerStatus
  reachableHints : List Hint
  reliabilityScore : ℚ
  transports : List TransportType

def PeerInfo.new (peerId : Arr 32) (now : Nat) (transport : TransportType) : PeerInfo where
  peerId := peerId
  status := .active now transport
  reachableHints := []
  reliabilityScore := 1 / 2
  transports := [transport]

def PeerInfo.seen (peer : PeerInfo) (now : Nat) (transport : TransportType) : PeerInfo :=
  { peer with
    status := .active now transport
    transports :=
      if transport ∈ peer.transports then peer.transports else peer.transports ++ [transport] }

/-- The peers in radio range. -/
structure LocalCell where
  peers : Table (Arr 32) PeerInfo
  maxPeers : Nat

namespace LocalCell

def new : LocalCell := ⟨∅, 1000⟩

def values (cell : LocalCell) : List PeerInfo := cell.peers.entries.map fun e => e.2

/-- Drops the least reliable peer. -/
def evictLowestReliability (cell : LocalCell) : LocalCell :=
  match cell.values.argmin (·.reliabilityScore) with
  | some peer => { cell with peers := cell.peers.erase peer.peerId }
  | none => cell

/-- A sighting of a peer. -/
def peerSeen (cell : LocalCell) (now : Nat) (peerId : Arr 32) (transport : TransportType) :
    LocalCell :=
  match cell.peers.lookup peerId with
  | some peer => { cell with peers := cell.peers.insert peerId (peer.seen now transport) }
  | none =>
    let cell := if cell.maxPeers ≤ cell.peers.keys.length then cell.evictLowestReliability else cell
    { cell with peers := cell.peers.insert peerId (.new peerId now transport) }

def updatePeerHints (cell : LocalCell) (peerId : Arr 32) (hints : List Hint) : LocalCell :=
  match cell.peers.lookup peerId with
  | some peer =>
    { cell with peers := cell.peers.insert peerId { peer with reachableHints := hints } }
  | none => cell

def getPeer (cell : LocalCell) (peerId : Arr 32) : Option PeerInfo := cell.peers.lookup peerId

/-- The active peers that reach a hint. -/
def peersForHint (cell : LocalCell) (hint : Hint) : List PeerInfo :=
  cell.values.filter fun peer => peer.status.isActive && peer.reachableHints.contains hint

end LocalCell

/-! ## Gateways -/

/-- How much energy a gateway has to spare. -/
inductive EnergyClass where
  | charging
  | high
  | low
  | critical
deriving DecidableEq, Repr

def EnergyClass.costMultiplier : EnergyClass → ℚ
  | .charging => 1 / 2
  | .high => 1
  | .low => 2
  | .critical => 8

/-- What a peer tells about the peers around it. -/
structure CellSummary where
  peerCount : UInt32
  gatewayCount : UInt32
  reachableHints : List Hint
  avgReliability : ℚ
  timestamp : UInt64

/-- A peer that leads to other cells. -/
structure GatewayInfo where
  gatewayId : Arr 32
  cellSummary : CellSummary
  hopsAway : UInt8
  lastUpdated : UInt64
  transport : TransportType
  energyClass : EnergyClass

/-- What is known of a cell further away. -/
structure NeighborhoodSummary where
  totalReachable : UInt32
  reachableHints : List Hint
  pathReliability : ℚ
  hopCount : UInt8
  timestamp : UInt64

/-- The gateways a few hops away, and what they reach. -/
structure NeighborhoodTable where
  gateways : Table (Arr 32) GatewayInfo
  summaries : List NeighborhoodSummary
  maxStaleness : UInt64
  maxGateways : Nat
  maxHops : UInt8

namespace NeighborhoodTable

def withMaxStaleness (maxStaleness : UInt64) : NeighborhoodTable := ⟨∅, [], maxStaleness, 100, 4⟩

def new : NeighborhoodTable := withMaxStaleness 3600

def values (table : NeighborhoodTable) : List GatewayInfo := table.gateways.entries.map fun e => e.2

/-- The gateways that reach a hint. -/
def gatewaysForHint (table : NeighborhoodTable) (hint : Hint) : List GatewayInfo :=
  table.values.filter fun gateway => gateway.cellSummary.reachableHints.contains hint

/-- Hops, weighted by energy and reliability. -/
def gatewayCost (gateway : GatewayInfo) : ℚ :=
  gateway.hopsAway.toNat * gateway.energyClass.costMultiplier
    / max gateway.cellSummary.avgReliability (1 / 100)

def bestGatewayForHint (table : NeighborhoodTable) (hint : Hint) : Option GatewayInfo :=
  (table.gatewaysForHint hint).argmin gatewayCost

end NeighborhoodTable

/-! ## Global routes -/

/-- A way to a hint, as a peer announced it. -/
structure RouteAdvertisement where
  destinationHint : Hint
  nextHop : Arr 32
  hopCount : Nat
  reliability : ℚ
  lastConfirmed : Nat
  /-- Higher is newer. -/
  sequence : Nat
  ttl : Nat

/-- The routes that were advertised for each hint. -/
structure GlobalRoutes where
  routes : Table Hint (List RouteAdvertisement)
  maxRoutesPerHint : Nat
  maxTotalRoutes : Nat
  /-- The hints a route was asked for, with the time of the request. -/
  pendingRequests : Table Hint Nat

namespace GlobalRoutes

def withLimits (maxRoutesPerHint maxTotalRoutes : Nat) : GlobalRoutes :=
  ⟨∅, maxRoutesPerHint, maxTotalRoutes, ∅⟩

def new : GlobalRoutes := withLimits 3 10000

def routeRank (route : RouteAdvertisement) : ℕ ×ₗ ℚᵒᵈ ×ₗ ℕᵒᵈ :=
  toLex (route.hopCount,
    toLex (OrderDual.toDual route.reliability, OrderDual.toDual route.lastConfirmed))

/-- The first of the best routes. -/
def bestRouteForHint (table : GlobalRoutes) (hint : Hint) : Option RouteAdvertisement :=
  (table.routes.lookup hint).bind fun routes => routes.argmin routeRank

def isRoutePending (table : GlobalRoutes) (hint : Hint) : Bool :=
  (table.pendingRequests.lookup hint).isSome

end GlobalRoutes

/-! ## The engine -/

/-- Where a message goes next. -/
inductive NextHop where
  | direct (peerId : Arr 32) (transport : TransportType)
  | gateway (gatewayId : Arr 32) (transport : TransportType) (hopsRemaining : UInt8)
  | globalRoute (nextHopId : Arr 32) (totalHops : Nat)
  | storeAndCarry
  | routeDiscovery (hint : Hint)
deriving DecidableEq

/-- The layer that decided. -/
inductive RoutingLayer where
  | localCell
  | neighborhood
  | globalRoutes
  | storeAndCarry
deriving DecidableEq, Repr

/-- The hop for a message, with the alternatives. -/
structure RoutingDecision where
  messageId : Arr 16
  recipientHint : Hint
  primary : NextHop
  alternatives : List NextHop
  decidedBy : RoutingLayer
  confidence : ℚ

/-- The three layers. -/
structure RoutingEngine where
  localCell : LocalCell
  neighborhood : NeighborhoodTable
  globalRoutes : GlobalRoutes

namespace RoutingEngine

def new : RoutingEngine := ⟨.new, .new, .new⟩

def gatewayHop (gateway : GatewayInfo) : NextHop :=
  .gateway gateway.gatewayId gateway.transport gateway.hopsAway

def routeHop (route : RouteAdvertisement) : NextHop := .globalRoute route.nextHop route.hopCount

/-- The other ways to a hint, besides the layer of the primary one. -/
def collectAlternativeHops (engine : RoutingEngine) (hint : Hint) (skipLayer : RoutingLayer) :
    List NextHop :=
  (if skipLayer ≠ .localCell then
    ((engine.localCell.peersForHint hint).take 1).flatMap fun peer =>
      (peer.transports.head?.map fun transport => NextHop.direct peer.peerId transport).toList
   else [])
  ++ (if skipLayer ≠ .neighborhood then
    ((engine.neighborhood.bestGatewayForHint hint).map gatewayHop).toList
   else [])
  ++ (if skipLayer ≠ .globalRoutes then
    ((engine.globalRoutes.bestRouteForHint hint).map routeHop).toList
   else [])

/-- Decides where to send a message. -/
def routeMessage (engine : RoutingEngine) (recipientHint : Hint) (messageId : Arr 16)
    (priority : UInt8) : RoutingDecision :=
  match engine.localCell.peersForHint recipientHint with
  | bestPeer :: _ =>
    { messageId := messageId
      recipientHint := recipientHint
      primary := .direct bestPeer.peerId (bestPeer.transports.head?.getD .ble)
      alternatives := engine.collectAlternativeHops recipientHint .localCell
      decidedBy := .localCell
      confidence := min bestPeer.reliabilityScore (98 / 100) }
  | [] =>
    match engine.neighborhood.bestGatewayForHint recipientHint with
    | some gateway =>
      { messageId := messageId
        recipientHint := recipientHint
        primary := gatewayHop gateway
        alternatives := engine.collectAlternativeHops recipientHint .neighborhood
        decidedBy := .neighborhood
        confidence := 85 / 100 - gateway.hopsAway.toNat * (5 / 100) }
    | none =>
      match engine.globalRoutes.bestRouteForHint recipientHint with
      | some route =>
        { messageId := messageId
          recipientHint := recipientHint
          primary := routeHop route
          alternatives := engine.collectAlternativeHops recipientHint .globalRoutes
          decidedBy := .globalRoutes
          confidence := route.reliability }
      | none =>
        { messageId := messageId
          recipientHint := recipientHint
          primary :=
            if !engine.globalRoutes.isRoutePending recipientHint && 100 ≤ priority then
              .routeDiscovery recipientHint
            else .storeAndCarry
          alternatives := []
          decidedBy := .storeAndCarry
          confidence := 0 }

/-- No layer knows a way to a hint. -/
structure NoRoute (engine : RoutingEngine) (hint : Hint) : Prop where
  noPeer : engine.localCell.peersForHint hint = []
  noGateway : engine.neighborhood.bestGatewayForHint hint = none
  noGlobal : engine.globalRoutes.bestRouteForHint hint = none

/-- **Sending directly**: the peer is the first active one that reaches the hint. -/
theorem routeMessage_direct_iff (e : RoutingEngine) (hi : Hint) (m : Arr 16)
    (pr : UInt8) (p : Arr 32) :
    (∃ t, (e.routeMessage hi m pr).primary = .direct p t)
      ↔ ∃ pe, (e.localCell.peersForHint hi).head? = some pe ∧ pe.peerId = p := by
  unfold routeMessage
  cases hp : e.localCell.peersForHint hi with
  | cons pe r => simp
  | nil =>
    cases e.neighborhood.bestGatewayForHint hi with
    | some g => simp [gatewayHop]
    | none =>
      cases e.globalRoutes.bestRouteForHint hi with
      | some route => simp [routeHop]
      | none =>
        simp only [List.head?_nil, reduceCtorEq, false_and, exists_false, iff_false]
        rintro ⟨t, h⟩
        split at h <;> cases h

/-- **Keeping the message**: no layer knows a way, and none is asked for. -/
theorem routeMessage_storeAndCarry_iff (e : RoutingEngine) (hi : Hint) (m : Arr 16)
    (p : UInt8) :
    (e.routeMessage hi m p).primary = .storeAndCarry
      ↔ e.NoRoute hi
        ∧ (e.globalRoutes.isRoutePending hi = true ∨ p < 100) := by
  unfold routeMessage
  cases hpr : e.localCell.peersForHint hi with
  | cons pe r =>
    simp only [reduceCtorEq, false_iff]
    rintro ⟨h, -⟩
    cases h.noPeer.symm.trans hpr
  | nil =>
    cases hg : e.neighborhood.bestGatewayForHint hi with
    | some g =>
      simp only [gatewayHop, reduceCtorEq, false_iff]
      rintro ⟨h, -⟩
      cases h.noGateway.symm.trans hg
    | none =>
      cases hr : e.globalRoutes.bestRouteForHint hi with
      | some route =>
        simp only [routeHop, reduceCtorEq, false_iff]
        rintro ⟨h, -⟩
        cases h.noGlobal.symm.trans hr
      | none =>
        have hn : e.NoRoute hi := ⟨hpr, hg, hr⟩
        simp only [hn, true_and]
        by_cases hpe : e.globalRoutes.isRoutePending hi = true
        · simp [hpe]
        · by_cases hp : p < 100
          · have hl : ¬ 100 ≤ p := UInt8.not_le.mpr hp
            simp [hp, hl]
          · have hl : 100 ≤ p := UInt8.not_lt.mp hp
            simp [hpe, hp, hl]

end RoutingEngine

end Routing

end SCMessenger
