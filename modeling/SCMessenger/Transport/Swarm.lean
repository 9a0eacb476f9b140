import SCMessenger.Drift.Frame
import SCMessenger.Lib.Run
import SCMessenger.Lib.Table
import SCMessenger.Relay.Protocol
import SCMessenger.Store.RelayCustody

/-!
# Sending an envelope directly and through a relay

The way of an envelope through the swarms of three nodes.  What a relay knows of a destination (`PullEnv`),
and what its counters and its registry say of a request (`AdmissionEnv`), are inputs.
-/

namespace SCMessenger

variable (crc32 : Bytes → UInt32)

/-! ## The sender -/

def wrapInDriftFrame (envelopeData : Bytes) : Bytes :=
  match (⟨.data, envelopeData⟩ : DriftFrame).toBytes crc32 with
  | .ok bytes => bytes
  | .error _ => envelopeData

/-- A route to a peer, by the peers it leads through. -/
structure RankedRoute where
  path : List PeerId
  nonempty : path ≠ []

/-- A request to pass an envelope on. -/
structure RelayRequest where
  destinationPeer : PeerId
  envelopeData : Bytes
  messageId : String
  recipientIdentityId : Option String
  intendedDeviceId : Option String

/-- A request a swarm sends out. -/
inductive OutboundRequest where
  | messaging (peer : PeerId) (envelopeData : Bytes)
  | relay (peer : PeerId) (request : RelayRequest)

def dispatchRankedRoute (route : RankedRoute) (messageId : String) (targetPeer : PeerId)
    (envelopeData : Bytes) (recipientIdentityId intendedDeviceId : Option String) : OutboundRequest :=
  let framedData := wrapInDriftFrame crc32 envelopeData
  if route.path.length = 1 then .messaging targetPeer framedData
  else
    .relay (route.path.head route.nonempty) {
      destinationPeer := targetPeer
      envelopeData := framedData
      messageId := messageId
      recipientIdentityId := recipientIdentityId
      intendedDeviceId := intendedDeviceId }

/-! ## The relay -/

/-- A custody record that was sent to its destination. -/
structure CustodyDispatch where
  destinationPeer : PeerId
  custodyId : String
  relayMessageId : String
  envelopeData : Bytes

/-- A dispatch that waits for an answer. -/
structure PendingCustodyDispatch where
  destinationPeer : PeerId
  custodyId : String
  relayMessageId : String
deriving DecidableEq

/-- A relay: its custody store and dispatches, the requests given and what it dispatched. -/
structure RelayNode where
  store : RelayCustodyStore
  pendingCustodyDispatches : Table Nat PendingCustodyDispatch
  nextRequestId : Nat
  requests : List CustodyRequest
  dispatched : List CustodyDispatch

/-- What a relay knows of a destination when it pulls. -/
structure PullEnv where
  blocked : Bool
  connected : Bool
  maxInflightDispatches : Nat
  nowMs : Nat

/-- What a relay knows of a request's sender, recipient and destination. -/
structure AdmissionEnv where
  peerBlocked : Bool
  relayBudgetExhausted : Bool
  /-- the peer has no token left or is taken for a spammer -/
  peerRejected : Bool
  custodyMetadata : Except String (Option String × Option String)
  recentDuplicate : Bool
  destinationBlocked : Bool
  destinationConnected : Bool
  nowMs : Nat
  sequence : Nat

/-- What happens at a relay: a request, a pull for a destination, and what becomes of a dispatch. -/
inductive RelayEvent where
  | request (source : String) (request : RelayRequest) (env : AdmissionEnv)
  | pull (destinationPeer : PeerId) (env : PullEnv)
  | failed (requestId nowMs : Nat)
  | delivered (requestId : Nat)

def relayMaxInflightDispatches : Nat := 256
def relayMaxMessageIdLen : Nat := 160
def relayMaxEnvelopeBytes : Nat := 64 * 1024

def shouldRejectCheapHeuristics (messageId : String) (envelopeLen : Nat) : Option String :=
  if messageId.isEmpty then some "relay_message_id_empty"
  else if relayMaxMessageIdLen < messageId.utf8ByteSize then some "relay_message_id_too_long"
  else if envelopeLen = 0 then some "relay_envelope_empty"
  else if relayMaxEnvelopeBytes < envelopeLen then some "relay_envelope_too_large"
  else none

namespace RelayNode

def new : RelayNode := ⟨.inMemory, ∅, 0, [], []⟩

/-- Dispatch waiting records until too many are in flight. -/
def dispatchRecords (env : PullEnv) (destinationPeer : PeerId) :
    List CustodyMessage → RelayNode → RelayNode
  | [], node => node
  | custody :: rest, node =>
    if env.maxInflightDispatches ≤ node.pendingCustodyDispatches.keys.length then node
    else
      match node.store.markDispatching env.nowMs destinationPeer.text custody.custodyId with
      | .error _ => dispatchRecords env destinationPeer rest node
      | .ok store =>
        dispatchRecords env destinationPeer rest { node with
          store := store
          pendingCustodyDispatches := node.pendingCustodyDispatches.insert node.nextRequestId
            ⟨destinationPeer, custody.custodyId, custody.relayMessageId⟩
          nextRequestId := node.nextRequestId + 1
          dispatched := node.dispatched ++ [{
            destinationPeer := destinationPeer
            custodyId := custody.custodyId
            relayMessageId := custody.relayMessageId
            envelopeData := wrapInDriftFrame crc32 custody.envelopeData }] }

def dispatchPendingCustodyForPeer (env : PullEnv) (destinationPeer : PeerId) (node : RelayNode) :
    RelayNode :=
  if env.blocked then node
  else if ¬ env.connected then node
  else if env.maxInflightDispatches ≤ node.pendingCustodyDispatches.keys.length then node
  else dispatchRecords crc32 env destinationPeer
    (node.store.pendingForDestination destinationPeer.text 64) node

def takeDispatch (node : RelayNode) (requestId : Nat) : Option PendingCustodyDispatch × RelayNode :=
  (node.pendingCustodyDispatches.lookup requestId, { node with
    pendingCustodyDispatches := node.pendingCustodyDispatches.erase requestId })

/-- Whether a request comes before the custody store, with the recipient's identity and device. -/
def admission (node : RelayNode) (request : RelayRequest) (env : AdmissionEnv) :
    Except String (Option String × Option String) :=
  if env.peerBlocked then .error "blocked"
  else
    match shouldRejectCheapHeuristics request.messageId request.envelopeData.length with
    | some reason => .error reason
    | none =>
      if env.relayBudgetExhausted then .error "relay_budget_exhausted"
      else if relayMaxInflightDispatches ≤ node.pendingCustodyDispatches.keys.length then
        .error "relay_inflight_capped"
      else if env.peerRejected then .error "relay_peer_rejected"
      else env.custodyMetadata

/-- What is taken into custody is dispatched at once to a connected destination. -/
def handleRelayRequest (policy : CustodyPolicy) (node : RelayNode) (source : String)
    (request : RelayRequest) (env : AdmissionEnv) : RelayNode :=
  match node.admission request env with
  | .error _ => node
  | .ok (identityId, deviceId) =>
    if env.recentDuplicate then node
    else
      let custodyRequest : CustodyRequest := ⟨source, request.destinationPeer, request.messageId,
        request.envelopeData, identityId, deviceId⟩
      let acceptance := node.store.acceptCustody policy env.nowMs env.sequence custodyRequest
      match acceptance.result with
      | .error _ => { node with store := acceptance.store }
      | .ok _ =>
        dispatchPendingCustodyForPeer crc32
          ⟨env.destinationBlocked, env.destinationConnected, relayMaxInflightDispatches, env.nowMs⟩
          request.destinationPeer
          { node with store := acceptance.store, requests := node.requests ++ [custodyRequest] }

def step (policy : CustodyPolicy) (node : RelayNode) : RelayEvent → RelayNode
  | .request source request env => node.handleRelayRequest crc32 policy source request env
  | .pull destinationPeer env => node.dispatchPendingCustodyForPeer crc32 env destinationPeer
  | .failed requestId nowMs =>
    match node.takeDispatch requestId with
    | (none, node) => node
    | (some dispatch, node) =>
      match node.store.markDispatchFailed nowMs dispatch.destinationPeer.text dispatch.custodyId with
      | .error _ => node
      | .ok store => { node with store := store }
  | .delivered requestId =>
    match node.takeDispatch requestId with
    | (none, node) => node
    | (some dispatch, node) =>
      match node.store.markDelivered dispatch.destinationPeer.text dispatch.custodyId with
      | .error _ => node
      | .ok store => { node with store := store }

end RelayNode

/-! ## The recipient -/

def relayControlMaxBytes : Nat := 64 * 1024

def RelayMessage.isDiscovery : RelayMessage → Bool
  | .peerJoined _ => true
  | .peerListResponse _ => true
  | .peerLeft _ => true
  | _ => false

/-- Whether a payload is taken for a discovery message, which is handled and not reported. -/
def isDiscoveryPayload (payload : Bytes) : Bool :=
  payload.length ≤ relayControlMaxBytes && (RelayMessage.fromBytes payload).any (·.isDiscovery)

/-- The bytes reported in `MessageReceived`, if any: one frame is removed, where there is one. -/
def handleMessagingRequest (envelopeData : Bytes) : Option Bytes :=
  let envelopePayload := match DriftFrame.fromBytes crc32 envelopeData with
    | .ok frame => frame.payload
    | .error _ => envelopeData
  if isDiscoveryPayload envelopePayload then none else some envelopePayload

variable {crc32}

/-! ## Frames on the way -/

section

variable {data : Bytes}

theorem toBytes_wrap (h : 1 + data.length ≤ 65535) :
    (⟨.data, data⟩ : DriftFrame).toBytes crc32 = .ok (wrapInDriftFrame crc32 data) := by
  rw [wrapInDriftFrame, DriftFrame.toBytes_eq_ok h]

theorem wrap_length (h : 1 + data.length ≤ 65535) :
    (wrapInDriftFrame crc32 data).length = data.length + 7 :=
  DriftFrame.toBytes_length (toBytes_wrap h)

theorem wrap_of_big (h : 65535 < 1 + data.length) : wrapInDriftFrame crc32 data = data := by
  simp only [wrapInDriftFrame, DriftFrame.toBytes, if_pos h]

theorem handle_wrap (h : 1 + data.length ≤ 65535) :
    handleMessagingRequest crc32 (wrapInDriftFrame crc32 data)
      = if isDiscoveryPayload data then none else some data := by
  rw [handleMessagingRequest, DriftFrame.fromBytes_toBytes (toBytes_wrap h)]

theorem handle_wrap_iff (h : 1 + data.length ≤ 65535) :
    handleMessagingRequest crc32 (wrapInDriftFrame crc32 data) = some data
      ↔ isDiscoveryPayload data = false := by
  rw [handle_wrap h]
  cases isDiscoveryPayload data <;> simp

theorem handle_wrap_wrap_iff (h : 1 + data.length ≤ 65535) :
    handleMessagingRequest crc32 (wrapInDriftFrame crc32 (wrapInDriftFrame crc32 data)) = some data
      ↔ isDiscoveryPayload data = false ∧ 65528 ≤ data.length := by
  have hl : (wrapInDriftFrame crc32 data).length = data.length + 7 := wrap_length h
  by_cases hf : 1 + (wrapInDriftFrame crc32 data).length ≤ 65535
  · rw [handle_wrap hf]
    constructor
    · intro hs
      have he : wrapInDriftFrame crc32 data = data := by
        split at hs
        · cases hs
        · exact Option.some.inj hs
      rw [he] at hl
      omega
    · rintro ⟨-, hb⟩
      omega
  · rw [wrap_of_big (by omega), handle_wrap_iff h]
    constructor
    · intro hd
      exact ⟨hd, by omega⟩
    · exact And.left

end

/-! ## What a relay dispatches -/

/-- A dispatch is a frame around the envelope of a request. -/
structure Wraps (crc32 : Bytes → UInt32) (dispatch : CustodyDispatch) (request : CustodyRequest) :
    Prop where
  destination : dispatch.destinationPeer = request.destinationPeerId
  messageId : dispatch.relayMessageId = request.relayMessageId
  envelope : dispatch.envelopeData = wrapInDriftFrame crc32 request.envelopeData

/-- Records and dispatches all come from the requests. -/
structure RelayInv (crc32 : Bytes → UInt32) (node : RelayNode) : Prop where
  records : RelayCustodyStore.Provenance node.requests node.store
  dispatched : ∀ dispatch ∈ node.dispatched, ∃ request ∈ node.requests, Wraps crc32 dispatch request

theorem destination_of_mem_pending {s : RelayCustodyStore} {p : PeerId} {l : Nat}
    {r : CustodyMessage} (h : r ∈ s.pendingForDestination p.text l) :
    r ∈ s.records ∧ r.destinationPeerId = p := by
  obtain ⟨hm, hk, -⟩ := RelayCustodyStore.mem_of_mem_pending h
  have ht := (RelayCustodyStore.startsWith_key_iff p.underscore_notMem r).mp hk
  exact ⟨hm, PeerId.text_inj.mp ht⟩

namespace RelayInv

open RelayCustodyStore

theorem dispatchRecords (env : PullEnv) (d : PeerId) :
    ∀ (p : List CustodyMessage) (n : RelayNode), RelayInv crc32 n →
      (∀ cu ∈ p, cu.destinationPeerId = d
        ∧ ∃ r ∈ n.requests, Keeps cu r) →
      RelayInv crc32 (n.dispatchRecords crc32 env d p) := by
  intro p
  induction p with
  | nil => intro n h _; simpa only [RelayNode.dispatchRecords] using h
  | cons cu re ih =>
    intro n h hp
    have hre := fun c hc => hp c (List.mem_cons_of_mem _ hc)
    simp only [RelayNode.dispatchRecords]
    split
    · exact h
    · split
      · exact ih n h hre
      · rename_i store hm
        refine ih _ ⟨h.records.markDispatching hm, fun di hd => ?_⟩ hre
        rcases mem_concat.mp hd with ho | rfl
        · exact h.dispatched di ho
        · obtain ⟨hde, r, hr, hk⟩ := hp cu (by simp)
          exact ⟨r, hr, hde.symm.trans hk.destination, hk.messageId,
            congrArg (wrapInDriftFrame crc32) hk.envelope⟩

theorem takeDispatch {n n' : RelayNode} (h : RelayInv crc32 n) {r : Nat}
    {p : Option PendingCustodyDispatch} (ht : n.takeDispatch r = (p, n')) :
    RelayInv crc32 n' := by
  obtain rfl : (n.takeDispatch r).2 = n' := congrArg Prod.snd ht
  exact ⟨h.records, h.dispatched⟩

theorem dispatchPendingCustodyForPeer {n : RelayNode} (h : RelayInv crc32 n) (env : PullEnv) (d : PeerId) :
    RelayInv crc32 (n.dispatchPendingCustodyForPeer crc32 env d) := by
  unfold RelayNode.dispatchPendingCustodyForPeer
  split
  · exact h
  · split
    · exact h
    · split
      · exact h
      · refine RelayInv.dispatchRecords env d _ n h fun c hc => ?_
        obtain ⟨hme, hde⟩ := destination_of_mem_pending hc
        exact ⟨hde, h.records c hme⟩

theorem handleRelayRequest (p : CustodyPolicy) {n : RelayNode} (h : RelayInv crc32 n) (so : String)
    (re : RelayRequest) (env : AdmissionEnv) :
    RelayInv crc32 (n.handleRelayRequest crc32 p so re env) := by
  unfold RelayNode.handleRelayRequest
  split
  · exact h
  · split
    · exact h
    · rename_i i d _ _
      have ha := h.records.accept p env.nowMs env.sequence
        ⟨so, re.destinationPeer, re.messageId, re.envelopeData, i, d⟩
      simp only
      split
      · next hr =>
        rw [hr] at ha
        exact ⟨ha, h.dispatched⟩
      · next hr =>
        rw [hr] at ha
        refine dispatchPendingCustodyForPeer ⟨ha, fun di hd => ?_⟩ _ _
        obtain ⟨q, hq, hw⟩ := h.dispatched di hd
        exact ⟨q, List.mem_append_left _ hq, hw⟩

theorem step (p : CustodyPolicy) {n : RelayNode} (h : RelayInv crc32 n) (e : RelayEvent) :
    RelayInv crc32 (n.step crc32 p e) := by
  cases e with
  | request so re env => exact h.handleRelayRequest p so re env
  | pull d env => exact h.dispatchPendingCustodyForPeer env d
  | failed r nm =>
    simp only [RelayNode.step]
    split
    · rename_i hta
      exact h.takeDispatch hta
    · rename_i hta
      have ht := h.takeDispatch hta
      split
      · exact ht
      · rename_i hm
        exact ⟨ht.records.markDispatchFailed hm, ht.dispatched⟩
  | delivered r =>
    simp only [RelayNode.step]
    split
    · rename_i hta
      exact h.takeDispatch hta
    · rename_i hta
      have ht := h.takeDispatch hta
      split
      · exact ht
      · rename_i hm
        exact ⟨ht.records.markDelivered hm, ht.dispatched⟩

end RelayInv

/-- What a relay dispatches is a frame around an envelope it was given for that message. -/
theorem dispatched_wraps (crc32 : Bytes → UInt32) (p : CustodyPolicy) (e : List RelayEvent) :
    RelayInv crc32 (e.foldl (RelayNode.step crc32 p) .new) := by
  have hi : RelayInv crc32 .new :=
    ⟨by simp [RelayNode.new, RelayCustodyStore.inMemory, RelayCustodyStore.Provenance],
      by simp [RelayNode.new]⟩
  exact List.foldlRecOn e _ hi fun n h ev _ => h.step p ev

/-! ## Transparency -/

/-- A relay that refuses nothing, has room for a dispatch, and holds nothing for the connected destination. -/
structure Welcomes (policy : CustodyPolicy) (env : AdmissionEnv) (node : RelayNode)
    (destinationPeer : PeerId) : Prop where
  custody : ∀ identityId deviceId, policy.enforceCustody identityId deviceId = .ok ()
  storage : ∀ store message, (policy.enforceStoragePressure store message).refused = none
  peer : env.peerBlocked = false ∧ env.peerRejected = false
  budget : env.relayBudgetExhausted = false
  metadata : ∃ ids, env.custodyMetadata = .ok ids
  first : env.recentDuplicate = false
  destination : env.destinationBlocked = false ∧ env.destinationConnected = true
  room : node.pendingCustodyDispatches.keys.length < relayMaxInflightDispatches
  alone : ∀ r ∈ node.store.records, r.destinationPeerId ≠ destinationPeer

/-- The submitted bytes are reported, through a relay in every run without others under the identifier. -/
def Transparent (crc32 : Bytes → UInt32) (route : RankedRoute) (messageId : String)
    (targetPeer : PeerId) (data : Bytes) (recipientIdentityId intendedDeviceId : Option String) :
    Prop :=
  match dispatchRankedRoute crc32 route messageId targetPeer data recipientIdentityId
      intendedDeviceId with
  | .messaging _ envelopeData => handleMessagingRequest crc32 envelopeData = some data
  | .relay _ request => ∀ (policy : CustodyPolicy) (events : List RelayEvent),
      let node := events.foldl (RelayNode.step crc32 policy) .new
      (∀ r ∈ node.requests, r.destinationPeerId = request.destinationPeer →
        r.relayMessageId = request.messageId → r.envelopeData = request.envelopeData) →
      (∀ dispatch ∈ node.dispatched, dispatch.destinationPeer = request.destinationPeer →
        dispatch.relayMessageId = request.messageId →
        handleMessagingRequest crc32 dispatch.envelopeData = some data)
      ∧ ∀ source env, Welcomes policy env node request.destinationPeer →
        ∃ dispatch, (node.step crc32 policy (.request source request env)).dispatched
            = node.dispatched ++ [dispatch]
          ∧ dispatch.destinationPeer = request.destinationPeer
          ∧ dispatch.relayMessageId = request.messageId
          ∧ handleMessagingRequest crc32 dispatch.envelopeData = some data

theorem shouldRejectCheapHeuristics_eq_none_iff {m : String} {n : Nat} :
    shouldRejectCheapHeuristics m n = none
      ↔ m ≠ "" ∧ m.utf8ByteSize ≤ relayMaxMessageIdLen ∧ n ≠ 0 ∧ n ≤ relayMaxEnvelopeBytes := by
  unfold shouldRejectCheapHeuristics
  rw [← String.isEmpty_eq_false_iff]
  split_ifs with he hl hn hm
  · simp [he]
  · exact iff_of_false nofun fun h => absurd h.2.1 (Nat.not_le.mpr hl)
  · exact iff_of_false nofun fun h => h.2.2.1 hn
  · exact iff_of_false nofun fun h => absurd h.2.2.2 (Nat.not_le.mpr hm)
  · simp [he, Nat.not_lt.mp hl, hn, Nat.not_lt.mp hm]

section

variable {policy : CustodyPolicy} {env : AdmissionEnv} {node : RelayNode} (re : RelayRequest)

theorem Welcomes.admission_eq (hw : Welcomes policy env node re.destinationPeer) :
    node.admission re env = match shouldRejectCheapHeuristics re.messageId re.envelopeData.length with
      | some reason => .error reason
      | none => env.custodyMetadata := by
  simp only [RelayNode.admission, hw.peer, hw.budget, Nat.not_le.mpr hw.room, if_false, Bool.false_eq_true]

/-- A relay that welcomes a message dispatches it, if its checks let it pass. -/
theorem Welcomes.dispatches (crc32 : Bytes → UInt32) (hw : Welcomes policy env node re.destinationPeer)
    (hok : shouldRejectCheapHeuristics re.messageId re.envelopeData.length = none) (so : String) :
    ∃ custodyId, (node.step crc32 policy (.request so re env)).dispatched = node.dispatched
      ++ [⟨re.destinationPeer, custodyId, re.messageId, wrapInDriftFrame crc32 re.envelopeData⟩] := by
  obtain ⟨⟨i, d⟩, hids⟩ := hw.metadata
  have had : node.admission re env = .ok (i, d) := by
    rw [hw.admission_eq re, hok]
    exact hids
  obtain ⟨record, p, hf, ha⟩ := RelayCustodyStore.acceptCustody_of_alone hw.alone hw.custody hw.storage
    env.nowMs env.sequence ⟨so, re.destinationPeer, re.messageId, re.envelopeData, i, d⟩ rfl
  have hpe : ((node.store.purge p).putMessage record).pendingForDestination re.destinationPeer.text 64
      = [record] :=
    RelayCustodyStore.pendingForDestination_put_of_alone
      (fun r hr => hw.alone r (RelayCustodyStore.mem_purge.mp hr).1) hf.destination hf.state (by decide)
  obtain ⟨store', hm⟩ : ∃ store', ((node.store.purge p).putMessage record).markDispatching env.nowMs
      re.destinationPeer.text record.custodyId = .ok store' := by
    have hk : record.key = RelayCustodyStore.messageKey re.destinationPeer.text record.custodyId := by
      rw [CustodyMessage.key, hf.destination]
    rw [RelayCustodyStore.markDispatching, RelayCustodyStore.requireRecord_ok_iff.mpr
      ⟨RelayCustodyStore.mem_putMessage.mpr (.inr rfl), hk⟩]
    simp [hf.state, hf.attempts, maxDeliveryAttempts]
  refine ⟨record.custodyId, ?_⟩
  simp only [RelayNode.step, RelayNode.handleRelayRequest, had, hw.first, ha,
    RelayNode.dispatchPendingCustodyForPeer, hw.destination, Nat.not_le.mpr hw.room, hpe,
    RelayNode.dispatchRecords, hm, hf.relayMessageId, hf.envelope, not_true, if_false, Bool.false_eq_true]

end

theorem dispatchRankedRoute_of_relay {ro : RankedRoute} (hro : ro.path.length ≠ 1) (m : String) (t : PeerId)
    (data : Bytes) (i d : Option String) :
    dispatchRankedRoute crc32 ro m t data i d
      = .relay (ro.path.head ro.nonempty) ⟨t, wrapInDriftFrame crc32 data, m, i, d⟩ := by
  simp [dispatchRankedRoute, hro]

def welcomingEnv : AdmissionEnv where
  peerBlocked := false
  relayBudgetExhausted := false
  peerRejected := false
  custodyMetadata := .ok (none, none)
  recentDuplicate := false
  destinationBlocked := false
  destinationConnected := true
  nowMs := 0
  sequence := 0

theorem welcomes_new (t : PeerId) : Welcomes openPolicy welcomingEnv .new t where
  custody _ _ := rfl
  storage _ _ := rfl
  peer := ⟨rfl, rfl⟩
  budget := rfl
  metadata := ⟨_, rfl⟩
  first := rfl
  destination := ⟨rfl, rfl⟩
  room := by decide
  alone := nofun

theorem transparent_relay_iff {ro : RankedRoute} (hro : ro.path.length ≠ 1) {m : String} {t : PeerId}
    {data : Bytes} {i d : Option String} :
    Transparent crc32 ro m t data i d
      ↔ shouldRejectCheapHeuristics m (wrapInDriftFrame crc32 data).length = none
        ∧ handleMessagingRequest crc32 (wrapInDriftFrame crc32 (wrapInDriftFrame crc32 data)) = some data := by
  rw [Transparent, dispatchRankedRoute_of_relay hro]
  constructor
  · intro h
    -- the run is empty, and the relay is given the message
    obtain ⟨dispatch, hd, -, -, hda⟩ := (h openPolicy [] nofun).2 "sender" welcomingEnv (welcomes_new t)
    cases hre : shouldRejectCheapHeuristics m (wrapInDriftFrame crc32 data).length with
    | some reason =>
      have had : RelayNode.new.admission ⟨t, wrapInDriftFrame crc32 data, m, i, d⟩ welcomingEnv = .error reason := by
        rw [Welcomes.admission_eq _ (welcomes_new t)]
        simp only [hre]
      simp [RelayNode.step, RelayNode.handleRelayRequest, had] at hd
    | none =>
      obtain ⟨custodyId, hd'⟩ := Welcomes.dispatches ⟨t, wrapInDriftFrame crc32 data, m, i, d⟩ crc32
        (welcomes_new t) hre "sender"
      rw [List.foldl_nil, hd'] at hd
      obtain rfl := List.singleton_inj.mp (List.append_cancel_left hd)
      exact ⟨rfl, hda⟩
  · rintro ⟨hre, h⟩ p e node ho
    refine ⟨fun di hd hde hm => ?_, fun so env hw => ?_⟩
    · obtain ⟨r, hr, hwr⟩ := (dispatched_wraps crc32 p e).dispatched di hd
      have hda := ho r hr (hwr.destination.symm.trans hde) (hwr.messageId.symm.trans hm)
      rw [hwr.envelope, hda]
      exact h
    · obtain ⟨custodyId, hd⟩ := Welcomes.dispatches _ crc32 hw hre so
      exact ⟨_, hd, rfl, rfl, h⟩

/-- **Relay transparency** exactly for bytes that are no discovery message and are framed once. -/
theorem transparent_iff (crc32 : Bytes → UInt32) (route : RankedRoute) (messageId : String)
    (targetPeer : PeerId) (data : Bytes) (identityId deviceId : Option String)
    (hfits : 1 + data.length ≤ 65535) :
    Transparent crc32 route messageId targetPeer data identityId deviceId
      ↔ isDiscoveryPayload data = false ∧ (route.path.length = 1
        ∨ 65528 ≤ data.length ∧ data.length ≤ 65529 ∧ messageId ≠ "" ∧ messageId.utf8ByteSize ≤ 160) := by
  by_cases hr : route.path.length = 1
  · simp only [Transparent, dispatchRankedRoute, hr, if_true, true_or, and_true]
    exact handle_wrap_iff hfits
  · rw [transparent_relay_iff hr, handle_wrap_wrap_iff hfits, wrap_length hfits,
      shouldRejectCheapHeuristics_eq_none_iff]
    simp only [hr, false_or, relayMaxMessageIdLen, relayMaxEnvelopeBytes]
    constructor
    · rintro ⟨⟨hm, hl, -, hb⟩, hd, hs⟩
      exact ⟨hd, hs, by omega, hm, hl⟩
    · rintro ⟨hd, hs, hb, hm, hl⟩
      exact ⟨⟨hm, hl, by omega, by omega⟩, hd, hs⟩

def carrierPeer : PeerId := .ofText "carrier" (by decide)

def directRoute : RankedRoute := ⟨[bobPeer], by simp⟩
def relayRoute : RankedRoute := ⟨[carrierPeer, bobPeer], by simp⟩

/-- No relay message has an index of 14 or more. -/
theorem isDiscoveryPayload_of_index {a b c d : UInt8} (h : 14 ≤ leNat [a, b, c, d]) (t : Bytes) :
    isDiscoveryPayload (a :: b :: c :: d :: t) = false := by
  obtain ⟨k, hk⟩ := Nat.exists_eq_add_of_le' h
  have hn : RelayMessage.fromBytes (a :: b :: c :: d :: t) = none := by
    unfold RelayMessage.fromBytes
    split
    · rfl
    · simp [Codec.uint, hk, RelayMessage.decodeVariant]
  rw [isDiscoveryPayload, hn, Option.any_none, Bool.and_false]

def bigEnvelope : Bytes := 255 :: 255 :: 255 :: 255 :: List.replicate 65524 0

/-- A short envelope on a direct route, and one through a relay that fills its frame. -/
theorem transparent_direct_and_relayed :
    Transparent (fun _ => 0) directRoute "message-1" bobPeer [1, 1, 42] none none
      ∧ Transparent (fun _ => 0) relayRoute "message-1" bobPeer bigEnvelope none none := by
  have hl : bigEnvelope.length = 65528 := by
    rw [bigEnvelope, List.length_cons, List.length_cons, List.length_cons, List.length_cons,
      List.length_replicate]
  refine ⟨(transparent_iff _ directRoute "message-1" bobPeer [1, 1, 42] none none (by decide)).mpr
    ⟨by decide, .inl rfl⟩, ?_⟩
  rw [transparent_iff _ relayRoute "message-1" bobPeer bigEnvelope none none (by omega)]
  exact ⟨isDiscoveryPayload_of_index (by decide) _, .inr ⟨by omega, by omega, by decide, by decide⟩⟩

/-- A short envelope through a relay is reported with the sender's frame around it. -/
theorem relayed_envelope_keeps_frame :
    ¬ Transparent (fun _ => 0) relayRoute "message-1" bobPeer [1, 1, 42] none none
      ∧ handleMessagingRequest (fun _ => 0)
          (wrapInDriftFrame (fun _ => 0) (wrapInDriftFrame (fun _ => 0) [1, 1, 42]))
        = some (wrapInDriftFrame (fun _ => 0) [1, 1, 42]) := by
  have hl : (wrapInDriftFrame (fun _ => 0) [1, 1, 42]).length = 10 := wrap_length (by decide)
  constructor
  · rw [transparent_relay_iff (by decide), handle_wrap_wrap_iff (by decide)]
    exact fun h => absurd h.2.2 (by decide)
  · rw [handle_wrap (by omega)]
    exact if_neg (Bool.eq_false_iff.mp (isDiscoveryPayload_of_index (by decide) _))

end SCMessenger
