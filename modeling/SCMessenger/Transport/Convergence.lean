import SCMessenger.Transport.Swarm

/-!
# Delivery convergence markers

Any peer may send a marker and chooses both its message identifier and its destination, which is compared
for custody only.  Where a request was sent to is in no table; it is a parameter (`target`).
-/

namespace SCMessenger

/-! ## Markers -/

/-- A notice that a message was delivered. -/
structure DeliveryConvergenceMarker where
  relayMessageId : String
  destinationPeerId : String
  observedByPeerId : String
  observedAtMs : Nat

def deliveryConvergenceMaxClockSkewMs : Nat := 24 * 60 * 60 * 1000

def validateDeliveryConvergenceMarkerShape (marker : DeliveryConvergenceMarker) (nowMs : Nat) :
    Except String Unit :=
  if marker.relayMessageId.isEmpty then .error "marker_message_id_empty"
  else if relayMaxMessageIdLen < marker.relayMessageId.utf8ByteSize then
    .error "marker_message_id_too_long"
  else if marker.destinationPeerId.isEmpty then .error "marker_destination_empty"
  else if marker.observedByPeerId.isEmpty then .error "marker_observed_by_empty"
  else if marker.observedAtMs < nowMs then
    if deliveryConvergenceMaxClockSkewMs < nowMs - marker.observedAtMs then .error "marker_too_old"
    else .ok ()
  else if deliveryConvergenceMaxClockSkewMs < marker.observedAtMs - nowMs then
    .error "marker_from_future"
  else .ok ()

/-! ## The tables of a node -/

/-- A message that was not confirmed yet. -/
structure PendingMessage where
  targetPeer : PeerId
  envelopeData : Bytes
  recipientIdentityId : Option String
  intendedDeviceId : Option String
deriving DecidableEq

/-- The retries of a message. -/
structure DeliveryAttempt where
  targetPeer : PeerId
  attempt : Nat
deriving DecidableEq

/-- The tables of the event loop that name a message. -/
structure DeliveryTables where
  pendingMessages : Table String PendingMessage
  requestToMessage : Table Nat String
  pendingRelayRequests : Table Nat String
  pendingCustodyDispatches : Table Nat PendingCustodyDispatch
  attempts : Table String DeliveryAttempt
  relayCustodyStore : RelayCustodyStore

namespace DeliveryConvergenceMarker

def covers (marker : DeliveryConvergenceMarker) (dispatch : PendingCustodyDispatch) : Bool :=
  dispatch.relayMessageId = marker.relayMessageId
    ∧ dispatch.destinationPeer.text = marker.destinationPeerId

end DeliveryConvergenceMarker

namespace DeliveryTables

def shouldApplyDeliveryConvergenceMarker (tables : DeliveryTables) (nowMs : Nat)
    (marker : DeliveryConvergenceMarker) : Except String Unit :=
  match validateDeliveryConvergenceMarkerShape marker nowMs with
  | .error e => .error e
  | .ok () =>
    let trackedLocally := (tables.pendingMessages.lookup marker.relayMessageId).isSome
      || tables.requestToMessage.anyValue (· = marker.relayMessageId)
      || tables.pendingRelayRequests.anyValue (· = marker.relayMessageId)
      || tables.pendingCustodyDispatches.anyValue marker.covers
      || tables.relayCustodyStore.hasMessageForDestination marker.destinationPeerId
        marker.relayMessageId
    if trackedLocally then .ok () else .error "marker_not_locally_tracked"

/-- Finish the custody of the dispatches dropped; one without a record is passed over. -/
def markDispatchesDelivered (store : RelayCustodyStore) (dispatches : List PendingCustodyDispatch) :
    RelayCustodyStore :=
  dispatches.foldl (fun store dispatch =>
    match store.markDelivered dispatch.destinationPeer.text dispatch.custodyId with
    | .ok store => store
    | .error _ => store) store

/-- Drop everything tracked for a marker; the sender is told of the delivery. -/
def applyDeliveryConvergenceMarker (tables : DeliveryTables) (marker : DeliveryConvergenceMarker) :
    Option PendingMessage × DeliveryTables :=
  let (removedDispatches, dispatches) := tables.pendingCustodyDispatches.purge marker.covers
  let store := markDispatchesDelivered tables.relayCustodyStore removedDispatches
  (tables.pendingMessages.lookup marker.relayMessageId, {
    pendingMessages := tables.pendingMessages.erase marker.relayMessageId
    requestToMessage := (tables.requestToMessage.purge (· = marker.relayMessageId)).2
    pendingRelayRequests := (tables.pendingRelayRequests.purge (· = marker.relayMessageId)).2
    pendingCustodyDispatches := dispatches
    attempts := tables.attempts.erase marker.relayMessageId
    relayCustodyStore := store.convergeDeliveredForMessage marker.destinationPeerId
      marker.relayMessageId })

end DeliveryTables

/-! ## What belongs to a destination -/

variable (target : Nat → PeerId)

/-- Everything for other destinations is as it was. -/
structure Confined (destination : String) (before after : DeliveryTables) : Prop where
  messages : ∀ id p, p.targetPeer.text ≠ destination →
    (after.pendingMessages.lookup id = some p ↔ before.pendingMessages.lookup id = some p)
  attempts : ∀ id a, a.targetPeer.text ≠ destination →
    (after.attempts.lookup id = some a ↔ before.attempts.lookup id = some a)
  requests : ∀ id m, (target id).text ≠ destination →
    (after.requestToMessage.lookup id = some m ↔ before.requestToMessage.lookup id = some m)
  relayRequests : ∀ id m, (target id).text ≠ destination →
    (after.pendingRelayRequests.lookup id = some m ↔ before.pendingRelayRequests.lookup id = some m)
  dispatches : ∀ id d, d.destinationPeer.text ≠ destination →
    (after.pendingCustodyDispatches.lookup id = some d
      ↔ before.pendingCustodyDispatches.lookup id = some d)
  records : ∀ r, r.destinationPeerId.text ≠ destination →
    (r ∈ after.relayCustodyStore.records ↔ r ∈ before.relayCustodyStore.records)

def TrackedFor (destination m : String) (tables : DeliveryTables) : Prop :=
  (∃ p, tables.pendingMessages.lookup m = some p ∧ p.targetPeer.text = destination)
    ∨ (∃ id, tables.requestToMessage.lookup id = some m ∧ (target id).text = destination)
    ∨ (∃ id, tables.pendingRelayRequests.lookup id = some m ∧ (target id).text = destination)
    ∨ (∃ id d, tables.pendingCustodyDispatches.lookup id = some d ∧ d.relayMessageId = m
      ∧ d.destinationPeer.text = destination)
    ∨ ∃ r ∈ tables.relayCustodyStore.records, r.relayMessageId = m
      ∧ r.destinationPeerId.text = destination

/-- Whatever is found under a message identifier is for one destination. -/
structure OnlyFor (destination m : String) (tables : DeliveryTables) : Prop where
  messages : ∀ p, tables.pendingMessages.lookup m = some p → p.targetPeer.text = destination
  attempts : ∀ a, tables.attempts.lookup m = some a → a.targetPeer.text = destination
  requests : ∀ id, tables.requestToMessage.lookup id = some m → (target id).text = destination
  relayRequests : ∀ id, tables.pendingRelayRequests.lookup id = some m →
    (target id).text = destination
  records : ∀ r ∈ tables.relayCustodyStore.records,
    startsWith (RelayCustodyStore.destinationPrefix destination) r.key = true → r.relayMessageId = m →
      r.destinationPeerId.text = destination

/-! ## What a marker does -/

variable {target}

section Custody

open RelayCustodyStore

variable {store : RelayCustodyStore} {destination m : String} {r : CustodyMessage}

theorem markDelivered_frame {p : PeerId} {c : String} {s' : RelayCustodyStore}
    (hm : store.markDelivered p.text c = .ok s') :
    (∀ r ∈ s'.records, r ∈ store.records)
      ∧ ∀ r ∈ store.records, r.destinationPeerId ≠ p → r ∈ s'.records := by
  rcases markDelivered_ok hm with ⟨rfl, -⟩ | rfl
  · exact ⟨fun _ hr => hr, fun _ hr _ => hr⟩
  · refine ⟨fun r hr => (mem_removeMessage.mp hr).1, fun r hr ho => ?_⟩
    refine mem_removeMessage.mpr ⟨hr, fun hk => ho ?_⟩
    have hd := (RelayCustodyStore.messageKey_inj r.destinationPeerId.underscore_notMem
      p.underscore_notMem hk).1
    exact PeerId.text_inj.mp hd

theorem markDispatchesDelivered_frame (store : RelayCustodyStore) {di : List PendingCustodyDispatch}
    (ha : ∀ d ∈ di, d.destinationPeer.text = destination) :
    (∀ r ∈ (DeliveryTables.markDispatchesDelivered store di).records, r ∈ store.records)
      ∧ ∀ r ∈ store.records, r.destinationPeerId.text ≠ destination →
        r ∈ (DeliveryTables.markDispatchesDelivered store di).records := by
  induction di generalizing store with
  | nil => exact ⟨fun _ hr => hr, fun _ hr _ => hr⟩
  | cons d di ih =>
    have hre := fun store => ih store fun d hd => ha d (List.mem_cons_of_mem _ hd)
    simp only [DeliveryTables.markDispatchesDelivered, List.foldl_cons]
    cases hm : store.markDelivered d.destinationPeer.text d.custodyId with
    | error e => exact hre store
    | ok s' =>
      obtain ⟨hs, hk⟩ := markDelivered_frame hm
      obtain ⟨hs', hk'⟩ := hre s'
      refine ⟨fun r hr => hs r (hs' r hr), fun r hr ho => hk' r (hk r hr ?_) ho⟩
      intro hde
      exact ho (hde ▸ ha d List.mem_cons_self)

theorem converge_frame
    (hf : ∀ r ∈ store.records, startsWith (destinationPrefix destination) r.key = true →
      r.relayMessageId = m → r.destinationPeerId.text = destination) (hr : r ∈ store.records)
    (ho : r.destinationPeerId.text ≠ destination) :
    r ∈ (store.convergeDeliveredForMessage destination m).records := by
  refine mem_convergeDeliveredForMessage.mpr ⟨hr, fun r' hr' hk => ho ?_⟩
  obtain ⟨hme, hs, hm, -⟩ := mem_converging.mp hr'
  have hd := hf r' hme hs hm
  refine (RelayCustodyStore.messageKey_inj r.destinationPeerId.underscore_notMem ?_ hk).1
  rw [← hd]
  exact r'.destinationPeerId.underscore_notMem

end Custody

section Markers

variable {tables : DeliveryTables} {marker : DeliveryConvergenceMarker}

theorem applied_messages {id : String} {p : PendingMessage} :
    (tables.applyDeliveryConvergenceMarker marker).2.pendingMessages.lookup id = some p
      ↔ id ≠ marker.relayMessageId ∧ tables.pendingMessages.lookup id = some p :=
  Table.lookup_erase_iff

theorem applied_attempts {id : String} {a : DeliveryAttempt} :
    (tables.applyDeliveryConvergenceMarker marker).2.attempts.lookup id = some a
      ↔ id ≠ marker.relayMessageId ∧ tables.attempts.lookup id = some a :=
  Table.lookup_erase_iff

theorem applied_requests {id : Nat} {m : String} :
    (tables.applyDeliveryConvergenceMarker marker).2.requestToMessage.lookup id = some m
      ↔ tables.requestToMessage.lookup id = some m ∧ m ≠ marker.relayMessageId := by
  show (tables.requestToMessage.purge fun m => decide (m = marker.relayMessageId)).2.lookup id = some m
    ↔ _
  rw [Table.lookup_purge, decide_eq_false_iff_not]

theorem applied_relayRequests {id : Nat} {m : String} :
    (tables.applyDeliveryConvergenceMarker marker).2.pendingRelayRequests.lookup id = some m
      ↔ tables.pendingRelayRequests.lookup id = some m ∧ m ≠ marker.relayMessageId := by
  show (tables.pendingRelayRequests.purge fun m => decide (m = marker.relayMessageId)).2.lookup id
    = some m ↔ _
  rw [Table.lookup_purge, decide_eq_false_iff_not]

theorem applied_dispatches {id : Nat} {d : PendingCustodyDispatch} :
    (tables.applyDeliveryConvergenceMarker marker).2.pendingCustodyDispatches.lookup id = some d
      ↔ tables.pendingCustodyDispatches.lookup id = some d ∧ marker.covers d = false :=
  Table.lookup_purge

theorem applied_records (h : OnlyFor target marker.destinationPeerId marker.relayMessageId tables)
    {r : CustodyMessage} (ho : r.destinationPeerId.text ≠ marker.destinationPeerId) :
    r ∈ (tables.applyDeliveryConvergenceMarker marker).2.relayCustodyStore.records
      ↔ r ∈ tables.relayCustodyStore.records := by
  have ha : ∀ d ∈ (tables.pendingCustodyDispatches.purge marker.covers).1,
      d.destinationPeer.text = marker.destinationPeerId := by
    intro d hd
    obtain ⟨-, -, hc⟩ := Table.mem_removed.mp hd
    exact (of_decide_eq_true hc).2
  obtain ⟨hs, hk⟩ := markDispatchesDelivered_frame tables.relayCustodyStore ha
  constructor
  · intro hr
    exact hs r (RelayCustodyStore.mem_convergeDeliveredForMessage.mp hr).1
  · intro hr
    exact converge_frame (fun r hr => h.records r (hs r hr)) (hk r hr ho) ho

theorem confined_of_onlyFor (h : OnlyFor target marker.destinationPeerId marker.relayMessageId tables) :
    Confined target marker.destinationPeerId tables (tables.applyDeliveryConvergenceMarker marker).2 := by
  refine ⟨fun id p ho => ?_, fun id a ho => ?_, fun id m ho => ?_, fun id m ho => ?_,
    fun id d ho => ?_, fun r ho => applied_records h ho⟩
  · refine applied_messages.trans (and_iff_right_of_imp fun hp hi => ho ?_)
    exact h.messages p (hi ▸ hp)
  · refine applied_attempts.trans (and_iff_right_of_imp fun ha hi => ho ?_)
    exact h.attempts a (hi ▸ ha)
  · refine applied_requests.trans (and_iff_left_of_imp fun hm hi => ho ?_)
    exact h.requests id (hi ▸ hm)
  · refine applied_relayRequests.trans (and_iff_left_of_imp fun hm hi => ho ?_)
    exact h.relayRequests id (hi ▸ hm)
  · refine applied_dispatches.trans (and_iff_left_of_imp fun _ => ?_)
    exact decide_eq_false fun hc => ho hc.2

theorem TrackedFor.underscore_notMem {destination m : String} (h : TrackedFor target destination m tables) :
    '_' ∉ destination.toList := by
  rcases h with ⟨p, -, rfl⟩ | ⟨id, -, rfl⟩ | ⟨id, -, rfl⟩ | ⟨id, d, -, -, rfl⟩ | ⟨r, -, -, rfl⟩
  all_goals exact PeerId.underscore_notMem _

theorem onlyFor_of_confined
    (h : Confined target marker.destinationPeerId tables (tables.applyDeliveryConvergenceMarker marker).2)
    (ht : TrackedFor target marker.destinationPeerId marker.relayMessageId tables) :
    OnlyFor target marker.destinationPeerId marker.relayMessageId tables := by
  refine ⟨fun p hp => ?_, fun a ha => ?_, fun id hi => ?_, fun id hi => ?_,
    fun r _ hs _ => ?_⟩
  · by_contra hother
    exact (applied_messages.mp ((h.messages _ p hother).mpr hp)).1 rfl
  · by_contra hother
    exact (applied_attempts.mp ((h.attempts _ a hother).mpr ha)).1 rfl
  · by_contra hother
    exact (applied_requests.mp ((h.requests id _ hother).mpr hi)).2 rfl
  · by_contra hother
    exact (applied_relayRequests.mp ((h.relayRequests id _ hother).mpr hi)).2 rfl
  · exact (RelayCustodyStore.startsWith_key_iff ht.underscore_notMem r).mp hs

theorem tracked_of_accepted {n : Nat}
    (ha : tables.shouldApplyDeliveryConvergenceMarker n marker = .ok ()) :
    (∃ p, tables.pendingMessages.lookup marker.relayMessageId = some p)
      ∨ (∃ id, tables.requestToMessage.lookup id = some marker.relayMessageId)
      ∨ (∃ id, tables.pendingRelayRequests.lookup id = some marker.relayMessageId)
      ∨ (∃ id d, tables.pendingCustodyDispatches.lookup id = some d ∧ marker.covers d = true)
      ∨ ∃ r ∈ tables.relayCustodyStore.records,
        startsWith (RelayCustodyStore.destinationPrefix marker.destinationPeerId) r.key = true
          ∧ r.relayMessageId = marker.relayMessageId := by
  unfold DeliveryTables.shouldApplyDeliveryConvergenceMarker at ha
  split at ha
  · cases ha
  · simp only at ha
    split at ha
    · rename_i ht
      simp only [Bool.or_eq_true, Table.anyValue_iff, decide_eq_true_eq, Option.isSome_iff_exists]
        at ht
      rcases ht with (((hp | ⟨id, m, hi, rfl⟩) | ⟨id, m, hi, rfl⟩) | hd) | hr
      · exact .inl hp
      · exact .inr (.inl ⟨id, hi⟩)
      · exact .inr (.inr (.inl ⟨id, hi⟩))
      · exact .inr (.inr (.inr (.inl hd)))
      · refine .inr (.inr (.inr (.inr ?_)))
        obtain ⟨r, hr⟩ := Option.isSome_iff_exists.mp hr
        have hm := List.mem_filter.mp (List.mem_of_find?_eq_some hr)
        exact ⟨r, hm.1, hm.2, by simpa using List.find?_some hr⟩
    · cases ha

theorem TrackedFor.of_accepted {n : Nat}
    (ha : tables.shouldApplyDeliveryConvergenceMarker n marker = .ok ())
    (h : OnlyFor target marker.destinationPeerId marker.relayMessageId tables) :
    TrackedFor target marker.destinationPeerId marker.relayMessageId tables := by
  rcases tracked_of_accepted ha with ⟨p, hp⟩ | ⟨id, hi⟩ | ⟨id, hi⟩ | ⟨id, d, hd, hc⟩
    | ⟨r, hr, hs, hm⟩
  · exact .inl ⟨p, hp, h.messages p hp⟩
  · exact .inr (.inl ⟨id, hi, h.requests id hi⟩)
  · exact .inr (.inr (.inl ⟨id, hi, h.relayRequests id hi⟩))
  · obtain ⟨hm, hde⟩ := of_decide_eq_true hc
    exact .inr (.inr (.inr (.inl ⟨id, d, hd, hm, hde⟩)))
  · exact .inr (.inr (.inr (.inr ⟨r, hr, hm, h.records r hr hs hm⟩)))

end Markers

/-- **Markers and their destination**: confined exactly when all tracked under the identifier is for it. -/
theorem marker_confined_iff (target : Nat → PeerId) (tables : DeliveryTables) (nowMs : Nat)
    (marker : DeliveryConvergenceMarker)
    (haccepted : tables.shouldApplyDeliveryConvergenceMarker nowMs marker = .ok ()) :
    (Confined target marker.destinationPeerId tables (tables.applyDeliveryConvergenceMarker marker).2
        ∧ TrackedFor target marker.destinationPeerId marker.relayMessageId tables)
      ↔ OnlyFor target marker.destinationPeerId marker.relayMessageId tables := by
  constructor
  · rintro ⟨hc, ht⟩
    exact onlyFor_of_confined hc ht
  · intro h
    exact ⟨confined_of_onlyFor h, .of_accepted haccepted h⟩

def tablesForBob : DeliveryTables where
  pendingMessages := AList.insert "m1" ⟨bobPeer, [42], none, none⟩ ∅
  requestToMessage := AList.insert 0 "m1" ∅
  pendingRelayRequests := ∅
  pendingCustodyDispatches := ∅
  attempts := AList.insert "m1" ⟨bobPeer, 0⟩ ∅
  relayCustodyStore := .inMemory

def markerFor (destination : String) : DeliveryConvergenceMarker := ⟨"m1", destination, "mallory", 0⟩

theorem marker_confined_bob :
    Confined (fun _ => bobPeer) "bob" tablesForBob
        (tablesForBob.applyDeliveryConvergenceMarker (markerFor "bob")).2
      ∧ TrackedFor (fun _ => bobPeer) "bob" "m1" tablesForBob := by
  have hac : tablesForBob.shouldApplyDeliveryConvergenceMarker 0 (markerFor "bob") = .ok () := by
    decide +kernel
  refine (marker_confined_iff (fun _ => bobPeer) tablesForBob 0 (markerFor "bob") hac).mpr
    ⟨fun p hp => ?_, fun a ha => ?_, fun _ _ => rfl, fun _ _ => rfl, by
      simp [tablesForBob, RelayCustodyStore.inMemory]⟩
  · have hl : tablesForBob.pendingMessages.lookup "m1" = some ⟨bobPeer, [42], none, none⟩ := by
      decide +kernel
    obtain rfl := Option.some.inj (hl.symm.trans hp)
    rfl
  · have hl : tablesForBob.attempts.lookup "m1" = some ⟨bobPeer, 0⟩ := by decide +kernel
    obtain rfl := Option.some.inj (hl.symm.trans ha)
    rfl

/-- Mallory's marker for another destination makes the node stop sending to Bob. -/
theorem marker_drops_foreign :
    tablesForBob.shouldApplyDeliveryConvergenceMarker 0 (markerFor "carrier") = .ok ()
      ∧ tablesForBob.pendingMessages.lookup "m1" = some ⟨bobPeer, [42], none, none⟩
      ∧ (tablesForBob.applyDeliveryConvergenceMarker (markerFor "carrier")).1
        = some ⟨bobPeer, [42], none, none⟩
      ∧ (tablesForBob.applyDeliveryConvergenceMarker (markerFor "carrier")).2.pendingMessages.lookup
          "m1" = none
      ∧ ¬ TrackedFor (fun _ => bobPeer) "carrier" "m1" tablesForBob
      ∧ ¬ Confined (fun _ => bobPeer) "carrier" tablesForBob
          (tablesForBob.applyDeliveryConvergenceMarker (markerFor "carrier")).2 := by
  have hb : tablesForBob.pendingMessages.lookup "m1" = some ⟨bobPeer, [42], none, none⟩ := by
    decide +kernel
  have ha : AList.lookup "m1"
      (tablesForBob.applyDeliveryConvergenceMarker (markerFor "carrier")).2.pendingMessages = none := by
    decide +kernel
  refine ⟨by decide +kernel, hb, by decide +kernel, ha, fun ht => ?_, fun h => ?_⟩
  · have ho : bobPeer.text ≠ "carrier" := by decide
    rcases ht with ⟨p, hp, hde⟩ | ⟨id, -, hde⟩ | ⟨id, -, hde⟩ | ⟨id, d, hd, -⟩ | ⟨r, hr, -⟩
    · obtain rfl := Option.some.inj (hb.symm.trans hp)
      exact ho hde
    · exact ho hde
    · exact ho hde
    · simp [tablesForBob] at hd
    · simp [tablesForBob, RelayCustodyStore.inMemory] at hr
  · have hk := (h.messages "m1" ⟨bobPeer, [42], none, none⟩ (by decide)).mpr hb
    rw [ha] at hk
    cases hk

end SCMessenger
