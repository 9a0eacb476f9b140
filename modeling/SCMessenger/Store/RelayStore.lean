import SCMessenger.Store.RelayRegistry
import SCMessenger.Store.StoragePressure

/-!
# The relay's store as a whole

Custody records, registry, journals and storage pressure (`RelayCustodyStore`).  Every call reads the clock
as often as the source does.
-/

namespace SCMessenger

/-- An entry of the custody log. -/
structure CustodyTransition where
  custodyId : String
  relayMessageId : String
  sourcePeerId : String
  destinationPeerId : PeerId
  fromState : Option CustodyState
  toState : CustodyState
  reason : String
  atMs : Nat
  sequence : Nat
deriving DecidableEq

/-- Both phases take requests that name no device. -/
inductive CustodyCompatMode where
  | phaseA
  | phaseB
deriving DecidableEq, Repr

/-- The records, the log and the registry of a relay. -/
structure RelayStore where
  custody : RelayCustodyStore
  audit : List CustodyTransition
  registry : RelayRegistry
  localIdentity : Option String
  compatMode : CustodyCompatMode

namespace RelayStore

def new (localIdentity : Option String) (compatMode : CustodyCompatMode) : RelayStore :=
  ⟨.inMemory, [], .new, localIdentity, compatMode⟩

variable (clock : Clock) (hash : Bytes → Arr 32)

/-! ## The journal -/

def putMessage (s : RelayStore) (record : CustodyMessage) : RelayStore :=
  { s with custody := s.custody.putMessage record }

def removeMessage (s : RelayStore) (destinationPeerId custodyId : String) : RelayStore :=
  { s with custody := s.custody.removeMessage destinationPeerId custodyId }

def recordTransition (s : RelayStore) (record : CustodyMessage) (fromState : Option CustodyState)
    (toState : CustodyState) (reason : String) : RelayStore :=
  { s with
    audit := s.audit ++ [{
      custodyId := record.custodyId
      relayMessageId := record.relayMessageId
      sourcePeerId := record.sourcePeerId
      destinationPeerId := record.destinationPeerId
      fromState := fromState
      toState := toState
      reason := reason
      atMs := clock.read s.registry.ticks
      sequence := s.registry.sequence }]
    registry := s.registry.tick.takeSequence }

/-! ## Storage pressure -/

def currentScmStorageBytes (s : RelayStore) : Nat :=
  (s.custody.records.map serializedRecordBytes).sum

def purgeRecord (s : RelayStore) (record : CustodyMessage) (reason : String) : RelayStore :=
  (s.recordTransition clock record (some record.state) record.state reason).removeMessage
    record.destinationPeerId.text record.custodyId

def purgeCandidates (reason : String) :
    List CustodyMessage → Nat → Nat × Nat → RelayStore → (Nat × Nat) × RelayStore
  | [], _, purged, s => (purged, s)
  | candidate :: rest, requiredBytes, (purgedRecords, purgedBytes), s =>
    if requiredBytes = 0 then ((purgedRecords, purgedBytes), s)
    else
      purgeCandidates reason rest (requiredBytes - serializedRecordBytes candidate)
        (purgedRecords + 1, saturatingAdd purgedBytes (serializedRecordBytes candidate))
        (s.purgeRecord clock candidate (reason ++ "_purged"))

def purgeOldestByPolicy (s : RelayStore) (requiredBytes : Nat) (reason : String) :
    (Nat × Nat) × RelayStore :=
  purgeCandidates clock reason
    (s.custody.records.mergeSort (CustodyMessage.purgedBefore s.localIdentity)) requiredBytes (0, 0) s

/-- The pressure before a record is looked at; in an emergency, foreign ones only get the ceiling. -/
def enforceStoragePressureInternal (s : RelayStore) (env : StorageEnv)
    (incoming : Option CustodyMessage) : Except String StoragePressureReport × RelayStore :=
  let scmBefore := s.currentScmStorageBytes
  let snapshot := env.probe.getD (env.syntheticStorageSnapshot scmBefore)
  match StoragePressureContext.fromSnapshot snapshot scmBefore with
  | none => (.error "invalid_storage_snapshot", s)
  | some context =>
    let state := context.stateForScmBytes scmBefore
    if state.emergencyMode = true
        ∧ (incoming.map fun record => !record.identityRelated s.localIdentity).getD false = true then
      let need := scmBefore - state.hardCeilingBytes
      let ((purgedRecords, purgedBytes), s) := s.purgeOldestByPolicy clock need "storage_pressure_emergency"
      (.ok ⟨state.emergencyMode, state.hardCeilingBytes, state.targetQuotaBytes, scmBefore,
        scmBefore - purgedBytes, purgedRecords, purgedBytes⟩, s)
    else
      let required := scmBefore - state.targetQuotaBytes
      let ((purgedRecords, purgedBytes), s) :=
        s.purgeOldestByPolicy clock required "storage_pressure_target_quota"
      let scmBytes := scmBefore - purgedBytes
      let currentState := context.stateForScmBytes scmBytes
      let required := scmBytes - currentState.hardCeilingBytes
      let ((purgedRecords', purgedBytes'), s) :=
        s.purgeOldestByPolicy clock required "storage_pressure_hard_ceiling"
      let scmBytes := scmBytes - purgedBytes'
      let currentState := context.stateForScmBytes scmBytes
      (.ok ⟨currentState.emergencyMode, currentState.hardCeilingBytes, currentState.targetQuotaBytes,
        scmBefore, scmBytes, purgedRecords + purgedRecords', saturatingAdd purgedBytes purgedBytes'⟩, s)

/-- Room for a record: where there is a probe the record has to fit. -/
def enforceStoragePressureForWrite (s : RelayStore) (env : StorageEnv) (incoming : CustodyMessage) :
    Except String Unit × RelayStore :=
  match s.enforceStoragePressureInternal clock env (some incoming) with
  | (.error e, s) => (.error e, s)
  | (.ok report, s) =>
    match env.probeBeforeWrite with
    | none => (.ok (), s)
    | some snapshot =>
      let writeBytes := serializedRecordBytes incoming
      let scmBytes := report.scmBytesAfter
      match StoragePressureContext.fromSnapshot snapshot scmBytes with
      | none => (.error "invalid_storage_snapshot", s)
      | some context =>
        let state := context.stateForScmBytes scmBytes
        if state.emergencyMode = true ∧ incoming.identityRelated s.localIdentity = false then
          (.error "emergency_mode_non_critical_rejected", s)
        else
          -- a need of zero bytes purges nothing, and leaves the numbers as they are
          let need := saturatingAdd scmBytes writeBytes - state.targetQuotaBytes
          let ((_, purgedBytes), s) := s.purgeOldestByPolicy clock need "storage_pressure_target_quota"
          let scmBytes := scmBytes - purgedBytes
          let state := context.stateForScmBytes scmBytes
          let need := saturatingAdd scmBytes writeBytes - state.hardCeilingBytes
          let ((_, purgedBytes), s) := s.purgeOldestByPolicy clock need "storage_pressure_hard_ceiling"
          let scmBytes := scmBytes - purgedBytes
          let state := context.stateForScmBytes scmBytes
          let projected := saturatingAdd scmBytes writeBytes
          if state.targetQuotaBytes < projected ∨ state.hardCeilingBytes < projected then
            let target := state.targetQuotaBytes
            let hardCeiling := state.hardCeilingBytes
            (.error s!"storage_pressure_capacity_exceeded: projected={projected} target={target} hard_ceiling={hardCeiling}", s)
          else (.ok (), s)

def enforceStoragePressure (s : RelayStore) (env : StorageEnv) :
    Except String StoragePressureReport × RelayStore :=
  s.enforceStoragePressureInternal clock env none

/-! ## Acceptance -/

/-- Whether an envelope for a device is taken, and the reason written down. -/
def decideAdmission (s : RelayStore) (identityId deviceId : Option String) : Except String String × RelayStore :=
  match identityId, deviceId with
  | some identityId, some deviceId =>
    match s.registry.enforceCustody clock hash identityId deviceId with
    | (.error e, registry) => (.error e.asCode, { s with registry := registry })
    | (.ok _, registry) => (.ok "custody_accepted", { s with registry := registry })
  | some _, none =>
    match s.compatMode with
    | .phaseA => (.ok "custody_accepted_compat_phase_a", s)
    | .phaseB => (.ok "custody_accepted_compat_phase_b", s)
  | none, _ => (.ok "custody_accepted", s)

def recipientIdentity (s : RelayStore) (request : CustodyRequest) : Option String :=
  request.recipientIdentityId.bind (s.registry.normalizeLookupIdentity hash)

def acceptCustody (s : RelayStore) (env : StorageEnv) (request : CustodyRequest) :
    Except String CustodyMessage × RelayStore :=
  match s.custody.findExisting request.destinationPeerId.text request.relayMessageId with
  | some existing => (.ok existing, s)
  | none =>
    let recipientIdentityId := s.recipientIdentity hash request
    let intendedDeviceId := request.intendedDevice
    match s.decideAdmission clock hash recipientIdentityId intendedDeviceId with
    | (.error e, s) => (.error e, s)
    | (.ok reason, s) =>
      let pendingCount :=
        (s.custody.pendingForDestination request.destinationPeerId.text s.custody.records.length).length
      if maxPendingPerDestination ≤ pendingCount then
        (.error ("custody queue full for destination " ++ request.destinationPeerId.text), s)
      else
        let nowMs := clock.read s.registry.ticks
        let message := request.newMessage recipientIdentityId intendedDeviceId nowMs s.registry.sequence
        match { s with registry := s.registry.tick.takeSequence }.enforceStoragePressureForWrite clock env
            message with
        | (.error e, s) => (.error e, s)
        | (.ok (), s) =>
          (.ok message, (s.putMessage message).recordTransition clock message none .accepted reason)

end RelayStore

/-! ## Names and clocks of sample calls -/

def sampleHash (_ : Bytes) : Arr 32 := ⟨List.replicate 32 0, List.length_replicate⟩

def registeredIdentity : String := hexEncode (sampleHash []).1

def phone : String := "550e8400-e29b-41d4-a716-446655440000"

def tenDayClock : Clock where
  read n := n * (10 * 24 * 60 * 60 * 1000)
  mono _ _ h := Nat.mul_le_mul_right _ h

end SCMessenger
