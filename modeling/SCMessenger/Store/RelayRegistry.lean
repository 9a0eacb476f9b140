import SCMessenger.Lib.HexText
import SCMessenger.Lib.Run
import SCMessenger.Lib.Table
import SCMessenger.Lib.Uuid
import SCMessenger.Store.RelayCustody

/-!
# The registry of identities

Which device an identity is used on.  A handover that took longer than fifteen days is abandoned by the
lookup that finds it.  Every call of `now_ms` is a reading of its own (`Clock`).
-/

namespace SCMessenger

/-- The readings of the clock, in the order they are made: it does not run backwards. -/
structure Clock where
  read : Nat → Nat
  mono : Monotone read

/-! ## Records -/

/-- Which device an identity is registered for. -/
inductive RegistrationState where
  | active (deviceId : String) (seniorityTimestamp : Nat)
  | handover (fromDeviceId toDeviceId : String) (initiatedAt : Nat)
  | abandoned (deviceId : String) (abandonedAt : Nat)
deriving DecidableEq, Repr

structure RegistrationRecord where
  identityId : String
  state : RegistrationState
  updatedAtMs : Nat
deriving DecidableEq

/-- An entry of the registry's log. -/
structure RegistrationTransition where
  identityId : String
  fromState : Option RegistrationState
  toState : RegistrationState
  reason : String
  atMs : Nat
  sequence : Nat
deriving DecidableEq

inductive CustodyError where
  | deviceMismatch
  | abandonedIdentity
  | noRegistration
deriving DecidableEq

def CustodyError.asCode : CustodyError → String
  | .deviceMismatch => "identity_device_mismatch"
  | .abandonedIdentity => "identity_abandoned"
  | .noRegistration => "identity_registration_missing"

/-- Which device an envelope is kept for. -/
inductive CustodyEnforcement where
  | active (identityId deviceId : String)
  | redirected (identityId fromDeviceId toDeviceId : String)
deriving DecidableEq

/-- What a change does to the records kept for the identity. -/
inductive RegistrySideEffect where
  | none
  | migrate (identityId fromDeviceId toDeviceId : String)
  | purge (identityId : String) (deviceId : Option String)
deriving DecidableEq

structure RegistrationUpdateOutcome where
  state : RegistrationState
  sideEffect : RegistrySideEffect
deriving DecidableEq

def registrationStaleTakeoverMs : Nat := 15 * 24 * 60 * 60 * 1000
def handoverStaleCollapseMs : Nat := 15 * 24 * 60 * 60 * 1000

/-! ## Names -/

/-- `to_lowercase`; letters beyond ASCII never become hexadecimal digits. -/
def rustToLowercase (s : String) : String := String.ofList (s.toList.map Char.toLower)

def isHex64 (value : String) : Bool :=
  value.toList.length = 64 && value.toList.all fun c => (hexVal c).isSome

def normalizeIdentityId (identityId : String) : Except String String :=
  let normalized := rustToLowercase (rustTrim identityId)
  if isHex64 normalized then .ok normalized else .error "registration_identity_id_invalid"

def normalizeUuidV4 (value error : String) : Except String String :=
  let normalized := rustTrim value
  match Uuid.parseStr normalized with
  | some uuid => if Uuid.getVersionNum uuid = 4 then .ok normalized else .error error
  | none => .error error

def deriveIdentityIdFromPublicKeyHex (hash : Bytes → Arr 32) (value : String) : Option String :=
  if isHex64 value then
    match hexDecode value with
    | .ok bytes => if bytes.length = 32 then some (hexEncode (hash bytes).1) else none
    | .error _ => none
  else none

theorem not_isRustWhitespace_of_hexVal {c : Char} (h : (hexVal c).isSome = true) :
    isRustWhitespace c = false := by
  have hb := hexVal_bounds h
  simp [isRustWhitespace]
  omega

theorem toLower_toLower (c : Char) : c.toLower.toLower = c.toLower := by
  unfold Char.toLower
  by_cases h : c.val ≥ 'A'.val ∧ c.val ≤ 'Z'.val
  · rw [dif_pos h, dif_neg]
    rintro ⟨-, hl⟩
    simp only [ge_iff_le, UInt32.le_iff_toNat_le, UInt32.toNat_add] at h hl
    have hA : ('A').val.toNat = 65 := rfl
    have hZ : ('Z').val.toNat = 90 := rfl
    have hs : ('a'.val - 'A'.val).toNat = 32 := rfl
    omega
  · rw [dif_neg h, dif_neg h]

variable {s : String}

theorem rustTrim_of_forall (ha : ∀ c ∈ s.toList, isRustWhitespace c = false) : rustTrim s = s := by
  have hf : s.toList.dropWhile isRustWhitespace = s.toList := by
    rw [List.dropWhile_eq_self_iff]
    intro hl
    simp [ha]
  have hb : s.toList.rdropWhile isRustWhitespace = s.toList := by
    rw [List.rdropWhile_eq_self_iff]
    intro hl
    simp [ha]
  rw [rustTrim, hf, hb, String.ofList_toList]

theorem rustTrim_of_hexVal (h : ∀ c ∈ s.toList, (hexVal c).isSome = true) : rustTrim s = s :=
  rustTrim_of_forall fun c hc => not_isRustWhitespace_of_hexVal (h c hc)

theorem rustToLowercase_idem (s : String) : rustToLowercase (rustToLowercase s) = rustToLowercase s := by
  simp only [rustToLowercase, String.toList_ofList, List.map_map, Function.comp_def, toLower_toLower]

theorem toLower_hexDigit : ∀ n < 16, (hexDigit n).toLower = hexDigit n := by decide

theorem rustToLowercase_hexEncode (b : Bytes) : rustToLowercase (hexEncode b) = hexEncode b := by
  have hs : (hexChars b).map Char.toLower = hexChars b := by
    conv_rhs => rw [← List.map_id (hexChars b)]
    refine List.map_congr_left fun c hc => ?_
    obtain ⟨n, hn, rfl⟩ := mem_hexChars hc
    exact toLower_hexDigit n hn
  simp only [rustToLowercase, hexEncode, String.toList_ofList, hs]

theorem normalizeUuidV4_ok {v d e : String} (h : normalizeUuidV4 v e = .ok d) :
    d = rustTrim v ∧ ∀ e', normalizeUuidV4 v e' = .ok d := by
  unfold normalizeUuidV4 at h ⊢
  simp only at h ⊢
  split at h
  · rename_i u hp
    split at h
    · rename_i hv
      rw [← Except.ok.inj h]
      exact ⟨rfl, fun _ => if_pos hv⟩
    · cases h
  · cases h

/-! ## The registry -/

/-- The registrations and their journal, the readings of the clock and the next sequence number. -/
structure RelayRegistry where
  records : Table String RegistrationRecord
  audit : List RegistrationTransition
  ticks : Nat
  sequence : Nat

namespace RelayRegistry

def new : RelayRegistry := ⟨∅, [], 0, 0⟩

def stateOf (registry : RelayRegistry) (identityId : String) : Option RegistrationState :=
  (registry.records.lookup identityId).map RegistrationRecord.state

def tick (registry : RelayRegistry) : RelayRegistry := { registry with ticks := registry.ticks + 1 }

def takeSequence (registry : RelayRegistry) : RelayRegistry :=
  { registry with sequence := registry.sequence + 1 }

def persistState (registry : RelayRegistry) (identityId : String)
    (fromState : Option RegistrationState) (state : RegistrationState) (reason : String)
    (updatedAtMs : Nat) : RelayRegistry :=
  { registry with
    records := registry.records.insert identityId ⟨identityId, state, updatedAtMs⟩
    audit := registry.audit
      ++ [⟨identityId, fromState, state, reason, updatedAtMs, registry.sequence⟩]
    sequence := registry.sequence + 1 }

variable (clock : Clock) (hash : Bytes → Arr 32)

/-- A handover that took too long is abandoned; each use of the clock is a reading. -/
def getRecordByIdentityId (registry : RelayRegistry) (identityId : String) :
    Option RegistrationRecord × RelayRegistry :=
  match registry.records.lookup identityId with
  | none => (none, registry)
  | some record =>
    match record.state with
    | .handover fromDeviceId _ initiatedAt =>
      if handoverStaleCollapseMs < clock.read registry.ticks - initiatedAt then
        let collapsed := .abandoned fromDeviceId (clock.read (registry.ticks + 1))
        (some ⟨identityId, collapsed, clock.read (registry.ticks + 3)⟩,
          { registry with ticks := registry.ticks + 4 }.persistState identityId (some record.state)
            collapsed "registration_handover_stale_timeout" (clock.read (registry.ticks + 2)))
      else (some record, registry.tick)
    | _ => (some record, registry)

def recordExists (registry : RelayRegistry) (identityId : String) : Bool :=
  (registry.records.lookup identityId).isSome

def normalizeLookupIdentity (registry : RelayRegistry) (identityHint : String) : Option String :=
  let trimmed := rustToLowercase (rustTrim identityHint)
  if trimmed.isEmpty || !isHex64 trimmed then none
  else if registry.recordExists trimmed then some trimmed
  else
    match deriveIdentityIdFromPublicKeyHex hash trimmed with
    | some derived => if registry.recordExists derived then some derived else some trimmed
    | none => some trimmed

/-- What a registering device makes of the record; one that is found always has a time. -/
def registerTransition (now : Nat) (identityId deviceId : String) (seniorityTimestamp : Nat) :
    Option RegistrationRecord → Except String (RegistrationState × RegistrySideEffect × String)
  | none => .ok (.active deviceId seniorityTimestamp, .none, "registration_activated")
  | some current =>
    match current.state with
    | .active activeDeviceId _ =>
      if activeDeviceId = deviceId then
        .ok (.active deviceId seniorityTimestamp, .none, "registration_refreshed")
      else if registrationStaleTakeoverMs < now - current.updatedAtMs then
        .ok (.active deviceId seniorityTimestamp, .purge identityId (some activeDeviceId),
          "registration_stale_takeover")
      else .error "registration_active_conflict"
    | .handover _ toDeviceId _ =>
      if toDeviceId = deviceId then
        .ok (.active deviceId seniorityTimestamp, .none, "registration_handover_completed")
      else .error "registration_handover_conflict"
    | .abandoned _ _ =>
      .ok (.active deviceId seniorityTimestamp, .none, "registration_reactivated")

def register (registry : RelayRegistry) (identityId deviceId : String) (seniorityTimestamp : Nat) :
    Except String RegistrationUpdateOutcome × RelayRegistry :=
  match normalizeIdentityId identityId with
  | .error e => (.error e, registry)
  | .ok identityId =>
    match normalizeUuidV4 deviceId "registration_device_id_invalid" with
    | .error e => (.error e, registry)
    | .ok deviceId =>
      if seniorityTimestamp = 0 then (.error "registration_seniority_invalid", registry)
      else
        let now := clock.read registry.ticks
        let (current, looked) := registry.tick.getRecordByIdentityId clock identityId
        match registerTransition now identityId deviceId seniorityTimestamp current with
        | .error e => (.error e, looked)
        | .ok (state, sideEffect, reason) =>
          (.ok ⟨state, sideEffect⟩,
            looked.persistState identityId (current.map RegistrationRecord.state) state reason now)

/-- What a device that deregisters, for a target or for good, makes of the state there is. -/
def deregisterTransition (now : Nat) (identityId fromDeviceId : String)
    (targetDeviceId : Option String) :
    RegistrationState → Except String (RegistrationState × RegistrySideEffect × String)
  | .active deviceId _ =>
    if deviceId = fromDeviceId then
      match targetDeviceId with
      | some targetDeviceId =>
        .ok (.handover fromDeviceId targetDeviceId now,
          .migrate identityId fromDeviceId targetDeviceId, "registration_handover_started")
      | none =>
        .ok (.abandoned fromDeviceId now, .purge identityId none, "registration_abandoned")
    else .error "registration_device_mismatch"
  | .handover currentFrom currentTo initiatedAt =>
    if currentFrom = fromDeviceId ∧ targetDeviceId = some currentTo then
      .ok (.handover currentFrom currentTo initiatedAt, .none, "registration_handover_reaffirmed")
    else .error "registration_handover_conflict"
  | .abandoned deviceId _ =>
    if deviceId = fromDeviceId then
      .ok (.abandoned deviceId now, .none, "registration_abandon_reaffirmed")
    else .error "registration_device_mismatch"

def deregistrationDevices (fromDeviceId : String) (targetDeviceId : Option String) :
    Except String (String × Option String) :=
  match normalizeUuidV4 fromDeviceId "deregistration_from_device_id_invalid" with
  | .error e => .error e
  | .ok fromDeviceId =>
    match targetDeviceId with
    | none => .ok (fromDeviceId, none)
    | some target =>
      match normalizeUuidV4 target "deregistration_target_device_id_invalid" with
      | .error e => .error e
      | .ok target =>
        if target = fromDeviceId then .error "deregistration_target_matches_source"
        else .ok (fromDeviceId, some target)

def deregister (registry : RelayRegistry) (identityId fromDeviceId : String)
    (targetDeviceId : Option String) : Except String RegistrationUpdateOutcome × RelayRegistry :=
  match normalizeIdentityId identityId with
  | .error e => (.error e, registry)
  | .ok identityId =>
    match deregistrationDevices fromDeviceId targetDeviceId with
    | .error e => (.error e, registry)
    | .ok (fromDeviceId, targetDeviceId) =>
      let now := clock.read registry.ticks
      match registry.tick.getRecordByIdentityId clock identityId with
      | (none, looked) => (.error "registration_not_found", looked)
      | (some current, looked) =>
        match deregisterTransition now identityId fromDeviceId targetDeviceId current.state with
        | .error e => (.error e, looked)
        | .ok (state, sideEffect, reason) =>
          (.ok ⟨state, sideEffect⟩,
            looked.persistState identityId (some current.state) state reason now)

def getState (registry : RelayRegistry) (identityId : String) :
    Option RegistrationState × RelayRegistry :=
  match registry.normalizeLookupIdentity hash identityId with
  | none => (none, registry)
  | some identityId =>
    let (record, looked) := registry.getRecordByIdentityId clock identityId
    (record.map RegistrationRecord.state, looked)

def enforceCustody (registry : RelayRegistry) (identityId deviceId : String) :
    Except CustodyError CustodyEnforcement × RelayRegistry :=
  match registry.normalizeLookupIdentity hash identityId with
  | none => (.error .noRegistration, registry)
  | some identityId =>
    match normalizeUuidV4 deviceId "registration_device_id_invalid" with
    | .error _ => (.error .noRegistration, registry)
    | .ok deviceId =>
      match registry.getState clock hash identityId with
      | (some (.active activeDeviceId _), looked) =>
        if activeDeviceId = deviceId then (.ok (.active identityId deviceId), looked)
        else (.error .deviceMismatch, looked)
      | (some (.handover fromDeviceId toDeviceId _), looked) =>
        if deviceId = fromDeviceId ∨ deviceId = toDeviceId then
          (.ok (.redirected identityId fromDeviceId toDeviceId), looked)
        else (.error .deviceMismatch, looked)
      | (some (.abandoned _ _), looked) => (.error .abandonedIdentity, looked)
      | (none, looked) => (.error .noRegistration, looked)

/-! ## What lookups do -/

def Collapses (registry : RelayRegistry) (identityId : String) : Prop :=
  ∃ a b t, registry.stateOf identityId = some (.handover a b t)
    ∧ handoverStaleCollapseMs < clock.read registry.ticks - t

def collapse (registry : RelayRegistry) (identityId a b : String) (t : Nat) : RelayRegistry :=
  { registry with ticks := registry.ticks + 4 }.persistState identityId (some (.handover a b t))
    (.abandoned a (clock.read (registry.ticks + 1))) "registration_handover_stale_timeout"
    (clock.read (registry.ticks + 2))

/-- Time passes, sequence numbers are taken, or an old handover is abandoned. -/
inductive ObserveStep : RelayRegistry → RelayRegistry → Prop
  | idle {registry : RelayRegistry} {ticks sequence : Nat} (hticks : registry.ticks ≤ ticks)
      (hsequence : registry.sequence ≤ sequence) :
      ObserveStep registry { registry with ticks := ticks, sequence := sequence }
  | collapse {registry : RelayRegistry} {identityId a b : String} {t : Nat}
      (hstate : registry.stateOf identityId = some (.handover a b t))
      (hstale : handoverStaleCollapseMs < clock.read registry.ticks - t) :
      ObserveStep registry (registry.collapse clock identityId a b t)

def Observes : RelayRegistry → RelayRegistry → Prop := Relation.ReflTransGen (ObserveStep clock)

section

variable {clock hash} {registry : RelayRegistry} {identityId i : String}

theorem stateOf_eq_some {state : RegistrationState} :
    registry.stateOf i = some state
      ↔ ∃ record, registry.records.lookup i = some record ∧ record.state = state := by
  simp [stateOf]

variable {b : String}

theorem getRecordByIdentityId_of_collapses {a : String} {t : Nat}
    (hs : registry.stateOf i = some (.handover a b t))
    (hst : handoverStaleCollapseMs < clock.read registry.ticks - t) :
    registry.getRecordByIdentityId clock i
      = (some ⟨i, .abandoned a (clock.read (registry.ticks + 1)), clock.read (registry.ticks + 3)⟩,
        registry.collapse clock i a b t) := by
  obtain ⟨record, hre, hr⟩ := stateOf_eq_some.mp hs
  simp only [getRecordByIdentityId, hre, hr, if_pos hst, collapse]

theorem getRecordByIdentityId_of_not_collapses (h : ¬ registry.Collapses clock i) :
    ∃ n, registry.ticks ≤ n ∧ n ≤ registry.ticks + 1 ∧ registry.getRecordByIdentityId clock i
      = (registry.records.lookup i, { registry with ticks := n }) := by
  unfold getRecordByIdentityId
  cases hl : registry.records.lookup i with
  | none => exact ⟨registry.ticks, le_rfl, Nat.le_succ _, rfl⟩
  | some record =>
    cases hs : record.state with
    | handover a b t =>
      have hst : ¬ handoverStaleCollapseMs < clock.read registry.ticks - t :=
        fun hst => h ⟨a, b, t, stateOf_eq_some.mpr ⟨record, hl, hs⟩, hst⟩
      refine ⟨registry.ticks + 1, Nat.le_succ _, le_rfl, ?_⟩
      simp only [hs, if_neg hst, tick]
    | active d s => exact ⟨registry.ticks, le_rfl, Nat.le_succ _, by simp only [hs]⟩
    | abandoned d s => exact ⟨registry.ticks, le_rfl, Nat.le_succ _, by simp only [hs]⟩

namespace Observes

theorem refl (registry : RelayRegistry) : Observes clock registry registry :=
  Relation.ReflTransGen.refl

end Observes

theorem getRecordByIdentityId_observes (clock : Clock) (registry : RelayRegistry) (identityId : String) :
    Observes clock registry (registry.getRecordByIdentityId clock identityId).2 := by
  by_cases hc : registry.Collapses clock identityId
  · obtain ⟨a, b, t, hs, hst⟩ := hc
    rw [getRecordByIdentityId_of_collapses hs hst]
    exact .single (.collapse hs hst)
  · obtain ⟨n, hn, -, he⟩ := getRecordByIdentityId_of_not_collapses hc
    rw [he]
    exact .single (.idle hn le_rfl)

theorem getState_observes (registry : RelayRegistry) (identityId : String) :
    Observes clock registry (registry.getState clock hash identityId).2 := by
  unfold getState
  split
  · exact .refl registry
  · exact getRecordByIdentityId_observes _ _ _

theorem enforceCustody_observes (registry : RelayRegistry) (identityId di : String) :
    Observes clock registry (registry.enforceCustody clock hash identityId di).2 := by
  unfold enforceCustody
  split
  · exact .refl registry
  · rename_i identityId hn
    have ho : Observes clock registry (registry.getState clock hash identityId).2 :=
      getState_observes registry identityId
    split
    · exact .refl registry
    · split
      all_goals
        rename_i he
        rw [he] at ho
        try split
        all_goals exact ho

end

end RelayRegistry

end SCMessenger
