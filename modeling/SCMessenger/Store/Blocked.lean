import SCMessenger.Core.State
import SCMessenger.Lib.Table
import SCMessenger.Store.RelayCustody

/-!
# The block list

`BlockedManager` (`store/blocked.rs`).  Rows are stored under the name a peer was blocked by; checks and
removals work out the other names.  A value that cannot be read is `none`.
-/

namespace SCMessenger

/-! ## Names of peers -/

/-- What kind of name a record was made for. -/
inductive IdentifierFlavor where
  | legacy
  | publicKey
  | identityId
deriving DecidableEq, Repr

def identityIdPrefix : String := "id:"

def dropBeginning (beginning text : String) : Option String :=
  if startsWith beginning text then some (String.ofList (text.toList.drop beginning.toList.length))
  else none

def splitIdentifierFlavor (peerId : String) : String × IdentifierFlavor :=
  match dropBeginning publicKeyPrefix peerId with
  | some raw => (raw, .publicKey)
  | none =>
    match dropBeginning identityIdPrefix peerId with
    | some raw => (raw, .identityId)
    | none => (peerId, .legacy)

/-- What libp2p makes of Ed25519 keys: identifiers, and the keys contained in them. -/
structure PeerIds where
  toPeerId : Arr 32 → PeerId
  inlineKey : String → Option (Arr 32)

/-- Identifiers contain their key and begin alike; 64 hexadecimal digits are not an identifier. -/
structure PeerIds.Lawful (ids : PeerIds) : Prop where
  inlineKey_toPeerId : ∀ key, ids.inlineKey (ids.toPeerId key).text = some key
  toPeerId_startsWith : ∀ key, startsWith "12D3KooW" (ids.toPeerId key).text = true
  inlineKey_hex : ∀ (a : Arr 32) (text : String), hexDecode text = .ok a.1 → ids.inlineKey text = none

def pushUnique (identifiers : List String) (identifier : String) : List String :=
  if identifier ∈ identifiers then identifiers else identifiers ++ [identifier]

@[simp] theorem mem_pushUnique {l : List String} {x y : String} : x ∈ pushUnique l y ↔ x ∈ l ∨ x = y := by
  unfold pushUnique
  split
  · rename_i hm
    exact ⟨.inl, fun h => h.elim id fun he => he ▸ hm⟩
  · simp

section Names

variable {K : Type} (P : Primitives K) (ids : PeerIds)

def publicKeyHexFromPeerId (peerId : String) : Option String :=
  (ids.inlineKey peerId).map fun key => hexEncode key.1

def resolvedIdentifiers (peerId : String) : List String :=
  let (raw, flavor) := splitIdentifierFlavor peerId
  let identifiers := if flavor ≠ .legacy then pushUnique [raw] peerId else [raw]
  match flavor with
  | .publicKey =>
    match identityIdFromPublicKeyHex P raw with
    | some derivedId => pushUnique identifiers derivedId
    | none => identifiers
  | .legacy =>
    match publicKeyHexFromPeerId ids raw with
    | some publicKey =>
      let identifiers := pushUnique (pushUnique identifiers publicKey) (publicKeyPrefix ++ publicKey)
      match identityIdFromPublicKeyHex P publicKey with
      | some derivedId => pushUnique (pushUnique identifiers derivedId) (identityIdPrefix ++ derivedId)
      | none => identifiers
    | none => identifiers
  | .identityId => identifiers

end Names

/-! ## The list -/

/-- A record of the block list. -/
structure BlockedIdentity where
  peerId : String
  deviceId : Option String
  blockedAt : Nat
  reason : Option String
  notes : Option String
  isDeleted : Bool
  identifierFlavor : IdentifierFlavor
deriving DecidableEq

def blockKey (peerId : String) : Option String → String
  | some deviceId => peerId ++ ":" ++ deviceId
  | none => peerId

/-- The records, and the devices registered for each name; `none` is a row that does not parse. -/
structure BlockedList where
  rows : Table String (Option BlockedIdentity)
  registry : Table String (Option (List String))

namespace BlockedList

def new : BlockedList := ⟨∅, ∅⟩

def writeBlockEntry (list : BlockedList) (blocked : BlockedIdentity) : BlockedList :=
  { list with rows := list.rows.insert (blockKey blocked.peerId blocked.deviceId) (some blocked) }

def removeBlockEntry (list : BlockedList) (peerId : String) (deviceId : Option String) : BlockedList :=
  { list with rows := AList.erase (blockKey peerId deviceId) list.rows }

def Holds (list : BlockedList) (key : String) : Prop := (list.rows.lookup key).isSome = true

instance (list : BlockedList) (key : String) : Decidable (list.Holds key) :=
  inferInstanceAs (Decidable (_ = true))

def isBlockedExact (list : BlockedList) (peerId : String) (deviceId : Option String) : Bool :=
  (match deviceId with
    | some deviceId => (list.rows.lookup (blockKey peerId (some deviceId))).isSome
    | none => false)
  || (list.rows.lookup (blockKey peerId none)).isSome

def getExact (list : BlockedList) (peerId : String) (deviceId : Option String) :
    Except IronCoreError (Option BlockedIdentity) :=
  match list.rows.lookup (blockKey peerId deviceId) with
  | none => .ok none
  | some none => .error .internal
  | some (some blocked) => .ok (some blocked)

def getKnownDevices (list : BlockedList) (peerId : String) : Except IronCoreError (List String) :=
  match list.registry.lookup (splitIdentifierFlavor peerId).1 with
  | none => .ok []
  | some none => .error .internal
  | some (some devices) => .ok devices

def unregisterDeviceFromRegistry (list : BlockedList) (peerId deviceId : String) :
    Except IronCoreError Unit × BlockedList :=
  let raw := (splitIdentifierFlavor peerId).1
  match list.getKnownDevices raw with
  | .error e => (.error e, list)
  | .ok devices =>
    let devices := devices.filter (· ≠ deviceId)
    (.ok (), { list with
      registry := if devices.isEmpty then AList.erase raw list.registry
        else list.registry.insert raw (some devices) })

section

variable {K : Type} (P : Primitives K) (ids : PeerIds)

/-! ## Checks -/

def isBlockedResolved (list : BlockedList) (peerId : String) (deviceId : Option String) :
    Except IronCoreError Bool :=
  .ok ((resolvedIdentifiers P ids peerId).any fun identifier => list.isBlockedExact identifier deviceId)

def isBlocked (list : BlockedList) (peerId : String) (deviceId : Option String) :
    Except IronCoreError Bool :=
  list.isBlockedResolved P ids peerId deviceId

def firstExact (list : BlockedList) (deviceId : Option String) :
    List String → Except IronCoreError (Option BlockedIdentity)
  | [] => .ok none
  | identifier :: rest =>
    match list.getExact identifier deviceId with
    | .error e => .error e
    | .ok (some blocked) => .ok (some blocked)
    | .ok none => firstExact list deviceId rest

def get (list : BlockedList) (peerId : String) (deviceId : Option String) :
    Except IronCoreError (Option BlockedIdentity) :=
  list.firstExact deviceId (resolvedIdentifiers P ids peerId)

/-! ## Blocking -/

/-- The rows of a block in the order they are written, with one for every known device. -/
def blockEntries (blocked : BlockedIdentity) (derivedId : Option String) (devices : List String) :
    List BlockedIdentity :=
  let canonical := derivedId.map fun derivedId =>
    { blocked with peerId := derivedId, identifierFlavor := .identityId }
  let known (entry : BlockedIdentity) : List BlockedIdentity :=
    if blocked.deviceId.isNone then devices.map fun deviceId => { entry with deviceId := some deviceId }
    else []
  canonical.toList ++ [blocked] ++ known blocked ++ canonical.toList.flatMap known

def block (list : BlockedList) (blocked : BlockedIdentity) : Except IronCoreError Unit × BlockedList :=
  let (raw, flavor) := splitIdentifierFlavor blocked.peerId
  let blocked := { blocked with peerId := raw, identifierFlavor := flavor }
  let derived : Except IronCoreError (Option String) :=
    if flavor = .publicKey then
      match identityIdFromPublicKeyHex P raw with
      | some derivedId => .ok (some derivedId)
      | none => .error .invalidInput
    else .ok none
  match derived with
  | .error e => (.error e, list)
  | .ok derivedId =>
    match if blocked.deviceId.isNone then list.getKnownDevices raw else .ok [] with
    | .error e => (.error e, list)
    | .ok devices => (.ok (), (blockEntries blocked derivedId devices).foldl writeBlockEntry list)

def blockAndDelete (now : Nat) (list : BlockedList) (peerId : String) (reason : Option String) :
    Except IronCoreError Unit × BlockedList :=
  list.block P ⟨peerId, none, now, reason, none, true, .legacy⟩

def registerDeviceId (now : Nat) (list : BlockedList) (peerId deviceId : String) :
    Except IronCoreError Bool × BlockedList :=
  let (raw, flavor) := splitIdentifierFlavor peerId
  match list.getKnownDevices raw with
  | .error e => (.error e, list)
  | .ok devices =>
    if deviceId ∈ devices then (.ok false, list)
    else
      let list := { list with registry := list.registry.insert raw (some (devices ++ [deviceId])) }
      match list.isBlockedResolved P ids raw none with
      | .error e => (.error e, list)
      | .ok false => (.ok true, list)
      | .ok true =>
        match list.get P ids raw none with
        | .error e => (.error e, list)
        | .ok peerBlock =>
          match list.block P ⟨raw, some deviceId, (peerBlock.map BlockedIdentity.blockedAt).getD now,
              peerBlock.bind BlockedIdentity.reason, none,
              (peerBlock.map BlockedIdentity.isDeleted).getD false, flavor⟩ with
          | (.error e, list) => (.error e, list)
          | (.ok (), list) => (.ok true, list)

def registerDeviceIds (now : Nat) (list : BlockedList) (peerId : String) :
    List String → Nat → Except IronCoreError Nat × BlockedList
  | [], registered => (.ok registered, list)
  | deviceId :: rest, registered =>
    match list.registerDeviceId P ids now peerId deviceId with
    | (.error e, list) => (.error e, list)
    | (.ok true, list) => registerDeviceIds now list peerId rest (registered + 1)
    | (.ok false, list) => registerDeviceIds now list peerId rest registered

/-! ## Unblocking -/

/-- The peer's names, and the public keys of the identity in rows or in the registry. -/
def identifiersForUnblock (list : BlockedList) (peerId : String) : List String :=
  let raw := (splitIdentifierFlavor peerId).1
  let identifiers := list.rows.entries.foldl (fun identifiers row =>
    match row.2 with
    | some blocked =>
      if blocked.identifierFlavor = .publicKey ∧ identityIdFromPublicKeyHex P blocked.peerId = some raw then
        pushUnique identifiers blocked.peerId
      else identifiers
    | none => identifiers) (resolvedIdentifiers P ids peerId)
  list.registry.entries.foldl (fun identifiers row =>
    if identityIdFromPublicKeyHex P row.1 = some raw then pushUnique identifiers row.1
    else identifiers) identifiers

def unblockDevice (deviceId : String) : List String → BlockedList → Except IronCoreError Unit × BlockedList
  | [], list => (.ok (), list)
  | identifier :: rest, list =>
    match (list.removeBlockEntry identifier (some deviceId)).unregisterDeviceFromRegistry identifier
        deviceId with
    | (.error e, list) => (.error e, list)
    | (.ok (), list) => unblockDevice deviceId rest list

def knownDevices (list : BlockedList) : List String → Except IronCoreError (List String)
  | [] => .ok []
  | identifier :: rest =>
    match list.getKnownDevices identifier with
    | .error e => .error e
    | .ok devices =>
      match knownDevices list rest with
      | .error e => .error e
      | .ok others => .ok (devices ++ others)

def clearIdentifier (devices : List String) (list : BlockedList) (identifier : String) : BlockedList :=
  let list := devices.foldl (fun list deviceId => list.removeBlockEntry identifier (some deviceId))
    (list.removeBlockEntry identifier none)
  { list with registry := AList.erase identifier list.registry }

def unblock (list : BlockedList) (peerId : String) (deviceId : Option String) :
    Except IronCoreError Unit × BlockedList :=
  let identifiers := list.identifiersForUnblock P ids peerId
  match deviceId with
  | some deviceId => unblockDevice deviceId identifiers list
  | none =>
    match list.knownDevices identifiers with
    | .error e => (.error e, list)
    | .ok devices => (.ok (), identifiers.foldl (clearIdentifier devices) list)

end

end BlockedList

/-! ## What is stored -/

namespace BlockedList

variable {K : Type} {P : Primitives K} {ids : PeerIds} {list list' : BlockedList} {key : String}

theorem holds_writeBlockEntry {b : BlockedIdentity} :
    (list.writeBlockEntry b).Holds key
      ↔ key = blockKey b.peerId b.deviceId ∨ list.Holds key := by
  unfold Holds writeBlockEntry
  by_cases hk : key = blockKey b.peerId b.deviceId
  · subst hk
    simp
  · rw [AList.lookup_insert_ne hk]
    simp [hk]

theorem holds_foldl_writeBlockEntry {e : List BlockedIdentity} :
    (e.foldl writeBlockEntry list).Holds key
      ↔ (∃ entry ∈ e, key = blockKey entry.peerId entry.deviceId) ∨ list.Holds key := by
  induction e generalizing list with
  | nil => simp
  | cons entry e ih =>
    rw [List.foldl_cons, ih, holds_writeBlockEntry]
    simp only [List.mem_cons, exists_eq_or_imp]
    rw [or_assoc]
    exact or_left_comm

variable {peerId : String} {deviceId : Option String}

theorem holds_removeBlockEntry :
    (list.removeBlockEntry peerId deviceId).Holds key
      ↔ key ≠ blockKey peerId deviceId ∧ list.Holds key := by
  unfold Holds removeBlockEntry
  by_cases hk : key = blockKey peerId deviceId
  · subst hk
    simp
  · rw [AList.lookup_erase_ne hk]
    simp [hk]

/-- A row covers a check for a name: it is for the peer, or for the device that is asked for. -/
def Covers (list : BlockedList) (identifier : String) (deviceId : Option String) : Prop :=
  list.Holds (blockKey identifier none)
    ∨ ∃ device, deviceId = some device ∧ list.Holds (blockKey identifier (some device))

variable {identifier : String}

theorem isBlockedExact_eq_true :
    list.isBlockedExact identifier deviceId = true ↔ list.Covers identifier deviceId := by
  cases deviceId with
  | none => simp [isBlockedExact, Covers, Holds]
  | some d => simp [isBlockedExact, Covers, Holds, or_comm]

/-- **What a check looks for**: a row under one of the names. -/
theorem isBlockedResolved_eq_true :
    list.isBlockedResolved P ids peerId deviceId = .ok true
      ↔ ∃ identifier ∈ resolvedIdentifiers P ids peerId, list.Covers identifier deviceId := by
  simp only [isBlockedResolved, Except.ok.injEq, List.any_eq_true, isBlockedExact_eq_true]

theorem isBlockedResolved_eq_false :
    list.isBlockedResolved P ids peerId deviceId = .ok false
      ↔ ∀ identifier ∈ resolvedIdentifiers P ids peerId, ¬ list.Covers identifier deviceId := by
  simp only [isBlockedResolved, Except.ok.injEq, List.any_eq_false, isBlockedExact_eq_true]

/-! ## What is written -/

/-- **How a block ends**: nothing is written, or every row is. -/
theorem block_cases (P : Primitives K) (list : BlockedList) (b : BlockedIdentity) :
    (∃ e, list.block P b = (.error e, list))
    ∨ ∃ raw f d devices, splitIdentifierFlavor b.peerId = (raw, f)
      ∧ d = (if f = .publicKey then identityIdFromPublicKeyHex P raw else none)
      ∧ list.block P b = (.ok (), (blockEntries
        { b with peerId := raw, identifierFlavor := f } d devices).foldl
          writeBlockEntry list) := by
  rcases hs : splitIdentifierFlavor b.peerId with ⟨raw, f⟩
  unfold block
  simp only [hs]
  split
  · rename_i e hde
    exact .inl ⟨e, rfl⟩
  · rename_i d hde
    split
    · rename_i e hd
      exact .inl ⟨e, rfl⟩
    · rename_i devices hd
      refine .inr ⟨raw, f, d, devices, rfl, ?_, rfl⟩
      split at hde
      · rename_i hf
        rw [if_pos hf]
        split at hde
        · rename_i hi
          rw [hi, Except.ok.inj hde]
        · cases hde
      · rename_i hf
        rw [if_neg hf, Except.ok.inj hde]

theorem holds_blockEntries (list : BlockedList) (b : BlockedIdentity) (d : Option String) (devices : List String)
    (hd : b.deviceId = none) :
    ((blockEntries b d devices).foldl writeBlockEntry list).Holds b.peerId
      ∧ ∀ id, d = some id → ((blockEntries b d devices).foldl writeBlockEntry list).Holds id := by
  refine ⟨holds_foldl_writeBlockEntry.mpr (.inl ⟨b, by simp [blockEntries], by rw [hd, blockKey]⟩), ?_⟩
  rintro id rfl
  exact holds_foldl_writeBlockEntry.mpr (.inl ⟨_, by simp [blockEntries]; exact .inl rfl, by rw [hd, blockKey]⟩)

variable {devices : List String}

theorem peerId_of_mem_blockEntries {b e : BlockedIdentity}
    (h : e ∈ blockEntries b none devices) : e.peerId = b.peerId := by
  unfold blockEntries at h
  simp only [Option.map_none, Option.toList_none, List.nil_append, List.flatMap_nil, List.append_nil,
    List.mem_append, List.mem_singleton] at h
  rcases h with rfl | hd
  · rfl
  · split at hd
    · obtain ⟨d, -, rfl⟩ := List.mem_map.mp hd
      rfl
    · cases hd

theorem Holds.block (h : list.Holds key) (P : Primitives K) (b : BlockedIdentity) :
    (list.block P b).2.Holds key := by
  rcases block_cases P list b with ⟨e, he⟩ | ⟨raw, f, d, devices, -, -, he⟩
  · rwa [he]
  · rw [he]
    exact holds_foldl_writeBlockEntry.mpr (.inr h)

theorem Holds.registerDeviceId (h : list.Holds key) (P : Primitives K) (ids : PeerIds) (now : Nat)
    (peerId deviceId : String) : (list.registerDeviceId P ids now peerId deviceId).2.Holds key := by
  unfold BlockedList.registerDeviceId
  simp only
  split
  · exact h
  · rename_i devices hd
    split
    · exact h
    · have hr : ∀ registry, ({ list with registry := registry } : BlockedList).Holds key :=
        fun _ => h
      split
      · exact hr _
      · exact hr _
      · split
        · exact hr _
        · rename_i p _
          have hb := (hr (list.registry.insert (splitIdentifierFlavor peerId).1
            (some (devices ++ [deviceId])))).block P ⟨(splitIdentifierFlavor peerId).1, some deviceId,
            (p.map BlockedIdentity.blockedAt).getD now, p.bind BlockedIdentity.reason, none,
            (p.map BlockedIdentity.isDeleted).getD false, (splitIdentifierFlavor peerId).2⟩
          split
          all_goals
            rename_i he
            rwa [he] at hb

theorem Holds.registerDeviceIds (h : list.Holds key) (P : Primitives K) (ids : PeerIds) (now : Nat)
    (peerId : String) (d : List String) (r : Nat) :
    (list.registerDeviceIds P ids now peerId d r).2.Holds key := by
  induction d generalizing list r with
  | nil => exact h
  | cons deviceId re ih =>
    have hf := h.registerDeviceId P ids now peerId deviceId
    unfold BlockedList.registerDeviceIds
    split
    · rename_i he
      rwa [he] at hf
    · rename_i he
      rw [he] at hf
      exact ih hf _
    · rename_i he
      rw [he] at hf
      exact ih hf _

/-! ## What is removed -/

theorem unregisterDeviceFromRegistry_rows (list : BlockedList) (peerId deviceId : String) :
    (list.unregisterDeviceFromRegistry peerId deviceId).2.rows = list.rows := by
  unfold unregisterDeviceFromRegistry
  simp only
  split <;> rfl

variable {identifiers : List String}

theorem Holds.unblockDevice {deviceId : String} (h : list.Holds key)
    (hk : ∀ identifier, key ≠ blockKey identifier (some deviceId)) :
    (unblockDevice deviceId identifiers list).2.Holds key := by
  induction identifiers generalizing list with
  | nil => exact h
  | cons identifier r ih =>
    have hr : (list.removeBlockEntry identifier (some deviceId)).Holds key :=
      holds_removeBlockEntry.mpr ⟨hk identifier, h⟩
    have hf : ((list.removeBlockEntry identifier (some deviceId)).unregisterDeviceFromRegistry
        identifier deviceId).2.Holds key := by
      unfold Holds
      rw [unregisterDeviceFromRegistry_rows]
      exact hr
    unfold BlockedList.unblockDevice
    split
    · rename_i he
      rwa [he] at hf
    · rename_i he
      rw [he] at hf
      exact ih hf

theorem holds_clearIdentifier :
    (clearIdentifier devices list identifier).Holds key
      ↔ list.Holds key ∧ key ≠ blockKey identifier none
        ∧ ∀ d ∈ devices, key ≠ blockKey identifier (some d) := by
  have hf : ∀ (devices : List String) (list : BlockedList),
      (devices.foldl (fun list d => list.removeBlockEntry identifier (some d)) list).Holds key
        ↔ list.Holds key ∧ ∀ d ∈ devices, key ≠ blockKey identifier (some d) := by
    intro devices
    induction devices with
    | nil => simp
    | cons d r ih =>
      intro list
      rw [List.foldl_cons, ih, holds_removeBlockEntry]
      simp only [List.forall_mem_cons]
      tauto
  have hr : (clearIdentifier devices list identifier).Holds key
      ↔ (devices.foldl (fun list d => list.removeBlockEntry identifier (some d))
        (list.removeBlockEntry identifier none)).Holds key := Iff.rfl
  rw [hr, hf, holds_removeBlockEntry]
  tauto

theorem holds_foldl_clearIdentifier :
    (identifiers.foldl (clearIdentifier devices) list).Holds key
      ↔ list.Holds key ∧ ∀ identifier ∈ identifiers, key ≠ blockKey identifier none
        ∧ ∀ d ∈ devices, key ≠ blockKey identifier (some d) := by
  induction identifiers generalizing list with
  | nil => simp
  | cons identifier r ih =>
    rw [List.foldl_cons, ih, holds_clearIdentifier]
    simp only [List.forall_mem_cons]
    tauto

theorem mem_knownDevices {d : String} (h : list.knownDevices identifiers = .ok devices) :
    d ∈ devices ↔ ∃ identifier ∈ identifiers, ∃ k,
      list.getKnownDevices identifier = .ok k ∧ d ∈ k := by
  induction identifiers generalizing devices with
  | nil =>
    cases h
    simp
  | cons identifier r ih =>
    unfold knownDevices at h
    split at h
    · cases h
    · rename_i k hk
      split at h
      · cases h
      · rename_i o ho
        cases h
        rw [List.mem_append, ih ho]
        simp only [List.mem_cons, exists_eq_or_imp, hk, Except.ok.injEq, exists_eq_left']

/-- A removal leaves the rows under none of its names, for no device known under them. -/
theorem holds_unblock_iff (h : list.unblock P ids peerId none = (.ok (), list')) :
    ∃ devices, list.knownDevices (list.identifiersForUnblock P ids peerId) = .ok devices
      ∧ ∀ key, list'.Holds key ↔ list.Holds key
        ∧ ∀ identifier ∈ list.identifiersForUnblock P ids peerId, key ≠ blockKey identifier none
          ∧ ∀ d ∈ devices, key ≠ blockKey identifier (some d) := by
  unfold unblock at h
  simp only at h
  split at h
  · cases h
  · rename_i devices hd
    cases h
    exact ⟨devices, hd, fun key => holds_foldl_clearIdentifier⟩

/-- One of the peer's names, or a stored public key of the identity. -/
def Linked (P : Primitives K) (ids : PeerIds) (list : BlockedList) (peerId identifier : String) : Prop :=
  identifier ∈ resolvedIdentifiers P ids peerId
  ∨ identityIdFromPublicKeyHex P identifier = some (splitIdentifierFlavor peerId).1
    ∧ ((∃ key blocked, list.rows.lookup key = some (some blocked)
        ∧ blocked.identifierFlavor = .publicKey ∧ blocked.peerId = identifier)
      ∨ ∃ devices, list.registry.lookup identifier = some devices)

theorem mem_foldl_collect {α : Type} {c : List String → α → List String} {p : α → String → Prop}
    (hc : ∀ n e x, x ∈ c n e ↔ x ∈ n ∨ p e x) {en : List α}
    {n : List String} {x : String} :
    x ∈ en.foldl c n ↔ x ∈ n ∨ ∃ e ∈ en, p e x := by
  induction en generalizing n with
  | nil => simp
  | cons e en ih =>
    rw [List.foldl_cons, ih, hc]
    simp only [List.mem_cons, exists_eq_or_imp, or_assoc]

theorem mem_identifiersForUnblock :
    identifier ∈ list.identifiersForUnblock P ids peerId ↔ Linked P ids list peerId identifier := by
  unfold identifiersForUnblock
  simp only
  rw [mem_foldl_collect (p := fun row x =>
      identityIdFromPublicKeyHex P x = some (splitIdentifierFlavor peerId).1 ∧ row.1 = x),
    mem_foldl_collect (p := fun row x =>
      ∃ blocked, row.2 = some blocked ∧ blocked.identifierFlavor = .publicKey
        ∧ identityIdFromPublicKeyHex P x = some (splitIdentifierFlavor peerId).1 ∧ blocked.peerId = x)]
  · rw [Linked, or_assoc]
    refine or_congr_right ⟨?_, ?_⟩
    · rintro (⟨row, hr, blocked, hv, hf, hi, hn⟩ | ⟨row, hr, hi, hn⟩)
      · obtain ⟨key, v⟩ := row
        subst hv
        exact ⟨hi, .inl ⟨key, blocked, Table.mem_entries.mp hr, hf, hn⟩⟩
      · obtain ⟨key, devices⟩ := row
        subst hn
        exact ⟨hi, .inr ⟨devices, Table.mem_entries.mp hr⟩⟩
    · rintro ⟨hi, ⟨key, blocked, hr, hf, hn⟩ | ⟨devices, hr⟩⟩
      · exact .inl ⟨⟨key, some blocked⟩, Table.mem_entries.mpr hr, blocked, rfl, hf, hi, hn⟩
      · exact .inr ⟨⟨identifier, devices⟩, Table.mem_entries.mpr hr, hi, rfl⟩
  · intro names row x
    cases hv : row.2 with
    | none => simp
    | some blocked =>
      simp only
      split
      · rename_i hk
        rw [mem_pushUnique]
        refine or_congr_right ⟨fun hx => ⟨blocked, rfl, hk.1, hx ▸ hk.2, hx.symm⟩, ?_⟩
        rintro ⟨f, hfo, -, -, hx⟩
        cases hfo
        exact hx.symm
      · rename_i hk
        refine (or_iff_left ?_).symm
        rintro ⟨f, hfo, hf, hi, rfl⟩
        cases hfo
        exact hk ⟨hf, hi⟩
  · intro names row x
    split
    · rename_i hi
      rw [mem_pushUnique]
      exact or_congr_right ⟨fun hx => ⟨hx ▸ hi, hx.symm⟩, fun hx => hx.2.symm⟩
    · rename_i hi
      refine (or_iff_left ?_).symm
      rintro ⟨hx, rfl⟩
      exact hi hx

end BlockedList

/-! ## Runs -/

/-- The calls that change the list. -/
inductive BlockOp where
  | block (blocked : BlockedIdentity)
  | blockAndDelete (now : Nat) (peerId : String) (reason : Option String)
  | unblock (peerId : String) (deviceId : Option String)
  | registerDeviceId (now : Nat) (peerId deviceId : String)
  | registerDeviceIds (now : Nat) (peerId : String) (deviceIds : List String)

def BlockedList.step {K : Type} (P : Primitives K) (ids : PeerIds) (list : BlockedList) :
    BlockOp → BlockedList
  | .block blocked => (list.block P blocked).2
  | .blockAndDelete now peerId reason => (list.blockAndDelete P now peerId reason).2
  | .unblock peerId deviceId => (list.unblock P ids peerId deviceId).2
  | .registerDeviceId now peerId deviceId => (list.registerDeviceId P ids now peerId deviceId).2
  | .registerDeviceIds now peerId deviceIds =>
    (list.registerDeviceIds P ids now peerId deviceIds 0).2

end SCMessenger
