import SCMessenger.Lib.Bincode
import SCMessenger.Store.RelayCustody

/-!
# Storage pressure

How much room a relay leaves its custody records, and which go first.  Sizes are `u64`: sums saturate, and
a quotient is cut to 64 bits.
-/

namespace SCMessenger

def u64Max : Nat := 2 ^ 64 - 1

def saturatingAdd (a b : Nat) : Nat := min (a + b) u64Max

/-! ## Bands -/

/-- How full the device is. -/
inductive StoragePressureBand where
  | upTo20Pct
  | from20To50Pct
  | from50To70Pct
  | from70To80Pct
  | from80To90Pct
  | emergencyOver90Pct
deriving DecidableEq, Repr

structure DeviceStorageSnapshot where
  totalBytes : Nat
  usedBytes : Nat
deriving DecidableEq

/-- The quota for a state of the device. -/
structure StoragePressureState where
  band : StoragePressureBand
  hardCeilingBytes : Nat
  targetQuotaBytes : Nat
  scmBytes : Nat
deriving DecidableEq

def StoragePressureState.emergencyMode (state : StoragePressureState) : Bool :=
  state.band = .emergencyOver90Pct

/-- What a purge found and removed. -/
structure StoragePressureReport where
  emergencyMode : Bool
  hardCeilingBytes : Nat
  targetQuotaBytes : Nat
  scmBytesBefore : Nat
  scmBytesAfter : Nat
  purgedRecords : Nat
  purgedBytes : Nat
deriving DecidableEq

def deviceUsageCeilingPercent : Nat := 90
def fallbackStorageTotalBytes : Nat := 8 * 1024 * 1024 * 1024

/-- What is used by others than the relay. -/
structure StoragePressureContext where
  totalBytes : Nat
  nonScmUsedBytes : Nat
deriving DecidableEq

namespace StoragePressureContext

def fromSnapshot (snapshot : DeviceStorageSnapshot) (scmBytes : Nat) : Option StoragePressureContext :=
  if snapshot.totalBytes = 0 then none
  else some ⟨snapshot.totalBytes, min snapshot.usedBytes snapshot.totalBytes - scmBytes⟩

/-- The band of a used share in hundredths of a percent, and the percentage of free space it allows. -/
def bandOf (basisPoints : Nat) : StoragePressureBand × Nat :=
  if basisPoints ≤ 2000 then (.upTo20Pct, 70)
  else if basisPoints ≤ 5000 then (.from20To50Pct, 45)
  else if basisPoints ≤ 7000 then (.from50To70Pct, 25)
  else if basisPoints ≤ 8000 then (.from70To80Pct, 10)
  else if basisPoints ≤ 9000 then (.from80To90Pct, 3)
  else (.emergencyOver90Pct, 0)

def stateForScmBytes (context : StoragePressureContext) (scmBytes : Nat) : StoragePressureState :=
  let usedBytes := saturatingAdd context.nonScmUsedBytes scmBytes
  let usedPercentBasisPoints := usedBytes * 10000 / context.totalBytes % 2 ^ 64
  let freeBytes := context.totalBytes - usedBytes
  let ninetyPercentTotal := context.totalBytes * deviceUsageCeilingPercent / 100 % 2 ^ 64
  let hardCeilingBytes := ninetyPercentTotal - context.nonScmUsedBytes
  let (band, bandPercent) := bandOf usedPercentBasisPoints
  let dynamicTarget :=
    if band = .emergencyOver90Pct then hardCeilingBytes
    else freeBytes * bandPercent / 100 % 2 ^ 64
  ⟨band, hardCeilingBytes, min dynamicTarget hardCeilingBytes, scmBytes⟩

theorem targetQuotaBytes_le (c : StoragePressureContext) (s : Nat) :
    (c.stateForScmBytes s).targetQuotaBytes
      ≤ (c.stateForScmBytes s).hardCeilingBytes :=
  min_le_right _ _

end StoragePressureContext

/-- The probe, asked again before a record is written, and the two environment variables for it. -/
structure StorageEnv where
  probe : Option DeviceStorageSnapshot
  probeBeforeWrite : Option DeviceStorageSnapshot
  storageTotalBytes : Option Nat
  storageUsedBytes : Option Nat

def StorageEnv.syntheticStorageSnapshot (env : StorageEnv) (scmBytes : Nat) : DeviceStorageSnapshot :=
  let totalBytes := (env.storageTotalBytes.filter (0 < ·)).getD fallbackStorageTotalBytes
  let usedBytes := (env.storageUsedBytes.map (max · scmBytes)).getD scmBytes
  ⟨totalBytes, min usedBytes totalBytes⟩

/-! ## Records -/

def CustodyMessage.serialize (record : CustodyMessage) : Bytes :=
  Codec.string.encode record.custodyId ++ Codec.string.encode record.relayMessageId
    ++ Codec.string.encode record.sourcePeerId ++ Codec.string.encode record.destinationPeerId.text
    ++ Codec.string.option.encode record.recipientIdentityId
    ++ Codec.string.option.encode record.intendedDeviceId ++ Codec.bytes.encode record.envelopeData
    ++ leBytes 4 (match record.state with
      | .accepted => 0
      | .dispatching => 1
      | .delivered => 2)
    ++ leBytes 8 record.acceptedAtMs ++ leBytes 8 record.updatedAtMs ++ leBytes 4 record.deliveryAttempts

def serializedRecordBytes (record : CustodyMessage) : Nat := record.serialize.length

namespace CustodyMessage

def deliveryPriority (record : CustodyMessage) : Nat := if record.state = .delivered then 0 else 1

def identityRelated (localIdentity : Option String) (record : CustodyMessage) : Bool :=
  match localIdentity with
  | none => false
  | some localIdentity =>
    record.sourcePeerId = localIdentity ∨ record.destinationPeerId.text = localIdentity

def purgedBefore (localIdentity : Option String) (r s : CustodyMessage) : Bool :=
  let related (x : CustodyMessage) : Nat := if x.identityRelated localIdentity then 1 else 0
  related r < related s ∨ related r = related s ∧
    (r.deliveryPriority < s.deliveryPriority ∨ r.deliveryPriority = s.deliveryPriority ∧
      r.sortsBefore s = true)

theorem purgedBefore_trans (l : Option String) (a b c : CustodyMessage)
    (ha : a.purgedBefore l b = true) (hb : b.purgedBefore l c = true) :
    a.purgedBefore l c = true := by
  simp only [purgedBefore, decide_eq_true_eq] at ha hb ⊢
  exact lex_trans (f := fun x => if x.identityRelated l then 1 else 0)
    (lex_trans sortsBefore_trans) a b c ha hb

theorem purgedBefore_total (l : Option String) (a b : CustodyMessage) :
    (a.purgedBefore l b || b.purgedBefore l a) = true := by
  simp only [purgedBefore, Bool.or_eq_true, decide_eq_true_eq]
  exact lex_total (f := fun x => if x.identityRelated l then 1 else 0)
    (lex_total fun a b => by simpa using sortsBefore_total a b) a b

end CustodyMessage

end SCMessenger
