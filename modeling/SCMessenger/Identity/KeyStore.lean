import SCMessenger.Crypto.Hybrid
import SCMessenger.Lib.Bincode
import SCMessenger.Lib.Storage

/-!
# Identity keys on disk

The stored forms of an identity: the signing key alone (V1), the keys without those of ML-DSA (V2), and all
of them (V3).  What a form lacks is drawn anew when it is read, and written back if the form was V1.
-/

namespace SCMessenger

/-- The verifying key, and the seed it is made from. -/
structure MlDsa65KeyPair where
  verifyingKey : Arr 1952
  signingKey : Arr 32
deriving DecidableEq

namespace MlDsa65KeyPair

variable (mldsaPublic : Arr 32 → Arr 1952)

def generate (seed : Arr 32) : MlDsa65KeyPair := ⟨mldsaPublic seed, seed⟩

def fromBytes (vk sk : Bytes) : Except String MlDsa65KeyPair :=
  match Arr.ofBytes? 1952 vk, Arr.ofBytes? 32 sk with
  | some vk, some sk => .ok ⟨vk, sk⟩
  | _, _ => .error "Invalid ML-DSA-65 key lengths"

end MlDsa65KeyPair

/-- The keys of an identity as they are stored, with those of ML-DSA. -/
structure StoredKeys extends IdentityKeys where
  mldsaKeypair : Option MlDsa65KeyPair

/-! ## Formats -/

/-- The stored keys with ML-KEM. -/
structure IdentityKeysV2Raw where
  signingKeyBytes : Arr 32
  x25519SecretBytes : Arr 32
  mlkemSeed : Bytes

/-- The stored keys with ML-KEM and ML-DSA. -/
structure IdentityKeysV3Raw where
  signingKeyBytes : Arr 32
  x25519SecretBytes : Arr 32
  mlkemSeed : Bytes
  mldsaPublicKey : Bytes
  mldsaSecretKey : Bytes

open Codec in
def rawV2Codec : Codec IdentityKeysV2Raw :=
  ((array 32).pair ((array 32).pair bytes)).iso (fun p => ⟨p.1, p.2.1, p.2.2⟩)
    (fun r => (r.signingKeyBytes, r.x25519SecretBytes, r.mlkemSeed)) fun _ => rfl

open Codec in
def rawV3Codec : Codec IdentityKeysV3Raw :=
  ((array 32).pair ((array 32).pair (bytes.pair (bytes.pair bytes)))).iso
    (fun p => ⟨p.1, p.2.1, p.2.2.1, p.2.2.2.1, p.2.2.2.2⟩)
    (fun r => (r.signingKeyBytes, r.x25519SecretBytes, r.mlkemSeed, r.mldsaPublicKey, r.mldsaSecretKey))
    fun _ => rfl

/-- What is drawn for the parts an old form lacks. -/
structure KeyDraws where
  x25519Secret : Arr 32
  mlkemSeed : Arr 64
  mldsaSeed : Arr 32

namespace StoredKeys

variable (mldsaPublic : Arr 32 → Arr 1952)

def toBytes (keys : StoredKeys) : Bytes :=
  match keys.mldsaKeypair with
  | some mldsaKp =>
    0x03 :: rawV3Codec.serialize ⟨keys.signingKey, keys.x25519EncryptionSecret, keys.mlkemKeypair.seed.1,
      mldsaKp.verifyingKey.1, mldsaKp.signingKey.1⟩
  | none =>
    0x02 :: rawV2Codec.serialize ⟨keys.signingKey, keys.x25519EncryptionSecret, keys.mlkemKeypair.seed.1⟩

def ofV2 (draws : KeyDraws) (data : Bytes) : Except String StoredKeys :=
  match rawV2Codec.deserialize data with
  | none => .error "Failed to deserialize V2 keys: "
  | some raw =>
    match Arr.ofBytes? 64 raw.mlkemSeed with
    | none => .error "Invalid ML-KEM seed length in V2 keys"
    | some seed =>
      .ok ⟨⟨raw.signingKeyBytes, raw.x25519SecretBytes, ⟨seed⟩⟩,
        some (.generate mldsaPublic draws.mldsaSeed)⟩

def ofV3 (data : Bytes) : Except String StoredKeys :=
  match rawV3Codec.deserialize data with
  | none => .error "Failed to deserialize V3 keys: "
  | some raw =>
    match Arr.ofBytes? 64 raw.mlkemSeed with
    | none => .error "Invalid ML-KEM seed length in V3 keys"
    | some seed =>
      match MlDsa65KeyPair.fromBytes raw.mldsaPublicKey raw.mldsaSecretKey with
      | .error e => .error ("Failed to restore ML-DSA-65 keypair: " ++ e)
      | .ok mldsaKp => .ok ⟨⟨raw.signingKeyBytes, raw.x25519SecretBytes, ⟨seed⟩⟩, some mldsaKp⟩

def fromBytes (draws : KeyDraws) (data : Bytes) : Except String StoredKeys :=
  match Arr.ofBytes? 32 data with
  | some signingKey =>
    .ok ⟨⟨signingKey, draws.x25519Secret, ⟨draws.mlkemSeed⟩⟩, some (.generate mldsaPublic draws.mldsaSeed)⟩
  | none =>
    if data.head? = some 0x02 then ofV2 mldsaPublic draws data.tail
    else if data.head? = some 0x03 then ofV3 data.tail
    else .error "Invalid identity keys format/tag"

end StoredKeys

/-! ## The store -/

/-- Keys are kept in memory only, or in a database. -/
inductive IdentityStore where
  | memory
  | persistent (db : StorageBackend)

namespace IdentityStore

def identityKey : String := "identity_keys"

def saveKeys (faults : StorageFaults) (keys : StoredKeys) : IdentityStore → Except String Unit × IdentityStore
  | .memory => (.ok (), .memory)
  | .persistent db =>
    match StorageBackend.put faults db identityKey keys.toBytes with
    | (.error e, db) => (.error e, .persistent db)
    | (.ok (), db) =>
      match faults.flush with
      | some e => (.error e, .persistent db)
      | none => (.ok (), .persistent db)

/-- What a load finds: whether the read fails, what else fails, and what is drawn. -/
structure LoadWorld where
  getFault : Option String
  faults : StorageFaults
  draws : KeyDraws

variable (mldsaPublic : Arr 32 → Arr 1952)

def loadKeys (w : LoadWorld) (store : IdentityStore) : Except String (Option StoredKeys) × IdentityStore :=
  match store with
  | .memory => (.ok none, store)
  | .persistent db =>
    match w.getFault with
    | some e => (.error e, store)
    | none =>
      match db.lookup identityKey with
      | none => (.ok none, store)
      | some data =>
        match StoredKeys.fromBytes mldsaPublic w.draws data with
        | .error e => (.error e, store)
        | .ok keys =>
          if data.length = 32 then
            -- a V1 identity is written back in its new form
            match saveKeys w.faults keys store with
            | (.error e, store) => (.error e, store)
            | (.ok (), store) => (.ok (some keys), store)
          else (.ok (some keys), store)

def afterLoads (ws : List LoadWorld) (store : IdentityStore) : IdentityStore :=
  ws.foldl (fun store w => (loadKeys mldsaPublic w store).2) store

def LoadsAlways (store : IdentityStore) (keys : StoredKeys) : Prop :=
  ∀ (ws : List LoadWorld) (w : LoadWorld), w.getFault = none →
    (loadKeys mldsaPublic w (afterLoads mldsaPublic ws store)).1 = .ok (some keys)

end IdentityStore

/-! ## Reading back -/

section

variable {mldsaPublic : Arr 32 → Arr 1952}

theorem bytes_fits_arr {n : Nat} (a : Arr n) (h : n < 256 ^ 8) : Codec.bytes.fits a.1 := by
  show a.1.length < 256 ^ 8
  rwa [a.2]

theorem rawV3Codec_fits (s x25519Secret : Arr 32) (se : Arr 64) (kp : MlDsa65KeyPair) :
    rawV3Codec.fits ⟨s, x25519Secret, se.1, kp.verifyingKey.1, kp.signingKey.1⟩ :=
  ⟨trivial, trivial, bytes_fits_arr se (by decide), bytes_fits_arr kp.verifyingKey (by decide),
    bytes_fits_arr kp.signingKey (by decide)⟩

theorem rawV2Codec_fits (s x25519Secret : Arr 32) (se : Arr 64) :
    rawV2Codec.fits ⟨s, x25519Secret, se.1⟩ :=
  ⟨trivial, trivial, bytes_fits_arr se (by decide)⟩

namespace StoredKeys

theorem ofBytes?_toBytes (keys : StoredKeys) : Arr.ofBytes? 32 keys.toBytes = none := by
  have hl : ∀ r : Bytes,
      (keys.signingKey.1 ++ (keys.x25519EncryptionSecret.1 ++ r)).length + 1 ≠ 32 := by
    intro r
    simp only [List.length_append, keys.signingKey.2]
    omega
  rw [Arr.ofBytes?_eq_none]
  unfold toBytes
  split <;> exact hl _

/-- **Keys with an ML-DSA keypair are read back**, whatever is drawn. -/
theorem fromBytes_toBytes {keys : StoredKeys} {kp : MlDsa65KeyPair} (h : keys.mldsaKeypair = some kp)
    (draws : KeyDraws) : fromBytes mldsaPublic draws keys.toBytes = .ok keys := by
  have hv1 := keys.ofBytes?_toBytes
  obtain ⟨⟨s, x25519Secret, ⟨se⟩⟩, m⟩ := keys
  cases h
  have hr := rawV3Codec.deserialize_serialize_self (rawV3Codec_fits s x25519Secret se kp)
  have hp : MlDsa65KeyPair.fromBytes kp.verifyingKey.1 kp.signingKey.1 = .ok kp := by
    simp [MlDsa65KeyPair.fromBytes]
  unfold fromBytes
  rw [hv1]
  simp [toBytes, ofV3, hr, hp]

theorem fromBytes_toBytes_v2 {keys : StoredKeys} (h : keys.mldsaKeypair = none) (draws : KeyDraws) :
    fromBytes mldsaPublic draws keys.toBytes
      = .ok { keys with mldsaKeypair := some (.generate mldsaPublic draws.mldsaSeed) } := by
  have hv1 := keys.ofBytes?_toBytes
  obtain ⟨⟨s, x25519Secret, ⟨se⟩⟩, m⟩ := keys
  cases h
  have hr := rawV2Codec.deserialize_serialize_self (rawV2Codec_fits s x25519Secret se)
  unfold fromBytes
  rw [hv1]
  simp [toBytes, ofV2, hr]

end StoredKeys

/-! ## Loading again -/

/-- A stored form that is read as certain keys whatever is drawn, and is not written back. -/
def StoredKeys.Settled (mldsaPublic : Arr 32 → Arr 1952) (data : Bytes) (keys : StoredKeys) : Prop :=
  data.length ≠ 32 ∧ ∀ draws, StoredKeys.fromBytes mldsaPublic draws data = .ok keys

def StoredKeys.isV2 (data : Bytes) : Bool := data.length != 32 && data.head? == some 0x02

namespace IdentityStore

open StoredKeys

variable {store' : IdentityStore} {db : StorageBackend} {data : Bytes} {keys : StoredKeys}
  {w : LoadWorld}

theorem saveKeys_ok {f : StorageFaults} (h : saveKeys f keys (.persistent db) = (.ok (), store')) :
    ∃ db', store' = .persistent db' ∧ db'.lookup identityKey = some keys.toBytes := by
  unfold saveKeys at h
  cases hp : f.put identityKey with
  | some e => simp [StorageBackend.put, hp] at h
  | none =>
    have hs : (StorageBackend.put f db identityKey keys.toBytes).2.lookup identityKey
        = some keys.toBytes := StorageBackend.lookup_put_self hp
    simp only [StorageBackend.put, hp] at h hs
    split at h
    · cases h
    · cases h
      exact ⟨_, rfl, hs⟩

theorem loadKeys_ok (hd : db.lookup identityKey = some data)
    (h : loadKeys mldsaPublic w (.persistent db) = (.ok (some keys), store')) :
    fromBytes mldsaPublic w.draws data = .ok keys
      ∧ (data.length = 32 ∧ (∃ db', store' = .persistent db' ∧ db'.lookup identityKey = some keys.toBytes)
        ∨ data.length ≠ 32 ∧ store' = .persistent db) := by
  unfold loadKeys at h
  simp only [hd] at h
  split at h
  · cases h
  cases hr : fromBytes mldsaPublic w.draws data with
  | error e => simp [hr] at h
  | ok k' =>
    simp only [hr] at h
    split at h
    case isTrue hl =>
      split at h
      · cases h
      case h_2 store'' hsave =>
        cases h
        exact ⟨rfl, .inl ⟨hl, saveKeys_ok hsave⟩⟩
    case isFalse hl =>
      cases h
      exact ⟨rfl, .inr ⟨hl, rfl⟩⟩

theorem loadKeys_of_settled (hd : db.lookup identityKey = some data) (h : Settled mldsaPublic data keys)
    (w : LoadWorld) :
    (loadKeys mldsaPublic w (.persistent db)).2 = .persistent db
      ∧ (w.getFault = none → (loadKeys mldsaPublic w (.persistent db)).1 = .ok (some keys)) := by
  unfold loadKeys
  cases w.getFault with
  | some e => exact ⟨rfl, fun hn => by cases hn⟩
  | none => simp [hd, h.2, h.1]

/-- **A settled form is loaded the same for ever.** -/
theorem loadsAlways_of_settled (hd : db.lookup identityKey = some data)
    (h : Settled mldsaPublic data keys) : LoadsAlways mldsaPublic (.persistent db) keys := by
  intro ws w hw
  have ha : afterLoads mldsaPublic ws (.persistent db) = .persistent db := by
    induction ws with
    | nil => rfl
    | cons w' ws ih =>
      rw [afterLoads, List.foldl_cons, (loadKeys_of_settled hd h w').1]
      exact ih
  rw [ha]
  exact (loadKeys_of_settled hd h w).2 hw

variable {draws : KeyDraws}

theorem mldsaKeypair_of_v1 (hl : data.length = 32) (h : fromBytes mldsaPublic draws data = .ok keys) :
    keys.mldsaKeypair = some (.generate mldsaPublic draws.mldsaSeed) := by
  obtain ⟨a, rfl⟩ : ∃ a : Arr 32, a.1 = data := ⟨⟨data, hl⟩, rfl⟩
  simp only [fromBytes, Arr.ofBytes?_val, Except.ok.injEq] at h
  rw [← h]

theorem settled_of_v3 (hl : data.length ≠ 32) (hv2 : isV2 data = false)
    (h : fromBytes mldsaPublic draws data = .ok keys) : Settled mldsaPublic data keys := by
  have ht : data.head? ≠ some 0x02 := by
    intro ht
    simp [isV2, hl, ht] at hv2
  refine ⟨hl, fun d' => ?_⟩
  rw [← h]
  simp only [fromBytes, Arr.ofBytes?_eq_none.mpr hl, ht, if_false]

theorem fromBytes_v2 (hv2 : isV2 data = true) (h : fromBytes mldsaPublic draws data = .ok keys)
    (d' : KeyDraws) :
    keys.mldsaKeypair = some (.generate mldsaPublic draws.mldsaSeed)
      ∧ fromBytes mldsaPublic d' data
        = .ok { keys with mldsaKeypair := some (.generate mldsaPublic d'.mldsaSeed) } := by
  obtain ⟨hl, ht⟩ : data.length ≠ 32 ∧ data.head? = some 0x02 := by simpa [isV2] using hv2
  simp only [fromBytes, Arr.ofBytes?_eq_none.mpr hl, ht, if_true, ofV2] at h ⊢
  cases hr : rawV2Codec.deserialize data.tail with
  | none => simp [hr] at h
  | some raw =>
    cases hs : Arr.ofBytes? 64 raw.mlkemSeed with
    | none => simp [hr, hs] at h
    | some s =>
      simp only [hr, hs, Except.ok.injEq] at h ⊢
      subst h
      exact ⟨rfl, rfl⟩

theorem exists_other_seed (s : Arr 32) : ∃ s' : Arr 32, s' ≠ s := by
  by_cases h : Arr.fit 32 [] = s
  · exact ⟨Arr.fit 32 [1], fun h' => absurd (h.trans h'.symm) (by decide)⟩
  · exact ⟨Arr.fit 32 [], h⟩

/-- **A loaded identity stays the same exactly if its stored form was not V2.** -/
theorem loads_stable_iff (hdata : db.lookup identityKey = some data)
    (h : loadKeys mldsaPublic w (.persistent db) = (.ok (some keys), store')) :
    LoadsAlways mldsaPublic store' keys ↔ isV2 data = false := by
  obtain ⟨hr, hs⟩ := loadKeys_ok hdata h
  rcases hs with ⟨hl, db', rfl, hd'⟩ | ⟨hl, rfl⟩
  · -- V1: the keys were written in the V3 form
    have hk := mldsaKeypair_of_v1 hl hr
    have hse : Settled mldsaPublic keys.toBytes keys :=
      ⟨Arr.ofBytes?_eq_none.mp keys.ofBytes?_toBytes, fromBytes_toBytes hk⟩
    simp [loadsAlways_of_settled hd' hse, isV2, hl]
  · constructor
    · intro ha
      by_contra hv2
      rw [Bool.not_eq_false] at hv2
      -- another seed gives another keypair
      obtain ⟨seed', hn⟩ := exists_other_seed w.draws.mldsaSeed
      have hk := (fromBytes_v2 hv2 hr w.draws).1
      have hr' := (fromBytes_v2 hv2 hr { w.draws with mldsaSeed := seed' }).2
      have hlo := ha [] ⟨none, w.faults, { w.draws with mldsaSeed := seed' }⟩ rfl
      simp only [afterLoads, List.foldl_nil, loadKeys, hdata, hr', hl, if_false, Except.ok.injEq,
        Option.some.injEq] at hlo
      rw [← hlo, Option.some.injEq] at hk
      exact hn (congrArg MlDsa65KeyPair.signingKey hk)
    · intro hv2
      exact loadsAlways_of_settled hdata (settled_of_v3 hl hv2 hr)

/-! ## Samples -/

def sampleBackend (data : Bytes) : StorageBackend := AList.insert identityKey data ∅

theorem lookup_sampleBackend (data : Bytes) : (sampleBackend data).lookup identityKey = some data :=
  AList.lookup_insert _

def sampleLoad (seed : UInt8) : LoadWorld :=
  ⟨none, .none, ⟨Arr.fit 32 [seed], Arr.fit 64 [seed], Arr.fit 32 [seed]⟩⟩

/-- A V1 identity is migrated by its first load, and stays. -/
theorem loads_stable_v1 :
    ∃ keys store', loadKeys (fun _ => Arr.fit 1952 []) (sampleLoad 1)
        (.persistent (sampleBackend (List.replicate 32 0))) = (.ok (some keys), store')
      ∧ LoadsAlways (fun _ => Arr.fit 1952 []) store' keys := by
  obtain ⟨keys, store', h⟩ : ∃ keys store', loadKeys (fun _ => Arr.fit 1952 []) (sampleLoad 1)
      (.persistent (sampleBackend (List.replicate 32 0))) = (.ok (some keys), store') := ⟨_, _, rfl⟩
  exact ⟨keys, store', h, (loads_stable_iff (lookup_sampleBackend _) h).mpr rfl⟩

def sampleV2 : StoredKeys := ⟨⟨Arr.fit 32 [], Arr.fit 32 [], ⟨Arr.fit 64 []⟩⟩, none⟩

theorem loadKeys_sampleV2 (s : UInt8) :
    loadKeys (fun _ => Arr.fit 1952 []) (sampleLoad s) (.persistent (sampleBackend sampleV2.toBytes))
      = (.ok (some { sampleV2 with mldsaKeypair := some ⟨Arr.fit 1952 [], Arr.fit 32 [s]⟩ }),
        .persistent (sampleBackend sampleV2.toBytes)) := by
  have hr : fromBytes (fun _ => Arr.fit 1952 []) (sampleLoad s).draws sampleV2.toBytes
      = .ok { sampleV2 with mldsaKeypair := some ⟨Arr.fit 1952 [], Arr.fit 32 [s]⟩ } :=
    fromBytes_toBytes_v2 rfl _
  have hl := Arr.ofBytes?_eq_none.mp sampleV2.ofBytes?_toBytes
  have hg : (sampleLoad s).getFault = none := rfl
  unfold loadKeys
  simp only [hg, lookup_sampleBackend, hr, hl, if_false]

/-- Two loads of it return different ML-DSA keys. -/
theorem v2_loads_differ :
    ∃ keys keys' store' store'', loadKeys (fun _ => Arr.fit 1952 []) (sampleLoad 1)
        (.persistent (sampleBackend sampleV2.toBytes)) = (.ok (some keys), store')
      ∧ loadKeys (fun _ => Arr.fit 1952 []) (sampleLoad 2) store' = (.ok (some keys'), store'')
      ∧ keys.mldsaKeypair ≠ keys'.mldsaKeypair := by
  refine ⟨_, _, _, _, loadKeys_sampleV2 1, loadKeys_sampleV2 2, fun h => ?_⟩
  have hs := congrArg (Option.map MlDsa65KeyPair.signingKey) h
  exact absurd hs (by decide)

end IdentityStore

end

end SCMessenger
