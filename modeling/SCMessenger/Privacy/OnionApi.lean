import SCMessenger.Core.State
import SCMessenger.Privacy.Onion

/-!
# The onion calls of the core

`peel_onion_layer` reads an onion envelope and writes what is left of it as a byte vector, behind its
length.  What it returns is therefore not what it reads.
-/

namespace SCMessenger

def onionEnvelopeCodec : Codec OnionEnvelope :=
  (Codec.u8.pair <| Codec.bytes.pair Codec.bytes).iso (fun (v, d, r) => ⟨v, d, r⟩)
    (fun e => (e.version, e.layerData, e.remainingLayers)) fun _ => rfl

def onionResultCodec : Codec OnionConstructionResult :=
  (onionEnvelopeCodec.pair <| Codec.u8.pair Codec.u8).iso (fun (e, p, t) => ⟨e, p, t⟩)
    (fun r => (r.envelope, r.pqHops, r.totalHops)) fun _ => rfl

/-- The next hop, if there is one, and what to send on. -/
structure PeelResult where
  nextHop : Option Bytes
  remainingData : Bytes

section Model

variable {K : Type} (O : OnionPrimitives K)

def relayOfHex (hex : String) : Except IronCoreError HopAddress :=
  match hexDecode hex with
  | .error _ => .error .invalidInput
  | .ok bytes =>
    match Arr.ofBytes? 32 bytes with
    | none => .error .invalidInput
    | some arr => .ok (.classical arr)

/-- Wrap an envelope for a list of relays.  `parseKeys` is the JSON reader for a list of texts. -/
def prepareOnionMessage (parseKeys : String → Option (List String)) (onionRoutingEnabled : Bool)
    (draws : Nat → LayerDraws) (envelopeData : Bytes) (relayPublicKeysJson : String) :
    Except IronCoreError Bytes :=
  if onionRoutingEnabled = false then .error .onionRoutingDisabled
  else
    match parseKeys relayPublicKeysJson with
    | none => .error .invalidInput
    | some relayKeys =>
      if relayKeys.isEmpty then .ok envelopeData
      else
        match relayKeys.mapM relayOfHex with
        | .error e => .error e
        | .ok path =>
          match constructOnion O draws path envelopeData false with
          | .error _ => .error .cryptoError
          | .ok result => .ok (onionResultCodec.serialize result)

def peelOnionLayer (onionRoutingEnabled : Bool) (onionData relaySecretKey : Bytes) :
    Except IronCoreError PeelResult :=
  if onionRoutingEnabled = false then .error .onionRoutingDisabled
  else
    match Arr.ofBytes? 32 relaySecretKey with
    | none => .error .invalidInput
    | some secret =>
      match onionEnvelopeCodec.deserialize onionData with
      | none => .error .invalidInput
      | some envelope =>
        match peelLayer O envelope secret none with
        | .error _ => .error .cryptoError
        | .ok (nextHop, remaining) =>
          .ok ⟨nextHop.map fun h => h.x25519Public.1, Codec.bytes.serialize remaining⟩

/-- The relays peel in turn, each what the one before returned. -/
def peelInTurn (onionRoutingEnabled : Bool) : List (Arr 32) → Bytes →
    Except IronCoreError (List (Option Bytes) × Bytes)
  | [], data => .ok ([], data)
  | secret :: rest, data =>
    match peelOnionLayer O onionRoutingEnabled data secret.1 with
    | .error e => .error e
    | .ok peeled =>
      match peelInTurn onionRoutingEnabled rest peeled.remainingData with
      | .error e => .error e
      | .ok (hops, last) => .ok (peeled.nextHop :: hops, last)

def hopsAfter : List (Arr 32) → List (Option Bytes)
  | [] => []
  | [_] => [none]
  | _ :: next :: rest => some (O.x25519Public next).1 :: hopsAfter (next :: rest)

/-- Every relay succeeds and learns the next one, and the data is there at the end. -/
def OnionApiComposes (parseKeys : String → Option (List String)) (onionRoutingEnabled : Bool)
    (draws : Nat → LayerDraws) (secrets : List (Arr 32)) (envelopeData : Bytes) (json : String) : Prop :=
  ∃ prepared,
    prepareOnionMessage O parseKeys onionRoutingEnabled draws envelopeData json = .ok prepared
      ∧ peelInTurn O onionRoutingEnabled secrets prepared = .ok (hopsAfter O secrets, envelopeData)

end Model

/-! ## What a peel returns is not what a peel reads -/

theorem classicalLayer_head {l : ClassicalOnionLayer} (hk : l.ephemeralPk.length = 32) :
    ∃ t, classicalLayerCodec.serialize l = 32 :: t := by
  have hf : classicalLayerCodec.serialize l
      = leBytes 8 l.ephemeralPk.length ++ l.ephemeralPk
        ++ (Codec.bytes.pair Codec.bytes).encode (l.encryptedRoutingInfo, l.encryptedPayload) := rfl
  rw [hf, hk, leBytes_succ 7, List.append_assoc, List.cons_append]
  exact ⟨_, rfl⟩

theorem serialize_vector (b : Bytes) :
    Codec.bytes.serialize b = UInt8.ofNat b.length :: (leBytes 7 (b.length / 256) ++ b) := by
  have hf : Codec.bytes.serialize b = leBytes 8 b.length ++ b := rfl
  rw [hf, leBytes_succ 7, List.cons_append]

theorem length_serialize_vector (b : Bytes) : (Codec.bytes.serialize b).length = b.length + 8 := by
  rw [serialize_vector, List.length_cons, List.length_append, leBytes_length]
  omega

theorem decode_u8_cons (x : UInt8) (r : Bytes) :
    Codec.u8.decode (x :: r) = some (UInt8.ofNat (leNat [x]), r) := by
  simp [Codec.u8, Codec.iso, Codec.uint]

theorem decode_uint_append {w : Nat} {b : Bytes} (hb : b.length = w) (t : Bytes) :
    (Codec.uint w).decode (b ++ t) = some (leNat b, t) := by
  have hl : w ≤ (b ++ t).length := by
    rw [List.length_append, hb]
    exact Nat.le_add_right w _
  unfold Codec.uint
  simp only [if_pos hl, List.take_left' hb, List.drop_left' hb]

theorem decode_bytes_of_lt {b t : Bytes} {n : Nat} (h : (Codec.uint 8).decode b = some (n, t))
    (hl : t.length < n) : Codec.bytes.decode b = none := by
  unfold Codec.bytes
  simp only [h, Option.bind_some, if_neg (Nat.not_le.mpr hl)]

theorem le_leNat_of_high_byte (m : Nat) : 2 ^ 61 ≤ leNat (leBytes 7 m ++ [32]) := by
  have h32 : leNat [32] = 32 := rfl
  rw [leNat_append, leBytes_length, h32]
  exact Nat.le_add_left _ _

theorem decode_bytes_of_high_byte (m : Nat) {t : Bytes} (hs : t.length < 2 ^ 61) :
    Codec.bytes.decode (leBytes 7 m ++ 32 :: t) = none := by
  have he : (leBytes 7 m ++ [32]).length = 8 := by
    rw [List.length_append, leBytes_length]
    rfl
  have hsp : leBytes 7 m ++ 32 :: t = (leBytes 7 m ++ [32]) ++ t := by
    rw [List.append_assoc, List.singleton_append]
  have hl := hs.trans_le (le_leNat_of_high_byte m)
  rw [hsp]
  exact decode_bytes_of_lt (decode_uint_append he t) hl

theorem deserialize_envelope_of_none {v : UInt8} {r : Bytes} (h : Codec.bytes.decode r = none) :
    onionEnvelopeCodec.deserialize (v :: r) = none := by
  simp only [Codec.deserialize, onionEnvelopeCodec, Codec.iso, Codec.pair, decode_u8_cons, Option.bind_some, h,
    Option.bind_none, Option.map_none]

/-- The length of the layer is read as a version and the low bytes of a length. -/
theorem deserialize_envelope_of_vector {l : ClassicalOnionLayer} (hk : l.ephemeralPk.length = 32)
    (hs : (classicalLayerCodec.serialize l).length < 2 ^ 61) :
    onionEnvelopeCodec.deserialize (Codec.bytes.serialize (classicalLayerCodec.serialize l)) = none := by
  obtain ⟨t, ht⟩ := classicalLayer_head hk
  rw [serialize_vector]
  refine deserialize_envelope_of_none ?_
  generalize (classicalLayerCodec.serialize l).length / 256 = m
  rw [ht, List.length_cons] at hs
  rw [ht]
  exact decode_bytes_of_high_byte m (Nat.lt_of_succ_lt hs)

section Calls

variable {K : Type} {O : OnionPrimitives K}

theorem mapM_relayOfHex (ke : List (Arr 32)) :
    (ke.map fun k => hexEncode k.1).mapM relayOfHex = .ok (ke.map HopAddress.classical) := by
  induction ke with
  | nil => rfl
  | cons k ke ih =>
    have hk : relayOfHex (hexEncode k.1) = .ok (.classical k) := by simp [relayOfHex]
    rw [List.map_cons, List.mapM_cons, hk, ih]
    rfl

variable {secret : Arr 32}

theorem prepareOnionMessage_ok {p : String → Option (List String)} {en : Bool}
    {d : Nat → LayerDraws} {e pr : Bytes} {j : String} {re : List (Arr 32)}
    (hj : p j = some ((secret :: re).map fun s => hexEncode (O.x25519Public s).1))
    (h : prepareOnionMessage O p en d e j = .ok pr) :
    en = true ∧ ∃ data r,
      buildLayers O d e
          ((secret :: re).map fun s => HopAddress.classical (O.x25519Public s)) = .ok data
        ∧ r.envelope = forwarded (.classical (O.x25519Public secret)) data
        ∧ pr = onionResultCodec.serialize r := by
  have hp : ((secret :: re).map fun s => hexEncode (O.x25519Public s).1).mapM relayOfHex
      = .ok ((secret :: re).map fun s => HopAddress.classical (O.x25519Public s)) := by
    have hk := mapM_relayOfHex ((secret :: re).map O.x25519Public)
    simpa only [List.map_map, Function.comp_def] using hk
  cases en with
  | false => cases h
  | true =>
    refine ⟨rfl, ?_⟩
    simp only [prepareOnionMessage, Bool.true_eq_false, if_false, hj, hp] at h
    rw [if_neg (by simp)] at h
    split at h
    · cases h
    · rename_i r hr
      cases h
      obtain ⟨data, hd, he⟩ := constructOnion_ok hr
      exact ⟨data, r, hd, he, rfl⟩

theorem length_onionResult (r : OnionConstructionResult) :
    r.envelope.layerData.length ≤ (onionResultCodec.serialize r).length := by
  simp [onionResultCodec, onionEnvelopeCodec, Codec.serialize, Codec.iso, Codec.pair, Codec.bytes]
  omega

theorem deserialize_onionResult {r : OnionConstructionResult}
    (hs : (onionResultCodec.serialize r).length < 256 ^ 8) :
    onionEnvelopeCodec.deserialize (onionResultCodec.serialize r) = some r.envelope := by
  have hf : onionResultCodec.FitsBelow (onionResultCodec.serialize r).length :=
    .iso <| .pair (.iso <| .pair .u8 <| .pair (.bytes hs) (.bytes hs)) (.pair .u8 .u8)
  exact onionEnvelopeCodec.deserialize_serialize (hf r le_rfl).1 _

variable {data : Bytes}

theorem peelOnionLayer_prepared (hd : DhIdeal O.toPrimitives) (hk : KemIdeal O.toPrimitives)
    (ha : AeadIdeal O.toPrimitives) (hg : AeadGrows O.toPrimitives) {d : LayerDraws}
    {c : LayerContent} {r : OnionConstructionResult}
    (hl : sealLayer O (.classical (O.x25519Public secret)) d c = .ok data)
    (he : r.envelope = forwarded (.classical (O.x25519Public secret)) data)
    (hs : (onionResultCodec.serialize r).length < 256 ^ 8) :
    peelOnionLayer O true (onionResultCodec.serialize r) secret.1
      = .ok ⟨c.revealed.1.map fun h => h.x25519Public.1, Codec.bytes.serialize c.revealed.2⟩ := by
  have hda : data.length < 256 ^ 8 := by
    have hle := length_onionResult r
    rw [he] at hle
    exact hle.trans_lt hs
  have hp : peelLayer O (forwarded (.classical (O.x25519Public secret)) data) secret none
      = .ok c.revealed :=
    peelLayer_sealLayer hd hk ha hg (.classical secret none) hl hda
  simp only [peelOnionLayer, Bool.true_eq_false, if_false, Arr.ofBytes?_val, deserialize_onionResult hs,
    he, hp]

theorem peelOnionLayer_returned (secret : Arr 32) {d : LayerDraws} {pk : Arr 32}
    {c : LayerContent} (hl : sealLayer O (.classical pk) d c = .ok data)
    (hs : data.length < 2 ^ 61) :
    peelOnionLayer O true (Codec.bytes.serialize data) secret.1 = .error .invalidInput := by
  cases hl
  have hn := deserialize_envelope_of_vector (O.x25519Public d.ephemeralSecret).2 hs
  simp only [peelOnionLayer, Bool.true_eq_false, if_false, Arr.ofBytes?_val, hn]

theorem buildLayers_head {d : Nat → LayerDraws} {p : Bytes} {ho : HopAddress}
    {r : List HopAddress} (h : buildLayers O d p (ho :: r) = .ok data) :
    ∃ c, sealLayer O ho (d 0) c = .ok data := by
  cases r with
  | nil => exact ⟨_, h⟩
  | cons next r =>
    obtain ⟨i, -, hl⟩ := buildLayers_cons h
    exact ⟨_, hl⟩

theorem peelInTurn_singleton {e : Bool} {l : Bytes} {hops : List (Option Bytes)}
    (h : peelInTurn O e [secret] data = .ok (hops, l)) : ∃ b, l = Codec.bytes.serialize b := by
  simp only [peelInTurn] at h
  split at h
  · cases h
  · rename_i p hp
    cases h
    simp only [peelOnionLayer, Arr.ofBytes?_val] at hp
    split at hp
    · cases hp
    · split at hp
      · cases hp
      · split at hp
        · cases hp
        · cases hp
          exact ⟨_, rfl⟩

/-- **The onion calls compose only without relays**: a relay returns its layer behind its length. -/
theorem onion_api_composes_iff (hdh : DhIdeal O.toPrimitives) (hkem : KemIdeal O.toPrimitives)
    (haead : AeadIdeal O.toPrimitives) (hgrow : AeadGrows O.toPrimitives)
    (parseKeys : String → Option (List String)) (enabled : Bool) (draws : Nat → LayerDraws)
    (secrets : List (Arr 32)) (envelopeData : Bytes) (json : String)
    (hjson : parseKeys json = some (secrets.map fun s => hexEncode (O.x25519Public s).1))
    (hsize : ∀ prepared, prepareOnionMessage O parseKeys enabled draws envelopeData json = .ok prepared →
      prepared.length < 2 ^ 61) :
    OnionApiComposes O parseKeys enabled draws secrets envelopeData json ↔ enabled = true ∧ secrets = [] := by
  constructor
  · rintro ⟨prepared, hp, hpe⟩
    cases secrets with
    | nil =>
      cases enabled with
      | false => cases hp
      | true => exact ⟨rfl, rfl⟩
    | cons secret re =>
      have hs := hsize prepared hp
      obtain ⟨rfl, data, r, hd, he, rfl⟩ := prepareOnionMessage_ok hjson hp
      have hf : (onionResultCodec.serialize r).length < 256 ^ 8 := hs.trans (by norm_num)
      cases re with
      | nil =>
        -- the only relay returns the payload behind its length
        have hfi := peelOnionLayer_prepared hdh hkem haead hgrow hd he hf
        simp only [peelInTurn, hfi, Except.ok.injEq, Prod.mk.injEq] at hpe
        have hl := congrArg List.length hpe.2
        rw [length_serialize_vector] at hl
        exact absurd hl (Nat.ne_of_gt (Nat.lt_add_of_pos_right (by decide)))
      | cons next re =>
        -- the second relay fails on what the first returned
        obtain ⟨i, hin, hla⟩ := buildLayers_cons hd
        have hfi := peelOnionLayer_prepared hdh hkem haead hgrow hla he hf
        have hle := length_onionResult r
        rw [he] at hle
        have hi : i.length < 2 ^ 61 :=
          ((length_content_le hgrow hla).2.trans hle).trans_lt hs
        obtain ⟨c, hn⟩ := buildLayers_head hin
        have hse := peelOnionLayer_returned next hn hi
        simp only [peelInTurn, hfi, LayerContent.revealed, hse, reduceCtorEq] at hpe
  · rintro ⟨rfl, rfl⟩
    exact ⟨envelopeData, by simp [prepareOnionMessage, hjson], rfl⟩

end Calls

namespace SampleOnion

def parseKeys (json : String) : Option (List String) :=
  if json = "[]" then some [] else some [hexEncode (primitives.x25519Public alice.x25519EncryptionSecret).1]

theorem api_without_relays : OnionApiComposes primitives parseKeys true draws [] [1, 2, 3] "[]" := by
  refine (onion_api_composes_iff (O := primitives) termDh termKem termAead termAeadGrows parseKeys true draws
    [] [1, 2, 3] "[]" (by decide) ?_).mpr ⟨rfl, rfl⟩
  intro p hp
  have hd : prepareOnionMessage primitives parseKeys true draws [1, 2, 3] "[]" = .ok [1, 2, 3] := by rfl
  rw [hd] at hp
  cases hp
  decide

/-- One relay with a known key: peeling at it does not give the payload back. -/
theorem api_with_one_relay :
    parseKeys "[alice]" = some ([alice.x25519EncryptionSecret].map fun s =>
        hexEncode (primitives.x25519Public s).1)
      ∧ ¬ OnionApiComposes primitives parseKeys true draws [alice.x25519EncryptionSecret] [1, 2, 3]
        "[alice]" := by
  have hj : parseKeys "[alice]" = some ([alice.x25519EncryptionSecret].map fun s =>
      hexEncode (primitives.x25519Public s).1) := if_neg (by decide)
  refine ⟨hj, ?_⟩
  rintro ⟨p, -, hp⟩
  obtain ⟨b, hb⟩ := peelInTurn_singleton hp
  have hl := congrArg List.length hb
  rw [length_serialize_vector] at hl
  simp at hl

end SampleOnion

end SCMessenger
