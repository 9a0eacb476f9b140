import SCMessenger.Crypto.Hybrid
import SCMessenger.Lib.Bincode

/-!
# Onion envelopes

The layers of `privacy/onion.rs`.  An onion is built from the destination outwards and peeled from the
outside in; a path may mix X25519 and hybrid layers.
-/

namespace SCMessenger

/-- The primitives of onion layers.  A nonce is made of the bytes of a derived key. -/
structure OnionPrimitives (K : Type) extends Primitives K where
  keyBytes : K → Arr 32

inductive OnionError where
  | invalidEnvelope
  | encryptionFailed
  | decryptionFailed
  | tooManyHops (max : Nat)
  | invalidHopAddress
  | hybridDecryptionFailed
  | missingPqKeys
  | mixedHopsNotAllowed
deriving DecidableEq, Repr

def maxOnionHops : Nat := 5

/-! ## Data and its format -/

/-- A bundle with all the fields that are written out. -/
structure WireBundle extends PublicKeyBundle where
  mldsaPublic : Option Bytes
  createdAt : UInt64
  signature : Bytes
  mldsaSignature : Option Bytes

/-- How a hop is addressed: by a key, or by a bundle for the hybrid scheme. -/
inductive HopAddress where
  | classical (pk : Arr 32)
  | hybrid (bundle : WireBundle)

namespace HopAddress

def x25519Public : HopAddress → Arr 32
  | .classical pk => pk
  | .hybrid bundle => bundle.x25519Public

def isHybrid : HopAddress → Bool
  | .classical _ => false
  | .hybrid _ => true

def version (hop : HopAddress) : UInt8 := if hop.isHybrid then 0x02 else 0x01

end HopAddress

/-- A layer for one hop, by X25519. -/
structure ClassicalOnionLayer where
  ephemeralPk : Bytes
  encryptedRoutingInfo : Bytes
  encryptedPayload : Bytes
deriving DecidableEq

/-- A layer for one hop, by X25519 and ML-KEM. -/
structure HybridOnionLayer where
  hybridCt : HybridCiphertext
  isDestination : Bool
  payload : Bytes
deriving DecidableEq

/-- The outermost layer and what is below it. -/
structure OnionEnvelope where
  version : UInt8
  layerData : Bytes
  remainingLayers : Bytes
deriving DecidableEq

structure OnionConstructionResult where
  envelope : OnionEnvelope
  pqHops : UInt8
  totalHops : UInt8
deriving DecidableEq

def wireBundleCodec : Codec WireBundle :=
  ((Codec.array 32).pair <| (Codec.array 32).pair <| Codec.bytes.pair <| Codec.bytes.option.pair <|
    Codec.u64.pair <| Codec.bytes.pair <| Codec.bytes.pair Codec.bytes.option).iso
    (fun (ed, x, mlkem, mldsa, created, suites, signature, mldsaSignature) =>
      ⟨⟨ed, x, mlkem, suites⟩, mldsa, created, signature, mldsaSignature⟩)
    (fun b => (b.ed25519Public, b.x25519Public, b.mlkemEncapsKey, b.mldsaPublic, b.createdAt,
      b.supportedSuites, b.signature, b.mldsaSignature))
    fun _ => rfl

def hopCodec : Codec HopAddress where
  encode
    | .classical pk => Codec.bool.encode false ++ (Codec.array 32).encode pk
    | .hybrid bundle => Codec.bool.encode true ++ wireBundleCodec.encode bundle
  decode b := (Codec.bool.decode b).bind fun (isHybrid, rest) =>
    if isHybrid then (wireBundleCodec.decode rest).map fun (bundle, rest') => (.hybrid bundle, rest')
    else ((Codec.array 32).decode rest).map fun (pk, rest') => (.classical pk, rest')
  fits
    | .classical _ => True
    | .hybrid bundle => wireBundleCodec.fits bundle
  decode_encode hop rest hfits := by
    cases hop with
    | classical pk =>
      rw [List.append_assoc, Codec.bool.decode_encode _ _ trivial]
      simp [(Codec.array 32).decode_encode pk rest trivial]
    | hybrid bundle =>
      rw [List.append_assoc, Codec.bool.decode_encode _ _ trivial]
      simp [wireBundleCodec.decode_encode bundle rest hfits]

def classicalLayerCodec : Codec ClassicalOnionLayer :=
  (Codec.bytes.pair <| Codec.bytes.pair Codec.bytes).iso (fun (e, r, p) => ⟨e, r, p⟩)
    (fun l => (l.ephemeralPk, l.encryptedRoutingInfo, l.encryptedPayload)) fun _ => rfl

def hybridLayerCodec : Codec HybridOnionLayer :=
  (((Codec.array 32).pair Codec.bytes).pair <| Codec.bool.pair Codec.bytes).iso
    (fun ((e, c), d, p) => ⟨⟨e, c⟩, d, p⟩)
    (fun l => ((l.hybridCt.x25519EphemeralPublic, l.hybridCt.mlkemCiphertext), l.isDestination, l.payload))
    fun _ => rfl

/-! ## Building and peeling -/

section Model

variable {K : Type} (O : OnionPrimitives K)

def deriveLayerKey (sharedSecret : K) : K :=
  O.deriveKey "SCMessenger-onion-layer-key-v1" [.secret sharedSecret]

def deriveOnionNonce (sharedSecret : K) (counter : UInt8) : Arr 24 :=
  Arr.fit 24 (O.keyBytes (O.deriveKey "SCMessenger-onion-layer-nonce-v1"
    [.secret sharedSecret, .raw [counter]])).1

def layerSeal (sharedSecret : K) (counter : UInt8) (msg : Bytes) : Bytes :=
  O.aeadSeal (deriveLayerKey O sharedSecret) (deriveOnionNonce O sharedSecret counter) msg
    (deriveOnionNonce O sharedSecret counter).1

def layerOpen (sharedSecret : K) (counter : UInt8) (ciphertext : Bytes) : Option Bytes :=
  O.aeadOpen (deriveLayerKey O sharedSecret) (deriveOnionNonce O sharedSecret counter) ciphertext
    (deriveOnionNonce O sharedSecret counter).1

/-- The random values drawn for one layer. -/
structure LayerDraws where
  ephemeralSecret : Arr 32
  encapRand : Arr 32

/-- What a layer holds: the message, or the next hop and the layers left for it. -/
inductive LayerContent where
  | message (payload : Bytes)
  | forward (nextHop : HopAddress) (remainingLayers : Bytes)

namespace LayerContent

def isDestination : LayerContent → Bool
  | .message _ => true
  | .forward _ _ => false

def routingInfo : LayerContent → Bytes
  | .message _ => []
  | .forward nextHop _ => hopCodec.serialize nextHop

def body : LayerContent → Bytes
  | .message payload => payload
  | .forward _ remainingLayers => remainingLayers

/-- The payload of a hybrid layer, which has no field of its own for the routing information. -/
def combined (content : LayerContent) : Bytes := content.routingInfo ++ content.body

def revealed : LayerContent → Option HopAddress × Bytes
  | .message payload => (none, payload)
  | .forward nextHop remainingLayers => (some nextHop, remainingLayers)

end LayerContent

def sealLayer (hop : HopAddress) (draws : LayerDraws) (content : LayerContent) : Except OnionError Bytes :=
  match hop with
  | .hybrid bundle =>
    match hybridEncapsulate O.toPrimitives bundle.x25519Public bundle.mlkemEncapsKey draws.ephemeralSecret
        draws.encapRand with
    | .error _ => .error .encryptionFailed
    | .ok (hybridCt, sharedSecret) =>
      .ok (hybridLayerCodec.serialize
        ⟨hybridCt, content.isDestination, layerSeal O sharedSecret 0 content.combined⟩)
  | .classical pk =>
    let sharedSecret := O.diffieHellman draws.ephemeralSecret pk
    .ok (classicalLayerCodec.serialize
      ⟨(O.x25519Public draws.ephemeralSecret).1, layerSeal O sharedSecret 0 content.routingInfo,
        layerSeal O sharedSecret 1 content.body⟩)

/-- The layers of a path: the destination's first, then each relay's around what is there. -/
def buildLayers (draws : Nat → LayerDraws) (payload : Bytes) : List HopAddress → Except OnionError Bytes
  | [] => .error (.tooManyHops maxOnionHops)
  | [destination] => sealLayer O destination (draws 0) (.message payload)
  | relay :: next :: rest =>
    match buildLayers (fun i => draws (i + 1)) payload (next :: rest) with
    | .error e => .error e
    | .ok remainingLayers => sealLayer O relay (draws 0) (.forward next remainingLayers)

def constructOnion (draws : Nat → LayerDraws) (path : List HopAddress) (payload : Bytes)
    (requirePq : Bool) : Except OnionError OnionConstructionResult :=
  match path with
  | [] => .error (.tooManyHops maxOnionHops)
  | first :: rest =>
    if (first :: rest).length > maxOnionHops then .error (.tooManyHops maxOnionHops)
    else
      let totalHops := UInt8.ofNat (first :: rest).length
      let pqHops := UInt8.ofNat ((first :: rest).countP HopAddress.isHybrid)
      if requirePq && pqHops != totalHops then .error .mixedHopsNotAllowed
      else
        match buildLayers O draws payload (first :: rest) with
        | .error e => .error e
        | .ok layerData => .ok ⟨⟨first.version, layerData, []⟩, pqHops, totalHops⟩

def openRoutingInfo (sharedSecret : K) (encryptedRoutingInfo : Bytes) : Option Bytes :=
  if encryptedRoutingInfo.isEmpty then some [] else layerOpen O sharedSecret 0 encryptedRoutingInfo

def peelClassicalLayer (layer : ClassicalOnionLayer) (relaySecretKey : Arr 32) :
    Except OnionError (Option HopAddress × Bytes) :=
  match Arr.ofBytes? 32 layer.ephemeralPk with
  | none => .error .invalidEnvelope
  | some ephemeralPk =>
    let sharedSecret := O.diffieHellman relaySecretKey ephemeralPk
    match openRoutingInfo O sharedSecret layer.encryptedRoutingInfo with
    | none => .error .decryptionFailed
    | some routingInfo =>
      match layerOpen O sharedSecret 1 layer.encryptedPayload with
      | none => .error .decryptionFailed
      | some payload =>
        if routingInfo.isEmpty then .ok (none, payload)
        else
          match hopCodec.decode routingInfo with
          | none => .error .invalidHopAddress
          | some (nextHop, _) => .ok (some nextHop, payload)

def peelHybridLayer (layer : HybridOnionLayer) (relaySecretKey : Arr 32)
    (relayMlkemKeypair : Option MlKem768KeyPair) : Except OnionError (Option HopAddress × Bytes) :=
  match relayMlkemKeypair with
  | none => .error .missingPqKeys
  | some keypair =>
    match hybridDecapsulate O.toPrimitives relaySecretKey keypair layer.hybridCt with
    | .error _ => .error .hybridDecryptionFailed
    | .ok sharedSecret =>
      match layerOpen O sharedSecret 0 layer.payload with
      | none => .error .decryptionFailed
      | some payload =>
        if layer.isDestination then .ok (none, payload)
        else
          match hopCodec.decode payload with
          | none => .error .invalidEnvelope
          | some (nextHop, remainingLayers) => .ok (some nextHop, remainingLayers)

def peelLayer (envelope : OnionEnvelope) (relaySecretKey : Arr 32)
    (relayMlkemKeypair : Option MlKem768KeyPair) : Except OnionError (Option HopAddress × Bytes) :=
  if envelope.version = 0x01 then
    match classicalLayerCodec.deserialize envelope.layerData with
    | none => .error .invalidEnvelope
    | some layer => peelClassicalLayer O layer relaySecretKey
  else if envelope.version = 0x02 then
    match hybridLayerCodec.deserialize envelope.layerData with
    | none => .error .invalidEnvelope
    | some layer => peelHybridLayer O layer relaySecretKey relayMlkemKeypair
  else .error .invalidEnvelope

/-! ## Nodes on a path -/

/-- A node with its secret keys.  One addressed by a bundle holds ML-KEM keys. -/
inductive OnionNode where
  | classical (secret : Arr 32) (keypair : Option MlKem768KeyPair)
  | hybrid (secret : Arr 32) (keypair : MlKem768KeyPair) (bundle : WireBundle)

namespace OnionNode

def secret : OnionNode → Arr 32
  | .classical secret _ => secret
  | .hybrid secret _ _ => secret

def keypair : OnionNode → Option MlKem768KeyPair
  | .classical _ keypair => keypair
  | .hybrid _ keypair _ => some keypair

def address : OnionNode → HopAddress
  | .classical secret _ => .classical (O.x25519Public secret)
  | .hybrid secret keypair bundle => .hybrid
      { bundle with
        x25519Public := O.x25519Public secret
        mlkemEncapsKey := (keypair.publicKey O.toPrimitives).1 }

end OnionNode

def forwarded (nextHop : HopAddress) (remainingLayers : Bytes) : OnionEnvelope :=
  ⟨nextHop.version, remainingLayers, []⟩

def Delivers (payload : Bytes) : List OnionNode → OnionEnvelope → Prop
  | [], _ => False
  | [node], envelope => peelLayer O envelope node.secret node.keypair = .ok (none, payload)
  | node :: next :: rest, envelope => ∃ remainingLayers,
      peelLayer O envelope node.secret node.keypair = .ok (some (next.address O), remainingLayers)
        ∧ Delivers payload (next :: rest) (forwarded (next.address O) remainingLayers)

end Model

/-! ## Sizes -/

def AeadGrows {K : Type} (P : Primitives K) : Prop :=
  ∀ k n p a, p.length ≤ (P.aeadSeal k n p a).length

theorem termAeadGrows : AeadGrows termPrimitives := by
  intro k n p a
  simp [termPrimitives]

theorem wireBundleCodec_fitsBelow {n : Nat} (hn : n < 256 ^ 8) : wireBundleCodec.FitsBelow n :=
  .iso <| .pair .array <| .pair .array <| .pair (.bytes hn) <| .pair (.option (.bytes hn)) <|
    .pair .u64 <| .pair (.bytes hn) <| .pair (.bytes hn) (.option (.bytes hn))

theorem hopCodec_fitsBelow {n : Nat} (hn : n < 256 ^ 8) : hopCodec.FitsBelow n := by
  intro ho hl
  cases ho with
  | classical pk => trivial
  | hybrid bundle =>
    refine wireBundleCodec_fitsBelow hn bundle (le_trans ?_ hl)
    simp [hopCodec]

theorem classicalLayerCodec_fitsBelow {n : Nat} (hn : n < 256 ^ 8) : classicalLayerCodec.FitsBelow n :=
  .iso <| .pair (.bytes hn) <| .pair (.bytes hn) (.bytes hn)

theorem hybridLayerCodec_fitsBelow {n : Nat} (hn : n < 256 ^ 8) : hybridLayerCodec.FitsBelow n :=
  .iso <| .pair (.pair .array (.bytes hn)) <| .pair .bool (.bytes hn)

theorem length_classicalLayer (l : ClassicalOnionLayer) :
    (classicalLayerCodec.serialize l).length = 24 + l.ephemeralPk.length
      + l.encryptedRoutingInfo.length + l.encryptedPayload.length := by
  simp [classicalLayerCodec, Codec.serialize, Codec.iso, Codec.pair, Codec.bytes, Codec.uint]
  omega

theorem length_hybridLayer (l : HybridOnionLayer) :
    (hybridLayerCodec.serialize l).length = 49 + l.hybridCt.mlkemCiphertext.length
      + l.payload.length := by
  have ha := l.hybridCt.x25519EphemeralPublic.2
  simp [hybridLayerCodec, Codec.serialize, Codec.iso, Codec.pair, Codec.bytes, Codec.uint, Codec.array,
    Codec.bool, ha]
  omega

/-! ## One layer -/

section Layers

variable {K : Type} {O : OnionPrimitives K}

theorem layerOpen_layerSeal (ha : AeadIdeal O.toPrimitives) (s : K) (c : UInt8)
    (msg : Bytes) : layerOpen O s c (layerSeal O s c msg) = some msg :=
  ha.open_seal _ _ _ _

theorem hopCodec_serialize_ne_nil (ho : HopAddress) : hopCodec.serialize ho ≠ [] := by
  cases ho <;> simp [Codec.serialize, hopCodec, Codec.bool]

variable {content : LayerContent} {data : Bytes}

theorem length_content_le (hg : AeadGrows O.toPrimitives) {ho : HopAddress} {draws : LayerDraws}
    (h : sealLayer O ho draws content = .ok data) :
    content.routingInfo.length ≤ data.length ∧ content.body.length ≤ data.length := by
  cases ho with
  | classical pk =>
    cases h
    rw [length_classicalLayer]
    have hr := hg (deriveLayerKey O (O.diffieHellman draws.ephemeralSecret pk))
      (deriveOnionNonce O (O.diffieHellman draws.ephemeralSecret pk) 0) content.routingInfo
      (deriveOnionNonce O (O.diffieHellman draws.ephemeralSecret pk) 0).1
    have hb := hg (deriveLayerKey O (O.diffieHellman draws.ephemeralSecret pk))
      (deriveOnionNonce O (O.diffieHellman draws.ephemeralSecret pk) 1) content.body
      (deriveOnionNonce O (O.diffieHellman draws.ephemeralSecret pk) 1).1
    simp only [layerSeal]
    omega
  | hybrid bundle =>
    simp only [sealLayer] at h
    split at h
    · cases h
    · rename_i hy s _
      cases h
      rw [length_hybridLayer]
      have hc := hg (deriveLayerKey O s) (deriveOnionNonce O s 0)
        content.combined (deriveOnionNonce O s 0).1
      have hp : content.combined.length = content.routingInfo.length + content.body.length :=
        List.length_append
      simp only [layerSeal]
      omega

theorem decode_routingInfo {n : Nat} (hn : n < 256 ^ 8) (hl : content.routingInfo.length ≤ n)
    {nh : HopAddress} {r : Bytes} (hc : content = .forward nh r)
    (re : Bytes) : hopCodec.decode (content.routingInfo ++ re) = some (nh, re) := by
  subst hc
  exact hopCodec.decode_encode nh re (hopCodec_fitsBelow hn nh hl)

theorem openRoutingInfo_layerSeal (ha : AeadIdeal O.toPrimitives) (hg : AeadGrows O.toPrimitives)
    (s : K) (r : Bytes) :
    openRoutingInfo O s (layerSeal O s 0 r) = some r := by
  unfold openRoutingInfo
  split
  · rename_i he
    have hl : r.length ≤ (layerSeal O s 0 r).length := hg _ _ _ _
    rw [List.isEmpty_iff.mp he] at hl
    rw [List.eq_nil_of_length_eq_zero (Nat.le_zero.mp hl)]
  · exact layerOpen_layerSeal ha _ _ _

/-- A node's own keys reveal whatever was sealed for its address. -/
theorem peelLayer_sealLayer (hd : DhIdeal O.toPrimitives) (hk : KemIdeal O.toPrimitives)
    (ha : AeadIdeal O.toPrimitives) (hg : AeadGrows O.toPrimitives) (no : OnionNode)
    {draws : LayerDraws} (h : sealLayer O (no.address O) draws content = .ok data)
    (hs : data.length < 256 ^ 8) :
    peelLayer O (forwarded (no.address O) data) no.secret no.keypair = .ok content.revealed := by
  obtain ⟨hr, -⟩ := length_content_le hg h
  have hdc : ∀ n r, content = .forward n r → ∀ re,
      hopCodec.decode (content.routingInfo ++ re) = some (n, re) :=
    fun _ _ hc re => decode_routingInfo hs hr hc re
  cases no with
  | classical secret keypair =>
    cases h
    have hre := classicalLayerCodec.deserialize_serialize_self
      (classicalLayerCodec_fitsBelow hs _ le_rfl)
    simp only [peelLayer, forwarded, OnionNode.address, HopAddress.version, HopAddress.isHybrid,
      Bool.false_eq_true, if_false, if_true, hre, OnionNode.secret, peelClassicalLayer,
      Arr.ofBytes?_val, hd.comm secret draws.ephemeralSecret, openRoutingInfo_layerSeal ha hg,
      layerOpen_layerSeal ha]
    cases content with
    | message payload => rfl
    | forward n r =>
      have hn := hdc n r rfl []
      have hne : (LayerContent.forward n r).routingInfo.isEmpty = false :=
        List.isEmpty_eq_false_iff.mpr (hopCodec_serialize_ne_nil n)
      rw [List.append_nil] at hn
      simp only [hne, hn]
      rfl
  | hybrid secret keypair bundle =>
    obtain ⟨ss, he, hde⟩ := hybridDecapsulate_encapsulate hd hk secret keypair
      draws.ephemeralSecret draws.encapRand
    simp only [sealLayer, OnionNode.address, he, Except.ok.injEq] at h
    subst h
    have hre := hybridLayerCodec.deserialize_serialize_self
      (hybridLayerCodec_fitsBelow hs _ le_rfl)
    simp only [peelLayer, forwarded, OnionNode.address, HopAddress.version, HopAddress.isHybrid, if_true,
      hre, OnionNode.secret, OnionNode.keypair, peelHybridLayer, hde,
      layerOpen_layerSeal ha]
    rw [if_neg (by decide)]
    cases content with
    | message payload => rfl
    | forward n r =>
      have hn := hdc n r rfl r
      simp only [LayerContent.isDestination, Bool.false_eq_true, if_false]
      rw [show LayerContent.combined (.forward n r)
        = LayerContent.routingInfo (.forward n r) ++ r from rfl, hn]
      rfl

theorem sealLayer_ok (hd : DhIdeal O.toPrimitives) (hk : KemIdeal O.toPrimitives) (n : OnionNode)
    (draws : LayerDraws) (content : LayerContent) :
    ∃ data, sealLayer O (n.address O) draws content = .ok data := by
  cases n with
  | classical secret keypair => exact ⟨_, rfl⟩
  | hybrid secret keypair bundle =>
    obtain ⟨ss, he, -⟩ := hybridDecapsulate_encapsulate hd hk secret keypair
      draws.ephemeralSecret draws.encapRand
    exact ⟨_, by simp only [sealLayer, OnionNode.address, he]; rfl⟩

/-! ## Whole paths -/

theorem buildLayers_ok (hd : DhIdeal O.toPrimitives) (hk : KemIdeal O.toPrimitives) (payload : Bytes)
    (n : OnionNode) (r : List OnionNode) (draws : Nat → LayerDraws) :
    ∃ data, buildLayers O draws payload ((n :: r).map (OnionNode.address O)) = .ok data := by
  induction r generalizing n draws with
  | nil => exact sealLayer_ok hd hk n (draws 0) (.message payload)
  | cons next r ih =>
    obtain ⟨ir, hi⟩ := ih next fun i => draws (i + 1)
    obtain ⟨data, hda⟩ := sealLayer_ok hd hk n (draws 0) (.forward (next.address O) ir)
    refine ⟨data, ?_⟩
    rw [List.map_cons] at hi
    simp only [List.map_cons, buildLayers, hi, hda]

variable {draws : Nat → LayerDraws} {payload : Bytes}

theorem buildLayers_cons {ho next : HopAddress} {r : List HopAddress}
    (h : buildLayers O draws payload (ho :: next :: r) = .ok data) :
    ∃ ir, buildLayers O (fun i => draws (i + 1)) payload (next :: r) = .ok ir
      ∧ sealLayer O ho (draws 0) (.forward next ir) = .ok data := by
  simp only [buildLayers] at h
  split at h
  · cases h
  · rename_i ir hi
    exact ⟨ir, hi, h⟩

theorem constructOnion_ok {first : HopAddress} {re : List HopAddress} {rp : Bool}
    {r : OnionConstructionResult}
    (h : constructOnion O draws (first :: re) payload rp = .ok r) :
    ∃ data, buildLayers O draws payload (first :: re) = .ok data
      ∧ r.envelope = forwarded first data := by
  simp only [constructOnion] at h
  split at h
  · cases h
  · split at h
    · cases h
    · split at h
      · cases h
      · rename_i data hd
        cases h
        exact ⟨data, hd, rfl⟩

theorem buildLayers_arrives (hd : DhIdeal O.toPrimitives) (hk : KemIdeal O.toPrimitives)
    (ha : AeadIdeal O.toPrimitives) (hg : AeadGrows O.toPrimitives) (n : OnionNode)
    (r : List OnionNode)
    (h : buildLayers O draws payload ((n :: r).map (OnionNode.address O)) = .ok data)
    (hs : data.length < 256 ^ 8) :
    Delivers O payload (n :: r) (forwarded (n.address O) data) := by
  induction r generalizing n draws data with
  | nil => exact peelLayer_sealLayer hd hk ha hg n h hs
  | cons next r ih =>
    obtain ⟨i, hin, hl⟩ := buildLayers_cons h
    have hi : i.length ≤ data.length := (length_content_le hg hl).2
    exact ⟨i, peelLayer_sealLayer hd hk ha hg n hl hs,
      ih next hin (hi.trans_lt hs)⟩

theorem countP_isHybrid {p : List HopAddress} (h : ∀ ho ∈ p, ho.isHybrid = true) :
    p.countP HopAddress.isHybrid = p.length :=
  List.countP_eq_length.mpr h

/-- **Onion routing delivers** along every path of one to five nodes, classical and hybrid in any mix. -/
theorem onion_delivers (hdh : DhIdeal O.toPrimitives) (hkem : KemIdeal O.toPrimitives)
    (haead : AeadIdeal O.toPrimitives) (hgrow : AeadGrows O.toPrimitives) (nodes : List OnionNode)
    (hne : nodes ≠ []) (hmax : nodes.length ≤ maxOnionHops) (payload : Bytes) (requirePq : Bool)
    (hpq : requirePq = true → ∀ node ∈ nodes, (node.address O).isHybrid = true) (draws : Nat → LayerDraws) :
    ∃ result, constructOnion O draws (nodes.map (OnionNode.address O)) payload requirePq = .ok result
      ∧ (result.envelope.layerData.length < 2 ^ 64 → Delivers O payload nodes result.envelope) := by
  cases nodes with
  | nil => exact absurd rfl hne
  | cons node r =>
    obtain ⟨data, hd⟩ := buildLayers_ok hdh hkem payload node r draws
    have hl : ¬ (node.address O :: r.map (OnionNode.address O)).length > maxOnionHops := by
      simpa using hmax
    have hal : (requirePq && (UInt8.ofNat
          ((node.address O :: r.map (OnionNode.address O)).countP HopAddress.isHybrid)
        != UInt8.ofNat (node.address O :: r.map (OnionNode.address O)).length)) = false := by
      cases requirePq with
      | false => rfl
      | true =>
        have ha : ∀ hop ∈ (node :: r).map (OnionNode.address O), hop.isHybrid = true := by
          intro hop hh
          obtain ⟨other, ho, rfl⟩ := List.mem_map.mp hh
          exact hpq rfl other ho
        rw [List.map_cons] at ha
        rw [countP_isHybrid ha]
        simp
    rw [List.map_cons] at hd
    refine ⟨_, by simp only [List.map_cons, constructOnion, if_neg hl, hal, hd]; rfl, ?_⟩
    intro hs
    exact buildLayers_arrives hdh hkem haead hgrow node r hd hs

end Layers

/-! ## A path over the term model -/

namespace SampleOnion

def primitives : OnionPrimitives Term :=
  { termPrimitives with keyBytes := fun t => Arr.fit 32 t.flatten.reverse }

def bundle : WireBundle where
  ed25519Public := Arr.fit 32 [9]
  x25519Public := Arr.fit 32 []
  mlkemEncapsKey := []
  supportedSuites := [0x02]
  mldsaPublic := none
  createdAt := 0
  signature := []
  mldsaSignature := none

def relay : OnionNode := .classical alice.x25519EncryptionSecret none
def destination : OnionNode := .hybrid bob.x25519EncryptionSecret bob.mlkemKeypair bundle

def draws (i : Nat) : LayerDraws := ⟨Arr.fit 32 [UInt8.ofNat i, 7], Arr.fit 32 [UInt8.ofNat i, 8]⟩

def isShort (result : Except OnionError OnionConstructionResult) : Bool :=
  match result with
  | .ok r => decide (r.envelope.layerData.length < 2 ^ 64)
  | .error _ => false

def path : List HopAddress := [relay, destination].map (OnionNode.address primitives)

theorem built : ∃ r, constructOnion primitives draws path [1, 2, 3] false = .ok r
    ∧ r.envelope.layerData.length < 2 ^ 64 := by
  have hs : isShort (constructOnion primitives draws path [1, 2, 3] false) = true := by decide +kernel
  cases hr : constructOnion primitives draws path [1, 2, 3] false with
  | error e =>
    rw [hr] at hs
    cases hs
  | ok r =>
    rw [hr] at hs
    exact ⟨r, rfl, of_decide_eq_true hs⟩

theorem delivers_to_hybrid : ∃ result,
    constructOnion primitives draws path [1, 2, 3] false = .ok result
      ∧ Delivers primitives [1, 2, 3] [relay, destination] result.envelope := by
  obtain ⟨result, hr, hs⟩ := built
  obtain ⟨other, ho, hd⟩ := onion_delivers (O := primitives) termDh termKem termAead termAeadGrows
    [relay, destination] (by simp) (by decide) [1, 2, 3] false (by simp) draws
  obtain rfl : result = other := Except.ok.inj (hr.symm.trans ho)
  exact ⟨result, hr, hd hs⟩

end SampleOnion

end SCMessenger
