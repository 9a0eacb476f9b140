import SCMessenger.Privacy.Onion

/-!
# Tampering with onion layers

Two marks of a layer are not authenticated: the `is_destination` flag of a hybrid one, and whether a
classical one has routing information.  The attacker may send any envelope but seals nothing (`onlyOpening`).
-/

namespace SCMessenger

section Model

variable {K : Type} (O : OnionPrimitives K)

def OnionPrimitives.onlyOpening (genuine : List Bytes) : OnionPrimitives K :=
  { O with aeadOpen := fun k n c a => if c ∈ genuine then O.aeadOpen k n c a else none }

def layerCiphertexts (envelope : OnionEnvelope) : List Bytes :=
  if envelope.version = 0x01 then
    match classicalLayerCodec.deserialize envelope.layerData with
    | none => []
    | some layer => [layer.encryptedRoutingInfo, layer.encryptedPayload]
  else
    match hybridLayerCodec.deserialize envelope.layerData with
    | none => []
    | some layer => [layer.payload]

def peelGenuine (node : OnionNode) (genuine envelope : OnionEnvelope) :
    Except OnionError (Option HopAddress × Bytes) :=
  peelLayer (O.onlyOpening (layerCiphertexts genuine)) envelope node.secret node.keypair

def TamperEvident (node : OnionNode) (genuine modified : OnionEnvelope) : Prop :=
  (∃ e, peelGenuine O node genuine modified = .error e)
    ∨ peelGenuine O node genuine modified = peelGenuine O node genuine genuine

def envelopeAt : List OnionNode → OnionEnvelope → Nat → Option (OnionNode × OnionEnvelope)
  | [], _, _ => none
  | node :: _, envelope, 0 => some (node, envelope)
  | node :: rest, envelope, i + 1 =>
    match peelLayer O envelope node.secret node.keypair with
    | .ok (some nextHop, remainingLayers) => envelopeAt rest (forwarded nextHop remainingLayers) i
    | _ => none

end Model

/-- The routing information is not removed, nor the flag turned, where that makes a difference. -/
def KeepsMarks (destination : Prop) (payload : Bytes) (genuine modified : OnionEnvelope) : Prop :=
  (genuine.version = 0x01 → modified.version = 0x01 → ∀ g m,
      classicalLayerCodec.deserialize genuine.layerData = some g →
      classicalLayerCodec.deserialize modified.layerData = some m →
      m = { g with encryptedRoutingInfo := [] } → destination)
    ∧ (genuine.version = 0x02 → modified.version = 0x02 → ∀ g m,
      hybridLayerCodec.deserialize genuine.layerData = some g →
      hybridLayerCodec.deserialize modified.layerData = some m →
      m = { g with isDestination := !g.isDestination } → destination ∧ hopCodec.decode payload = none)

/-- The nonces of a layer differ, and a Diffie-Hellman secret is not a derived key. -/
structure OnionIdeal {K : Type} (O : OnionPrimitives K) : Prop where
  nonce_ne : ∀ ss, deriveOnionNonce O ss 0 ≠ deriveOnionNonce O ss 1
  dh_ne_derived : ∀ a p c m, O.diffieHellman a p ≠ O.deriveKey c m

section Opening

variable {K : Type} {O : OnionPrimitives K}

theorem layerOpen_onlyOpening (g : List Bytes) (ss : K) (counter : UInt8) (c : Bytes) :
    layerOpen (O.onlyOpening g) ss counter c = if c ∈ g then layerOpen O ss counter c else none :=
  rfl

variable {c : Bytes}

theorem layerOpen_onlyOpening_of_mem {g : List Bytes} (h : c ∈ g) (ss : K) (counter : UInt8) :
    layerOpen (O.onlyOpening g) ss counter c = layerOpen O ss counter c := by
  rw [layerOpen_onlyOpening, if_pos h]

variable {ss : K} {counter : UInt8} {msg : Bytes}

theorem mem_of_layerOpen {g : List Bytes}
    (h : layerOpen (O.onlyOpening g) ss counter c = some msg) :
    c ∈ g ∧ layerOpen O ss counter c = some msg := by
  rw [layerOpen_onlyOpening] at h
  split at h
  · exact ⟨‹_›, h⟩
  · cases h

variable {ss' : K}

theorem layerOpen_layerSeal_inv (haead : AeadIdeal O.toPrimitives) (hkdf : KdfIdeal O.toPrimitives)
    {c' : UInt8} {msg' : Bytes}
    (h : layerOpen O ss' c' (layerSeal O ss counter msg) = some msg') :
    ss = ss' ∧ deriveOnionNonce O ss counter = deriveOnionNonce O ss' c' ∧ msg = msg' := by
  obtain ⟨hk, hn, hms, -⟩ := haead.inj _ _ _ _ _ _ _ _ ((haead.open_iff _ _ _ _ _).mp h)
  have hm := (hkdf.inj _ _ _ _ hk).2
  simp only [List.cons.injEq, Material.secret.injEq, and_true] at hm
  exact ⟨hm, hn, hms⟩

theorem peelGenuine_self (n : OnionNode) (envelope : OnionEnvelope) :
    peelGenuine O n envelope envelope = peelLayer O envelope n.secret n.keypair := by
  unfold peelGenuine peelLayer
  split
  · rename_i hv
    cases hl : classicalLayerCodec.deserialize envelope.layerData with
    | none => rfl
    | some l =>
      have hg : layerCiphertexts envelope = [l.encryptedRoutingInfo, l.encryptedPayload] := by
        simp only [layerCiphertexts, if_pos hv, hl]
      simp only [peelClassicalLayer, openRoutingInfo, hg,
        layerOpen_onlyOpening_of_mem List.mem_cons_self,
        layerOpen_onlyOpening_of_mem (List.mem_cons_of_mem _ List.mem_cons_self)]
      rfl
  · rename_i hv
    split
    · cases hl : hybridLayerCodec.deserialize envelope.layerData with
      | none => rfl
      | some l =>
        have hg : layerCiphertexts envelope = [l.payload] := by
          simp only [layerCiphertexts, if_neg hv, hl]
        simp only [peelHybridLayer, hg, layerOpen_onlyOpening_of_mem List.mem_cons_self]
        rfl
    · rfl

/-! ## What a modified layer can still reveal -/

variable {body : Bytes}

theorem classical_payload_opened (haead : AeadIdeal O.toPrimitives) (hkdf : KdfIdeal O.toPrimitives)
    (hideal : OnionIdeal O) {ro : Bytes}
    (h : layerOpen (O.onlyOpening [layerSeal O ss 0 ro, layerSeal O ss 1 body]) ss' 1 c = some msg) :
    ss = ss' ∧ c = layerSeal O ss 1 body ∧ msg = body := by
  obtain ⟨hm, ho⟩ := mem_of_layerOpen h
  rcases List.mem_cons.mp hm with rfl | hm
  · obtain ⟨rfl, hn, -⟩ := layerOpen_layerSeal_inv haead hkdf ho
    exact absurd hn (hideal.nonce_ne ss)
  · obtain rfl := List.mem_singleton.mp hm
    obtain ⟨hs, -, hms⟩ := layerOpen_layerSeal_inv haead hkdf ho
    exact ⟨hs, rfl, hms.symm⟩

theorem classical_routing_opened (haead : AeadIdeal O.toPrimitives) (hkdf : KdfIdeal O.toPrimitives)
    (hideal : OnionIdeal O) {ro : Bytes}
    (h : layerOpen (O.onlyOpening [layerSeal O ss 0 ro, layerSeal O ss 1 body]) ss' 0 c = some msg) :
    c = layerSeal O ss 0 ro ∧ msg = ro := by
  obtain ⟨hm, ho⟩ := mem_of_layerOpen h
  rcases List.mem_cons.mp hm with rfl | hm
  · exact ⟨rfl, (layerOpen_layerSeal_inv haead hkdf ho).2.2.symm⟩
  · obtain rfl := List.mem_singleton.mp hm
    obtain ⟨rfl, hn, -⟩ := layerOpen_layerSeal_inv haead hkdf ho
    exact absurd hn.symm (hideal.nonce_ne ss)

theorem hybrid_payload_opened (haead : AeadIdeal O.toPrimitives) (hkdf : KdfIdeal O.toPrimitives)
    (h : layerOpen (O.onlyOpening [layerSeal O ss 0 body]) ss' counter c = some msg) :
    ss = ss' ∧ c = layerSeal O ss 0 body := by
  obtain ⟨hm, ho⟩ := mem_of_layerOpen h
  obtain rfl := List.mem_singleton.mp hm
  exact ⟨(layerOpen_layerSeal_inv haead hkdf ho).1, rfl⟩

variable {secret : Arr 32}

theorem hybridDecapsulate_eq_ok {P : Primitives K} {keypair : MlKem768KeyPair} {ct : HybridCiphertext}
    (h : hybridDecapsulate P secret keypair ct = .ok ss) :
    ∃ s25519 s, ss = hybridSecret P s25519 s ct.x25519EphemeralPublic
      (P.x25519Public secret) ct.mlkemCiphertext (keypair.publicKey P).1 := by
  unfold hybridDecapsulate at h
  split at h
  · cases h
  · simp only at h
    split at h
    · cases h
    · split at h
      · cases h
      · rename_i s _
        cases h
        exact ⟨_, s, rfl⟩

theorem hybridDecapsulate_inj {P : Primitives K} (hkdf : KdfIdeal P) {keypair : MlKem768KeyPair}
    {ct ct' : HybridCiphertext} (h : hybridDecapsulate P secret keypair ct = .ok ss)
    (h' : hybridDecapsulate P secret keypair ct' = .ok ss) : ct = ct' := by
  obtain ⟨a, b, hs⟩ := hybridDecapsulate_eq_ok h
  obtain ⟨a', b', hs'⟩ := hybridDecapsulate_eq_ok h'
  have hm := (hkdf.inj _ _ _ _ (hs.symm.trans hs')).2
  simp only [List.cons.injEq, Material.raw.injEq] at hm
  obtain ⟨-, -, he, -, hml, -⟩ := hm
  obtain ⟨e, m⟩ := ct
  obtain ⟨e', m'⟩ := ct'
  obtain rfl : e = e' := Subtype.ext he
  obtain rfl : m = m' := hml
  rfl

variable {r : Option HopAddress × Bytes}

theorem peelClassicalLayer_eq_ok {l : ClassicalOnionLayer}
    (h : peelClassicalLayer O l secret = .ok r) :
    ∃ e ro p, l.ephemeralPk = e.1
      ∧ openRoutingInfo O (O.diffieHellman secret e) l.encryptedRoutingInfo = some ro
      ∧ layerOpen O (O.diffieHellman secret e) 1 l.encryptedPayload = some p := by
  unfold peelClassicalLayer at h
  split at h
  · cases h
  · rename_i e he
    simp only at h
    split at h
    · cases h
    · rename_i ro hr
      split at h
      · cases h
      · rename_i p hp
        exact ⟨e, ro, p, Arr.ofBytes?_eq_some.mp he, hr, hp⟩

variable {keypair : Option MlKem768KeyPair}

theorem peelHybridLayer_eq_ok {l : HybridOnionLayer}
    (h : peelHybridLayer O l secret keypair = .ok r) :
    ∃ pair ss p, keypair = some pair
      ∧ hybridDecapsulate O.toPrimitives secret pair l.hybridCt = .ok ss
      ∧ layerOpen O ss 0 l.payload = some p := by
  unfold peelHybridLayer at h
  split at h
  · cases h
  · rename_i pair
    split at h
    · cases h
    · rename_i ss hs
      split at h
      · cases h
      · rename_i p hp
        exact ⟨pair, ss, p, rfl, hs, hp⟩

variable {envelope : OnionEnvelope}

theorem peelLayer_eq_ok (h : peelLayer O envelope secret keypair = .ok r) :
    (envelope.version = 0x01 ∧ ∃ l, classicalLayerCodec.deserialize envelope.layerData = some l
        ∧ peelClassicalLayer O l secret = .ok r)
      ∨ (envelope.version = 0x02 ∧ ∃ l, hybridLayerCodec.deserialize envelope.layerData = some l
        ∧ peelHybridLayer O l secret keypair = .ok r) := by
  unfold peelLayer at h
  split at h
  · rename_i hv
    split at h
    · cases h
    · rename_i l hl
      exact .inl ⟨hv, l, hl, h⟩
  · split at h
    · rename_i hv
      split at h
      · cases h
      · rename_i l hl
        exact .inr ⟨hv, l, hl, h⟩
    · cases h

theorem peelLayer_of_classical {l : ClassicalOnionLayer} (hv : envelope.version = 0x01)
    (hl : classicalLayerCodec.deserialize envelope.layerData = some l) (secret : Arr 32)
    (keypair : Option MlKem768KeyPair) :
    peelLayer O envelope secret keypair = peelClassicalLayer O l secret := by
  simp only [peelLayer, if_pos hv, hl]

theorem peelLayer_of_hybrid {l : HybridOnionLayer} (hv : envelope.version = 0x02)
    (hl : hybridLayerCodec.deserialize envelope.layerData = some l) (secret : Arr 32)
    (keypair : Option MlKem768KeyPair) :
    peelLayer O envelope secret keypair = peelHybridLayer O l secret keypair := by
  have hn : envelope.version ≠ 0x01 := by
    rw [hv]
    decide
  simp only [peelLayer, if_neg hn, if_pos hv, hl]

def classicalLayerFor (O : OnionPrimitives K) (secret : Arr 32) (draws : LayerDraws)
    (content : LayerContent) : ClassicalOnionLayer :=
  let sharedSecret := O.diffieHellman draws.ephemeralSecret (O.x25519Public secret)
  ⟨(O.x25519Public draws.ephemeralSecret).1, layerSeal O sharedSecret 0 content.routingInfo,
    layerSeal O sharedSecret 1 content.body⟩

/-- A modified layer that is accepted is the genuine one, with or without routing information. -/
theorem peelLayer_classical_tampered (hdh : DhIdeal O.toPrimitives) (hkdf : KdfIdeal O.toPrimitives)
    (haead : AeadIdeal O.toPrimitives) (hideal : OnionIdeal O) {d : LayerDraws} {co : LayerContent}
    {mo : OnionEnvelope}
    (h : peelLayer (O.onlyOpening [(classicalLayerFor O secret d co).encryptedRoutingInfo,
      (classicalLayerFor O secret d co).encryptedPayload]) mo secret keypair = .ok r) :
    mo.version = 0x01 ∧ ∃ m, classicalLayerCodec.deserialize mo.layerData = some m
      ∧ (m = classicalLayerFor O secret d co
        ∨ m = { classicalLayerFor O secret d co with encryptedRoutingInfo := [] }) := by
  rcases peelLayer_eq_ok h with ⟨hv, m, hm, hpe⟩ | ⟨-, m, -, hpe⟩
  · refine ⟨hv, m, hm, ?_⟩
    obtain ⟨ephemeral, ro, p, he, hr, hp⟩ := peelClassicalLayer_eq_ok hpe
    obtain ⟨hs, hb, -⟩ := classical_payload_opened haead hkdf hideal hp
    -- one secret means one ephemeral key
    have hsa : O.x25519Public d.ephemeralSecret = ephemeral :=
      hdh.inj secret _ _ ((hdh.comm secret d.ephemeralSecret).trans hs)
    obtain ⟨me, mr, my⟩ := m
    simp only at he hb
    subst he hb hsa
    unfold openRoutingInfo at hr
    split at hr
    · rename_i hem
      obtain rfl : mr = [] := List.isEmpty_iff.mp hem
      exact .inr rfl
    · obtain ⟨hf, -⟩ := classical_routing_opened haead hkdf hideal hr
      obtain rfl : mr = _ := hf
      exact .inl rfl
  · obtain ⟨pair, ss, p, -, hd, hp⟩ := peelHybridLayer_eq_ok hpe
    obtain ⟨a, b, hdr⟩ := hybridDecapsulate_eq_ok hd
    obtain ⟨hme, ho⟩ := mem_of_layerOpen hp
    -- both ciphertexts were sealed under a Diffie-Hellman secret
    have hs : O.diffieHellman d.ephemeralSecret (O.x25519Public secret) = ss := by
      rcases List.mem_cons.mp hme with hf | hme
      · rw [hf] at ho
        exact (layerOpen_layerSeal_inv haead hkdf ho).1
      · rw [List.mem_singleton.mp hme] at ho
        exact (layerOpen_layerSeal_inv haead hkdf ho).1
    exact absurd (hs.trans hdr) (hideal.dh_ne_derived _ _ _ _)

/-- A modified layer that is accepted is the genuine one, its flag as it was or turned. -/
theorem peelLayer_hybrid_tampered (hkdf : KdfIdeal O.toPrimitives) (haead : AeadIdeal O.toPrimitives)
    (hideal : OnionIdeal O) {keypair : MlKem768KeyPair} (l : HybridOnionLayer)
    (hs : hybridDecapsulate O.toPrimitives secret keypair l.hybridCt = .ok ss)
    (hb : l.payload = layerSeal O ss 0 body) {mo : OnionEnvelope}
    (h : peelLayer (O.onlyOpening [l.payload]) mo secret (some keypair) = .ok r) :
    mo.version = 0x02 ∧ ∃ m, hybridLayerCodec.deserialize mo.layerData = some m
      ∧ (m = l ∨ m = { l with isDestination := !l.isDestination }) := by
  rw [hb] at h
  rcases peelLayer_eq_ok h with ⟨-, m, -, hpe⟩ | ⟨hv, m, hm, hpe⟩
  · obtain ⟨e, ro, p, -, -, hp⟩ := peelClassicalLayer_eq_ok hpe
    obtain ⟨a, b, hd⟩ := hybridDecapsulate_eq_ok hs
    have hdh := (hybrid_payload_opened haead hkdf hp).1
    exact absurd (hdh.symm.trans hd) (hideal.dh_ne_derived _ _ _ _)
  · refine ⟨hv, m, hm, ?_⟩
    obtain ⟨pair, ss', p, hpa, hde, hp⟩ := peelHybridLayer_eq_ok hpe
    obtain ⟨rfl, hf⟩ := hybrid_payload_opened haead hkdf hp
    cases hpa
    have hct := hybridDecapsulate_inj hkdf hs hde
    obtain ⟨ct, f, fi⟩ := l
    obtain ⟨mCt, mf, ml⟩ := m
    simp only at hct hf hb
    subst hct hf hb
    cases f <;> cases mf <;> simp

end Opening

/-! ## One layer and its modifications -/

section Layer

variable {K : Type} {O : OnionPrimitives K}

theorem peelClassicalLayer_stripped (hdh : DhIdeal O.toPrimitives) (haead : AeadIdeal O.toPrimitives)
    (secret : Arr 32) (d : LayerDraws) (co : LayerContent) :
    peelClassicalLayer (O.onlyOpening [(classicalLayerFor O secret d co).encryptedRoutingInfo,
        (classicalLayerFor O secret d co).encryptedPayload])
      { classicalLayerFor O secret d co with encryptedRoutingInfo := [] } secret
      = .ok (none, co.body) := by
  have hc : (O.onlyOpening [(classicalLayerFor O secret d co).encryptedRoutingInfo,
        (classicalLayerFor O secret d co).encryptedPayload]).diffieHellman secret
        (O.x25519Public d.ephemeralSecret)
      = O.diffieHellman d.ephemeralSecret (O.x25519Public secret) := hdh.comm secret d.ephemeralSecret
  have hm : (classicalLayerFor O secret d co).encryptedPayload
      ∈ [(classicalLayerFor O secret d co).encryptedRoutingInfo,
        (classicalLayerFor O secret d co).encryptedPayload] :=
    List.mem_cons_of_mem _ List.mem_cons_self
  have hb : layerOpen O (O.diffieHellman d.ephemeralSecret (O.x25519Public secret)) 1
      (classicalLayerFor O secret d co).encryptedPayload = some co.body :=
    layerOpen_layerSeal haead _ _ _
  have hk : Arr.ofBytes? 32 (classicalLayerFor O secret d co).ephemeralPk
      = some (O.x25519Public d.ephemeralSecret) := Arr.ofBytes?_val _
  simp only [peelClassicalLayer, hk, hc, openRoutingInfo, List.isEmpty_nil, if_true,
    layerOpen_onlyOpening_of_mem hm, hb]

theorem peelHybridLayer_flag (haead : AeadIdeal O.toPrimitives) {secret : Arr 32}
    {keypair : MlKem768KeyPair} {ct : HybridCiphertext} {ss : K}
    (hs : hybridDecapsulate O.toPrimitives secret keypair ct = .ok ss) (f : Bool) (body : Bytes) :
    peelHybridLayer (O.onlyOpening [layerSeal O ss 0 body]) ⟨ct, f, layerSeal O ss 0 body⟩ secret
        (some keypair)
      = if f then .ok (none, body)
        else
          match hopCodec.decode body with
          | none => .error .invalidEnvelope
          | some (n, rl) => .ok (some n, rl) := by
  have hs' : hybridDecapsulate (O.onlyOpening [layerSeal O ss 0 body]).toPrimitives secret keypair ct
      = .ok ss := hs
  cases hd : hopCodec.decode body <;>
    simp [peelHybridLayer, hs', layerOpen_onlyOpening_of_mem, layerOpen_layerSeal haead, hd]

/-- What a node was sent is told by the content of its layer. -/
structure LayerFor (O : OnionPrimitives K) (node : OnionNode) (content : LayerContent)
    (envelope : OnionEnvelope) : Prop where
  layer : ∃ draws data, sealLayer O (node.address O) draws content = .ok data
    ∧ envelope = forwarded (node.address O) data ∧ data.length < 256 ^ 8

variable (hdh : DhIdeal O.toPrimitives) (hkem : KemIdeal O.toPrimitives) (hkdf : KdfIdeal O.toPrimitives)
  (haead : AeadIdeal O.toPrimitives) (hgrow : AeadGrows O.toPrimitives) (hideal : OnionIdeal O)

include hdh hkem haead hgrow in
theorem LayerFor.peelGenuine_self {n : OnionNode} {co : LayerContent} {g : OnionEnvelope}
    (h : LayerFor O n co g) : peelGenuine O n g g = .ok co.revealed := by
  obtain ⟨draws, d, hl, rfl, hs⟩ := h.layer
  rw [SCMessenger.peelGenuine_self]
  exact peelLayer_sealLayer hdh hkem haead hgrow n hl hs

include hdh hkem hkdf haead hgrow hideal in
theorem tamperEvident_classical_iff {secret : Arr 32} {keypair : Option MlKem768KeyPair}
    {co : LayerContent} {ge mo : OnionEnvelope}
    (h : LayerFor O (.classical secret keypair) co ge) {d : Prop} {p : Bytes}
    (hd : d ↔ co.isDestination = true) :
    TamperEvident O (.classical secret keypair) ge mo
      ↔ KeepsMarks d p ge mo := by
  have hge := h.peelGenuine_self hdh hkem haead hgrow
  obtain ⟨draws, da, hl, rfl, hsi⟩ := h.layer
  obtain rfl : classicalLayerCodec.serialize (classicalLayerFor O secret draws co) = da :=
    Except.ok.inj hl
  have hre := classicalLayerCodec.deserialize_serialize_self (classicalLayerCodec_fitsBelow hsi _ le_rfl)
  generalize hg : classicalLayerCodec.serialize (classicalLayerFor O secret draws co) = da at *
  have hc : layerCiphertexts (forwarded (.classical (O.x25519Public secret)) da)
      = [(classicalLayerFor O secret draws co).encryptedRoutingInfo,
        (classicalLayerFor O secret draws co).encryptedPayload] := by
    simp only [layerCiphertexts, forwarded, HopAddress.version, HopAddress.isHybrid, Bool.false_eq_true,
      if_false, if_true, hre]
  have hs : ∀ m, mo.version = 0x01 →
      classicalLayerCodec.deserialize mo.layerData = some m →
      m = { classicalLayerFor O secret draws co with encryptedRoutingInfo := [] } →
      peelGenuine O (.classical secret keypair) (forwarded (.classical (O.x25519Public secret)) da) mo
        = .ok (none, co.body) := by
    rintro m hv hm rfl
    unfold peelGenuine
    rw [hc, peelLayer_of_classical hv hm]
    exact peelClassicalLayer_stripped hdh haead secret draws co
  constructor
  · intro he
    refine ⟨fun _ hv g m hgr hm hma => ?_,
      fun hv => absurd (show (0x01 : UInt8) = 0x02 from hv) (by decide)⟩
    obtain rfl : classicalLayerFor O secret draws co = g := Option.some.inj (hre.symm.trans hgr)
    have hp := hs m hv hm hma
    rcases he with ⟨e, her⟩ | hsa
    · exact absurd (hp.symm.trans her) (by simp)
    · have hr := Except.ok.inj (hp.symm.trans (hsa.trans hge))
      rw [hd]
      cases co with
      | message p => rfl
      | forward n rl => cases hr
  · intro hmr
    cases hp : peelGenuine O (.classical secret keypair)
        (forwarded (.classical (O.x25519Public secret)) da) mo with
    | error e => exact .inl ⟨e, hp⟩
    | ok r =>
      right
      have ho := hp
      unfold peelGenuine at ho
      rw [hc] at ho
      obtain ⟨hv, m, hm, rfl | hma⟩ := peelLayer_classical_tampered hdh hkdf haead hideal ho
      · unfold peelGenuine
        rw [peelLayer_of_classical hv hm, peelLayer_of_classical rfl hre]
      · have hla := hd.mp (hmr.1 rfl hv _ m hre hm hma)
        refine (hs m hv hm hma).trans (Eq.trans ?_ hge.symm)
        cases co with
        | message p => rfl
        | forward n rl => cases hla

include hdh hkem hkdf haead hgrow hideal in
theorem tamperEvident_hybrid_iff {secret : Arr 32} {keypair : MlKem768KeyPair} {b : WireBundle}
    {co : LayerContent} {ge mo : OnionEnvelope}
    (h : LayerFor O (.hybrid secret keypair b) co ge) {d : Prop} {p : Bytes}
    (hd : d ↔ co.isDestination = true)
    (hpa : co.isDestination = true → co = .message p) :
    TamperEvident O (.hybrid secret keypair b) ge mo
      ↔ KeepsMarks d p ge mo := by
  have hg := h.peelGenuine_self hdh hkem haead hgrow
  obtain ⟨draws, da, hl, rfl, hsi⟩ := h.layer
  obtain ⟨ss, he, hs⟩ := hybridDecapsulate_encapsulate hdh hkem secret keypair
    draws.ephemeralSecret draws.encapRand
  generalize hct : (⟨O.x25519Public draws.ephemeralSecret,
    (O.mlkemEncapsulate (keypair.publicKey O.toPrimitives) draws.encapRand).1.1⟩ : HybridCiphertext) = ct
    at he hs
  obtain rfl : hybridLayerCodec.serialize
      ⟨ct, co.isDestination, layerSeal O ss 0 co.combined⟩ = da := by
    simp only [sealLayer, OnionNode.address, he, Except.ok.injEq] at hl
    exact hl
  have hre := hybridLayerCodec.deserialize_serialize_self (hybridLayerCodec_fitsBelow hsi _ le_rfl)
  generalize hybridLayerCodec.serialize
    ⟨ct, co.isDestination, layerSeal O ss 0 co.combined⟩ = da at *
  generalize ha : (OnionNode.hybrid secret keypair b).address O = address at *
  have hv2 : (forwarded address da).version = 0x02 := by
    rw [← ha]
    rfl
  have hci : layerCiphertexts (forwarded address da) = [layerSeal O ss 0 co.combined] := by
    have hn : (forwarded address da).version ≠ 0x01 := by
      rw [hv2]
      decide
    simp only [layerCiphertexts, if_neg hn]
    simp only [forwarded, hre]
  have ht : ∀ m, mo.version = 0x02 →
      hybridLayerCodec.deserialize mo.layerData = some m →
      m = ⟨ct, !co.isDestination, layerSeal O ss 0 co.combined⟩ →
      peelGenuine O (.hybrid secret keypair b) (forwarded address da) mo
        = if !co.isDestination then .ok (none, co.combined)
          else
            match hopCodec.decode co.combined with
            | none => .error .invalidEnvelope
            | some (n, rl) => .ok (some n, rl) := by
    rintro m hv hm rfl
    unfold peelGenuine
    rw [hci, peelLayer_of_hybrid hv hm]
    exact peelHybridLayer_flag haead hs _ _
  constructor
  · intro hev
    refine ⟨fun hv => absurd (hv2.symm.trans hv) (by decide),
      fun _ hv g m hgr hm hma => ?_⟩
    obtain rfl := Option.some.inj (hre.symm.trans hgr)
    have hp := ht m hv hm hma
    rw [hd]
    cases co with
    | forward n rl =>
      -- a relay's layer with the flag turned hands out the address and the layers as the message
      rcases hev with ⟨e, her⟩ | hsa
      · exact absurd (hp.symm.trans her) (by simp [LayerContent.isDestination])
      · have hr := hp.symm.trans (hsa.trans hg)
        simp [LayerContent.isDestination, LayerContent.revealed] at hr
    | message p' =>
      obtain rfl : p' = p := by
        injection hpa rfl
      refine ⟨rfl, ?_⟩
      cases hdc : hopCodec.decode p' with
      | none => rfl
      | some hop =>
        have hc : LayerContent.combined (.message p') = p' := rfl
        simp only [LayerContent.isDestination, Bool.not_true, Bool.false_eq_true, if_false, hc,
          hdc] at hp
        rcases hev with ⟨e, her⟩ | hsa
        · cases hp.symm.trans her
        · cases hp.symm.trans (hsa.trans hg)
  · intro hmr
    cases hp : peelGenuine O (.hybrid secret keypair b) (forwarded address da) mo with
    | error e => exact .inl ⟨e, hp⟩
    | ok r =>
      right
      have ho := hp
      unfold peelGenuine at ho
      rw [hci] at ho
      obtain ⟨hv, m, hm, rfl | hma⟩ := peelLayer_hybrid_tampered hkdf haead hideal
        ⟨ct, co.isDestination, layerSeal O ss 0 co.combined⟩ hs rfl ho
      · unfold peelGenuine
        rw [peelLayer_of_hybrid hv hm, peelLayer_of_hybrid hv2 hre]
      · obtain ⟨hla, hno⟩ := hmr.2 hv2 hv _ m hre hm hma
        have hme := hpa (hd.mp hla)
        have hf := ht m hv hm hma
        rw [hme] at hf
        have hc : LayerContent.combined (.message p) = p := rfl
        simp only [LayerContent.isDestination, Bool.not_true, Bool.false_eq_true, if_false, hc,
          hno] at hf
        cases hp.symm.trans hf

include hdh hkem hkdf haead hgrow hideal in
/-- **Every relay can be made a destination** by some envelope in the place of its layer. -/
theorem relay_not_tamperEvident {no : OnionNode} {n : HopAddress} {rl : Bytes}
    {ge : OnionEnvelope} (h : LayerFor O no (.forward n rl) ge) :
    ∃ m, ¬ TamperEvident O no ge m := by
  have hr : False ↔ (LayerContent.forward n rl).isDestination = true := by
    simp [LayerContent.isDestination]
  cases no with
  | classical secret keypair =>
    obtain ⟨draws, d, hl, rfl, hs⟩ := h.layer
    obtain rfl := Except.ok.inj hl
    have hre := classicalLayerCodec.deserialize_serialize_self
      (classicalLayerCodec_fitsBelow hs _ le_rfl)
    rw [length_classicalLayer] at hs
    generalize hg : (⟨(O.x25519Public draws.ephemeralSecret).1, _, _⟩ : ClassicalOnionLayer) = g
      at hre hs h
    -- the layer without its routing information
    have hsh : (classicalLayerCodec.serialize { g with encryptedRoutingInfo := [] }).length < 256 ^ 8 := by
      rw [length_classicalLayer]
      simp only [List.length_nil]
      omega
    have hst := classicalLayerCodec.deserialize_serialize_self
      (classicalLayerCodec_fitsBelow hsh _ le_rfl)
    refine ⟨⟨0x01, classicalLayerCodec.serialize { g with encryptedRoutingInfo := [] }, []⟩,
      fun he => ?_⟩
    have hm : KeepsMarks False [] _ _ :=
      (tamperEvident_classical_iff hdh hkem hkdf haead hgrow hideal h hr).mp he
    exact hm.1 rfl rfl g _ hre hst rfl
  | hybrid secret keypair bundle =>
    obtain ⟨draws, d, hl, rfl, hs⟩ := h.layer
    obtain ⟨g, rfl⟩ : ∃ g, hybridLayerCodec.serialize g = d := by
      simp only [sealLayer, OnionNode.address] at hl
      split at hl
      · cases hl
      · exact ⟨_, Except.ok.inj hl⟩
    have hre := hybridLayerCodec.deserialize_serialize_self (hybridLayerCodec_fitsBelow hs _ le_rfl)
    rw [length_hybridLayer] at hs
    -- the layer with its flag turned
    have hsh : (hybridLayerCodec.serialize { g with isDestination := !g.isDestination }).length
        < 256 ^ 8 := by
      rw [length_hybridLayer]
      exact hs
    have ht := hybridLayerCodec.deserialize_serialize_self
      (hybridLayerCodec_fitsBelow hsh _ le_rfl)
    refine ⟨⟨0x02, hybridLayerCodec.serialize { g with isDestination := !g.isDestination }, []⟩,
      fun he => ?_⟩
    have hm : KeepsMarks False [] _ _ :=
      (tamperEvident_hybrid_iff hdh hkem hkdf haead hgrow hideal h hr (fun hla => by cases hla)).mp
        he
    exact (hm.2 rfl rfl g _ hre ht rfl).1

/-! ## Every hop of a path -/

include hdh hkem haead hgrow in
/-- The envelope that reaches a position holds the layer for the node there. -/
theorem envelopeAt_layerFor {p : Bytes} (n : OnionNode) (re : List OnionNode)
    {dr : Nat → LayerDraws} {d : Bytes}
    (h : buildLayers O dr p ((n :: re).map (OnionNode.address O)) = .ok d)
    (hs : d.length < 256 ^ 8) {i : Nat} (hi : i < (n :: re).length) :
    ∃ ho co g, envelopeAt O (n :: re) (forwarded (n.address O) d) i = some (ho, g)
      ∧ LayerFor O ho co g
      ∧ (i + 1 = (n :: re).length ↔ co.isDestination = true)
      ∧ (co.isDestination = true → co = .message p) := by
  induction re generalizing n dr d i with
  | nil =>
    obtain rfl : i = 0 := by simpa using hi
    exact ⟨n, .message p, _, rfl, ⟨dr 0, d, h, rfl, hs⟩, by simp [LayerContent.isDestination],
      fun _ => rfl⟩
  | cons next re ih =>
    obtain ⟨ir, hir, hl⟩ := buildLayers_cons h
    cases i with
    | zero =>
      exact ⟨n, .forward (next.address O) ir, _, rfl, ⟨dr 0, d, hl, rfl, hs⟩,
        by simp [LayerContent.isDestination], fun hla => by cases hla⟩
    | succ i =>
      have hp := peelLayer_sealLayer hdh hkem haead hgrow n hl hs
      have hin : ir.length < 256 ^ 8 := (length_content_le hgrow hl).2.trans_lt hs
      have hi' : i < (next :: re).length := by simpa using hi
      obtain ⟨ho, co, g, ha, hf, hla, hm⟩ := ih next hir hin hi'
      refine ⟨ho, co, g, ?_, hf, ?_, hm⟩
      · simp only [envelopeAt, hp, LayerContent.revealed]
        exact ha
      · rw [← hla]
        simp

end Layer

namespace SampleOnion

theorem nonce_head (ss : Term) (counter : UInt8) :
    (deriveOnionNonce primitives ss counter).1.head? = some counter := by
  have hb : primitives.keyBytes (primitives.deriveKey "SCMessenger-onion-layer-nonce-v1"
      [.secret ss, .raw [counter]]) = Arr.fit 32 (counter :: ss.flatten.reverse) := by
    simp [primitives, termPrimitives, Term.flatten, Term.ofList, Term.ofMaterial]
  unfold deriveOnionNonce
  rw [hb]
  simp [Arr.fit]

theorem ideal : OnionIdeal primitives where
  nonce_ne ss h := by
    have hh := congrArg (fun n : Arr 24 => n.1.head?) h
    simp only [nonce_head] at hh
    exact absurd (Option.some.inj hh) (by decide)
  dh_ne_derived a p c m h := by
    have hp : Term.unordered a.1 p.1 = .pair (.str c) (Term.ofList (m.map Term.ofMaterial)) := h
    rcases Term.unordered_cases a.1 p.1 with hc | hc <;> cases hc.symm.trans hp

end SampleOnion

end SCMessenger
