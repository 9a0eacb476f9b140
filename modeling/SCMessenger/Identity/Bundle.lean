import SCMessenger.Identity.KeyStore
import SCMessenger.Privacy.Onion

/-!
# Signed key bundles

`sign_bundle` and `verify_bundle` of `identity/keys.rs`.  Each of the three signature inputs is a text and
the fields one after the other, without their lengths.
-/

namespace SCMessenger

/-- ML-DSA-65: signing with a seed, and verifying under a key. -/
structure MlDsaScheme where
  sign : Arr 32 → Bytes → Arr 3309
  verify : Arr 1952 → Bytes → Arr 3309 → Bool

variable {K : Type} (P : Primitives K) (M : MlDsaScheme)

/-! ## Signature inputs -/

namespace WireBundle

def sigKeys (version : String) (b : WireBundle) : Bytes :=
  ascii version ++ b.ed25519Public.1 ++ b.x25519Public.1 ++ b.mlkemEncapsKey

def sigInputV3 (b : WireBundle) (mldsaPublic : Bytes) : Bytes :=
  b.sigKeys "iron-core keybundle v3" ++ mldsaPublic ++ leBytes 8 b.createdAt.toNat ++ b.supportedSuites

def sigInputV2 (b : WireBundle) : Bytes :=
  b.sigKeys "iron-core keybundle v2" ++ leBytes 8 b.createdAt.toNat ++ b.supportedSuites

def sigInputV1 (b : WireBundle) : Bytes :=
  b.sigKeys "iron-core keybundle v1" ++ leBytes 8 b.createdAt.toNat

def isDual (b : WireBundle) : Bool := b.mldsaPublic.isSome && b.mldsaSignature.isSome

end WireBundle

/-! ## Signing and verifying -/

def StoredKeys.signBundle (keys : StoredKeys) (createdAt : UInt64) : WireBundle :=
  let unsigned : WireBundle :=
    { keys.toIdentityKeys.bundle P [0x01, 0x03] with
      mldsaPublic := keys.mldsaKeypair.map (·.verifyingKey.1)
      createdAt
      signature := []
      mldsaSignature := none }
  let sigInput := unsigned.sigInputV3 (unsigned.mldsaPublic.getD [])
  { unsigned with
    signature := (P.edSign keys.signingKey sigInput).1
    mldsaSignature := keys.mldsaKeypair.map fun kp => (M.sign kp.signingKey sigInput).1 }

def verifyEd25519 (data signature : Bytes) (publicKey : Arr 32) : Except String Bool :=
  if P.edKeyValid publicKey = false then .error "signature error"
  else
    match Arr.ofBytes? 64 signature with
    | none => .error "Invalid signature"
    | some sig => .ok (P.edVerify publicKey data sig)

/-- `mldsa::verify`.  `M.verify` is also false for a signature that cannot be decoded. -/
def verifyMldsa (publicKey message signature : Bytes) : Except String Unit :=
  match Arr.ofBytes? 1952 publicKey with
  | none => .error s!"Invalid ML-DSA-65 public key length: expected 1952, got {publicKey.length}"
  | some vk =>
    match Arr.ofBytes? 3309 signature with
    | none => .error s!"Invalid ML-DSA-65 signature length: expected 3309, got {signature.length}"
    | some sig => if M.verify vk message sig then .ok () else .error "Signature verification failed: "

def verifyBundle (bundle : WireBundle) : Except String Unit :=
  match bundle.mldsaPublic, bundle.mldsaSignature with
  | some mldsaPublic, some mldsaSignature =>
    let sigInput := bundle.sigInputV3 mldsaPublic
    let edVerified := (verifyEd25519 P sigInput bundle.signature bundle.ed25519Public).toOption.getD false
    let mldsaVerified := (verifyMldsa M mldsaPublic sigInput mldsaSignature).isOk
    if edVerified && mldsaVerified then .ok ()
    else .error "Dual signature verification failed: both signatures must be valid"
  | _, _ =>
    if (verifyEd25519 P bundle.sigInputV2 bundle.signature bundle.ed25519Public).toOption.getD false then
      .ok ()
    else
      match verifyEd25519 P bundle.sigInputV1 bundle.signature bundle.ed25519Public with
      | .error e => .error e
      | .ok verifiedV1 => if verifiedV1 then .ok () else .error "Invalid signature on key bundle"

/-! ## What is accepted -/

def EdSigned (b : WireBundle) (m : Bytes) : Prop :=
  P.edKeyValid b.ed25519Public = true
    ∧ ∃ sig : Arr 64, b.signature = sig.1 ∧ P.edVerify b.ed25519Public m sig = true

variable {P M} {b b' : WireBundle} {m : Bytes}

theorem verifyEd25519_eq_true :
    verifyEd25519 P m b.signature b.ed25519Public = .ok true ↔ EdSigned P b m := by
  unfold verifyEd25519 EdSigned
  cases P.edKeyValid b.ed25519Public with
  | false => simp
  | true =>
    cases hsi : Arr.ofBytes? 64 b.signature with
    | none =>
      have hl := Arr.ofBytes?_eq_none.mp hsi
      simp only [Bool.true_eq_false, if_false, reduceCtorEq, true_and, false_iff]
      rintro ⟨sig, hs, -⟩
      exact hl (by rw [hs, sig.2])
    | some sig =>
      simp only [Bool.true_eq_false, if_false, Except.ok.injEq, true_and]
      rw [Arr.ofBytes?_eq_some] at hsi
      constructor
      · intro ho
        exact ⟨sig, hsi, ho⟩
      · rintro ⟨sig', hs, ho⟩
        rwa [Subtype.ext (hsi.symm.trans hs)]

theorem toOption_getD_eq_true {r : Except String Bool} : r.toOption.getD false = true ↔ r = .ok true := by
  cases r <;> simp [Except.toOption]

theorem isOk_iff {r : Except String Unit} : r.isOk = true ↔ r = .ok () := by
  cases r <;> simp [Except.isOk, Except.toBool]

theorem verifyBundle_dual {pk sig : Bytes} (hp : b.mldsaPublic = some pk)
    (hs : b.mldsaSignature = some sig) :
    verifyBundle P M b = .ok ()
      ↔ EdSigned P b (b.sigInputV3 pk) ∧ verifyMldsa M pk (b.sigInputV3 pk) sig = .ok () := by
  have hb : verifyBundle P M b
      = if (verifyEd25519 P (b.sigInputV3 pk) b.signature b.ed25519Public).toOption.getD false
          && (verifyMldsa M pk (b.sigInputV3 pk) sig).isOk then .ok ()
        else .error "Dual signature verification failed: both signatures must be valid" := by
    unfold verifyBundle
    rw [hp, hs]
  rw [← verifyEd25519_eq_true, ← toOption_getD_eq_true, ← isOk_iff (r := verifyMldsa M _ _ _),
    ← Bool.and_eq_true, hb]
  split <;> simp_all

theorem verifyBundle_legacy (h : b.isDual = false) :
    verifyBundle P M b = .ok () ↔ EdSigned P b b.sigInputV2 ∨ EdSigned P b b.sigInputV1 := by
  have hl : verifyBundle P M b
      = if (verifyEd25519 P b.sigInputV2 b.signature b.ed25519Public).toOption.getD false then .ok ()
        else
          match verifyEd25519 P b.sigInputV1 b.signature b.ed25519Public with
          | .error e => .error e
          | .ok v1 => if v1 then .ok () else .error "Invalid signature on key bundle" := by
    unfold verifyBundle
    cases hp : b.mldsaPublic with
    | none => rfl
    | some pk =>
      cases hs : b.mldsaSignature with
      | none => rfl
      | some sig => simp [WireBundle.isDual, hp, hs] at h
  rw [hl, ← verifyEd25519_eq_true, ← verifyEd25519_eq_true, ← toOption_getD_eq_true]
  split
  · simp_all
  · cases hv1 : verifyEd25519 P b.sigInputV1 b.signature b.ed25519Public with
    | error e => simp_all
    | ok v => cases v <;> simp_all

theorem verifyMldsa_length {pk sig : Bytes} (h : verifyMldsa M pk m sig = .ok ()) : pk.length = 1952 := by
  unfold verifyMldsa at h
  cases hp : Arr.ofBytes? 1952 pk with
  | none => simp [hp] at h
  | some vk => rw [Arr.ofBytes?_eq_some.mp hp, vk.2]

/-! ## What the signatures bind -/

def EdUnique (P : Primitives K) : Prop :=
  ∀ pk m m' sig, P.edVerify pk m sig = true → P.edVerify pk m' sig = true → m = m'

theorem EdSigned.unique (he : EdUnique P) {m' : Bytes} (hk : b'.ed25519Public = b.ed25519Public)
    (hsi : b'.signature = b.signature) (h : EdSigned P b m) (h' : EdSigned P b' m') : m' = m := by
  obtain ⟨-, sig, hs, ho⟩ := h
  obtain ⟨-, sig', hs', ho'⟩ := h'
  rw [Subtype.ext (hs'.symm.trans (hsi.trans hs)), hk] at ho'
  exact he _ _ _ _ ho' ho

/-- The keys and suites two bundles offer are the same. -/
structure BundlesAgree (b b' : WireBundle) : Prop where
  x25519Public : b'.x25519Public = b.x25519Public
  mlkemEncapsKey : b'.mlkemEncapsKey = b.mlkemEncapsKey
  mldsaPublic : b'.mldsaPublic = b.mldsaPublic
  createdAt : b'.createdAt = b.createdAt
  supportedSuites : b'.supportedSuites = b.supportedSuites

theorem sigKeys_append_ne {v v' : String} {r r' : Bytes} (hl : (ascii v').length = (ascii v).length)
    (hn : ascii v' ≠ ascii v) : b'.sigKeys v' ++ r' ≠ b.sigKeys v ++ r := by
  intro h
  simp only [WireBundle.sigKeys, List.append_assoc] at h
  exact hn (List.append_inj_left h hl)

theorem u64_eq_of_leBytes {x y : UInt64} (h : leBytes 8 x.toNat = leBytes 8 y.toNat) : x = y :=
  UInt64.toNat.inj (leBytes_inj x.toNat_lt y.toNat_lt h)

theorem agree_of_sigInputV3 {pk pk' : Bytes} (hp : b.mldsaPublic = some pk)
    (hp' : b'.mldsaPublic = some pk') (hl : pk'.length = pk.length)
    (hm : b'.mlkemEncapsKey.length = b.mlkemEncapsKey.length) (h : b'.sigInputV3 pk' = b.sigInputV3 pk) :
    BundlesAgree b b' := by
  simp only [WireBundle.sigInputV3, WireBundle.sigKeys] at h
  obtain ⟨h, hs⟩ := List.append_inj h (by
    simp [hl, hm, b.ed25519Public.2, b'.ed25519Public.2, b.x25519Public.2, b'.x25519Public.2])
  obtain ⟨h, ht⟩ := List.append_inj' h (by simp)
  obtain ⟨h, hml⟩ := List.append_inj' h hl
  obtain ⟨h, hk⟩ := List.append_inj' h hm
  obtain ⟨-, hx⟩ := List.append_inj' h (by rw [b.x25519Public.2, b'.x25519Public.2])
  exact ⟨Subtype.ext hx, hk, by rw [hp, hp', hml], u64_eq_of_leBytes ht, hs⟩

theorem sigInputV3_of_signature (hed : EdUnique P) {pk sig : Bytes} (hp : b.mldsaPublic = some pk)
    (hsg : b.mldsaSignature = some sig) (hb : verifyBundle P M b = .ok ())
    (hk : b'.ed25519Public = b.ed25519Public) (hs : b'.signature = b.signature)
    (hb' : verifyBundle P M b' = .ok ()) :
    ∃ pk', b'.mldsaPublic = some pk' ∧ pk'.length = pk.length ∧ b'.sigInputV3 pk' = b.sigInputV3 pk := by
  obtain ⟨hsi, hm⟩ := (verifyBundle_dual hp hsg).mp hb
  cases hd : b'.isDual with
  | false =>
    rcases (verifyBundle_legacy hd).mp hb' with hv | hv
    · have he := hsi.unique hed hk hs hv
      simp only [WireBundle.sigInputV2, WireBundle.sigInputV3, List.append_assoc] at he
      exact absurd he (sigKeys_append_ne (by decide) (by decide))
    · have he := hsi.unique hed hk hs hv
      simp only [WireBundle.sigInputV1, WireBundle.sigInputV3, List.append_assoc] at he
      exact absurd he (sigKeys_append_ne (by decide) (by decide))
  | true =>
    obtain ⟨hp', hs'⟩ := Bool.and_eq_true_iff.mp hd
    obtain ⟨pk', hp'⟩ := Option.isSome_iff_exists.mp hp'
    obtain ⟨sig', hs'⟩ := Option.isSome_iff_exists.mp hs'
    obtain ⟨hsi', hm'⟩ := (verifyBundle_dual hp' hs').mp hb'
    exact ⟨pk', hp', by rw [verifyMldsa_length hm, verifyMldsa_length hm'],
      hsi.unique hed hk hs hsi'⟩

theorem exists_disagreeing (h : b.isDual = false) (hb : verifyBundle P M b = .ok ()) :
    ∃ b' : WireBundle, b'.ed25519Public = b.ed25519Public ∧ b'.signature = b.signature
      ∧ verifyBundle P M b' = .ok () ∧ b'.mlkemEncapsKey = b.mlkemEncapsKey
      ∧ b'.mldsaPublic ≠ b.mldsaPublic := by
  refine ⟨{ b with
    mldsaPublic := if b.mldsaPublic = none then some [] else none
    mldsaSignature := none }, rfl, rfl, ?_, rfl, ?_⟩
  · have hl := (verifyBundle_legacy h).mp hb
    exact (verifyBundle_legacy (by simp [WireBundle.isDual])).mpr hl
  · simp only
    split
    case isTrue hnone => simp [hnone]
    case isFalse hs => exact fun he => hs he.symm

/-- **A signature binds the bundle exactly if both ML-DSA fields are there.** -/
theorem bundle_binding_iff (hed : EdUnique P) (hb : verifyBundle P M b = .ok ()) :
    (∀ b', b'.ed25519Public = b.ed25519Public → b'.signature = b.signature → verifyBundle P M b' = .ok () →
        (BundlesAgree b b' ↔ b'.mlkemEncapsKey.length = b.mlkemEncapsKey.length))
      ↔ b.isDual = true := by
  constructor
  · intro hbi
    by_contra hd
    rw [Bool.not_eq_true] at hd
    obtain ⟨b', hk, hsa, hb', hm, hn⟩ := exists_disagreeing hd hb
    exact hn ((hbi b' hk hsa hb').mpr (by rw [hm])).mldsaPublic
  · intro hd b' hk hsa hb'
    obtain ⟨hp, hs⟩ := Bool.and_eq_true_iff.mp hd
    obtain ⟨pk, hp⟩ := Option.isSome_iff_exists.mp hp
    obtain ⟨sig, hs⟩ := Option.isSome_iff_exists.mp hs
    obtain ⟨pk', hp', hl, hi⟩ := sigInputV3_of_signature hed hp hs hb hk hsa hb'
    exact ⟨fun ha => by rw [ha.mlkemEncapsKey],
      fun hm => agree_of_sigInputV3 hp hp' hl hm hi⟩

/-- **What is signed is accepted exactly if there is an ML-DSA key**: v3 is always signed. -/
theorem signed_bundle_accepted_iff (hed : EdUnique P) (k : StoredKeys) (c : UInt64)
    (hml : ∀ kp ∈ k.mldsaKeypair, ∀ m, M.verify kp.verifyingKey m (M.sign kp.signingKey m) = true)
    (hs : let b := k.signBundle P M c
      EdSigned P b (b.sigInputV3 (b.mldsaPublic.getD []))) :
    verifyBundle P M (k.signBundle P M c) = .ok () ↔ k.mldsaKeypair.isSome = true := by
  cases hk : k.mldsaKeypair with
  | none =>
    rw [verifyBundle_legacy (by simp [WireBundle.isDual, StoredKeys.signBundle, hk])]
    refine iff_of_false ?_ (by simp)
    rintro (hv | hv)
    all_goals
      have he := hs.unique hed rfl rfl hv
      simp only [WireBundle.sigInputV1, WireBundle.sigInputV2, WireBundle.sigInputV3, List.append_assoc] at he
      exact sigKeys_append_ne (by decide) (by decide) he
  | some kp =>
    have hp : (k.signBundle P M c).mldsaPublic = some kp.verifyingKey.1 := by
      simp [StoredKeys.signBundle, hk]
    simp only [hp, Option.getD_some] at hs
    refine iff_of_true ((verifyBundle_dual hp (by simp only [StoredKeys.signBundle, hk]; rfl)).mpr ⟨hs, ?_⟩) rfl
    simp [verifyMldsa, StoredKeys.signBundle, hk, WireBundle.sigInputV3, WireBundle.sigKeys, hml kp hk]

/-! ## Samples -/

def oneMessage (message : Bytes) : Primitives Term :=
  { termPrimitives with edVerify := fun _ m _ => decide (m = message) }

theorem edVerify_oneMessage (pk : Arr 32) (me : Bytes) (sig : Arr 64) :
    (oneMessage me).edVerify pk me sig = true := by
  simp [oneMessage]

theorem edUnique_oneMessage (me : Bytes) : EdUnique (oneMessage me) := by
  intro pk m m' sig h h'
  exact (of_decide_eq_true h).trans (of_decide_eq_true h').symm

def anyMldsa : MlDsaScheme := ⟨fun _ _ => Arr.fit 3309 [], fun _ _ _ => true⟩

def sampleDual : WireBundle :=
  { alice.bundle termPrimitives [0x01, 0x03] with
    mldsaPublic := some (Arr.fit 1952 []).1
    createdAt := 0
    signature := (Arr.fit 64 []).1
    mldsaSignature := some (Arr.fit 3309 []).1 }

theorem bundle_binding_dual :
    let P := oneMessage (sampleDual.sigInputV3 (Arr.fit 1952 []).1)
    verifyBundle P anyMldsa sampleDual = .ok ()
      ∧ ∀ b', b'.ed25519Public = sampleDual.ed25519Public → b'.signature = sampleDual.signature →
        verifyBundle P anyMldsa b' = .ok () →
          (BundlesAgree sampleDual b' ↔ b'.mlkemEncapsKey.length = sampleDual.mlkemEncapsKey.length) := by
  have ha : verifyBundle (oneMessage (sampleDual.sigInputV3 (Arr.fit 1952 []).1)) anyMldsa sampleDual
      = .ok () := by
    refine (verifyBundle_dual rfl rfl).mpr ⟨⟨rfl, _, rfl, edVerify_oneMessage _ _ _⟩, ?_⟩
    simp [verifyMldsa, anyMldsa]
  exact ⟨ha, (bundle_binding_iff (edUnique_oneMessage _) ha).mpr rfl⟩

theorem signed_bundle_accepted_alice :
    let P := oneMessage (sampleDual.sigInputV3 (Arr.fit 1952 []).1)
    verifyBundle P anyMldsa (StoredKeys.signBundle P anyMldsa ⟨alice, some ⟨Arr.fit 1952 [], Arr.fit 32 []⟩⟩ 0)
      = .ok () :=
  (signed_bundle_accepted_iff (edUnique_oneMessage _) _ 0 (by simp [anyMldsa])
    ⟨rfl, _, rfl, edVerify_oneMessage _ _ _⟩).mpr rfl

def sampleLegacy (suites : Bytes) : WireBundle :=
  { alice.bundle termPrimitives suites with
    mldsaPublic := none
    createdAt := 0
    signature := (Arr.fit 64 []).1
    mldsaSignature := none }

/-- The suites of a bundle of version v1 can be replaced. -/
theorem suites_replaced :
    let P := oneMessage (sampleLegacy [0x01, 0x03]).sigInputV1
    EdUnique P ∧ verifyBundle P anyMldsa (sampleLegacy [0x01, 0x03]) = .ok ()
      ∧ verifyBundle P anyMldsa (sampleLegacy [0x01]) = .ok ()
      ∧ (sampleLegacy [0x01]).ed25519Public = (sampleLegacy [0x01, 0x03]).ed25519Public
      ∧ (sampleLegacy [0x01]).signature = (sampleLegacy [0x01, 0x03]).signature
      ∧ ¬ BundlesAgree (sampleLegacy [0x01, 0x03]) (sampleLegacy [0x01]) := by
  have ha : ∀ suites, verifyBundle (oneMessage (sampleLegacy [0x01, 0x03]).sigInputV1) anyMldsa
      (sampleLegacy suites) = .ok () := by
    intro suites
    -- the suites are not part of the input
    have hi : (sampleLegacy suites).sigInputV1 = (sampleLegacy [0x01, 0x03]).sigInputV1 := rfl
    refine (verifyBundle_legacy rfl).mpr (.inr ⟨rfl, _, rfl, ?_⟩)
    rw [hi]
    exact edVerify_oneMessage _ _ _
  exact ⟨edUnique_oneMessage _, ha _, ha _, rfl, rfl,
    fun h => absurd h.supportedSuites (by decide)⟩

end SCMessenger
