import SCMessenger.Crypto.Ratchet

/-!
# The stored form of a session

`SerializableRatchetSession` of `crypto/session_manager.rs`, every key as hexadecimal text.  Its JSON text
is not part of the model.
-/

namespace SCMessenger

/-- A chain on disk. -/
structure ChainState where
  chainKeyHex : String
  index : UInt32

/-- A session on disk. -/
structure SerializableRatchetSession where
  ourDhSecretHex : String
  ourDhPublicHex : String
  theirDhPublicHex : Option String
  rootKeyHex : String
  sendingChain : Option ChainState
  receivingChain : Option ChainState
  dhStepCount : UInt32
  initialized : Bool
  hasIdentitySecret : Bool
  identitySecretHex : Option String
  negotiatedSuite : Option UInt8
  transcriptHashHex : Option String
  peerConfirmed : Bool
  bootstrapHctEphemeralHex : Option String
  bootstrapHctMlkemHex : Option String
  skippedKeys : List (String × UInt32 × String)

/-! ## Writing -/

/-- The cached keys in the order of their names; the source's order is that of its hash map. -/
def RatchetSession.skippedKeysSnapshot (s : RatchetSession (Arr 32)) : List (SkipKey × Arr 32) :=
  s.skippedKeys.toList

def ChainState.ofChain (c : Chain (Arr 32)) : ChainState := ⟨hexEncode c.chainKey.1, c.index⟩

def skippedKeyHex (e : SkipKey × Arr 32) : String × UInt32 × String :=
  (hexEncode e.1.1.1, e.1.2, hexEncode e.2.1)

namespace SerializableRatchetSession

def fromSession (s : RatchetSession (Arr 32)) : SerializableRatchetSession where
  ourDhSecretHex := hexEncode s.ourDhSecret.1
  ourDhPublicHex := hexEncode s.ourDhPublic.1
  theirDhPublicHex := s.theirDhPublic.map (hexEncode ·.1)
  rootKeyHex := hexEncode s.rootKey.1
  sendingChain := s.sendingChain.map ChainState.ofChain
  receivingChain := s.receivingChain.map ChainState.ofChain
  dhStepCount := s.dhStepCount
  initialized := s.initialized
  hasIdentitySecret := s.ourIdentitySecret.isSome
  identitySecretHex := s.ourIdentitySecret.map (hexEncode ·.1)
  negotiatedSuite := s.negotiatedSuite
  transcriptHashHex := s.transcriptHash.map (hexEncode ·.1)
  peerConfirmed := s.peerConfirmed
  bootstrapHctEphemeralHex := s.bootstrapHct.map (hexEncode ·.x25519EphemeralPublic.1)
  bootstrapHctMlkemHex := s.bootstrapHct.map (hexEncode ·.mlkemCiphertext)
  skippedKeys := s.skippedKeysSnapshot.map skippedKeyHex

end SerializableRatchetSession

/-! ## Reading -/

def readHex (context text : String) : Except String Bytes :=
  (hexDecode text).mapError fun e => context ++ e.text

def readArr32 (field text : String) : Except String (Arr 32) := do
  let bytes ← readHex ("Invalid " ++ field ++ "_hex: ") text
  match Arr.ofBytes? 32 bytes with
  | none => .error (field ++ " must be 32 bytes")
  | some arr => .ok arr

def readOptional {α β : Type} (read : α → Except String β) : Option α → Except String (Option β)
  | none => .ok none
  | some a => (read a).map some

def readChain (side : String) (cs : ChainState) : Except String (Chain (Arr 32)) :=
  match hexDecodeToSlice 32 cs.chainKeyHex with
  | .error e => .error ("Corrupt " ++ side ++ " chain_key_hex in DB: " ++ e.text)
  | .ok key => .ok ⟨key, cs.index⟩

def readBootstrapHct : Option String → Option String → Except String (Option HybridCiphertext)
  | some ephemeralHex, some mlkemHex => do
    let e ← readHex "bad eph: " ephemeralHex
    let m ← readHex "bad mlkem: " mlkemHex
    match Arr.ofBytes? 32 e, Arr.ofBytes? 1088 m with
    | some e, some m => .ok (some ⟨e, m.1⟩)
    | _, _ => .error "bad hct lengths"
  | _, _ => .ok none

def readSkippedKey (dhHex keyHex : String) : Except String (Arr 32 × Arr 32) := do
  let dh ← readHex "Invalid skipped_keys dh hex: " dhHex
  let key ← readHex "Invalid skipped_keys key hex: " keyHex
  match Arr.ofBytes? 32 dh, Arr.ofBytes? 32 key with
  | some dh, some key => .ok (dh, key)
  | _, _ => .error "skipped_keys entries must be 32 bytes each"

def readSkippedKeys (m : SkippedKeys (Arr 32)) :
    List (String × UInt32 × String) → Except String (SkippedKeys (Arr 32))
  | [] => .ok m
  | (dhHex, index, keyHex) :: rest => do
    let (dh, key) ← readSkippedKey dhHex keyHex
    readSkippedKeys (m.insert (dh, index) key) rest

/-- The session of a record, without post-quantum fields and with the counter at zero. -/
def SerializableRatchetSession.intoSession (r : SerializableRatchetSession) :
    Except String (RatchetSession (Arr 32)) := do
  let ourDhSecret ← readArr32 "our_dh_secret" r.ourDhSecretHex
  let ourDhPublic ← readArr32 "our_dh_public" r.ourDhPublicHex
  let theirDhPublic ← readOptional (readArr32 "their_dh_public") r.theirDhPublicHex
  let rootKey ← readArr32 "root_key" r.rootKeyHex
  let sendingChain ← readOptional (readChain "sending") r.sendingChain
  let receivingChain ← readOptional (readChain "receiving") r.receivingChain
  let ourIdentitySecret ← readOptional (readArr32 "identity_secret") r.identitySecretHex
  let transcriptHash ← readOptional (readArr32 "transcript_hash") r.transcriptHashHex
  let bootstrapHct ← readBootstrapHct r.bootstrapHctEphemeralHex r.bootstrapHctMlkemHex
  let skippedKeys ← readSkippedKeys ∅ r.skippedKeys
  return {
    ourDhSecret, ourDhPublic, theirDhPublic, rootKey, sendingChain, receivingChain
    dhStepCount := r.dhStepCount
    skippedKeys
    initialized := r.initialized
    ourIdentitySecret
    negotiatedSuite := r.negotiatedSuite
    transcriptHash
    peerConfirmed := r.peerConfirmed
    bootstrapHct
    pqOurKeypair := none
    pqPrevKeypair := none
    pqTheirEncapsKey := none
    pqPendingCt := none
    pqPendingSent := none
    pqPendingRecv := none
    pqLastMixedFp := none
    transitionCounter := 0 }

/-! ## Reading back what was written -/

@[simp] theorem readHex_hexEncode (c : String) (b : Bytes) : readHex c (hexEncode b) = .ok b := by
  simp [readHex, Except.mapError]

@[simp] theorem readArr32_hexEncode (f : String) (a : Arr 32) : readArr32 f (hexEncode a.1) = .ok a := by
  simp [readArr32, bind, Except.bind]

@[simp] theorem readChain_ofChain (s : String) (c : Chain (Arr 32)) :
    readChain s (ChainState.ofChain c) = .ok c := by
  simp [readChain, ChainState.ofChain]

theorem readOptional_map {α β : Type} {r : α → Except String β} {w : β → α}
    (h : ∀ b, r (w b) = .ok b) (o : Option β) : readOptional r (o.map w) = .ok o := by
  cases o with
  | none => rfl
  | some b => simp [readOptional, h, Except.map]

theorem readBootstrapHct_hexEncode {o : Option HybridCiphertext}
    (h : ∀ hct, o = some hct → hct.mlkemCiphertext.length = 1088) :
    readBootstrapHct (o.map (hexEncode ·.x25519EphemeralPublic.1))
      (o.map (hexEncode ·.mlkemCiphertext)) = .ok o := by
  cases o with
  | none => rfl
  | some hct =>
    have hl := h hct rfl
    have hm : Arr.ofBytes? 1088 hct.mlkemCiphertext = some ⟨hct.mlkemCiphertext, hl⟩ :=
      Arr.ofBytes?_eq_some.mpr rfl
    simp [readBootstrapHct, hm, bind, Except.bind]

theorem readSkippedKeys_map (l : List (SkipKey × Arr 32)) :
    ∀ m, readSkippedKeys m (l.map skippedKeyHex) = .ok (l.foldl (fun m e => m.insert e.1 e.2) m) := by
  induction l with
  | nil => intro m; rfl
  | cons e l ih =>
    intro m
    have hr : readSkippedKey (hexEncode e.1.1.1) (hexEncode e.2.1) = .ok (e.1.1, e.2) := by
      simp [readSkippedKey, bind, Except.bind]
    rw [List.map_cons, skippedKeyHex, readSkippedKeys, hr]
    exact ih _

theorem ofList_of_perm {α β : Type} [DecidableEq α] {cmp : α → α → Ordering} [Std.TransCmp cmp]
    [Std.LawfulEqCmp cmp] {m : Std.ExtTreeMap α β cmp} {l : List (α × β)} (h : l.Perm m.toList) :
    Std.ExtTreeMap.ofList l cmp = m := by
  have hd : l.Pairwise fun a b => ¬ cmp a.1 b.1 = .eq :=
    (h.pairwise_iff fun {a b} ha hb => ha (Std.OrientedCmp.eq_symm hb)).mpr
      Std.ExtTreeMap.distinct_keys_toList
  have hm : ∀ k v, (k, v) ∈ l ↔ m[k]? = some v := fun k v =>
    h.mem_iff.trans Std.ExtTreeMap.mem_toList_iff_getElem?_eq_some
  refine Std.ExtTreeMap.ext_getElem? fun k => ?_
  cases hk : m[k]? with
  | some v =>
    exact Std.ExtTreeMap.getElem?_ofList_of_mem Std.ReflCmp.compare_self hd
      ((hm k v).mpr hk)
  | none =>
    refine Std.ExtTreeMap.getElem?_ofList_of_contains_eq_false ?_
    simp [hm, hk]

/-- **The cached keys are read back in any order.** -/
theorem readSkippedKeys_of_perm {s : RatchetSession (Arr 32)} {l : List (SkipKey × Arr 32)}
    (h : l.Perm s.skippedKeysSnapshot) : readSkippedKeys ∅ (l.map skippedKeyHex) = .ok s.skippedKeys := by
  rw [readSkippedKeys_map, ← Std.ExtTreeMap.ofList_eq_foldl, ofList_of_perm h]

def RatchetSession.reloaded {K : Type} (s : RatchetSession K) : RatchetSession K :=
  { s with
    pqOurKeypair := none
    pqPrevKeypair := none
    pqTheirEncapsKey := none
    pqPendingCt := none
    pqPendingSent := none
    pqPendingRecv := none
    pqLastMixedFp := none
    transitionCounter := 0 }

/-- Writing and reading back loses the post-quantum state and the transition counter only. -/
theorem intoSession_fromSession {s : RatchetSession (Arr 32)}
    (h : ∀ hct, s.bootstrapHct = some hct → hct.mlkemCiphertext.length = 1088) :
    (SerializableRatchetSession.fromSession s).intoSession = .ok s.reloaded := by
  have hs := readSkippedKeys_of_perm (s := s) (List.Perm.refl _)
  simp only [SerializableRatchetSession.intoSession, SerializableRatchetSession.fromSession,
    readArr32_hexEncode, readOptional_map (readArr32_hexEncode _),
    readOptional_map (readChain_ofChain _), readBootstrapHct_hexEncode h, hs]
  rfl

end SCMessenger
