import SCMessenger.Lib.HexText
import SCMessenger.Store.Blocked

/-!
# Blocking a peer under any of its names

A peer goes by its key, its identity and its libp2p identifier, with digits in either case, and a row is
stored as it was given.  A message is checked under the marked key, a connection under the libp2p identifier.
-/

namespace SCMessenger

/-! ## The names of a peer -/

theorem notMem_of_hexDecode {text : String} {b : Bytes} {c : Char} (h : hexDecode text = .ok b)
    (hc : hexVal c = none) : c ∉ text.toList := by
  intro hm
  have hs := (hexDecode_ok h).2 c hm
  rw [hc] at hs
  cases hs

theorem colon_notMem_hexEncode (b : Bytes) : ':' ∉ (hexEncode b).toList :=
  notMem_of_hexDecode (hexDecode_hexEncode b) (by decide)

theorem PeerId.colon_notMem (peer : PeerId) : ':' ∉ peer.text.toList := by
  intro h
  exact absurd (peer.base58 _ h) (by decide)

@[simp] theorem dropBeginning_append (b r : String) :
    dropBeginning b (b ++ r) = some r := by
  rw [dropBeginning, if_pos (startsWith_append _ _), String.toList_append, List.drop_left,
    String.ofList_toList]

theorem dropBeginning_of_notMem {b t : String} (hm : ':' ∈ b.toList)
    (ht : ':' ∉ t.toList) : dropBeginning b t = none := by
  rw [dropBeginning, if_neg]
  intro h
  obtain ⟨r, hr⟩ := List.isPrefixOf_iff_prefix.mp h
  exact ht (hr ▸ List.mem_append_left r hm)

theorem splitIdentifierFlavor_publicKey (raw : String) :
    splitIdentifierFlavor (publicKeyPrefix ++ raw) = (raw, .publicKey) := by
  rw [splitIdentifierFlavor, dropBeginning_append]

theorem splitIdentifierFlavor_identityId (raw : String) :
    splitIdentifierFlavor (identityIdPrefix ++ raw) = (raw, .identityId) := by
  have ho : dropBeginning publicKeyPrefix (identityIdPrefix ++ raw) = none := by
    rw [dropBeginning, if_neg]
    simp [startsWith, publicKeyPrefix, identityIdPrefix, List.isPrefixOf]
  rw [splitIdentifierFlavor, ho, dropBeginning_append]

theorem splitIdentifierFlavor_plain {t : String} (h : ':' ∉ t.toList) :
    splitIdentifierFlavor t = (t, .legacy) := by
  rw [splitIdentifierFlavor, dropBeginning_of_notMem (by decide) h, dropBeginning_of_notMem (by decide) h]

theorem eq_of_splitIdentifierFlavor {x raw : String} (h : splitIdentifierFlavor x = (raw, .legacy)) : raw = x := by
  unfold splitIdentifierFlavor at h
  split at h
  · cases h
  · split at h <;> cases h
    rfl

section

variable {K : Type} (P : Primitives K) (ids : PeerIds)

theorem identityIdFromPublicKeyHex_of_valid {key : Arr 32} {text : String} (ht : hexDecode text = .ok key.1)
    (h : P.edKeyValid key = true) : identityIdFromPublicKeyHex P text = some (identityIdOf P key.1) := by
  obtain ⟨hs, hd⟩ := hexDecode_ok ht
  rw [key.2] at hs
  have ha : text.toList.all (fun c => c.isDigit || ('a' ≤ c && c ≤ 'f') || ('A' ≤ c && c ≤ 'F')) = true := by
    refine List.all_eq_true.mpr fun c hc => ?_
    have hv := hd c hc
    unfold hexVal at hv
    simp only [Bool.or_eq_true, Bool.and_eq_true, decide_eq_true_eq]
    split at hv
    · exact .inl (.inl (by simpa [Char.isDigit, Char.le_def] using ‹_›))
    · split at hv
      · exact .inl (.inr ‹_›)
      · split at hv
        · exact .inr ‹_›
        · cases hv
  have hk : isValidPublicKey P text = true := by
    rw [isValidPublicKey, if_neg (by simp [hs, ha]), ht]
    simp only [Arr.ofBytes?_val, h]
  rw [identityIdFromPublicKeyHex, if_neg (by simp [hk]), ht]
  rfl

theorem self_mem_resolvedIdentifiers (x : String) : x ∈ resolvedIdentifiers P ids x := by
  rcases hs : splitIdentifierFlavor x with ⟨raw, f⟩
  cases f with
  | legacy =>
    obtain rfl := eq_of_splitIdentifierFlavor hs
    simp only [resolvedIdentifiers, hs]
    cases publicKeyHexFromPeerId ids raw with
    | none => simp
    | some key =>
      simp only
      cases identityIdFromPublicKeyHex P key <;> simp
  | publicKey =>
    simp only [resolvedIdentifiers, hs]
    cases identityIdFromPublicKeyHex P raw <;> simp
  | identityId => simp [resolvedIdentifiers, hs]

/-- A peer with an Ed25519 key. -/
structure KeyedPeer where
  key : Arr 32
  valid : P.edKeyValid key = true

namespace KeyedPeer

variable {P} (peer : KeyedPeer P)

def hexKey : String := hexEncode peer.key.1

def markedKey : String := publicKeyPrefix ++ peer.hexKey

def identity : String := identityIdOf P peer.key.1

def peerId : String := (ids.toPeerId peer.key).text

def checkedNames : List String := [peer.markedKey, peer.peerId ids]

/-- The names of a peer, with its key and its identity in the digits of either case. -/
inductive Names : String → Prop
  | key {text : String} (h : hexDecode text = .ok peer.key.1) : Names text
  | markedKey {text : String} (h : hexDecode text = .ok peer.key.1) : Names (publicKeyPrefix ++ text)
  | identity {text : String} (h : hexDecode text = .ok (P.blake3 peer.key.1).1) : Names text
  | markedIdentity {text : String} (h : hexDecode text = .ok (P.blake3 peer.key.1).1) :
    Names (identityIdPrefix ++ text)
  | peerId : Names (peer.peerId ids)

variable {ids} {peer} {x text : String}

theorem splitIdentifierFlavor_hex {a : Arr 32} (h : hexDecode text = .ok a.1) :
    splitIdentifierFlavor text = (text, .legacy) :=
  splitIdentifierFlavor_plain (notMem_of_hexDecode h (by decide))

theorem splitIdentifierFlavor_peerId : splitIdentifierFlavor (peer.peerId ids) = (peer.peerId ids, .legacy) :=
  splitIdentifierFlavor_plain (PeerId.colon_notMem _)

theorem mem_resolvedIdentifiers_hex (hl : ids.Lawful) {a : Arr 32} (h : hexDecode text = .ok a.1) :
    x ∈ resolvedIdentifiers P ids text ↔ x = text := by
  simp [resolvedIdentifiers, splitIdentifierFlavor_hex h, publicKeyHexFromPeerId, hl.inlineKey_hex a text h]

theorem mem_resolvedIdentifiers_markedKey (h : hexDecode text = .ok peer.key.1) :
    x ∈ resolvedIdentifiers P ids (publicKeyPrefix ++ text)
      ↔ x = text ∨ x = publicKeyPrefix ++ text ∨ x = peer.identity := by
  have hi : identityIdFromPublicKeyHex P text = some peer.identity :=
    identityIdFromPublicKeyHex_of_valid P h peer.valid
  simp [resolvedIdentifiers, splitIdentifierFlavor_publicKey, hi, or_assoc]

theorem mem_resolvedIdentifiers_peerId (hl : ids.Lawful) :
    x ∈ resolvedIdentifiers P ids (peer.peerId ids)
      ↔ x ∈ [peer.peerId ids, peer.hexKey, peer.markedKey, peer.identity, identityIdPrefix ++ peer.identity] := by
  have hid : identityIdFromPublicKeyHex P peer.hexKey = some peer.identity :=
    identityIdFromPublicKeyHex_of_valid P (hexDecode_hexEncode _) peer.valid
  have hi : publicKeyHexFromPeerId ids (peer.peerId ids) = some peer.hexKey := by
    rw [publicKeyHexFromPeerId, peerId, hl.inlineKey_toPeerId, Option.map_some, hexKey]
  simp [resolvedIdentifiers, splitIdentifierFlavor_peerId, hi, hid, or_assoc, markedKey]

theorem Names.resolved (hl : ids.Lawful) {y : String} (h : peer.Names ids x)
    (hy : y ∈ resolvedIdentifiers P ids x) : peer.Names ids y := by
  cases h with
  | key h => exact (mem_resolvedIdentifiers_hex hl h).mp hy ▸ .key h
  | identity h => exact (mem_resolvedIdentifiers_hex hl h).mp hy ▸ .identity h
  | markedKey h =>
    rcases (mem_resolvedIdentifiers_markedKey h).mp hy with rfl | rfl | rfl
    · exact .key h
    · exact .markedKey h
    · exact .identity (hexDecode_hexEncode _)
  | @markedIdentity text h =>
    have hm : y = text ∨ y = identityIdPrefix ++ text := by
      simpa [resolvedIdentifiers, splitIdentifierFlavor_identityId] using hy
    rcases hm with rfl | rfl
    · exact .identity h
    · exact .markedIdentity h
  | peerId =>
    have hk := hexDecode_hexEncode peer.key.1
    have hi := hexDecode_hexEncode (P.blake3 peer.key.1).1
    have hm := (mem_resolvedIdentifiers_peerId hl).mp hy
    simp only [List.mem_cons, List.not_mem_nil, or_false] at hm
    rcases hm with rfl | rfl | rfl | rfl | rfl
    · exact .peerId
    · exact .key hk
    · exact .markedKey hk
    · exact .identity hi
    · exact .markedIdentity hi

/-- Without its mark a name has no colon, and is not a mark. -/
theorem Names.raw (hl : ids.Lawful) (h : peer.Names ids x) :
    ':' ∉ (splitIdentifierFlavor x).1.toList ∧ (splitIdentifierFlavor x).1 ≠ "pk" := by
  have hh {a : Arr 32} {text : String} (h : hexDecode text = .ok a.1) : ':' ∉ text.toList ∧ text ≠ "pk" := by
    refine ⟨notMem_of_hexDecode h (by decide), ?_⟩
    rintro rfl
    exact notMem_of_hexDecode (c := 'p') h (by decide) (by decide)
  cases h with
  | key h => exact splitIdentifierFlavor_hex h ▸ hh h
  | markedKey h => exact splitIdentifierFlavor_publicKey _ ▸ hh h
  | identity h => exact splitIdentifierFlavor_hex h ▸ hh h
  | markedIdentity h => exact splitIdentifierFlavor_identityId _ ▸ hh h
  | peerId =>
    rw [splitIdentifierFlavor_peerId]
    refine ⟨PeerId.colon_notMem _, fun he => ?_⟩
    have hs := hl.toPeerId_startsWith peer.key
    rw [show (ids.toPeerId peer.key).text = "pk" from he] at hs
    exact absurd hs (by decide)

end KeyedPeer

end

/-! ## Rows of whole peers -/

namespace BlockedList

variable {K : Type} {P : Primitives K} {ids : PeerIds} {list list' : BlockedList} {key : String}

theorem ne_blockKey_some (h : ':' ∉ key.toList) (p d : String) :
    key ≠ blockKey p (some d) := by
  rintro rfl
  simp [blockKey] at h

/-- **A row of a whole peer** stays until an unblock reaches its name. -/
theorem Holds.step (hk : ':' ∉ key.toList) (h : list.Holds key) {op : BlockOp}
    (ho : ∀ peerId, op = .unblock peerId none → key ∉ list.identifiersForUnblock P ids peerId) :
    (list.step P ids op).Holds key := by
  cases op with
  | block blocked => exact h.block P blocked
  | blockAndDelete now peerId re => exact h.block P _
  | registerDeviceId now peerId d => exact h.registerDeviceId P ids now peerId d
  | registerDeviceIds now peerId di => exact h.registerDeviceIds P ids now peerId di 0
  | unblock peerId d =>
    cases d with
    | some d => exact h.unblockDevice fun i => ne_blockKey_some hk i d
    | none =>
      rcases hr : list.unblock P ids peerId none with ⟨r, list'⟩
      cases r with
      | error e =>
        have hs : list' = list := by
          unfold unblock at hr
          simp only at hr
          split at hr
          · cases hr
            rfl
          · cases hr
        rw [BlockedList.step, hr, hs]
        exact h
      | ok _ =>
        obtain ⟨dv, -, hl⟩ := holds_unblock_iff hr
        rw [BlockedList.step, hr]
        refine (hl key).mpr ⟨h, fun i hi => ⟨?_, fun de _ => ?_⟩⟩
        · rintro rfl
          exact ho peerId rfl hi
        · exact ne_blockKey_some hk i de

/-! ## Blocking -/

def Unblocks (P : Primitives K) (ids : PeerIds) (peer : KeyedPeer P) (list : BlockedList) : BlockOp → Prop
  | .unblock peerId none => peer.hexKey ∈ list.identifiersForUnblock P ids peerId
      ∨ peer.identity ∈ list.identifiersForUnblock P ids peerId
  | _ => False

def Bars (peer : KeyedPeer P) (list : BlockedList) : Prop :=
  list.Holds peer.hexKey ∨ list.Holds peer.identity

variable {peer : KeyedPeer P}

theorem Bars.step (h : Bars peer list) {op : BlockOp} (ho : ¬ Unblocks P ids peer list op) :
    Bars peer (list.step P ids op) := by
  rcases h with hk | hi
  · refine .inl (hk.step (colon_notMem_hexEncode _) fun peerId he hm => ho ?_)
    rw [he]
    exact .inl hm
  · refine .inr (hi.step (colon_notMem_hexEncode _) fun peerId he hm => ho ?_)
    rw [he]
    exact .inr hm

theorem Bars.blocked (h : Bars peer list) (hl : ids.Lawful) {n : String}
    (hn : n ∈ peer.checkedNames ids) (d : Option String) :
    list.isBlockedResolved P ids n d = .ok true := by
  have hr : peer.hexKey ∈ resolvedIdentifiers P ids n
      ∧ peer.identity ∈ resolvedIdentifiers P ids n := by
    have hc : n = peer.markedKey ∨ n = peer.peerId ids := by
      simpa [KeyedPeer.checkedNames] using hn
    rcases hc with rfl | rfl
    · have hk := hexDecode_hexEncode peer.key.1
      exact ⟨(KeyedPeer.mem_resolvedIdentifiers_markedKey hk).mpr (.inl rfl),
        (KeyedPeer.mem_resolvedIdentifiers_markedKey hk).mpr (.inr (.inr rfl))⟩
    · simp [KeyedPeer.mem_resolvedIdentifiers_peerId hl]
  rcases h with hk | hi
  · exact isBlockedResolved_eq_true.mpr ⟨_, hr.1, .inl hk⟩
  · exact isBlockedResolved_eq_true.mpr ⟨_, hr.2, .inl hi⟩

variable {blocked : BlockedIdentity}

/-- A name marked as a public key, or the key or the identity in lower-case digits. -/
def Canonical (peer : KeyedPeer P) (x : String) : Prop :=
  (splitIdentifierFlavor x).2 = .publicKey ∨ (splitIdentifierFlavor x).1 = peer.hexKey
    ∨ (splitIdentifierFlavor x).1 = peer.identity

theorem bars_of_block (hd : blocked.deviceId = none) (hn : peer.Names ids blocked.peerId)
    (hc : Canonical peer blocked.peerId) (h : list.block P blocked = (.ok (), list')) : Bars peer list' := by
  rcases block_cases P list blocked with ⟨e, he⟩ | ⟨raw, f, d, de, hs, hdi, he⟩
  · rw [h] at he
    cases he
  rw [h] at he
  cases he
  obtain ⟨hr, hi⟩ := holds_blockEntries list { blocked with peerId := raw, identifierFlavor := f } d de hd
  rw [Canonical, hs] at hc
  rcases hc with rfl | rfl | rfl
  · -- the name is the marked key: the other marks differ
    refine .inr (hi _ ?_)
    rw [if_pos rfl] at hdi
    rw [hdi]
    generalize blocked.peerId = x at hn hs
    cases hn with
    | key h => rw [KeyedPeer.splitIdentifierFlavor_hex h] at hs; cases hs
    | identity h => rw [KeyedPeer.splitIdentifierFlavor_hex h] at hs; cases hs
    | markedIdentity h => rw [splitIdentifierFlavor_identityId] at hs; cases hs
    | peerId => rw [KeyedPeer.splitIdentifierFlavor_peerId] at hs; cases hs
    | markedKey h =>
      rw [splitIdentifierFlavor_publicKey] at hs
      cases hs
      exact identityIdFromPublicKeyHex_of_valid P h peer.valid
  · exact .inl hr
  · exact .inr hr

theorem ne_blockKey_of_not_canonical {n raw : String} (hn : n = peer.hexKey ∨ n = peer.markedKey ∨ n = peer.identity)
    (hc : ':' ∉ raw.toList) (hp : raw ≠ "pk") (hr : ¬ (raw = peer.hexKey ∨ raw = peer.identity))
    (d : Option String) : n ≠ blockKey raw d := by
  have hm : ':' ∈ peer.markedKey.toList := by
    rw [KeyedPeer.markedKey, String.toList_append]
    exact List.mem_append_left _ (by decide)
  cases d with
  | none =>
    intro he
    rw [show n = raw from he] at hn
    rcases hn with hn | hn | hn
    · exact hr (.inl hn)
    · exact hc (hn ▸ hm)
    · exact hr (.inr hn)
  | some de =>
    rcases hn with rfl | rfl | rfl
    · exact ne_blockKey_some (colon_notMem_hexEncode _) _ _
    · intro he
      have hl := congrArg String.toList he
      simp only [KeyedPeer.markedKey, blockKey, String.toList_append, List.append_assoc] at hl
      exact hp (String.toList_inj.mp (append_separator_inj (b := "pk".toList) hc (by decide) hl.symm).1)
    · exact ne_blockKey_some (colon_notMem_hexEncode _) _ _

theorem holds_of_block_plain (hf : (splitIdentifierFlavor blocked.peerId).2 ≠ .publicKey)
    (h : list.block P blocked = (.ok (), list'))
    (hk : ∀ d, key ≠ blockKey (splitIdentifierFlavor blocked.peerId).1 d) (hh : list'.Holds key) :
    list.Holds key := by
  rcases block_cases P list blocked with ⟨e, he⟩ | ⟨raw, f, di, de, hs, hdi, he⟩
  · rw [h] at he
    cases he
  · rw [hs] at hf hk
    rw [if_neg (show f ≠ .publicKey from hf)] at hdi
    rw [hdi, h] at he
    cases he
    rcases holds_foldl_writeBlockEntry.mp hh with ⟨entry, hen, hr⟩ | hb
    · rw [peerId_of_mem_blockEntries hen] at hr
      exact absurd hr (hk entry.deviceId)
    · exact hb

/-- **What a block covers**: all checks under a canonical name until an unblock, under no other. -/
theorem block_covers (hlaw : ids.Lawful) (peer : KeyedPeer P) (list list' : BlockedList)
    (blocked : BlockedIdentity) (hdevice : blocked.deviceId = none)
    (hname : peer.Names ids blocked.peerId) (hblock : list.block P blocked = (.ok (), list')) :
    (Canonical peer blocked.peerId → ∀ ops,
      Guarded (fun list op => ¬ Unblocks P ids peer list op) (BlockedList.step P ids) list' ops →
      ∀ name ∈ peer.checkedNames ids, ∀ deviceId,
        (ops.foldl (BlockedList.step P ids) list').isBlockedResolved P ids name deviceId = .ok true)
    ∧ (¬ Canonical peer blocked.peerId →
      (∀ name ∈ [peer.hexKey, peer.markedKey, peer.identity], ¬ list.Holds name) →
      list'.isBlockedResolved P ids peer.markedKey none = .ok false) := by
  constructor
  · intro ho ops hops name hc deviceId
    have hb : Bars peer (ops.foldl (BlockedList.step P ids) list') :=
      hops.invariant (Bars peer) (fun list op hl hop => hl.step hop) (bars_of_block hdevice hname ho hblock)
    exact hb.blocked hlaw hc deviceId
  · intro he hf
    rw [Canonical, not_or] at he
    obtain ⟨hc, hp⟩ := hname.raw hlaw
    refine isBlockedResolved_eq_false.mpr fun i hr hco => ?_
    have hm : i = peer.hexKey ∨ i = peer.markedKey ∨ i = peer.identity :=
      (KeyedPeer.mem_resolvedIdentifiers_markedKey (hexDecode_hexEncode peer.key.1)).mp hr
    rcases hco with hh | ⟨d, hdevice, -⟩
    · refine hf i (by simpa using hm) (holds_of_block_plain he.1 hblock ?_ hh)
      exact ne_blockKey_of_not_canonical hm hc hp he.2
    · cases hdevice

/-! ## Sample names -/

/-- Sample identifiers: the digits of the key, with a letter for the zero. -/
def sampleIds : PeerIds where
  toPeerId key :=
    { text := "12D3KooW" ++ String.ofList ((hexChars key.1).map fun c => if c = '0' then 'Z' else c)
      base58 := by
        have hfirst : "12D3KooW".toList.all (fun c => decide (c ∈ base58Alphabet)) = true := by decide
        have hdigit : ∀ n < 16, (if hexDigit n = '0' then 'Z' else hexDigit n) ∈ base58Alphabet := by decide
        intro c hc
        simp only [String.toList_append, String.toList_ofList, List.mem_append, List.mem_map] at hc
        rcases hc with hc | ⟨d, hd, rfl⟩
        · exact of_decide_eq_true (List.all_eq_true.mp hfirst c hc)
        · obtain ⟨n, hn, rfl⟩ := mem_hexChars hd
          exact hdigit n hn }
  inlineKey text :=
    match dropBeginning "12D3KooW" text with
    | some rest =>
      (hexDecodeToSlice 32 (String.ofList (rest.toList.map fun c => if c = 'Z' then '0' else c))).toOption
    | none => none

theorem sampleIds_lawful : sampleIds.Lawful where
  inlineKey_toPeerId key := by
    have hd : ∀ n < 16, (if (if hexDigit n = '0' then 'Z' else hexDigit n) = 'Z' then '0'
        else (if hexDigit n = '0' then 'Z' else hexDigit n)) = hexDigit n := by decide
    have hb : ((hexChars key.1).map fun c => if c = '0' then 'Z' else c).map
        (fun c => if c = 'Z' then '0' else c) = hexChars key.1 := by
      rw [List.map_map]
      conv_rhs => rw [← List.map_id (hexChars key.1)]
      refine List.map_congr_left fun c hc => ?_
      obtain ⟨n, hn, rfl⟩ := mem_hexChars hc
      exact hd n hn
    have hh : hexDecodeToSlice 32 (String.ofList (hexChars key.1)) = .ok key :=
      hexDecodeToSlice_hexEncode key
    simp only [sampleIds, dropBeginning_append, String.toList_ofList, hb, hh]
    rfl
  toPeerId_startsWith key := startsWith_append _ _
  inlineKey_hex a text h := by
    have hno : dropBeginning "12D3KooW" text = none := by
      rw [dropBeginning, if_neg]
      intro hs
      obtain ⟨r, hr⟩ := List.isPrefixOf_iff_prefix.mp hs
      exact notMem_of_hexDecode (c := 'K') h (by decide) (hr ▸ List.mem_append_left r (by decide))
    simp only [sampleIds, hno]

def samplePeer : KeyedPeer termPrimitives := ⟨Arr.fit 32 [0xab], rfl⟩

def sampleBlock (name : String) (deviceId : Option String) : BlockedIdentity :=
  ⟨name, deviceId, 0, none, none, false, .legacy⟩

def upperCaseKey : String := String.ofList ((hexChars samplePeer.key.1).map fun c => c.toUpper)

/-- A device of the peer comes and goes, and someone else is blocked and unblocked. -/
def laterOps : List BlockOp :=
  [.registerDeviceId 1 samplePeer.hexKey "phone", .block (sampleBlock "bob" none),
    .unblock samplePeer.markedKey (some "phone"), .unblock "bob" none, .blockAndDelete 2 "carol" none]

/-- The peer is blocked under its marked key, in upper-case digits. -/
theorem block_covers_sample :
    ∃ list', BlockedList.new.block termPrimitives (sampleBlock (publicKeyPrefix ++ upperCaseKey) none)
        = (.ok (), list')
      ∧ ∀ name ∈ samplePeer.checkedNames sampleIds, ∀ deviceId,
        (laterOps.foldl (BlockedList.step termPrimitives sampleIds) list').isBlockedResolved termPrimitives
          sampleIds name deviceId = .ok true := by
  have hk : hexDecode upperCaseKey = .ok samplePeer.key.1 := by decide +kernel
  have hs := splitIdentifierFlavor_publicKey upperCaseKey
  have hi := identityIdFromPublicKeyHex_of_valid termPrimitives hk samplePeer.valid
  have hb : BlockedList.new.block termPrimitives (sampleBlock (publicKeyPrefix ++ upperCaseKey) none)
      = (.ok (), (BlockedList.new.block termPrimitives (sampleBlock (publicKeyPrefix ++ upperCaseKey) none)).2) := by
    simp only [BlockedList.block, sampleBlock, hs, if_true, hi]
    rfl
  refine ⟨_, hb, (block_covers sampleIds_lawful samplePeer BlockedList.new _ _ rfl (.markedKey hk) hb).1
    (.inl (congrArg Prod.snd hs)) laterOps ⟨id, id, id, ?_, id, trivial⟩⟩
  -- what is linked to bob is bob, or has the digits of bob's identity
  have ho {text : String} {b : Bytes} (h : hexDecode text = .ok b) : text ≠ "bob" := by
    rintro rfl
    exact notMem_of_hexDecode (c := 'o') h (by decide) (by decide)
  have hbob : resolvedIdentifiers termPrimitives sampleIds "bob" = ["bob"] := by decide +kernel
  have hid {text : String} : identityIdFromPublicKeyHex termPrimitives text ≠ some "bob" := by
    unfold identityIdFromPublicKeyHex
    split
    · nofun
    · split
      · nofun
      · exact fun h => ho (hexDecode_hexEncode _) (Option.some.inj h)
  have hno {list : BlockedList} {b : Bytes} :
      hexEncode b ∉ list.identifiersForUnblock termPrimitives sampleIds "bob" := by
    rw [mem_identifiersForUnblock, Linked, hbob, List.mem_singleton]
    exact fun h => h.elim (ho (hexDecode_hexEncode b)) fun h => hid h.1
  exact fun h => h.elim hno hno

/-- The peer is blocked under its libp2p identifier, and its messages are not covered. -/
theorem peerId_block_missed :
    (BlockedList.new.block termPrimitives (sampleBlock (samplePeer.peerId sampleIds) none)).1.toOption.isSome
        = true
    ∧ (BlockedList.new.block termPrimitives (sampleBlock (samplePeer.peerId sampleIds) none)).2.isBlockedResolved
        termPrimitives sampleIds samplePeer.markedKey none = .ok false := by
  rw [isBlockedResolved, Except.ok.injEq]
  decide +kernel

/-! ## Unblocking -/

def Concerns (ids : PeerIds) (peer : KeyedPeer P) (key : String) : Prop :=
  ∃ name, peer.Names ids name ∧ ∃ deviceId, key = blockKey name deviceId

/-- The row's name is linked to the one in the call, and so is a name its device is known under. -/
def Reaches (P : Primitives K) (ids : PeerIds) (list : BlockedList) (peerId key : String) : Prop :=
  ∃ identifier, Linked P ids list peerId identifier
    ∧ (key = blockKey identifier none
      ∨ ∃ registered devices device, Linked P ids list peerId registered
        ∧ list.getKnownDevices registered = .ok devices ∧ device ∈ devices
        ∧ key = blockKey identifier (some device))

theorem holds_unblock_iff_not_reaches {p : String}
    (h : list.unblock P ids p none = (.ok (), list')) :
    list'.Holds key ↔ list.Holds key ∧ ¬ Reaches P ids list p key := by
  obtain ⟨de, hde, hle⟩ := holds_unblock_iff h
  rw [hle]
  refine and_congr_right fun _ => ?_
  constructor
  · rintro hn ⟨i, hl, he | ⟨r, k, d, hr, hk, hd, he⟩⟩
    · exact (hn i (mem_identifiersForUnblock.mpr hl)).1 he
    · refine (hn i (mem_identifiersForUnblock.mpr hl)).2 d ?_ he
      exact (mem_knownDevices hde).mpr
        ⟨r, mem_identifiersForUnblock.mpr hr, k, hk, hd⟩
  · intro hn i hi
    have hl := mem_identifiersForUnblock.mp hi
    refine ⟨fun he => hn ⟨i, hl, .inl he⟩, fun d hd he => ?_⟩
    obtain ⟨r, hr, k, hk, hm⟩ := (mem_knownDevices hde).mp hd
    exact hn ⟨i, hl, .inr ⟨r, k, d,
      mem_identifiersForUnblock.mp hr, hk, hm, he⟩⟩

/-- **When an unblock call frees a peer**: exactly when it reaches every row about the peer. -/
theorem unblock_complete_iff (hlaw : ids.Lawful) (peer : KeyedPeer P) (list list' : BlockedList)
    (x : String) (hunblock : list.unblock P ids x none = (.ok (), list')) :
    (∀ name, peer.Names ids name → ∀ deviceId, list'.isBlocked P ids name deviceId = .ok false)
      ↔ ∀ key, list.Holds key → Concerns ids peer key → Reaches P ids list x key := by
  constructor
  · rintro hf key hh ⟨name, hn, deviceId, rfl⟩
    by_contra hno
    have hl := (holds_unblock_iff_not_reaches hunblock).mpr ⟨hh, hno⟩
    refine isBlockedResolved_eq_false.mp (hf name hn deviceId) name
      (self_mem_resolvedIdentifiers P ids name) ?_
    cases deviceId with
    | none => exact .inl hl
    | some d => exact .inr ⟨d, rfl, hl⟩
  · intro hre name hn deviceId
    refine isBlockedResolved_eq_false.mpr fun i hr hc => ?_
    have hi := hn.resolved hlaw hr
    have hg : ∀ d, ¬ list'.Holds (blockKey i d) := by
      intro d hh
      obtain ⟨hb, hno⟩ := (holds_unblock_iff_not_reaches hunblock).mp hh
      exact hno (hre _ hb ⟨i, hi, d, rfl⟩)
    rcases hc with hh | ⟨d, -, hh⟩
    · exact hg none hh
    · exact hg (some d) hh

theorem unblock_ok (P : Primitives K) (ids : PeerIds) (h : ∀ id, list.registry.lookup id ≠ some none)
    (x : String) :
    ∃ list', list.unblock P ids x none = (.ok (), list') := by
  have hk (identifiers : List String) : ∃ devices, list.knownDevices identifiers = .ok devices := by
    induction identifiers with
    | nil => exact ⟨[], rfl⟩
    | cons identifier rest ih =>
      obtain ⟨others, ho⟩ := ih
      have hg : ∃ devices, list.getKnownDevices identifier = .ok devices := by
        unfold getKnownDevices
        split
        · exact ⟨[], rfl⟩
        · rename_i hn
          exact absurd hn (h _)
        · exact ⟨_, rfl⟩
      obtain ⟨devices, hg⟩ := hg
      exact ⟨devices ++ others, by simp only [knownDevices, hg, ho]⟩
  obtain ⟨devices, hd⟩ := hk (list.identifiersForUnblock P ids x)
  exact ⟨_, by simp only [unblock, hd]; rfl⟩

/-- Rows of the peer under three of its names, two of them for a device. -/
def manyEntries : List BlockedIdentity :=
  [sampleBlock samplePeer.hexKey none, sampleBlock samplePeer.hexKey (some "phone"),
    sampleBlock samplePeer.identity none, sampleBlock samplePeer.identity (some "tablet"),
    sampleBlock (samplePeer.peerId sampleIds) none]

def twoDevices : Table String (Option (List String)) :=
  (∅ : Table String _).insert samplePeer.hexKey (some ["phone", "tablet"])

def manyRows : BlockedList := manyEntries.foldl writeBlockEntry ⟨∅, twoDevices⟩

/-- The libp2p identifier reaches all of them. -/
theorem unblock_complete_sample :
    ∃ list', manyRows.unblock termPrimitives sampleIds (samplePeer.peerId sampleIds) none = (.ok (), list')
      ∧ ∀ name, samplePeer.Names sampleIds name → ∀ deviceId,
        list'.isBlocked termPrimitives sampleIds name deviceId = .ok false := by
  have hreg : ∀ id, manyRows.registry.lookup id ≠ some none := by
    intro id
    rw [show manyRows.registry = twoDevices from rfl, twoDevices]
    by_cases hi : id = samplePeer.hexKey
    · rw [hi, AList.lookup_insert]
      simp
    · rw [AList.lookup_insert_ne hi]
      simp
  obtain ⟨list', hr⟩ := unblock_ok termPrimitives sampleIds hreg (samplePeer.peerId sampleIds)
  refine ⟨list', hr, (unblock_complete_iff sampleIds_lawful samplePeer manyRows list' _ hr).mpr fun key hh _ => ?_⟩
  have hl : ∀ n ∈ [samplePeer.hexKey, samplePeer.identity, samplePeer.peerId sampleIds],
      Linked termPrimitives sampleIds manyRows (samplePeer.peerId sampleIds) n := by
    intro n hn
    refine .inl ((KeyedPeer.mem_resolvedIdentifiers_peerId sampleIds_lawful).mpr ?_)
    simp only [List.mem_cons, List.not_mem_nil, or_false] at hn ⊢
    rcases hn with rfl | rfl | rfl
    · exact .inr (.inl rfl)
    · exact .inr (.inr (.inr (.inl rfl)))
    · exact .inl rfl
  have hd : manyRows.getKnownDevices samplePeer.hexKey = .ok ["phone", "tablet"] := by
    have hs : splitIdentifierFlavor samplePeer.hexKey = (samplePeer.hexKey, .legacy) :=
      KeyedPeer.splitIdentifierFlavor_hex (hexDecode_hexEncode samplePeer.key.1)
    rw [getKnownDevices, hs, show manyRows.registry = twoDevices from rfl, twoDevices, AList.lookup_insert]
  obtain ⟨entry, he, rfl⟩ := (holds_foldl_writeBlockEntry.mp hh).resolve_right (by simp [Holds])
  simp only [manyEntries, List.mem_cons, List.not_mem_nil, or_false] at he
  rcases he with rfl | rfl | rfl | rfl | rfl
  · exact ⟨_, hl samplePeer.hexKey (by simp), .inl rfl⟩
  · exact ⟨_, hl samplePeer.hexKey (by simp),
      .inr ⟨_, _, "phone", hl samplePeer.hexKey (by simp), hd, by simp, rfl⟩⟩
  · exact ⟨_, hl samplePeer.identity (by simp), .inl rfl⟩
  · exact ⟨_, hl samplePeer.identity (by simp),
      .inr ⟨_, _, "tablet", hl samplePeer.hexKey (by simp), hd, by simp, rfl⟩⟩
  · exact ⟨_, hl (samplePeer.peerId sampleIds) (by simp), .inl rfl⟩

/-- The row of a device that was never registered survives the unblock. -/
theorem device_block_left :
    (((BlockedList.new.block termPrimitives (sampleBlock samplePeer.markedKey (some "phone"))).2.unblock
        termPrimitives sampleIds samplePeer.markedKey none).1.toOption.isSome = true)
    ∧ ((BlockedList.new.block termPrimitives (sampleBlock samplePeer.markedKey (some "phone"))).2.unblock
        termPrimitives sampleIds samplePeer.markedKey none).2.isBlocked termPrimitives sampleIds
          samplePeer.markedKey (some "phone") = .ok true := by
  rw [isBlocked, isBlockedResolved, Except.ok.injEq]
  decide +kernel

end BlockedList

end SCMessenger
