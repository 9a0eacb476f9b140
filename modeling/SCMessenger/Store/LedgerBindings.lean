import SCMessenger.Store.BlockAliases
import SCMessenger.Store.Ledger

/-!
# Who a ledger entry says is at an address

Each writer checks the key it brings against the peer it brings.  But a write to an address that has an entry
replaces the peer and may leave the key of the peer that was there.
-/

namespace SCMessenger

section

variable {env : LedgerEnv}

/-! ## Canonical texts -/

def IsKeyText (text : String) (key : Arr 32) : Prop := hexDecode text = .ok key.1

variable {text : String} {key : Arr 32}

theorem IsKeyText.isCanonicalHex (h : IsKeyText text key) : isCanonicalHex text = true := by
  obtain ⟨hs, hd⟩ := hexDecode_ok h
  have hde : (hexDecode text).toBool = true := by
    rw [h]
    rfl
  rw [key.2] at hs
  simp only [SCMessenger.isCanonicalHex, hs, List.all_eq_true.mpr hd, hde, BEq.rfl, Bool.and_self]

theorem IsKeyText.rustTrim_eq (h : IsKeyText text key) : rustTrim text = text :=
  rustTrim_of_hexVal (hexDecode_ok h).2

theorem IsKeyText.lower (h : IsKeyText text key) : IsKeyText (rustToLowercase text) key :=
  hexDecode_toLower h

theorem isKeyText_hexEncode (key : Arr 32) : IsKeyText (hexEncode key.1) key := hexDecode_hexEncode key.1

theorem isKeyText_of_isCanonicalHex (h : isCanonicalHex text = true) : ∃ key, IsKeyText text key := by
  simp only [isCanonicalHex, Bool.and_eq_true, beq_iff_eq] at h
  obtain ⟨⟨hs, -⟩, hdc⟩ := h
  cases hd : hexDecode text with
  | error e =>
    rw [hd] at hdc
    cases hdc
  | ok bytes =>
    have hl : bytes.length = 32 := by
      have hdo := (hexDecode_ok hd).1
      omega
    exact ⟨⟨bytes, hl⟩, hd⟩

variable {peerId : String}

theorem peerIdFromPublicKeyHex_eq_some {publicKey : String} :
    peerIdFromPublicKeyHex env publicKey = some peerId
      ↔ ∃ key, IsKeyText publicKey key ∧ env.validKey key = true ∧ (env.toPeerId key).text = peerId := by
  unfold peerIdFromPublicKeyHex
  constructor
  · intro h
    split at h
    · cases h
    · rename_i bytes hd
      split at h
      · cases h
      · rename_i key hk
        split at h
        · rename_i hv
          exact ⟨key, hd.trans (congrArg Except.ok (Arr.ofBytes?_eq_some.mp hk)), hv, Option.some.inj h⟩
        · cases h
  · rintro ⟨key, hk, hv, rfl⟩
    have hd : hexDecode publicKey = .ok key.1 := hk
    simp only [hd, Arr.ofBytes?_val, hv, if_true]

theorem isSelfCertifyingBinding_iff {publicKey : String} :
    isSelfCertifyingBinding env peerId publicKey = true
      ↔ peerIdFromPublicKeyHex env publicKey = some peerId := by
  unfold isSelfCertifyingBinding
  cases peerIdFromPublicKeyHex env publicKey <;> simp

variable {publicKey : Option String}

theorem isKeyText_canonicalLedgerPeerId {c : String}
    (h : canonicalLedgerPeerId env peerId publicKey = some c) :
    (∃ key, IsKeyText c key) ∧ rustToLowercase c = c := by
  have hd : ∀ {text d}, publicKeyHexFromLibp2pPeerId env text = some d →
      ∃ key, IsKeyText d key := by
    intro text d hd
    unfold publicKeyHexFromLibp2pPeerId at hd
    split at hd
    · cases hd
    · rename_i bytes _
      split at hd
      · cases hd
      · rename_i hf
        simp only at hd
        split at hd
        · cases hd
        · rw [not_or, not_not] at hf
          have hle : (bytes.drop 6).length = 32 := by
            rw [List.length_drop, hf.1]
          rw [← Option.some.inj hd]
          exact ⟨⟨bytes.drop 6, hle⟩, hexDecode_hexEncode _⟩
  have hl : ∀ {text}, (∃ key, IsKeyText text key) → rustToLowercase text = c →
      (∃ key, IsKeyText c key) ∧ rustToLowercase c = c := by
    rintro text ⟨key, hk⟩ rfl
    exact ⟨⟨key, hk.lower⟩, rustToLowercase_idem text⟩
  unfold canonicalLedgerPeerId at h
  simp only at h
  split at h
  · cases h
  · split at h
    · rename_i hh
      exact hl (isKeyText_of_isCanonicalHex hh) (Option.some.inj h)
    · split at h
      · split at h
        · rename_i hb
          exact hl (isKeyText_of_isCanonicalHex (Bool.and_eq_true_iff.mp hb).1) (Option.some.inj h)
        · split at h
          · rename_i d hs
            exact hl (hd hs) (Option.some.inj h)
          · cases h
      · obtain ⟨d, hs, he⟩ := Option.map_eq_some_iff.mp h
        exact hl (hd hs) he

theorem canonicalLedgerPeerId_empty : canonicalLedgerPeerId env "" publicKey = none := by
  unfold canonicalLedgerPeerId
  rw [if_pos (by decide)]

/-! ## Identifiers of keys -/

theorem PeerId.rustTrim_text (p : PeerId) : rustTrim p.text = p.text := by
  have ha : base58Alphabet.all (fun c => !isRustWhitespace c) = true := by decide
  refine rustTrim_of_forall fun c hc => ?_
  have hf := List.all_eq_true.mp ha c (p.base58 c hc)
  simpa using hf

theorem capital_mem_toPeerId (hl : env.Lawful) (key : Arr 32) : 'K' ∈ (env.toPeerId key).text.toList := by
  obtain ⟨r, hr⟩ := List.isPrefixOf_iff_prefix.mp (hl.toPeerId_startsWith key)
  rw [← hr]
  exact List.mem_append_left r (by decide)

theorem lower_toPeerId_ne (hl : env.Lawful) {key' : Arr 32} (h : IsKeyText text key') :
    rustToLowercase (env.toPeerId key).text ≠ text := by
  intro he
  have hm : Char.toLower 'K' ∈ text.toList := by
    rw [← he, rustToLowercase, String.toList_ofList]
    exact List.mem_map_of_mem (capital_mem_toPeerId hl key)
  exact absurd ((hexDecode_ok h).2 _ hm) (by decide)

theorem isCanonicalHex_toPeerId (hl : env.Lawful) (key : Arr 32) :
    isCanonicalHex (env.toPeerId key).text = false := by
  rw [Bool.eq_false_iff]
  intro hh
  obtain ⟨key', hk'⟩ := isKeyText_of_isCanonicalHex hh
  exact lower_toPeerId_ne hl hk'.lower rfl

theorem toPeerId_ne_empty (hl : env.Lawful) (key : Arr 32) : (env.toPeerId key).text.isEmpty = false := by
  rw [Bool.eq_false_iff, ne_eq, String.isEmpty_iff]
  intro he
  have hm := capital_mem_toPeerId hl key
  rw [he] at hm
  exact absurd hm (by decide)

theorem canonicalBinding_self (hl : env.Lawful) (ht : IsKeyText text key)
    (hv : env.validKey key = true) :
    canonicalBinding env (env.toPeerId key).text (some text)
      = (rustToLowercase text, some (rustToLowercase text)) := by
  have hce : isSelfCertifyingBinding env (env.toPeerId key).text text = true :=
    isSelfCertifyingBinding_iff.mpr (peerIdFromPublicKeyHex_eq_some.mpr ⟨key, ht, hv, rfl⟩)
  have hca : canonicalLedgerPeerId env (env.toPeerId key).text (some text)
      = some (rustToLowercase text) := by
    simp only [canonicalLedgerPeerId, PeerId.rustTrim_text, toPeerId_ne_empty hl, isCanonicalHex_toPeerId hl,
      ht.rustTrim_eq, ht.isCanonicalHex, hce, Bool.and_self, Bool.false_eq_true, if_false, if_true]
  have hn : rustToLowercase text ≠ rustToLowercase (rustTrim (env.toPeerId key).text) := by
    rw [PeerId.rustTrim_text]
    exact (lower_toPeerId_ne hl ht.lower).symm
  simp only [canonicalBinding, hca, ht.rustTrim_eq, if_pos hn, true_and]
  by_cases hc : text = rustToLowercase text
  · rw [if_neg (not_not.mpr hc), ← hc]
  · rw [if_pos hc]

theorem hexEncode_isEmpty (key : Arr 32) : (hexEncode key.1).isEmpty = false := by
  rw [Bool.eq_false_iff, ne_eq, String.isEmpty_iff]
  intro he
  have hs := (hexDecode_ok (hexDecode_hexEncode key.1)).1
  rw [he, key.2] at hs
  exact absurd hs (by decide)

theorem canonicalLedgerPeerId_hexEncode (key : Arr 32) (publicKey : Option String) :
    canonicalLedgerPeerId env (hexEncode key.1) publicKey = some (hexEncode key.1) := by
  have hk := isKeyText_hexEncode key
  simp only [canonicalLedgerPeerId, hk.rustTrim_eq, hexEncode_isEmpty, hk.isCanonicalHex,
    rustToLowercase_hexEncode, Bool.false_eq_true, if_false, if_true]

theorem canonicalLedgerPeerId_toPeerId (hl : env.Lawful) (hv : env.validKey key = true)
    (hd : env.base58Decode (env.toPeerId key).text = some ([0x00, 0x24, 0x08, 0x01, 0x12, 0x20] ++ key.1)) :
    canonicalLedgerPeerId env (env.toPeerId key).text none = some (hexEncode key.1) := by
  have hde : peerIdFromPublicKeyHex env (hexEncode key.1) = some (env.toPeerId key).text :=
    peerIdFromPublicKeyHex_eq_some.mpr ⟨key, isKeyText_hexEncode key, hv, rfl⟩
  have hdr : publicKeyHexFromLibp2pPeerId env (env.toPeerId key).text = some (hexEncode key.1) := by
    simp [publicKeyHexFromLibp2pPeerId, PeerId.rustTrim_text, hd, hde, key.2]
  simp only [canonicalLedgerPeerId, PeerId.rustTrim_text, toPeerId_ne_empty hl, isCanonicalHex_toPeerId hl,
    hdr, Option.map_some, rustToLowercase_hexEncode, Bool.false_eq_true, if_false]

theorem recordedBinding_toPeerId (hl : env.Lawful) (hv : env.validKey key = true)
    (hd : env.base58Decode (env.toPeerId key).text = some ([0x00, 0x24, 0x08, 0x01, 0x12, 0x20] ++ key.1)) :
    recordedBinding env (env.toPeerId key).text = (hexEncode key.1, some (hexEncode key.1)) := by
  simp only [recordedBinding, canonicalLedgerPeerId_toPeerId hl hv hd]

/-! ## Bindings -/

variable (env) in
def BindsTo (peerId publicKey : String) : Prop :=
  peerIdFromPublicKeyHex env publicKey = some peerId
    ∨ ∃ key, IsKeyText peerId key ∧ IsKeyText publicKey key

variable (env) in
def Certified (entry : LedgerEntry) : Prop :=
  ∀ peerId publicKey, entry.peerId = some peerId → peerId ≠ "" → entry.publicKey = some publicKey →
    BindsTo env peerId publicKey

variable (env) in
def AllCertified (manager : LedgerManager) : Prop := ∀ e ∈ manager.entries, Certified env e

variable (env) in
def CertifiedPair (pair : String × Option String) : Prop :=
  ∀ publicKey, pair.2 = some publicKey → pair.1 = "" ∨ BindsTo env pair.1 publicKey

theorem bindsTo_canonical {c : String}
    (h : canonicalLedgerPeerId env peerId publicKey = some c) :
    BindsTo env c c := by
  obtain ⟨⟨key, hk⟩, -⟩ := isKeyText_canonicalLedgerPeerId h
  exact .inr ⟨key, hk, hk⟩

theorem bindsTo_hexEncode_iff (hl : env.Lawful) {key' : Arr 32} :
    BindsTo env (hexEncode key.1) (hexEncode key'.1) ↔ key = key' := by
  constructor
  · rintro (hd | ⟨k, hk, hk'⟩)
    · obtain ⟨k, -, -, ht⟩ := peerIdFromPublicKeyHex_eq_some.mp hd
      have hs : rustToLowercase (env.toPeerId k).text = hexEncode key.1 := by
        rw [ht, rustToLowercase_hexEncode]
      exact absurd hs (lower_toPeerId_ne hl (isKeyText_hexEncode key))
    · have he : key.1 = key'.1 := by
        have h : hexDecode (hexEncode key.1) = .ok k.1 := hk
        have h' : hexDecode (hexEncode key'.1) = .ok k.1 := hk'
        rw [hexDecode_hexEncode, Except.ok.injEq] at h h'
        rw [h, h']
      exact Subtype.ext he
  · rintro rfl
    exact .inr ⟨key, isKeyText_hexEncode key, isKeyText_hexEncode key⟩

/-- What a writer brings belongs together, once a key without its peer is left out. -/
theorem canonicalBinding_certified (hl : env.Lawful)
    (h : ∀ key, publicKey = some key → peerId = "" ∨ isSelfCertifyingBinding env peerId key = true) :
    CertifiedPair env (canonicalBinding env peerId publicKey) := by
  cases publicKey with
  | none =>
    unfold canonicalBinding
    split
    · rintro _ ⟨⟩
    · rename_i c hc
      split
      · rintro _ ⟨⟩
        exact .inr (bindsTo_canonical hc)
      · rintro _ ⟨⟩
  | some key =>
    rcases h key rfl with rfl | hce
    · rw [canonicalBinding, canonicalLedgerPeerId_empty]
      exact fun _ _ => .inl rfl
    · obtain ⟨k, hk, hv, rfl⟩ :=
        peerIdFromPublicKeyHex_eq_some.mp (isSelfCertifyingBinding_iff.mp hce)
      rw [canonicalBinding_self hl hk hv]
      rintro _ ⟨⟩
      exact .inr (.inr ⟨k, hk.lower, hk.lower⟩)

theorem gatedBinding_certified (hl : env.Lawful) (peerId : String) (publicKey : Option String) :
    CertifiedPair env (canonicalBinding env peerId
      (publicKey.filter fun key => peerId.isEmpty || isSelfCertifyingBinding env peerId key)) := by
  refine canonicalBinding_certified hl fun key h => ?_
  have hk := (Option.filter_eq_some_iff.mp h).2
  rw [Bool.or_eq_true, String.isEmpty_iff] at hk
  exact hk

theorem annotatedBinding_certified (hl : env.Lawful) (peerId : String) (publicKey : Option String) :
    CertifiedPair env (annotatedBinding env peerId publicKey) :=
  gatedBinding_certified hl peerId publicKey

theorem recordedBinding_certified (peerId : String) : CertifiedPair env (recordedBinding env peerId) := by
  unfold recordedBinding
  split
  · rename_i c hc
    rintro _ ⟨⟩
    exact .inr (bindsTo_canonical hc)
  · simp only
    split
    · rename_i hh
      obtain ⟨key, hk⟩ := isKeyText_of_isCanonicalHex (Bool.and_eq_true_iff.mp hh).1
      intro publicKey hp
      rw [← Option.some.inj hp]
      exact .inr (.inr ⟨key, hk, hk⟩)
    · simp [CertifiedPair]

theorem repairEntry_certified (hl : env.Lawful) (e : LedgerEntry) :
    Certified env (repairEntry env e) := by
  unfold repairEntry
  simp only
  split
  · rename_i hno
    intro peerId publicKey hp
    rw [hno] at hp
    cases hp
  · rename_i g hg
    have hpa := gatedBinding_certified hl g (sanitizeOptionalLedgerText e.publicKey maxLenPublicKey)
    generalize canonicalBinding env g _ = pair at hpa ⊢
    intro peerId publicKey hp hn hk
    rw [Option.some.injEq] at hp
    rw [← hp] at hn ⊢
    exact (hpa publicKey hk).resolve_left hn

/-! ## What an operation leaves -/

variable (env) in
/-- The peer a write brings belongs to the key that the entry of the address ends up with. -/
def BindingKept (manager : LedgerManager) (multiaddr : String) (peerId : String) : Prop :=
  manager.entries.find? (isDnsEntryOf env multiaddr peerId) = none →
    ∀ entry, manager.entries.find? (·.multiaddr == multiaddr) = some entry →
      ∀ publicKey, entry.publicKey = some publicKey → peerId = "" ∨ BindsTo env peerId publicKey

variable (env) in
/-- No connection and no annotation without a key brings another peer to an entry with a key. -/
def KeepsBindings (manager : LedgerManager) : LedgerOp → Prop
  | .recordConnection _ multiaddr peerId =>
    env.addrs.isRecordableMultiaddr multiaddr = true → acceptable env multiaddr peerId = true →
      BindingKept env manager multiaddr (recordedBinding env peerId).1
  | .annotateIdentity _ multiaddr peerId publicKey nickname =>
    env.addrs.isRecordableMultiaddr multiaddr = true → acceptable env multiaddr peerId = true →
      ((normalizeText publicKey).any fun value => maxLenPublicKey < value.utf8ByteSize) = false →
      ((normalizeText nickname).any fun value => maxLenNickname < value.utf8ByteSize) = false →
      (annotatedBinding env peerId (normalizeText publicKey)).2 = none →
      BindingKept env manager multiaddr (annotatedBinding env peerId (normalizeText publicKey)).1
  | _ => True

variable {multiaddr : String}

/-- A write leaves all entries certified exactly when the key at the address is the peer's. -/
theorem upsert_certified_iff {en : List LedgerEntry} {pair : String × Option String}
    {o os : LedgerEntry → LedgerEntry} {f : LedgerEntry} {m : Option String → Option String}
    (hen : ∀ e ∈ en, Certified env e) (hpa : CertifiedPair env pair)
    (hm : ∀ own, m own = own ∨ m own = pair.2)
    (hd : ∀ e, (o e).peerId = e.peerId ∧ (o e).publicKey = m e.publicKey)
    (hs : ∀ e, (os e).peerId = some pair.1 ∧ (os e).publicKey = m e.publicKey)
    (hf : f.peerId = some pair.1 ∧ f.publicKey = pair.2) :
    (∀ e ∈ upsert env multiaddr pair.1 o os f en, Certified env e)
      ↔ (en.find? (isDnsEntryOf env multiaddr pair.1) = none →
        ∀ e, en.find? (·.multiaddr == multiaddr) = some e →
          ∀ k, m e.publicKey = some k → pair.1 = "" ∨ BindsTo env pair.1 k) := by
  have hnw : Certified env f := by
    intro p k hp hn hk
    rw [hf.1, Option.some.injEq] at hp
    rw [hf.2] at hk
    rw [← hp] at hn ⊢
    exact (hpa k hk).resolve_left hn
  -- the entry under a name has the peer of the pair already
  have hna : ∀ e, en.find? (isDnsEntryOf env multiaddr pair.1) = some e → Certified env (o e) := by
    intro e he p k hp hn hk
    have hpe : e.peerId = some pair.1 := by
      have hfo := List.find?_some he
      simp only [isDnsEntryOf, Bool.and_eq_true, beq_iff_eq] at hfo
      exact hfo.1.1
    rw [(hd e).1] at hp
    rw [(hd e).2] at hk
    rcases hm e.publicKey with ho | hb
    · exact hen e (List.mem_of_find?_eq_some he) p k hp hn (ho ▸ hk)
    · rw [hpe, Option.some.injEq] at hp
      rw [← hp] at hn ⊢
      exact (hpa k (hb ▸ hk)).resolve_left hn
  rw [forall_upsert_iff hen hnw, and_iff_right hna]
  refine forall_congr' fun hno => forall_congr' fun e => forall_congr' fun he => ?_
  constructor
  · intro hc k hk
    by_cases hn : pair.1 = ""
    · exact .inl hn
    · exact .inr (hc pair.1 k (hs e).1 hn ((hs e).2.trans hk))
  · intro hke p k hp hn hk
    rw [(hs e).1, Option.some.injEq] at hp
    rw [(hs e).2] at hk
    rw [← hp] at hn ⊢
    exact (hke k hk).resolve_left hn

variable {manager : LedgerManager}

theorem recordConnectionLocked_certified_iff {now : Nat} (hen : ∀ e ∈ manager.entries, Certified env e) :
    (∀ e ∈ recordConnectionLocked env now multiaddr peerId manager.entries, Certified env e)
      ↔ BindingKept env manager multiaddr (recordedBinding env peerId).1 := by
  have hp : CertifiedPair env (recordedBinding env peerId) := recordedBinding_certified peerId
  have hm : ∀ own : Option String, own.or (recordedBinding env peerId).2 = own
      ∨ own.or (recordedBinding env peerId).2 = (recordedBinding env peerId).2 := by
    intro own
    cases own with
    | none => exact .inr rfl
    | some key => exact .inl rfl
  unfold recordConnectionLocked
  simp only
  generalize recordedBinding env peerId = pair at hp hm ⊢
  refine Iff.trans (upsert_certified_iff hen hp hm ?_ ?_ ?_) ?_
  · exact fun _ => ⟨rfl, rfl⟩
  · exact fun _ => ⟨rfl, rfl⟩
  · exact ⟨rfl, rfl⟩
  refine forall_congr' fun hn => forall_congr' fun e => forall_congr' fun he => ?_
  constructor
  · intro hke k hk
    exact hke k (by rw [hk, Option.some_or])
  · intro hke k hk
    cases ho : e.publicKey with
    | some own =>
      rw [ho, Option.some_or] at hk
      exact hke k (ho.trans hk)
    | none =>
      rw [ho, Option.none_or] at hk
      exact hp k hk

theorem annotateIdentityLocked_certified_iff (hl : env.Lawful) {now : Nat} {n : Option String}
    (hen : ∀ e ∈ manager.entries, Certified env e) :
    (∀ e ∈ annotateIdentityLocked env now multiaddr peerId publicKey n manager.entries, Certified env e)
      ↔ (acceptable env multiaddr peerId = true →
        ((normalizeText publicKey).any fun v => maxLenPublicKey < v.utf8ByteSize) = false →
        ((normalizeText n).any fun v => maxLenNickname < v.utf8ByteSize) = false →
        (annotatedBinding env peerId (normalizeText publicKey)).2 = none →
        BindingKept env manager multiaddr (annotatedBinding env peerId (normalizeText publicKey)).1) := by
  have hp := annotatedBinding_certified hl peerId (normalizeText publicKey)
  have hm : ∀ own : Option String, (annotatedBinding env peerId (normalizeText publicKey)).2.or own = own
      ∨ (annotatedBinding env peerId (normalizeText publicKey)).2.or own
        = (annotatedBinding env peerId (normalizeText publicKey)).2 := by
    intro own
    cases (annotatedBinding env peerId (normalizeText publicKey)).2 with
    | none => exact .inl rfl
    | some key => exact .inr rfl
  unfold annotateIdentityLocked
  simp only
  generalize annotatedBinding env peerId (normalizeText publicKey) = pair at hp hm ⊢
  split
  · rename_i hr
    refine iff_of_true hen fun ha hky hn => ?_
    rw [ha, hky, hn] at hr
    cases hr
  · rename_i ha
    simp only [Bool.or_eq_true, Bool.not_eq_true', not_or, Bool.not_eq_true, Bool.not_eq_false] at ha
    obtain ⟨⟨ha, hky⟩, hn⟩ := ha
    refine Iff.trans (upsert_certified_iff hen hp hm ?_ ?_ ?_) ?_
    · exact fun _ => ⟨rfl, rfl⟩
    · exact fun _ => ⟨rfl, rfl⟩
    · exact ⟨rfl, rfl⟩
    constructor
    · intro hke _ _ _ hb hno e he k hk
      exact hke hno e he k (by rw [hb, Option.none_or, hk])
    · intro hke hno e he k hk
      cases hb : pair.2 with
      | some key =>
        rw [hb, Option.some_or] at hk
        exact hp k (hb.trans hk)
      | none =>
        rw [hb, Option.none_or] at hk
        exact hke ha hky hn hb hno e he k hk

/-- **When an operation leaves all pairs certified.** -/
theorem step_certified_iff (hla : env.Lawful) (hen : AllCertified env manager) (op : LedgerOp) :
    AllCertified env (manager.step env op) ↔ KeepsBindings env manager op := by
  cases op with
  | recordConnection now multiaddr peerId =>
    show (∀ e ∈ (manager.recordConnection env now multiaddr peerId).entries, Certified env e) ↔ _
    unfold LedgerManager.recordConnection
    split
    · rename_i hre
      refine iff_of_true hen fun hr => ?_
      rw [hr] at hre
      cases hre
    · rename_i hr
      split
      · rename_i hre
        refine iff_of_true hen fun _ ha => ?_
        rw [ha] at hre
        cases hre
      · rename_i ha
        simp only [Bool.not_eq_true', Bool.not_eq_false] at hr ha
        show (∀ e ∈ recordConnectionLocked env now multiaddr peerId manager.entries, Certified env e) ↔ _
        rw [recordConnectionLocked_certified_iff hen]
        exact ⟨fun h _ _ => h, fun h => h hr ha⟩
  | recordFailure multiaddr =>
    refine iff_of_true ?_ trivial
    show ∀ e ∈ updateFirst (·.multiaddr == multiaddr) _ manager.entries, Certified env e
    refine (forall_updateFirst_iff hen).mpr fun e he => ?_
    exact hen e (List.mem_of_find?_eq_some he)
  | annotateIdentity now multiaddr peerId publicKey n =>
    show (∀ e ∈ (manager.annotateIdentity env now multiaddr peerId publicKey n).entries,
      Certified env e) ↔ _
    unfold LedgerManager.annotateIdentity
    split
    · rename_i hre
      refine iff_of_true hen fun hr => ?_
      rw [hr] at hre
      cases hre
    · rename_i hr
      simp only [Bool.not_eq_true', Bool.not_eq_false] at hr
      show (∀ e ∈ annotateIdentityLocked env now multiaddr peerId publicKey n manager.entries,
        Certified env e) ↔ _
      rw [annotateIdentityLocked_certified_iff hla hen]
      exact ⟨fun h _ => h, fun h => h hr⟩
  | importSeedEntries now s =>
    refine iff_of_true ?_ trivial
    show ∀ e ∈ ((s.take maxSeedLedgerEntries).foldl (LedgerManager.importSeed env now .localMode)
      (manager.entries, 0)).1, Certified env e
    refine forall_importSeeds hen ?_
    intro text _ p k hp
    cases hp
  | load =>
    refine iff_of_true ?_ trivial
    rcases manager.step_load_cases env with hs | ⟨pa, -, hl⟩
    · rw [hs]
      exact hen
    · rw [hl]
      intro e he
      obtain ⟨entry, -, rfl⟩ := List.mem_map.mp he
      exact repairEntry_certified hla entry

/-- **When identity bindings certify themselves**: exactly when no write leaves another peer's key. -/
theorem ledger_certified_iff (hlaw : env.Lawful) (file : Option (List LedgerEntry)) (ops : List LedgerOp) :
    (∀ k, AllCertified env (stateAt (LedgerManager.step env) (.new file) ops k))
      ↔ Guarded (KeepsBindings env) (LedgerManager.step env) (.new file) ops := by
  have hn : AllCertified env (.new file) := by
    intro e he
    cases he
  exact forall_stateAt_iff (fun _ hen => hen)
    (fun _ op _ hen => step_certified_iff hlaw hen op)
    (fun _ op _ hen ho => (step_certified_iff hlaw hen op).mpr ho) hn

theorem recordConnection_new (hl : env.Lawful) {f : Option (List LedgerEntry)} {now : Nat}
    (hv : env.validKey key = true)
    (hd : env.base58Decode (env.toPeerId key).text = some ([0x00, 0x24, 0x08, 0x01, 0x12, 0x20] ++ key.1))
    (hr : env.addrs.isRecordableMultiaddr multiaddr = true)
    (ha : acceptable env multiaddr (env.toPeerId key).text = true) :
    ((LedgerManager.new f).recordConnection env now multiaddr (env.toPeerId key).text).entries
      = [⟨multiaddr, some (hexEncode key.1), some (hexEncode key.1), none, 1, 0, some now, []⟩] := by
  have hb := recordedBinding_toPeerId hl hv hd
  unfold LedgerManager.recordConnection
  rw [hr, ha]
  simp [LedgerManager.saveWithEntries, recordConnectionLocked, hb, LedgerManager.new, upsert, pushEntry,
    makeRoom, maxLedgerEntries]

end

/-! ## A sample ledger -/

namespace SampleLedger

def publicAddr : List Protocol := [.ip4 ⟨198, 51, 100, 9⟩, .tcp 9001]

def publicText : String := "/ip4/198.51.100.9/tcp/9001"

def addrs : Multiaddrs where
  parse text := if text = publicText then some publicAddr else none
  toText addr := if addr = publicAddr then publicText else ""

theorem addrs_lawful : addrs.Lawful where
  parse_strip text addr h := by
    obtain rfl : publicAddr = addr := by
      simp only [addrs] at h
      split at h
      · exact Option.some.inj h
      · cases h
    decide

def env : LedgerEnv where
  base58Decode text :=
    (BlockedList.sampleIds.inlineKey text).map fun key => [0x00, 0x24, 0x08, 0x01, 0x12, 0x20] ++ key.1
  parsesPeerId text := (BlockedList.sampleIds.inlineKey text).isSome || text == "QmCarol"
  toPeerId := BlockedList.sampleIds.toPeerId
  validKey _ := true
  addrs := addrs
  persistedSize entries := entries.length

theorem env_lawful : env.Lawful := ⟨BlockedList.sampleIds_lawful.toPeerId_startsWith, addrs_lawful⟩

def aliceKey : Arr 32 := Arr.fit 32 [1]
def bobKey : Arr 32 := Arr.fit 32 [2]

theorem base58Decode_toPeerId (key : Arr 32) :
    env.base58Decode (env.toPeerId key).text = some ([0x00, 0x24, 0x08, 0x01, 0x12, 0x20] ++ key.1) := by
  simp only [env]
  rw [BlockedList.sampleIds_lawful.inlineKey_toPeerId, Option.map_some]

def recordAlice : LedgerOp := .recordConnection 0 publicText (env.toPeerId aliceKey).text
def recordBob : LedgerOp := .recordConnection 0 publicText (env.toPeerId bobKey).text

def aliceSeen : LedgerManager := (LedgerManager.new none).step env recordAlice

theorem run_recordAlice : [recordAlice].foldl (LedgerManager.step env) (.new none) = aliceSeen := by
  rw [List.foldl_cons, List.foldl_nil, aliceSeen]

theorem entries_aliceSeen : aliceSeen.entries
    = [⟨publicText, some (hexEncode aliceKey.1), some (hexEncode aliceKey.1), none, 1, 0, some 0, []⟩] := by
  rw [aliceSeen, recordAlice, LedgerManager.step]
  exact recordConnection_new env_lawful rfl (base58Decode_toPeerId aliceKey) (by decide +kernel) (by decide +kernel)

theorem keepsBindings_aliceSeen {key : Arr 32}
    (ha : acceptable env publicText (env.toPeerId key).text = true) :
    KeepsBindings env aliceSeen (.recordConnection 0 publicText (env.toPeerId key).text) ↔ key = aliceKey := by
  have hr : env.addrs.isRecordableMultiaddr publicText = true := by decide +kernel
  have hp : isDnsMultiaddr publicText = false := by decide +kernel
  have hb := recordedBinding_toPeerId env_lawful rfl (base58Decode_toPeerId key)
  have hn : hexEncode key.1 ≠ "" := by
    rw [ne_eq, ← String.isEmpty_iff, hexEncode_isEmpty]
    simp
  have hd : aliceSeen.entries.find? (isDnsEntryOf env publicText (hexEncode key.1)) = none := by
    rw [entries_aliceSeen]
    simp [isDnsEntryOf, hp]
  constructor
  · intro h
    have hke := h hr ha
    rw [hb] at hke
    have hs : aliceSeen.entries.find? (·.multiaddr == publicText) = some
        ⟨publicText, some (hexEncode aliceKey.1), some (hexEncode aliceKey.1), none, 1, 0, some 0, []⟩ := by
      rw [entries_aliceSeen]
      simp
    have hf := hke hd _ hs _ rfl
    exact (bindsTo_hexEncode_iff env_lawful).mp (hf.resolve_left hn)
  · rintro rfl _ _
    rw [hb]
    intro _ entry he publicKey hk
    rw [entries_aliceSeen] at he
    simp only [List.find?_cons, beq_self_eq_true, Option.some.injEq] at he
    rw [← he, Option.some.injEq] at hk
    rw [← hk]
    exact .inr ((bindsTo_hexEncode_iff env_lawful).mpr rfl)

theorem keepsBindings_new (op : LedgerOp) : KeepsBindings env (.new none) op := by
  have hk : ∀ multiaddr peerId, BindingKept env (.new none) multiaddr peerId := by
    intro multiaddr peerId _ entry he
    cases he
  cases op with
  | recordConnection _ _ _ => exact fun _ _ => hk _ _
  | annotateIdentity _ _ _ _ _ => exact fun _ _ _ _ _ => hk _ _
  | recordFailure _ => trivial
  | importSeedEntries _ _ => trivial
  | load => trivial

/-- Two connections to one peer at one address keep the binding. -/
theorem certified_alice_twice :
    AllCertified env (stateAt (LedgerManager.step env) (.new none) [recordAlice, recordAlice] 2) := by
  refine (ledger_certified_iff env_lawful none [recordAlice, recordAlice]).mpr ?_ 2
  rw [Guarded, Guarded, ← aliceSeen]
  exact ⟨keepsBindings_new _, (keepsBindings_aliceSeen (by decide +kernel)).mpr rfl, trivial⟩

/-- Two peers at one address leave the key of the first with the second. -/
theorem key_of_alice_with_bob :
    ¬ AllCertified env (stateAt (LedgerManager.step env) (.new none) [recordAlice, recordBob] 2) := by
  rw [stateAt, List.take_succ_cons, List.take_succ_cons, List.take_zero, List.foldl_cons, List.foldl_cons,
    List.foldl_nil, ← aliceSeen]
  intro h
  have ha : AllCertified env aliceSeen := by
    rw [aliceSeen]
    exact (step_certified_iff env_lawful (fun e he => by cases he) recordAlice).mpr (keepsBindings_new _)
  have hk : KeepsBindings env aliceSeen recordBob := (step_certified_iff env_lawful ha recordBob).mp h
  have heq : bobKey = aliceKey := (keepsBindings_aliceSeen (by decide +kernel)).mp hk
  exact absurd heq (by decide)

end SampleLedger

end SCMessenger
