import SCMessenger.Drift.Parsing
import SCMessenger.Lib.Counting
import SCMessenger.Lib.TermModel
import SCMessenger.Message.WireFormat

/-!
# Envelopes inside Drift envelopes

A message envelope travels inside a signed Drift envelope, and `decode_wire_envelope` takes it out again.
-/

namespace SCMessenger

def WireEnvelope.driftCiphertext (w : WireEnvelope) (lz4 : Lz4) : Bytes :=
  if compressionThreshold < w.ciphertext.length then lz4.compress w.ciphertext else w.ciphertext

namespace DriftEnvelope

variable {K : Type} {P : Primitives K} {lz4 : Lz4} {d : DriftEnvelope} {b : Bytes}

/-! ## Decoding -/

theorem toBytes_eq_cons (hd : d.WireNormal) (hb : d.toBytes lz4 = .ok b) :
    ∃ t, b = driftVersion :: t := by
  obtain ⟨-, rfl⟩ := toBytes_eq_ok.mp hb
  rw [← hd.version]
  exact ⟨_, rfl⟩

theorem decodeWireEnvelope_toBytes (hl4 : lz4.Lossless) (hd : d.WireNormal) (hb : d.toBytes lz4 = .ok b)
    (hs : b.length ≤ maxMessageSize) (hv : d.verify P = .ok ()) :
    decodeWireEnvelope P lz4 b = .ok d.toWireEnvelope := by
  have hr := fromBytes_toBytes hl4 hd hb
  obtain ⟨t, rfl⟩ := toBytes_eq_cons hd hb
  rw [decodeWireEnvelope, if_neg (Nat.not_lt.mpr hs), if_pos rfl, hr]
  simp only [hv]

def signed (P : Primitives K) (signingKey : Arr 32) (d : DriftEnvelope) : DriftEnvelope :=
  { d with signature := d.sign P signingKey }

theorem WireNormal.signed (hd : d.WireNormal) (s : Arr 32) : (d.signed P s).WireNormal :=
  ⟨hd.version, hd.ratchet, hd.suite, hd.kem, hd.key, hd.hash⟩

theorem verify_signed (he : EdCorrect P) {s : Arr 32} (d : DriftEnvelope)
    (hk : d.senderPublicKey = P.edPublic s) : (d.signed P s).verify P = .ok () := by
  have hv : P.edKeyValid d.senderPublicKey ≠ false := by simp [hk, he.valid]
  have ha : P.edVerify d.senderPublicKey (d.signingHash P).1 (d.sign P s) ≠ false := by
    rw [hk, sign, he.verify_sign]
    nofun
  show (if P.edKeyValid d.senderPublicKey = false then _ else
    if P.edVerify d.senderPublicKey (d.signingHash P).1 (d.sign P s) = false then _ else _) = _
  rw [if_neg hv, if_neg ha]

/-! ## Wrapping -/

def wrapped (messageId : Arr 16) (recipientHint : Arr 4) (now : UInt64) (sender ephemeral : Arr 32)
    (nonce : Arr 24) (ciphertext : Bytes) (dh : Option (Arr 32)) (number : Option UInt32) : DriftEnvelope where
  version := driftVersion
  envelopeType := .encryptedMessage
  compressed := compressionThreshold < ciphertext.length
  messageId := messageId
  recipientHint := recipientHint
  createdAt := now.toUInt32
  ttlExpiry := now.toUInt32 + defaultTtl
  hopCount := 0
  priority := 128
  senderPublicKey := sender
  ephemeralPublicKey := ephemeral
  nonce := nonce
  signature := Arr.fit 64 []
  ciphertext := ciphertext
  ratchetDhPublic := dh
  ratchetMessageNumber := number
  suite := none
  pqKemCiphertext := none
  pqEncapsKey := none
  transcriptHash := none

theorem wrap_eq_ok (m : Arr 16) (r : Arr 32) (now : UInt64) (s e : Arr 32)
    (no : Arr 24) (c : Bytes) (dh : Option (Arr 32)) (nu : Option UInt32) :
    wrap P m r now s.1 e.1 no.1 c (dh.map (·.1)) nu
      = .ok (wrapped m (hintFromPublicKey P r) now s e no c dh
        nu) := by
  unfold wrap
  simp only [Arr.ofBytes?_val]
  cases dh with
  | none => rfl
  | some key =>
    simp only [Option.map_some, Arr.ofBytes?_val]
    rfl

variable {n : Nat}

theorem exists_arr {field : Bytes} (h : field.length = n) : ∃ a : Arr n, field = a.1 :=
  ⟨⟨field, h⟩, rfl⟩

variable {field : Option Bytes}

theorem exists_optionArr (h : HasLength field n) : ∃ a : Option (Arr n), field = a.map (·.1) := by
  cases field with
  | none => exact ⟨none, rfl⟩
  | some b =>
    obtain ⟨a, ha⟩ := exists_arr (h b rfl)
    exact ⟨some a, by rw [ha]; rfl⟩

theorem hasLength_arr (a : Option (Arr n)) : HasLength (a.map (·.1)) n := by
  intro b hb
  obtain ⟨a, -, rfl⟩ := Option.map_eq_some_iff.mp hb
  exact a.2

theorem blobFits_of_hasLength (h : HasLength field n) (hp : 0 < n) (hs : n < 2 ^ 32) :
    BlobFits field := by
  intro b hb
  have hl := h b hb
  exact ⟨List.ne_nil_of_length_pos (by omega), by omega⟩

def fromWireEnvelope (P : Primitives K) (w : WireEnvelope) (messageId : Arr 16)
    (recipientPublicKey signingKey : Arr 32) (now : UInt64) : Except DriftError DriftEnvelope :=
  match w with
  | .v1 e => fromLegacyEnvelope P e messageId recipientPublicKey signingKey now
  | .v2 e => fromV2Envelope P e messageId recipientPublicKey signingKey now

theorem ratchetBytes_length_le (d : DriftEnvelope) : d.ratchetBytes.length ≤ 37 := by
  unfold ratchetBytes
  split
  · rename_i dh _
    simp [dh.2]
  · simp

theorem blob_length_le (h : HasLength field n) : (blob field).length ≤ 4 + n := by
  cases field with
  | none => simp [blob]
  | some b => simp [blob, h b rfl]

theorem toBytes_length_le (hb : d.toBytes lz4 = .ok b) (hk : HasLength d.pqKemCiphertext 1088)
    (hke : HasLength d.pqEncapsKey 1184) (hh : HasLength d.transcriptHash 32) :
    b.length ≤ maxMessageSize := by
  obtain ⟨hs, rfl⟩ := toBytes_eq_ok.mp hb
  have hp : d.pqBytes.length ≤ 2 + (4 + 1088) + (4 + 1184) + (4 + 32) := by
    have hk' := blob_length_le hk
    have hke' := blob_length_le hke
    have hh' := blob_length_le hh
    unfold pqBytes
    split
    · simp only [List.length_append, List.length_cons, List.length_nil]
      omega
    · exact Nat.zero_le _
  have hr := d.ratchetBytes_length_le
  simp only [List.length_append, headerBytes_length, d.signature.2, leBytes_length, maxCiphertext,
    maxMessageSize] at hs ⊢
  omega

variable {w : WireEnvelope}

theorem fromWireEnvelope_eq_ok (hw : w.WellFormed)
    (hp : w.ratchetDhPublic.isSome = w.ratchetMessageNumber.isSome) (m : Arr 16)
    (r sk : Arr 32) (now : UInt64) :
    ∃ d : DriftEnvelope, fromWireEnvelope P w m r sk now
        = .ok (d.signed P sk)
      ∧ d.WireNormal ∧ d.toWireEnvelope = w ∧ ∀ lz4, d.storedCiphertext lz4 = w.driftCiphertext lz4 := by
  cases w with
  | v1 e =>
    obtain ⟨senderPublicKey, ephemeralPublicKey, nonce, ciphertext, ratchetDhPublic, nu⟩ := e
    obtain ⟨s, rfl⟩ := exists_arr hw.sender
    obtain ⟨ep, rfl⟩ := exists_arr hw.ephemeral
    obtain ⟨nonce, rfl⟩ := exists_arr hw.nonce
    obtain ⟨dh, rfl⟩ := exists_optionArr hw.ratchet
    have hr : dh.isSome = nu.isSome := Option.isSome_map.symm.trans hp
    have hs : ∀ lz4 : Lz4, (if decide (compressionThreshold < ciphertext.length)
        then lz4.compress ciphertext else ciphertext)
        = if compressionThreshold < ciphertext.length then lz4.compress ciphertext else ciphertext := by
      simp
    refine ⟨wrapped m (hintFromPublicKey P r) now s ep nonce ciphertext dh nu,
      ?_, ⟨rfl, hr, nofun, nofun, nofun, nofun⟩, rfl, hs⟩
    rw [fromWireEnvelope, fromLegacyEnvelope, wrap_eq_ok]
    rfl
  | v2 e =>
    obtain ⟨su, senderPublicKey, ephemeralPublicKey, nonce, ciphertext, ratchetDhPublic, nu, kem, key,
      hash⟩ := e
    obtain ⟨s, rfl⟩ := exists_arr hw.sender
    obtain ⟨ep, rfl⟩ := exists_arr hw.ephemeral
    obtain ⟨nonce, rfl⟩ := exists_arr hw.nonce
    obtain ⟨dh, rfl⟩ := exists_optionArr hw.ratchet
    have hr : dh.isSome = nu.isSome := Option.isSome_map.symm.trans hp
    have hs : ∀ lz4 : Lz4, (if decide (compressionThreshold < ciphertext.length)
        then lz4.compress ciphertext else ciphertext)
        = if compressionThreshold < ciphertext.length then lz4.compress ciphertext else ciphertext := by
      simp
    refine ⟨{ wrapped m (hintFromPublicKey P r) now s ep nonce ciphertext dh nu with
        suite := some su
        pqKemCiphertext := kem
        pqEncapsKey := key
        transcriptHash := hash },
      ?_, ⟨rfl, hr, fun _ => rfl, ?_, ?_, ?_⟩, rfl, hs⟩
    · rw [fromWireEnvelope, fromV2Envelope, wrap_eq_ok]
      rfl
    · exact blobFits_of_hasLength hw.kem (by decide) (by decide)
    · exact blobFits_of_hasLength hw.key (by decide) (by decide)
    · exact blobFits_of_hasLength hw.hash (by decide) (by decide)

theorem toWireEnvelope_wellFormed_iff (d : DriftEnvelope) :
    d.toWireEnvelope.WellFormed ↔ HasLength d.pqKemCiphertext 1088 ∧ HasLength d.pqEncapsKey 1184
      ∧ HasLength d.transcriptHash 32 := by
  have hr := hasLength_arr d.ratchetDhPublic
  unfold toWireEnvelope
  cases hp : d.hasPqExtension with
  | true =>
    constructor
    · intro h
      exact ⟨h.kem, h.key, h.hash⟩
    · rintro ⟨hk, hke, hh⟩
      exact ⟨d.senderPublicKey.2, d.ephemeralPublicKey.2, d.nonce.2, hr, hk, hke, hh⟩
  | false =>
    simp only [hasPqExtension, Bool.or_eq_false_iff, Option.isSome_eq_false_iff,
      Option.isNone_iff_eq_none] at hp
    obtain ⟨⟨⟨-, hk⟩, hke⟩, hh⟩ := hp
    rw [hk, hke, hh]
    constructor
    · intro _
      refine ⟨?_, ?_, ?_⟩ <;> rintro _ ⟨⟩
    · intro _
      exact ⟨d.senderPublicKey.2, d.ephemeralPublicKey.2, d.nonce.2, hr⟩

/-- **Wrapping is transparent** if the ciphertext can be stored; otherwise nothing is written. -/
theorem wrapping_transparent (P : Primitives K) (lz4 : Lz4) (hed : EdCorrect P) (hlz4 : lz4.Lossless)
    (w : WireEnvelope) (hw : w.WellFormed)
    (hpair : w.ratchetDhPublic.isSome = w.ratchetMessageNumber.isSome) (signingKey : Arr 32)
    (hsender : w.senderPublicKey = (P.edPublic signingKey).1) (messageId : Arr 16) (recipient : Arr 32)
    (now : UInt64) :
    ∃ d, fromWireEnvelope P w messageId recipient signingKey now = .ok d
      ∧ ((w.driftCiphertext lz4).length ≤ maxCiphertext →
        ∃ b, d.toBytes lz4 = .ok b ∧ decodeWireEnvelope P lz4 b = .ok w)
      ∧ (maxCiphertext < (w.driftCiphertext lz4).length →
        d.toBytes lz4 = .error (.ciphertextTooLarge (w.driftCiphertext lz4).length)) := by
  obtain ⟨d, hwr, hn, hwi, hst⟩ :=
    fromWireEnvelope_eq_ok (P := P) hw hpair messageId recipient signingKey now
  have hk : d.senderPublicKey = P.edPublic signingKey := by
    apply Subtype.ext
    rw [← toWireEnvelope_senderPublicKey, hwi, hsender]
  have hs : (d.signed P signingKey).storedCiphertext lz4 = w.driftCiphertext lz4 := hst lz4
  refine ⟨_, hwr, fun hf => ?_, fun hl => ?_⟩
  · rw [← hs] at hf
    have hb := toBytes_eq_ok.mpr ⟨hf, rfl⟩
    obtain ⟨hke, he, hh⟩ := (toWireEnvelope_wellFormed_iff d).mp (hwi ▸ hw)
    refine ⟨_, hb, ?_⟩
    rw [decodeWireEnvelope_toBytes hlz4 (hn.signed signingKey) hb (toBytes_length_le hb hke he hh)
      (verify_signed hed d hk)]
    exact congrArg Outcome.ok hwi
  · rw [← hs] at hl ⊢
    exact if_pos hl

def hybridEnvelope : EnvelopeV2 where
  suite := 0x02
  senderPublicKey := List.replicate 32 1
  ephemeralPublicKey := List.replicate 32 2
  nonce := List.replicate 24 3
  ciphertext := [42]
  ratchetDhPublic := some (List.replicate 32 4)
  ratchetMessageNumber := some 9
  pqKemCiphertext := some (List.replicate 1088 5)
  pqEncapsKey := some (List.replicate 1184 6)
  transcriptHash := some (List.replicate 32 7)

theorem hybridEnvelope_wellFormed : hybridEnvelope.WellFormed := by
  have hf : ∀ (n : Nat) (x : UInt8), HasLength (some (List.replicate n x)) n := by
    rintro n x b ⟨⟩
    exact List.length_replicate
  exact ⟨List.length_replicate, List.length_replicate, List.length_replicate, hf 32 4, hf 1088 5,
    hf 1184 6, hf 32 7⟩

theorem wrapping_transparent_sample :
    ∃ d b, fromWireEnvelope termPrimitives (.v2 hybridEnvelope) (Arr.fit 16 [7]) (Arr.fit 32 [8])
        ⟨List.replicate 32 1, List.length_replicate⟩ 1000 = .ok d
      ∧ d.toBytes storedLz4 = .ok b ∧ decodeWireEnvelope termPrimitives storedLz4 b = .ok (.v2 hybridEnvelope) := by
  obtain ⟨d, hd, hf, -⟩ := wrapping_transparent termPrimitives storedLz4 termEd (fun _ => rfl)
    (.v2 hybridEnvelope) hybridEnvelope_wellFormed rfl ⟨List.replicate 32 1, List.length_replicate⟩ rfl
    (Arr.fit 16 [7]) (Arr.fit 32 [8]) 1000
  obtain ⟨b, hb, hde⟩ := hf (by decide)
  exact ⟨d, b, hd, hb, hde⟩

/-- Whatever the compression, some ciphertext of 65536 bytes cannot be written. -/
theorem some_envelope_too_large :
    ¬ ∃ lz4 : Lz4, lz4.Lossless ∧ ∀ (w : WireEnvelope) (signingKey : Arr 32), w.WellFormed →
      w.ratchetDhPublic.isSome = w.ratchetMessageNumber.isSome →
      w.senderPublicKey = (termPrimitives.edPublic signingKey).1 →
      ∃ d b, fromWireEnvelope termPrimitives w (Arr.fit 16 [7]) (Arr.fit 32 [8]) signingKey 1000 = .ok d
        ∧ d.toBytes lz4 = .ok b := by
  rintro ⟨lz4, hl4, ha⟩
  have hi : Function.Injective lz4.compress := by
    intro b c h
    have he : lz4.decompress (lz4.compress b) = lz4.decompress (lz4.compress c) := congrArg lz4.decompress h
    rw [hl4, hl4] at he
    exact Except.ok.inj he
  obtain ⟨ciphertext, hl, hlo⟩ := exists_long_image hi maxCiphertext
  let w : WireEnvelope := .v1 ⟨List.replicate 32 1, List.replicate 32 2, List.replicate 24 3, ciphertext, none, none⟩
  have hw : w.WellFormed := ⟨List.length_replicate, List.length_replicate, List.length_replicate, nofun⟩
  obtain ⟨d, hd, -, -, hs⟩ := fromWireEnvelope_eq_ok (P := termPrimitives) hw rfl (Arr.fit 16 [7])
    (Arr.fit 32 [8]) ⟨List.replicate 32 1, List.length_replicate⟩ 1000
  obtain ⟨d', b, hd', hb⟩ := ha w ⟨List.replicate 32 1, List.length_replicate⟩ hw rfl rfl
  obtain rfl : d.signed termPrimitives _ = d' := Except.ok.inj (hd.symm.trans hd')
  have hsz := (toBytes_eq_ok.mp hb).1
  have hc : w.driftCiphertext lz4 = lz4.compress ciphertext := by
    refine if_pos ?_
    show compressionThreshold < ciphertext.length
    rw [hl]
    decide
  have hsi : (d.signed termPrimitives ⟨List.replicate 32 1, List.length_replicate⟩).storedCiphertext lz4
      = lz4.compress ciphertext := (hs lz4).trans hc
  rw [hsi] at hsz
  omega

/-! ## What the decoder lets in -/

theorem ofExcept_map_eq_ok {c : Except CodecError Unit} {w' : WireEnvelope}
    (h : Outcome.ofExcept (c.map fun _ => w') = .ok w) : c = .ok () ∧ w' = w := by
  cases c with
  | error e => cases h
  | ok u => exact ⟨rfl, Outcome.ok.inj h⟩

def decodeBincode (tag : UInt8) (rest : Bytes) : Outcome CodecError WireEnvelope :=
  match (if tag = wireTagV2 then envelopeV2Codec.deserialize rest else none) with
  | some e => .ofExcept ((checkLengths (envelopeV2Checks "" e ++ optionalChecks "" e)).map fun _ => .v2 e)
  | none =>
    match envelopeCodec.deserialize (tag :: rest) with
    | none => .err .bincode
    | some e => .ofExcept ((checkLengths (envelopeChecks "" e ++ ratchetCheck e "")).map fun _ => .v1 e)

theorem decodeWireEnvelope_cons (P : Primitives K) (lz4 : Lz4) (tag : UInt8) (r : Bytes) :
    decodeWireEnvelope P lz4 (tag :: r)
      = if maxMessageSize < (tag :: r).length then .err (.text "Envelope buffer too large")
        else if tag = driftVersion then
          match fromBytes lz4 (tag :: r) with
          | .panicked => .panicked
          | .err _ => decodeBincode tag r
          | .ok d =>
            match d.verify P with
            | .error _ => .err (.text "Drift envelope signature verification failed")
            | .ok () => .ok d.toWireEnvelope
        else decodeBincode tag r := rfl

theorem decodeBincode_wellFormed {tag : UInt8} {r : Bytes} (h : decodeBincode tag r = .ok w) :
    w.WellFormed := by
  unfold decodeBincode at h
  split at h
  · rename_i e _
    obtain ⟨hc, rfl⟩ := ofExcept_map_eq_ok h
    rw [← List.append_nil (envelopeV2Checks "" e)] at hc
    exact (checksV2_eq_ok_iff.mp hc).1
  · split at h
    · cases h
    · rename_i e _
      obtain ⟨hc, rfl⟩ := ofExcept_map_eq_ok h
      rw [← List.append_nil (envelopeChecks "" e)] at hc
      exact (checks_eq_ok_iff.mp hc).1

theorem decodeWireEnvelope_cases {buf : Bytes} (h : decodeWireEnvelope P lz4 buf = .ok w) :
    (∃ d, fromBytes lz4 buf = .ok d ∧ w = d.toWireEnvelope)
      ∨ (∀ d, fromBytes lz4 buf ≠ .ok d) ∧ w.WellFormed := by
  cases buf with
  | nil => cases h
  | cons tag r =>
    rw [decodeWireEnvelope_cons] at h
    split at h
    · cases h
    · split at h
      · split at h
        · cases h
        · rename_i he
          exact .inr ⟨fun d hd => (by cases he.symm.trans hd), decodeBincode_wellFormed h⟩
        · rename_i d hd
          split at h
          · cases h
          · exact .inl ⟨d, hd, (Outcome.ok.inj h).symm⟩
      · rename_i ht
        exact .inr ⟨fromBytes_of_tag ht lz4 r, decodeBincode_wellFormed h⟩

theorem toWireEnvelope_lengths (d : DriftEnvelope) :
    d.toWireEnvelope.senderPublicKey.length = 32 ∧ d.toWireEnvelope.ephemeralPublicKey.length = 32
      ∧ d.toWireEnvelope.nonce.length = 24 ∧ HasLength d.toWireEnvelope.ratchetDhPublic 32 := by
  have hr := hasLength_arr d.ratchetDhPublic
  unfold toWireEnvelope
  split
  · exact ⟨d.senderPublicKey.2, d.ephemeralPublicKey.2, d.nonce.2, hr⟩
  · exact ⟨d.senderPublicKey.2, d.ephemeralPublicKey.2, d.nonce.2, hr⟩

/-- The three lengths in a post-quantum extension, if its flag is set, are zero or those of the fields. -/
def PqLengths (data : Bytes) (offset : Nat) : Prop :=
  offset < data.length → byteAt data offset = 0x01 →
    let kem := (u32At data (offset + 2)).toNat
    let key := (u32At data (offset + 6 + kem)).toNat
    let hash := (u32At data (offset + 10 + kem + key)).toNat
    (kem = 0 ∨ kem = 1088) ∧ (key = 0 ∨ key = 1184) ∧ (hash = 0 ∨ hash = 32)

theorem hasLength_iff_pqLengths {data : Bytes} {o : Nat} {pq : PqExtension} (h : readPq data o = .ok pq) :
    HasLength pq.pqKemCiphertext 1088 ∧ HasLength pq.pqEncapsKey 1184 ∧ HasLength pq.transcriptHash 32
      ↔ PqLengths data o := by
  unfold readPq at h
  unfold PqLengths
  split at h
  · rename_i hi
    rw [imp_iff_right hi]
    split at h
    · rename_i hf
      rw [imp_iff_right hf]
      split at h
      · cases h
      · simp only [Outcome.bind_eq_ok] at h
        obtain ⟨⟨kem, o₁⟩, hk, ⟨key, o₂⟩, hke, ⟨hash, o₃⟩, hh, he⟩ := h
        obtain ⟨rfl, hlk⟩ := readBlob_length hk
        obtain ⟨rfl, hlke⟩ := readBlob_length hke
        obtain rfl := Outcome.ok.inj he
        have hkey (n : Nat) : o + 2 + 4 + n = o + 6 + n := by omega
        have hhash (n m : Nat) : o + 6 + n + 4 + m = o + 10 + n + m := by omega
        rw [hkey] at hlke hh
        rw [hhash] at hh
        exact and_congr (hlk 1088) (and_congr (hlke 1184) ((readBlob_length hh).2 32))
    · rename_i hf
      obtain rfl := Outcome.ok.inj h
      exact iff_of_true ⟨nofun, nofun, nofun⟩ fun hf' => absurd hf' hf
  · rename_i hi
    obtain rfl := Outcome.ok.inj h
    exact iff_of_true ⟨nofun, nofun, nofun⟩ fun hi' => absurd hi' hi

/-- **Well-formedness of decoded envelopes**, but for post-quantum fields that came in a Drift envelope. -/
theorem decoded_wellFormed_iff (P : Primitives K) (lz4 : Lz4) (buf : Bytes) (w : WireEnvelope)
    (h : decodeWireEnvelope P lz4 buf = .ok w) :
    (w.senderPublicKey.length = 32 ∧ w.ephemeralPublicKey.length = 32 ∧ w.nonce.length = 24
      ∧ HasLength w.ratchetDhPublic 32)
    ∧ (w.WellFormed ↔ ((∃ d, fromBytes lz4 buf = .ok d) → PqLengths buf (pqOffset buf))) := by
  rcases decodeWireEnvelope_cases h with ⟨d, hd, rfl⟩ | ⟨hn, hw⟩
  · refine ⟨d.toWireEnvelope_lengths, ?_⟩
    rw [imp_iff_right ⟨d, hd⟩]
    exact (toWireEnvelope_wellFormed_iff d).trans (hasLength_iff_pqLengths (readPq_of_fromBytes hd))
  · refine ⟨?_, fun _ ⟨d, hd⟩ => absurd hd (hn d), fun _ => hw⟩
    cases w with
    | v1 e => exact ⟨hw.sender, hw.ephemeral, hw.nonce, hw.ratchet⟩
    | v2 e => exact ⟨hw.sender, hw.ephemeral, hw.nonce, hw.ratchet⟩

def shortKem : DriftEnvelope := extendedEnvelope.signed termPrimitives extendedEnvelope.senderPublicKey

theorem decodeWireEnvelope_shortKem :
    ∃ b, shortKem.toBytes storedLz4 = .ok b
      ∧ decodeWireEnvelope termPrimitives storedLz4 b = .ok shortKem.toWireEnvelope := by
  have hb := toBytes_eq_ok.mpr ⟨(by decide : (shortKem.storedCiphertext storedLz4).length ≤ _), rfl⟩
  exact ⟨_, hb, decodeWireEnvelope_toBytes (fun _ => rfl) (extendedEnvelope_normal.signed _) hb
    (by decide +kernel) (verify_signed termEd extendedEnvelope rfl)⟩

theorem decoded_wellFormed_sample :
    ∃ b, decodeWireEnvelope termPrimitives storedLz4 b = .ok shortKem.toWireEnvelope
      ∧ shortKem.toWireEnvelope.nonce.length = 24 := by
  obtain ⟨b, -, hd⟩ := decodeWireEnvelope_shortKem
  exact ⟨b, hd, (decoded_wellFormed_iff termPrimitives storedLz4 b _ hd).1.2.2.1⟩

/-- **Failing input**: the decoder accepts a KEM ciphertext of one byte. -/
theorem shortKem_accepted :
    ∃ b, decodeWireEnvelope termPrimitives storedLz4 b = .ok shortKem.toWireEnvelope
      ∧ ¬ shortKem.toWireEnvelope.WellFormed := by
  obtain ⟨b, -, hd⟩ := decodeWireEnvelope_shortKem
  refine ⟨b, hd, fun hw => ?_⟩
  have hk := ((toWireEnvelope_wellFormed_iff shortKem).mp hw).1 [6] rfl
  exact absurd hk (by decide)

end DriftEnvelope

end SCMessenger
