import SCMessenger.Drift.Envelope
import SCMessenger.Lib.Segments

/-!
# What is written is read back

Each reader of `fromBytes` finds the piece that `toBytes` wrote at its offset.
-/

namespace SCMessenger

def Lz4.Lossless (lz4 : Lz4) : Prop := ∀ b, lz4.decompress (lz4.compress b) = .ok b

/-- A blob that is not taken for an absent one, and whose length is not cut. -/
def BlobFits (v : Option Bytes) : Prop := ∀ b, v = some b → b ≠ [] ∧ b.length < 2 ^ 32

namespace DriftEnvelope

/-- What the format can express. -/
structure WireNormal (e : DriftEnvelope) : Prop where
  version : e.version = driftVersion
  ratchet : e.ratchetDhPublic.isSome = e.ratchetMessageNumber.isSome
  suite : e.pqKemCiphertext.isSome ∨ e.pqEncapsKey.isSome ∨ e.transcriptHash.isSome → e.suite.isSome
  kem : BlobFits e.pqKemCiphertext
  key : BlobFits e.pqEncapsKey
  hash : BlobFits e.transcriptHash

variable {data : Bytes} {o : Nat}

/-! ## Fields at fixed offsets -/

theorem byteAt_of_standsAt {b : UInt8} (h : StandsAt data o [b]) : byteAt data o = b := h.getD 0

theorem sliceAt_of_standsAt {p : Bytes} {n : Nat} (h : StandsAt data o p) (hn : p.length = n) :
    sliceAt data o n = p := h.take_drop hn

theorem arrAt_of_standsAt {n : Nat} {a : Arr n} (h : StandsAt data o a.1) : arrAt data o n = a := by
  obtain ⟨t, ht⟩ := h
  apply Subtype.ext
  show (data.drop o ++ List.replicate n 0).take n = a.1
  rw [← ht, List.append_assoc, List.take_left' a.2]

theorem leNat_sliceAt {w n : Nat} (h : StandsAt data o (leBytes w n)) (hn : n < 256 ^ w) :
    leNat (sliceAt data o w) = n := by
  rw [sliceAt_of_standsAt h (leBytes_length w n), leNat_leBytes, Nat.mod_eq_of_lt hn]

theorem u32At_of_standsAt {v : UInt32} (h : StandsAt data o (leBytes 4 v.toNat)) : u32At data o = v := by
  rw [u32At, leNat_sliceAt h v.toNat_lt, UInt32.ofNat_toNat]

theorem fromU8_asU8 (t : EnvelopeType) : EnvelopeType.fromU8 t.asU8 = .ok t := by
  cases t <;> rfl

variable (e : DriftEnvelope)

theorem typeByte_flag : ((e.typeByte &&& compressionFlag) != 0) = e.compressed := by
  unfold typeByte
  cases e.envelopeType <;> cases e.compressed <;> rfl

theorem typeByte_type : e.typeByte &&& ~~~compressionFlag = e.envelopeType.asU8 := by
  unfold typeByte
  cases e.envelopeType <;> cases e.compressed <;> rfl

/-! ## Optional parts -/

theorem ratchetBytes_ne_nil : e.ratchetBytes ≠ [] := by
  unfold ratchetBytes
  split <;> simp

theorem blob_ne_nil (v : Option Bytes) : blob v ≠ [] := by
  simp [blob, leBytes]

theorem readRatchet_of_standsAt {e : DriftEnvelope}
    (hp : e.ratchetDhPublic.isSome = e.ratchetMessageNumber.isSome) (h : StandsAt data o e.ratchetBytes) :
    readRatchet data o
      = .ok ((e.ratchetDhPublic, e.ratchetMessageNumber), o + e.ratchetBytes.length) := by
  have hl := h.length_le e.ratchetBytes_ne_nil
  unfold ratchetBytes at h hl ⊢
  cases hd : e.ratchetDhPublic with
  | none =>
    have hn : e.ratchetMessageNumber = none := by simpa [hd] using hp.symm
    simp only [hd] at h hl ⊢
    have hf : byteAt data o = 0x00 := byteAt_of_standsAt h
    have hi : o < data.length := hl
    rw [readRatchet, if_pos hi, hf, if_neg (by decide), hn]
    rfl
  | some dh =>
    obtain ⟨n, hn⟩ : ∃ n, e.ratchetMessageNumber = some n := by
      rw [← Option.isSome_iff_exists, ← hp, hd]
      rfl
    simp only [hd, hn, Option.getD_some] at h hl ⊢
    simp only [StandsAt.append, List.length_append, List.length_singleton, dh.2] at h
    obtain ⟨⟨hf, hdA⟩, hnA⟩ := h
    simp only [List.length_append, List.length_singleton, dh.2, leBytes_length] at hl ⊢
    rw [readRatchet, if_pos (by omega), byteAt_of_standsAt hf, if_pos rfl, if_pos (by omega),
      arrAt_of_standsAt hdA, u32At_of_standsAt hnA]

theorem readBlob_of_standsAt {v : Option Bytes} (hv : BlobFits v) (h : StandsAt data o (blob v)) :
    readBlob data o = .ok (v, o + (blob v).length) := by
  have hl := h.length_le (blob_ne_nil v)
  unfold blob at h hl ⊢
  rw [StandsAt.append, leBytes_length] at h
  rw [List.length_append, leBytes_length] at hl ⊢
  have hs : (v.getD []).length < 256 ^ 4 := by
    cases v with
    | none => exact Nat.two_pow_pos 32
    | some b => exact (hv b rfl).2
  have hc : (u32At data o).toNat = (v.getD []).length := by
    rw [u32At, leNat_sliceAt h.1 hs, UInt32.toNat_ofNat_of_lt' hs]
  rw [readBlob, if_neg (by omega), hc]
  cases v with
  | none => rfl
  | some b =>
    have hn : b.length ≠ 0 := by simpa using (hv b rfl).1
    simp only [Option.getD_some] at h hl ⊢
    rw [if_neg hn, if_neg (by omega), sliceAt_of_standsAt h.2 rfl, Nat.add_assoc]

theorem readPq_of_standsAt {e : DriftEnvelope} (he : e.WireNormal) (h : StandsAt data o e.pqBytes)
    (hen : data.length = o + e.pqBytes.length) :
    readPq data o = .ok ⟨e.suite, e.pqKemCiphertext, e.pqEncapsKey, e.transcriptHash⟩ := by
  unfold pqBytes at h hen
  cases hp : e.hasPqExtension with
  | false =>
    -- nothing is written, so that the buffer ends here
    rw [hp] at hen
    have ho : ¬ o < data.length := by simp [hen]
    simp only [hasPqExtension, Bool.or_eq_false_iff, Option.isSome_eq_false_iff,
      Option.isNone_iff_eq_none] at hp
    obtain ⟨⟨⟨hs, hk⟩, hkey⟩, hha⟩ := hp
    rw [readPq, if_neg ho, hs, hk, hkey, hha]
  | true =>
    obtain ⟨s, hs⟩ : ∃ s, e.suite = some s := by
      rw [← Option.isSome_iff_exists]
      by_contra hnone
      have hb := mt he.suite hnone
      simp only [hasPqExtension, Bool.or_eq_true] at hp
      tauto
    rw [hp, if_pos rfl, hs, Option.getD_some] at h hen
    simp only [StandsAt.append, List.length_append, List.length_cons, List.length_nil, Nat.reduceAdd,
      ← Nat.add_assoc] at h
    obtain ⟨⟨⟨hhe, hke⟩, hky⟩, hh⟩ := h
    obtain ⟨hf, hst⟩ := StandsAt.cons.mp hhe
    have hi : o < data.length := hf.length_le (List.cons_ne_nil _ _)
    rw [readPq, if_pos hi, byteAt_of_standsAt hf, if_pos rfl, hst.getElem?, hs]
    simp only [Outcome.bind, readBlob_of_standsAt he.kem hke, readBlob_of_standsAt he.key hky,
      readBlob_of_standsAt he.hash hh]

/-! ## The whole envelope -/

theorem headerBytes_length : e.headerBytes.length = 120 := by
  simp [headerBytes, e.messageId.2, e.recipientHint.2, e.senderPublicKey.2, e.ephemeralPublicKey.2, e.nonce.2]

def storedCiphertext (lz4 : Lz4) (e : DriftEnvelope) : Bytes :=
  if e.compressed then lz4.compress e.ciphertext else e.ciphertext

variable {lz4 : Lz4}

theorem toBytes_eq_ok {e : DriftEnvelope} {b : Bytes} :
    e.toBytes lz4 = .ok b ↔ (e.storedCiphertext lz4).length ≤ maxCiphertext
      ∧ b = e.headerBytes ++ e.signature.1 ++ leBytes 2 (e.storedCiphertext lz4).length
        ++ e.storedCiphertext lz4 ++ e.ratchetBytes ++ e.pqBytes := by
  show (if maxCiphertext < (e.storedCiphertext lz4).length then _ else _) = _ ↔ _
  split
  · rename_i hl
    exact ⟨nofun, fun h => absurd h.1 (Nat.not_le.mpr hl)⟩
  · rename_i hs
    exact ⟨fun h => ⟨Nat.not_lt.mp hs, (Except.ok.inj h).symm⟩, fun h => congrArg Except.ok h.2.symm⟩

theorem read_storedCiphertext (hl4 : lz4.Lossless) (e : DriftEnvelope) :
    (if e.compressed then lz4.decompress (e.storedCiphertext lz4) else .ok (e.storedCiphertext lz4))
      = .ok e.ciphertext := by
  unfold storedCiphertext
  split
  · exact hl4 _
  · rfl

theorem fromBytes_toBytes_of_read {e : DriftEnvelope} {b : Bytes}
    (hre : (if e.compressed then lz4.decompress (e.storedCiphertext lz4) else .ok (e.storedCiphertext lz4))
      = .ok e.ciphertext)
    (he : e.WireNormal) (h : e.toBytes lz4 = .ok b) : fromBytes lz4 b = .ok e := by
  obtain ⟨hs, hb⟩ := toBytes_eq_ok.mp h
  generalize e.storedCiphertext lz4 = stored at hs hb hre
  have hen : b.length = 186 + stored.length + e.ratchetBytes.length + e.pqBytes.length := by
    rw [hb]
    simp only [List.length_append, headerBytes_length, e.signature.2, leBytes_length]
  have hra := List.length_pos_iff.mpr e.ratchetBytes_ne_nil
  -- the pieces, each at the sum of the lengths before it
  have hp := StandsAt.whole b
  nth_rewrite 2 [hb] at hp
  simp only [headerBytes, StandsAt.append, List.length_append, List.length_cons, List.length_nil,
    e.messageId.2, e.recipientHint.2, e.senderPublicKey.2, e.ephemeralPublicKey.2, e.nonce.2,
    e.signature.2, leBytes_length, Nat.reduceAdd, Nat.zero_add, StandsAt.cons (p := [_])] at hp
  obtain ⟨⟨⟨⟨⟨⟨⟨⟨⟨⟨⟨⟨⟨⟨hv, ht⟩, hi⟩, hh⟩, hc⟩, hex⟩, hho, hpr⟩, hse⟩,
    hm⟩, hn⟩, hsi⟩, hl⟩, hst⟩, hr⟩, hpq⟩ := hp
  have hco : leNat (sliceAt b 184 2) = stored.length :=
    leNat_sliceAt hl (Nat.lt_succ_of_le hs)
  have ho : ¬ b.length < fixedOverhead := by
    simp only [fixedOverhead]
    omega
  rw [fromBytes, if_neg ho, byteAt_of_standsAt hv, byteAt_of_standsAt ht,
    if_neg (not_not.mpr he.version)]
  simp only [typeByte_flag, typeByte_type, fromU8_asU8, hco]
  rw [if_neg (by omega), sliceAt_of_standsAt hst rfl, hre]
  simp only [readRatchet_of_standsAt he.ratchet hr, readPq_of_standsAt he hpq hen, Outcome.bind,
    byteAt_of_standsAt hho, byteAt_of_standsAt hpr, arrAt_of_standsAt hi, arrAt_of_standsAt hh,
    u32At_of_standsAt hc, u32At_of_standsAt hex, arrAt_of_standsAt hse,
    arrAt_of_standsAt hm, arrAt_of_standsAt hn, arrAt_of_standsAt hsi]

/-- **Round trip**: an envelope in wire-normal form is read back. -/
theorem fromBytes_toBytes {e : DriftEnvelope} {b : Bytes} (hl4 : lz4.Lossless) (he : e.WireNormal)
    (h : e.toBytes lz4 = .ok b) : fromBytes lz4 b = .ok e :=
  fromBytes_toBytes_of_read (read_storedCiphertext hl4 e) he h

/-! ## Sample envelopes -/

def storedLz4 : Lz4 := ⟨id, .ok⟩

def extendedEnvelope : DriftEnvelope where
  version := driftVersion
  envelopeType := .encryptedMessage
  compressed := true
  messageId := Arr.fit 16 [7]
  recipientHint := Arr.fit 4 []
  createdAt := 1000
  ttlExpiry := 0
  hopCount := 0
  priority := 128
  senderPublicKey := Arr.fit 32 [1]
  ephemeralPublicKey := Arr.fit 32 [2]
  nonce := Arr.fit 24 [3]
  signature := Arr.fit 64 [4]
  ciphertext := [42]
  ratchetDhPublic := some (Arr.fit 32 [5])
  ratchetMessageNumber := some 9
  suite := some 0x02
  pqKemCiphertext := some [6]
  pqEncapsKey := none
  transcriptHash := none

theorem extendedEnvelope_normal : extendedEnvelope.WireNormal where
  version := rfl
  ratchet := rfl
  suite _ := rfl
  kem := by
    rintro b hb
    cases hb
    exact ⟨List.cons_ne_nil _ _, by decide⟩
  key := nofun
  hash := nofun

theorem extendedEnvelope_read :
    ∃ data, extendedEnvelope.toBytes storedLz4 = .ok data ∧ fromBytes storedLz4 data = .ok extendedEnvelope := by
  have hd := toBytes_eq_ok.mpr ⟨(by decide : (extendedEnvelope.storedCiphertext storedLz4).length ≤ _), rfl⟩
  exact ⟨_, hd, fromBytes_toBytes (fun _ => rfl) extendedEnvelope_normal hd⟩

end DriftEnvelope

end SCMessenger
