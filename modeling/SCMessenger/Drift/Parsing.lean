import SCMessenger.Drift.RoundTrip
import SCMessenger.Lib.CheckedReads

/-!
# Parsing untrusted bytes

`parse` is `from_bytes` with every index, slice and sum of offsets checked, in the order of the source.  It
faults at the suite byte of the post-quantum extension and where a blob's length leaves 32-bit offsets.
-/

namespace SCMessenger

namespace DriftEnvelope

/-! ## The parser -/

section Parser

variable (bits : Nat) (lz4 : Lz4) (data : Bytes)

def parseRatchet (offset : Nat) : Outcome DriftError ((Option (Arr 32) × Option UInt32) × Nat) :=
  if offset < data.length then
    (index data offset).bind fun ratchetFlag =>
    (offsetAdd bits offset 1).bind fun start =>
    if ratchetFlag = 0x01 then
      (offsetAdd bits start 32).bind fun keyEnd =>
      (offsetAdd bits keyEnd 4).bind fun last =>
      if last ≤ data.length then
        (copyAt bits data start 32).bind fun dhKey =>
        (leAt bits data keyEnd 4).bind fun msgNum =>
        .ok ((some dhKey, some (UInt32.ofNat msgNum)), last)
      else .err (.bufferTooShort last data.length)
    else .ok ((none, none), start)
  else .ok ((none, none), offset)

def parseBlob (offset : Nat) : Outcome DriftError (Option Bytes × Nat) :=
  (offsetAdd bits offset 4).bind fun start =>
  if data.length < start then .err (.bufferTooShort start data.length)
  else
    (leAt bits data offset 4).bind fun len =>
    if len = 0 then .ok (none, start)
    else
      (offsetAdd bits start len).bind fun last =>
      if data.length < last then .err (.bufferTooShort last data.length)
      else (slice data start last).bind fun blob => .ok (some blob, last)

def parsePq (offset : Nat) : Outcome DriftError PqExtension :=
  if offset < data.length then
    (index data offset).bind fun pqFlag =>
    (offsetAdd bits offset 1).bind fun start =>
    if pqFlag = 0x01 then
      (index data start).bind fun suite =>
      (offsetAdd bits start 1).bind fun o =>
      (parseBlob bits data o).bind fun (kem, o₁) =>
      (parseBlob bits data o₁).bind fun (key, o₂) =>
      (parseBlob bits data o₂).bind fun (hash, _) =>
      .ok ⟨some suite, kem, key, hash⟩
    else .ok ⟨none, none, none, none⟩
  else .ok ⟨none, none, none, none⟩

def parseHead : Outcome DriftError (DriftEnvelope × Nat) :=
  if data.length < fixedOverhead then .err (.bufferTooShort fixedOverhead data.length)
  else
    (index data 0).bind fun version =>
    if version ≠ driftVersion then .err (.invalidVersion version)
    else
      (index data 1).bind fun typeByte =>
      match EnvelopeType.fromU8 (typeByte &&& ~~~compressionFlag) with
      | .error e => .err e
      | .ok envelopeType =>
        (copyAt bits data 2 16).bind fun messageId =>
        (copyAt bits data 18 4).bind fun recipientHint =>
        (leAt bits data 22 4).bind fun createdAt =>
        (leAt bits data 26 4).bind fun ttlExpiry =>
        (index data 30).bind fun hopCount =>
        (index data 31).bind fun priority =>
        (copyAt bits data 32 32).bind fun senderPublicKey =>
        (copyAt bits data 64 32).bind fun ephemeralPublicKey =>
        (copyAt bits data 96 24).bind fun nonce =>
        (copyAt bits data 120 64).bind fun signature =>
        (leAt bits data 184 2).bind fun ciphertextLen =>
        (offsetAdd bits 186 ciphertextLen).bind fun last =>
        if data.length < last then .err (.bufferTooShort last data.length)
        else
          (slice data 186 last).bind fun stored =>
          match (if (typeByte &&& compressionFlag) != 0 then lz4.decompress stored else .ok stored) with
          | .error reason => .err (.decompressionFailed reason)
          | .ok ciphertext =>
            (parseRatchet bits data last).bind fun (ratchet, offset) =>
            .ok ({ version, envelopeType
                   compressed := (typeByte &&& compressionFlag) != 0
                   messageId, recipientHint
                   createdAt := UInt32.ofNat createdAt
                   ttlExpiry := UInt32.ofNat ttlExpiry
                   hopCount, priority, senderPublicKey, ephemeralPublicKey, nonce, signature, ciphertext
                   ratchetDhPublic := ratchet.1
                   ratchetMessageNumber := ratchet.2
                   suite := none
                   pqKemCiphertext := none
                   pqEncapsKey := none
                   transcriptHash := none }, offset)

def withPq (e : DriftEnvelope) (pq : PqExtension) : DriftEnvelope :=
  { e with
    suite := pq.suite
    pqKemCiphertext := pq.pqKemCiphertext
    pqEncapsKey := pq.pqEncapsKey
    transcriptHash := pq.transcriptHash }

def parse : Outcome DriftError DriftEnvelope :=
  (parseHead bits lz4 data).bind fun (e, offset) => (parsePq bits data offset).map e.withPq

end Parser

/-! ## Every check covers its reads -/

section Bounds

variable {bits : Nat} {lz4 : Lz4} {data : Bytes} {o : Nat}

/-- A buffer that a machine with offsets of `bits` can hold. -/
structure Addressable (bits : Nat) (data : Bytes) : Prop where
  word : 32 ≤ bits
  size : data.length < 2 ^ (bits - 1)

theorem Addressable.lt (h : Addressable bits data) {m : Nat} (hm : m ≤ data.length + 2 ^ 31) :
    m < 2 ^ bits := by
  have hw := h.word
  have hs := h.size
  have hsp : 2 ^ bits = 2 ^ (bits - 1) + 2 ^ (bits - 1) := by
    rw [← Nat.two_mul, ← Nat.pow_succ', Nat.succ_eq_add_one, Nat.sub_add_cancel (by omega)]
  have hh : 2 ^ 31 ≤ 2 ^ (bits - 1) := Nat.pow_le_pow_right (Nat.succ_pos 1) (by omega)
  omega

theorem index_eq_byteAt (ho : o < data.length) :
    (index data o : Outcome DriftError UInt8) = .ok (byteAt data o) := index_eq_ok ho 0

theorem copyAt_eq_arrAt (h : Addressable bits data) {n : Nat} (ho : o + n ≤ data.length) :
    (copyAt bits data o n : Outcome DriftError (Arr n)) = .ok (arrAt data o n) :=
  copyAt_eq_ok ho (h.lt (by omega))

theorem leAt_eq_sliceAt (h : Addressable bits data) {n : Nat} (ho : o + n ≤ data.length) :
    (leAt bits data o n : Outcome DriftError Nat) = .ok (leNat (sliceAt data o n)) :=
  leAt_eq_ok ho (h.lt (by omega))

theorem slice_eq_sliceAt {n : Nat} (ho : o + n ≤ data.length) :
    (slice data o (o + n) : Outcome DriftError Bytes) = .ok (sliceAt data o n) := slice_eq_ok ho

theorem parseRatchet_eq (h : Addressable bits data) : parseRatchet bits data o = readRatchet data o := by
  unfold parseRatchet readRatchet
  by_cases hi : o < data.length
  · rw [if_pos hi, if_pos hi, index_eq_byteAt hi]
    simp only [Outcome.ok_bind, offsetAdd_eq_ok (h.lt (m := o + 1) (by omega)),
      offsetAdd_eq_ok (h.lt (m := o + 1 + 32) (by omega)),
      offsetAdd_eq_ok (h.lt (m := o + 1 + 32 + 4) (by omega))]
    by_cases hl : o + 1 + 32 + 4 ≤ data.length
    · simp only [if_pos hl, copyAt_eq_arrAt h (show o + 1 + 32 ≤ data.length by omega),
        leAt_eq_sliceAt h hl, Outcome.ok_bind]
      rfl
    · simp only [if_neg hl]
  · rw [if_neg hi, if_neg hi]

def Overflows (bits : Nat) (data : Bytes) (o : Nat) : Prop :=
  o + 4 ≤ data.length ∧ 2 ^ bits ≤ o + 4 + (u32At data o).toNat

theorem leNat_sliceAt_lt (data : Bytes) (o w : Nat) : leNat (sliceAt data o w) < 256 ^ w :=
  Nat.lt_of_lt_of_le (leNat_lt _) (Nat.pow_le_pow_right (Nat.succ_pos 255) (List.length_take_le w _))

theorem toNat_u32At (data : Bytes) (o : Nat) : (u32At data o).toNat = leNat (sliceAt data o 4) :=
  UInt32.toNat_ofNat_of_lt' (leNat_sliceAt_lt data o 4)

theorem parseBlob_eq (h : Addressable bits data) (ho : o ≤ data.length) (hf : ¬ Overflows bits data o) :
    parseBlob bits data o = readBlob data o := by
  unfold parseBlob readBlob
  rw [offsetAdd_eq_ok (h.lt (by omega)), Outcome.ok_bind]
  by_cases hs : data.length < o + 4
  · rw [if_pos hs, if_pos hs]
  · have hi : o + 4 ≤ data.length := Nat.not_lt.mp hs
    have hl : o + 4 + (u32At data o).toNat < 2 ^ bits := Nat.not_le.mp fun hov => hf ⟨hi, hov⟩
    rw [if_neg hs, if_neg hs, leAt_eq_sliceAt h hi, ← toNat_u32At, Outcome.ok_bind]
    by_cases hz : (u32At data o).toNat = 0
    · rw [if_pos hz, if_pos hz]
    · rw [if_neg hz, if_neg hz, offsetAdd_eq_ok hl, Outcome.ok_bind]
      by_cases hc : data.length < o + 4 + (u32At data o).toNat
      · rw [if_pos hc, if_pos hc]
      · rw [if_neg hc, if_neg hc, slice_eq_sliceAt (Nat.not_lt.mp hc), Outcome.ok_bind]

theorem parseBlob_of_overflows (h : Addressable bits data) (ho : Overflows bits data o) :
    parseBlob bits data o = .panicked := by
  obtain ⟨hi, hl⟩ := ho
  have hs : o + 4 < 2 ^ bits := h.lt (by omega)
  have hn : (u32At data o).toNat ≠ 0 := by omega
  rw [parseBlob, offsetAdd_eq_ok hs, Outcome.ok_bind, if_neg (Nat.not_lt.mpr hi), leAt_eq_sliceAt h hi,
    ← toNat_u32At, Outcome.ok_bind, if_neg hn, offsetAdd_eq_panicked (Nat.not_lt.mpr hl)]
  rfl

theorem readBlob_of_overflows (h : Addressable bits data) (ho : Overflows bits data o) :
    ∃ e, readBlob data o = .err e := by
  obtain ⟨hi, hl⟩ := ho
  have hs : o + 4 < 2 ^ bits := h.lt (by omega)
  have hb : data.length < 2 ^ bits := h.lt (by omega)
  unfold readBlob
  rw [if_neg (Nat.not_lt.mpr hi), if_neg (by omega), if_pos (by omega)]
  exact ⟨_, rfl⟩

theorem readBlob_offset {v : Option Bytes} {o' : Nat} (h : readBlob data o = .ok (v, o')) :
    o' ≤ data.length := by
  unfold readBlob at h
  split at h
  · cases h
  · rename_i hi
    simp only at h
    split at h
    · obtain ⟨-, rfl⟩ := Prod.mk.inj (Outcome.ok.inj h)
      omega
    · split at h
      · cases h
      · obtain ⟨-, rfl⟩ := Prod.mk.inj (Outcome.ok.inj h)
        omega

theorem readBlob_length {v : Option Bytes} {o' : Nat} (h : readBlob data o = .ok (v, o')) :
    o' = o + 4 + (u32At data o).toNat
      ∧ ∀ n, (∀ b, v = some b → b.length = n) ↔ (u32At data o).toNat = 0 ∨ (u32At data o).toNat = n := by
  unfold readBlob at h
  split at h
  · cases h
  · simp only at h
    split at h
    · rename_i hz
      obtain ⟨rfl, rfl⟩ := Prod.mk.inj (Outcome.ok.inj h)
      exact ⟨by rw [hz], fun n => iff_of_true nofun (.inl hz)⟩
    · rename_i hz
      split at h
      · cases h
      · obtain ⟨rfl, rfl⟩ := Prod.mk.inj (Outcome.ok.inj h)
        have hl : (sliceAt data (o + 4) (u32At data o).toNat).length = (u32At data o).toNat := by
          rw [sliceAt, List.length_take, List.length_drop]
          omega
        simp [hl, hz]

theorem readBlob_ne_panicked : readBlob data o ≠ .panicked := by
  unfold readBlob
  split
  · nofun
  · simp only
    split
    · nofun
    · split <;> nofun

theorem parseBlob_of_readBlob {x : Option Bytes × Nat} (h : Addressable bits data) (ho : o ≤ data.length)
    (hr : readBlob data o = .ok x) : parseBlob bits data o = .ok x := by
  refine (parseBlob_eq h ho fun hov => ?_).trans hr
  obtain ⟨e, he⟩ := readBlob_of_overflows h hov
  cases he.symm.trans hr

/-- Where the blobs behind a suite byte are read. -/
inductive BlobAt (data : Bytes) (start : Nat) : Nat → Prop
  | kem : BlobAt data start start
  | key {kem : Option Bytes} {o : Nat} (hkem : readBlob data start = .ok (kem, o)) : BlobAt data start o
  | hash {kem key : Option Bytes} {o₁ o₂ : Nat} (hkem : readBlob data start = .ok (kem, o₁))
      (hkey : readBlob data o₁ = .ok (key, o₂)) : BlobAt data start o₂

/-- The post-quantum extension faults: its suite byte is missing, or a length does not fit. -/
def PqFaults (bits : Nat) (data : Bytes) (o : Nat) : Prop :=
  o < data.length ∧ byteAt data o = 0x01
    ∧ (data.length = o + 1 ∨ ∃ p, BlobAt data (o + 2) p ∧ Overflows bits data p)

theorem parsePq_eq (h : Addressable bits data) (hfa : ¬ PqFaults bits data o) :
    parsePq bits data o = readPq data o := by
  unfold parsePq readPq
  by_cases hi : o < data.length
  · rw [if_pos hi, if_pos hi, index_eq_byteAt hi]
    simp only [Outcome.ok_bind, offsetAdd_eq_ok (h.lt (m := o + 1) (by omega))]
    by_cases hf : byteAt data o = 0x01
    · have hs : o + 1 < data.length := by
        have hc : data.length ≠ o + 1 := fun hc => hfa ⟨hi, hf, .inl hc⟩
        omega
      have hfi : ∀ p, BlobAt data (o + 2) p → ¬ Overflows bits data p :=
        fun p hp ho => hfa ⟨hi, hf, .inr ⟨p, hp, ho⟩⟩
      rw [if_pos hf, if_pos hf, index_eq_ok hs 0, List.getElem?_eq_getElem hs,
        List.getD_eq_getElem data 0 hs, Outcome.ok_bind, offsetAdd_eq_ok (h.lt (by omega)),
        Outcome.ok_bind, parseBlob_eq h (by omega) (hfi _ .kem)]
      refine Outcome.bind_congr fun ⟨kem, o₁⟩ hk => ?_
      rw [parseBlob_eq h (readBlob_offset hk) (hfi _ (.key hk))]
      refine Outcome.bind_congr fun ⟨key, o₂⟩ hke => ?_
      rw [parseBlob_eq h (readBlob_offset hke) (hfi _ (.hash hk hke))]
    · rw [if_neg hf, if_neg hf]
  · rw [if_neg hi, if_neg hi]

theorem parsePq_of_faults (h : Addressable bits data) (hf : PqFaults bits data o) :
    parsePq bits data o = .panicked := by
  obtain ⟨hi, hfl, hc⟩ := hf
  unfold parsePq
  rw [if_pos hi, index_eq_byteAt hi, hfl, Outcome.ok_bind, offsetAdd_eq_ok (h.lt (by omega)),
    Outcome.ok_bind, if_pos rfl]
  by_cases hs : o + 1 < data.length
  · obtain ⟨p, hp, ho⟩ := hc.resolve_left (by omega)
    rw [index_eq_byteAt hs, Outcome.ok_bind, offsetAdd_eq_ok (h.lt (by omega)), Outcome.ok_bind]
    have hpa := parseBlob_of_overflows h ho
    cases hp with
    | kem =>
      rw [hpa]
      rfl
    | key hk =>
      rw [parseBlob_of_readBlob h (by omega) hk]
      simp only [Outcome.ok_bind, hpa]
      rfl
    | hash hk hke =>
      rw [parseBlob_of_readBlob h (by omega) hk]
      simp only [Outcome.ok_bind, parseBlob_of_readBlob h (readBlob_offset hk) hke, hpa]
      rfl
  · rw [index, List.getElem?_eq_none (by omega)]
    rfl

theorem readPq_eq_panicked (hp : readPq data o = .panicked) (bits : Nat) : PqFaults bits data o := by
  unfold readPq at hp
  split at hp
  · rename_i hi
    split at hp
    · rename_i hf
      refine ⟨hi, hf, .inl ?_⟩
      split at hp
      · rename_i hn
        have ho := List.getElem?_eq_none_iff.mp hn
        omega
      · -- what follows the suite byte does not fault
        simp [Outcome.bind_eq_panicked, readBlob_ne_panicked] at hp
    · cases hp
  · cases hp

def ratchetOffset (data : Bytes) : Nat := 186 + leNat (sliceAt data 184 2)

def pqOffset (data : Bytes) : Nat :=
  if ratchetOffset data < data.length then
    if byteAt data (ratchetOffset data) = 0x01 then ratchetOffset data + 1 + 32 + 4
    else ratchetOffset data + 1
  else ratchetOffset data

/-- The part before the post-quantum extension is accepted. -/
structure HeadAccepted (lz4 : Lz4) (data : Bytes) : Prop where
  overhead : fixedOverhead ≤ data.length
  version : byteAt data 0 = driftVersion
  type : ∃ t, EnvelopeType.fromU8 (byteAt data 1 &&& ~~~compressionFlag) = .ok t
  length : ratchetOffset data ≤ data.length
  stored : ∃ ciphertext, (if (byteAt data 1 &&& compressionFlag) != 0
    then lz4.decompress (sliceAt data 186 (leNat (sliceAt data 184 2)))
    else .ok (sliceAt data 186 (leNat (sliceAt data 184 2)))) = .ok ciphertext
  ratchet : pqOffset data ≤ data.length

theorem readRatchet_cases (data : Bytes) (ho : ratchetOffset data ≤ data.length) :
    (pqOffset data ≤ data.length ∧ ∃ x, readRatchet data (ratchetOffset data) = .ok (x, pqOffset data))
      ∨ (¬ pqOffset data ≤ data.length ∧ ∃ e, readRatchet data (ratchetOffset data) = .err e) := by
  unfold readRatchet pqOffset
  by_cases hi : ratchetOffset data < data.length
  · rw [if_pos hi, if_pos hi]
    by_cases hf : byteAt data (ratchetOffset data) = 0x01
    · simp only [if_pos hf]
      by_cases hl : ratchetOffset data + 1 + 32 + 4 ≤ data.length
      · exact .inl ⟨hl, _, if_pos hl⟩
      · exact .inr ⟨hl, _, if_neg hl⟩
    · simp only [if_neg hf]
      exact .inl ⟨hi, _, rfl⟩
  · rw [if_neg hi, if_neg hi]
    exact .inl ⟨ho, _, rfl⟩

/-- The part before the post-quantum extension does not fault. -/
theorem parseHead_cases (h : Addressable bits data) (lz4 : Lz4) :
    (HeadAccepted lz4 data ∧ ∃ e, parseHead bits lz4 data = .ok (e, pqOffset data)
      ∧ fromBytes lz4 data = (readPq data (pqOffset data)).map e.withPq)
    ∨ (¬ HeadAccepted lz4 data ∧ ∃ e, parseHead bits lz4 data = .err e ∧ fromBytes lz4 data = .err e) := by
  unfold fromBytes parseHead
  by_cases hs : data.length < fixedOverhead
  · rw [if_pos hs, if_pos hs]
    exact .inr ⟨fun hh => absurd hh.overhead (Nat.not_le.mpr hs), _, rfl, rfl⟩
  · have hl : 187 ≤ data.length := Nat.not_lt.mp hs
    rw [if_neg hs, if_neg hs, index_eq_byteAt (by omega), Outcome.ok_bind]
    by_cases hv : byteAt data 0 ≠ driftVersion
    · rw [if_pos hv, if_pos hv]
      exact .inr ⟨fun hh => hv hh.version, _, rfl, rfl⟩
    · rw [if_neg hv, if_neg hv, index_eq_byteAt (by omega), Outcome.ok_bind]
      simp only
      cases hty : EnvelopeType.fromU8 (byteAt data 1 &&& ~~~compressionFlag) with
      | error e =>
        refine .inr ⟨fun hh => ?_, _, rfl, rfl⟩
        obtain ⟨t, ht⟩ := hh.type
        cases hty.symm.trans ht
      | ok envelopeType =>
        -- the header is inside the buffer
        have hco := leNat_sliceAt_lt data 184 2
        simp only [Outcome.ok_bind, copyAt_eq_arrAt h (show 2 + 16 ≤ data.length by omega),
          copyAt_eq_arrAt h (show 18 + 4 ≤ data.length by omega),
          leAt_eq_sliceAt h (show 22 + 4 ≤ data.length by omega),
          leAt_eq_sliceAt h (show 26 + 4 ≤ data.length by omega),
          index_eq_byteAt (show 30 < data.length by omega),
          index_eq_byteAt (show 31 < data.length by omega),
          copyAt_eq_arrAt h (show 32 + 32 ≤ data.length by omega),
          copyAt_eq_arrAt h (show 64 + 32 ≤ data.length by omega),
          copyAt_eq_arrAt h (show 96 + 24 ≤ data.length by omega),
          copyAt_eq_arrAt h (show 120 + 64 ≤ data.length by omega),
          leAt_eq_sliceAt h (show 184 + 2 ≤ data.length by omega),
          offsetAdd_eq_ok (h.lt (m := 186 + leNat (sliceAt data 184 2)) (by omega))]
        by_cases hcu : data.length < 186 + leNat (sliceAt data 184 2)
        · rw [if_pos hcu, if_pos hcu]
          exact .inr ⟨fun hh => absurd hh.length (Nat.not_le.mpr hcu), _, rfl, rfl⟩
        · have hi := Nat.not_lt.mp hcu
          rw [if_neg hcu, if_neg hcu, slice_eq_sliceAt hi, Outcome.ok_bind, parseRatchet_eq h]
          cases hst : (if (byteAt data 1 &&& compressionFlag) != 0
            then lz4.decompress (sliceAt data 186 (leNat (sliceAt data 184 2)))
            else .ok (sliceAt data 186 (leNat (sliceAt data 184 2)))) with
          | error reason =>
            refine .inr ⟨fun hh => ?_, _, rfl, rfl⟩
            obtain ⟨c, hc⟩ := hh.stored
            cases hst.symm.trans hc
          | ok ciphertext =>
            rcases readRatchet_cases data hi with ⟨hr, x, hx⟩ | ⟨hr, e, he⟩
            · rw [ratchetOffset] at hx
              simp only [hx, Outcome.ok_bind]
              refine .inl ⟨⟨hl, not_not.mp hv, ⟨_, hty⟩, hi, ⟨_, hst⟩, hr⟩, _, rfl, ?_⟩
              cases readPq data (pqOffset data) <;> rfl
            · rw [ratchetOffset] at he
              simp only [he]
              exact .inr ⟨fun hh => hr hh.ratchet, e, rfl, rfl⟩

theorem readPq_of_fromBytes {lz4 : Lz4} {d : DriftEnvelope} (h : fromBytes lz4 data = .ok d) :
    readPq data (pqOffset data) = .ok ⟨d.suite, d.pqKemCiphertext, d.pqEncapsKey, d.transcriptHash⟩ := by
  have had : Addressable (data.length + 32) data := ⟨Nat.le_add_left _ _,
    Nat.lt_two_pow_self.trans_le (Nat.pow_le_pow_right Nat.two_pos (by omega))⟩
  rcases parseHead_cases had lz4 with ⟨-, e, -, he⟩ | ⟨-, e, -, he⟩
  · obtain ⟨pq, hpq, rfl⟩ := Outcome.map_eq_ok.mp (he.symm.trans h)
    exact hpq
  · cases he.symm.trans h

theorem readPq_of_faults (h : Addressable bits data) (hf : PqFaults bits data o) (pq : PqExtension) :
    readPq data o ≠ .ok pq := by
  obtain ⟨hi, hfl, hc⟩ := hf
  intro hr
  rw [readPq, if_pos hi, if_pos hfl] at hr
  split at hr
  · cases hr
  · rename_i s hs
    have hl : o + 1 < data.length := (List.getElem?_eq_some_iff.mp hs).1
    obtain ⟨p, hp, ho⟩ := hc.resolve_left (by omega)
    obtain ⟨e, he⟩ := readBlob_of_overflows h ho
    simp only [Outcome.bind_eq_ok] at hr
    obtain ⟨⟨kem, o₁⟩, hk, ⟨key, o₂⟩, hke, ⟨hash, o₃⟩, hh, -⟩ := hr
    cases hp with
    | kem => cases he.symm.trans hk
    | key hkem' =>
      obtain ⟨-, rfl⟩ := Prod.mk.inj (Outcome.ok.inj (hk.symm.trans hkem'))
      cases he.symm.trans hke
    | hash hkem' hkey' =>
      obtain ⟨-, rfl⟩ := Prod.mk.inj (Outcome.ok.inj (hk.symm.trans hkem'))
      obtain ⟨-, rfl⟩ := Prod.mk.inj (Outcome.ok.inj (hke.symm.trans hkey'))
      cases he.symm.trans hh

theorem parse_eq_of_ok {e : DriftEnvelope} (h : Addressable bits data) (hr : fromBytes lz4 data = .ok e) :
    parse bits lz4 data = .ok e := by
  rcases parseHead_cases h lz4 with ⟨-, e', hh, hf⟩ | ⟨-, err, -, hf⟩
  · rw [hf] at hr
    obtain ⟨pq, hp, rfl⟩ := Outcome.map_eq_ok.mp hr
    have hs : ¬ PqFaults bits data (pqOffset data) := fun hfa => readPq_of_faults h hfa pq hp
    rw [parse, hh]
    show (parsePq bits data (pqOffset data)).map e'.withPq = _
    rw [parsePq_eq h hs, hp]
    rfl
  · cases hf.symm.trans hr

theorem not_overflows (h : Addressable bits data) (hw : 64 ≤ bits) : ¬ Overflows bits data o := by
  rintro ⟨hi, ho⟩
  have hl : (u32At data o).toNat < 2 ^ 32 := (u32At data o).toNat_lt
  have hh : 2 ^ 63 ≤ 2 ^ (bits - 1) := Nat.pow_le_pow_right (Nat.succ_pos 1) (by omega)
  have hs : 2 ^ bits = 2 ^ (bits - 1) + 2 ^ (bits - 1) := by
    rw [← Nat.two_mul, ← Nat.pow_succ', Nat.succ_eq_add_one, Nat.sub_add_cancel (by omega)]
  have hsi := h.size
  omega

end Bounds

/-! ## Main results -/

/-- **The inputs on which the parser faults**: a missing suite byte, or a length that does not fit. -/
theorem parse_panicked_iff (bits : Nat) (lz4 : Lz4) (data : Bytes) (h : Addressable bits data) :
    (parse bits lz4 data = .panicked ↔ HeadAccepted lz4 data ∧ PqFaults bits data (pqOffset data))
    ∧ (64 ≤ bits → (parse bits lz4 data = .panicked
      ↔ HeadAccepted lz4 data ∧ data.length = pqOffset data + 1 ∧ byteAt data (pqOffset data) = 0x01)) := by
  have hi : parse bits lz4 data = .panicked ↔ HeadAccepted lz4 data ∧ PqFaults bits data (pqOffset data) := by
    rcases parseHead_cases h lz4 with ⟨ha, e, hh, -⟩ | ⟨hr, err, hh, -⟩
    · have hpa : parse bits lz4 data = (parsePq bits data (pqOffset data)).map e.withPq := by
        rw [parse, hh]
        rfl
      rw [hpa, Outcome.map_eq_panicked, and_iff_right ha]
      constructor
      · intro hp
        by_contra hsound
        rw [parsePq_eq h hsound] at hp
        exact hsound (readPq_eq_panicked hp bits)
      · exact parsePq_of_faults h
    · rw [parse, hh]
      exact ⟨nofun, fun hb => absurd hb.1 hr⟩
  refine ⟨hi, fun hw => hi.trans (and_congr_right fun _ => ⟨?_, ?_⟩)⟩
  · rintro ⟨-, hf, hc | ⟨p, -, ho⟩⟩
    · exact ⟨hc, hf⟩
    · exact absurd ho (not_overflows h hw)
  · rintro ⟨hc, hf⟩
    exact ⟨by omega, hf, .inl hc⟩

/-- An envelope that ends after the flag of a post-quantum extension. -/
def cutExtension : Bytes := [0x01, 0x01] ++ List.replicate 184 0 ++ [0x00, 0x01]

theorem parse_panicked_sample :
    Addressable 64 cutExtension ∧ HeadAccepted storedLz4 cutExtension
      ∧ PqFaults 64 cutExtension (pqOffset cutExtension) := by
  have ha : Addressable 64 cutExtension := ⟨by decide, by decide +kernel⟩
  exact ⟨ha, (parse_panicked_iff 64 storedLz4 cutExtension ha).1.mp (by decide +kernel)⟩

/-- **Failing input**: 188 bytes with valid header and no suite byte. -/
theorem cutExtension_panics : parse 64 storedLz4 cutExtension = .panicked := by
  decide +kernel

/-- **Round trip**: an envelope in wire-normal form is parsed back, with or without compression. -/
theorem parse_toBytes (bits : Nat) (lz4 : Lz4) (e : DriftEnvelope) (b : Bytes) (hlz4 : lz4.Lossless)
    (he : e.WireNormal) (hb : e.toBytes lz4 = .ok b) (hbuffer : Addressable bits b) :
    parse bits lz4 b = .ok e :=
  parse_eq_of_ok hbuffer (fromBytes_toBytes hlz4 he hb)

theorem parse_toBytes_sample :
    ∃ b, extendedEnvelope.toBytes storedLz4 = .ok b ∧ parse 64 storedLz4 b = .ok extendedEnvelope := by
  have hb := toBytes_eq_ok.mpr ⟨(by decide : (extendedEnvelope.storedCiphertext storedLz4).length ≤ _), rfl⟩
  exact ⟨_, hb, parse_toBytes 64 storedLz4 extendedEnvelope _ (fun _ => rfl) extendedEnvelope_normal hb
    ⟨by decide, by decide +kernel⟩⟩

end DriftEnvelope

end SCMessenger
