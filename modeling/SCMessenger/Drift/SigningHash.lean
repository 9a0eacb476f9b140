import SCMessenger.Drift.RoundTrip

/-!
# What the signature of an envelope covers

`signing_hash` hashes the fields one after the other, the ciphertext behind its length in 16 bits, which can
be cut.  Absent fields are hashed like certain present ones.
-/

namespace SCMessenger

namespace DriftEnvelope

/-- The bytes that `signing_hash` hashes. -/
def signingPreimage (e : DriftEnvelope) : Bytes :=
  e.headerBytes ++ leBytes 2 e.ciphertext.length ++ e.ciphertext ++ e.ratchetBytes ++ e.pqBytes

theorem signingHash_eq {K : Type} (P : Primitives K) (e : DriftEnvelope) :
    e.signingHash P = P.blake3 e.signingPreimage := rfl

/-- Two envelopes agree on every field but the signature and the hop count. -/
def Agrees (e e' : DriftEnvelope) : Prop := e' = { e with signature := e'.signature, hopCount := e'.hopCount }

/-- A blob as the decoder returns it, absent if it is empty. -/
def nonEmpty (v : Option Bytes) : Option Bytes := if v.getD [] = [] then none else some (v.getD [])

/-- The optional fields as the decoder returns them. -/
def normal (e : DriftEnvelope) : DriftEnvelope :=
  { e with
    ratchetMessageNumber := e.ratchetDhPublic.map fun _ => e.ratchetMessageNumber.getD 0
    suite := if e.hasPqExtension then some (e.suite.getD 0x02) else none
    pqKemCiphertext := nonEmpty e.pqKemCiphertext
    pqEncapsKey := nonEmpty e.pqEncapsKey
    transcriptHash := nonEmpty e.transcriptHash }

/-- Two envelopes differ, the signature apart, in how absent fields are written at most. -/
def HashedAlike (e e' : DriftEnvelope) : Prop := normal e' = { normal e with signature := e'.signature }

/-- What is hashed behind the ciphertext. -/
def extensionBytes (e : DriftEnvelope) : Bytes := e.ratchetBytes ++ e.pqBytes

/-- The longer ciphertext runs on into what is hashed behind the shorter one. -/
structure Shifted (e e' : DriftEnvelope) : Prop where
  header : e.headerBytes = e'.headerBytes
  longer : e.ciphertext.length ≠ e'.ciphertext.length
  cut : e.ciphertext.length % 65536 = e'.ciphertext.length % 65536
  rest : e.ciphertext ++ e.extensionBytes = e'.ciphertext ++ e'.extensionBytes

/-- No blob has a length that 32 bits would cut. -/
structure BlobsFit (e : DriftEnvelope) : Prop where
  kem : (e.pqKemCiphertext.getD []).length < 2 ^ 32
  key : (e.pqEncapsKey.getD []).length < 2 ^ 32
  hash : (e.transcriptHash.getD []).length < 2 ^ 32

/-- The signature is good for one hash only, and the hashed bytes do not collide. -/
structure Unforged {K : Type} (P : Primitives K) (e e' : DriftEnvelope) : Prop where
  signature : P.edVerify e'.senderPublicKey (e'.signingHash P).1 e.signature = true →
    e'.signingHash P = e.signingHash P
  hash : P.blake3 e'.signingPreimage = P.blake3 e.signingPreimage → e'.signingPreimage = e.signingPreimage

variable {e e' : DriftEnvelope} {rest rest' : Bytes}

/-! ## The parts -/

theorem u32_eq_of_leBytes {x y : UInt32} (h : leBytes 4 x.toNat = leBytes 4 y.toNat) : x = y :=
  UInt32.toNat.inj (leBytes_inj x.toNat_lt y.toNat_lt h)

/-- Two envelopes have the same header. -/
structure SameHeader (e e' : DriftEnvelope) : Prop where
  version : e.version = e'.version
  envelopeType : e.envelopeType = e'.envelopeType
  compressed : e.compressed = e'.compressed
  messageId : e.messageId = e'.messageId
  recipientHint : e.recipientHint = e'.recipientHint
  createdAt : e.createdAt = e'.createdAt
  ttlExpiry : e.ttlExpiry = e'.ttlExpiry
  hopCount : e.hopCount = e'.hopCount
  priority : e.priority = e'.priority
  senderPublicKey : e.senderPublicKey = e'.senderPublicKey
  ephemeralPublicKey : e.ephemeralPublicKey = e'.ephemeralPublicKey
  nonce : e.nonce = e'.nonce

theorem asU8_inj {t t' : EnvelopeType} (h : t.asU8 = t'.asU8) : t = t' :=
  Except.ok.inj (by rw [← fromU8_asU8 t, h, fromU8_asU8 t'])

theorem sameHeader_of_headerBytes (h : e.headerBytes = e'.headerBytes) : SameHeader e e' := by
  simp only [headerBytes] at h
  obtain ⟨h, hn⟩ := List.append_inj' h (by rw [e.nonce.2, e'.nonce.2])
  obtain ⟨h, he⟩ := List.append_inj' h (by rw [e.ephemeralPublicKey.2, e'.ephemeralPublicKey.2])
  obtain ⟨h, hs⟩ := List.append_inj' h (by rw [e.senderPublicKey.2, e'.senderPublicKey.2])
  obtain ⟨h, hb⟩ := List.append_inj' h rfl
  obtain ⟨h, hex⟩ := List.append_inj' h (by simp)
  obtain ⟨h, hc⟩ := List.append_inj' h (by simp)
  obtain ⟨h, hh⟩ := List.append_inj' h (by rw [e.recipientHint.2, e'.recipientHint.2])
  obtain ⟨h, hi⟩ := List.append_inj' h (by rw [e.messageId.2, e'.messageId.2])
  simp only [List.cons.injEq, and_true] at h hb
  obtain ⟨hv, ht⟩ := h
  have ht' : e.envelopeType.asU8 = e'.envelopeType.asU8 := by
    rw [← typeByte_type, ht, typeByte_type]
  have hco : e.compressed = e'.compressed := by
    rw [← typeByte_flag, ht, typeByte_flag]
  exact ⟨hv, asU8_inj ht', hco, Subtype.ext hi, Subtype.ext hh,
    u32_eq_of_leBytes hc, u32_eq_of_leBytes hex, hb.1, hb.2, Subtype.ext hs,
    Subtype.ext he, Subtype.ext hn⟩

theorem ratchetBytes_append_inj (h : e.ratchetBytes ++ rest = e'.ratchetBytes ++ rest') :
    e.ratchetDhPublic = e'.ratchetDhPublic
      ∧ (e.ratchetDhPublic.isSome → e.ratchetMessageNumber.getD 0 = e'.ratchetMessageNumber.getD 0)
      ∧ rest = rest' := by
  unfold ratchetBytes at h
  cases hdh : e.ratchetDhPublic with
  | none =>
    cases hd' : e'.ratchetDhPublic with
    | none => simpa [hdh, hd'] using h
    | some d' => simp [hdh, hd'] at h
  | some d =>
    cases hd' : e'.ratchetDhPublic with
    | none => simp [hdh, hd'] at h
    | some d' =>
      simp only [hdh, hd', List.append_assoc, List.append_cancel_left_eq] at h
      obtain ⟨hd, h⟩ := List.append_inj h (by rw [d.2, d'.2])
      obtain ⟨hn, hr⟩ := List.append_inj h (by simp)
      exact ⟨by rw [Subtype.ext hd], fun _ => u32_eq_of_leBytes hn, hr⟩

theorem blob_append_inj {v v' : Option Bytes} (hv : (v.getD []).length < 2 ^ 32)
    (hv' : (v'.getD []).length < 2 ^ 32) (h : blob v ++ rest = blob v' ++ rest') :
    v.getD [] = v'.getD [] ∧ rest = rest' := by
  simp only [blob, List.append_assoc] at h
  obtain ⟨hl, h⟩ := List.append_inj h (by simp)
  exact List.append_inj h (leBytes_inj hv hv' hl)

@[simp] theorem getD_nonEmpty (v : Option Bytes) : (nonEmpty v).getD [] = v.getD [] := by
  unfold nonEmpty
  split
  · next h => exact h.symm
  · rfl

theorem nonEmpty_congr {v v' : Option Bytes} (h : v.getD [] = v'.getD []) : nonEmpty v = nonEmpty v' := by
  rw [nonEmpty, nonEmpty, h]

theorem pqBytes_of_present (h : e.hasPqExtension = true) :
    e.pqBytes = 0x01 :: e.suite.getD 0x02 :: (blob e.pqKemCiphertext ++ (blob e.pqEncapsKey
      ++ (blob e.transcriptHash ++ []))) := by
  simp [pqBytes, h]

theorem pqBytes_of_absent (h : e.hasPqExtension = false) : e.pqBytes = [] := by
  simp [pqBytes, h]

theorem hasPqExtension_congr (h : e.pqBytes = e'.pqBytes) : e.hasPqExtension = e'.hasPqExtension := by
  cases hp : e.hasPqExtension <;> cases hp' : e'.hasPqExtension <;>
    simp_all [pqBytes_of_present, pqBytes_of_absent]

theorem hasPqExtension_eq_false : e.hasPqExtension = false ↔ e.suite = none ∧ e.pqKemCiphertext = none
    ∧ e.pqEncapsKey = none ∧ e.transcriptHash = none := by
  simp [hasPqExtension, and_assoc]

/-- The extension of two envelopes is the same in normal form. -/
structure SamePq (e e' : DriftEnvelope) : Prop where
  present : e.hasPqExtension = e'.hasPqExtension
  suite : e.hasPqExtension = true → e.suite.getD 0x02 = e'.suite.getD 0x02
  kem : e.pqKemCiphertext.getD [] = e'.pqKemCiphertext.getD []
  key : e.pqEncapsKey.getD [] = e'.pqEncapsKey.getD []
  hash : e.transcriptHash.getD [] = e'.transcriptHash.getD []

theorem samePq_of_pqBytes (hb : e.BlobsFit) (hb' : e'.BlobsFit) (h : e.pqBytes = e'.pqBytes) :
    SamePq e e' := by
  have hpr := hasPqExtension_congr h
  cases hp : e.hasPqExtension with
  | false =>
    obtain ⟨-, hk, hc, ht⟩ := hasPqExtension_eq_false.mp hp
    obtain ⟨-, hk', hc', ht'⟩ := hasPqExtension_eq_false.mp (hpr ▸ hp)
    exact ⟨hpr, fun h => by simp [hp] at h, by rw [hk, hk'], by rw [hc, hc'], by rw [ht, ht']⟩
  | true =>
    rw [pqBytes_of_present hp, pqBytes_of_present (hpr ▸ hp), List.cons.injEq, List.cons.injEq] at h
    obtain ⟨-, hs, h⟩ := h
    obtain ⟨hk, h⟩ := blob_append_inj hb.kem hb'.kem h
    obtain ⟨hc, h⟩ := blob_append_inj hb.key hb'.key h
    exact ⟨hpr, fun _ => hs, hk, hc, (blob_append_inj hb.hash hb'.hash h).1⟩

/-! ## The normal form is hashed like the envelope -/

theorem hasPqExtension_normal : (normal e).hasPqExtension = e.hasPqExtension := by
  cases hp : e.hasPqExtension with
  | false =>
    obtain ⟨hs, hk, hc, ht⟩ := hasPqExtension_eq_false.mp hp
    rw [hasPqExtension_eq_false]
    simp [normal, hp, hk, hc, ht, nonEmpty]
  | true =>
    have hs : (normal e).suite = some (e.suite.getD 0x02) := if_pos hp
    simp [hasPqExtension, hs]

theorem pqBytes_normal : (normal e).pqBytes = e.pqBytes := by
  unfold pqBytes
  rw [hasPqExtension_normal]
  split
  · next hp => simp [normal, hp, blob]
  · rfl

theorem ratchetBytes_normal : (normal e).ratchetBytes = e.ratchetBytes := by
  unfold ratchetBytes normal
  cases e.ratchetDhPublic <;> rfl

theorem signingPreimage_normal : (normal e).signingPreimage = e.signingPreimage := by
  unfold signingPreimage
  rw [ratchetBytes_normal, pqBytes_normal]
  rfl

theorem HashedAlike.signingPreimage_eq (h : HashedAlike e e') : e.signingPreimage = e'.signingPreimage := by
  rw [← signingPreimage_normal (e := e'), h, ← signingPreimage_normal (e := e)]
  rfl

/-! ## The whole envelope -/

theorem hashedAlike_of_parts (hh : SameHeader e e') (hc : e.ciphertext = e'.ciphertext)
    (hd : e.ratchetDhPublic = e'.ratchetDhPublic)
    (hn : e.ratchetDhPublic.isSome → e.ratchetMessageNumber.getD 0 = e'.ratchetMessageNumber.getD 0)
    (hp : SamePq e e') : HashedAlike e e' := by
  obtain ⟨h₁, h₂, h₃, h₄, h₅, h₆, h₇, h₈, h₉, h₁₀, h₁₁, h₁₂⟩ := hh
  have hn' : (e'.ratchetDhPublic.map fun _ => e'.ratchetMessageNumber.getD 0)
      = e.ratchetDhPublic.map fun _ => e.ratchetMessageNumber.getD 0 := by
    rw [← hd]
    cases hdh : e.ratchetDhPublic with
    | none => rfl
    | some d => simp [hn (by simp [hdh])]
  have hs' : (if e'.hasPqExtension then some (e'.suite.getD 0x02) else none)
      = if e.hasPqExtension then some (e.suite.getD 0x02) else none := by
    rw [← hp.present]
    split
    · next hpq => rw [hp.suite hpq]
    · rfl
  unfold HashedAlike normal
  rw [hn', hs', nonEmpty_congr hp.kem, nonEmpty_congr hp.key, nonEmpty_congr hp.hash]
  rw [h₁, h₂, h₃, h₄, h₅, h₆, h₇, h₈, h₉, h₁₀, h₁₁, h₁₂, hc, hd]

theorem signingPreimage_eq : e.signingPreimage
    = e.headerBytes ++ (leBytes 2 e.ciphertext.length ++ (e.ciphertext ++ e.extensionBytes)) := by
  simp only [signingPreimage, extensionBytes, List.append_assoc]

/-- The same bytes are hashed exactly for envelopes that are hashed alike or shifted. -/
theorem signingPreimage_eq_iff (hb : e.BlobsFit) (hb' : e'.BlobsFit) :
    e.signingPreimage = e'.signingPreimage ↔ HashedAlike e e' ∨ Shifted e e' := by
  constructor
  · intro h
    rw [signingPreimage_eq, signingPreimage_eq] at h
    obtain ⟨hh, h⟩ := List.append_inj h (by rw [headerBytes_length, headerBytes_length])
    obtain ⟨hcut, h⟩ := List.append_inj h (by simp)
    by_cases hl : e.ciphertext.length = e'.ciphertext.length
    · obtain ⟨hc, h⟩ := List.append_inj h hl
      obtain ⟨hd, hn, hp⟩ := ratchetBytes_append_inj h
      exact .inl (hashedAlike_of_parts (sameHeader_of_headerBytes hh) hc hd hn (samePq_of_pqBytes hb hb' hp))
    · exact .inr ⟨hh, hl, leBytes_eq_iff.mp hcut, h⟩
  · rintro (h | h)
    · exact h.signingPreimage_eq
    · rw [signingPreimage_eq, signingPreimage_eq, h.header, leBytes_eq_iff.mpr h.cut, h.rest]

/-- `verify` accepts another envelope's signature only if the same bytes were hashed. -/
theorem signingPreimage_of_verify {K : Type} {P : Primitives K} (hu : Unforged P e e')
    (hs : e'.signature = e.signature) (hv : e'.verify P = .ok ()) :
    e.signingPreimage = e'.signingPreimage := by
  unfold verify at hv
  split at hv
  · cases hv
  split at hv
  · cases hv
  next hok =>
    rw [hs, Bool.not_eq_false] at hok
    have hh := hu.signature hok
    rw [signingHash_eq, signingHash_eq] at hh
    exact (hu.hash hh).symm


/-- **What a signature covers**: everything, exactly for pairs neither hashed alike in vain nor shifted. -/
theorem signing_covers_iff (hb : e.BlobsFit) (hb' : e'.BlobsFit) :
    ((e.signingPreimage = e'.signingPreimage → Agrees e e')
      ↔ (HashedAlike e e' → Agrees e e') ∧ ¬ Shifted e e')
      ∧ ((HashedAlike e e' → Agrees e e') ∧ ¬ Shifted e e' → ∀ (K : Type) (P : Primitives K),
        Unforged P e e' → e'.signature = e.signature → e'.verify P = .ok () → Agrees e e') := by
  have hiff : (e.signingPreimage = e'.signingPreimage → Agrees e e')
      ↔ (HashedAlike e e' → Agrees e e') ∧ ¬ Shifted e e' := by
    rw [signingPreimage_eq_iff hb hb', or_imp]
    refine and_congr_right fun _ => ⟨fun h hsh => hsh.longer ?_, fun h hsh => absurd hsh h⟩
    rw [h hsh]
  exact ⟨hiff, fun hc K P hu hs hv => hiff.mpr hc (signingPreimage_of_verify hu hs hv)⟩

/-- The sample with its priority changed on the way. -/
def raisedEnvelope : DriftEnvelope := { extendedEnvelope with priority := 255 }

theorem signing_covers_raised :
    extendedEnvelope.BlobsFit ∧ raisedEnvelope.BlobsFit
      ∧ extendedEnvelope.signingPreimage ≠ raisedEnvelope.signingPreimage
      ∧ ∀ (K : Type) (P : Primitives K), Unforged P extendedEnvelope raisedEnvelope →
        raisedEnvelope.verify P ≠ .ok () := by
  have hb : extendedEnvelope.BlobsFit := ⟨by decide, by decide, by decide⟩
  have hb' : raisedEnvelope.BlobsFit := ⟨by decide, by decide, by decide⟩
  have hne : ¬ Agrees extendedEnvelope raisedEnvelope := fun h =>
    absurd (congrArg DriftEnvelope.priority h) (by decide)
  have hal : ¬ HashedAlike extendedEnvelope raisedEnvelope := fun h =>
    absurd (congrArg DriftEnvelope.priority h) (by decide)
  have hsh : ¬ Shifted extendedEnvelope raisedEnvelope := fun h => h.longer rfl
  have hall := signing_covers_iff hb hb'
  refine ⟨hb, hb', fun h => hne (hall.1.mpr ⟨fun h => absurd h hal, hsh⟩ h), fun K P hu hv => hne ?_⟩
  exact hall.2 ⟨fun h => absurd h hal, hsh⟩ K P hu rfl hv

/-! ## A length that is cut -/

def disguised (n : Nat) : Bytes := [0x00, 0x01, 0x02] ++ leBytes 4 n ++ List.replicate (n + 7) 0

def longEnvelope (n : Nat) : DriftEnvelope :=
  { extendedEnvelope with
    ciphertext := disguised n
    ratchetDhPublic := none
    ratchetMessageNumber := none
    suite := none
    pqKemCiphertext := none }

def shortEnvelope (n : Nat) : DriftEnvelope :=
  { extendedEnvelope with
    ciphertext := []
    ratchetDhPublic := none
    ratchetMessageNumber := none
    suite := some 0x02
    pqKemCiphertext := some (List.replicate n 0) }

variable (n : Nat)

theorem disguised_append :
    disguised n ++ (longEnvelope n).ratchetBytes
      = (shortEnvelope n).ratchetBytes ++ (shortEnvelope n).pqBytes := by
  have hz : List.replicate (n + 7) (0 : UInt8) ++ [0]
      = List.replicate n 0 ++ (leBytes 4 0 ++ leBytes 4 0) := by
    rw [show leBytes 4 0 ++ leBytes 4 0 = List.replicate 8 0 from rfl, List.replicate_append_replicate,
      ← List.replicate_succ']
  simp [disguised, longEnvelope, shortEnvelope, extendedEnvelope, ratchetBytes, pqBytes, hasPqExtension, blob,
    hz]

theorem disguised_length : (disguised n).length = n + 14 := by
  simp [disguised]
  omega

theorem disguised_ne_nil : disguised n ≠ [] := by
  simp [disguised]

theorem signingPreimage_shifted {n : Nat} (h : leBytes 2 (n + 14) = leBytes 2 0) :
    (longEnvelope n).signingPreimage = (shortEnvelope n).signingPreimage := by
  have hh : (longEnvelope n).headerBytes = (shortEnvelope n).headerBytes := rfl
  have hl : leBytes 2 (longEnvelope n).ciphertext.length = leBytes 2 0 := by
    rw [show (longEnvelope n).ciphertext = disguised n from rfl, disguised_length, h]
  have ht := disguised_append n
  rw [signingPreimage, signingPreimage, hh, hl, pqBytes_of_absent (e := longEnvelope n) rfl,
    show (longEnvelope n).ciphertext = disguised n from rfl,
    show (shortEnvelope n).ciphertext = [] from rfl]
  simp only [List.append_assoc, List.append_nil, List.length_nil, ht]

theorem not_agrees_shifted : ¬ Agrees (longEnvelope n) (shortEnvelope n) := by
  intro h
  have hc : ([] : Bytes) = disguised n := congrArg DriftEnvelope.ciphertext h
  exact disguised_ne_nil n hc.symm

def markingLz4 (marked : Bytes) : Lz4 where
  compress b := if b = marked then [0] else 1 :: b
  decompress
    | [] => .error ""
    | tag :: b => .ok (if tag = 0 then marked else b)

theorem markingLz4_lossless (m : Bytes) : (markingLz4 m).Lossless := by
  intro b
  by_cases hb : b = m
  · simp [markingLz4, hb]
  · simp [markingLz4, hb]

theorem toBytes_shifted :
    ∃ b b', (longEnvelope n).toBytes (markingLz4 (disguised n)) = .ok b
      ∧ (shortEnvelope n).toBytes (markingLz4 (disguised n)) = .ok b' := by
  have hl : (longEnvelope n).storedCiphertext (markingLz4 (disguised n)) = [0] := by
    simp [storedCiphertext, longEnvelope, extendedEnvelope, markingLz4]
  have hs : (shortEnvelope n).storedCiphertext (markingLz4 (disguised n)) = [1] := by
    simp [storedCiphertext, shortEnvelope, extendedEnvelope, markingLz4, (disguised_ne_nil n).symm]
  refine ⟨_, _, toBytes_eq_ok.mpr ⟨?_, rfl⟩, toBytes_eq_ok.mpr ⟨?_, rfl⟩⟩
  · rw [hl]
    decide
  · rw [hs]
    decide

/-- **A ciphertext of 65536 bytes and an empty one are signed alike**, and both can be written. -/
theorem cut_length_collides :
    ∃ lz4 b b', lz4.Lossless ∧ (longEnvelope 65522).toBytes lz4 = .ok b
      ∧ (shortEnvelope 65522).toBytes lz4 = .ok b'
      ∧ (longEnvelope 65522).signingPreimage = (shortEnvelope 65522).signingPreimage
      ∧ ¬ Agrees (longEnvelope 65522) (shortEnvelope 65522) := by
  obtain ⟨b, b', hb, hb'⟩ := toBytes_shifted 65522
  exact ⟨_, b, b', markingLz4_lossless _, hb, hb', signingPreimage_shifted rfl, not_agrees_shifted _⟩

end DriftEnvelope

end SCMessenger
