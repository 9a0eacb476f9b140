import SCMessenger.Crypto.Conversation

/-!
# Which secret a rekeyed session takes

`handle_incoming_pq_fields` decapsulates under both keypairs of a session and keeps the second result.
Decapsulation does not fail for the wrong key, so the first is always lost.
-/

namespace SCMessenger

variable {K : Type} {P : Primitives K}

namespace RatchetSession

def TakesSecret (P : Primitives K) (s : RatchetSession K) (pqKemCiphertext pqEncapsKey : Bytes) (ss : K) :
    Prop :=
  (s.handleIncomingPqFields P pqKemCiphertext pqEncapsKey).1 = .ok (some ss)
    ∧ (s.handleIncomingPqFields P pqKemCiphertext pqEncapsKey).2.pqPendingRecv = some ss

theorem takesSecret_previous {s : RatchetSession K} {p : MlKem768KeyPair}
    (hp : s.pqPrevKeypair = some p) (ct : Arr 1088) (key : Bytes) (ss : K) :
    s.TakesSecret P ct.1 key ss
      ↔ s.isPqHybrid = true ∧ P.mlkemDecapsulate p.seed ct = ss
        ∧ (s.isDuplicateSecret P ss = false ∨ s.pqPendingRecv = some ss) := by
  have hd : s.decapsulateIncoming P ct.1 = some (P.mlkemDecapsulate p.seed ct) := by
    rw [decapsulateIncoming_arr, hp]
    rfl
  unfold TakesSecret handleIncomingPqFields
  cases hh : s.isPqHybrid with
  | false => simp
  | true =>
    simp only [hd, Bool.true_eq_false, if_false, Except.ok.injEq, Option.some.injEq, true_and]
    refine and_congr_right fun hs => ?_
    subst hs
    cases s.isDuplicateSecret P (P.mlkemDecapsulate p.seed ct) <;> simp

/-- **The peer's secret is taken exactly if it was encapsulated to the previous key**, and not mixed last. -/
theorem takesSecret_iff (hkem : KemIdeal P) {s : RatchetSession K} {previous : MlKem768KeyPair}
    (hprev : s.pqPrevKeypair = some previous) (pk : Arr 1184) (encapRand : Arr 32) (key : Bytes) :
    s.TakesSecret P (P.mlkemEncapsulate pk encapRand).1.1 key (P.mlkemEncapsulate pk encapRand).2
      ↔ s.isPqHybrid = true ∧ pk = previous.publicKey P
        ∧ (s.isDuplicateSecret P (P.mlkemEncapsulate pk encapRand).2 = false
          ∨ s.pqPendingRecv = some (P.mlkemEncapsulate pk encapRand).2) := by
  rw [takesSecret_previous hprev]
  refine and_congr_right fun _ => and_congr_left fun _ => ⟨fun hd => ?_, ?_⟩
  · by_contra hn
    exact hkem.other previous.seed pk encapRand (fun h => hn h.symm) hd
  · rintro rfl
    exact hkem.correct previous.seed encapRand

def rekeyDraws : HybridDraws := ⟨Arr.fit 32 [1], Arr.fit 32 [2], Arr.fit 32 [3], Arr.fit 64 [4]⟩

def rekeySession (rootKey : Term) : RatchetSession Term :=
  hybridSender termPrimitives 0x03 (Arr.fit 32 [5]) (bootstrapHctOf termPrimitives rekeyDraws bob) rootKey
    rekeyDraws bob

theorem rekeySession_step (r : Term) :
    ∃ out s', (rekeySession r).performPqRatchetStep termPrimitives (Arr.fit 32 [6]) (Arr.fit 64 [7])
        = (.ok out, s')
      ∧ s'.isPqHybrid = true ∧ s'.pqPrevKeypair = some ⟨rekeyDraws.keypairSeed⟩
      ∧ s'.pqOurKeypair = some ⟨Arr.fit 64 [7]⟩ ∧ s'.pqLastMixedFp = none ∧ s'.pqPendingRecv = none := by
  have hk : (rekeySession r).pqTheirEncapsKey
      = some (bob.mlkemKeypair.publicKey termPrimitives).1 := rfl
  exact ⟨_, _, performPqRatchetStep_ok rfl hk _ _, rfl, rfl, rfl, rfl, rfl⟩

/-- After a step, Alice takes a secret for the key she had before. -/
theorem takesSecret_previous_key :
    ∃ out s', (rekeySession (.bytes [])).performPqRatchetStep termPrimitives (Arr.fit 32 [6])
        (Arr.fit 64 [7]) = (.ok out, s')
      ∧ s'.TakesSecret termPrimitives
        (termPrimitives.mlkemEncapsulate (termPrimitives.mlkemPublic rekeyDraws.keypairSeed)
          (Arr.fit 32 [8])).1.1 []
        (termPrimitives.mlkemEncapsulate (termPrimitives.mlkemPublic rekeyDraws.keypairSeed)
          (Arr.fit 32 [8])).2 := by
  obtain ⟨out, s', hs, hh, hp, -, hm, hr⟩ := rekeySession_step (.bytes [])
  refine ⟨out, s', hs, (takesSecret_iff termKem hp _ _ _).mpr ⟨hh, rfl, .inl ?_⟩⟩
  simp [isDuplicateSecret, hm, hr]

/-- **A secret for the announced key is missed.** -/
theorem rekeyed_misses (hk : KemIdeal P) {s s' : RatchetSession K} {out : Bytes × Bytes}
    {c : MlKem768KeyPair} (hc : s.pqOurKeypair = some c) {e : Arr 32} {se : Arr 64}
    (hs : s.performPqRatchetStep P e se = (.ok out, s'))
    (hf : P.mlkemPublic se ≠ c.publicKey P) (r : Arr 32) (key : Bytes) :
    ¬ s'.TakesSecret P (P.mlkemEncapsulate (P.mlkemPublic se) r).1.1 key
      (P.mlkemEncapsulate (P.mlkemPublic se) r).2 := by
  have hp : s'.pqPrevKeypair = some c := by
    unfold performPqRatchetStep at hs
    split at hs
    · cases hs
    split at hs
    · cases hs
    split at hs
    · cases hs
    · cases hs
      exact hc
  intro ht
  exact hk.other c.seed _ r hf.symm ((takesSecret_previous hp _ _ _).mp ht).2.1

/-- Alice misses the secret Bob sends to the key she announced. -/
theorem announced_key_missed :
    ∃ s s' out, initAsSenderHybrid termPrimitives rekeyDraws alice.x25519EncryptionSecret
        (bob.bundle termPrimitives [1, 3]) (Arr.fit 32 [5]) = .ok s
      ∧ s.performPqRatchetStep termPrimitives (Arr.fit 32 [6]) (Arr.fit 64 [7]) = (.ok out, s')
      ∧ s'.pqOurKeypair = some ⟨Arr.fit 64 [7]⟩
      ∧ ¬ s'.TakesSecret termPrimitives
        (termPrimitives.mlkemEncapsulate (termPrimitives.mlkemPublic (Arr.fit 64 [7]))
          (Arr.fit 32 [8])).1.1 []
        (termPrimitives.mlkemEncapsulate (termPrimitives.mlkemPublic (Arr.fit 64 [7]))
          (Arr.fit 32 [8])).2 := by
  obtain ⟨ss, hs, -⟩ := initWith_bundle termDh termKem 0x03
    (sessionRootV3 termPrimitives (termPrimitives.diffieHellman alice.x25519EncryptionSecret
      (bob.bundle termPrimitives [1, 3]).x25519Public) (Arr.fit 32 [5])) rekeyDraws bob [1, 3]
    (Arr.fit 32 [5])
  obtain ⟨out, s', hst, -, -, hc, -, -⟩ := rekeySession_step (sessionRootV3 termPrimitives
    (termPrimitives.diffieHellman alice.x25519EncryptionSecret
      (bob.bundle termPrimitives [1, 3]).x25519Public) (Arr.fit 32 [5]) ss)
  have hf : termPrimitives.mlkemPublic (Arr.fit 64 [7])
      ≠ (⟨rekeyDraws.keypairSeed⟩ : MlKem768KeyPair).publicKey termPrimitives := by
    intro h
    have hh := congrArg (fun a : Arr 1184 => a.1.head?) h
    exact absurd hh (by decide)
  exact ⟨_, s', out, hs, hst, hc, rekeyed_misses termKem rfl hst hf _ _⟩

end RatchetSession

end SCMessenger
