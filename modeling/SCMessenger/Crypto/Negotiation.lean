import SCMessenger.Crypto.Hybrid

/-!
# What a negotiation binds

`negotiate_suite` hashes both offers: each list of suites, then the byte `0xFF`, the suite and both keys.
The lists carry no length, and nothing keeps `0xFF` out of them.
-/

namespace SCMessenger

variable {K : Type} (P : Primitives K)

def negotiationMaterial (ourSuites theirSuites : Bytes) (suite : UInt8)
    (ourEd25519Pub theirEd25519Pub : Arr 32) : Bytes :=
  ourSuites ++ [0xFF] ++ theirSuites ++ [0xFF] ++ [suite] ++ ourEd25519Pub.1 ++ theirEd25519Pub.1

def negotiationTranscript (ourSuites theirSuites : Bytes) (ourEd25519Pub theirEd25519Pub : Arr 32) :
    Option Bytes :=
  (commonSuite ourSuites theirSuites).map fun suite =>
    negotiationMaterial ourSuites theirSuites suite ourEd25519Pub theirEd25519Pub

variable {P} {a b a' b' : Bytes} {x y x' y' : Arr 32} {s s' : UInt8}

theorem negotiateSuite_eq_ok_iff {hash : Arr 32} :
    negotiateSuite P a b x y = .ok (s, hash)
      ↔ commonSuite a b = some s
        ∧ (negotiationTranscript a b x y).map (P.deriveBytes "iron-core suite-transcript v1") = some hash := by
  unfold negotiateSuite negotiationTranscript
  cases commonSuite a b with
  | none => simp
  | some suite => simp [negotiationMaterial]

theorem commonSuite_congr (ha : ∀ t, t ∈ a ↔ t ∈ a') (hb : ∀ t, t ∈ b ↔ t ∈ b') :
    commonSuite a b = commonSuite a' b' := by
  ext s
  simp only [commonSuite_eq_some, ha, hb]

theorem negotiationMaterial_offers (h : negotiationMaterial a b s x y = negotiationMaterial a' b' s' x' y') :
    a ++ 0xFF :: b = a' ++ 0xFF :: b' := by
  have hs : ∀ (a b : Bytes) (s : UInt8) (x y : Arr 32),
      negotiationMaterial a b s x y = (a ++ 0xFF :: b) ++ (0xFF :: s :: (x.1 ++ y.1)) := by
    intro a b s x y
    simp [negotiationMaterial]
  rw [hs, hs] at h
  exact List.append_inj_left' h (by simp [x.2, y.2, x'.2, y'.2])

/-- **The offers can be read off**, if neither list of one side holds the separator. -/
theorem transcript_inj (ha : 0xFF ∉ a) (hb : 0xFF ∉ b)
    (h : negotiationMaterial a b s x y = negotiationMaterial a' b' s' x' y') : a = a' ∧ b = b' := by
  obtain ⟨ho, -, ht⟩ :=
    (List.append_cons_inj_of_notMem ha hb).mp (negotiationMaterial_offers h)
  exact ⟨ho, ht⟩

/-! ## Negotiations over some suites -/

/-- What negotiations should do whose offers are made of certain suites. -/
structure SoundNegotiation (P : Primitives K) (offered : Set UInt8) : Prop where
  /-- A suite is found if there is a common one, and it is the greatest of them. -/
  greatest : ∀ a b x y, (∀ t ∈ a, t ∈ offered) → (∀ t ∈ b, t ∈ offered) → ∀ t ∈ a, t ∈ b →
    ∃ s hash, negotiateSuite P a b x y = .ok (s, hash) ∧ s ∈ a ∧ s ∈ b ∧ ∀ t ∈ a, t ∈ b → t ≤ s
  /-- The order of the lists does not matter, nor does who begins. -/
  symmetric : ∀ a b a' b' x y s hash, (∀ t ∈ a, t ∈ offered) → (∀ t ∈ b, t ∈ offered) →
    a.Perm a' → b.Perm b' → negotiateSuite P a b x y = .ok (s, hash) →
      (∃ hash', negotiateSuite P a' b' x y = .ok (s, hash'))
        ∧ ∃ hash', negotiateSuite P b' a' y x = .ok (s, hash')
  /-- The bytes that are hashed determine both offers. -/
  binding : ∀ a b a' b' x y x' y' m, (∀ t ∈ a, t ∈ offered) → (∀ t ∈ b, t ∈ offered) →
    (∀ t ∈ a', t ∈ offered) → (∀ t ∈ b', t ∈ offered) →
      negotiationTranscript a b x y = some m → negotiationTranscript a' b' x' y' = some m →
        a = a' ∧ b = b'

theorem negotiateSuite_of_common (h : commonSuite a b = some s) :
    ∃ hash, negotiateSuite P a b x y = .ok (s, hash) := by
  refine ⟨P.deriveBytes "iron-core suite-transcript v1" (negotiationMaterial a b s x y), ?_⟩
  rw [negotiateSuite_eq_ok_iff, negotiationTranscript, h]
  exact ⟨rfl, rfl⟩

theorem exists_commonSuite {t : UInt8} (ha : t ∈ a) (hb : t ∈ b) : ∃ s, commonSuite a b = some s := by
  cases h : commonSuite a b with
  | some s => exact ⟨s, rfl⟩
  | none => exact absurd hb (commonSuite_eq_none.mp h t ha)

/-- **A negotiation binds its offers exactly if the separator is not a suite.** -/
theorem negotiation_sound_iff (P : Primitives K) (offered : Set UInt8) :
    SoundNegotiation P offered ↔ 0xFF ∉ offered := by
  constructor
  · intro h hme
    have ho : ∀ n : Nat, ∀ t ∈ List.replicate n (0xFF : UInt8), t ∈ offered := by
      intro n t ht
      rwa [List.eq_of_mem_replicate ht]
    -- one and two of the separator, or two and one
    have he := h.binding [0xFF] [0xFF, 0xFF] [0xFF, 0xFF] [0xFF] (Arr.fit 32 []) (Arr.fit 32 [])
      (Arr.fit 32 []) (Arr.fit 32 []) _ (ho 1) (ho 2) (ho 2) (ho 1) rfl rfl
    exact absurd he.1 (by decide)
  · intro hf
    refine ⟨?_, ?_, ?_⟩
    · intro a b x y _ _ t hta htb
      obtain ⟨s, hs⟩ := exists_commonSuite hta htb
      obtain ⟨hash, hok⟩ := negotiateSuite_of_common (P := P) (x := x) (y := y) hs
      obtain ⟨⟨hsa, hsb⟩, hma⟩ := commonSuite_eq_some.mp hs
      exact ⟨s, hash, hok, hsa, hsb, hma⟩
    · intro a b a' b' x y s hash _ _ hp hpb hok
      have hs := (negotiateSuite_eq_ok_iff.mp hok).1
      rw [commonSuite_congr (fun t => hp.mem_iff) (fun t => hpb.mem_iff)] at hs
      exact ⟨negotiateSuite_of_common hs, negotiateSuite_of_common (commonSuite_comm a' b' ▸ hs)⟩
    · intro a b a' b' x y x' y' m ha hb _ _ hm hm'
      obtain ⟨s, -, hs⟩ := Option.map_eq_some_iff.mp hm
      obtain ⟨s', -, hs'⟩ := Option.map_eq_some_iff.mp hm'
      exact transcript_inj (fun h => hf (ha _ h)) (fun h => hf (hb _ h)) (hs.trans hs'.symm)

/-- Two negotiations of the suite `0x01` with different offers and one transcript. -/
theorem transcript_collision :
    ∃ m, negotiationTranscript [0x01] [0x01, 0xFF, 0x01] (Arr.fit 32 []) (Arr.fit 32 []) = some m
      ∧ negotiationTranscript [0x01, 0xFF, 0x01] [0x01] (Arr.fit 32 []) (Arr.fit 32 []) = some m :=
  ⟨_, rfl, by decide⟩

end SCMessenger
