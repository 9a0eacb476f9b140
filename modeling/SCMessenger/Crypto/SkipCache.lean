import SCMessenger.Crypto.Disorder
import SCMessenger.Crypto.SessionCalls
import SCMessenger.Lib.MinCache

/-!
# The cache of skipped message keys

The names of skipped keys in the abstract cache of `Lib/MinCache`: past `maxSkipKeys` the cache drops its
smallest name, by ratchet key bytes and then by number.
-/

namespace SCMessenger

open RatchetSession

variable {K : Type} {P : Primitives K}

/-! ## Names -/

def SkipKey.Lt (x y : SkipKey) : Prop := SkipKey.cmp x y = .lt

instance : DecidableRel SkipKey.Lt := fun x y => inferInstanceAs (Decidable (SkipKey.cmp x y = .lt))

theorem SkipKey.lt_irrefl (x : SkipKey) : ¬ SkipKey.Lt x x := by
  simp [SkipKey.Lt, Std.ReflCmp.compare_self]

theorem SkipKey.lt_trans (x y z : SkipKey) (hx : SkipKey.Lt x y) (hy : SkipKey.Lt y z) : SkipKey.Lt x z :=
  Std.TransCmp.lt_trans hx hy

variable {d : Arr 32}

theorem SkipKey.lt_of_number {i j : UInt32} (h : i < j) : SkipKey.Lt (d, i) (d, j) := by
  have hc : compare i j = .lt := by simp [compare, compareOfLessAndEq, h]
  simp [SkipKey.Lt, SkipKey.cmp, compareLex, compareOn, Std.ReflCmp.compare_self, hc]

theorem SkipKey.lt_of_bytes {x y : SkipKey} (h : compare x.1.1 y.1.1 = .lt) : SkipKey.Lt x y := by
  simp [SkipKey.Lt, SkipKey.cmp, compareLex, compareOn, h]

def skippedNames (d : Arr 32) : Nat → UInt32 → List SkipKey
  | 0, _ => []
  | n + 1, i => (d, i) :: skippedNames d n (i + 1)

theorem mem_skippedNames {target : UInt32} {x : SkipKey} :
    ∀ {n : Nat} {i : UInt32}, i.toNat + n = target.toNat →
      (x ∈ skippedNames d n i ↔ x.1 = d ∧ i ≤ x.2 ∧ x.2 < target) := by
  intro n
  induction n with
  | zero =>
    intro i h
    simp only [skippedNames, List.not_mem_nil, false_iff, not_and, UInt32.not_lt,
      UInt32.le_iff_toNat_le]
    omega
  | succ n ih =>
    intro i h
    have hl : i < target := by rw [UInt32.lt_iff_toNat_lt]; omega
    have hs := toNat_add_one_of_lt hl
    rw [skippedNames, List.mem_cons, ih (by omega), add_one_le_iff_of_lt hl,
      UInt32.le_iff_lt_or_eq, Prod.ext_iff]
    constructor
    · rintro (⟨h1, h2⟩ | ⟨h1, h2, h3⟩)
      · exact ⟨h1, .inr h2.symm, h2 ▸ hl⟩
      · exact ⟨h1, .inl h2, h3⟩
    · rintro ⟨h1, h2 | h2, h3⟩
      · exact .inr ⟨h1, h2, h3⟩
      · exact .inl ⟨h1, h2.symm⟩

theorem skippedNames_pairwise {target : UInt32} :
    ∀ {n : Nat} {i : UInt32}, i.toNat + n = target.toNat →
      (skippedNames d n i).Pairwise SkipKey.Lt := by
  intro n
  induction n with
  | zero => intro i _; exact List.Pairwise.nil
  | succ n ih =>
    intro i h
    have hl : i < target := by rw [UInt32.lt_iff_toNat_lt]; omega
    have hs := toNat_add_one_of_lt hl
    have hr : (i + 1).toNat + n = target.toNat := by omega
    refine List.pairwise_cons.mpr ⟨fun x hx => ?_, ih hr⟩
    obtain ⟨rfl, hle, -⟩ := (mem_skippedNames hr).mp hx
    exact SkipKey.lt_of_number ((add_one_le_iff_of_lt hl _).mp hle)

theorem length_skippedNames (d : Arr 32) (n : Nat) (i : UInt32) : (skippedNames d n i).length = n := by
  induction n generalizing i with
  | zero => rfl
  | succ n ih => rw [skippedNames, List.length_cons, ih]

/-! ## The cache as a set of names -/

def cachedNames (m : SkippedKeys K) : Finset SkipKey := m.keys.toFinset

theorem mem_cachedNames {m : SkippedKeys K} {x : SkipKey} : x ∈ cachedNames m ↔ m[x]?.isSome = true := by
  rw [cachedNames, List.mem_toFinset, Std.ExtTreeMap.mem_keys, Std.ExtTreeMap.mem_iff_isSome_getElem?]

variable (m : SkippedKeys K)

theorem card_cachedNames : (cachedNames m).card = m.size := by
  rw [cachedNames, List.toFinset_card_of_nodup Std.ExtTreeMap.nodup_keys, Std.ExtTreeMap.length_keys]

theorem cachedNames_insert (x : SkipKey) (k : K) :
    cachedNames (m.insert x k) = insert x (cachedNames m) := by
  ext y
  simp only [cachedNames, List.mem_toFinset, Std.ExtTreeMap.mem_keys, Std.ExtTreeMap.mem_insert,
    Finset.mem_insert, Std.LawfulEqCmp.compare_eq_iff_eq]
  rw [eq_comm (a := x)]

theorem cachedNames_erase (x : SkipKey) : cachedNames (m.erase x) = (cachedNames m).erase x := by
  ext y
  simp only [cachedNames, List.mem_toFinset, Std.ExtTreeMap.mem_keys, Std.ExtTreeMap.mem_erase,
    Finset.mem_erase, ne_eq, Std.LawfulEqCmp.compare_eq_iff_eq]
  rw [eq_comm (a := x)]

/-- Nothing goes while the cache is within its bound, and its smallest name otherwise. -/
theorem evictSkipped_cases :
    (m.size ≤ maxSkipKeys ∧ evictSkipped m = m)
      ∨ (maxSkipKeys < m.size ∧ ∃ z ∈ cachedNames m, (∀ y ∈ cachedNames m, y ≠ z → SkipKey.Lt z y)
          ∧ evictSkipped m = m.erase z) := by
  unfold evictSkipped
  split
  case isFalse hroom => exact .inl ⟨Nat.not_lt.mp hroom, rfl⟩
  case isTrue hf =>
      cases hm : m.minKey? with
      | none =>
        rw [Std.ExtTreeMap.minKey?_eq_none_iff] at hm
        simp [hm] at hf
      | some z =>
        obtain ⟨hz, hl⟩ := Std.ExtTreeMap.minKey?_eq_some_iff_mem_and_forall.mp hm
        refine .inr ⟨hf, z, by simpa [cachedNames] using hz, fun y hy hn => ?_, rfl⟩
        have hzy := hl y (by simpa [cachedNames] using hy)
        rcases Ordering.isLE_iff_eq_lt_or_eq_eq.mp hzy with hlt | he
        · exact hlt
        · exact absurd (Std.LawfulEqCmp.eq_of_compare he).symm hn

section Skip

variable (d : Arr 32) (target : UInt32)

/-- **Skipping fills the cache** with the names skipped, in their order. -/
theorem skipMessageKeys_filled :
    ∀ (n : Nat) (c : Chain K) (m : SkippedKeys K), c.index.toNat + n = target.toNat →
      Filled SkipKey.Lt maxSkipKeys (cachedNames m) (skippedNames d n c.index)
        (cachedNames (skipMessageKeys P d target n c m).2) := by
  intro n
  induction n with
  | zero => intro c m _; exact .nil _
  | succ n ih =>
    intro c m h
    have hl : c.index < target := by rw [UInt32.lt_iff_toNat_lt]; omega
    have hs := toNat_add_one_of_lt hl
    simp only [skipMessageKeys, hl, if_true, Chain.nextMessageKey, UInt32.add_sub_cancel,
      skippedNames]
    have hr := fun m' : SkippedKeys K =>
      ih ⟨nextChainKey P c.chainKey, c.index + 1⟩ m' (by simp only [hs]; omega)
    rcases evictSkipped_cases (m.insert (d, c.index) (messageKey P c.chainKey)) with
      ⟨hro, he⟩ | ⟨hf, z, hz, hm, he⟩
    · rw [← card_cachedNames, cachedNames_insert] at hro
      have := hr (m.insert (d, c.index) (messageKey P c.chainKey))
      rw [cachedNames_insert] at this
      rw [he]
      exact .keep hro this
    · rw [← card_cachedNames, cachedNames_insert] at hf
      rw [cachedNames_insert] at hz hm
      have := hr ((m.insert (d, c.index) (messageKey P c.chainKey)).erase z)
      rw [cachedNames_erase, cachedNames_insert] at this
      rw [he]
      exact .evict hf hz hm this

theorem skipMessageKeys_size_le {n : Nat} {c : Chain K} {m : SkippedKeys K}
    (h : c.index.toNat + n = target.toNat) (hm : m.size ≤ maxSkipKeys) :
    (skipMessageKeys P d target n c m).2.size ≤ maxSkipKeys := by
  have hc := (skipMessageKeys_filled (P := P) d target n c m h).card_eq SkipKey.lt_irrefl
    SkipKey.lt_trans (skippedNames_pairwise h)
  have hl := Finset.card_le_card
    (Finset.sdiff_subset : cachedNames m \ (skippedNames d n c.index).toFinset ⊆ cachedNames m)
  rw [card_cachedNames] at hc hl
  omega

/-- Under a name that was skipped stands the chain's key, under any other what was there. -/
theorem skipMessageKeys_value :
    ∀ (n : Nat) (c : Chain K) (m : SkippedKeys K) {x : SkipKey} {k : K},
      c.index.toNat + n = target.toNat → (skipMessageKeys P d target n c m).2[x]? = some k →
      (x ∈ skippedNames d n c.index
          ∧ k = messageKey P ((nextChainKey P)^[(x.2 - c.index).toNat] c.chainKey))
        ∨ (x ∉ skippedNames d n c.index ∧ m[x]? = some k) := by
  intro n
  induction n with
  | zero => intro c m x k _ hx; exact .inr ⟨by simp [skippedNames], hx⟩
  | succ n ih =>
    intro c m x k h hx
    have hl : c.index < target := by rw [UInt32.lt_iff_toNat_lt]; omega
    have hs := toNat_add_one_of_lt hl
    have hr : (⟨nextChainKey P c.chainKey, c.index + 1⟩ : Chain K).index.toNat + n
        = target.toNat := by simp only [hs]; omega
    simp only [skipMessageKeys, hl, if_true, Chain.nextMessageKey, UInt32.add_sub_cancel] at hx
    rcases ih _ _ hr hx with ⟨hm, hk⟩ | ⟨hm, ho⟩
    · obtain ⟨-, hle, -⟩ := (mem_skippedNames hr).mp hm
      have hl' : c.index < x.2 := (add_one_le_iff_of_lt hl _).mp hle
      have hsb : (x.2 - c.index).toNat = (x.2 - (c.index + 1)).toNat + 1 := by
        rw [UInt32.toNat_sub_of_le _ _ (UInt32.le_of_lt hl'), UInt32.toNat_sub_of_le _ _ hle, hs]
        rw [UInt32.lt_iff_toNat_lt] at hl'
        omega
      refine .inl ⟨List.mem_cons_of_mem _ hm, ?_⟩
      rw [hk, hsb, Function.iterate_succ_apply]
    · have hi := evictSkipped_getElem? ho
      by_cases hxc : x = (d, c.index)
      · rw [hxc, Std.ExtTreeMap.getElem?_insert_self] at hi
        refine .inl ⟨hxc ▸ List.mem_cons_self, ?_⟩
        rw [hxc, ← Option.some.inj hi]
        simp
      · rw [SkippedKeys.getElem?_insert_of_ne hxc] at hi
        exact .inr ⟨by simpa [skippedNames, hxc] using hm, hi⟩

end Skip

/-! ## What an accepted message leaves -/

variable {s s' : RatchetSession K} {rng : Nat → Arr 32} {n : UInt32} {k : K}

/-- The current or the derived chain moves past the message, and the keys before it are cached. -/
theorem RatchetSession.Accepted.taken (h : Accepted P s rng d n k s') (hs : s.skippedKeys[(d, n)]? = none) :
    ∃ c, s.chainFor P d = some c ∧ c.messageKeyAt P n = some k ∧ s'.theirDhPublic = some d
      ∧ s'.receivingChain = some (c.after P n)
      ∧ s'.skippedKeys = (skipMessageKeys P d n (n - c.index).toNat c s.skippedKeys).2 := by
  cases h with
  | cached hs' => exact absurd (hs'.symm.trans hs) (by simp)
  | chain c _ hd hc hk => exact ⟨c, by rw [chainFor, if_pos hd, hc], hk, hd, rfl, rfl⟩
  | ratchet _ hd hk => exact ⟨_, by rw [chainFor, if_neg hd], hk, rfl, rfl, rfl⟩

variable {c : Chain K}

theorem Chain.messageKeyAt_of_le (hl : c.index ≤ n) (hs : (n - c.index).toNat ≤ maxSkipKeys) :
    c.messageKeyAt P n = some (messageKey P ((nextChainKey P)^[(n - c.index).toNat] c.chainKey)) := by
  rw [Chain.messageKeyAt, if_neg (UInt32.not_lt.mpr hl), if_neg (Nat.not_lt.mpr hs)]

theorem openingKey_of_chain (hs : s.skippedKeys[(d, n)]? = none) (hc : s.chainFor P d = some c)
    (hk : c.messageKeyAt P n = some k) : s.openingKey P d n = some k := by
  rw [openingKey, hs, hc]
  exact hk

theorem Chain.index_add_skipped (h : c.messageKeyAt P n = some k) :
    c.index.toNat + (n - c.index).toNat = n.toNat := by
  obtain ⟨hl, -, -⟩ := Chain.messageKeyAt_eq_some h
  rw [UInt32.toNat_sub_of_le _ _ hl]
  rw [UInt32.le_iff_toNat_le] at hl
  omega

/-! ## The invariant -/

def Chain.BeganWith (P : Primitives K) (c : Chain K) (ck : K) : Prop :=
  c.chainKey = (nextChainKey P)^[c.index.toNat] ck

theorem Chain.BeganWith.iterate {ck : K} (h : c.BeganWith P ck) (j : Nat) :
    (nextChainKey P)^[j] c.chainKey = (nextChainKey P)^[c.index.toNat + j] ck := by
  rw [h, ← Function.iterate_add_apply, Nat.add_comm]

/-- Under the current ratchet key only keys of the receiving chain before its position are cached. -/
structure Tidy (P : Primitives K) (s : RatchetSession K) : Prop where
  started : s.receivingChain = none → ∀ x : SkipKey, s.skippedKeys[x]? = none
  current : ∀ d c, s.theirDhPublic = some d → s.receivingChain = some c →
    ∃ ck, c.BeganWith P ck ∧ ∀ n k, s.skippedKeys[(d, n)]? = some k →
      n < c.index ∧ k = messageKey P ((nextChainKey P)^[n.toNat] ck)

/-- The message goes back to a ratchet key under which the key of a later one is cached. -/
def RatchetSession.ReturnsTo (s : RatchetSession K) (m : RatchetMessage) : Prop :=
  s.theirDhPublic.map (·.1) ≠ some m.dhPublic
    ∧ (∀ x ∈ s.skippedKeys.keys, x.1.1 = m.dhPublic → x.2 ≠ m.number)
    ∧ ∃ x ∈ s.skippedKeys.keys, x.1.1 = m.dhPublic ∧ m.number < x.2

instance (s : RatchetSession K) (m : RatchetMessage) : Decidable (s.ReturnsTo m) :=
  inferInstanceAs (Decidable (_ ∧ _ ∧ _))

theorem tidy_of_empty (hc : s.receivingChain = none) (hs : s.skippedKeys = ∅) : Tidy P s := by
  constructor
  · intro _ x; simp [hs]
  · intro d c _ hch; simp [hc] at hch

theorem Tidy.cached (h : Tidy P s) (x : SkipKey) :
    Tidy P { s with skippedKeys := s.skippedKeys.erase x, peerConfirmed := true } := by
  constructor
  · intro hc y
    have hy := h.started hc y
    cases hy' : (s.skippedKeys.erase x)[y]? with
    | none => rfl
    | some k => exact absurd (hy.symm.trans (getElem?_of_erase hy')) (by simp)
  · intro d c hd hc
    obtain ⟨ck, hck, hke⟩ := h.current d c hd hc
    exact ⟨ck, hck, fun n k hk => hke n k (getElem?_of_erase hk)⟩

/-- No cached name is at or past the chain's position, but those skipped now. -/
theorem Tidy.cached_lt (h : Tidy P s) (hc : s.chainFor P d = some c) (hs : s.skippedKeys[(d, n)]? = none)
    (hr : s.theirDhPublic ≠ some d → ∀ i, n < i → s.skippedKeys[(d, i)]? = none) :
    ∃ ck, c.BeganWith P ck ∧ ∀ i k, s.skippedKeys[(d, i)]? = some k →
      (i < c.index ∧ k = messageKey P ((nextChainKey P)^[i.toNat] ck)) ∨ (c.index ≤ i ∧ i < n) := by
  unfold chainFor at hc
  split at hc
  case isTrue hd =>
    obtain ⟨ck, hck, hke⟩ := h.current d c hd hc
    exact ⟨ck, hck, fun i k hk => .inl (hke i k hk)⟩
  case isFalse hd =>
    obtain rfl := Option.some.inj hc
    refine ⟨(s.receivingKeys P d).2, rfl, fun i k hk => .inr ⟨UInt32.zero_le, ?_⟩⟩
    by_contra hge
    rcases UInt32.le_iff_lt_or_eq.mp (UInt32.not_lt.mp hge) with hl | rfl
    · exact absurd ((hr hd i hl).symm.trans hk) (by simp)
    · exact absurd (hs.symm.trans hk) (by simp)

/-- **One message taken from a chain.** -/
theorem Tidy.taken (h : Tidy P s) (ha : Accepted P s rng d n k s') (hs : s.skippedKeys[(d, n)]? = none)
    (hla : n ≠ 0xFFFFFFFF)
    (hre : s.theirDhPublic ≠ some d → ∀ i, n < i → s.skippedKeys[(d, i)]? = none) : Tidy P s' := by
  obtain ⟨c, hc, hk, hd', hc', hs'⟩ := ha.taken hs
  have hr := Chain.index_add_skipped hk
  obtain ⟨ck, hck, ho⟩ := h.cached_lt hc hs hre
  have hn : (n + 1).toNat = n.toNat + 1 := by
    refine toNat_add_one_of_lt (m := 0xFFFFFFFF) (UInt32.lt_of_le_of_ne ?_ hla)
    rw [UInt32.le_iff_toNat_le]
    exact Nat.le_of_lt_succ n.toNat_lt
  constructor
  · intro hno
    rw [hc'] at hno
    cases hno
  · intro d' c' hd'' hc''
    obtain rfl : d = d' := Option.some.inj (hd'.symm.trans hd'')
    obtain rfl : c.after P n = c' := Option.some.inj (hc'.symm.trans hc'')
    refine ⟨ck, ?_, fun i k' hi => ?_⟩
    · simp only [Chain.BeganWith, Chain.after, hn]
      rw [hck.iterate, ← hr, Nat.add_assoc]
    · rw [hs'] at hi
      simp only [Chain.after, UInt32.lt_iff_toNat_lt, hn]
      rcases skipMessageKeys_value d n _ c _ hr hi with ⟨hm, hk'⟩ | ⟨hm, hi'⟩
      · obtain ⟨-, hle, hl⟩ := (mem_skippedNames hr).mp hm
        have hsu : (i - c.index).toNat = i.toNat - c.index.toNat := UInt32.toNat_sub_of_le _ _ hle
        have hl' : c.index.toNat ≤ i.toNat := hle
        have hlt' : i.toNat < n.toNat := hl
        refine ⟨by omega, ?_⟩
        rw [hk', hck.iterate, hsu, Nat.add_sub_cancel' hl']
      · rcases ho i k' hi' with ⟨hl, hk'⟩ | ⟨hle, hl⟩
        · rw [UInt32.lt_iff_toNat_lt] at hl
          exact ⟨by omega, hk'⟩
        · exact absurd ((mem_skippedNames hr).mpr ⟨rfl, hle, hl⟩) hm

/-! ## Sequences of messages -/

/-- A session and the keys it has decrypted messages with. -/
structure DecryptRun (K : Type) where
  session : RatchetSession K
  used : List K

abbrev DecryptInput := (Nat → Arr 32) × RatchetMessage

def RatchetSession.keyFor (P : Primitives K) (s : RatchetSession K) (m : RatchetMessage) : Option K :=
  (Arr.ofBytes? 32 m.dhPublic).bind fun d => s.openingKey P d m.number

namespace DecryptRun

def step (P : Primitives K) (r : DecryptRun K) (i : DecryptInput) : DecryptRun K :=
  match r.session.accept P i.1 i.2 with
  | (.ok _, s') => ⟨s', (r.session.keyFor P i.2).toList ++ r.used⟩
  | (.error _, s') => ⟨s', r.used⟩

/-- If accepted, the message has not the last number and returns to no earlier ratchet key. -/
def Forward (P : Primitives K) (r : DecryptRun K) (i : DecryptInput) : Prop :=
  (r.session.accept P i.1 i.2).1.toBool = true →
    i.2.number ≠ 0xFFFFFFFF ∧ ¬ r.session.ReturnsTo i.2

instance (r : DecryptRun K) (i : DecryptInput) : Decidable (r.Forward P i) :=
  inferInstanceAs (Decidable (_ → _))

theorem step_cases (r : DecryptRun K) (i : DecryptInput) :
    r.step P i = r
      ∨ ∃ d k s', i.2.dhPublic = d.1 ∧ (r.session.accept P i.1 i.2).1.toBool = true
          ∧ Accepted P r.session i.1 d i.2.number k s' ∧ r.step P i = ⟨s', k :: r.used⟩ := by
  unfold step
  cases hr : r.session.accept P i.1 i.2 with
  | mk a s' =>
    cases a with
    | error e =>
      obtain rfl := decrypt_of_error (P := P) hr
      exact .inl rfl
    | ok p =>
      obtain ⟨d, k, hd, hk, -, ha⟩ := decrypt_cases (P := P) hr
      have hke : r.session.keyFor P i.2 = some k := by
        rw [keyFor, hd, Arr.ofBytes?_val]
        exact hk
      exact .inr ⟨d, k, s', hd, rfl, ha, by simp [hke]⟩

/-- What holds of every state of a run. -/
structure Inv (P : Primitives K) (r : DecryptRun K) : Prop where
  bounded : r.session.skippedKeys.size ≤ maxSkipKeys
  wellFormed : WellFormed P r.session
  spent : ∀ k ∈ r.used, Spent P r.session k

end DecryptRun

theorem none_later {m : RatchetMessage} (h : ¬ s.ReturnsTo m) (hd : m.dhPublic = d.1)
    (hs : s.skippedKeys[(d, m.number)]? = none) (ho : s.theirDhPublic ≠ some d) (i : UInt32)
    (hi : m.number < i) : s.skippedKeys[(d, i)]? = none := by
  have hm : ∀ x : SkipKey, x ∈ s.skippedKeys.keys ↔ s.skippedKeys[x]?.isSome = true := by
    intro x
    rw [Std.ExtTreeMap.mem_keys, Std.ExtTreeMap.mem_iff_isSome_getElem?]
  by_contra hsome
  refine h ⟨?_, fun x hx hxd hxn => ?_, (d, i), ?_, hd.symm, hi⟩
  · intro he
    obtain ⟨d', hd', he'⟩ := Option.map_eq_some_iff.mp he
    exact ho (hd'.trans (congrArg some (Subtype.ext (he'.trans hd))))
  · have hx' : x = (d, m.number) := Prod.ext (Subtype.ext (hxd.trans hd)) hxn
    rw [hm, hx', hs] at hx
    cases hx
  · rw [hm, Option.isSome_iff_ne_none]
    exact hsome

theorem RatchetSession.Accepted.cached_or_taken (h : Accepted P s rng d n k s') :
    s' = { s with skippedKeys := s.skippedKeys.erase (d, n), peerConfirmed := true }
      ∨ s.skippedKeys[(d, n)]? = none := by
  cases h with
  | cached _ => exact .inl rfl
  | chain _ hs _ _ _ => exact .inr hs
  | ratchet hs _ _ => exact .inr hs

/-- **The cache stays within its bound.** -/
theorem RatchetSession.Accepted.size_le (h : Accepted P s rng d n k s')
    (hs : s.skippedKeys.size ≤ maxSkipKeys) : s'.skippedKeys.size ≤ maxSkipKeys := by
  rcases h.cached_or_taken with rfl | hn
  · exact Nat.le_trans Std.ExtTreeMap.size_erase_le hs
  · obtain ⟨c, -, hk, -, -, hs'⟩ := h.taken hn
    rw [hs']
    exact skipMessageKeys_size_le d n (Chain.index_add_skipped hk) hs

namespace DecryptRun

variable {r : DecryptRun K}

theorem Inv.step (hk : KdfIdeal P) (h : r.Inv P) (i : DecryptInput) : (r.step P i).Inv P := by
  rcases r.step_cases (P := P) i with he | ⟨d, k, s', hd, ho, ha, he⟩
  · rw [he]
    exact h
  · rw [he]
    refine ⟨ha.size_le h.bounded, Accepted.wellFormed hk h.wellFormed ha, fun k' hk' => ?_⟩
    rcases List.mem_cons.mp hk' with rfl | hk'
    · exact Accepted.spent hk h.wellFormed ha
    · exact Accepted.keepsSpent hk (h.spent k' hk') ha

theorem tidy_step {i : DecryptInput} (h : Tidy P r.session) (hf : r.Forward P i) :
    Tidy P (r.step P i).session := by
  rcases r.step_cases (P := P) i with he | ⟨d, k, s', hd, ho, ha, he⟩
  · rw [he]
    exact h
  · rw [he]
    obtain ⟨hl, hr⟩ := hf ho
    rcases ha.cached_or_taken with rfl | hs
    · exact h.cached _
    · exact h.taken ha hs hl (none_later hr hd hs)

/-! ### Runs of a peer that knows the keys -/

/-- The peer's message `n` under its ratchet key `d`, sealed as the session expects. -/
def sealedFor (P : Primitives K) (s : RatchetSession K) (d : Arr 32) (n : UInt32) : RatchetMessage where
  dhPublic := d.1
  number := n
  nonce := Arr.fit 24 []
  ciphertext := ((s.openingKey P d n).map fun k => P.aeadSeal k (Arr.fit 24 []) [] []).getD []
  aad := []

variable {s : RatchetSession K} {d : Arr 32} {n : UInt32}

theorem accept_sealedFor (ha : AeadIdeal P) {k : K} (hk : s.openingKey P d n = some k)
    (rng : Nat → Arr 32) :
    ∃ s', s.accept P rng (sealedFor P s d n) = (.ok [], s') ∧ Accepted P s rng d n k s' := by
  have hct : (sealedFor P s d n).ciphertext = P.aeadSeal k (Arr.fit 24 []) [] [] := by
    simp [sealedFor, hk]
  rcases decrypt_spec (P := P) s rng d n (Arr.fit 24 []) (sealedFor P s d n).ciphertext [] with
    ⟨k', p, s', hk', ho, hac, he⟩ | ⟨hn, -⟩
  · obtain rfl : k = k' := Option.some.inj (hk.symm.trans hk')
    rw [hct, ha.open_seal] at ho
    obtain rfl := Option.some.inj ho
    exact ⟨s', he, hac⟩
  · have := hn k hk
    rw [hct, ha.open_seal] at this
    cases this

def draws : Nat → Arr 32 := fun _ => Arr.fit 32 [9]

theorem step_sealedFor (ha : AeadIdeal P) {k : K} (hk : r.session.openingKey P d n = some k) :
    Accepted P r.session draws d n k (r.step P (draws, sealedFor P r.session d n)).session := by
  obtain ⟨s', he, hac⟩ := accept_sealedFor ha hk draws
  simpa [step, he] using hac

def peerInputs (P : Primitives K) : DecryptRun K → List SkipKey → List DecryptInput
  | _, [] => []
  | r, x :: xs =>
    (draws, sealedFor P r.session x.1 x.2)
      :: peerInputs P (r.step P (draws, sealedFor P r.session x.1 x.2)) xs

end DecryptRun

def bobFresh : RatchetSession Term :=
  initAsReceiver termPrimitives (Arr.fit 32 [8]) bob.signingKey alice.signingKey

theorem bobFresh_theirDhPublic (d : Arr 32) : bobFresh.theirDhPublic ≠ some d := by
  simp [bobFresh, initAsReceiver, receiverState]

namespace DecryptRun

/-! ### The invariant of a run -/

/-- **The cache over any sequence of messages** is bounded, holds no used key and, going forward, is tidy. -/
theorem cache_invariant (hkdf : KdfIdeal P) {s : RatchetSession K} (hc : s.receivingChain = none)
    (hs : s.skippedKeys = ∅) (inputs : List DecryptInput) :
    let r := inputs.foldl (step P) ⟨s, []⟩
    r.session.skippedKeys.size ≤ maxSkipKeys
      ∧ (∀ k ∈ r.used, ∀ x : SkipKey, r.session.skippedKeys[x]? ≠ some k)
      ∧ (Guarded (Forward P) (step P) ⟨s, []⟩ inputs → Tidy P r.session) := by
  have hst : Inv P ⟨s, []⟩ := ⟨by simp [hs], wellFormed_of_empty hc hs, by simp⟩
  have hru : (inputs.foldl (step P) ⟨s, []⟩).Inv P :=
    (Guarded.of_forall (step P) (fun _ _ => trivial) _).invariant (Inv P)
      (fun r i hr _ => hr.step hkdf i) hst
  refine ⟨hru.bounded, fun k hk => (hru.spent k hk).not_cached, fun hf => ?_⟩
  exact hf.invariant (fun r => Tidy P r.session) (fun r i => tidy_step) (tidy_of_empty hc hs)

theorem cache_invariant_skipped :
    let r := (peerInputs termPrimitives ⟨bobFresh, []⟩ [(Arr.fit 32 [1], 2)]).foldl
      (step termPrimitives) ⟨bobFresh, []⟩
    r.session.skippedKeys[(Arr.fit 32 [1], (0 : UInt32))]?.isSome = true
      ∧ r.session.skippedKeys.size ≤ maxSkipKeys
      ∧ (∀ k ∈ r.used, ∀ x : SkipKey, r.session.skippedKeys[x]? ≠ some k)
      ∧ Tidy termPrimitives r.session := by
  obtain ⟨hb, hu, ht⟩ := cache_invariant (P := termPrimitives) termKdf (s := bobFresh) rfl rfl
    (peerInputs termPrimitives ⟨bobFresh, []⟩ [(Arr.fit 32 [1], 2)])
  have hf : Guarded (Forward termPrimitives) (step termPrimitives) ⟨bobFresh, []⟩
      (peerInputs termPrimitives ⟨bobFresh, []⟩ [(Arr.fit 32 [1], 2)]) := by
    refine ⟨fun _ => ⟨by decide, ?_⟩, trivial⟩
    rintro ⟨-, -, x, hx, -⟩
    simp [bobFresh, initAsReceiver, receiverState] at hx
  exact ⟨by decide +kernel, hb, hu, ht hf⟩

theorem not_tidy_of_ahead {r : DecryptRun K} {d : Arr 32} (h : r.session.theirDhPublic = some d
      ∧ r.session.receivingChain.map (·.index) = some 1
      ∧ r.session.skippedKeys[(d, (1 : UInt32))]?.isSome = true) :
    r.session.theirDhPublic = some d ∧ (∃ ck, r.session.receivingChain = some ⟨ck, 1⟩)
      ∧ r.session.skippedKeys[(d, (1 : UInt32))]?.isSome = true ∧ ¬ Tidy P r.session := by
  obtain ⟨hd, hi, hs⟩ := h
  obtain ⟨⟨ck, _⟩, hc, rfl⟩ := Option.map_eq_some_iff.mp hi
  refine ⟨hd, ⟨ck, hc⟩, hs, fun ht => ?_⟩
  obtain ⟨k, hk⟩ := Option.isSome_iff_exists.mp hs
  obtain ⟨_, -, hke⟩ := ht.current _ _ hd hc
  exact UInt32.lt_irrefl 1 (hke 1 k hk).1

/-- A peer that goes back leaves a key in the cache that the chain has not reached. -/
theorem stale_key_cached :
    let r := (peerInputs termPrimitives ⟨bobFresh, []⟩
      [(Arr.fit 32 [1], 2), (Arr.fit 32 [1], 0), (Arr.fit 32 [2], 0), (Arr.fit 32 [1], 0)]).foldl
        (step termPrimitives) ⟨bobFresh, []⟩
    r.session.theirDhPublic = some (Arr.fit 32 [1]) ∧ (∃ ck, r.session.receivingChain = some ⟨ck, 1⟩)
      ∧ r.session.skippedKeys[(Arr.fit 32 [1], (1 : UInt32))]?.isSome = true
      ∧ ¬ Tidy termPrimitives r.session := by
  exact not_tidy_of_ahead (by decide +kernel)

end DecryptRun

/-! ## Age -/

def RatchetSession.Decryptable (P : Primitives K) (s : RatchetSession K) (x : SkipKey) (k : K) : Prop :=
  ∀ rng N p aad, (s.decrypt P rng x.1.1 x.2 N (P.aeadSeal k N p aad) aad).1 = .ok p

/-- The key of a message skipped before, or when message `n` is taken from `c`. -/
def RatchetSession.skippedKey (P : Primitives K) (s : RatchetSession K) (d : Arr 32) (c : Chain K)
    (n : UInt32) (x : SkipKey) : Option K :=
  if x ∈ skippedNames d (n - c.index).toNat c.index then c.messageKeyAt P x.2 else s.skippedKeys[x]?

/-- Of the names skipped, listed by age, the last `maxSkipKeys` are kept and the first dropped. -/
structure KeepsNewest (P : Primitives K) (names : List SkipKey) (key : SkipKey → Option K)
    (s : RatchetSession K) : Prop where
  newest : ∀ x ∈ names.drop (names.length - maxSkipKeys), ∃ k, key x = some k ∧ s.Decryptable P x k
  oldest : ∃ e, ∀ x : SkipKey, s.skippedKeys[x]?.isSome = true ↔ x ∈ names.drop e

theorem decryptable_of_cached (ha : AeadIdeal P) {x : SkipKey} (h : s.skippedKeys[x]? = some k) :
    s.Decryptable P x k := by
  intro rng N p aad
  refine (decrypt_ok_iff rng).mpr ⟨x.1, k, rfl, ?_, ha.open_seal k N p aad⟩
  rw [openingKey, h]

theorem skippedKey_of_cached {k' : K} {x : SkipKey} (hk : c.messageKeyAt P n = some k)
    (hx : (skipMessageKeys P d n (n - c.index).toNat c s.skippedKeys).2[x]? = some k') :
    s.skippedKey P d c n x = some k' := by
  have hr := Chain.index_add_skipped hk
  obtain ⟨-, hs, -⟩ := Chain.messageKeyAt_eq_some hk
  unfold RatchetSession.skippedKey
  rcases skipMessageKeys_value d n _ c _ hr hx with ⟨hm, hk'⟩ | ⟨hm, ho⟩
  · obtain ⟨-, hl, hlt⟩ := (mem_skippedNames hr).mp hm
    have hsu : (x.2 - c.index).toNat = x.2.toNat - c.index.toNat := UInt32.toNat_sub_of_le _ _ hl
    have hl' : x.2.toNat < n.toNat := hlt
    rw [if_pos hm, Chain.messageKeyAt_of_le hl (by omega), hk']
  · rw [if_neg hm, ho]

/-- **Eviction keeps the newest keys exactly when names agree with age** at the place of the cut. -/
theorem keepsNewest_iff (haead : AeadIdeal P) {s s' : RatchetSession K} {rng : Nat → Arr 32} {d : Arr 32}
    {n : UInt32} {N : Arr 24} {ct aad p : Bytes} {c : Chain K} {old : List SkipKey}
    (hok : s.decrypt P rng d.1 n N ct aad = (.ok p, s')) (hs : s.skippedKeys[(d, n)]? = none)
    (hc : s.chainFor P d = some c) (hold : old.Nodup)
    (hlist : ∀ x, x ∈ old ↔ s.skippedKeys[x]?.isSome = true) :
    let new := skippedNames d (n - c.index).toNat c.index
    KeepsNewest P (aged old new) (s.skippedKey P d c n) s'
      ↔ ∀ x ∈ (aged old new).take (surplus maxSkipKeys old new),
          ∀ y ∈ (aged old new).drop (surplus maxSkipKeys old new), SkipKey.cmp x y = .lt := by
  intro new
  obtain ⟨d', k, hd, -, -, ha⟩ := decrypt_cases hok
  obtain rfl : d = d' := Subtype.ext hd
  obtain ⟨c', hc', hk, -, -, hs'⟩ := ha.taken hs
  obtain rfl : c = c' := Option.some.inj (hc.symm.trans hc')
  have hr := Chain.index_add_skipped hk
  have hf := skipMessageKeys_filled (P := P) d n _ c s.skippedKeys hr
  have hn : ∀ x, x ∈ old ↔ x ∈ cachedNames s.skippedKeys := fun x =>
    (hlist x).trans mem_cachedNames.symm
  have hi := hf.keeps_latest_iff SkipKey.lt_irrefl SkipKey.lt_trans
    (skippedNames_pairwise hr) hold hn
  simp only [mem_cachedNames, ← hs'] at hi
  constructor
  · exact fun h => hi.mp h.oldest
  · intro hl
    refine ⟨fun x hx => ?_, hi.mpr hl⟩
    -- the surplus is what does not fit, so the last names are among those that are left
    have hle : surplus maxSkipKeys old new ≤ (aged old new).length - maxSkipKeys :=
      Nat.sub_le_sub_left (Nat.le_max_left _ _) _
    have hke := (hf.mem_iff_of_lt SkipKey.lt_irrefl SkipKey.lt_trans
      (skippedNames_pairwise hr) hold hn hl x).mpr
        ((List.drop_subset_drop_left _ hle) hx)
    rw [mem_cachedNames] at hke
    obtain ⟨k', hk'⟩ := Option.isSome_iff_exists.mp hke
    exact ⟨k', skippedKey_of_cached hk hk', decryptable_of_cached haead (hs' ▸ hk')⟩

namespace DecryptRun

/-- With one key cached and a chain at message 1, message 257 is accepted. -/
theorem accepts_257 (ha : AeadIdeal P) {r : DecryptRun K} {a b : Arr 32} (hn : a ≠ b)
    (h : r.session.theirDhPublic = some b ∧ r.session.receivingChain.map (·.index) = some 1
      ∧ r.session.skippedKeys.keys = [(a, 0)]) :
    ∃ ck k s', (∀ x : SkipKey, r.session.skippedKeys[x]?.isSome = true ↔ x = (a, 0))
      ∧ r.session.skippedKeys[(b, (257 : UInt32))]? = none ∧ r.session.chainFor P b = some ⟨ck, 1⟩
      ∧ r.session.openingKey P b 257 = some k
      ∧ r.session.accept P draws (sealedFor P r.session b 257) = (.ok [], s') := by
  obtain ⟨hd, hx, hl⟩ := h
  obtain ⟨⟨ck, _⟩, hc, rfl⟩ := Option.map_eq_some_iff.mp hx
  have hi : ∀ x : SkipKey, r.session.skippedKeys[x]?.isSome = true ↔ x = (a, 0) := by
    intro x
    rw [← mem_cachedNames, cachedNames, List.mem_toFinset, hl, List.mem_singleton]
  have hno : r.session.skippedKeys[(b, (257 : UInt32))]? = none := by
    rw [← Option.not_isSome_iff_eq_none, hi]
    exact fun heq => hn (congrArg Prod.fst heq).symm
  have hch : r.session.chainFor P b = some ⟨ck, 1⟩ := by rw [chainFor, if_pos hd, hc]
  have hk := Chain.messageKeyAt_of_le (P := P) (c := ⟨ck, 1⟩) (n := 257)
    (show (1 : UInt32) ≤ 257 by decide) (show ((257 : UInt32) - 1).toNat ≤ maxSkipKeys by decide)
  have ho := openingKey_of_chain hno hch hk
  obtain ⟨s', heq, -⟩ := accept_sealedFor ha ho draws
  exact ⟨ck, _, s', hi, hno, hch, ho, heq⟩

end DecryptRun

theorem aged_singleton {a b : Arr 32} (hn : a ≠ b) :
    aged [(a, 0)] (skippedNames b 256 1) = (a, 0) :: skippedNames b 256 1 := by
  have hr : (1 : UInt32).toNat + 256 = (257 : UInt32).toNat := rfl
  have hm : (a, 0) ∉ skippedNames b 256 1 := fun hm => hn ((mem_skippedNames hr).mp hm).1
  simp [aged, hm]

/-- A key under a smaller ratchet key is evicted for the 256 keys that are skipped now. -/
theorem keepsNewest_evicting :
    let r := (DecryptRun.peerInputs termPrimitives ⟨bobFresh, []⟩
      [(Arr.fit 32 [1], 1), (Arr.fit 32 [2], 0)]).foldl (DecryptRun.step termPrimitives) ⟨bobFresh, []⟩
    ∃ c s', r.session.accept termPrimitives DecryptRun.draws
          (DecryptRun.sealedFor termPrimitives r.session (Arr.fit 32 [2]) 257) = (.ok [], s')
      ∧ surplus maxSkipKeys [(Arr.fit 32 [1], 0)] (skippedNames (Arr.fit 32 [2]) 256 1) = 1
      ∧ KeepsNewest termPrimitives (aged [(Arr.fit 32 [1], 0)] (skippedNames (Arr.fit 32 [2]) 256 1))
          (r.session.skippedKey termPrimitives (Arr.fit 32 [2]) c 257) s' := by
  intro r
  have hn : Arr.fit 32 [1] ≠ Arr.fit 32 [2] := by decide
  obtain ⟨ck, k, s', hi, hno, hch, -, heq⟩ := DecryptRun.accepts_257 (r := r) termAead hn (by decide +kernel)
  have hsu : surplus maxSkipKeys [(Arr.fit 32 [1], 0)] (skippedNames (Arr.fit 32 [2]) 256 1) = 1 := by
    simp [surplus, aged_singleton hn, length_skippedNames, maxSkipKeys]
  have hiff := keepsNewest_iff (d := Arr.fit 32 [2]) (n := 257) termAead heq hno hch
    (List.nodup_singleton (Arr.fit 32 [1], 0)) fun x => by rw [hi, List.mem_singleton]
  have hto : ((257 : UInt32) - 1).toNat = 256 := rfl
  simp only [hto, hsu] at hiff
  refine ⟨⟨ck, 1⟩, s', heq, hsu, hiff.mpr fun x hx y hy => ?_⟩
  have hr : (1 : UInt32).toNat + 256 = (257 : UInt32).toNat := rfl
  simp only [aged_singleton hn, List.take_succ_cons, List.take_zero, List.mem_singleton,
    List.drop_succ_cons, List.drop_zero] at hx hy
  obtain ⟨d, i⟩ := y
  obtain ⟨rfl, -⟩ := (mem_skippedNames hr).mp hy
  rw [hx]
  exact SkipKey.lt_of_bytes (show compare (Arr.fit 32 [1]).1 (Arr.fit 32 [2]).1 = .lt by decide)

theorem not_keepsNewest {a b : Arr 32} (hne : a ≠ b) {key : SkipKey → Option K}
    (hk : s.skippedKeys[(a, (0 : UInt32))]?.isSome = true)
    (hl : s.skippedKeys[(b, (1 : UInt32))]? = none) :
    ¬ KeepsNewest P (aged [(a, 0)] (skippedNames b 256 1)) key s := by
  rintro ⟨-, e, he⟩
  have hr : (1 : UInt32).toNat + 256 = (257 : UInt32).toNat := rfl
  have hn : (a, 0) ∉ skippedNames b 256 1 := fun hm => hne ((mem_skippedNames hr).mp hm).1
  rw [aged_singleton hne] at he
  cases e with
  | zero =>
    have hm : (b, 1) ∈ skippedNames b 256 1 := List.mem_cons_self
    have := (he (b, 1)).mpr (List.mem_cons_of_mem _ hm)
    rw [hl] at this
    cases this
  | succ e => exact hn (List.mem_of_mem_drop ((he (a, 0)).mp hk))

namespace DecryptRun

/-- With a key under a greater ratchet key cached, the first key skipped now is evicted at once. -/
theorem newer_key_evicted (ha : AeadIdeal P) {r : DecryptRun K} {a b : Arr 32}
    (h : r.session.theirDhPublic = some b ∧ r.session.receivingChain.map (·.index) = some 1
      ∧ r.session.skippedKeys.keys = [(a, 0)])
    (hb : ∀ i j, SkipKey.Lt (b, i) (a, j)) :
    let s' := (r.step P (draws, sealedFor P r.session b 257)).session
    (r.session.accept P draws (sealedFor P r.session b 257)).1 = .ok []
      ∧ (∀ x : SkipKey, r.session.skippedKeys[x]?.isSome = true ↔ x = (a, 0))
      ∧ s'.skippedKeys[(a, (0 : UInt32))]?.isSome = true ∧ s'.openingKey P b 1 = none
      ∧ ∀ key, ¬ KeepsNewest P (aged [(a, 0)] (skippedNames b 256 1)) key s' := by
  have hn : a ≠ b := by
    rintro rfl
    exact SkipKey.lt_irrefl _ (hb 0 0)
  obtain ⟨ck, k, s', hi, hno, hch, ho, heq⟩ := accepts_257 ha hn h
  obtain ⟨c, hc', hck, hd₃, hc₃, hs₃⟩ := (step_sealedFor ha ho).taken hno
  obtain rfl := Option.some.inj (hch.symm.trans hc')
  have hs : cachedNames r.session.skippedKeys = {(a, 0)} := by
    ext x
    rw [mem_cachedNames, hi, Finset.mem_singleton]
  -- one name too many, and the first one skipped is the smallest
  have hr := Chain.index_add_skipped hck
  have hf := skipMessageKeys_filled (P := P) b 257 _ ⟨ck, 1⟩ r.session.skippedKeys hr
  have has := skippedNames_pairwise (d := b) hr
  have hbe : ∀ x ∈ skippedNames b ((257 : UInt32) - 1).toNat 1, SkipKey.Lt x (a, 0) := by
    intro x hx
    obtain ⟨rfl, -⟩ := (mem_skippedNames hr).mp hx
    exact hb _ _
  have hsp : skippedNames b ((257 : UInt32) - 1).toNat 1 = (b, 1) :: skippedNames b 255 2 := rfl
  rw [← hs₃, hs] at hf
  rw [hsp] at hf has hbe
  have he := hf.evicts_first SkipKey.lt_irrefl SkipKey.lt_trans
    (by rw [List.length_cons, length_skippedNames]; rfl) has hbe
  have hnn : (step P r (draws, sealedFor P r.session b 257)).session.skippedKeys[(b, (1 : UInt32))]?
      = none := by
    rw [← Option.not_isSome_iff_eq_none, ← mem_cachedNames]
    exact he.2
  have hke := mem_cachedNames.mp he.1
  refine ⟨by rw [heq], hi, hke, ?_, fun key => not_keepsNewest hn hke hnn⟩
  rw [openingKey, hnn, chainFor, if_pos hd₃, hc₃]
  rfl

/-- The key of a message skipped now is lost, and an earlier one is kept. -/
theorem newest_key_lost :
    let r := (peerInputs termPrimitives ⟨bobFresh, []⟩ [(Arr.fit 32 [2], 1), (Arr.fit 32 [1], 0)]).foldl
      (step termPrimitives) ⟨bobFresh, []⟩
    let s' := (r.step termPrimitives (draws, sealedFor termPrimitives r.session (Arr.fit 32 [1]) 257)).session
    (r.session.accept termPrimitives draws
        (sealedFor termPrimitives r.session (Arr.fit 32 [1]) 257)).1 = .ok []
      ∧ (∀ x : SkipKey, r.session.skippedKeys[x]?.isSome = true ↔ x = (Arr.fit 32 [2], 0))
      ∧ s'.skippedKeys[(Arr.fit 32 [2], (0 : UInt32))]?.isSome = true
      ∧ s'.openingKey termPrimitives (Arr.fit 32 [1]) 1 = none
      ∧ ∀ key, ¬ KeepsNewest termPrimitives
          (aged [(Arr.fit 32 [2], 0)] (skippedNames (Arr.fit 32 [1]) 256 1)) key s' := by
  have hb : compare (Arr.fit 32 [1]).1 (Arr.fit 32 [2]).1 = .lt := by decide
  exact newer_key_evicted termAead (by decide +kernel) fun _ _ => SkipKey.lt_of_bytes hb

end DecryptRun

end SCMessenger
