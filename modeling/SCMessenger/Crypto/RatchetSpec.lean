import SCMessenger.Crypto.Ratchet

/-!
# What one ratchet operation does

One specification for each operation of the session, so that no later proof unfolds it.
-/

namespace SCMessenger

variable {K : Type} {P : Primitives K}

/-! ## Message numbers -/

theorem toNat_add_one_of_lt {n m : UInt32} (h : n < m) : (n + 1).toNat = n.toNat + 1 := by
  have hm := m.toNat_lt
  rw [UInt32.lt_iff_toNat_lt] at h
  rw [UInt32.toNat_add]
  exact Nat.mod_eq_of_lt (by simp only [UInt32.toNat_one]; omega)

theorem add_one_le_iff_of_lt {n m : UInt32} (h : n < m) (j : UInt32) : n + 1 ≤ j ↔ n < j := by
  rw [UInt32.le_iff_toNat_le, UInt32.lt_iff_toNat_lt, toNat_add_one_of_lt h]
  exact Nat.succ_le_iff

/-! ## Chains -/

/-- The message key `n` of a chain, when it is neither behind the chain nor too far ahead. -/
def Chain.messageKeyAt (P : Primitives K) (c : Chain K) (n : UInt32) : Option K :=
  if n < c.index then none
  else if maxSkipKeys < (n - c.index).toNat then none
  else some (messageKey P ((nextChainKey P)^[(n - c.index).toNat] c.chainKey))

def Chain.after (P : Primitives K) (c : Chain K) (n : UInt32) : Chain K :=
  ⟨(nextChainKey P)^[(n - c.index).toNat + 1] c.chainKey, n + 1⟩

theorem Chain.messageKeyAt_index (c : Chain K) :
    c.messageKeyAt P c.index = some (messageKey P c.chainKey) := by
  simp [Chain.messageKeyAt]

theorem Chain.after_index (c : Chain K) : c.after P c.index = ⟨nextChainKey P c.chainKey, c.index + 1⟩ := by
  simp [Chain.after]

theorem Chain.messageKeyAt_eq_some {c : Chain K} {n : UInt32} {k : K} (h : c.messageKeyAt P n = some k) :
    c.index ≤ n ∧ (n - c.index).toNat ≤ maxSkipKeys
      ∧ k = messageKey P ((nextChainKey P)^[(n - c.index).toNat] c.chainKey) := by
  unfold Chain.messageKeyAt at h
  split at h
  · cases h
  · rename_i hl
    split at h
    · cases h
    · rename_i hs
      exact ⟨UInt32.not_lt.mp hl, Nat.not_lt.mp hs, (Option.some.inj h).symm⟩

namespace RatchetSession

theorem skipMessageKeys_fst (theirDh : Arr 32) (t : UInt32) :
    ∀ (n : Nat) (c : Chain K) (m : SkippedKeys K), c.index.toNat + n ≤ t.toNat →
      (skipMessageKeys P theirDh t n c m).1
        = ⟨(nextChainKey P)^[n] c.chainKey, c.index + UInt32.ofNat n⟩ := by
  intro n
  induction n with
  | zero => intro c m _; simp [skipMessageKeys]
  | succ n ih =>
    intro c m h
    have hl : c.index < t := by rw [UInt32.lt_iff_toNat_lt]; omega
    have hs := toNat_add_one_of_lt hl
    simp only [skipMessageKeys, hl, if_true, Chain.nextMessageKey]
    rw [ih _ _ (by simp only [hs]; omega)]
    simp only [Function.iterate_succ_apply, Chain.mk.injEq, true_and]
    rw [UInt32.ofNat_add, UInt32.add_assoc, UInt32.add_comm (UInt32.ofNat n)]
    rfl

theorem evictSkipped_getElem? {m : SkippedKeys K} {x : SkipKey} {k : K} (h : (evictSkipped m)[x]? = some k) :
    m[x]? = some k := by
  unfold evictSkipped at h
  split at h
  · split at h
    · rw [Std.ExtTreeMap.getElem?_erase] at h
      split at h
      · cases h
      · exact h
    · exact h
  · exact h

theorem skipMessageKeys_snd (theirDh : Arr 32) (t : UInt32) :
    ∀ (n : Nat) (c : Chain K) (m : SkippedKeys K) (x : SkipKey) (k : K),
      (skipMessageKeys P theirDh t n c m).2[x]? = some k →
      m[x]? = some k ∨ ∃ j < n, x = (theirDh, c.index + UInt32.ofNat j)
        ∧ k = messageKey P ((nextChainKey P)^[j] c.chainKey) := by
  intro n
  induction n with
  | zero => intro c m x k h; exact .inl h
  | succ n ih =>
    intro c m x k h
    simp only [skipMessageKeys] at h
    split at h
    · rcases ih _ _ x k h with ho | ⟨j, hj, hx, hk⟩
      · have hi := evictSkipped_getElem? ho
        rw [Std.ExtTreeMap.getElem?_insert] at hi
        split at hi
        · rename_i hc
          have hx : (theirDh, c.index + 1 - 1) = x := Std.LawfulEqCmp.eq_of_compare hc
          refine .inr ⟨0, by omega, ?_, (Option.some.inj hi).symm⟩
          rw [← hx]
          simp
        · exact .inl hi
      · refine .inr ⟨j + 1, by omega, ?_, hk⟩
        rw [hx, Chain.nextMessageKey, UInt32.ofNat_add, UInt32.add_comm (UInt32.ofNat j),
          ← UInt32.add_assoc]
        rfl
    · exact .inl h

/-! ## The key a message selects -/

/-- The receiving chain for a ratchet key: the current one, or the one a ratchet step derives. -/
def chainFor (P : Primitives K) (s : RatchetSession K) (theirDh : Arr 32) : Option (Chain K) :=
  if s.theirDhPublic = some theirDh then s.receivingChain
  else some (Chain.new (s.receivingKeys P theirDh).2)

def openingKey (P : Primitives K) (s : RatchetSession K) (theirDh : Arr 32) (n : UInt32) :
    Option K :=
  match s.skippedKeys[(theirDh, n)]? with
  | some key => some key
  | none => (s.chainFor P theirDh).bind fun c => c.messageKeyAt P n

def takeKey (P : Primitives K) (s : RatchetSession K) (theirDh : Arr 32) (n : UInt32)
    (c : Chain K) : RatchetSession K :=
  { s with
    receivingChain := some (c.after P n)
    skippedKeys := (skipMessageKeys P theirDh n (n - c.index).toNat c s.skippedKeys).2 }

variable {s : RatchetSession K} {theirDh : Arr 32} {n : UInt32}

/-- With nothing cached, the chain's key is taken and the session advances past it, or nothing changes. -/
theorem getMessageKey_spec (hs : s.skippedKeys[(theirDh, n)]? = none) :
    (∃ c k, s.receivingChain = some c ∧ c.messageKeyAt P n = some k
        ∧ s.getMessageKey P theirDh n = (.ok k, s.takeKey P theirDh n c))
    ∨ ((s.receivingChain.bind fun c => c.messageKeyAt P n) = none
        ∧ ∃ e, s.getMessageKey P theirDh n = (.error e, s)) := by
  unfold getMessageKey
  rw [hs]
  cases hc : s.receivingChain with
  | none => exact .inr ⟨rfl, _, rfl⟩
  | some c =>
    simp only [Option.bind_some, Chain.messageKeyAt]
    split
    · exact .inr ⟨rfl, _, rfl⟩
    · rename_i hl
      split
      · exact .inr ⟨rfl, _, rfl⟩
      · rename_i hsk
        -- the loop runs exactly up to `n`, so its chain is the `n`-th
        have hl' : c.index.toNat ≤ n.toNat := by
          rw [UInt32.lt_iff_toNat_lt] at hl
          omega
        have hsu : (n - c.index).toNat = n.toNat - c.index.toNat :=
          UInt32.toNat_sub_of_le n c.index (UInt32.le_iff_toNat_le.mpr hl')
        have hch := skipMessageKeys_fst (P := P) theirDh n (n - c.index).toNat c
          s.skippedKeys (by omega)
        have he : c.index + UInt32.ofNat (n - c.index).toNat = n := by
          rw [UInt32.ofNat_toNat, UInt32.add_comm, UInt32.sub_add_cancel]
        refine .inl ⟨c, _, rfl, by rw [if_neg hl, if_neg hsk], ?_⟩
        simp only [hch, Chain.nextMessageKey, takeKey, Chain.after, he,
          Function.iterate_succ_apply']

/-! ## Trial adoption -/

def mixedCandidate (s : RatchetSession K) : Option K := s.pqPendingSent.map (·.ss)

theorem trialCandidates_eq (s : RatchetSession K) :
    ∃ r, s.trialCandidates = s.mixedCandidate :: r := by
  unfold trialCandidates mixedCandidate
  cases s.pqPendingSent with
  | none => exact ⟨[], rfl⟩
  | some p => exact ⟨[none], rfl⟩

variable {rng : Nat → Arr 32} {nonce : Arr 24} {ct aad : Bytes}

/-- When no candidate's key opens the message, nothing changes. -/
theorem tryCandidates_fail (hs : s.skippedKeys[(theirDh, n)]? = none)
    (hk : ∀ k, (Chain.new (s.receivingKeys P theirDh).2).messageKeyAt P n = some k →
      P.aeadOpen k nonce ct aad = none) :
    ∀ (ca : List (Option K)) (i : Nat) (er : List String),
      ∃ e, s.tryCandidates P rng theirDh n nonce ct aad ca i er = (.error e, s) := by
  intro ca
  induction ca with
  | nil => intro i er; exact ⟨_, rfl⟩
  | cons cn r ih =>
    intro i er
    simp only [tryCandidates]
    have hs' : (s.ratchetTrial P (rng i) theirDh cn).skippedKeys[(theirDh, n)]? = none := hs
    rcases getMessageKey_spec (P := P) hs' with ⟨c, k, hc, hck, hg⟩ | ⟨-, e, hg⟩
    · cases hc
      simp only [hg, hk k hck]
      exact ih _ _
    · simp only [hg]
      exact ih _ _

theorem handleDhRatchetTrial_ok {p : Bytes} {k : K} (hs : s.skippedKeys[(theirDh, n)]? = none)
    (hk : (Chain.new (s.receivingKeys P theirDh).2).messageKeyAt P n = some k)
    (ho : P.aeadOpen k nonce ct aad = some p) :
    s.handleDhRatchetTrial P rng theirDh n nonce ct aad
      = (.ok p, ((s.ratchetTrial P (rng 0) theirDh s.mixedCandidate).takeKey P theirDh n
          (Chain.new (s.receivingKeys P theirDh).2)).adoptTrial P s.mixedCandidate) := by
  obtain ⟨r, hca⟩ := trialCandidates_eq s
  unfold handleDhRatchetTrial
  rw [hca]
  simp only [tryCandidates]
  have hs' : (s.ratchetTrial P (rng 0) theirDh s.mixedCandidate).skippedKeys[(theirDh, n)]? = none :=
    hs
  rcases getMessageKey_spec (P := P) hs' with ⟨c, k', hc, hck, hg⟩ | ⟨hn, -⟩
  · cases hc
    obtain rfl : k' = k := Option.some.inj (hck.symm.trans hk)
    simp only [hg, ho]
  · exact absurd (hn.symm.trans hk) (by simp)

/-! ## Decryption -/

/-- The three ways a message is accepted and the session each leaves. -/
inductive Accepted (P : Primitives K) (s : RatchetSession K) (rng : Nat → Arr 32) (d : Arr 32)
    (n : UInt32) (k : K) : RatchetSession K → Prop
  /-- with a cached key, which is removed -/
  | cached (hs : s.skippedKeys[(d, n)]? = some k) :
      Accepted P s rng d n k
        { s with skippedKeys := s.skippedKeys.erase (d, n), peerConfirmed := true }
  /-- with the current receiving chain, which moves past the message -/
  | chain (c : Chain K) (hs : s.skippedKeys[(d, n)]? = none) (hd : s.theirDhPublic = some d)
      (hc : s.receivingChain = some c) (hk : c.messageKeyAt P n = some k) :
      Accepted P s rng d n k { s.takeKey P d n c with peerConfirmed := true }
  /-- after a ratchet step towards a new key of the peer -/
  | ratchet (hs : s.skippedKeys[(d, n)]? = none) (hd : s.theirDhPublic ≠ some d)
      (hk : (Chain.new (s.receivingKeys P d).2).messageKeyAt P n = some k) :
      Accepted P s rng d n k
        (((s.ratchetTrial P (rng 0) d s.mixedCandidate).takeKey P d n
          (Chain.new (s.receivingKeys P d).2)).adoptTrial P s.mixedCandidate)

/-- **Decryption**: accepted with the key it selects (`Accepted`), or rejected without a change. -/
theorem decrypt_spec (s : RatchetSession K) (rng : Nat → Arr 32) (d : Arr 32) (n : UInt32) (nonce : Arr 24)
    (ct aad : Bytes) :
    (∃ k p s', s.openingKey P d n = some k ∧ P.aeadOpen k nonce ct aad = some p
        ∧ Accepted P s rng d n k s' ∧ s.decrypt P rng d.1 n nonce ct aad = (.ok p, s'))
    ∨ ((∀ k, s.openingKey P d n = some k → P.aeadOpen k nonce ct aad = none)
        ∧ ∃ e, s.decrypt P rng d.1 n nonce ct aad = (.error e, s)) := by
  unfold decrypt openingKey
  simp only [Arr.ofBytes?_val]
  cases hs : s.skippedKeys[(d, n)]? with
  | some k =>
    cases ho : P.aeadOpen k nonce ct aad with
    | none =>
      refine .inr ⟨fun k' hk' => ?_, "Decryption failed with skipped key", by simp only [ho]⟩
      obtain rfl : k = k' := Option.some.inj hk'
      exact ho
    | some p => exact .inl ⟨k, p, _, rfl, ho, .cached hs, by simp only [ho]⟩
  | none =>
    by_cases hd : s.theirDhPublic = some d
    · simp only [chainFor, hd, if_true]
      rcases getMessageKey_spec (P := P) hs with ⟨c, k, hc, hk, hg⟩ | ⟨hn, e, hg⟩
      · simp only [hg, hc, Option.bind_some, hk]
        cases ho : P.aeadOpen k nonce ct aad with
        | none =>
          refine .inr ⟨fun k' hk' => ?_, _, rfl⟩
          obtain rfl : k = k' := Option.some.inj hk'
          exact ho
        | some p => exact .inl ⟨k, p, _, rfl, ho, .chain c hs hd hc hk, rfl⟩
      · simp only [hg, hn]
        exact .inr ⟨fun k hk => absurd hk (Option.some_ne_none k).symm, e, rfl⟩
    · simp only [chainFor, hd, if_false, Option.bind_some]
      by_cases he : ∃ k p, (Chain.new (s.receivingKeys P d).2).messageKeyAt P n = some k
          ∧ P.aeadOpen k nonce ct aad = some p
      · obtain ⟨k, p, hk, ho⟩ := he
        exact .inl ⟨k, p, _, hk, ho, .ratchet hs hd hk, handleDhRatchetTrial_ok hs hk ho⟩
      · have hf : ∀ k, (Chain.new (s.receivingKeys P d).2).messageKeyAt P n = some k →
            P.aeadOpen k nonce ct aad = none := by
          intro k hk
          cases ho : P.aeadOpen k nonce ct aad with
          | none => rfl
          | some p => exact absurd ⟨k, p, hk, ho⟩ he
        exact .inr ⟨hf, tryCandidates_fail hs hf _ _ _⟩

variable {s' : RatchetSession K}

/-- **A rejected message leaves the session as it was.** -/
theorem decrypt_of_error {dh : Bytes} {e : String} (h : s.decrypt P rng dh n nonce ct aad = (.error e, s')) :
    s' = s := by
  cases hd : Arr.ofBytes? 32 dh with
  | none =>
    simp only [decrypt, hd, Prod.mk.injEq] at h
    exact h.2.symm
  | some d =>
    obtain rfl := Arr.ofBytes?_eq_some.mp hd
    rcases decrypt_spec (P := P) s rng d n nonce ct aad with ⟨_, _, _, _, _, _, he⟩ | ⟨_, _, he⟩
    · rw [he] at h
      cases h
    · rw [he] at h
      exact (congrArg Prod.snd h).symm

/-- **Inversion of an accepted message.** -/
theorem decrypt_cases {dh : Bytes} {p : Bytes} (h : s.decrypt P rng dh n nonce ct aad = (.ok p, s')) :
    ∃ d k, dh = d.1 ∧ s.openingKey P d n = some k ∧ P.aeadOpen k nonce ct aad = some p
      ∧ Accepted P s rng d n k s' := by
  cases hd : Arr.ofBytes? 32 dh with
  | none => simp [decrypt, hd] at h
  | some d =>
    obtain rfl := Arr.ofBytes?_eq_some.mp hd
    rcases decrypt_spec (P := P) s rng d n nonce ct aad with
      ⟨k, q, s'', hk, ho, ha, he⟩ | ⟨_, _, he⟩
    · rw [he] at h
      cases h
      exact ⟨d, k, rfl, hk, ho, ha⟩
    · rw [he] at h
      cases h

/-- **Acceptance**: a message is accepted exactly when the key it selects opens it. -/
theorem decrypt_ok_iff (rng : Nat → Arr 32) {dh : Bytes} {p : Bytes} :
    (s.decrypt P rng dh n nonce ct aad).1 = .ok p
      ↔ ∃ d k, dh = d.1 ∧ s.openingKey P d n = some k ∧ P.aeadOpen k nonce ct aad = some p := by
  constructor
  · intro h
    obtain ⟨d, k, hd, hk, ho, -⟩ := decrypt_cases (Prod.ext h rfl)
    exact ⟨d, k, hd, hk, ho⟩
  · rintro ⟨d, k, rfl, hk, ho⟩
    rcases decrypt_spec (P := P) s rng d n nonce ct aad with
      ⟨k', q, s', hk', ho', -, he⟩ | ⟨hn, -⟩
    · obtain rfl : k = k' := Option.some.inj (hk.symm.trans hk')
      rw [he]
      exact congrArg Except.ok (Option.some.inj (ho'.symm.trans ho))
    · exact absurd ((hn k hk).symm.trans ho) (by simp)

/-! ## The next message of a chain -/

theorem rootStep_hybrid (h : s.isPqHybrid = true) (r dh : K) (p : Option K) :
    s.rootStep P r dh p = rootKeyRatchetV2 P r dh p := by
  rw [rootStep, h, if_pos rfl]

theorem rootStep_classical (h : s.isPqHybrid = false) (r dh : K) (p : Option K) :
    s.rootStep P r dh p = rootKeyRatchetV1 P r dh := by
  rw [rootStep, h, if_neg Bool.false_ne_true]

def afterChain (P : Primitives K) (s : RatchetSession K) (c : Chain K) : RatchetSession K :=
  { s with receivingChain := some (c.nextMessageKey P).2, peerConfirmed := true }

/-- The session after the first message under a new ratchet key `d`, with the new secret `x`. -/
def afterRatchet (P : Primitives K) (s : RatchetSession K) (x d : Arr 32) : RatchetSession K :=
  ((s.ratchetTrial P x d s.mixedCandidate).adoptTrial P s.mixedCandidate).afterChain P
    (Chain.new (s.receivingKeys P d).2)

theorem afterRatchet_mixedCandidate (s : RatchetSession K) (x d : Arr 32) :
    (s.afterRatchet P x d).mixedCandidate = none := by
  rcases Option.eq_none_or_eq_some s.pqPendingSent with h | ⟨p, h⟩
  · simp [afterRatchet, afterChain, adoptTrial, ratchetTrial, mixedCandidate, h]
  · simp [afterRatchet, afterChain, adoptTrial, ratchetTrial, mixedCandidate, h]

theorem rootStep_congr {t : RatchetSession K} (h : s.isPqHybrid = t.isPqHybrid) (r dh : K)
    (p : Option K) : s.rootStep P r dh p = t.rootStep P r dh p := by
  rw [rootStep, rootStep, h]

theorem takeKey_index (s : RatchetSession K) (d : Arr 32) (c : Chain K) :
    s.takeKey P d c.index c = { s with receivingChain := some (c.nextMessageKey P).2 } := by
  simp [takeKey, Chain.after_index, skipMessageKeys, Chain.nextMessageKey]

variable {d : Arr 32}

/-- **The next message of the receiving chain** is accepted, and the chain moves on by one. -/
theorem decrypt_next (ha : AeadIdeal P) (hs : s.skippedKeys = ∅) (hd : s.theirDhPublic = some d)
    {c : Chain K} (hc : s.receivingChain = some c) (rng : Nat → Arr 32) (N : Arr 24) (p aad : Bytes) :
    s.decrypt P rng d.1 c.index N (P.aeadSeal (messageKey P c.chainKey) N p aad) aad
      = (.ok p, s.afterChain P c) := by
  have hn : ∀ x : SkipKey, s.skippedKeys[x]? = none := by simp [hs]
  have hke : s.openingKey P d c.index = some (messageKey P c.chainKey) := by
    simp [openingKey, hn, chainFor, hd, hc, Chain.messageKeyAt_index]
  rcases decrypt_spec (P := P) s rng d c.index N
      (P.aeadSeal (messageKey P c.chainKey) N p aad) aad with
    ⟨k, q, s', hk, ho, hac, he⟩ | ⟨hno, -⟩
  · obtain rfl : messageKey P c.chainKey = k := Option.some.inj (hke.symm.trans hk)
    obtain rfl : p = q := Option.some.inj ((ha.open_seal _ _ _ _).symm.trans ho)
    rw [he]
    cases hac with
    | cached h => exact absurd (h.symm.trans (hn _)) (by simp)
    | chain c' _ _ hc' _ =>
      obtain rfl : c = c' := Option.some.inj (hc.symm.trans hc')
      rw [takeKey_index]
      rfl
    | ratchet _ hne _ => exact absurd hd hne
  · exact absurd ((hno _ hke).symm.trans (ha.open_seal _ _ _ _)) (by simp)

/-- The first message under a new ratchet key is accepted when its chain is the one derived. -/
theorem decrypt_ratchet (ha : AeadIdeal P) (hs : s.skippedKeys = ∅) (hd : s.theirDhPublic ≠ some d)
    (rng : Nat → Arr 32) (N : Arr 24) (p aad : Bytes) :
    s.decrypt P rng d.1 0 N (P.aeadSeal (messageKey P (s.receivingKeys P d).2) N p aad) aad
      = (.ok p, s.afterRatchet P (rng 0) d) := by
  have hn : ∀ x : SkipKey, s.skippedKeys[x]? = none := by simp [hs]
  have hi : (Chain.new (s.receivingKeys P d).2).messageKeyAt P 0
      = some (messageKey P (s.receivingKeys P d).2) :=
    Chain.messageKeyAt_index (Chain.new (s.receivingKeys P d).2)
  have hke : s.openingKey P d 0 = some (messageKey P (s.receivingKeys P d).2) := by
    simp [openingKey, hn, chainFor, hd, hi]
  rcases decrypt_spec (P := P) s rng d 0 N
      (P.aeadSeal (messageKey P (s.receivingKeys P d).2) N p aad) aad with
    ⟨k, q, s', hk, ho, hac, he⟩ | ⟨hno, -⟩
  · obtain rfl : messageKey P (s.receivingKeys P d).2 = k := Option.some.inj (hke.symm.trans hk)
    obtain rfl : p = q := Option.some.inj ((ha.open_seal _ _ _ _).symm.trans ho)
    rw [he]
    cases hac with
    | cached h => exact absurd (h.symm.trans (hn _)) (by simp)
    | chain c' _ h _ _ => exact absurd h hd
    | ratchet _ _ _ =>
      have ht := takeKey_index (P := P) (s.ratchetTrial P (rng 0) d s.mixedCandidate) d
        (Chain.new (s.receivingKeys P d).2)
      rw [show (Chain.new (s.receivingKeys P d).2).index = 0 from rfl] at ht
      rw [ht]
      rfl
  · exact absurd ((hno _ hke).symm.trans (ha.open_seal _ _ _ _)) (by simp)

/-- The session takes its next message from the chain `c` under the ratchet key `d`, and ends as `s'`. -/
inductive Expects (P : Primitives K) (s : RatchetSession K) (rng : Nat → Arr 32) (d : Arr 32) :
    Chain K → RatchetSession K → Prop where
  | next {c : Chain K} (hd : s.theirDhPublic = some d) (hc : s.receivingChain = some c) :
      Expects P s rng d c (s.afterChain P c)
  | ratchet (hd : s.theirDhPublic ≠ some d) :
      Expects P s rng d (Chain.new (s.receivingKeys P d).2) (s.afterRatchet P (rng 0) d)

/-- **The next message in order is accepted.** -/
theorem decrypt_expected (ha : AeadIdeal P) (hs : s.skippedKeys = ∅) {c : Chain K}
    (h : Expects P s rng d c s') (N : Arr 24) (p aad : Bytes) :
    s.decrypt P rng d.1 c.index N (P.aeadSeal (messageKey P c.chainKey) N p aad) aad
      = (.ok p, s') := by
  cases h with
  | next hd hc => exact decrypt_next ha hs hd hc rng N p aad
  | ratchet hd => exact decrypt_ratchet ha hs hd rng N p aad

theorem Expects.isPqHybrid {c : Chain K} (h : Expects P s rng d c s') : s'.isPqHybrid = s.isPqHybrid := by
  cases h <;> rfl

end RatchetSession

end SCMessenger
