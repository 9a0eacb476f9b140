import SCMessenger.Crypto.KeySeparation
import SCMessenger.Crypto.Recovery
import SCMessenger.Lib.Run

/-!
# Replay

A key that opened a message is `Spent`: the session neither caches it nor can derive it again.  A session
built over an established one starts again from keys an old message opens under.
-/

namespace SCMessenger

variable {K : Type} {P : Primitives K}

/-! ## Well-formed sessions and spent keys -/

def FromRoot (P : Primitives K) (r k : K) : Prop := ∃ ck, ChainFrom P r ck ∧ k = messageKey P ck

/-- Cached keys are distinct and behind the chain, and all keys stem from earlier roots. -/
structure WellFormed (P : Primitives K) (s : RatchetSession K) : Prop where
  cached_inj : ∀ (x y : SkipKey) k, s.skippedKeys[x]? = some k → s.skippedKeys[y]? = some k → x = y
  cached_behind : ∀ (x : SkipKey) k c, s.skippedKeys[x]? = some k → s.receivingChain = some c →
    ∀ j, k ≠ messageKey P ((nextChainKey P)^[j] c.chainKey)
  cached_older : ∀ (x : SkipKey) k r, s.skippedKeys[x]? = some k → FromRoot P r k → Precedes P r s.rootKey
  chain_older : ∀ c r, s.receivingChain = some c → ChainFrom P r c.chainKey →
    Precedes P r s.rootKey

/-- A key the session will not use again. -/
structure Spent (P : Primitives K) (s : RatchetSession K) (k : K) : Prop where
  not_cached : ∀ x : SkipKey, s.skippedKeys[x]? ≠ some k
  not_ahead : ∀ c, s.receivingChain = some c →
    ∀ j, k ≠ messageKey P ((nextChainKey P)^[j] c.chainKey)
  older : ∀ r, FromRoot P r k → Precedes P r s.rootKey

/-- Two sessions with the same receiving keys. -/
structure SameKeys (s t : RatchetSession K) : Prop where
  root : s.rootKey = t.rootKey
  chain : s.receivingChain = t.receivingChain
  cache : s.skippedKeys = t.skippedKeys

variable {s t : RatchetSession K}

theorem WellFormed.congr (h : WellFormed P s) (e : SameKeys s t) : WellFormed P t := by
  constructor
  · rw [← e.cache]; exact h.cached_inj
  · rw [← e.cache, ← e.chain]; exact h.cached_behind
  · rw [← e.cache, ← e.root]; exact h.cached_older
  · rw [← e.chain, ← e.root]; exact h.chain_older

variable {k : K}

theorem Spent.congr (h : Spent P s k) (e : SameKeys s t) : Spent P t k := by
  constructor
  · rw [← e.cache]; exact h.not_cached
  · rw [← e.chain]; exact h.not_ahead
  · rw [← e.root]; exact h.older

theorem wellFormed_of_empty (hc : s.receivingChain = none) (hs : s.skippedKeys = ∅) : WellFormed P s := by
  constructor
  · intro x y k hx; simp [hs] at hx
  · intro x k c hx; simp [hs] at hx
  · intro x k r hx; simp [hs] at hx
  · intro c r hch; simp [hc] at hch

theorem getElem?_of_erase {m : SkippedKeys K} {x y : SkipKey} (h : (m.erase y)[x]? = some k) :
    m[x]? = some k := by
  rw [Std.ExtTreeMap.getElem?_erase] at h
  split at h
  · cases h
  · exact h

theorem FromRoot.of_iterate (hkdf : KdfIdeal P) {r ck : K} {j : Nat}
    (h : FromRoot P r (messageKey P ((nextChainKey P)^[j] ck))) : ChainFrom P r ck := by
  obtain ⟨ck', hc', he⟩ := h
  exact (messageKey_inj hkdf he ▸ hc').of_iterate hkdf

theorem FromRoot.intro {r ck : K} (h : ChainFrom P r ck) (j : Nat) :
    FromRoot P r (messageKey P ((nextChainKey P)^[j] ck)) :=
  ⟨_, h.iterate j, rfl⟩

/-! ## One accepted message -/

theorem chainFrom_receivingKeys (s : RatchetSession K) (d : Arr 32) :
    ChainFrom P s.rootKey (s.receivingKeys P d).2 :=
  .root (rootStep_spec s _ _ _)

theorem precedes_ratchetTrial (s : RatchetSession K) (x d : Arr 32) (c : Option K) :
    Precedes P s.rootKey (s.ratchetTrial P x d c).rootKey :=
  (rootStep_spec s s.rootKey _ _).precedes.trans (rootStep_spec s _ _ _).precedes

theorem after_ahead (c : Chain K) (n : UInt32) (j : Nat) :
    (nextChainKey P)^[j] (c.after P n).chainKey
      = (nextChainKey P)^[j + ((n - c.index).toNat + 1)] c.chainKey := by
  rw [Function.iterate_add_apply]
  rfl

theorem Spent.takeKey (h : Spent P s k) {c : Chain K} (hc : s.receivingChain = some c) (d : Arr 32)
    (n : UInt32) : Spent P (s.takeKey P d n c) k := by
  constructor
  · intro x hx
    rcases RatchetSession.skipMessageKeys_snd d n _ c _ x k hx with hx | ⟨i, -, -, hk⟩
    · exact h.not_cached x hx
    · exact h.not_ahead c hc i hk
  · intro c' hc' j
    cases hc'
    rw [after_ahead]
    exact h.not_ahead c hc _
  · exact h.older

section Step

variable (hkdf : KdfIdeal P)
include hkdf

theorem messageKey_iterate_inj {ck : K} {i j : Nat}
    (h : messageKey P ((nextChainKey P)^[i] ck) = messageKey P ((nextChainKey P)^[j] ck)) : i = j :=
  iterate_nextChainKey_inj hkdf ck (messageKey_inj hkdf h)

variable {s : RatchetSession K} {d : Arr 32} {k : K}

theorem older_ne_receivingKeys (h : ∀ r, FromRoot P r k → Precedes P r s.rootKey) (j : Nat) :
    k ≠ messageKey P ((nextChainKey P)^[j] (s.receivingKeys P d).2) := by
  rintro rfl
  exact Precedes.irrefl hkdf _ (h _ (FromRoot.intro (chainFrom_receivingKeys s d) j))

theorem WellFormed.ratchetTrial (h : WellFormed P s) (x d : Arr 32) (c : Option K) :
    WellFormed P (s.ratchetTrial P x d c) := by
  have hro := precedes_ratchetTrial (P := P) s x d c
  constructor
  · exact h.cached_inj
  · intro y k ch hy hc j
    cases hc
    exact older_ne_receivingKeys hkdf (fun r hr => h.cached_older y k r hy hr) j
  · intro y k r hy hr
    exact (h.cached_older y k r hy hr).trans hro
  · intro ch r hc hr
    cases hc
    obtain rfl := hr.root_unique hkdf (chainFrom_receivingKeys s d)
    exact hro

theorem Spent.ratchetTrial (h : Spent P s k) (x d : Arr 32) (c : Option K) :
    Spent P (s.ratchetTrial P x d c) k := by
  constructor
  · exact h.not_cached
  · intro ch hc j
    cases hc
    exact older_ne_receivingKeys hkdf h.older j
  · intro r hr
    exact (h.older r hr).trans (precedes_ratchetTrial s x d c)

theorem WellFormed.takeKey (h : WellFormed P s) {c : Chain K} (hc : s.receivingChain = some c) (d : Arr 32)
    (n : UInt32) : WellFormed P (s.takeKey P d n c) := by
  constructor
  · intro x y k hx hy
    rcases RatchetSession.skipMessageKeys_snd d n _ c _ x k hx with hx | ⟨i, -, hxi, hki⟩
    · rcases RatchetSession.skipMessageKeys_snd d n _ c _ y k hy with hy | ⟨j, -, -, hk⟩
      · exact h.cached_inj x y k hx hy
      · exact absurd hk (h.cached_behind x k c hx hc j)
    · rcases RatchetSession.skipMessageKeys_snd d n _ c _ y k hy with hy | ⟨j, -, hyj, hk⟩
      · exact absurd hki (h.cached_behind y k c hy hc i)
      · obtain rfl := messageKey_iterate_inj hkdf (hki.symm.trans hk)
        exact hxi.trans hyj.symm
  · intro x k c' hx hc' j
    cases hc'
    rw [after_ahead]
    rcases RatchetSession.skipMessageKeys_snd d n _ c _ x k hx with hx | ⟨i, hi, -, rfl⟩
    · exact h.cached_behind x k c hx hc _
    · intro he
      have := messageKey_iterate_inj hkdf he
      omega
  · intro x k r hx hr
    rcases RatchetSession.skipMessageKeys_snd d n _ c _ x k hx with hx | ⟨i, -, -, rfl⟩
    · exact h.cached_older x k r hx hr
    · exact h.chain_older c r hc (hr.of_iterate hkdf)
  · intro c' r hc' hr
    cases hc'
    exact h.chain_older c r hc (hr.of_iterate hkdf)

variable {n : UInt32}

theorem takeKey_spent (h : WellFormed P s) {c : Chain K} (hc : s.receivingChain = some c)
    (hk : c.messageKeyAt P n = some k) : Spent P (s.takeKey P d n c) k := by
  obtain ⟨-, -, rfl⟩ := Chain.messageKeyAt_eq_some hk
  constructor
  · intro x hx
    rcases RatchetSession.skipMessageKeys_snd d n _ c _ x _ hx with hx | ⟨i, hi, -, he⟩
    · exact h.cached_behind x _ c hx hc _ rfl
    · have := messageKey_iterate_inj hkdf he
      omega
  · intro c' hc' j he
    cases hc'
    rw [after_ahead] at he
    have := messageKey_iterate_inj hkdf he
    omega
  · intro r hr
    exact h.chain_older c r hc (hr.of_iterate hkdf)

variable {s' : RatchetSession K} {rng : Nat → Arr 32}

theorem Accepted.wellFormed (h : WellFormed P s) (ha : RatchetSession.Accepted P s rng d n k s') :
    WellFormed P s' := by
  cases ha with
  | cached hs =>
    constructor
    · intro x y k hx hy
      exact h.cached_inj x y k (getElem?_of_erase hx) (getElem?_of_erase hy)
    · intro x k c hx
      exact h.cached_behind x k c (getElem?_of_erase hx)
    · intro x k r hx
      exact h.cached_older x k r (getElem?_of_erase hx)
    · exact h.chain_older
  | chain c hs hd hc hk => exact (h.takeKey hkdf hc d n).congr ⟨rfl, rfl, rfl⟩
  | ratchet hs hd hk =>
    exact ((h.ratchetTrial hkdf (rng 0) d s.mixedCandidate).takeKey hkdf rfl d n).congr
      ⟨rfl, rfl, rfl⟩

/-- **An accepted message spends its key.** -/
theorem Accepted.spent (h : WellFormed P s) (ha : RatchetSession.Accepted P s rng d n k s') :
    Spent P s' k := by
  cases ha with
  | cached hs =>
    constructor
    · intro x hx
      obtain rfl := h.cached_inj x (d, n) k (getElem?_of_erase hx) hs
      simp at hx
    · intro c hc
      exact h.cached_behind (d, n) k c hs hc
    · intro r
      exact h.cached_older (d, n) k r hs
  | chain c hs hd hc hk => exact (takeKey_spent hkdf h hc hk).congr ⟨rfl, rfl, rfl⟩
  | ratchet hs hd hk =>
    exact (takeKey_spent hkdf (h.ratchetTrial hkdf (rng 0) d s.mixedCandidate) rfl hk).congr
      ⟨rfl, rfl, rfl⟩

/-- **Spent keys stay spent.** -/
theorem Accepted.keepsSpent {k₀ : K} (h : Spent P s k₀) (ha : RatchetSession.Accepted P s rng d n k s') :
    Spent P s' k₀ := by
  cases ha with
  | cached hs =>
    exact ⟨fun x hx => h.not_cached x (getElem?_of_erase hx), h.not_ahead, h.older⟩
  | chain c hs hd hc hk => exact (h.takeKey hc d n).congr ⟨rfl, rfl, rfl⟩
  | ratchet hs hd hk =>
    exact ((h.ratchetTrial hkdf (rng 0) d s.mixedCandidate).takeKey rfl d n).congr
      ⟨rfl, rfl, rfl⟩

/-- **A spent key opens nothing.** -/
theorem Spent.openingKey_ne (h : Spent P s k) (d : Arr 32) (n : UInt32) : s.openingKey P d n ≠ some k := by
  unfold RatchetSession.openingKey RatchetSession.chainFor
  intro hk
  split at hk
  · rename_i k' hca
    exact h.not_cached _ (hca.trans hk)
  · split at hk
    · obtain ⟨c, hc, hck⟩ := Option.bind_eq_some_iff.mp hk
      obtain ⟨-, -, he⟩ := Chain.messageKeyAt_eq_some hck
      exact h.not_ahead c hc _ he
    · obtain ⟨-, -, he⟩ := Chain.messageKeyAt_eq_some hk
      exact older_ne_receivingKeys hkdf h.older _ he

end Step

/-! ## One call of the receive path -/

def OpenedBy (P : Primitives K) (w : WireEnvelope) (k : K) : Prop :=
  ∃ (N : Arr 24) (p : Bytes), P.aeadOpen k N w.ciphertext w.senderPublicKey = some p

variable {w : WireEnvelope}

theorem OpenedBy.unique (ha : AeadIdeal P) {k' : K} (h : OpenedBy P w k) (h' : OpenedBy P w k') :
    k = k' := by
  obtain ⟨N, p, ho⟩ := h
  obtain ⟨N', p', ho'⟩ := h'
  exact ha.key_unique ho ho'

/-- What an attempt to decrypt `w` does to the keys of a well-formed session. -/
structure SpendsKeys (P : Primitives K) (w : WireEnvelope)
    (attempt : (Nat → Arr 32) → RatchetSession K → Except String Bytes × RatchetSession K) :
    Prop where
  wellFormed : ∀ rng s, WellFormed P s → WellFormed P (attempt rng s).2
  keepsSpent : ∀ rng s k, Spent P s k → Spent P (attempt rng s).2 k
  spends : ∀ rng s p s', WellFormed P s → attempt rng s = (.ok p, s') →
    ∃ k, OpenedBy P w k ∧ ¬ Spent P s k ∧ Spent P s' k

theorem sameKeys_absorbPqFields (s : RatchetSession K) (e : EnvelopeV2) (n : UInt32) :
    SameKeys s (absorbPqFields P s e n).2 := by
  rcases absorbPqFields_cases (P := P) s e n with ⟨_, h⟩ | h | ⟨_, _, _, _, _, _, _, _, h⟩ <;>
    rw [h] <;> exact ⟨rfl, rfl, rfl⟩

theorem OpensV2.sameKeys {s₁ : RatchetSession K} {e : EnvelopeV2} {d : Arr 32} {n : UInt32} {p : Bytes}
    (h : OpensV2 P s s₁ e d n k p) : SameKeys s s₁ := by
  have hs := sameKeys_absorbPqFields (P := P) s e n
  rwa [h.absorb] at hs

theorem sameKeys_sessionAfterReject (s : RatchetSession K) (e : EnvelopeV2) :
    SameKeys s (sessionAfterReject P s e) := by
  unfold sessionAfterReject
  split
  · split
    · exact ⟨rfl, rfl, rfl⟩
    · exact sameKeys_absorbPqFields _ _ _
  · exact ⟨rfl, rfl, rfl⟩

theorem spendsKeysV1 (hkdf : KdfIdeal P) (e : Envelope) :
    SpendsKeys P (.v1 e) (fun rng s => decryptMessageRatcheted P rng s e) where
  wellFormed rng s hs := by
    rcases decryptMessageRatcheted_spec (P := P) s rng e with
      ⟨d, n, k, p, s', -, ha, he⟩ | ⟨-, err, he⟩
    · simp only [he]
      exact Accepted.wellFormed hkdf hs ha
    · simpa only [he] using hs
  keepsSpent rng s k hs := by
    rcases decryptMessageRatcheted_spec (P := P) s rng e with
      ⟨d, n, k, p, s', -, ha, he⟩ | ⟨-, err, he⟩
    · simp only [he]
      exact Accepted.keepsSpent hkdf hs ha
    · simpa only [he] using hs
  spends rng s p s' hs hok := by
    rcases decryptMessageRatcheted_spec (P := P) s rng e with
      ⟨d, n, k, p', s'', hop, ha, he⟩ | ⟨-, err, he⟩
    · cases he.symm.trans hok
      obtain ⟨N, -, ho⟩ := hop.opens
      exact ⟨k, ⟨N, p, ho⟩, fun hsp => hsp.openingKey_ne hkdf d n hop.key,
        Accepted.spent hkdf hs ha⟩
    · cases he.symm.trans hok

theorem spendsKeysV2 (hkdf : KdfIdeal P) (e : EnvelopeV2) :
    SpendsKeys P (.v2 e) (fun rng s => decryptMessageRatchetedV2 P rng s e) where
  wellFormed rng s hs := by
    rcases decryptMessageRatchetedV2_spec (P := P) s rng e with
      ⟨s₁, d, n, k, p, s', hop, ha, he⟩ | ⟨-, err, he⟩
    · simp only [he]
      have hsa := hop.sameKeys
      exact Accepted.wellFormed hkdf (hs.congr hsa) ha
    · simp only [he]
      exact hs.congr (sameKeys_sessionAfterReject s e)
  keepsSpent rng s k hs := by
    rcases decryptMessageRatchetedV2_spec (P := P) s rng e with
      ⟨s₁, d, n, k, p, s', hop, ha, he⟩ | ⟨-, err, he⟩
    · simp only [he]
      have hsa := hop.sameKeys
      exact Accepted.keepsSpent hkdf (hs.congr hsa) ha
    · simp only [he]
      exact hs.congr (sameKeys_sessionAfterReject s e)
  spends rng s p s' hs hok := by
    rcases decryptMessageRatchetedV2_spec (P := P) s rng e with
      ⟨s₁, d, n, k, p', s'', hop, ha, he⟩ | ⟨-, err, he⟩
    · cases he.symm.trans hok
      have hsa := hop.sameKeys
      obtain ⟨N, -, ho⟩ := hop.opens.opens
      exact ⟨k, ⟨N, p, ho⟩, fun hsp => (hsp.congr hsa).openingKey_ne hkdf d n hop.opens.key,
        Accepted.spent hkdf (hs.congr hsa) ha⟩
    · cases he.symm.trans hok

/-! ## Runs -/

/-- One call of the receive path. -/
structure ReceiveCall where
  draws : ReceiveDraws
  keys : ReceiverKeys
  wire : WireEnvelope

/-- A node that receives: its sessions, and the ratcheted envelopes it decrypted so far. -/
structure Receiver (K : Type) where
  manager : RatchetSessionManager K
  decrypted : List WireEnvelope

def Receiver.step (P : Primitives K) (r : Receiver K) (call : ReceiveCall) : Receiver K :=
  match decryptWithRatchetFallback P call.draws call.keys call.wire (some r.manager) with
  | (.ok _, m) =>
    ⟨m.getD r.manager, if call.wire.isRatcheted then r.decrypted ++ [call.wire] else r.decrypted⟩
  | (_, m) => ⟨m.getD r.manager, r.decrypted⟩

/-- A stored session accepts the envelope, or no session can be built over it. -/
def KeepsStored (build : Arr 32 → Outcome String (RatchetSession K)) (acc : RatchetSession K → Prop)
    (stored : Option (RatchetSession K)) : Prop :=
  ∀ s, stored = some s → acc s ∨ ∀ x t, build x ≠ .ok t

def KeepsSession (P : Primitives K) (r : Receiver K) (call : ReceiveCall) : Prop :=
  match call.wire with
  | .v1 e => isRatchetedEnvelope e = false
      ∨ KeepsStored (initReceiverV1Session P call.keys e) (AcceptsV1 P e)
          (r.manager.sessions (peerIdOf P e.senderPublicKey))
  | .v2 e => KeepsStored (initReceiverV2Session P call.keys e) (AcceptsV2 P e)
      (r.manager.sessions (peerIdOf P e.senderPublicKey))

/-- Every decrypted envelope belongs to a stored session in which its key is spent. -/
structure NoReplay (P : Primitives K) (m : RatchetSessionManager K) (A : List WireEnvelope) :
    Prop where
  wellFormed : ∀ p s, m.sessions p = some s → WellFormed P s
  spent : ∀ w ∈ A, ∃ s k, m.sessions (peerIdOf P w.senderPublicKey) = some s ∧ OpenedBy P w k
    ∧ Spent P s k
  nodup : A.Nodup

variable {m : RatchetSessionManager K} {A : List WireEnvelope}

theorem NoReplay.insert (h : NoReplay P m A) {p : String} (ht : WellFormed P t)
    (hk : ∀ s k, m.sessions p = some s → Spent P s k → Spent P t k) : NoReplay P (m.insert p t) A := by
  constructor
  · intro q s hs
    by_cases hq : q = p
    · subst hq
      rw [RatchetSessionManager.insert_sessions_self] at hs
      cases hs
      exact ht
    · rw [RatchetSessionManager.insert_sessions_of_ne m t hq] at hs
      exact h.wellFormed q s hs
  · intro w hw
    obtain ⟨s, k, hs, ho, hsp⟩ := h.spent w hw
    by_cases hq : peerIdOf P w.senderPublicKey = p
    · refine ⟨t, k, ?_, ho, hk s k (hq ▸ hs) hsp⟩
      rw [hq, RatchetSessionManager.insert_sessions_self]
    · refine ⟨s, k, ?_, ho, hsp⟩
      rw [RatchetSessionManager.insert_sessions_of_ne m t hq, hs]
  · exact h.nodup

theorem NoReplay.record (h : NoReplay P m A) (hw : w ∉ A)
    (ht : m.sessions (peerIdOf P w.senderPublicKey) = some t) (ho : OpenedBy P w k)
    (hs : Spent P t k) : NoReplay P m (A ++ [w]) := by
  constructor
  · exact h.wellFormed
  · intro w' hw'
    rcases mem_concat.mp hw' with hol | rfl
    · exact h.spent w' hol
    · exact ⟨t, k, ht, ho, hs⟩
  · rw [List.nodup_append]
    refine ⟨h.nodup, by simp, ?_⟩
    rintro a ha b hb rfl
    obtain rfl := List.mem_singleton.mp hb
    exact hw ha

section Call

variable {build : Arr 32 → Outcome String (RatchetSession K)} {w : WireEnvelope}
  {attempt : (Nat → Arr 32) → RatchetSession K → Except String Bytes × RatchetSession K}
  {acc : RatchetSession K → Prop} {left : RatchetSession K → RatchetSession K}
  {m : RatchetSessionManager K} {A : List WireEnvelope}

variable {s : RatchetSession K}

theorem NoReplay.store (hS : SpendsKeys P w attempt) (h : NoReplay P m A) {pid : String}
    (hs : WellFormed P s) (hst : ∀ s₀, m.sessions pid = some s₀ → s₀ = s) (rng : Nat → Arr 32) :
    NoReplay P (m.insert pid (attempt rng s).2) A := by
  refine h.insert (hS.wellFormed rng s hs) ?_
  intro s₀ k hs₀ hk
  obtain rfl := hst s₀ hs₀
  exact hS.keepsSpent rng s₀ k hk

/-- **One accepted envelope is new**: had it been decrypted before, its key would be spent. -/
theorem NoReplay.accept (ha : AeadIdeal P) (hS : SpendsKeys P w attempt) (h : NoReplay P m A)
    {s' : RatchetSession K} (hs : WellFormed P s)
    (hst : ∀ s₀, m.sessions (peerIdOf P w.senderPublicKey) = some s₀ → s₀ = s) {rng : Nat → Arr 32}
    {p : Bytes} (hr : attempt rng s = (.ok p, s')) :
    NoReplay P (m.insert (peerIdOf P w.senderPublicKey) s') (A ++ [w]) := by
  obtain ⟨k, ho, hu, hsp⟩ := hS.spends rng s p s' hs hr
  have hk := h.store hS hs hst rng
  rw [hr] at hk
  refine hk.record ?_ (RatchetSessionManager.insert_sessions_self _ _ _) ho hsp
  intro hw
  obtain ⟨s₀, k₀, hs₀, ho₀, hsp₀⟩ := h.spent w hw
  obtain rfl := hst s₀ hs₀
  obtain rfl := ho.unique ha ho₀
  exact hu hsp₀

def Recorded (P : Primitives K) (w : WireEnvelope) (A : List WireEnvelope)
    (r : Outcome String Bytes × RatchetSessionManager K) : Prop :=
  (∃ p, r.1 = .ok p ∧ NoReplay P r.2 (A ++ [w])) ∨ ((∀ p, r.1 ≠ .ok p) ∧ NoReplay P r.2 A)

theorem NoReplay.tryThenRebuild (ha : AeadIdeal P) (hB : BuildsReceiver P build)
    (hS : SpendsKeys P w attempt) (h : NoReplay P m A) (re : String → String → String)
    (dr : ReceiveDraws) (hs : WellFormed P s)
    (hst : ∀ s₀, m.sessions (peerIdOf P w.senderPublicKey) = some s₀ → s₀ = s)
    (hf : ∀ e s' t, attempt dr.firstTry s = (.error e, s') →
      build dr.rebuildSecret = .ok t → m.sessions (peerIdOf P w.senderPublicKey) = none) :
    Recorded P w A (SCMessenger.tryThenRebuild build attempt re dr
      (peerIdOf P w.senderPublicKey) m s) := by
  unfold SCMessenger.tryThenRebuild
  have hk := h.store hS hs hst dr.firstTry
  cases hr : attempt dr.firstTry s with
  | mk r s' =>
  rw [hr] at hk
  cases r with
  | ok p => exact .inl ⟨p, rfl, h.accept ha hS hs hst hr⟩
  | error e =>
  simp only
  cases hb : build dr.rebuildSecret with
  | panicked => exact .inr ⟨by simp, hk⟩
  | err e' => exact .inr ⟨by simp, hk⟩
  | ok t =>
  have hn := hf e s' t hr hb
  have hs' : ∀ s₀, m.sessions (peerIdOf P w.senderPublicKey) = some s₀ → s₀ = t :=
    fun s₀ hs₀ => by rw [hn] at hs₀; cases hs₀
  have ht := wellFormed_of_empty (P := P) (hB.fresh hb).receivingChain (hB.fresh hb).skippedKeys
  have hk' := h.store hS ht hs' dr.retry
  cases hr' : attempt dr.retry t with
  | mk r' t' =>
  rw [hr'] at hk'
  cases r' with
  | ok p => exact .inl ⟨p, by simp only [hr'], by simpa only [hr'] using h.accept ha hS ht hs' hr'⟩
  | error e' => exact .inr ⟨by simp [hr'], by simpa only [hr'] using hk'⟩

/-- A call that replaces no established session decrypts nothing that was decrypted before. -/
theorem NoReplay.withRecovery (ha : AeadIdeal P) (hA : Attempts P attempt acc left)
    (hB : BuildsReceiver P build) (hS : SpendsKeys P w attempt) (h : NoReplay P m A)
    (hk : KeepsStored build acc (m.sessions (peerIdOf P w.senderPublicKey)))
    (r : String → String → String) (dr : ReceiveDraws) :
    Recorded P w A (SCMessenger.withRecovery build attempt r dr
      (peerIdOf P w.senderPublicKey) m) := by
  unfold SCMessenger.withRecovery
  cases hs : m.sessions (peerIdOf P w.senderPublicKey) with
  | some s =>
    refine h.tryThenRebuild ha hB hS r dr (h.wellFormed _ s hs)
      (fun s₀ hs₀ => Option.some.inj (hs₀.symm.trans hs)) ?_
    intro e s' t hr hb
    -- the stored session rejects, so no session can be built over it
    rcases hk s hs with hac | hn
    · rcases hA.cases dr.firstTry s with ⟨-, p, s'', ho⟩ | ⟨hre, -⟩
      · cases ho.symm.trans hr
      · exact absurd hac hre
    · exact absurd hb (hn _ t)
  | none =>
    simp only
    cases hb : build dr.initSecret with
    | panicked => exact .inr ⟨by simp, h⟩
    | err e => exact .inr ⟨by simp, h⟩
    | ok s =>
      refine h.tryThenRebuild ha hB hS r dr
        (wellFormed_of_empty (hB.fresh hb).receivingChain (hB.fresh hb).skippedKeys) ?_ ?_
      · intro s₀ hs₀
        rw [hs] at hs₀
        cases hs₀
      · intro _ _ _ _ _
        exact hs

end Call

theorem NoReplay.forget (h : NoReplay P m (A ++ [w])) : NoReplay P m A where
  wellFormed := h.wellFormed
  spent w' hw' := h.spent w' (List.mem_append_left _ hw')
  nodup := (List.nodup_append.mp h.nodup).1

theorem Receiver.step_of_recorded {r : Receiver K} {c : ReceiveCall}
    {res : Outcome String Bytes × RatchetSessionManager K} (h : Recorded P c.wire r.decrypted res)
    (hr : decryptWithRatchetFallback P c.draws c.keys c.wire (some r.manager)
      = (res.1, some res.2)) :
    NoReplay P (r.step P c).manager (r.step P c).decrypted := by
  unfold Receiver.step
  rw [hr]
  rcases h with ⟨p, ho, hn⟩ | ⟨hf, hn⟩
  · simp only [ho, Option.getD_some]
    split
    · exact hn
    · exact hn.forget
  · cases hre : res.1 with
    | ok p => exact absurd hre (hf p)
    | err e => exact hn
    | panicked => exact hn

/-- **One step of a receiver** that replaces no established session. -/
theorem Receiver.step_noReplay (hkdf : KdfIdeal P) (ha : AeadIdeal P) (r : Receiver K)
    (c : ReceiveCall) (h : NoReplay P r.manager r.decrypted) (hk : KeepsSession P r c) :
    NoReplay P (r.step P c).manager (r.step P c).decrypted := by
  obtain ⟨draws, keys, wi⟩ := c
  cases wi with
  | v1 e =>
    by_cases hr : isRatchetedEnvelope e = true
    · rcases hk with hn | hk
      · exact absurd (hr.symm.trans hn) (by simp)
      refine Receiver.step_of_recorded (h.withRecovery ha (attemptsV1 e)
        (initReceiverV1Session_builds keys e) (spendsKeysV1 hkdf e) hk
        (fun _ b => b) draws) ?_
      simp only [decryptWithRatchetFallback, hr, if_true]
      rfl
    · -- an envelope without ratchet fields touches neither the sessions nor the record
      have hp : (WireEnvelope.v1 e).isRatcheted = false := Bool.not_eq_true _ ▸ hr
      unfold Receiver.step
      simp only [decryptWithRatchetFallback, hr, hp, Bool.false_eq_true, if_false]
      cases Outcome.ofExcept (decryptMessage P keys.signingKey e) with
      | ok p => exact h
      | err err => exact h
      | panicked => exact h
  | v2 e =>
    exact Receiver.step_of_recorded (h.withRecovery ha (attemptsV2 e)
      (initReceiverV2Session_builds keys e) (spendsKeysV2 hkdf e) hk
      (fun f _ => f) draws) rfl

/-- **No replay**, over any run whose calls replace no established session. -/
theorem received_nodup (hkdf : KdfIdeal P) (haead : AeadIdeal P) (m : RatchetSessionManager K)
    (hm : ∀ p s, m.sessions p = some s → WellFormed P s) (calls : List ReceiveCall)
    (hcalls : Guarded (KeepsSession P) (Receiver.step P) ⟨m, []⟩ calls) :
    (calls.foldl (Receiver.step P) ⟨m, []⟩).decrypted.Nodup := by
  have hi : NoReplay P m [] := ⟨hm, by simp, List.nodup_nil⟩
  exact (hcalls.invariant (fun r => NoReplay P r.manager r.decrypted)
    (Receiver.step_noReplay hkdf haead) hi).nodup

/-! ## Runs between Alice and Bob -/

def bobReceives (x : UInt8) (wire : WireEnvelope) : ReceiveCall :=
  ⟨drawsWith (Arr.fit 32 [x]), bobClassicalKeys, wire⟩

def classicalMessages : List WireEnvelope :=
  let s := RatchetSession.initAsSender termPrimitives (Arr.fit 32 [7]) alice.signingKey bob.signingKey
  let first := encryptMessageRatcheted termPrimitives (sampleSendDraws 1) alice.signingKey s
    (ascii "hi")
  let second := encryptMessageRatcheted termPrimitives (sampleSendDraws 2) alice.signingKey first.2
    (ascii "there")
  first.1.toOption.toList ++ second.1.toOption.toList

def classicalCalls : List ReceiveCall := classicalMessages.map (bobReceives 8)

def storedDecrypts (P : Primitives K) (r : Receiver K) (call : ReceiveCall) : Bool :=
  match r.manager.sessions (peerIdOf P call.wire.senderPublicKey), call.wire with
  | none, _ => true
  | some s, .v1 e => (decryptMessageRatcheted P call.draws.firstTry s e).1.toBool
  | some s, .v2 e => (decryptMessageRatchetedV2 P call.draws.firstTry s e).1.toBool

theorem keepsSession_of_storedDecrypts {r : Receiver K} {c : ReceiveCall}
    (h : storedDecrypts P r c = true) : KeepsSession P r c := by
  obtain ⟨draws, keys, wi⟩ := c
  cases wi with
  | v1 e =>
    right
    intro s hs
    have hs' : r.manager.sessions (peerIdOf P (WireEnvelope.v1 e).senderPublicKey) = some s := hs
    simp only [storedDecrypts, hs'] at h
    rcases (attemptsV1 e).cases (P := P) draws.firstTry s with ⟨ha, -⟩ | ⟨-, err, he⟩
    · exact .inl ha
    · rw [he] at h
      cases h
  | v2 e =>
    intro s hs
    have hs' : r.manager.sessions (peerIdOf P (WireEnvelope.v2 e).senderPublicKey) = some s := hs
    simp only [storedDecrypts, hs'] at h
    rcases (attemptsV2 e).cases (P := P) draws.firstTry s with ⟨ha, -⟩ | ⟨-, err, he⟩
    · exact .inl ha
    · rw [he] at h
      cases h

/-- Bob decrypts both messages of a classical conversation, each once. -/
theorem received_nodup_classical :
    (classicalCalls.foldl (Receiver.step termPrimitives) ⟨.new, []⟩).decrypted.length = 2
      ∧ (classicalCalls.foldl (Receiver.step termPrimitives) ⟨.new, []⟩).decrypted.Nodup := by
  -- one evaluation of the run for both facts
  obtain ⟨hr, hl⟩ : Guarded (fun r c => storedDecrypts termPrimitives r c = true)
        (Receiver.step termPrimitives) ⟨.new, []⟩ classicalCalls
      ∧ (classicalCalls.foldl (Receiver.step termPrimitives) ⟨.new, []⟩).decrypted.length = 2 := by
    decide +kernel
  exact ⟨hl, received_nodup termKdf termAead .new (by simp [RatchetSessionManager.new])
    classicalCalls (hr.mono fun _ _ => keepsSession_of_storedDecrypts)⟩

def replayedRun : Receiver Term :=
  ((classicalMessages.take 1 ++ classicalMessages.take 1).map (bobReceives 8)).foldl
    (Receiver.step termPrimitives) ⟨.new, []⟩

/-- **Failing input**: the message that is delivered twice is decrypted twice. -/
theorem replay_accepted : replayedRun.decrypted.length = 2 ∧ ¬ replayedRun.decrypted.Nodup := by
  decide +kernel

end SCMessenger
