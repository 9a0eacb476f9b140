import SCMessenger.Crypto.RatchetSpec

/-!
# Which keys of the ratchet can coincide

Under an ideal key derivation every key of a session remembers how it was made.
-/

namespace SCMessenger

variable {K : Type} {P : Primitives K}

/-! ## Contexts -/

theorem ratchetContext_ne (x : String) (v : String) :
    ratchetKdfContext ++ ":" ++ x ≠ "iron-core root-chain v" ++ v := by
  intro h
  have ht := congrArg (fun s => s.toList.take 12) h
  simp [ratchetKdfContext] at ht

theorem rootKdfContextV1_chain :
    rootKdfContextV1 ++ ":chain" = "iron-core root-chain v" ++ "1 2026-04-15:chain" := by decide

theorem rootKdfContextV2_chain :
    rootKdfContextV2 ++ ":chain" = "iron-core root-chain v" ++ "2 hybrid 2026-07:chain" := by decide

/-! ## Injectivity -/

theorem messageKey_inj (hk : KdfIdeal P) {a b : K} (h : messageKey P a = messageKey P b) : a = b := by
  have hm := (hk.inj _ _ _ _ h).2
  simpa using hm

theorem nextChainKey_inj (hk : KdfIdeal P) {a b : K} (h : nextChainKey P a = nextChainKey P b) :
    a = b := by
  have hm := (hk.inj _ _ _ _ h).2
  simpa using hm

theorem precedes_nextChainKey (ck : K) : Precedes P ck (nextChainKey P ck) :=
  Precedes.derive P (by simp)

theorem precedes_iterate (ck : K) : ∀ n, Precedes P ck ((nextChainKey P)^[n + 1] ck) := by
  intro n
  induction n with
  | zero => exact precedes_nextChainKey ck
  | succ n ih =>
    rw [Function.iterate_succ_apply']
    exact ih.trans (precedes_nextChainKey _)

/-- **A chain never returns to an earlier key.** -/
theorem iterate_nextChainKey_inj (hk : KdfIdeal P) (ck : K) {i j : Nat}
    (h : (nextChainKey P)^[i] ck = (nextChainKey P)^[j] ck) : i = j := by
  have hl : ∀ {i j : Nat}, i < j → (nextChainKey P)^[i] ck ≠ (nextChainKey P)^[j] ck := by
    intro i j hi he
    obtain ⟨d, rfl⟩ : ∃ d, j = (d + 1) + i := ⟨j - i - 1, by omega⟩
    rw [Function.iterate_add_apply] at he
    have hs := precedes_iterate (P := P) ((nextChainKey P)^[i] ck) d
    rw [← he] at hs
    exact Precedes.irrefl hk _ hs
  rcases Nat.lt_trichotomy i j with hi | hi | hi
  · exact absurd h (hl hi)
  · exact hi
  · exact absurd h.symm (hl hi)

variable {i : List (Material K)}

theorem rootKeyRatchet_snd_inj (hk : KdfIdeal P) {c c' : String} {i' : List (Material K)}
    (h : (rootKeyRatchet P c i).2 = (rootKeyRatchet P c' i').2) : i = i' := by
  have hm := (hk.inj _ _ _ _ h).2
  simp only [List.cons.injEq, Material.secret.injEq, and_true] at hm
  exact (hk.inj _ _ _ _ hm).2

theorem rootKeyRatchet_fst_inj (hk : KdfIdeal P) {c c' : String} {i' : List (Material K)}
    (h : (rootKeyRatchet P c i).1 = (rootKeyRatchet P c' i').1) : i = i' := by
  have hm := (hk.inj _ _ _ _ h).2
  simp only [List.cons.injEq, Material.secret.injEq, and_true] at hm
  exact (hk.inj _ _ _ _ hm).2

variable {r : K}

theorem precedes_rootKeyRatchet {c : String} (h : Material.secret r ∈ i) :
    Precedes P r (rootKeyRatchet P c i).1 :=
  (Precedes.derive P (c := c) h).trans (Precedes.derive P List.mem_cons_self)

/-! ## The root a chain stems from -/

/-- Either derivation of a root step. -/
inductive RootStep (P : Primitives K) (r : K) : K × K → Prop
  | v1 (dh : K) : RootStep P r (rootKeyRatchetV1 P r dh)
  | v2 (dh : K) (pq : Option K) : RootStep P r (rootKeyRatchetV2 P r dh pq)

theorem rootStep_spec (s : RatchetSession K) (r dh : K) (pq : Option K) :
    RootStep P r (s.rootStep P r dh pq) := by
  unfold RatchetSession.rootStep
  split
  · exact .v2 dh pq
  · exact .v1 dh

theorem RootStep.precedes {k : K × K} (h : RootStep P r k) : Precedes P r k.1 := by
  cases h with
  | v1 dh => exact precedes_rootKeyRatchet (by simp)
  | v2 dh pq => exact precedes_rootKeyRatchet (by simp)

theorem RootStep.root_unique (hk : KdfIdeal P) {r' : K} {k k' : K × K} (h : RootStep P r k)
    (h' : RootStep P r' k') (he : k.2 = k'.2) : r = r' := by
  cases h <;> cases h' <;>
    · have hi := rootKeyRatchet_snd_inj hk he
      simp only [List.cons_append, List.cons.injEq, Material.secret.injEq] at hi
      exact hi.1

variable {ck : K}

theorem RootStep.ne_nextChainKey (hk : KdfIdeal P) {k : K × K} (h : RootStep P r k) :
    nextChainKey P ck ≠ k.2 := by
  intro he
  cases h with
  | v1 dh =>
    have hc := (hk.inj _ _ _ _ he).1
    rw [rootKdfContextV1_chain] at hc
    exact ratchetContext_ne _ _ hc
  | v2 dh pq =>
    have hc := (hk.inj _ _ _ _ he).1
    rw [rootKdfContextV2_chain] at hc
    exact ratchetContext_ne _ _ hc

/-- `ChainFrom P r ck` : `ck` is a key of a chain derived from the root key `r`. -/
inductive ChainFrom (P : Primitives K) (r : K) : K → Prop
  | root {keys : K × K} (h : RootStep P r keys) : ChainFrom P r keys.2
  | next {ck : K} (h : ChainFrom P r ck) : ChainFrom P r (nextChainKey P ck)

theorem ChainFrom.of_next (hk : KdfIdeal P) (h : ChainFrom P r (nextChainKey P ck)) :
    ChainFrom P r ck := by
  generalize hx : nextChainKey P ck = x at h
  cases h with
  | root hr => exact absurd hx (hr.ne_nextChainKey hk)
  | next h => exact nextChainKey_inj hk hx ▸ h

theorem ChainFrom.of_iterate (hk : KdfIdeal P) :
    ∀ {n : Nat}, ChainFrom P r ((nextChainKey P)^[n] ck) → ChainFrom P r ck := by
  intro n
  induction n with
  | zero => exact id
  | succ n ih =>
    intro h
    rw [Function.iterate_succ_apply'] at h
    exact ih (h.of_next hk)

theorem ChainFrom.iterate (h : ChainFrom P r ck) : ∀ n, ChainFrom P r ((nextChainKey P)^[n] ck) := by
  intro n
  induction n with
  | zero => exact h
  | succ n ih =>
    rw [Function.iterate_succ_apply']
    exact ih.next

/-- **A chain key stems from at most one root key.** -/
theorem ChainFrom.root_unique (hk : KdfIdeal P) {r' : K} (h : ChainFrom P r ck) (h' : ChainFrom P r' ck) :
    r = r' := by
  induction h with
  | @root keys hr =>
    generalize hx : keys.2 = x at h'
    cases h' with
    | root hroot' => exact hr.root_unique hk hroot' hx
    | next h' => exact absurd hx.symm (hr.ne_nextChainKey hk)
  | next h ih => exact ih (h'.of_next hk)

end SCMessenger
