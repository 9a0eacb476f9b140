import SCMessenger.Crypto.SessionManager

/-!
# What a failed decryption leaves behind

A message that is rejected makes the receive path build a receiver session over it, which stays even when
the retry fails.
-/

namespace SCMessenger

variable {K : Type} {P : Primitives K}

/-! ## Freshly built receiver sessions -/

def RatchetSession.withDh (P : Primitives K) (x : Arr 32) (s : RatchetSession K) :
    RatchetSession K :=
  { s with ourDhSecret := x, ourDhPublic := P.x25519Public x }

/-- A receiver session nothing was decrypted with yet. -/
structure FreshReceiver (s : RatchetSession K) : Prop where
  theirDhPublic : s.theirDhPublic = none
  sendingChain : s.sendingChain = none
  receivingChain : s.receivingChain = none
  skippedKeys : s.skippedKeys = ∅
  identity : s.ourIdentitySecret.isSome
  unconfirmed : s.peerConfirmed = false
  pendingSent : s.pqPendingSent = none
  pendingRecv : s.pqPendingRecv = none

/-- The drawn secret becomes the ratchet keypair and decides nothing else. -/
def BuildsReceiver (P : Primitives K) (build : Arr 32 → Outcome String (RatchetSession K)) : Prop :=
  ∃ r : Outcome String (RatchetSession K), (∀ x, build x = r.map (RatchetSession.withDh P x))
    ∧ ∀ s, r = .ok s → FreshReceiver s

variable {s : RatchetSession K}

theorem FreshReceiver.withDh (h : FreshReceiver s) (x : Arr 32) : FreshReceiver (s.withDh P x) :=
  ⟨h.1, h.2, h.3, h.4, h.5, h.6, h.7, h.8⟩

theorem BuildsReceiver.fresh {build : Arr 32 → Outcome String (RatchetSession K)}
    (h : BuildsReceiver P build) {x : Arr 32} (hs : build x = .ok s) : FreshReceiver s := by
  obtain ⟨r, hr, hf⟩ := h
  rw [hr] at hs
  cases r with
  | ok t =>
    cases hs
    exact (hf t rfl).withDh x
  | err e => cases hs
  | panicked => cases hs

theorem buildsReceiver_const (o : Outcome String (RatchetSession K)) (h : ∀ s, o ≠ .ok s) :
    BuildsReceiver P (fun _ => o) := by
  refine ⟨o, fun x => ?_, fun s hs => absurd hs (h s)⟩
  cases o with
  | ok s => exact absurd rfl (h s)
  | err e => rfl
  | panicked => rfl

theorem buildsReceiver_ok (f : Arr 32 → RatchetSession K) (h : ∀ x y, f x = (f y).withDh P x)
    (hf : ∀ x, FreshReceiver (f x)) : BuildsReceiver P (fun x => .ok (f x)) := by
  refine ⟨.ok (f (Arr.fit 32 [])), fun x => ?_, fun s hs => ?_⟩
  · exact congrArg Outcome.ok (h x _)
  · cases hs
    exact hf _

theorem freshReceiver_receiverState (x : Arr 32) (r : K) (i : Arr 32) :
    FreshReceiver (RatchetSession.receiverState P x r i) :=
  ⟨rfl, rfl, rfl, rfl, rfl, rfl, rfl, rfl⟩

theorem initReceiverV1Session_builds (k : ReceiverKeys) (e : Envelope) :
    BuildsReceiver P (initReceiverV1Session P k e) := by
  unfold initReceiverV1Session
  cases Arr.ofBytes? 32 e.senderPublicKey with
  | none => exact buildsReceiver_const _ (by simp)
  | some se =>
    cases hx : ed25519PublicToX25519 P se with
    | error err => simp only [hx]; exact buildsReceiver_const _ (by simp)
    | ok sx =>
      simp only [hx]
      exact buildsReceiver_ok _ (fun _ _ => rfl) fun x => freshReceiver_receiverState _ _ _

theorem receiverSessionHybrid_builds (sk x25519Secret : Arr 32) (kp : MlKem768KeyPair)
    (o t : PublicKeyBundle) (hct : Option HybridCiphertext) :
    BuildsReceiver P fun x => .ofExcept
      (receiverSessionHybrid P x sk x25519Secret kp o t hct) := by
  unfold receiverSessionHybrid
  cases negotiateSuite P t.supportedSuites o.supportedSuites t.ed25519Public
      o.ed25519Public with
  | error e => exact buildsReceiver_const _ (by simp)
  | ok sh =>
  obtain ⟨st, hash⟩ := sh
  -- both hybrid suites go through one construction
  have hh : ∀ (su : UInt8) (r : K → K) (h : HybridCiphertext),
      BuildsReceiver P fun x => .ofExcept
        (RatchetSession.initAsReceiverWith P su r x x25519Secret kp h hash) := by
    intro su r h
    unfold RatchetSession.initAsReceiverWith
    cases hybridDecapsulate P x25519Secret kp h with
    | error e => exact buildsReceiver_const _ (by simp)
    | ok ss =>
      exact buildsReceiver_ok _ (fun _ _ => rfl)
        fun x => ⟨rfl, rfl, rfl, rfl, rfl, rfl, rfl, rfl⟩
  simp only
  split
  · cases hct with
    | none => exact buildsReceiver_const _ (by simp)
    | some h => exact hh _ _ _
  · split
    · cases hct with
      | none => exact buildsReceiver_const _ (by simp)
      | some h => exact hh _ _ _
    · exact buildsReceiver_ok _ (fun _ _ => rfl)
        fun x => ⟨rfl, rfl, rfl, rfl, rfl, rfl, rfl, rfl⟩

theorem initReceiverV2Session_builds (k : ReceiverKeys) (e : EnvelopeV2) :
    BuildsReceiver P (initReceiverV2Session P k e) := by
  unfold initReceiverV2Session
  cases k.mlkemKeypair with
  | none => exact buildsReceiver_const _ (by simp)
  | some kp =>
  cases k.ourBundle with
  | none => exact buildsReceiver_const _ (by simp)
  | some o =>
  cases k.senderBundle with
  | none => exact buildsReceiver_const _ (by simp)
  | some t =>
  simp only
  cases bootstrapCiphertext e with
  | panicked => exact buildsReceiver_const _ (by simp)
  | err err => exact buildsReceiver_const _ (by simp)
  | ok hct =>
  cases k.x25519Secret with
  | none => exact buildsReceiver_const _ (by simp)
  | some x => exact receiverSessionHybrid_builds _ _ _ _ _ _

/-! ## The common pattern -/

/-- An attempt accepts the sessions in `acc`, leaves `left s` of others, whatever keypair was drawn. -/
structure Attempts (P : Primitives K)
    (attempt : (Nat → Arr 32) → RatchetSession K → Except String Bytes × RatchetSession K)
    (acc : RatchetSession K → Prop) (left : RatchetSession K → RatchetSession K) : Prop where
  cases : ∀ rng s, (acc s ∧ ∃ p s', attempt rng s = (.ok p, s'))
    ∨ (¬ acc s ∧ ∃ e, attempt rng s = (.error e, left s))
  secret : ∀ s, (left s).ourDhSecret = s.ourDhSecret
  draw : ∀ s x, FreshReceiver s → (acc (s.withDh P x) ↔ acc s)

/-- The stored session or the built one accepts, or none can be built and the stored one is untouched. -/
def FailsCleanly (build : Arr 32 → Outcome String (RatchetSession K)) (acc : RatchetSession K → Prop)
    (left : RatchetSession K → RatchetSession K) (stored : Option (RatchetSession K)) : Prop :=
  (∃ s, stored = some s ∧ acc s)
  ∨ (∃ x s, build x = .ok s ∧ acc s)
  ∨ ((∀ x s, build x ≠ .ok s) ∧ ((∃ x, build x = .panicked) ∨ ∀ s, stored = some s → left s = s))

section Pattern

variable (build : Arr 32 → Outcome String (RatchetSession K))
  {attempt : (Nat → Arr 32) → RatchetSession K → Except String Bytes × RatchetSession K}
  {acc : RatchetSession K → Prop} {left : RatchetSession K → RatchetSession K}
  (report : String → String → String)

variable {s : RatchetSession K}

theorem tryThenRebuild_accept (hA : Attempts P attempt acc left) (d : ReceiveDraws) (p : String)
    (m : RatchetSessionManager K) (hs : acc s) :
    ∃ t s', attempt d.firstTry s = (.ok t, s')
      ∧ tryThenRebuild build attempt report d p m s = (.ok t, m.insert p s') := by
  rcases hA.cases d.firstTry s with ⟨-, t, s', he⟩ | ⟨hr, -⟩
  · exact ⟨t, s', he, by simp only [tryThenRebuild, he]⟩
  · exact absurd hs hr

/-- A session that rejects is replaced whenever one can be built. -/
theorem tryThenRebuild_reject (hA : Attempts P attempt acc left) (d : ReceiveDraws) (p : String)
    (m : RatchetSessionManager K) (hs : ¬ acc s) :
    (build d.rebuildSecret = .panicked
      ∧ tryThenRebuild build attempt report d p m s = (.panicked, m.insert p (left s)))
    ∨ (∃ e e', build d.rebuildSecret = .err e
      ∧ tryThenRebuild build attempt report d p m s = (.err e', m.insert p (left s)))
    ∨ (∃ r t r', build d.rebuildSecret = .ok r ∧ acc r ∧ attempt d.retry r = (.ok t, r')
      ∧ tryThenRebuild build attempt report d p m s = (.ok t, m.insert p r'))
    ∨ (∃ r e', build d.rebuildSecret = .ok r ∧ ¬ acc r
      ∧ tryThenRebuild build attempt report d p m s = (.err e', m.insert p (left r))) := by
  rcases hA.cases d.firstTry s with ⟨ha, -⟩ | ⟨-, e₁, he⟩
  · exact absurd ha hs
  simp only [tryThenRebuild, he]
  cases hb : build d.rebuildSecret with
  | panicked => exact .inl ⟨rfl, rfl⟩
  | err e => exact .inr (.inl ⟨e, _, rfl, rfl⟩)
  | ok r =>
    rcases hA.cases d.retry r with ⟨ha, t, r', hr⟩ | ⟨hre, e, hr⟩
    · exact .inr (.inr (.inl ⟨r, t, r', rfl, ha, hr, by simp only [hr]⟩))
    · exact .inr (.inr (.inr ⟨r, _, rfl, hre, by simp only [hr]; rfl⟩))

variable {build}

theorem accepts_of_built (hA : Attempts P attempt acc left) {r : Outcome String (RatchetSession K)}
    (hr : ∀ x, build x = r.map (RatchetSession.withDh P x)) (hf : ∀ s, r = .ok s → FreshReceiver s)
    {x y : Arr 32} {t : RatchetSession K} (hs : build x = .ok s) (ha : acc s) (ht : build y = .ok t) :
    acc t := by
  rw [hr] at hs ht
  cases r with
  | ok u =>
    cases hs
    cases ht
    exact (hA.draw u y (hf u rfl)).mpr ((hA.draw u x (hf u rfl)).mp ha)
  | err e => cases hs
  | panicked => cases hs

def drawsWith (x : Arr 32) : ReceiveDraws := ⟨x, fun _ => x, x, fun _ => x⟩

/-- Two draws leave two different managers, so one is not the manager that was there. -/
theorem withRecovery_not_atomic (hA : Attempts P attempt acc left) {t : RatchetSession K}
    (ht : ∀ x, build x = .ok (t.withDh P x)) (hr : ∀ x, ¬ acc (t.withDh P x)) {p : String}
    {m : RatchetSessionManager K} (hsr : ∀ s, m.sessions p = some s → ¬ acc s) :
    ∃ draws e, (withRecovery build attempt report draws p m).1 = .err e
      ∧ (withRecovery build attempt report draws p m).2 ≠ m := by
  have hl : ∀ x, ∃ e, withRecovery build attempt report (drawsWith x) p m
      = (.err e, m.insert p (left (t.withDh P x))) := by
    intro x
    -- whichever session is tried first rejects
    have hty : ∀ s, ¬ acc s → ∃ e, tryThenRebuild build attempt report (drawsWith x) p m s
        = (.err e, m.insert p (left (t.withDh P x))) := by
      intro s hs
      rcases tryThenRebuild_reject build report hA (drawsWith x) p m hs with
        ⟨hb, -⟩ | ⟨e, e', hb, -⟩ | ⟨r, q, r', hb, ha, -⟩ | ⟨r, e', hb, -, heq⟩
      · exact absurd (hb.symm.trans (ht _)) (by simp)
      · exact absurd (hb.symm.trans (ht _)) (by simp)
      · obtain rfl : r = t.withDh P x := Outcome.ok.inj (hb.symm.trans (ht _))
        exact absurd ha (hr x)
      · obtain rfl : r = t.withDh P x := Outcome.ok.inj (hb.symm.trans (ht _))
        exact ⟨e', heq⟩
    unfold withRecovery
    cases hst : m.sessions p with
    | some s => exact hty s (hsr s hst)
    | none =>
      have hb : build (drawsWith x).initSecret = .ok (t.withDh P x) := ht x
      simp only [hb]
      exact hty _ (hr x)
  by_contra hcon
  push Not at hcon
  -- if every draw left `m` alone, the stored session would have two different secrets
  have hse : ∀ x, m.sessions p = some (left (t.withDh P x)) := by
    intro x
    obtain ⟨e, he⟩ := hl x
    have hm := hcon (drawsWith x) e (by rw [he])
    rw [he] at hm
    rw [← hm]
    simp
  have h01 := (hse (Arr.fit 32 [0])).symm.trans (hse (Arr.fit 32 [1]))
  have hd := congrArg RatchetSession.ourDhSecret (Option.some.inj h01)
  rw [hA.secret, hA.secret] at hd
  have hv : Arr.fit 32 [0] = Arr.fit 32 [1] := hd
  exact absurd hv (by decide)

theorem withRecovery_unbuilt (hA : Attempts P attempt acc left) {err : String}
    (hb : ∀ x, build x = .err err) {p : String} {m : RatchetSessionManager K} (hs : m.sessions p = some s)
    (hr : ¬ acc s) (d : ReceiveDraws) :
    ∃ e, withRecovery build attempt report d p m = (.err e, m.insert p (left s)) := by
  simp only [withRecovery, hs]
  rcases tryThenRebuild_reject build report hA d p m hr with
    ⟨hb', -⟩ | ⟨e, e', -, he⟩ | ⟨r, q, r', hb', -⟩ | ⟨r, e', hb', -⟩
  · exact absurd (hb'.symm.trans (hb _)) (by simp)
  · exact ⟨e', he⟩
  · exact absurd (hb'.symm.trans (hb _)) (by simp)
  · exact absurd (hb'.symm.trans (hb _)) (by simp)

theorem FailsCleanly.stored (hA : Attempts P attempt acc left) {r : Outcome String (RatchetSession K)}
    (hr : ∀ x, build x = r.map (RatchetSession.withDh P x)) (hf : ∀ s, r = .ok s → FreshReceiver s)
    {p : String} {m : RatchetSessionManager K} (hc : FailsCleanly build acc left (m.sessions p))
    (hs : m.sessions p = some s) (hre : ¬ acc s) {d : ReceiveDraws} {e : String}
    (her : (tryThenRebuild build attempt report d p m s).1 = .err e) :
    (tryThenRebuild build attempt report d p m s).2 = m := by
  have ho : ∀ s', m.sessions p = some s' → ¬ acc s' := fun s' hs' ha =>
    hre ((Option.some.inj (hs.symm.trans hs')) ▸ ha)
  rcases tryThenRebuild_reject build report hA d p m hre with
    ⟨-, he⟩ | ⟨e₁, e', hb, he⟩ | ⟨r₁, q, r', -, -, -, he⟩ | ⟨r₁, e', hb, hr', he⟩
  · rw [he] at her
    cases her
  · -- no session can be built, so cleanliness means the stored one is untouched
    rw [he]
    rcases hc with ⟨s', hs', ha⟩ | ⟨x, r₁, hbx, -⟩ | ⟨-, ⟨x, hp⟩ | hsa⟩
    · exact absurd ha (ho s' hs')
    · rw [hr] at hb hbx
      cases r <;> simp [Outcome.map] at hb hbx
    · rw [hr] at hb hp
      cases r <;> simp [Outcome.map] at hb hp
    · simp only [hsa s hs]
      exact RatchetSessionManager.insert_eq_self hs
  · rw [he] at her
    cases her
  · rcases hc with ⟨s', hs', ha⟩ | ⟨x, r₂, hbx, ha⟩ | ⟨hn, -⟩
    · exact absurd ha (ho s' hs')
    · exact absurd (accepts_of_built hA hr hf hbx ha hb) hr'
    · exact absurd hb (hn _ _)

/-- **Error atomicity of the common pattern**, over all draws. -/
theorem withRecovery_atomic_iff (hA : Attempts P attempt acc left) (hB : BuildsReceiver P build)
    (p : String) (m : RatchetSessionManager K) :
    (∀ draws e, (withRecovery build attempt report draws p m).1 = .err e →
        (withRecovery build attempt report draws p m).2 = m)
      ↔ FailsCleanly build acc left (m.sessions p) := by
  obtain ⟨r, hr, hf⟩ := hB
  constructor
  · intro hat
    by_contra hdirty
    unfold FailsCleanly at hdirty
    push Not at hdirty
    obtain ⟨hsr, hbu, hn⟩ := hdirty
    cases r with
    | ok t =>
      have ht : ∀ x, build x = .ok (t.withDh P x) := hr
      obtain ⟨draws, e, he, hne⟩ := withRecovery_not_atomic report hA ht
        (fun x => hbu x _ (ht x)) (p := p) (m := m) hsr
      exact hne (hat draws e he)
    | panicked =>
      obtain ⟨hp, -⟩ := hn fun x s => by simp [hr, Outcome.map]
      exact hp (Arr.fit 32 []) (hr _)
    | err err =>
      obtain ⟨-, s, hs, hch⟩ := hn fun x s => by simp [hr, Outcome.map]
      obtain ⟨e, hru⟩ := withRecovery_unbuilt report hA hr hs (hsr s hs)
        (drawsWith (Arr.fit 32 []))
      have hm := hat _ e (by rw [hru])
      rw [hru] at hm
      have hsa : some (left s) = some s := by
        rw [← hs, ← hm]
        simp
      exact hch (Option.some.inj hsa)
  · intro hc draws e he
    unfold withRecovery at he ⊢
    cases hst : m.sessions p with
    | some s =>
      simp only [hst] at he ⊢
      by_cases ha : acc s
      · obtain ⟨t, s', -, heq⟩ := tryThenRebuild_accept build report hA draws p m ha
        rw [heq] at he
        cases he
      · exact hc.stored report hA hr hf hst ha he
    | none =>
      simp only [hst] at he ⊢
      cases hb : build draws.initSecret with
      | panicked => simp [hb] at he
      | err e => simp
      | ok s =>
        simp only [hb] at he ⊢
        have ha : acc s := by
          rcases hc with ⟨s', hs', -⟩ | ⟨x, r₁, hbx, ha⟩ | ⟨hno, -⟩
          · exact absurd (hst.symm.trans hs') (by simp)
          · exact accepts_of_built hA hr hf hbx ha hb
          · exact absurd hb (hno _ _)
        obtain ⟨t, s', -, heq⟩ := tryThenRebuild_accept build report hA draws p m ha
        rw [heq] at he
        cases he

end Pattern

/-! ## The receive path -/

def AcceptsV1 (P : Primitives K) (e : Envelope) (s : RatchetSession K) : Prop :=
  ∃ d n k p, OpensV1 P s e d n k p

def AcceptsV2 (P : Primitives K) (e : EnvelopeV2) (s : RatchetSession K) : Prop :=
  ∃ s₁ d n k p, OpensV2 P s s₁ e d n k p

theorem openingKey_withDh (h : s.ourIdentitySecret.isSome) (x d : Arr 32) (n : UInt32) :
    (s.withDh P x).openingKey P d n = s.openingKey P d n := by
  obtain ⟨i, hi⟩ := Option.isSome_iff_exists.mp h
  have hf : (s.withDh P x).firstDhSecret = s.firstDhSecret := by
    simp [RatchetSession.firstDhSecret, RatchetSession.withDh, hi]
  have hk : (s.withDh P x).receivingKeys P d = s.receivingKeys P d := by
    unfold RatchetSession.receivingKeys
    rw [hf]
    rfl
  unfold RatchetSession.openingKey RatchetSession.chainFor
  rw [hk]
  rfl

theorem attemptsV1 (e : Envelope) :
    Attempts P (fun rng s => decryptMessageRatcheted P rng s e) (AcceptsV1 P e) id where
  cases rng s := by
    rcases decryptMessageRatcheted_spec (P := P) s rng e with
      ⟨d, n, k, p, s', ho, -, he⟩ | ⟨hn, err, he⟩
    · exact .inl ⟨⟨d, n, k, p, ho⟩, p, s', he⟩
    · exact .inr ⟨fun ⟨d, n, k, p, ho⟩ => hn d n k p ho, err, he⟩
  secret _ := rfl
  draw s x hs := by
    have hk := openingKey_withDh (P := P) hs.identity x
    constructor
    · rintro ⟨d, n, k, p, h⟩
      exact ⟨d, n, k, p, h.dh_eq, h.number_eq, (hk d n).symm.trans h.key, h.opens⟩
    · rintro ⟨d, n, k, p, h⟩
      exact ⟨d, n, k, p, h.dh_eq, h.number_eq, (hk d n).trans h.key, h.opens⟩

theorem absorbPqFields_unconfirmed (h : s.peerConfirmed = false) (e : EnvelopeV2) (n : UInt32) :
    absorbPqFields P s e n = (.ok (), s) := by
  simp [absorbPqFields, h]

theorem acceptsV2_unconfirmed (h : s.peerConfirmed = false) (e : EnvelopeV2) :
    AcceptsV2 P e s ↔ transcriptMismatch s e = false ∧ ∃ d n k p,
      Opens P s e.ratchetDhPublic e.ratchetMessageNumber e.nonce e.ciphertext e.senderPublicKey
        d n k p := by
  constructor
  · rintro ⟨s₁, d, n, k, p, ht, ha, ho⟩
    rw [absorbPqFields_unconfirmed h] at ha
    cases ha
    exact ⟨ht, d, n, k, p, ho⟩
  · rintro ⟨ht, d, n, k, p, ho⟩
    exact ⟨s, d, n, k, p, ht, absorbPqFields_unconfirmed h e n, ho⟩

theorem sessionAfterReject_ourDhSecret (s : RatchetSession K) (e : EnvelopeV2) :
    (sessionAfterReject P s e).ourDhSecret = s.ourDhSecret := by
  unfold sessionAfterReject
  split
  · rename_i n _ _ _ _
    split
    · rfl
    · rcases absorbPqFields_cases (P := P) s e n with
        ⟨_, h⟩ | h | ⟨_, _, _, _, _, _, _, _, h⟩ <;> rw [h]
  · rfl

theorem attemptsV2 (e : EnvelopeV2) :
    Attempts P (fun rng s => decryptMessageRatchetedV2 P rng s e) (AcceptsV2 P e)
      (sessionAfterReject P · e) where
  cases rng s := by
    rcases decryptMessageRatchetedV2_spec (P := P) s rng e with
      ⟨s₁, d, n, k, p, s', ho, -, he⟩ | ⟨hn, err, he⟩
    · exact .inl ⟨⟨s₁, d, n, k, p, ho⟩, p, s', he⟩
    · exact .inr ⟨fun ⟨s₁, d, n, k, p, ho⟩ => hn s₁ d n k p ho, err, he⟩
  secret s := sessionAfterReject_ourDhSecret s e
  draw s x hs := by
    have hk := openingKey_withDh (P := P) hs.identity x
    rw [acceptsV2_unconfirmed (hs.withDh x).unconfirmed, acceptsV2_unconfirmed hs.unconfirmed]
    constructor
    · rintro ⟨ht, d, n, k, p, h⟩
      exact ⟨ht, d, n, k, p, h.dh_eq, h.number_eq, (hk d n).symm.trans h.key, h.opens⟩
    · rintro ⟨ht, d, n, k, p, h⟩
      exact ⟨ht, d, n, k, p, h.dh_eq, h.number_eq, (hk d n).trans h.key, h.opens⟩

/-- When a failed decryption leaves the sessions alone, for each kind of envelope. -/
def ReceiveFailsCleanly (P : Primitives K) (keys : ReceiverKeys) (m : RatchetSessionManager K) :
    WireEnvelope → Prop
  | .v1 e => isRatchetedEnvelope e = false
      ∨ FailsCleanly (initReceiverV1Session P keys e) (AcceptsV1 P e) id
          (m.sessions (peerIdOf P e.senderPublicKey))
  | .v2 e => FailsCleanly (initReceiverV2Session P keys e) (AcceptsV2 P e) (sessionAfterReject P · e)
      (m.sessions (peerIdOf P e.senderPublicKey))

/-- **Error atomicity of the receive path**: exactly under `ReceiveFailsCleanly`, over all draws. -/
theorem decryptWithRatchetFallback_atomic_iff (P : Primitives K) (keys : ReceiverKeys) (wire : WireEnvelope)
    (m : RatchetSessionManager K) :
    (∀ draws e, (decryptWithRatchetFallback P draws keys wire (some m)).1 = .err e →
        (decryptWithRatchetFallback P draws keys wire (some m)).2 = some m)
      ↔ ReceiveFailsCleanly P keys m wire := by
  cases wire with
  | v1 e =>
    simp only [ReceiveFailsCleanly, decryptWithRatchetFallback, decryptV1WithManager]
    by_cases hr : isRatchetedEnvelope e = true
    · simp only [hr, if_true, Option.some.injEq, Bool.true_eq_false, false_or]
      exact withRecovery_atomic_iff _ (attemptsV1 e) (initReceiverV1Session_builds keys e) _ m
    · simp [hr]
  | v2 e =>
    simp only [ReceiveFailsCleanly, decryptWithRatchetFallback, decryptV2WithManager,
      Option.some.injEq]
    exact withRecovery_atomic_iff _ (attemptsV2 e) (initReceiverV2Session_builds keys e) _ m

/-! ## An envelope that destroys a session -/

def bobClassicalKeys : ReceiverKeys := ⟨bob.signingKey, none, none, none, none⟩

def classicalFirst : Except String WireEnvelope :=
  (encryptMessageRatcheted termPrimitives (sampleSendDraws 1) alice.signingKey
    (RatchetSession.initAsSender termPrimitives (Arr.fit 32 [7]) alice.signingKey bob.signingKey)
    (ascii "hi")).1

def establishedManager : RatchetSessionManager Term :=
  match classicalFirst with
  | .ok e => ((decryptWithRatchetFallback termPrimitives (drawsWith (Arr.fit 32 [8]))
      bobClassicalKeys e (some .new)).2).getD .new
  | .error _ => .new

def garbageEnvelope : WireEnvelope :=
  .v1 ⟨alice.signingKey.1, [], (Arr.fit 24 []).1, [], some (Arr.fit 32 []).1, some 0⟩

def garbageRun : Outcome String Bytes × Option (RatchetSessionManager Term) :=
  decryptWithRatchetFallback termPrimitives (drawsWith (Arr.fit 32 [9])) bobClassicalKeys
    garbageEnvelope (some establishedManager)

/-- A garbage envelope is rejected, and an unconfirmed session has replaced Alice's. -/
theorem garbage_replaces_session :
    garbageRun.1.isErr = true
      ∧ (establishedManager.sessions (peerIdOf termPrimitives alice.signingKey.1)).map
          (·.peerConfirmed) = some true
      ∧ (garbageRun.2.bind fun m => (m.sessions (peerIdOf termPrimitives alice.signingKey.1)).map
          (·.peerConfirmed)) = some false := by
  decide +kernel

end SCMessenger
