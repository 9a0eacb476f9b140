import SCMessenger.Crypto.Encrypt

/-!
# Two sessions in step

The joint invariant of two sessions whose messages travel in order and without loss.  One side is always
*ahead* (`Ahead`): it has made the latest ratchet step, and the other has not seen its new key.
-/

namespace SCMessenger

variable {K : Type} {P : Primitives K}

open RatchetSession

/-! ## The two sides -/

/-- Who started the session. -/
inductive Side where
  | initiator
  | responder
deriving DecidableEq, Repr

def Side.other : Side → Side
  | initiator => responder
  | responder => initiator

theorem Side.other_other (s : Side) : s.other.other = s := by
  cases s <;> rfl

theorem Side.other_ne (s : Side) : s.other ≠ s := by
  cases s <;> decide

theorem Side.eq_or_other (s z : Side) : s = z ∨ s = z.other := by
  cases s <;> cases z <;> simp [Side.other]

/-! ## Parcels in flight -/

/-- A message in flight. -/
structure Parcel (K : Type) where
  dh : Arr 32
  chain : Chain K
  secret : Option K

/-- The parcels carry the messages of a chain from `c` up to `c'`, in order. -/
inductive Stream (P : Primitives K) (d : Arr 32) : Chain K → List (Parcel K) → Chain K → Prop where
  | nil (c : Chain K) : Stream P d c [] c
  | cons {c c' : Chain K} {ps : List (Parcel K)} (secret : Option K)
      (h : Stream P d (c.nextMessageKey P).2 ps c') : Stream P d c (⟨d, c, secret⟩ :: ps) c'

theorem Stream.snoc {d : Arr 32} {c c' : Chain K} {ps : List (Parcel K)} (h : Stream P d c ps c')
    (secret : Option K) : Stream P d c (ps ++ [⟨d, c', secret⟩]) (c'.nextMessageKey P).2 := by
  induction h with
  | nil c => exact .cons secret (.nil _)
  | cons s _ ih => exact .cons s ih

def pendingAfter (pending : Option K) (ps : List (Parcel K)) : Option K :=
  ps.foldl (fun acc p => p.secret.or acc) pending

@[simp] theorem pendingAfter_cons (pe : Option K) (p : Parcel K) (ps : List (Parcel K)) :
    pendingAfter pe (p :: ps) = pendingAfter (p.secret.or pe) ps := rfl

@[simp] theorem pendingAfter_snoc (pe : Option K) (ps : List (Parcel K)) (p : Parcel K) :
    pendingAfter pe (ps ++ [p]) = p.secret.or (pendingAfter pe ps) := by
  simp [pendingAfter]

/-! ## What sending and receiving change -/

/-- `s` sends with the position `c` of its chain and becomes `s'`, announcing a KEM secret. -/
structure Sends (P : Primitives K) (s s' : RatchetSession K) (c : Chain K) (secret : Option K) :
    Prop where
  chain : s.sendingChain = some c
  state : s' = { s.afterSend P c with
    pqPendingSent := s'.pqPendingSent
    pqPrevKeypair := s'.pqPrevKeypair
    pqOurKeypair := s'.pqOurKeypair
    pqPendingCt := s'.pqPendingCt }
  pending : s'.mixedCandidate = secret.or s.mixedCandidate
  first : c.index = 0 → secret = none

theorem Sends.isPqHybrid {s s' : RatchetSession K} {c : Chain K} {secret : Option K}
    (h : Sends P s s' c secret) : s'.isPqHybrid = s.isPqHybrid := by
  rw [h.state]
  rfl

theorem Sends.peerConfirmed {s s' : RatchetSession K} {c : Chain K} {secret : Option K}
    (h : Sends P s s' c secret) : s'.peerConfirmed = s.peerConfirmed := by
  rw [h.state]
  rfl

def TakesOver (s s₁ : RatchetSession K) (secret : Option K) : Prop :=
  ∃ key ct, s₁ = { s with
    pqPendingRecv := secret.or s.pqPendingRecv
    pqTheirEncapsKey := key
    pqPendingCt := ct }

/-! ## The invariant -/

def RatchetSession.withPending (s : RatchetSession K) (pending : Option K) : RatchetSession K :=
  { s with pqPendingRecv := pending }

/-- On their way to `y` are the parcels `old` under the key it knows, then `new`; to `x` those in `back`. -/
structure Ahead (P : Primitives K) (x y : RatchetSession K) (old new back : List (Parcel K)) :
    Prop where
  suite : x.isPqHybrid = y.isPqHybrid
  skippedAhead : x.skippedKeys = ∅
  skippedBehind : y.skippedKeys = ∅
  ownKey : x.ourDhPublic = P.x25519Public x.ourDhSecret
  noIdentity : x.ourIdentitySecret = none
  unseen : y.theirDhPublic ≠ some x.ourDhPublic
  /-- The step that `y` will make towards the new key leads to the root and the chain of `x`. -/
  root : ∃ ck c, (y.withPending (pendingAfter y.pqPendingRecv old)).receivingKeys P x.ourDhPublic
      = (x.rootKey, ck) ∧ x.sendingChain = some c ∧ Stream P x.ourDhPublic (Chain.new ck) new c
  oldStream : old = [] ∨ ∃ d c c', y.theirDhPublic = some d ∧ y.receivingChain = some c
      ∧ Stream P d c old c'
  backStream : (y.sendingChain = none ∧ back = []) ∨ ∃ c c', x.theirDhPublic = some y.ourDhPublic
      ∧ x.receivingChain = some c ∧ y.sendingChain = some c' ∧ Stream P y.ourDhPublic c back c'
  /-- What each side will mix into its next step is what the other will have received by then. -/
  sentAhead : x.mixedCandidate = pendingAfter none new
  sentBehind : y.mixedCandidate = pendingAfter x.pqPendingRecv back
  first : ∀ p ∈ new.head?, p.secret = none

namespace Ahead

variable {x y x' y' x₁ y₁ : RatchetSession K} {old new back : List (Parcel K)} {c : Chain K}
  {secret : Option K} {p : Parcel K} {rng : Nat → Arr 32}

theorem sendAhead (h : Ahead P x y old new back) (hs : Sends P x x' c secret) :
    Ahead P x' y old (new ++ [⟨x.ourDhPublic, c, secret⟩]) back := by
  obtain ⟨ck, c₀, hk, hc₀, hsr⟩ := h.root
  obtain rfl : c₀ = c := Option.some.inj (hc₀.symm.trans hs.chain)
  have hp := hs.pending
  have hf : ∀ q ∈ (new ++ [(⟨x.ourDhPublic, c₀, secret⟩ : Parcel K)]).head?,
      q.secret = none := by
    intro q hq
    cases new with
    | nil =>
      -- the first parcel of a chain has number 0
      cases hsr
      obtain rfl : (⟨x.ourDhPublic, Chain.new ck, secret⟩ : Parcel K) = q := by simpa using hq
      exact hs.first rfl
    | cons q' new' => exact h.first q (by simpa using hq)
  have hse : x'.mixedCandidate = pendingAfter none (new ++ [⟨x.ourDhPublic, c₀, secret⟩]) := by
    rw [hp, h.sentAhead, pendingAfter_snoc]
  have hst := hs.state
  generalize x'.pqPendingSent = a, x'.pqPrevKeypair = b, x'.pqOurKeypair = k,
    x'.pqPendingCt = ct at hst
  subst hst
  exact { h with
    root := ⟨ck, _, hk, rfl, hsr.snoc secret⟩
    sentAhead := hse
    first := hf }

theorem sendBehind (h : Ahead P x y old new back) (hs : Sends P y y' c secret) :
    Ahead P x y' old new (back ++ [⟨y.ourDhPublic, c, secret⟩]) := by
  have hb : ∃ c₀ c', x.theirDhPublic = some y.ourDhPublic ∧ x.receivingChain = some c₀
      ∧ y.sendingChain = some c' ∧ Stream P y.ourDhPublic c₀ back c' :=
    h.backStream.resolve_left fun hn => by simp [hs.chain] at hn
  obtain ⟨c₀, c', hd, hr, hse, hsr⟩ := hb
  obtain rfl : c' = c := Option.some.inj (hse.symm.trans hs.chain)
  have hsn : y'.mixedCandidate
      = pendingAfter x.pqPendingRecv (back ++ [⟨y.ourDhPublic, c', secret⟩]) := by
    rw [hs.pending, h.sentBehind, pendingAfter_snoc]
  have hst := hs.state
  generalize y'.pqPendingSent = a, y'.pqPrevKeypair = b, y'.pqOurKeypair = k,
    y'.pqPendingCt = ct at hst
  subst hst
  exact { h with
    backStream := .inr ⟨c₀, _, hd, hr, rfl, hsr.snoc secret⟩
    sentBehind := hsn }

theorem receiveOld (h : Ahead P x y (p :: old) new back) (ht : TakesOver y y₁ p.secret) :
    ∃ y', Expects P y₁ rng p.dh p.chain y' ∧ Ahead P x y' old new back := by
  obtain ⟨d, c₀, c', hd, hc, hs⟩ := h.oldStream.resolve_left (by simp)
  obtain ⟨key, ct, rfl⟩ := ht
  cases hs with
  | cons secret hs =>
    exact ⟨_, .next hd hc, { h with
      oldStream := .inr ⟨d, _, _, hd, rfl, hs⟩ }⟩

theorem receiveBack (h : Ahead P x y old new (p :: back)) (ht : TakesOver x x₁ p.secret) :
    ∃ x', Expects P x₁ rng p.dh p.chain x' ∧ Ahead P x' y old new back := by
  obtain ⟨c₀, c', hd, hr, hse, hs⟩ := h.backStream.resolve_left (by simp)
  obtain ⟨key, ct, rfl⟩ := ht
  cases hs with
  | cons secret hs =>
    exact ⟨_, .next hd hr, { h with
      backStream := .inr ⟨_, _, hd, rfl, hse, hs⟩ }⟩

/-- The side behind receives the first parcel under the new key, makes its step, and is ahead. -/
theorem receiveNew (hdh : DhCommutes P) (h : Ahead P x y [] (p :: new) back) (ht : TakesOver y y₁ p.secret)
    (hf : x.theirDhPublic ≠ some (P.x25519Public (rng 0))) :
    ∃ y', Expects P y₁ rng p.dh p.chain y' ∧ Ahead P y' x back [] new := by
  obtain ⟨ck, c, hk, hc, hs⟩ := h.root
  have hn : p.secret = none := h.first p (by simp)
  obtain ⟨key, ct, hy₁⟩ := ht
  rw [hn, Option.none_or] at hy₁
  have hk₁ : y₁.receivingKeys P x.ourDhPublic = (x.rootKey, ck) := by
    rw [hy₁]
    exact hk
  obtain rfl : (y₁.receivingKeys P x.ourDhPublic).2 = ck := congrArg Prod.snd hk₁
  have hd₁ : y₁.theirDhPublic ≠ some x.ourDhPublic := by
    rw [hy₁]
    exact h.unseen
  cases hs with
  | cons secret hs =>
  have he : Expects P y₁ rng x.ourDhPublic _ _ := .ratchet hd₁
  have hh : y₁.isPqHybrid = x.isPqHybrid := by
    rw [hy₁]
    exact h.suite.symm
  have hca : y₁.mixedCandidate = pendingAfter x.pqPendingRecv back := by
    rw [hy₁]
    exact h.sentBehind
  -- both sides compute the step towards the new key from the root and the chain they share
  have hr : (x.withPending (pendingAfter x.pqPendingRecv back)).receivingKeys P
        (P.x25519Public (rng 0))
      = y₁.rootStep P (y₁.receivingKeys P x.ourDhPublic).1
          (P.diffieHellman (rng 0) x.ourDhPublic) y₁.mixedCandidate := by
    have hse : x.firstDhSecret = x.ourDhSecret := by simp [firstDhSecret, h.noIdentity]
    rw [congrArg Prod.fst hk₁, hca, rootStep_congr hh, h.ownKey,
      hdh (rng 0) x.ourDhSecret, ← hse]
    rfl
  have hb : back = [] ∨ ∃ d c c', x.theirDhPublic = some d ∧ x.receivingChain = some c
      ∧ Stream P d c back c' := by
    rcases h.backStream with ⟨-, hni⟩ | ⟨c₁, c', hd, hre, -, hs'⟩
    · exact .inl hni
    · exact .inr ⟨_, c₁, c', hd, hre, hs'⟩
  have hsk : y₁.skippedKeys = ∅ := by
    rw [hy₁]
    exact h.skippedBehind
  exact ⟨_, he, {
    suite := hh
    skippedAhead := hsk
    skippedBehind := h.skippedAhead
    ownKey := rfl
    noIdentity := rfl
    unseen := hf
    root := ⟨_, _, hr, rfl, .nil _⟩
    oldStream := hb
    backStream := .inr ⟨_, _, rfl, rfl, hc, hs⟩
    sentAhead := afterRatchet_mixedCandidate _ _ _
    sentBehind := by
      rw [h.sentAhead, pendingAfter_cons, hn]
      rfl
    first := by simp }⟩

end Ahead

def InStep (P : Primitives K) (x y : RatchetSession K) (toY toX : List (Parcel K)) : Prop :=
  (∃ old new, toY = old ++ new ∧ Ahead P x y old new toX)
    ∨ (∃ old new, toX = old ++ new ∧ Ahead P y x old new toY)

namespace InStep

variable {x y x' y₁ : RatchetSession K} {toX toY : List (Parcel K)} {c : Chain K}
  {secret : Option K} {p : Parcel K} {rng : Nat → Arr 32}

theorem symm (h : InStep P x y toY toX) : InStep P y x toX toY := Or.symm h

/-- **Sending keeps two sessions in step.** -/
theorem send (h : InStep P x y toY toX) (hs : Sends P x x' c secret) :
    InStep P x' y (toY ++ [⟨x.ourDhPublic, c, secret⟩]) toX := by
  rcases h with ⟨old, new, rfl, ha⟩ | ⟨old, new, rfl, ha⟩
  · exact .inl ⟨old, _, List.append_assoc _ _ _, ha.sendAhead hs⟩
  · exact .inr ⟨old, new, rfl, ha.sendBehind hs⟩

/-- **Receiving keeps two sessions in step**, and the parcel is the one its session expects. -/
theorem receive (hd : DhCommutes P) (h : InStep P x y (p :: toY) toX) (ht : TakesOver y y₁ p.secret)
    (hf : x.theirDhPublic ≠ some (P.x25519Public (rng 0))) :
    ∃ y', Expects P y₁ rng p.dh p.chain y' ∧ InStep P x y' toY toX := by
  rcases h with ⟨old, new, hq, ha⟩ | ⟨old, new, rfl, ha⟩
  · cases old with
    | nil =>
      -- the first parcel under the new key: the receiver is ahead from now on
      obtain rfl : p :: toY = new := hq
      obtain ⟨y', he, ha'⟩ := ha.receiveNew hd ht hf
      exact ⟨y', he, .inr ⟨toX, [], (List.append_nil _).symm, ha'⟩⟩
    | cons q old' =>
      obtain ⟨rfl, rfl⟩ := List.cons.inj hq
      obtain ⟨y', he, ha'⟩ := ha.receiveOld ht
      exact ⟨y', he, .inl ⟨old', new, rfl, ha'⟩⟩
  · obtain ⟨y', he, ha'⟩ := ha.receiveBack ht
    exact ⟨y', he, .inr ⟨old, new, rfl, ha'⟩⟩

theorem skippedKeys (h : InStep P x y toY toX) : y.skippedKeys = ∅ := by
  rcases h with ⟨old, new, -, ha⟩ | ⟨old, new, -, ha⟩
  · exact ha.skippedBehind
  · exact ha.skippedAhead

theorem index_eq_zero (h : InStep P x y (p :: toY) toX) (hy : y.receivingChain = none) :
    p.chain.index = 0 := by
  rcases h with ⟨old, new, hq, ha⟩ | ⟨old, new, -, ha⟩
  · have ho : old = [] := by
      rcases ha.oldStream with hn | ⟨d, c, c', -, hc, -⟩
      · exact hn
      · exact absurd (hy.symm.trans hc) (by simp)
    obtain ⟨ck, c, -, -, hs⟩ := ha.root
    rw [ho, List.nil_append] at hq
    subst hq
    cases hs
    rfl
  · rcases ha.backStream with ⟨-, hn⟩ | ⟨c, c', -, hc, -, -⟩
    · cases hn
    · exact absurd (hy.symm.trans hc) (by simp)

end InStep

theorem inStep_sides {s : Side → RatchetSession K} {pa : Side → List (Parcel K)} (z : Side)
    (h : InStep P (s z) (s z.other) (pa z) (pa z.other)) (si : Side) :
    InStep P (s si) (s si.other) (pa si) (pa si.other) := by
  rcases si.eq_or_other z with rfl | rfl
  · exact h
  · rw [Side.other_other]
    exact h.symm

end SCMessenger
