import SCMessenger.Crypto.Replay
import SCMessenger.Lib.Noninterference
import SCMessenger.Transport.FragmentOrder

/-!
# What one peer does is not seen by another

With or without the calls of the others, a peer gets the same answers from the Bluetooth reassembly and
from the session manager.
-/

namespace SCMessenger

/-! ## Reassembly -/

namespace L2capReassemblyManager

open PartialReassembly

/-- One call of `feed_fragment`, by any peer. -/
def feedStep (m : L2capReassemblyManager) (call : FeedCall) : Option Bytes × L2capReassemblyManager :=
  m.feedFragment call.now call.peerId call.fragment

/-- What a fragment of the peer finds at a time: the settings and the slot, unless it has expired. -/
def view (peerId : String) (now : Nat) (m : L2capReassemblyManager) : Nat × Nat × Option PartialReassembly :=
  (m.reassemblyTimeout, m.maxPeerMemoryBytes, live m.reassemblyTimeout now (m.partials.lookup peerId))

variable {m m' : L2capReassemblyManager} {peerId : String} {T now : Nat} {call : FeedCall}

/-- What has expired once stays expired. -/
theorem live_live {timeout : Nat} (h : T ≤ now) (slot : Option PartialReassembly) :
    live timeout now (live timeout T slot) = live timeout now slot := by
  rw [live, live, Option.filter_filter]
  congr 1
  funext p
  simp only [expired, ← decide_not, ← Bool.decide_and]
  grind

/-- A call leaves the settings as they are. -/
theorem view_feedStep : (m.feedStep call).2.view peerId now = (m.reassemblyTimeout, m.maxPeerMemoryBytes,
    live m.reassemblyTimeout now ((m.feedStep call).2.partials.lookup peerId)) := by
  unfold feedStep feedFragment
  dsimp only
  repeat' first | rfl | split

/-- A call goes by what it finds for its peer. -/
theorem feedStep_local (h : m.view call.peerId call.now = m'.view call.peerId call.now) :
    (m.feedStep call).1 = (m'.feedStep call).1 ∧ (m.feedStep call).2.partials.lookup call.peerId
      = (m'.feedStep call).2.partials.lookup call.peerId := by
  simp only [view, Prod.mk.injEq] at h
  cases hh : FragmentHeader.fromBytes call.fragment with
  | error e =>
    simp only [feedStep, feedFragment, hh, lookup_evictExpired, true_and]
    exact h.2.2
  | ok header =>
    obtain ⟨hr, hl, -, -⟩ := m.feedFragment_slot call.now call.peerId hh
    obtain ⟨hr', hl', -, -⟩ := m'.feedFragment_slot call.now call.peerId hh
    rw [← h.2.1, ← h.2.2] at hr' hl'
    exact ⟨hr.trans hr'.symm, hl.trans hl'.symm⟩

/-- **Peers do not disturb each other's messages**, if time does not go back. -/
theorem reassembly_isolated (m : L2capReassemblyManager) (peerId : String) (calls : List FeedCall)
    (htimes : (calls.map (·.now)).Pairwise (· ≤ ·)) :
    answers feedStep (·.peerId == peerId) m calls
      = outputs feedStep m (calls.filter (·.peerId == peerId)) := by
  have h : Unwinding feedStep (·.peerId == peerId) FeedCall.now
      fun T m m' => ∀ now, T ≤ now → m.view peerId now = m'.view peerId now := by
    refine ⟨fun hp hT h => ?_, fun {_ s _ call} hp hT h now ht => ?_⟩
    · cases beq_iff_eq.mp hp
      have hv := h _ hT
      obtain ⟨hr, hl⟩ := feedStep_local hv
      simp only [view, Prod.mk.injEq] at hv
      exact ⟨hr, fun now _ => by rw [view_feedStep, view_feedStep, hl, hv.1, hv.2.1]⟩
    · -- a call of another peer at most drops what has expired
      have hne : peerId ≠ call.peerId := fun he => by simp [he] at hp
      rw [← h now (hT.trans ht), view_feedStep, feedStep, lookup_feedFragment_of_ne _ _ hne, live_live ht, view]
  exact h.answers_eq (T := 0) (fun _ _ => rfl) (List.pairwise_cons.mpr ⟨fun _ _ => Nat.zero_le _, htimes⟩)

/-- Two peers send the halves of a message each; the first half of "b" expires in between. -/
def crossedFragments : List FeedCall :=
  let half (i : Nat) (payload : UInt8) := fragmentBytes 2 i (((appendCrc32 [payload]).drop (3 * i)).take 3)
  [⟨0, "b", half 0 8⟩, ⟨1500000000, "a", half 0 7⟩, ⟨1600000000, "b", half 1 8⟩, ⟨1700000000, "a", half 1 7⟩]

theorem reassembly_isolated_crossed :
    answers feedStep (·.peerId == "a") (.new 1 64) crossedFragments = [none, some [7]] :=
  (reassembly_isolated (.new 1 64) "a" crossedFragments (by decide)).trans (by decide)

end L2capReassemblyManager

/-! ## Sessions -/

namespace RatchetSessionManager

variable {K : Type} {P : Primitives K} {m m' : RatchetSessionManager K}

/-- A call of one of the two message paths. -/
inductive ManagerCall where
  | send (draws : EncryptDraws) (keys : SenderKeys) (plaintext : Bytes) (peerId : String)
      (auditLog : Option (List AuditEvent))
  | receive (call : ReceiveCall)

/-- The peer whose session a call uses: the recipient, or the sender by the hash of its key. -/
def ManagerCall.peerId (P : Primitives K) : ManagerCall → String
  | .send _ _ _ peerId _ => peerId
  | .receive call => peerIdOf P call.wire.senderPublicKey

/-- What the caller sees of a call. -/
inductive ManagerAnswer where
  | sent (result : Except String WireEnvelope) (auditLog : Option (List AuditEvent))
  | received (result : Outcome String Bytes)

def managerStep (P : Primitives K) (m : RatchetSessionManager K) :
    ManagerCall → ManagerAnswer × RatchetSessionManager K
  | .send draws keys plaintext peerId auditLog =>
    let r := encryptWithRatchetFallback P draws keys plaintext (some m) peerId auditLog
    (.sent r.result r.auditLog, r.manager.getD m)
  | .receive call =>
    let r := decryptWithRatchetFallback P call.draws call.keys call.wire (some m)
    (.received r.1, r.2.getD m)

/-- The session a message is sent with does not depend on the other peers. -/
theorem senderSession_local {peerId : String} (draws : EncryptDraws) (keys : SenderKeys)
    (h : m.sessions peerId = m'.sessions peerId) :
    (senderSession P draws keys peerId m).map Prod.fst = (senderSession P draws keys peerId m').map Prod.fst := by
  simp only [senderSession, getOrCreateSessionHybrid, getOrCreateSession, h]
  cases m'.sessions peerId <;> repeat' first | rfl | split

/-- What a call answers and leaves for its peer is a matter of the peer's session alone. -/
theorem managerStep_local {call : ManagerCall} (h : m.sessions (call.peerId P) = m'.sessions (call.peerId P)) :
    (managerStep P m call).1 = (managerStep P m' call).1
      ∧ (managerStep P m call).2.sessions (call.peerId P) = (managerStep P m' call).2.sessions (call.peerId P) := by
  cases call with
  | send draws keys p peerId log =>
    change m.sessions peerId = m'.sessions peerId at h
    have hh : m.hasSession peerId = m'.hasSession peerId := congrArg Option.isSome h
    have hs := senderSession_local (P := P) draws keys h
    simp only [managerStep, ManagerCall.peerId, encryptWithRatchetFallback, hh]
    split
    · exact ⟨rfl, h⟩
    · generalize senderSession P draws keys peerId m = a at hs ⊢
      generalize senderSession P draws keys peerId m' = b at hs ⊢
      cases a <;> cases b <;> simp_all [Except.map]
    · split <;> exact ⟨rfl, h⟩
  | receive call =>
    obtain ⟨draws, keys, wire⟩ := call
    cases wire with
    | v1 e =>
      -- an envelope that is not ratcheted touches no session
      simp only [managerStep, decryptWithRatchetFallback]
      split
      · exact (withRecovery_local h).imp_left (congrArg _)
      · exact ⟨rfl, h⟩
    | v2 e => exact (withRecovery_local h).imp_left (congrArg ManagerAnswer.received)

/-- **Peers do not disturb each other's sessions**, whatever is sent and received in between. -/
theorem sessions_isolated (P : Primitives K) (m : RatchetSessionManager K) (peerId : String)
    (calls : List ManagerCall) :
    answers (managerStep P) (·.peerId P == peerId) m calls
      = outputs (managerStep P) m (calls.filter (·.peerId P == peerId)) := by
  have h : Unwinding (managerStep P) (·.peerId P == peerId) (fun _ => 0)
      fun _ m m' => m.sessions peerId = m'.sessions peerId := by
    refine ⟨fun hp _ h => ?_, fun {_ s _ call} hp _ h => Eq.trans ?_ h⟩
    · cases beq_iff_eq.mp hp
      exact managerStep_local h
    · have hne : peerId ≠ call.peerId P := fun he => by simp [he] at hp
      cases call with
      | send draws keys p q log =>
        obtain ⟨s', hs, hf⟩ := encryptWithRatchetFallback_frame (P := P) draws keys p s q log
        simp only [managerStep, hs]
        exact hf peerId hne
      | receive call =>
        obtain ⟨s', hs, hf⟩ := decryptWithRatchetFallback_frame (P := P) call.draws call.keys call.wire s
        simp only [managerStep, hs]
        exact hf peerId hne
  exact h.answers_eq (T := 0) rfl (by simp [List.map_const'])

end RatchetSessionManager

end SCMessenger
