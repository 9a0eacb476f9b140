import SCMessenger.Lib.Primitives

/-!
# Inbox and history

The inbox drops messages whose id it has seen; which id it forgets on a backend is an argument.  The history
has one record for each id.  A backend that refuses a write changes nothing.
-/

namespace SCMessenger

/-! ## Inbox -/

/-- A message in the inbox. -/
structure ReceivedMessage where
  version : UInt8
  messageId : String
  senderId : String
  payload : Bytes
  receivedAt : UInt64
  senderPublicKeyHex : Option String
deriving DecidableEq, Repr

def maxSeenIds : Nat := 50000

def evictedSeenIds : Nat := 1000

/-- The inbox in memory, or on disk with the seen ids in memory. -/
inductive InboxBackend where
  | memory (seenIds seenOrder : List (Arr 32)) (messages : String → List ReceivedMessage) (total : Nat)
  | persistent (seenIds : List (Arr 32)) (stored : String → Option ReceivedMessage)

structure Inbox where
  backend : InboxBackend

namespace Inbox

def new : Inbox := ⟨.memory [] [] (fun _ => []) 0⟩

def messagesPrefix : String := "inbox_msg_"

def idHash {K : Type} (P : Primitives K) (messageId : String) : Arr 32 :=
  P.blake3 messageId.toUTF8.data.toList

section

variable {K : Type} (P : Primitives K)

def isDuplicate (inbox : Inbox) (messageId : String) : Bool :=
  match inbox.backend with
  | .memory seenIds _ _ _ => seenIds.contains (idHash P messageId)
  | .persistent seenIds _ => seenIds.contains (idHash P messageId)

def evictOldest : Nat → List (Arr 32) → List (Arr 32) → List (Arr 32) × List (Arr 32)
  | 0, seenIds, seenOrder => (seenIds, seenOrder)
  | n + 1, seenIds, seenOrder =>
    if maxSeenIds < seenIds.length then
      match seenOrder with
      | old :: rest => evictOldest n (seenIds.erase old) rest
      | [] => evictOldest n seenIds []
    else (seenIds, seenOrder)

/-- Record a message unless its id was seen; `iterate` lists a set in its iteration order. -/
def receive (inbox : Inbox) (iterate : List (Arr 32) → List (Arr 32)) (msg : ReceivedMessage) :
    Bool × Inbox :=
  let hash := idHash P msg.messageId
  match inbox.backend with
  | .memory seenIds seenOrder messages total =>
    if seenIds.contains hash then (false, inbox)
    else
      let (seenIds', seenOrder') :=
        evictOldest (seenIds.length + 1) (hash :: seenIds) (seenOrder ++ [hash])
      (true, ⟨.memory seenIds' seenOrder'
        (Function.update messages msg.senderId (messages msg.senderId ++ [msg])) (total + 1)⟩)
  | .persistent seenIds stored =>
    if seenIds.contains hash then (false, inbox)
    else
      let seen := hash :: seenIds
      let seenIds' :=
        if maxSeenIds < seen.length then seen.diff ((iterate seen).take evictedSeenIds) else seen
      let key := messagesPrefix ++ msg.senderId ++ "_" ++ msg.messageId
      (true, ⟨.persistent seenIds' (Function.update stored key (some msg))⟩)

end

def holdsAt (inbox : Inbox) (key : String) (r : ReceivedMessage) : Bool :=
  match inbox.backend with
  | .memory _ _ messages _ => (messages key).contains r
  | .persistent _ stored => stored key == some r

def Holds (inbox : Inbox) (r : ReceivedMessage) : Prop := ∃ key, inbox.holdsAt key r = true

theorem not_holds_new (r : ReceivedMessage) : ¬ Inbox.new.Holds r := by
  rintro ⟨key, h⟩
  simp [holdsAt, new] at h

variable {K : Type} {inbox : Inbox} {msg : ReceivedMessage}

/-- **Receiving records at most the message received.** -/
theorem receive_holds {P : Primitives K} {i : List (Arr 32) → List (Arr 32)} {r : ReceivedMessage}
    (h : (inbox.receive P i msg).2.Holds r) : inbox.Holds r ∨ r = msg := by
  obtain ⟨b⟩ := inbox
  cases b with
  | memory seenIds s messages total =>
    simp only [receive] at h
    split at h
    · exact .inl h
    · obtain ⟨key, hr⟩ := h
      simp only [holdsAt, List.contains_iff_mem] at hr
      by_cases hk : key = msg.senderId
      · rw [hk, Function.update_self, List.mem_append, List.mem_singleton] at hr
        exact hr.imp (fun hr => ⟨msg.senderId, by simpa [holdsAt] using hr⟩) id
      · rw [Function.update_of_ne hk] at hr
        exact .inl ⟨key, by simpa [holdsAt] using hr⟩
  | persistent seenIds stored =>
    simp only [receive] at h
    split at h
    · exact .inl h
    · obtain ⟨key, hr⟩ := h
      simp only [holdsAt, beq_iff_eq] at hr
      by_cases hk : key = messagesPrefix ++ msg.senderId ++ "_" ++ msg.messageId
      · rw [hk, Function.update_self] at hr
        exact .inr (Option.some.inj hr).symm
      · rw [Function.update_of_ne hk] at hr
        exact .inl ⟨key, by simpa [holdsAt] using hr⟩

theorem receive_holds_self {P : Primitives K} (i : List (Arr 32) → List (Arr 32))
    (hn : inbox.isDuplicate P msg.messageId = false) : (inbox.receive P i msg).2.Holds msg := by
  obtain ⟨b⟩ := inbox
  cases b with
  | memory seenIds s messages total =>
    simp only [isDuplicate] at hn
    simp only [receive, hn, Bool.false_eq_true, if_false]
    exact ⟨msg.senderId, by simp [holdsAt]⟩
  | persistent seenIds stored =>
    simp only [isDuplicate] at hn
    simp only [receive, hn, Bool.false_eq_true, if_false]
    exact ⟨messagesPrefix ++ msg.senderId ++ "_" ++ msg.messageId, by simp [holdsAt]⟩

def seenIds (inbox : Inbox) : List (Arr 32) :=
  match inbox.backend with
  | .memory seenIds _ _ _ => seenIds
  | .persistent seenIds _ => seenIds

theorem isDuplicate_eq (P : Primitives K) (inbox : Inbox) (m : String) :
    inbox.isDuplicate P m = inbox.seenIds.contains (idHash P m) := by
  obtain ⟨b⟩ := inbox
  cases b <;> rfl

/-- **Receiving remembers**: below its bound the inbox forgets nothing. -/
theorem receive_seenIds {P : Primitives K} (i : List (Arr 32) → List (Arr 32))
    (hn : inbox.isDuplicate P msg.messageId = false) (hr : inbox.seenIds.length < maxSeenIds) :
    (inbox.receive P i msg).2.seenIds = idHash P msg.messageId :: inbox.seenIds := by
  obtain ⟨b⟩ := inbox
  rw [isDuplicate_eq] at hn
  cases b with
  | memory seenIds s messages total =>
    have hf : ¬ maxSeenIds < (idHash P msg.messageId :: seenIds).length :=
      Nat.not_lt.mpr hr
    simp only [receive, Inbox.seenIds] at hn ⊢
    rw [hn]
    simp only [Bool.false_eq_true, if_false, evictOldest, if_neg hf]
  | persistent seenIds stored =>
    have hf : ¬ maxSeenIds < (idHash P msg.messageId :: seenIds).length :=
      Nat.not_lt.mpr hr
    simp only [receive, Inbox.seenIds] at hn ⊢
    rw [hn]
    simp only [Bool.false_eq_true, if_false, if_neg hf]

end Inbox

/-! ## History -/

inductive MessageDirection where
  | sent
  | received
deriving DecidableEq, Repr

/-- An entry of the history. -/
structure MessageRecord where
  id : String
  direction : MessageDirection
  peerId : String
  content : String
  timestamp : UInt64
  senderTimestamp : UInt64
  delivered : Bool
  hidden : Bool
deriving DecidableEq, Repr

/-- The records by message id, and whether the backend takes writes. -/
structure HistoryManager where
  records : String → Option MessageRecord
  writable : Bool

namespace HistoryManager

def add (h : HistoryManager) (record : MessageRecord) : HistoryManager :=
  if h.writable then { h with records := Function.update h.records record.id (some record) } else h

/-- **Writing changes at most the record's own id.** -/
theorem add_get {h : HistoryManager} {re r : MessageRecord} {id : String}
    (hr : (h.add re).records id = some r) : h.records id = some r ∨ r = re := by
  unfold add at hr
  split at hr
  · simp only at hr
    by_cases hi : id = re.id
    · rw [hi, Function.update_self] at hr
      exact .inr (Option.some.inj hr).symm
    · rw [Function.update_of_ne hi] at hr
      exact .inl hr
  · exact .inl hr

end HistoryManager

end SCMessenger
