import SCMessenger.Lib.Canonical
import SCMessenger.Lib.Queues
import SCMessenger.Lib.Run
import SCMessenger.Lib.Storage

/-!
# The outbox

Messages that wait for a peer (`store/outbox.rs`), in memory by queue, on a backend by a key that begins
with the peer's name.  Maintenance touches history and logs only and is left out.
-/

namespace SCMessenger

/-! ## Messages -/

/-- How far a queued message has come. -/
inductive MessageState where
  | enqueued
  | sent
  | failed
deriving DecidableEq, Repr

/-- A message in the outbox. -/
structure QueuedMessage where
  version : UInt8
  messageId : String
  recipientId : String
  envelopeData : Bytes
  queuedAt : UInt64
  attempts : UInt32
  nextRetryAt : Option UInt64
  inCustody : Bool
  custodyEstablishedAt : UInt64
  state : MessageState
deriving DecidableEq, Repr

/-- The stored form before there were versions. -/
structure LegacyQueuedMessage where
  messageId : String
  recipientId : String
  envelopeData : Bytes
  queuedAt : UInt64
  attempts : UInt32
  nextRetryAt : Option UInt64
  inCustody : Bool
  custodyEstablishedAt : UInt64
  state : MessageState

def LegacyQueuedMessage.upgrade (legacy : LegacyQueuedMessage) : QueuedMessage where
  version := 1
  messageId := legacy.messageId
  recipientId := legacy.recipientId
  envelopeData := legacy.envelopeData
  queuedAt := legacy.queuedAt
  attempts := legacy.attempts
  nextRetryAt := legacy.nextRetryAt
  inCustody := legacy.inCustody
  custodyEstablishedAt := legacy.custodyEstablishedAt
  state := legacy.state

def messageStateCodec : Codec MessageState :=
  .variant (fun s => match s with | .enqueued => 0 | .sent => 1 | .failed => 2)
    (fun n => match n with | 0 => some .enqueued | 1 => some .sent | 2 => some .failed | _ => none)
    (fun s => by cases s <;> rfl)

def queuedMessageCodec : Codec QueuedMessage :=
  (Codec.u8.pair (Codec.string.pair (Codec.string.pair (Codec.bytes.pair (Codec.u64.pair
      (Codec.u32.pair (Codec.u64.option.pair (Codec.bool.pair (Codec.u64.pair
        messageStateCodec))))))))).iso
    (fun (version, id, recipient, data, queuedAt, attempts, retry, custody, since, state) =>
      ⟨version, id, recipient, data, queuedAt, attempts, retry, custody, since, state⟩)
    (fun m => (m.version, m.messageId, m.recipientId, m.envelopeData, m.queuedAt, m.attempts,
      m.nextRetryAt, m.inCustody, m.custodyEstablishedAt, m.state))
    (fun _ => rfl)

def legacyQueuedMessageCodec : Codec LegacyQueuedMessage :=
  (Codec.string.pair (Codec.string.pair (Codec.bytes.pair (Codec.u64.pair (Codec.u32.pair
      (Codec.u64.option.pair (Codec.bool.pair (Codec.u64.pair messageStateCodec)))))))).iso
    (fun (id, recipient, data, queuedAt, attempts, retry, custody, since, state) =>
      ⟨id, recipient, data, queuedAt, attempts, retry, custody, since, state⟩)
    (fun m => (m.messageId, m.recipientId, m.envelopeData, m.queuedAt, m.attempts, m.nextRetryAt,
      m.inCustody, m.custodyEstablishedAt, m.state))
    (fun _ => rfl)

/-- Read a stored message: the first byte tells the versioned format from the old one. -/
def deserializeQueuedMessage : Bytes → Option QueuedMessage :=
  Codec.readVersioned queuedMessageCodec legacyQueuedMessageCodec (·.upgrade)

def QueuedMessage.Fits (m : QueuedMessage) : Prop :=
  m.messageId.toUTF8.size < 256 ^ 8 ∧ m.recipientId.toUTF8.size < 256 ^ 8
    ∧ m.envelopeData.length < 256 ^ 8

variable {m : QueuedMessage}

theorem queuedMessageCodec_fits (h : m.Fits) : queuedMessageCodec.fits m := by
  obtain ⟨hi, hr, hd⟩ := h
  have h64 : ∀ n : UInt64, Codec.u64.fits n := fun n => n.toNat_lt
  refine ⟨m.version.toNat_lt, hi, hr, hd, h64 _, m.attempts.toNat_lt, fun n _ => h64 n,
    trivial, h64 _, ?_⟩
  show messageStateCodec.fits m.state
  cases m.state <;> simp [messageStateCodec, Codec.variant]

/-- **A message of the current version is read back.** -/
theorem deserializeQueuedMessage_serialize (hv : m.version = 1) (hf : m.Fits) :
    deserializeQueuedMessage (queuedMessageCodec.serialize m) = some m := by
  refine Codec.readVersioned_serialize (queuedMessageCodec_fits hf) ?_
  cases m
  cases hv
  rfl

/-! ## The operations -/

def maxQueuePerPeer : Nat := 1000
def maxTotalQueued : Nat := 10000
def maxOutboxAttempts : UInt32 := 12

def queuePrefix : String := "outbox_"

def peerPrefix (recipientId : String) : String := queuePrefix ++ recipientId ++ "_"

def QueuedMessage.key (m : QueuedMessage) : String := peerPrefix m.recipientId ++ m.messageId

/-- The queues in memory, or a database. -/
inductive OutboxBackend where
  | memory (queues : Queues String QueuedMessage) (total : Nat)
  | persistent (db : StorageBackend)

structure Outbox where
  backend : OutboxBackend

/-- The clock in milliseconds, and what fails in the storage. -/
structure OutboxEnv where
  nowMs : UInt64
  faults : StorageFaults

namespace Outbox

def new : Outbox := ⟨.memory [] 0⟩

/-- The messages stored under keys with a common beginning; what cannot be read is passed over. -/
def queued (faults : StorageFaults) (db : StorageBackend) (beginning : String) :
    List (String × QueuedMessage) :=
  match db.scanPrefix faults beginning with
  | .error _ => []
  | .ok results => results.filterMap fun e => (deserializeQueuedMessage e.2).map fun msg => (e.1, msg)

def takeOut (faults : StorageFaults) (db : StorageBackend) (beginning : String)
    (p : QueuedMessage → Bool) : List QueuedMessage × StorageBackend :=
  let found := (queued faults db beginning).filter fun e => p e.2
  (found.map Prod.snd, StorageBackend.removeAll faults (found.map Prod.fst) db)

def enqueue (outbox : Outbox) (env : OutboxEnv) (msg : QueuedMessage) : Except String Unit × Outbox :=
  match outbox.backend with
  | .memory queues total =>
    if maxTotalQueued ≤ total then (.error s!"Outbox full ({maxTotalQueued} messages)", outbox)
    else if maxQueuePerPeer ≤ (queues.queueAt msg.recipientId).length then
      (.error s!"Queue full for peer {msg.recipientId} ({maxQueuePerPeer} messages)", outbox)
    else (.ok (), ⟨.memory (queues.pushBack msg.recipientId msg) (total + 1)⟩)
  | .persistent db =>
    let currentTotal := (db.countPrefix env.faults queuePrefix).toOption.getD 0
    let peerCount := (db.countPrefix env.faults (peerPrefix msg.recipientId)).toOption.getD 0
    if maxTotalQueued ≤ currentTotal then
      (.error s!"Outbox full ({maxTotalQueued} messages)", outbox)
    else if maxQueuePerPeer ≤ peerCount then
      (.error s!"Queue full for peer {msg.recipientId} ({maxQueuePerPeer} messages)", outbox)
    else
      match db.put env.faults msg.key (queuedMessageCodec.serialize msg) with
      | (.error e, db') => (.error e, ⟨.persistent db'⟩)
      | (.ok (), db') =>
        match env.faults.flush with
        | some e => (.error e, ⟨.persistent db'⟩)
        | none => (.ok (), ⟨.persistent db'⟩)

def remove (outbox : Outbox) (env : OutboxEnv) (messageId : String) : Bool × Outbox :=
  match outbox.backend with
  | .memory queues total =>
    if queues.all.any (·.messageId = messageId) then
      (true, ⟨.memory (queues.removeFirst (·.messageId = messageId)) (total - 1)⟩)
    else (false, outbox)
  | .persistent db =>
    match (queued env.faults db queuePrefix).find? fun e => e.2.messageId = messageId with
    | some (key, _) => (true, ⟨.persistent (db.remove env.faults key).2⟩)
    | none => (false, outbox)

/-- Take out the messages of a peer.  What is in custody goes and is not returned. -/
def drainForPeer (outbox : Outbox) (env : OutboxEnv) (recipientId : String) :
    List QueuedMessage × Outbox :=
  match outbox.backend with
  | .memory queues total =>
    let queue := queues.queueAt recipientId
    (queue.filter fun m => !m.inCustody,
      ⟨.memory (queues.dropQueue recipientId) (total - queue.length)⟩)
  | .persistent db =>
    let (messages, db') := takeOut env.faults db (peerPrefix recipientId) fun m => !m.inCustody
    (messages, ⟨.persistent db'⟩)

def isDue (nowMs : UInt64) : Option UInt64 → Bool
  | none => true
  | some val => if 10000000000 < val then val ≤ nowMs else val ≤ nowMs / 1000

def flushes (nowMs : UInt64) (m : QueuedMessage) : Bool :=
  !(m.inCustody || m.state ≠ .enqueued) && isDue nowMs m.nextRetryAt

def flushPeerMessages (outbox : Outbox) (env : OutboxEnv) (recipientId : String) :
    List QueuedMessage × Outbox :=
  match outbox.backend with
  | .memory queues total =>
    let drained := (queues.queueAt recipientId).filter (flushes env.nowMs)
    (drained, ⟨.memory (queues.retainAt recipientId fun m => !flushes env.nowMs m)
      (total - drained.length)⟩)
  | .persistent db =>
    let (messages, db') := takeOut env.faults db (peerPrefix recipientId) (flushes env.nowMs)
    (messages, ⟨.persistent db'⟩)

def updateMessage (outbox : Outbox) (env : OutboxEnv) (messageId : String)
    (f : QueuedMessage → QueuedMessage) : Bool × Outbox :=
  match outbox.backend with
  | .memory queues total =>
    (queues.all.any (·.messageId = messageId),
      ⟨.memory (queues.updateFirst (·.messageId = messageId) f) total⟩)
  | .persistent db =>
    match (queued env.faults db queuePrefix).find? fun e => e.2.messageId = messageId with
    | some (key, msg) =>
      (true, ⟨.persistent (db.put env.faults key (queuedMessageCodec.serialize (f msg))).2⟩)
    | none => (false, outbox)

def find (outbox : Outbox) (env : OutboxEnv) (messageId : String) : Option QueuedMessage :=
  match outbox.backend with
  | .memory queues _ => queues.all.find? (·.messageId = messageId)
  | .persistent db =>
    ((queued env.faults db queuePrefix).find? fun e => e.2.messageId = messageId).map Prod.snd

def saturatingSucc (n : UInt32) : UInt32 := if n = 0xFFFFFFFF then n else n + 1

/-- Count an attempt, unless the message is in custody; tells whether it was the last. -/
def recordAttempt (outbox : Outbox) (env : OutboxEnv) (messageId : String) : Bool × Outbox :=
  match outbox.find env messageId with
  | none => (false, outbox)
  | some msg =>
    if msg.inCustody then (false, outbox)
    else
      (maxOutboxAttempts ≤ saturatingSucc msg.attempts,
        (outbox.updateMessage env messageId fun m =>
          { m with attempts := saturatingSucc m.attempts }).2)

def markInCustody (outbox : Outbox) (env : OutboxEnv) (messageId : String)
    (custodyEstablishedAt : UInt64) : Bool × Outbox :=
  outbox.updateMessage env messageId fun m =>
    { m with inCustody := true, custodyEstablishedAt := custodyEstablishedAt }

def markNotInCustody (outbox : Outbox) (env : OutboxEnv) (messageId : String) : Bool × Outbox :=
  outbox.updateMessage env messageId fun m => { m with inCustody := false, custodyEstablishedAt := 0 }

def markSent (outbox : Outbox) (env : OutboxEnv) (messageId : String) : Bool × Outbox :=
  outbox.updateMessage env messageId fun m => { m with state := .sent }

def markFailed (outbox : Outbox) (env : OutboxEnv) (messageId : String) : Bool × Outbox :=
  outbox.updateMessage env messageId fun m => { m with state := .failed }

def expired (nowMs maxAgeSecs : UInt64) (m : QueuedMessage) : Bool :=
  maxAgeSecs.toNat ≤ nowMs.toNat / 1000 - m.queuedAt.toNat

def removeExpired (outbox : Outbox) (env : OutboxEnv) (maxAgeSecs : UInt64) : Nat × Outbox :=
  match outbox.backend with
  | .memory queues total =>
    let kept := queues.retain fun m => !expired env.nowMs maxAgeSecs m
    let removed := queues.all.length - kept.all.length
    (removed, ⟨.memory kept (total - removed)⟩)
  | .persistent db =>
    let (messages, db') := takeOut env.faults db queuePrefix (expired env.nowMs maxAgeSecs)
    (messages.length, ⟨.persistent db'⟩)

/-- The message a removal takes out: the first with the identifier, if the storage lets go of it. -/
def removed (outbox : Outbox) (env : OutboxEnv) (messageId : String) : Option QueuedMessage :=
  match outbox.backend with
  | .memory queues _ => queues.all.find? (·.messageId = messageId)
  | .persistent db =>
    match (queued env.faults db queuePrefix).find? fun e => e.2.messageId = messageId with
    | some (key, q) => if env.faults.remove key = none then some q else none
    | none => none

def messages (outbox : Outbox) : List QueuedMessage :=
  match outbox.backend with
  | .memory queues _ => queues.all
  | .persistent db => (queued .none db queuePrefix).map Prod.snd

end Outbox

/-! ## Messages that are kept -/

/-- A stored message is the accepted one, up to what is noted about its delivery. -/
structure SameMessage (q m : QueuedMessage) : Prop where
  version : q.version = m.version
  messageId : q.messageId = m.messageId
  recipientId : q.recipientId = m.recipientId
  envelopeData : q.envelopeData = m.envelopeData
  queuedAt : q.queuedAt = m.queuedAt

theorem SameMessage.fits {q : QueuedMessage} (h : SameMessage q m) (hm : m.Fits) : q.Fits := by
  rw [QueuedMessage.Fits, h.messageId, h.recipientId, h.envelopeData]
  exact hm

theorem SameMessage.expired {q : QueuedMessage} (h : SameMessage q m) (n ma : UInt64) :
    Outbox.expired n ma q = Outbox.expired n ma m := by
  rw [Outbox.expired, Outbox.expired, h.queuedAt]

/-- A message is kept in the storage: under its own key there is a value that reads as it. -/
structure KeptAt (db : StorageBackend) (m : QueuedMessage) : Prop where
  version : m.version = 1
  fits : m.Fits
  stored : ∃ value q, db.lookup m.key = some value ∧ deserializeQueuedMessage value = some q
    ∧ SameMessage q m

def Kept (outbox : Outbox) (m : QueuedMessage) : Prop :=
  match outbox.backend with
  | .memory queues _ => ∃ q ∈ queues.all, SameMessage q m
  | .persistent db => KeptAt db m

namespace Outbox

variable {faults : StorageFaults} {db : StorageBackend}

theorem mem_queued {b key : String} {q : QueuedMessage} (h : (key, q) ∈ queued faults db b) :
    ∃ v, db.lookup key = some v ∧ deserializeQueuedMessage v = some q
      ∧ startsWith b key = true := by
  unfold queued at h
  split at h
  · cases h
  · rename_i r hs
    obtain ⟨⟨k, v⟩, hm, hr⟩ := List.mem_filterMap.mp h
    obtain ⟨msg, hms, he⟩ := Option.map_eq_some_iff.mp hr
    cases he
    obtain ⟨hl, hk⟩ := (StorageBackend.mem_scanPrefix hs).mp hm
    exact ⟨v, hl, hms, hk⟩

theorem queued_mem {b key : String} {v : Bytes} {q : QueuedMessage} (hs : faults.scan = none)
    (hl : db.lookup key = some v) (hre : deserializeQueuedMessage v = some q)
    (hk : startsWith b key = true) : (key, q) ∈ queued faults db b := by
  obtain ⟨r, hr⟩ : ∃ r, db.scanPrefix faults b = .ok r :=
    ⟨_, by rw [StorageBackend.scanPrefix, hs]⟩
  unfold queued
  rw [hr]
  exact List.mem_filterMap.mpr ⟨(key, v),
    (StorageBackend.mem_scanPrefix hr).mpr ⟨hl, hk⟩, by simp [hre]⟩

end Outbox

/-! ## What a removal takes out -/

namespace Outbox

variable {outbox : Outbox} {env : OutboxEnv} {messageId : String}

theorem queued_none_eq (db : StorageBackend) (b : String) :
    queued .none db b = db.entries.filterMap fun e =>
      if startsWith b e.1 then (deserializeQueuedMessage e.2).map fun msg => (e.1, msg)
      else none := by
  show List.filterMap _ (List.filter _ (List.map _ _)) = _
  rw [List.filterMap_filter, List.filterMap_map]
  rfl

theorem queued_erase {db : StorageBackend} {b key : String} {v : Bytes} {q : QueuedMessage}
    (hl : db.lookup key = some v) (hr : deserializeQueuedMessage v = some q)
    (hk : startsWith b key = true) :
    ∃ l₁ l₂, (queued .none db b).map Prod.snd = l₁ ++ q :: l₂
      ∧ (queued .none (AList.erase key db) b).map Prod.snd = l₁ ++ l₂ := by
  have hm : key ∈ db.entries.keys := List.mem_keys_of_mem (AList.mem_lookup_iff.mp hl)
  obtain ⟨v', e₁, e₂, hn, he, her⟩ := List.exists_of_kerase hm
  have hv : v' = v := by
    have hen : (⟨key, v'⟩ : Sigma fun _ : String => Bytes) ∈ db.entries := by
      rw [he]
      simp
    exact Option.some.inj ((AList.mem_lookup_iff.mpr hen).symm.trans hl)
  subst hv
  rw [queued_none_eq, queued_none_eq, he,
    show (AList.erase key db).entries = e₁ ++ e₂ from her]
  simp only [List.filterMap_append, List.filterMap_cons, hk, hr, if_true, Option.map_some,
    List.map_append, List.map_cons]
  exact ⟨_, _, rfl, rfl⟩

theorem remove_of_removed_none (h : outbox.removed env messageId = none) :
    (outbox.remove env messageId).2 = outbox := by
  obtain ⟨b⟩ := outbox
  cases b with
  | memory q total =>
    have hn : ¬ q.all.any (fun m => m.messageId = messageId) = true := by
      simpa [removed] using h
    simp only [remove, if_neg hn]
  | persistent db =>
    simp only [removed] at h
    simp only [remove]
    split
    · rename_i hfi
      rw [hfi] at h
      simp only at h
      split at h
      · cases h
      · rename_i hf
        obtain ⟨e, he⟩ := Option.ne_none_iff_exists'.mp hf
        simp [StorageBackend.remove, he]
    · rfl

/-- **A removal takes out one message** and keeps the others in their order. -/
theorem remove_of_removed_some {q : QueuedMessage} (h : outbox.removed env messageId = some q) :
    ∃ l₁ l₂, outbox.messages = l₁ ++ q :: l₂
      ∧ (outbox.remove env messageId).2.messages = l₁ ++ l₂ := by
  obtain ⟨b⟩ := outbox
  cases b with
  | memory qu total =>
    have hf : qu.all.find? (fun m => m.messageId = messageId) = some q := h
    have han : qu.all.any (fun m => m.messageId = messageId) = true :=
      List.any_eq_true.mpr ⟨q, List.mem_of_find?_eq_some hf, by simpa using List.find?_some hf⟩
    obtain ⟨hp, l₁, l₂, ha, hn⟩ := List.find?_eq_some_iff_append.mp hf
    have hb : ∀ a ∈ l₁, ¬ decide (a.messageId = messageId) = true := by simpa using hn
    refine ⟨l₁, l₂, ha, ?_⟩
    simp only [remove, han, if_true, messages]
    rw [Queues.all_removeFirst, ha, List.eraseP_append_right _ hb]
    simp only [List.eraseP_cons, hp, cond_true]
  | persistent db =>
    simp only [removed] at h
    split at h
    · rename_i key q' hf
      split at h
      · rename_i hfa
        cases h
        obtain ⟨v, hl, hr, hk⟩ := mem_queued (List.mem_of_find?_eq_some hf)
        simp only [remove, hf, messages, StorageBackend.remove, hfa]
        exact queued_erase hl hr hk
      · cases h
    · cases h

end Outbox

theorem QueuedMessage.startsWith_key (m : QueuedMessage) : startsWith queuePrefix m.key = true := by
  rw [QueuedMessage.key, peerPrefix, String.append_assoc, String.append_assoc]
  exact startsWith_append _ _

/-- **A kept message is in the outbox.** -/
theorem Kept.stored {outbox : Outbox} (h : Kept outbox m) : ∃ q ∈ outbox.messages, SameMessage q m := by
  obtain ⟨b⟩ := outbox
  cases b with
  | memory qu total => exact h
  | persistent db =>
    obtain ⟨v, q, hl, hr, hs⟩ := KeptAt.stored h
    refine ⟨q, List.mem_map.mpr ⟨(m.key, q), ?_, rfl⟩, hs⟩
    exact Outbox.queued_mem rfl hl hr m.startsWith_key

namespace KeptAt

variable {db : StorageBackend} {faults : StorageFaults} {m : QueuedMessage}

theorem same (h : KeptAt db m) {b : String} {q : QueuedMessage}
    (hq : (m.key, q) ∈ Outbox.queued faults db b) : SameMessage q m := by
  obtain ⟨v, q', hl, hr, hs⟩ := h.stored
  obtain ⟨v', hl', hr', -⟩ := Outbox.mem_queued hq
  obtain rfl := Option.some.inj (hl.symm.trans hl')
  obtain rfl := Option.some.inj (hr.symm.trans hr')
  exact hs

theorem of_lookup (h : KeptAt db m) {db' : StorageBackend} (hl : db'.lookup m.key = db.lookup m.key) :
    KeptAt db' m := by
  refine ⟨h.version, h.fits, ?_⟩
  rw [hl]
  exact h.stored

theorem put (h : KeptAt db m) {key : String} {q : QueuedMessage} (hq : key = m.key → SameMessage q m) :
    KeptAt (db.put faults key (queuedMessageCodec.serialize q)).2 m := by
  by_cases hk : key = m.key
  · have hs := hq hk
    subst hk
    by_cases hf : faults.put m.key = none
    · refine ⟨h.version, h.fits, _, q, StorageBackend.lookup_put_self hf, ?_, hs⟩
      exact deserializeQueuedMessage_serialize (hs.version.trans h.version) (hs.fits h.fits)
    · rw [StorageBackend.put_of_fault hf]
      exact h
  · exact h.of_lookup (StorageBackend.lookup_put_of_ne _ (Ne.symm hk))

theorem takeOut (h : KeptAt db m) (b : String) (p : QueuedMessage → Bool) :
    (∃ q ∈ (Outbox.takeOut faults db b p).1, SameMessage q m ∧ p q = true)
      ∨ KeptAt (Outbox.takeOut faults db b p).2 m := by
  by_cases hk : m.key
      ∈ ((Outbox.queued faults db b).filter fun e => p e.2).map Prod.fst
  · left
    obtain ⟨⟨key, q⟩, hm, rfl⟩ := List.mem_map.mp hk
    obtain ⟨hq, hp⟩ := List.mem_filter.mp hm
    exact ⟨q, List.mem_map.mpr ⟨_, hm, rfl⟩, h.same hq, hp⟩
  · right
    exact h.of_lookup (StorageBackend.lookup_removeAll_of_notMem hk)

end KeptAt

/-! ## What each operation does to a kept message -/

def Outbox.Admits (outbox : Outbox) (msg : QueuedMessage) : Prop :=
  match outbox.backend with
  | .memory _ _ => True
  | .persistent db => msg.version = 1 ∧ msg.Fits ∧ db.lookup msg.key = none

/-- No message in the queue of a peer is in custody; on a storage backend it does not matter. -/
def Outbox.Drainable (outbox : Outbox) (recipientId : String) : Prop :=
  match outbox.backend with
  | .memory queues _ => ∀ q ∈ queues.queueAt recipientId, q.inCustody = false
  | .persistent _ => True

instance (outbox : Outbox) (recipientId : String) : Decidable (outbox.Drainable recipientId) :=
  match outbox with
  | ⟨.memory queues _⟩ =>
    inferInstanceAs (Decidable (∀ q ∈ queues.queueAt recipientId, q.inCustody = false))
  | ⟨.persistent _⟩ => inferInstanceAs (Decidable True)

namespace Kept

variable {outbox : Outbox} {env : OutboxEnv} {m : QueuedMessage}

theorem update (h : Kept outbox m) (messageId : String) {f : QueuedMessage → QueuedMessage}
    (hf : ∀ q, SameMessage (f q) q) : Kept (outbox.updateMessage env messageId f).2 m := by
  have hs : ∀ {q}, SameMessage q m → SameMessage (f q) m := fun {q} hq =>
    ⟨(hf q).version.trans hq.version, (hf q).messageId.trans hq.messageId,
      (hf q).recipientId.trans hq.recipientId, (hf q).envelopeData.trans hq.envelopeData,
      (hf q).queuedAt.trans hq.queuedAt⟩
  obtain ⟨b⟩ := outbox
  cases b with
  | memory qu total =>
    obtain ⟨q, hq, hqm⟩ := h
    show ∃ q ∈ (qu.updateFirst _ f).all, SameMessage q m
    rw [Queues.all_updateFirst]
    rcases mem_updateFirst hq with hst | ⟨-, hc⟩
    · exact ⟨q, hst, hqm⟩
    · exact ⟨f q, hc, hs hqm⟩
  | persistent db =>
    simp only [Outbox.updateMessage]
    split
    · rename_i key q hfi
      apply KeptAt.put h
      intro hk
      subst hk
      exact hs (KeptAt.same h (List.mem_of_find?_eq_some hfi))
    · exact h

theorem recordAttempt (h : Kept outbox m) (messageId : String) :
    Kept (outbox.recordAttempt env messageId).2 m := by
  unfold Outbox.recordAttempt
  split
  · exact h
  · split
    · exact h
    · exact h.update messageId fun q => ⟨rfl, rfl, rfl, rfl, rfl⟩

theorem enqueue (h : Kept outbox m) {msg : QueuedMessage} (ha : outbox.Admits msg) :
    Kept (outbox.enqueue env msg).2 m := by
  obtain ⟨b⟩ := outbox
  cases b with
  | memory qu total =>
    obtain ⟨q, hq, hqm⟩ := h
    simp only [Outbox.enqueue]
    split
    · exact ⟨q, hq, hqm⟩
    · split
      · exact ⟨q, hq, hqm⟩
      · exact ⟨q, Queues.mem_all_pushBack.mpr (.inl hq), hqm⟩
  | persistent db =>
    have hp : KeptAt (db.put env.faults msg.key (queuedMessageCodec.serialize msg)).2 m := by
      apply KeptAt.put h
      intro hk
      obtain ⟨v, q, hl, -⟩ := KeptAt.stored h
      rw [← hk, ha.2.2] at hl
      cases hl
    simp only [Outbox.enqueue]
    split
    · exact h
    · split
      · exact h
      · split
        · rename_i hd
          rw [hd] at hp
          exact hp
        · rename_i hd
          rw [hd] at hp
          split <;> exact hp

/-- **A message that was accepted is kept.** -/
theorem enqueued {msg : QueuedMessage} (ha : outbox.Admits msg)
    (ho : (outbox.enqueue env msg).1 = .ok ()) : Kept (outbox.enqueue env msg).2 msg := by
  obtain ⟨b⟩ := outbox
  cases b with
  | memory q total =>
    simp only [Outbox.enqueue] at ho ⊢
    split at ho
    · cases ho
    · rename_i ht
      rw [if_neg ht]
      split at ho
      · cases ho
      · rename_i hp
        rw [if_neg hp]
        exact ⟨msg, Queues.mem_all_pushBack.mpr (.inr rfl), rfl, rfl, rfl, rfl, rfl⟩
  | persistent db =>
    obtain ⟨hv, hfi, -⟩ := ha
    simp only [Outbox.enqueue] at ho ⊢
    split at ho
    · cases ho
    · rename_i ht
      rw [if_neg ht]
      split at ho
      · cases ho
      · rename_i hp
        rw [if_neg hp]
        cases hf : env.faults.put msg.key with
        | some e => simp [StorageBackend.put, hf] at ho
        | none =>
          cases hfl : env.faults.flush with
          | some e => simp [StorageBackend.put, hf, hfl] at ho
          | none =>
            simp only [StorageBackend.put, hf]
            exact ⟨hv, hfi, _, msg, AList.lookup_insert _,
              deserializeQueuedMessage_serialize hv hfi, rfl, rfl, rfl, rfl, rfl⟩

theorem drain (h : Kept outbox m) {r : String} (hf : outbox.Drainable r) :
    (∃ q ∈ (outbox.drainForPeer env r).1, SameMessage q m)
      ∨ Kept (outbox.drainForPeer env r).2 m := by
  obtain ⟨b⟩ := outbox
  cases b with
  | memory qu total =>
    obtain ⟨q, hq, hqm⟩ := h
    rcases Queues.mem_all_dropQueue r hq with hqu | hr
    · left
      refine ⟨q, List.mem_filter.mpr ⟨hqu, ?_⟩, hqm⟩
      rw [hf q hqu]
      rfl
    · exact .inr ⟨q, hr, hqm⟩
  | persistent db =>
    rcases KeptAt.takeOut h (peerPrefix r) fun q => !q.inCustody with
      ⟨q, hq, hqm, -⟩ | hs
    · exact .inl ⟨q, hq, hqm⟩
    · exact .inr hs

theorem flush (h : Kept outbox m) (r : String) :
    (∃ q ∈ (outbox.flushPeerMessages env r).1, SameMessage q m)
      ∨ Kept (outbox.flushPeerMessages env r).2 m := by
  obtain ⟨b⟩ := outbox
  cases b with
  | memory qu total =>
    obtain ⟨q, hq, hqm⟩ := h
    rcases Queues.mem_all_retainAt r (fun q => !Outbox.flushes env.nowMs q) hq with
      ⟨hqu, hd⟩ | hr
    · left
      exact ⟨q, List.mem_filter.mpr ⟨hqu, by simpa using hd⟩, hqm⟩
    · exact .inr ⟨q, hr, hqm⟩
  | persistent db =>
    rcases KeptAt.takeOut h (peerPrefix r) (Outbox.flushes env.nowMs) with
      ⟨q, hq, hqm, -⟩ | hs
    · exact .inl ⟨q, hq, hqm⟩
    · exact .inr hs

theorem remove (h : Kept outbox m) (messageId : String) :
    ((outbox.remove env messageId).1 = true ∧ m.messageId = messageId)
      ∨ Kept (outbox.remove env messageId).2 m := by
  obtain ⟨b⟩ := outbox
  cases b with
  | memory qu total =>
    obtain ⟨q, hq, hqm⟩ := h
    simp only [Outbox.remove]
    split
    · by_cases hi : q.messageId = messageId
      · exact .inl ⟨rfl, hqm.messageId.symm.trans hi⟩
      · right
        show ∃ q ∈ (qu.removeFirst _).all, SameMessage q m
        rw [Queues.all_removeFirst]
        exact ⟨q, (List.mem_eraseP_of_neg (by simpa using hi)).mpr hq, hqm⟩
    · exact .inr ⟨q, hq, hqm⟩
  | persistent db =>
    simp only [Outbox.remove]
    split
    · rename_i key q hf
      by_cases hk : m.key = key
      · subst hk
        have hqm := KeptAt.same h (List.mem_of_find?_eq_some hf)
        have hi := List.find?_some hf
        exact .inl ⟨rfl, hqm.messageId.symm.trans (by simpa using hi)⟩
      · exact .inr (KeptAt.of_lookup h (StorageBackend.lookup_remove_of_ne hk))
    · exact .inr h

theorem removeExpired (h : Kept outbox m) (ma : UInt64) :
    Outbox.expired env.nowMs ma m = true
      ∨ Kept (outbox.removeExpired env ma).2 m := by
  obtain ⟨b⟩ := outbox
  cases b with
  | memory qu total =>
    obtain ⟨q, hq, hqm⟩ := h
    cases he : Outbox.expired env.nowMs ma q with
    | true => exact .inl ((hqm.expired _ _).symm.trans he)
    | false => exact .inr ⟨q, Queues.mem_all_retain.mpr ⟨hq, by simp [he]⟩, hqm⟩
  | persistent db =>
    rcases KeptAt.takeOut h queuePrefix (Outbox.expired env.nowMs ma) with
      ⟨q, -, hqm, he⟩ | hs
    · exact .inl ((hqm.expired _ _).symm.trans he)
    · exact .inr hs

end Kept

/-! ## Runs -/

/-- The calls that change an outbox. -/
inductive OutboxOp where
  | enqueue (msg : QueuedMessage)
  | drainForPeer (recipientId : String)
  | flushPeerMessages (recipientId : String)
  | markInCustody (messageId : String) (custodyEstablishedAt : UInt64)
  | markNotInCustody (messageId : String)
  | recordAttempt (messageId : String)
  | markSent (messageId : String)
  | markFailed (messageId : String)
  | remove (messageId : String)
  | removeExpired (maxAgeSecs : UInt64)

/-- An outbox, with the messages it accepted and has not returned, removed or let expire since. -/
structure OutboxRun where
  outbox : Outbox
  owed : List QueuedMessage

namespace OutboxRun

def without (returned owed : List QueuedMessage) : List QueuedMessage :=
  owed.filter fun m => returned.all fun q => q.messageId ≠ m.messageId

def step (run : OutboxRun) (call : OutboxEnv × OutboxOp) : OutboxRun :=
  match call.2 with
  | .enqueue msg =>
    let (result, outbox) := run.outbox.enqueue call.1 msg
    ⟨outbox, if result.isOk then run.owed ++ [msg] else run.owed⟩
  | .drainForPeer recipientId =>
    let (returned, outbox) := run.outbox.drainForPeer call.1 recipientId
    ⟨outbox, without returned run.owed⟩
  | .flushPeerMessages recipientId =>
    let (returned, outbox) := run.outbox.flushPeerMessages call.1 recipientId
    ⟨outbox, without returned run.owed⟩
  | .markInCustody messageId since =>
    ⟨(run.outbox.markInCustody call.1 messageId since).2, run.owed⟩
  | .markNotInCustody messageId => ⟨(run.outbox.markNotInCustody call.1 messageId).2, run.owed⟩
  | .recordAttempt messageId => ⟨(run.outbox.recordAttempt call.1 messageId).2, run.owed⟩
  | .markSent messageId => ⟨(run.outbox.markSent call.1 messageId).2, run.owed⟩
  | .markFailed messageId => ⟨(run.outbox.markFailed call.1 messageId).2, run.owed⟩
  | .remove messageId =>
    let (removed, outbox) := run.outbox.remove call.1 messageId
    ⟨outbox, if removed then run.owed.filter fun m => m.messageId ≠ messageId else run.owed⟩
  | .removeExpired maxAgeSecs =>
    ⟨(run.outbox.removeExpired call.1 maxAgeSecs).2,
      run.owed.filter fun m => !Outbox.expired call.1.nowMs maxAgeSecs m⟩

end OutboxRun

/-- No message replaces another, and no queue with messages in custody is drained. -/
def OutboxRun.Safe (run : OutboxRun) (call : OutboxEnv × OutboxOp) : Prop :=
  match call.2 with
  | .enqueue msg => run.outbox.Admits msg
  | .drainForPeer recipientId => run.outbox.Drainable recipientId
  | _ => True

theorem OutboxRun.mem_without {r o : List QueuedMessage} (h : m ∈ without r o) :
    m ∈ o ∧ ¬ ∃ q ∈ r, SameMessage q m := by
  obtain ⟨hm, hn⟩ := List.mem_filter.mp h
  refine ⟨hm, ?_⟩
  rintro ⟨q, hq, hqm⟩
  exact of_decide_eq_true (List.all_eq_true.mp hn q hq) hqm.messageId

theorem OutboxRun.step_kept {run : OutboxRun} {c : OutboxEnv × OutboxOp} (hs : run.Safe c)
    (h : ∀ m ∈ run.owed, Kept run.outbox m) :
    ∀ m ∈ (run.step c).owed, Kept (run.step c).outbox m := by
  obtain ⟨env, op⟩ := c
  intro m hm
  cases op with
  | enqueue msg =>
    simp only [step] at hm ⊢
    split at hm
    · rename_i hok
      rcases mem_concat.mp hm with ho | rfl
      · exact (h m ho).enqueue hs
      · apply Kept.enqueued hs
        cases hrs : (run.outbox.enqueue env m).1 with
        | error e => simp [hrs, Except.isOk, Except.toBool] at hok
        | ok u => rfl
    · exact (h m hm).enqueue hs
  | drainForPeer r =>
    obtain ⟨ho, hn⟩ := mem_without hm
    exact ((h m ho).drain hs).resolve_left hn
  | flushPeerMessages r =>
    obtain ⟨ho, hn⟩ := mem_without hm
    exact ((h m ho).flush r).resolve_left hn
  | markInCustody messageId s => exact (h m hm).update messageId fun q => ⟨rfl, rfl, rfl, rfl, rfl⟩
  | markNotInCustody messageId => exact (h m hm).update messageId fun q => ⟨rfl, rfl, rfl, rfl, rfl⟩
  | recordAttempt messageId => exact (h m hm).recordAttempt messageId
  | markSent messageId => exact (h m hm).update messageId fun q => ⟨rfl, rfl, rfl, rfl, rfl⟩
  | markFailed messageId => exact (h m hm).update messageId fun q => ⟨rfl, rfl, rfl, rfl, rfl⟩
  | remove messageId =>
    simp only [step] at hm ⊢
    split at hm
    · obtain ⟨ho, hne⟩ := List.mem_filter.mp hm
      exact ((h m ho).remove messageId).resolve_left fun hr => of_decide_eq_true hne hr.2
    · rename_i hre
      exact ((h m hm).remove messageId).resolve_left fun hr => hre hr.1
  | removeExpired ma =>
    obtain ⟨ho, hf⟩ := List.mem_filter.mp hm
    refine ((h m ho).removeExpired ma).resolve_left fun he => ?_
    simp [he] at hf

/-- **No silent loss in safe runs**: a message stays until it is returned, removed or expired. -/
theorem outbox_keeps (outbox : Outbox) (calls : List (OutboxEnv × OutboxOp))
    (hsafe : Guarded OutboxRun.Safe OutboxRun.step ⟨outbox, []⟩ calls) :
    ∀ m ∈ (calls.foldl OutboxRun.step ⟨outbox, []⟩).owed,
      ∃ q ∈ (calls.foldl OutboxRun.step ⟨outbox, []⟩).outbox.messages, SameMessage q m := by
  have hk := hsafe.invariant (fun run => ∀ m ∈ run.owed, Kept run.outbox m)
    (fun run call h hc => OutboxRun.step_kept hc h) (by simp)
  intro m hm
  exact (hk m hm).stored

def queuedFor (recipientId messageId : String) : QueuedMessage :=
  ⟨1, messageId, recipientId, [42], 0, 0, none, false, 0, .enqueued⟩

def sampleOutboxEnv : OutboxEnv := ⟨5000, .none⟩

def custodyThenFlush : List (OutboxEnv × OutboxOp) :=
  [(sampleOutboxEnv, .enqueue (queuedFor "alice" "m1")),
    (sampleOutboxEnv, .enqueue (queuedFor "bob" "m2")),
    (sampleOutboxEnv, .markInCustody "m1" 5), (sampleOutboxEnv, .flushPeerMessages "alice"),
    (sampleOutboxEnv, .drainForPeer "bob")]

/-- The message in custody is still owed, and it is there. -/
theorem custodyThenFlush_keeps :
    (custodyThenFlush.foldl OutboxRun.step ⟨.new, []⟩).owed = [queuedFor "alice" "m1"]
      ∧ ∀ m ∈ (custodyThenFlush.foldl OutboxRun.step ⟨.new, []⟩).owed,
        ∃ q ∈ (custodyThenFlush.foldl OutboxRun.step ⟨.new, []⟩).outbox.messages,
          SameMessage q m := by
  refine ⟨by decide, outbox_keeps .new custodyThenFlush ?_⟩
  exact ⟨trivial, trivial, trivial, trivial, by unfold OutboxRun.Safe; decide, trivial⟩

def custodyThenDrain : List (OutboxEnv × OutboxOp) :=
  [(sampleOutboxEnv, .enqueue (queuedFor "alice" "m1")), (sampleOutboxEnv, .markInCustody "m1" 5),
    (sampleOutboxEnv, .drainForPeer "alice")]

def sharedKey : List (OutboxEnv × OutboxOp) :=
  [(sampleOutboxEnv, .enqueue (queuedFor "alice" "x_m1")),
    (sampleOutboxEnv, .enqueue (queuedFor "alice_x" "m1"))]

/-- A drain drops the message in custody; on a backend, a message is stored over another. -/
theorem outbox_loses :
    ((custodyThenDrain.foldl OutboxRun.step ⟨.new, []⟩).owed = [queuedFor "alice" "m1"]
        ∧ (custodyThenDrain.foldl OutboxRun.step ⟨.new, []⟩).outbox.messages = [])
      ∧ (sharedKey.foldl OutboxRun.step ⟨⟨.persistent ∅⟩, []⟩).owed
          = [queuedFor "alice" "x_m1", queuedFor "alice_x" "m1"]
        ∧ (sharedKey.foldl OutboxRun.step ⟨⟨.persistent ∅⟩, []⟩).outbox.messages
          = [queuedFor "alice_x" "m1"] := by
  refine ⟨⟨by decide, by decide⟩, by decide +kernel, by decide +kernel⟩

end SCMessenger
