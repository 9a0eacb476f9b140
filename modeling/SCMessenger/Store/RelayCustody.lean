import Mathlib.Data.List.DropRight
import SCMessenger.Lib.Storage

/-!
# Relay custody

The records a relay keeps for recipients that are offline.  A lookup scans the keys that begin with the
destination.  What decides about a new record is a `CustodyPolicy`, and the backend does not fail.
-/

namespace SCMessenger

/-! ## Peers -/

def base58Alphabet : List Char :=
  "123456789ABCDEFGHJKLMNPQRSTUVWXYZabcdefghijkmnopqrstuvwxyz".toList

/-- The text form of a peer identifier. -/
structure PeerId where
  text : String
  base58 : ∀ c ∈ text.toList, c ∈ base58Alphabet
deriving DecidableEq

def PeerId.ofText (text : String) (h : text.toList.all (· ∈ base58Alphabet) = true) : PeerId :=
  ⟨text, by simpa using h⟩

theorem PeerId.underscore_notMem (p : PeerId) : '_' ∉ p.text.toList := by
  intro h
  exact absurd (p.base58 _ h) (by decide)

theorem PeerId.text_inj {p q : PeerId} : p.text = q.text ↔ p = q := by
  cases p
  cases q
  simp

/-! ## Records -/

/-- How far a record has come. -/
inductive CustodyState where
  | accepted
  | dispatching
  | delivered
deriving DecidableEq, Repr

/-- An envelope kept for its recipient. -/
structure CustodyMessage where
  custodyId : String
  relayMessageId : String
  sourcePeerId : String
  destinationPeerId : PeerId
  recipientIdentityId : Option String
  intendedDeviceId : Option String
  envelopeData : Bytes
  state : CustodyState
  acceptedAtMs : Nat
  updatedAtMs : Nat
  deliveryAttempts : Nat
deriving DecidableEq

def custodyMsgPrefix : String := "relay_custody_msg_"
def maxPendingPerDestination : Nat := 10000
def maxDeliveryAttempts : Nat := 12

def RelayCustodyStore.destinationPrefix (destinationPeerId : String) : String :=
  custodyMsgPrefix ++ destinationPeerId ++ "_"

def RelayCustodyStore.messageKey (destinationPeerId custodyId : String) : String :=
  destinationPrefix destinationPeerId ++ custodyId

def CustodyMessage.key (record : CustodyMessage) : String :=
  RelayCustodyStore.messageKey record.destinationPeerId.text record.custodyId

def CustodyMessage.sortsBefore (r s : CustodyMessage) : Bool :=
  r.acceptedAtMs < s.acceptedAtMs ∨ r.acceptedAtMs = s.acceptedAtMs ∧ r.custodyId ≤ s.custodyId

section

variable {α : Type} {f : α → Nat} {r : α → α → Prop}

theorem lex_trans (ht : ∀ a b c, r a b → r b c → r a c) (a b c : α) (ha : f a < f b ∨ f a = f b ∧ r a b)
    (hb : f b < f c ∨ f b = f c ∧ r b c) : f a < f c ∨ f a = f c ∧ r a c := by
  rcases ha with ha | ⟨ha, h⟩
  · rcases hb with hb | ⟨hb, -⟩ <;> exact .inl (by omega)
  · rcases hb with hb | ⟨hb, h'⟩
    · exact .inl (by omega)
    · exact .inr ⟨by omega, ht a b c h h'⟩

theorem lex_total (ht : ∀ a b, r a b ∨ r b a) (a b : α) :
    (f a < f b ∨ f a = f b ∧ r a b) ∨ f b < f a ∨ f b = f a ∧ r b a := by
  rcases Nat.lt_trichotomy (f a) (f b) with h | h | h
  · exact .inl (.inl h)
  · exact (ht a b).imp (fun hl => .inr ⟨h, hl⟩) fun hl => .inr ⟨h.symm, hl⟩
  · exact .inr (.inl h)

end

theorem CustodyMessage.sortsBefore_trans (a b c : CustodyMessage) (ha : a.sortsBefore b = true)
    (hb : b.sortsBefore c = true) : a.sortsBefore c = true := by
  simp only [sortsBefore, decide_eq_true_eq] at ha hb ⊢
  exact lex_trans (f := acceptedAtMs) (r := fun a b => a.custodyId ≤ b.custodyId)
    (fun _ _ _ => String.le_trans) a b c ha hb

theorem CustodyMessage.sortsBefore_total (a b : CustodyMessage) : (a.sortsBefore b || b.sortsBefore a) = true := by
  simp only [sortsBefore, Bool.or_eq_true, decide_eq_true_eq]
  exact lex_total (fun a b => String.le_total a.custodyId b.custodyId) a b

/-- The records by key. -/
structure RelayCustodyStore where
  records : List CustodyMessage
  distinct : (records.map CustodyMessage.key).Nodup
deriving DecidableEq

/-- What storage pressure does before a record is written. -/
structure StoragePressure where
  /-- the keys of the records that were purged -/
  purged : List String
  /-- why there is no room all the same -/
  refused : Option String

/-- The decisions of the registry and of the storage pressure. -/
structure CustodyPolicy where
  normalizeLookupIdentity : String → Except String (Option String)
  enforceCustody : String → String → Except String Unit
  enforceStoragePressure : RelayCustodyStore → CustodyMessage → StoragePressure

/-- Custody is enforced for a request that names both the identity and the device. -/
def CustodyPolicy.enforce (policy : CustodyPolicy) : Option String → Option String → Except String Unit
  | some identityId, some deviceId => policy.enforceCustody identityId deviceId
  | _, _ => .ok ()

def isRustWhitespace (c : Char) : Bool :=
  let n := c.toNat
  (9 ≤ n && n ≤ 13) || n == 0x20 || n == 0x85 || n == 0xA0 || n == 0x1680 || (0x2000 ≤ n && n ≤ 0x200A)
    || n == 0x2028 || n == 0x2029 || n == 0x202F || n == 0x205F || n == 0x3000

def rustTrim (s : String) : String :=
  String.ofList ((s.toList.dropWhile isRustWhitespace).rdropWhile isRustWhitespace)

/-- What a relay is asked to keep. -/
structure CustodyRequest where
  sourcePeerId : String
  destinationPeerId : PeerId
  relayMessageId : String
  envelopeData : Bytes
  recipientIdentityId : Option String
  intendedDeviceId : Option String

def custodyIdOf (relayMessageId : String) (nowMs sequence : Nat) : String :=
  relayMessageId ++ "-" ++ toString nowMs ++ "-" ++ toString sequence

namespace CustodyRequest

def intendedDevice (request : CustodyRequest) : Option String :=
  (request.intendedDeviceId.map rustTrim).filter (¬ ·.isEmpty)

/-- The record of a request when it is accepted. -/
def newMessage (request : CustodyRequest) (recipientIdentityId intendedDeviceId : Option String)
    (nowMs sequence : Nat) : CustodyMessage where
  custodyId := custodyIdOf request.relayMessageId nowMs sequence
  relayMessageId := request.relayMessageId
  sourcePeerId := request.sourcePeerId
  destinationPeerId := request.destinationPeerId
  recipientIdentityId := recipientIdentityId
  intendedDeviceId := intendedDeviceId
  envelopeData := request.envelopeData
  state := .accepted
  acceptedAtMs := nowMs
  updatedAtMs := nowMs
  deliveryAttempts := 0

end CustodyRequest

/-- The outcome of a request: the record that is kept for it, and what was purged to make room. -/
structure CustodyAcceptance where
  result : Except String CustodyMessage
  store : RelayCustodyStore
  purged : List String

namespace RelayCustodyStore

/-! ## The backend -/

def inMemory : RelayCustodyStore := ⟨[], by simp⟩

def retain (store : RelayCustodyStore) (keep : CustodyMessage → Bool) : RelayCustodyStore where
  records := store.records.filter keep
  distinct := (List.filter_sublist.map _).nodup store.distinct

def purge (store : RelayCustodyStore) (keys : List String) : RelayCustodyStore :=
  store.retain fun r => r.key ∉ keys

def scanPrefix (store : RelayCustodyStore) (beginning : String) : List CustodyMessage :=
  store.records.filter fun r => startsWith beginning r.key

def getMessage (store : RelayCustodyStore) (destinationPeerId custodyId : String) :
    Option CustodyMessage :=
  store.records.find? fun r => r.key = messageKey destinationPeerId custodyId

def requireRecord (store : RelayCustodyStore) (destinationPeerId custodyId : String) :
    Except String CustodyMessage :=
  match store.getMessage destinationPeerId custodyId with
  | some record => .ok record
  | none => .error ("custody record not found: " ++ custodyId)

def putMessage (store : RelayCustodyStore) (record : CustodyMessage) : RelayCustodyStore where
  records := store.records.filter (fun r => r.key ≠ record.key) ++ [record]
  distinct := by
    rw [List.map_append, List.nodup_append]
    refine ⟨(List.filter_sublist.map _).nodup store.distinct, by simp, ?_⟩
    intro key hkey key' hkey'
    obtain ⟨r, hr, rfl⟩ := List.mem_map.mp hkey
    obtain rfl : key' = record.key := by simpa using hkey'
    exact of_decide_eq_true (List.mem_filter.mp hr).2

def removeMessage (store : RelayCustodyStore) (destinationPeerId custodyId : String) :
    RelayCustodyStore :=
  store.retain fun r => r.key ≠ messageKey destinationPeerId custodyId

/-! ## Operations -/

def findExisting (store : RelayCustodyStore) (destinationPeerId relayMessageId : String) :
    Option CustodyMessage :=
  (store.scanPrefix (destinationPrefix destinationPeerId)).find? fun r =>
    r.relayMessageId = relayMessageId

def hasMessageForDestination (store : RelayCustodyStore) (destinationPeerId relayMessageId : String) :
    Bool :=
  (store.findExisting destinationPeerId relayMessageId).isSome

def pendingForDestination (store : RelayCustodyStore) (destinationPeerId : String) (limit : Nat) :
    List CustodyMessage :=
  (((store.scanPrefix (destinationPrefix destinationPeerId)).filter fun r =>
    r.state = .accepted).mergeSort CustodyMessage.sortsBefore).take limit

/-- Accept an envelope: the record there is for its message identifier, or a new one. -/
def acceptCustody (store : RelayCustodyStore) (policy : CustodyPolicy) (nowMs sequence : Nat)
    (request : CustodyRequest) : CustodyAcceptance :=
  match store.findExisting request.destinationPeerId.text request.relayMessageId with
  | some existing => ⟨.ok existing, store, []⟩
  | none =>
    let recipientIdentityId :=
      request.recipientIdentityId.bind fun id => (policy.normalizeLookupIdentity id).toOption.join
    let intendedDeviceId := request.intendedDevice
    match policy.enforce recipientIdentityId intendedDeviceId with
    | .error e => ⟨.error e, store, []⟩
    | .ok () =>
      let pendingCount :=
        (store.pendingForDestination request.destinationPeerId.text store.records.length).length
      if maxPendingPerDestination ≤ pendingCount then
        ⟨.error ("custody queue full for destination " ++ request.destinationPeerId.text), store, []⟩
      else
        let message := request.newMessage recipientIdentityId intendedDeviceId nowMs sequence
        let pressure := policy.enforceStoragePressure store message
        let remaining := store.purge pressure.purged
        -- what was purged stays purged when there is no room all the same
        match pressure.refused with
        | some e => ⟨.error e, remaining, pressure.purged⟩
        | none => ⟨.ok message, remaining.putMessage message, pressure.purged⟩

def markDispatching (store : RelayCustodyStore) (nowMs : Nat) (destinationPeerId custodyId : String) :
    Except String RelayCustodyStore :=
  match store.requireRecord destinationPeerId custodyId with
  | .error e => .error e
  | .ok record =>
    match record.state with
    | .dispatching => .ok store
    | .delivered => .ok store
    | .accepted =>
      if maxDeliveryAttempts ≤ record.deliveryAttempts then
        .error s!"Max delivery attempts ({maxDeliveryAttempts}) exceeded for custody {custodyId}"
      else
        .ok (store.putMessage { record with
          state := .dispatching
          updatedAtMs := nowMs
          deliveryAttempts := record.deliveryAttempts + 1 })

def markDispatchFailed (store : RelayCustodyStore) (nowMs : Nat)
    (destinationPeerId custodyId : String) : Except String RelayCustodyStore :=
  match store.requireRecord destinationPeerId custodyId with
  | .error e => .error e
  | .ok record =>
    match record.state with
    | .accepted => .ok store
    | .delivered => .ok store
    | .dispatching => .ok (store.putMessage { record with state := .accepted, updatedAtMs := nowMs })

def markDelivered (store : RelayCustodyStore) (destinationPeerId custodyId : String) :
    Except String RelayCustodyStore :=
  match store.requireRecord destinationPeerId custodyId with
  | .error e => .error e
  | .ok record =>
    match record.state with
    | .delivered => .ok store
    | _ => .ok (store.removeMessage destinationPeerId custodyId)

def converging (store : RelayCustodyStore) (destinationPeerId relayMessageId : String) :
    List CustodyMessage :=
  ((store.scanPrefix (destinationPrefix destinationPeerId)).filter fun r =>
    r.relayMessageId = relayMessageId).filter fun r => r.state ≠ .delivered

/-- Remove the records of a delivered message under the destination named. -/
def convergeDeliveredForMessage (store : RelayCustodyStore)
    (destinationPeerId relayMessageId : String) : RelayCustodyStore :=
  (store.converging destinationPeerId relayMessageId).foldl
    (fun store r => store.removeMessage destinationPeerId r.custodyId) store

def ofIdentity (store : RelayCustodyStore) (identityId : String) (deviceId : Option String) :
    List CustodyMessage :=
  (store.scanPrefix custodyMsgPrefix).filter fun r => r.state ≠ .delivered
    ∧ r.recipientIdentityId = some identityId ∧ (deviceId.isSome → r.intendedDeviceId = deviceId)

def migratePendingIdentityDevice (store : RelayCustodyStore) (policy : CustodyPolicy) (nowMs : Nat)
    (identityId fromDeviceId toDeviceId : String) : Except String RelayCustodyStore :=
  match policy.normalizeLookupIdentity identityId with
  | .error e => .error e
  | .ok none => .ok store
  | .ok (some identityId) =>
    .ok ((store.ofIdentity identityId (some fromDeviceId)).foldl (fun store r => store.putMessage
      { r with intendedDeviceId := some toDeviceId, updatedAtMs := nowMs }) store)

def purgePendingIdentityMessages (store : RelayCustodyStore) (policy : CustodyPolicy)
    (identityId : String) (deviceId : Option String) : Except String RelayCustodyStore :=
  match policy.normalizeLookupIdentity identityId with
  | .error e => .error e
  | .ok none => .ok store
  | .ok (some identityId) =>
    .ok ((store.ofIdentity identityId deviceId).foldl (fun store r =>
      store.removeMessage r.destinationPeerId.text r.custodyId) store)

/-! ## Keys -/

theorem startsWith_key_iff {p : String} (hp : '_' ∉ p.toList) (record : CustodyMessage) :
    startsWith (destinationPrefix p) record.key = true ↔ record.destinationPeerId.text = p := by
  have hi : startsWith (destinationPrefix p) record.key = true
      ↔ p = record.destinationPeerId.text :=
    startsWith_separated hp record.destinationPeerId.underscore_notMem
  exact hi.trans eq_comm

theorem startsWith_own_key (record : CustodyMessage) :
    startsWith (destinationPrefix record.destinationPeerId.text) record.key = true :=
  startsWith_append _ _

theorem messageKey_inj {d d' c c' : String} (hd : '_' ∉ d.toList) (hd' : '_' ∉ d'.toList)
    (h : messageKey d c = messageKey d' c') : d = d' ∧ c = c' := by
  have hl := String.toList_inj.mpr h
  simp only [messageKey, destinationPrefix, String.toList_append, List.append_assoc,
    List.append_cancel_left_eq] at hl
  obtain ⟨hde, hi⟩ := append_separator_inj hd hd' hl
  exact ⟨String.toList_inj.mp hde, String.toList_inj.mp hi⟩

theorem key_inj {r r' : CustodyMessage} (h : r.key = r'.key) :
    r.destinationPeerId = r'.destinationPeerId ∧ r.custodyId = r'.custodyId := by
  obtain ⟨hd, hi⟩ := messageKey_inj r.destinationPeerId.underscore_notMem
    r'.destinationPeerId.underscore_notMem h
  exact ⟨PeerId.text_inj.mp hd, hi⟩

theorem dash_notMem_digits (n : Nat) : '-' ∉ (toString n).toList := by
  intro h
  have hd := Nat.isDigit_of_mem_toDigits (b := 10) (n := n) (by decide) (by decide)
    (by simpa using h)
  simp at hd

theorem toString_toList_inj {m n : Nat} (h : (toString m).toList = (toString n).toList) : m = n := by
  have hd : Nat.toDigits 10 m = Nat.toDigits 10 n := by
    simpa [Nat.toString_eq_ofList_toDigits] using h
  rw [← Nat.ofDigitChars_ten_toDigits (n := m), hd, Nat.ofDigitChars_ten_toDigits]

theorem custodyIdOf_inj {m m' : String} {t t' s s' : Nat} (h : custodyIdOf m t s = custodyIdOf m' t' s') :
    m = m' ∧ t = t' ∧ s = s' := by
  have hl : (m.toList ++ '-' :: (toString t).toList) ++ '-' :: (toString s).toList
      = (m'.toList ++ '-' :: (toString t').toList) ++ '-' :: (toString s').toList := by
    simpa [custodyIdOf] using String.toList_inj.mpr h
  obtain ⟨hf, hn⟩ :=
    separator_append_inj (dash_notMem_digits s) (dash_notMem_digits s') hl
  obtain ⟨hm, ht⟩ :=
    separator_append_inj (dash_notMem_digits t) (dash_notMem_digits t') hf
  exact ⟨String.toList_inj.mp hm, toString_toList_inj ht, toString_toList_inj hn⟩

/-! ## What the operations do -/

section

variable {store : RelayCustodyStore} {record r : CustodyMessage} {d c : String}

theorem eq_of_key_eq (hr : r ∈ store.records) (hre : record ∈ store.records) (h : r.key = record.key) :
    r = record :=
  List.inj_on_of_nodup_map store.distinct hr hre h

theorem mem_retain {k : CustodyMessage → Bool} :
    r ∈ (store.retain k).records ↔ r ∈ store.records ∧ k r = true :=
  List.mem_filter

theorem mem_purge {k : List String} :
    r ∈ (store.purge k).records ↔ r ∈ store.records ∧ r.key ∉ k := by
  simp [purge, mem_retain]

theorem mem_removeMessage :
    r ∈ (store.removeMessage d c).records ↔ r ∈ store.records ∧ r.key ≠ messageKey d c := by
  simp [removeMessage, mem_retain]

theorem mem_putMessage :
    r ∈ (store.putMessage record).records
      ↔ (r ∈ store.records ∧ r.key ≠ record.key) ∨ r = record := by
  simp [putMessage]

theorem requireRecord_ok_iff :
    store.requireRecord d c = .ok r ↔ r ∈ store.records ∧ r.key = messageKey d c := by
  unfold requireRecord getMessage
  constructor
  · intro h
    split at h
    · rename_i fo hf
      cases h
      exact ⟨List.mem_of_find?_eq_some hf, by simpa using List.find?_some hf⟩
    · cases h
  · rintro ⟨hr, hk⟩
    cases hf : store.records.find? fun r => decide (r.key = messageKey d c) with
    | none => exact absurd hk (by simpa using List.find?_eq_none.mp hf r hr)
    | some fo =>
      have hfo : fo.key = messageKey d c := by simpa using List.find?_some hf
      rw [eq_of_key_eq (List.mem_of_find?_eq_some hf) hr (hfo.trans hk.symm)]

theorem mem_of_mem_pending {l : Nat} (h : r ∈ store.pendingForDestination d l) :
    r ∈ store.records ∧ startsWith (destinationPrefix d) r.key = true ∧ r.state = .accepted := by
  have hf := List.mem_mergeSort.mp (List.mem_of_mem_take h)
  simp only [scanPrefix, List.mem_filter, decide_eq_true_eq] at hf
  exact ⟨hf.1.1, hf.1.2, hf.2⟩

theorem mem_pendingForDestination_iff {l : Nat} (hl : store.records.length ≤ l) :
    r ∈ store.pendingForDestination d l
      ↔ r ∈ store.records ∧ startsWith (destinationPrefix d) r.key = true ∧ r.state = .accepted := by
  refine ⟨mem_of_mem_pending, fun ⟨hr, hk, hs⟩ => ?_⟩
  unfold pendingForDestination
  rw [List.take_of_length_le]
  · simp only [List.mem_mergeSort, scanPrefix, List.mem_filter, decide_eq_true_eq]
    exact ⟨⟨hr, hk⟩, hs⟩
  · rw [List.length_mergeSort]
    calc _ ≤ (store.scanPrefix (destinationPrefix d)).length := List.length_filter_le _ _
      _ ≤ store.records.length := List.length_filter_le _ _
      _ ≤ l := hl

theorem findExisting_eq_none_iff {m : String} :
    store.findExisting d m = none
      ↔ ∀ r ∈ store.records, startsWith (destinationPrefix d) r.key = true → r.relayMessageId ≠ m := by
  simp [findExisting, scanPrefix]

theorem purge_nil : store.purge [] = store := by
  cases store
  simp [purge, retain]

theorem removeMessage_purge (k : List String) :
    (store.purge k).removeMessage d c = store.purge (messageKey d c :: k) := by
  simp [removeMessage, purge, retain, List.filter_filter]

/-- A record that keeps what a request asked to keep, as it is first stored. -/
structure Fresh (record : CustodyMessage) (request : CustodyRequest) (nowMs sequence : Nat) : Prop where
  custodyId : record.custodyId = custodyIdOf request.relayMessageId nowMs sequence
  relayMessageId : record.relayMessageId = request.relayMessageId
  destination : record.destinationPeerId = request.destinationPeerId
  envelope : record.envelopeData = request.envelopeData
  state : record.state = .accepted
  attempts : record.deliveryAttempts = 0

/-- A request ends with the record that is there, refused, or with a new record. -/
theorem acceptCustody_cases (store : RelayCustodyStore) (po : CustodyPolicy) (n s : Nat)
    (re : CustodyRequest) :
    (∃ ex ∈ store.records,
        store.acceptCustody po n s re = ⟨.ok ex, store, []⟩)
    ∨ (∃ e p, store.acceptCustody po n s re
        = ⟨.error e, store.purge p, p⟩)
    ∨ ∃ record p, Fresh record re n s
        ∧ store.findExisting re.destinationPeerId.text re.relayMessageId = none
        ∧ store.acceptCustody po n s re
          = ⟨.ok record, (store.purge p).putMessage record, p⟩ := by
  unfold acceptCustody
  cases he : store.findExisting re.destinationPeerId.text re.relayMessageId with
  | some ex =>
    have hm := List.mem_of_mem_filter (List.mem_of_find?_eq_some he)
    exact .inl ⟨ex, hm, rfl⟩
  | none =>
    simp only
    split
    · rename_i e _
      exact .inr (.inl ⟨e, [], by rw [purge_nil]⟩)
    · split
      · exact .inr (.inl ⟨_, [], by rw [purge_nil]⟩)
      · split
        · exact .inr (.inl ⟨_, _, rfl⟩)
        · exact .inr (.inr ⟨_, _, ⟨rfl, rfl, rfl, rfl, rfl, rfl⟩, trivial, rfl⟩)

section

variable {peer : PeerId} (halone : ∀ r ∈ store.records, r.destinationPeerId ≠ peer)
include halone

theorem scanPrefix_of_alone : store.scanPrefix (destinationPrefix peer.text) = [] := by
  refine List.filter_eq_nil_iff.mpr fun r hr hk => halone r hr ?_
  exact PeerId.text_inj.mp ((startsWith_key_iff peer.underscore_notMem r).mp hk)

/-- The first record for a destination is the one that waits for it. -/
theorem pendingForDestination_put_of_alone (hd : record.destinationPeerId = peer)
    (hs : record.state = .accepted) {l : Nat} (hl : 0 < l) :
    (store.putMessage record).pendingForDestination peer.text l = [record] := by
  have hn : (store.records.filter fun r => decide (r.key ≠ record.key)).filter
      (fun r => startsWith (destinationPrefix peer.text) r.key) = [] := by
    rw [List.filter_comm]
    exact congrArg (List.filter _) (scanPrefix_of_alone halone)
  have hk := startsWith_own_key record
  rw [hd] at hk
  rw [pendingForDestination, scanPrefix, putMessage, List.filter_append, hn]
  simp only [hk, hs, List.filter_cons_of_pos, List.filter_nil, List.nil_append, decide_true,
    List.mergeSort_singleton]
  exact List.take_of_length_le (Nat.succ_le_of_lt hl)

/-- Without a record for the destination, a request that is not refused gets a new one. -/
theorem acceptCustody_of_alone {po : CustodyPolicy} (hc : ∀ i d, po.enforceCustody i d = .ok ())
    (hs : ∀ s m, (po.enforceStoragePressure s m).refused = none) (n s : Nat) (re : CustodyRequest)
    (hd : re.destinationPeerId = peer) :
    ∃ record p, Fresh record re n s
      ∧ store.acceptCustody po n s re = ⟨.ok record, (store.purge p).putMessage record, p⟩ := by
  have hsc := scanPrefix_of_alone halone
  have hno : ¬ maxPendingPerDestination ≤ (store.pendingForDestination peer.text store.records.length).length := by
    simp [pendingForDestination, hsc, maxPendingPerDestination]
  unfold acceptCustody
  rw [hd, findExisting, hsc, List.find?_nil]
  simp only [hs, if_neg hno]
  split
  · next he =>
    unfold CustodyPolicy.enforce at he
    split at he
    · cases (hc _ _).symm.trans he
    · cases he
  · exact ⟨_, _, ⟨rfl, rfl, rfl, rfl, rfl, rfl⟩, rfl⟩

end

variable {store' : RelayCustodyStore}

theorem markDispatching_ok {n : Nat} (h : store.markDispatching n d c = .ok store') :
    store' = store ∨ ∃ record ∈ store.records, record.key = messageKey d c ∧ record.state = .accepted
      ∧ record.deliveryAttempts < maxDeliveryAttempts
      ∧ store' = store.putMessage { record with
          state := .dispatching
          updatedAtMs := n
          deliveryAttempts := record.deliveryAttempts + 1 } := by
  unfold markDispatching at h
  split at h
  · cases h
  · rename_i record hg
    obtain ⟨hm, hk⟩ := requireRecord_ok_iff.mp hg
    split at h
    · exact .inl (Except.ok.inj h).symm
    · exact .inl (Except.ok.inj h).symm
    · rename_i hs
      split at h
      · cases h
      · rename_i ha
        exact .inr ⟨record, hm, hk, hs, by omega, (Except.ok.inj h).symm⟩

theorem markDispatchFailed_ok {n : Nat} (h : store.markDispatchFailed n d c = .ok store') :
    store' = store ∨ ∃ record ∈ store.records, record.key = messageKey d c
      ∧ record.state = .dispatching
      ∧ store' = store.putMessage { record with state := .accepted, updatedAtMs := n } := by
  unfold markDispatchFailed at h
  split at h
  · cases h
  · rename_i record hg
    obtain ⟨hm, hk⟩ := requireRecord_ok_iff.mp hg
    split at h
    · exact .inl (Except.ok.inj h).symm
    · exact .inl (Except.ok.inj h).symm
    · rename_i hs
      exact .inr ⟨record, hm, hk, hs, (Except.ok.inj h).symm⟩

theorem markDelivered_ok (h : store.markDelivered d c = .ok store') :
    (store' = store ∧ ∃ record ∈ store.records, record.key = messageKey d c
        ∧ record.state = .delivered)
    ∨ store' = store.removeMessage d c := by
  unfold markDelivered at h
  split at h
  · cases h
  · rename_i record hg
    obtain ⟨hm, hk⟩ := requireRecord_ok_iff.mp hg
    split at h
    · rename_i hs
      exact .inl ⟨(Except.ok.inj h).symm, record, hm, hk, hs⟩
    · exact .inr (Except.ok.inj h).symm

theorem mem_foldl_removeMessage {α : Type} {de ci : α → String} {l : List α} :
    r ∈ (l.foldl (fun store x => store.removeMessage (de x) (ci x)) store).records
      ↔ r ∈ store.records ∧ ∀ x ∈ l, r.key ≠ messageKey (de x) (ci x) := by
  induction l generalizing store with
  | nil => simp
  | cons x l ih =>
    rw [List.foldl_cons, ih, mem_removeMessage]
    simp only [List.mem_cons, forall_eq_or_imp, and_assoc]

theorem mem_converging {m : String} :
    r ∈ store.converging d m ↔ r ∈ store.records ∧ startsWith (destinationPrefix d) r.key = true
      ∧ r.relayMessageId = m ∧ r.state ≠ .delivered := by
  simp only [converging, scanPrefix, List.mem_filter, decide_eq_true_eq, and_assoc]

theorem mem_convergeDeliveredForMessage {m : String} :
    r ∈ (store.convergeDeliveredForMessage d m).records
      ↔ r ∈ store.records ∧ ∀ r' ∈ store.converging d m, r.key ≠ messageKey d r'.custodyId :=
  mem_foldl_removeMessage

end

/-! ## Where records come from -/

/-- A record keeps what a request asked to keep. -/
structure Keeps (record : CustodyMessage) (request : CustodyRequest) : Prop where
  destination : record.destinationPeerId = request.destinationPeerId
  messageId : record.relayMessageId = request.relayMessageId
  envelope : record.envelopeData = request.envelopeData

def Provenance (requests : List CustodyRequest) (store : RelayCustodyStore) : Prop :=
  ∀ record ∈ store.records, ∃ request ∈ requests, Keeps record request

namespace Provenance

variable {requests : List CustodyRequest} {store store' : RelayCustodyStore} {d c : String}

theorem put (h : Provenance requests store) {record : CustodyMessage}
    (hre : ∃ re ∈ requests, Keeps record re) :
    Provenance requests (store.putMessage record) := by
  intro r hr
  rcases mem_putMessage.mp hr with ⟨ho, -⟩ | rfl
  · exact h r ho
  · exact hre

theorem purge (h : Provenance requests store) (k : List String) :
    Provenance requests (store.purge k) :=
  fun r hr => h r (mem_purge.mp hr).1

theorem accept (h : Provenance requests store) (po : CustodyPolicy) (n s : Nat)
    (re : CustodyRequest) :
    Provenance (match (store.acceptCustody po n s re).result with
      | .ok _ => requests ++ [re]
      | .error _ => requests) (store.acceptCustody po n s re).store := by
  have hm : Provenance (requests ++ [re]) store := by
    intro r hr
    obtain ⟨q, hq, hk⟩ := h r hr
    exact ⟨q, List.mem_append_left _ hq, hk⟩
  rcases acceptCustody_cases store po n s re with
    ⟨ex, -, he⟩ | ⟨e, p, he⟩ | ⟨record, p, hf, -, he⟩
  · rw [he]
    exact hm
  · rw [he]
    exact h.purge p
  · rw [he]
    exact (hm.purge p).put ⟨re, by simp, hf.destination, hf.relayMessageId,
      hf.envelope⟩

theorem markDispatching (h : Provenance requests store) {n : Nat}
    (hm : store.markDispatching n d c = .ok store') : Provenance requests store' := by
  rcases markDispatching_ok hm with rfl | ⟨r, hr, -, -, -, rfl⟩
  · exact h
  · obtain ⟨q, hq, hk⟩ := h r hr
    exact h.put ⟨q, hq, hk.destination, hk.messageId, hk.envelope⟩

theorem markDispatchFailed (h : Provenance requests store) {n : Nat}
    (hm : store.markDispatchFailed n d c = .ok store') : Provenance requests store' := by
  rcases markDispatchFailed_ok hm with rfl | ⟨r, hr, -, -, rfl⟩
  · exact h
  · obtain ⟨q, hq, hk⟩ := h r hr
    exact h.put ⟨q, hq, hk.destination, hk.messageId, hk.envelope⟩

theorem markDelivered (h : Provenance requests store) (hm : store.markDelivered d c = .ok store') :
    Provenance requests store' := by
  rcases markDelivered_ok hm with ⟨rfl, -⟩ | rfl
  · exact h
  · exact fun r hr => h r (mem_removeMessage.mp hr).1

end Provenance

end RelayCustodyStore

/-! ## A sample relay -/

def bobPeer : PeerId := .ofText "bob" (by decide)

def openPolicy : CustodyPolicy where
  normalizeLookupIdentity id := .ok (some id)
  enforceCustody _ _ := .ok ()
  enforceStoragePressure _ _ := ⟨[], none⟩

end SCMessenger
