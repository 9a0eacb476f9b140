import Mathlib.Data.List.Count
import SCMessenger.Lib.Bincode
import SCMessenger.Lib.Run
import SCMessenger.Lib.Storage
import SCMessenger.Lib.TermModel
import SCMessenger.Store.Inbox

/-!
# Which messages an inbox takes for seen

In memory the ids are forgotten in the order in which they came.  On a backend a thousand go at once, those
the set happens to list first.
-/

namespace SCMessenger

namespace Inbox

def clearMessages (inbox : Inbox) : Inbox :=
  match inbox.backend with
  | .memory seenIds seenOrder _ _ => ⟨.memory seenIds seenOrder (fun _ => []) 0⟩
  | .persistent seenIds stored =>
    ⟨.persistent seenIds fun key => if startsWith messagesPrefix key then none else stored key⟩

/-- Return the messages in the order the senders or keys are listed, and forget them. -/
def drainReceivedMessages (inbox : Inbox) (listing : List String) : List ReceivedMessage × Inbox :=
  (match inbox.backend with
    | .memory _ _ messages _ => listing.flatMap messages
    | .persistent _ stored => listing.filterMap stored, inbox.clearMessages)

variable {K : Type} {P : Primitives K} {inbox : Inbox} {msg : ReceivedMessage}

theorem receive_fst (iterate : List (Arr 32) → List (Arr 32)) :
    (inbox.receive P iterate msg).1 = !inbox.isDuplicate P msg.messageId := by
  obtain ⟨b⟩ := inbox
  cases b with
  | memory seenIds s messages total => simp only [receive, isDuplicate]; split <;> simp_all
  | persistent seenIds stored => simp only [receive, isDuplicate]; split <;> simp_all

/-! ## The window in memory -/

theorem evictOldest_of_le {ids o : List (Arr 32)} (h : ids.length ≤ maxSeenIds) (n : Nat) :
    evictOldest n ids o = (ids, o) := by
  cases n with
  | zero => rfl
  | succ n => simp only [evictOldest, if_neg (Nat.not_lt.mpr h)]

theorem evictOldest_of_full {ids re : List (Arr 32)} {old : Arr 32} (h : ids.length = maxSeenIds + 1)
    (ho : old ∈ ids) (n : Nat) : evictOldest (n + 1) ids (old :: re) = (ids.erase old, re) := by
  have hl : (ids.erase old).length ≤ maxSeenIds := by
    rw [List.length_erase_of_mem ho, h]
    exact Nat.le_refl _
  simp only [evictOldest, if_pos (show maxSeenIds < ids.length by omega)]
  exact evictOldest_of_le hl n

end Inbox

def recent (accepted : List String) : List String := accepted.drop (accepted.length - maxSeenIds)

theorem length_recent (a : List String) : (recent a).length = min a.length maxSeenIds := by
  rw [recent, List.length_drop]
  omega

theorem recent_concat (a : List String) (id : String) :
    recent (a ++ [id])
      = (if a.length < maxSeenIds then recent a else (recent a).tail) ++ [id] := by
  have hp : 0 < maxSeenIds := by decide
  rw [recent, recent, List.length_append, List.length_singleton, List.drop_append_of_le_length (by omega)]
  split
  · rw [show a.length + 1 - maxSeenIds = a.length - maxSeenIds by omega]
  · rw [List.tail_drop, show a.length + 1 - maxSeenIds = a.length - maxSeenIds + 1 by omega]

/-- The calls that change an inbox. -/
inductive InboxOp where
  | receive (msg : ReceivedMessage)
  | drainReceivedMessages (listing : List String)
  | clearMessages

/-- An inbox, and the ids it accepted so far, the oldest first. -/
structure InboxRun where
  inbox : Inbox
  accepted : List String

namespace InboxRun

variable {K : Type} (P : Primitives K) (iterate : List (Arr 32) → List (Arr 32))

def step (r : InboxRun) : InboxOp → InboxRun
  | .receive msg =>
    let (isNew, inbox) := r.inbox.receive P iterate msg
    ⟨inbox, if isNew then r.accepted ++ [msg.messageId] else r.accepted⟩
  | .drainReceivedMessages listing => ⟨(r.inbox.drainReceivedMessages listing).2, r.accepted⟩
  | .clearMessages => ⟨r.inbox.clearMessages, r.accepted⟩

def Remembers (r : InboxRun) : Prop :=
  ∃ ids messages total, r.inbox = ⟨.memory ids ((recent r.accepted).map (Inbox.idHash P)) messages total⟩
    ∧ ids.Perm ((recent r.accepted).map (Inbox.idHash P))

variable {P iterate} {r : InboxRun}

/-- **One call keeps the window.** -/
theorem Remembers.step (h : r.Remembers P) (op : InboxOp) : (r.step P iterate op).Remembers P := by
  obtain ⟨inbox, accepted⟩ := r
  obtain ⟨ids, messages, total, hi, hp⟩ := h
  simp only at hi hp
  subst hi
  cases op with
  | drainReceivedMessages l => exact ⟨ids, _, _, rfl, hp⟩
  | clearMessages => exact ⟨ids, _, _, rfl, hp⟩
  | receive msg =>
    simp only [InboxRun.step, Inbox.receive]
    split
    · exact ⟨ids, messages, total, rfl, hp⟩
    · have hl : ids.length = min accepted.length maxSeenIds := by
        rw [hp.length_eq, List.length_map, length_recent]
      have hm := (hp.cons (Inbox.idHash P msg.messageId)).trans
        (List.perm_append_singleton _ _).symm
      have hn := congrArg (List.map (Inbox.idHash P)) (recent_concat accepted msg.messageId)
      rw [List.map_append] at hn
      by_cases hro : accepted.length < maxSeenIds
      · rw [if_pos hro] at hn
        rw [Inbox.evictOldest_of_le (by rw [List.length_cons]; omega)]
        exact ⟨_, _, _, by rw [if_pos rfl, hn]; rfl, by rw [if_pos rfl, hn]; exact hm⟩
      · rw [if_neg hro] at hn
        cases hr : recent accepted with
        | nil =>
          rw [hr, List.map_nil] at hp
          simp only [hp.eq_nil, List.length_nil, maxSeenIds] at hl hro
          omega
        | cons old re =>
          rw [hr] at hm hn
          rw [List.map_cons, List.cons_append, Inbox.evictOldest_of_full (by rw [List.length_cons]; omega)
            (hm.mem_iff.mpr (by simp))]
          exact ⟨_, _, _, by rw [if_pos rfl, hn]; rfl, by
            rw [if_pos rfl, hn]
            simpa using hm.erase (Inbox.idHash P old)⟩

theorem mem_accepted_step {op : InboxOp} {id : String} (h : id ∈ (r.step P iterate op).accepted) :
    id ∈ r.accepted ∨ ∃ msg, op = .receive msg ∧ msg.messageId = id := by
  cases op with
  | drainReceivedMessages l => exact .inl h
  | clearMessages => exact .inl h
  | receive msg =>
    simp only [InboxRun.step] at h
    split at h
    · exact (mem_concat.mp h).imp_right fun he => ⟨msg, rfl, he.symm⟩
    · exact .inl h

end InboxRun

/-- **The window of an inbox in memory**: the 50,000 ids accepted last are taken for seen. -/
theorem dedup_window {K : Type} {P : Primitives K} {ids : Set String} (hhash : Set.InjOn (Inbox.idHash P) ids)
    (iterate : List (Arr 32) → List (Arr 32)) (ops : List InboxOp)
    (hops : ∀ msg, .receive msg ∈ ops → msg.messageId ∈ ids) :
    let r := ops.foldl (InboxRun.step P iterate) ⟨.new, []⟩
    (∀ id ∈ ids, r.inbox.isDuplicate P id = true ↔ id ∈ r.accepted.drop (r.accepted.length - 50000))
      ∧ ∀ msg, (r.inbox.receive P iterate msg).1 = !r.inbox.isDuplicate P msg.messageId := by
  have hg : ∀ op ∈ ops, ∀ msg, op = .receive msg → msg.messageId ∈ ids := by
    rintro op ho msg rfl
    exact hops msg ho
  obtain ⟨⟨seen, messages, total, hi, hp⟩, hs⟩ :=
    (Guarded.of_forall (InboxRun.step P iterate) hg ⟨.new, []⟩).invariant
      (fun r => r.Remembers P ∧ ∀ id ∈ r.accepted, id ∈ ids)
      (fun r op hr ho => ⟨hr.1.step op, fun id hid => by
        rcases InboxRun.mem_accepted_step hid with hol | ⟨msg, rfl, rfl⟩
        · exact hr.2 id hol
        · exact ho msg rfl⟩)
      ⟨⟨[], _, 0, rfl, .nil⟩, by simp⟩
  refine ⟨fun id hid => ?_, fun msg => Inbox.receive_fst iterate⟩
  rw [hi, Inbox.isDuplicate, List.contains_iff_mem, hp.mem_iff]
  constructor
  · intro hm
    obtain ⟨id', hi', he⟩ := List.mem_map.mp hm
    rwa [← hhash (hs id' (List.mem_of_mem_drop hi')) hid he]
  · exact List.mem_map_of_mem

def messageFrom (id : String) : ReceivedMessage := ⟨1, id, "alice", [], 0, none⟩

/-- A message that comes twice, with the messages cleared in between. -/
theorem dedup_window_sample :
    let r := [InboxOp.receive (messageFrom "a"), .clearMessages, .receive (messageFrom "a")].foldl
      (InboxRun.step termPrimitives id) ⟨.new, []⟩
    r.accepted = ["a"] ∧ (r.inbox.receive termPrimitives id (messageFrom "a")).1 = false := by
  have hh : Set.InjOn (Inbox.idHash termPrimitives) {"a"} := Set.injOn_singleton _ _
  obtain ⟨hs, hn⟩ := dedup_window hh id
    [.receive (messageFrom "a"), .clearMessages, .receive (messageFrom "a")] (by simp [messageFrom])
  have ha : ([InboxOp.receive (messageFrom "a"), .clearMessages, .receive (messageFrom "a")].foldl
      (InboxRun.step termPrimitives id) ⟨.new, []⟩).accepted = ["a"] := by decide +kernel
  refine ⟨ha, ?_⟩
  have hd := (hs "a" rfl).mpr (by rw [ha]; simp)
  rw [hn, show (messageFrom "a").messageId = "a" from rfl, hd]
  rfl

/-! ## The set on a storage backend -/

namespace Inbox

variable {K : Type} {P : Primitives K} {seen : List (Arr 32)} {stored : String → Option ReceivedMessage}
  {msg : ReceivedMessage}

theorem isDuplicate_receive_iff (iterate : List (Arr 32) → List (Arr 32))
    (hn : idHash P msg.messageId ∉ seen) :
    (receive P ⟨.persistent seen stored⟩ iterate msg).2.isDuplicate P msg.messageId = true
      ↔ seen.length < maxSeenIds
        ∨ idHash P msg.messageId ∉ (iterate (idHash P msg.messageId :: seen)).take evictedSeenIds := by
  have hc : seen.contains (idHash P msg.messageId) = false := by simpa using hn
  simp only [receive, hc, Bool.false_eq_true, if_false, isDuplicate, List.contains_iff_mem,
    List.length_cons]
  split
  · -- the hash is in the set once, so it is left exactly if it is not evicted
    have hcn : (idHash P msg.messageId :: seen).count (idHash P msg.messageId) = 1 := by
      rw [List.count_cons_self, List.count_eq_zero.mpr hn]
    rw [← List.count_pos_iff, List.count_diff, hcn, or_iff_right (by omega), ← List.count_eq_zero]
    omega
  · exact iff_of_true List.mem_cons_self (.inl (by omega))

/-- **A repeat is rejected** exactly if the set had room or lists the new id after the first thousand. -/
theorem repeat_rejected_iff (iterate iterate' : List (Arr 32) → List (Arr 32))
    (hnew : (receive P ⟨.persistent seen stored⟩ iterate msg).1 = true) :
    ((receive P ⟨.persistent seen stored⟩ iterate msg).2.receive P iterate' msg).1 = false
      ↔ seen.length < 50000
        ∨ idHash P msg.messageId ∉ (iterate (idHash P msg.messageId :: seen)).take 1000 := by
  rw [receive_fst, Bool.not_eq_true', isDuplicate, ← Bool.not_eq_true, List.contains_iff_mem] at hnew
  rw [receive_fst, Bool.not_eq_false', isDuplicate_receive_iff iterate hnew]
  rfl

theorem repeat_rejected_first :
    ((receive termPrimitives ⟨.persistent [] fun _ => none⟩ id (messageFrom "a")).2.receive termPrimitives id
      (messageFrom "a")).1 = false :=
  (repeat_rejected_iff id id (by rw [receive_fst]; rfl)).mpr (.inl (by decide))

def fullSeenIds : List (Arr 32) := (List.range 50000).map fun i => Arr.fit 32 (leBytes 2 i)

/-- The set is full and lists the new id first: the message is accepted twice. -/
theorem repeat_accepted :
    let inbox : Inbox := ⟨.persistent fullSeenIds fun _ => none⟩
    fullSeenIds.Nodup ∧ (inbox.receive termPrimitives id (messageFrom "abc")).1 = true
      ∧ ((inbox.receive termPrimitives id (messageFrom "abc")).2.receive termPrimitives id
        (messageFrom "abc")).1 = true := by
  have hf : ∀ i, (Arr.fit 32 (leBytes 2 i)).1.take 3 = leBytes 2 i ++ [0] := by
    intro i
    simp [Arr.fit, leBytes]
  have hn : idHash termPrimitives "abc" ∉ fullSeenIds := by
    intro hm
    obtain ⟨i, -, he⟩ := List.mem_map.mp hm
    have hh : (idHash termPrimitives "abc").1.take 3 = [97, 98, 99] := by decide +kernel
    have ht := hf i
    rw [he, hh] at ht
    simp [leBytes] at ht
  have hno : fullSeenIds.Nodup := by
    refine List.Nodup.map_on (fun i hi j hj he => ?_) List.nodup_range
    have ht := hf i
    rw [he, hf j] at ht
    exact leBytes_inj ((List.mem_range.mp hi).trans (by decide)) ((List.mem_range.mp hj).trans (by decide))
      (List.append_cancel_right ht).symm
  refine ⟨hno, by rw [receive_fst]; simpa [isDuplicate, messageFrom] using hn, ?_⟩
  rw [receive_fst, Bool.not_eq_true', ← Bool.not_eq_true, isDuplicate_receive_iff id hn]
  simp [fullSeenIds, maxSeenIds, evictedSeenIds, messageFrom]

end Inbox

end SCMessenger
