import SCMessenger.Lib.Queues
import SCMessenger.Transport.Swarm

/-!
# Which records a pull dispatches

A pull reads the 64 oldest records that wait and passes over those that used up their attempts, which stay
where they are.
-/

namespace SCMessenger

/-! ## The order of waiting records -/

namespace RelayCustodyStore

/-- A record is taken before another: it was accepted earlier, or has the smaller identifier. -/
def Before (r s : CustodyMessage) : Prop :=
  r.acceptedAtMs < s.acceptedAtMs ∨ r.acceptedAtMs = s.acceptedAtMs ∧ r.custodyId < s.custodyId

instance : DecidableRel Before := fun _ _ => inferInstanceAs (Decidable (_ ∨ _ ∧ _))

def WaitsFor (peer : PeerId) (r : CustodyMessage) : Prop :=
  r.destinationPeerId = peer ∧ r.state = .accepted

instance (peer : PeerId) (r : CustodyMessage) : Decidable (WaitsFor peer r) :=
  inferInstanceAs (Decidable (_ ∧ _))

def ahead (store : RelayCustodyStore) (r : CustodyMessage) : List CustodyMessage :=
  store.records.filter fun s => WaitsFor r.destinationPeerId s ∧ Before s r

def HasAttempts (r : CustodyMessage) : Prop := r.deliveryAttempts < maxDeliveryAttempts

instance (r : CustodyMessage) : Decidable (HasAttempts r) := inferInstanceAs (Decidable (_ < _))

theorem Before.irrefl (r : CustodyMessage) : ¬ Before r r := by
  unfold Before
  simp

theorem Before.asymm (r s : CustodyMessage) (h : Before r s) : ¬ Before s r := by
  unfold Before at h ⊢
  rintro (h' | ⟨h', hi'⟩)
  · rcases h with h | ⟨h, -⟩ <;> omega
  · rcases h with h | ⟨-, hi⟩
    · omega
    · exact String.lt_asymm hi hi'

variable {store : RelayCustodyStore} {peer : PeerId}

def queue (store : RelayCustodyStore) (peer : PeerId) : List CustodyMessage :=
  (store.records.filter fun r => WaitsFor peer r).mergeSort CustodyMessage.sortsBefore

theorem pendingForDestination_eq_take (l : Nat) :
    store.pendingForDestination peer.text l = (store.queue peer).take l := by
  have hf : (store.scanPrefix (destinationPrefix peer.text)).filter (fun r => r.state = .accepted)
      = store.records.filter fun r => WaitsFor peer r := by
    rw [scanPrefix, List.filter_filter]
    refine List.filter_congr fun r _ => ?_
    have hd := (startsWith_key_iff peer.underscore_notMem r).trans PeerId.text_inj
    rw [Bool.eq_iff_iff]
    simp only [Bool.and_eq_true, decide_eq_true_eq, hd]
    exact And.comm
  rw [pendingForDestination, hf, queue]

variable {r : CustodyMessage}

theorem mem_queue : r ∈ store.queue peer ↔ r ∈ store.records ∧ WaitsFor peer r := by
  rw [queue, List.mem_mergeSort, List.mem_filter, decide_eq_true_eq]

theorem queue_pairwise : (store.queue peer).Pairwise Before := by
  have hso : (store.queue peer).Pairwise fun r s => r.sortsBefore s = true :=
    List.pairwise_mergeSort CustodyMessage.sortsBefore_trans CustodyMessage.sortsBefore_total _
  have hn : (store.queue peer).Nodup :=
    (List.mergeSort_perm _ _).nodup_iff.mpr ((List.Nodup.of_map _ store.distinct).filter _)
  refine (hso.and hn).imp_of_mem ?_
  rintro r s hr hs ⟨hl, hne⟩
  obtain ⟨hr, hrd, -⟩ := mem_queue.mp hr
  obtain ⟨hs, hsd, -⟩ := mem_queue.mp hs
  rcases of_decide_eq_true hl with hlt | ⟨he, hi⟩
  · exact .inl hlt
  · refine .inr ⟨he, Std.lt_of_le_of_ne hi fun hsa => hne ?_⟩
    refine eq_of_key_eq hr hs ?_
    rw [CustodyMessage.key, CustodyMessage.key, hrd, hsd, hsa]

/-- **A record is read by a pull** exactly when few enough records are ahead of it. -/
theorem mem_pending_iff_ahead (hr : r ∈ store.records) (hw : WaitsFor peer r) (l : Nat) :
    r ∈ store.pendingForDestination peer.text l ↔ (store.ahead r).length < l := by
  rw [pendingForDestination_eq_take,
    mem_take_iff_of_pairwise Before.irrefl Before.asymm queue_pairwise (mem_queue.mpr ⟨hr, hw⟩)]
  have hp := (List.mergeSort_perm (store.records.filter fun s => WaitsFor peer s)
    CustodyMessage.sortsBefore).filter fun s => Before s r
  rw [queue, hp.length_eq, List.filter_filter, ahead, hw.1]
  simp only [Bool.decide_and, Bool.and_comm]

/-! ## Marking records -/

def IsDispatching (store : RelayCustodyStore) (key : String) : Prop :=
  ∃ r ∈ store.records, r.key = key ∧ r.state = .dispatching

theorem markDispatching_of_waits (hr : r ∈ store.records) (hw : WaitsFor peer r) (n : Nat) :
    (HasAttempts r → ∃ s', store.markDispatching n peer.text r.custodyId = .ok s'
        ∧ s'.IsDispatching r.key)
      ∧ (¬ HasAttempts r → ∃ e, store.markDispatching n peer.text r.custodyId = .error e) := by
  have hg : store.requireRecord peer.text r.custodyId = .ok r :=
    requireRecord_ok_iff.mpr ⟨hr, by rw [CustodyMessage.key, hw.1]⟩
  unfold markDispatching
  rw [hg]
  simp only [hw.2]
  constructor
  · intro ha
    rw [if_neg (Nat.not_le.mpr ha)]
    exact ⟨_, rfl, _, mem_putMessage.mpr (.inr rfl), rfl, rfl⟩
  · intro he
    rw [if_pos (Nat.not_lt.mp he)]
    exact ⟨_, rfl⟩

theorem IsDispatching.markDispatching {key d c : String} {n : Nat} {s' : RelayCustodyStore}
    (h : store.IsDispatching key) (hm : store.markDispatching n d c = .ok s') :
    s'.IsDispatching key := by
  obtain ⟨r, hr, hk, hs⟩ := h
  rcases markDispatching_ok hm with rfl | ⟨record, hre, -, hw, -, rfl⟩
  · exact ⟨r, hr, hk, hs⟩
  · refine ⟨r, mem_putMessage.mpr (.inl ⟨hr, fun hsa => ?_⟩), hk, hs⟩
    rw [eq_of_key_eq hr hre hsa, hw] at hs
    cases hs

end RelayCustodyStore

/-! ## The pull -/

open RelayCustodyStore

variable {crc32 : Bytes → UInt32} {env : PullEnv} {peer : PeerId}

namespace RelayNode

variable {node : RelayNode}

theorem dispatchRecords_keeps {key : String} (p : List CustodyMessage)
    (h : node.store.IsDispatching key) :
    (node.dispatchRecords crc32 env peer p).store.IsDispatching key := by
  induction p generalizing node with
  | nil => exact h
  | cons c re ih =>
    simp only [dispatchRecords]
    split
    · exact h
    · split
      · exact ih h
      · rename_i hm
        exact ih (h.markDispatching hm)

theorem dispatchRecords_of_exhausted {p : List CustodyMessage}
    (h : ∀ r ∈ p, r ∈ node.store.records ∧ WaitsFor peer r ∧ ¬ HasAttempts r) :
    node.dispatchRecords crc32 env peer p = node := by
  induction p with
  | nil => rfl
  | cons c re ih =>
    obtain ⟨hm, hw, he⟩ := h c List.mem_cons_self
    obtain ⟨e, her⟩ := (markDispatching_of_waits hm hw env.nowMs).2 he
    simp only [dispatchRecords, her]
    split
    · rfl
    · exact ih fun r hr => h r (List.mem_cons_of_mem _ hr)

theorem dispatchRecords_marks {p : List CustodyMessage}
    (hro : node.pendingCustodyDispatches.keys.length < env.maxInflightDispatches)
    (hp : ∀ r ∈ p, r ∈ node.store.records ∧ WaitsFor peer r)
    (ha : ∃ r ∈ p, HasAttempts r) :
    ∃ r ∈ p, (node.dispatchRecords crc32 env peer p).store.IsDispatching r.key := by
  induction p with
  | nil => simp at ha
  | cons c re ih =>
    obtain ⟨hme, hw⟩ := hp c List.mem_cons_self
    have hm := markDispatching_of_waits hme hw env.nowMs
    simp only [dispatchRecords, if_neg (Nat.not_le.mpr hro)]
    by_cases hh : HasAttempts c
    · obtain ⟨s', ho, hd⟩ := hm.1 hh
      refine ⟨c, List.mem_cons_self, ?_⟩
      rw [ho]
      exact dispatchRecords_keeps re hd
    · obtain ⟨e, he⟩ := hm.2 hh
      rw [he]
      obtain ⟨r, hr, hl⟩ := ha
      have hre : ∃ r ∈ re, HasAttempts r := by
        rcases List.mem_cons.mp hr with rfl | hr
        · exact absurd hl hh
        · exact ⟨r, hr, hl⟩
      obtain ⟨r, hr, hd⟩ :=
        ih (fun r hr => hp r (List.mem_cons_of_mem _ hr)) hre
      exact ⟨r, List.mem_cons_of_mem _ hr, hd⟩

end RelayNode

def Marks (peer : PeerId) (before after : RelayCustodyStore) : Prop :=
  ∃ r ∈ before.records, WaitsFor peer r ∧ after.IsDispatching r.key

/-- A pull marks a record exactly when one of those it reads has attempts left. -/
theorem marks_iff_pending {node : RelayNode} (hb : env.blocked = false)
    (hc : env.connected = true)
    (hro : node.pendingCustodyDispatches.keys.length < env.maxInflightDispatches) :
    Marks peer node.store (node.dispatchPendingCustodyForPeer crc32 env peer).store
      ↔ ∃ r ∈ node.store.pendingForDestination peer.text 64, HasAttempts r := by
  have hp : ∀ r ∈ node.store.pendingForDestination peer.text 64,
      r ∈ node.store.records ∧ WaitsFor peer r := by
    intro r hr
    obtain ⟨hm, hd⟩ := destination_of_mem_pending hr
    exact ⟨hm, hd, (mem_of_mem_pending hr).2.2⟩
  rw [RelayNode.dispatchPendingCustodyForPeer, hb, hc, if_neg Bool.false_ne_true,
    if_neg (by simp), if_neg (Nat.not_le.mpr hro)]
  constructor
  · rintro ⟨r, hr, hw, r', hr', hk, hs⟩
    by_contra hn
    push Not at hn
    -- nothing was marked, so that the record would have two states
    rw [RelayNode.dispatchRecords_of_exhausted fun r hr =>
      ⟨(hp r hr).1, (hp r hr).2, hn r hr⟩] at hr'
    rw [eq_of_key_eq hr' hr hk, hw.2] at hs
    cases hs
  · intro ha
    obtain ⟨r, hr, hdi⟩ : ∃ r ∈ node.store.pendingForDestination peer.text 64,
        (node.dispatchRecords crc32 env peer (node.store.pendingForDestination peer.text 64)).store
          |>.IsDispatching r.key := RelayNode.dispatchRecords_marks hro hp ha
    exact ⟨r, (hp r hr).1, (hp r hr).2, hdi⟩

def InReach (store : RelayCustodyStore) (peer : PeerId) : Prop :=
  ∃ r ∈ store.records, WaitsFor peer r ∧ HasAttempts r ∧ (store.ahead r).length < 64

theorem marks_iff_inReach {node : RelayNode} (hb : env.blocked = false)
    (hc : env.connected = true)
    (hro : node.pendingCustodyDispatches.keys.length < env.maxInflightDispatches) :
    Marks peer node.store (node.dispatchPendingCustodyForPeer crc32 env peer).store
      ↔ InReach node.store peer := by
  rw [marks_iff_pending hb hc hro]
  constructor
  · rintro ⟨r, hr, ha⟩
    obtain ⟨hm, hd⟩ := destination_of_mem_pending hr
    have hw : WaitsFor peer r := ⟨hd, (mem_of_mem_pending hr).2.2⟩
    exact ⟨r, hm, hw, ha, (mem_pending_iff_ahead hm hw 64).mp hr⟩
  · rintro ⟨r, hm, hw, ha, hah⟩
    exact ⟨r, (mem_pending_iff_ahead hm hw 64).mpr hah, ha⟩

/-- **Head-of-line blocking**: exactly when a record with attempts left has fewer than 64 ahead of it. -/
theorem dispatch_marks_iff (crc32 : Bytes → UInt32) (node : RelayNode) (env : PullEnv) (peer : PeerId)
    (hblocked : env.blocked = false) (hconnected : env.connected = true)
    (hroom : node.pendingCustodyDispatches.keys.length < env.maxInflightDispatches) :
    ((∃ r ∈ node.store.records, WaitsFor peer r ∧ HasAttempts r) →
        Marks peer node.store (node.dispatchPendingCustodyForPeer crc32 env peer).store)
      ↔ ((∃ r ∈ node.store.records, WaitsFor peer r ∧ HasAttempts r) → InReach node.store peer) := by
  rw [marks_iff_inReach hblocked hconnected hroom]

def bobRecord (time attempts : Nat) : CustodyMessage where
  custodyId := String.ofList (List.replicate time 'a')
  relayMessageId := "m"
  sourcePeerId := "sender"
  destinationPeerId := bobPeer
  recipientIdentityId := none
  intendedDeviceId := none
  envelopeData := []
  state := .accepted
  acceptedAtMs := time
  updatedAtMs := time
  deliveryAttempts := attempts

def exhaustedStore (n : Nat) : RelayCustodyStore where
  records := (List.range (n + 1)).map fun time =>
    bobRecord time (if time < n then maxDeliveryAttempts else 0)
  distinct := by
    rw [List.map_map]
    refine List.nodup_range.map fun i j h => ?_
    have hid := String.toList_inj.mpr (key_inj h).2
    simpa [bobRecord] using congrArg List.length hid

def exhaustedRelay (n : Nat) : RelayNode := { RelayNode.new with store := exhaustedStore n }

def bobPull : PullEnv := ⟨false, true, 1, 100⟩

theorem exhaustedStore_ahead (n : Nat) : ((exhaustedStore n).ahead (bobRecord n 0)).length = n := by
  have hr : (List.range (n + 1)).filter (fun t => WaitsFor bobPeer
      (bobRecord t (if t < n then maxDeliveryAttempts else 0))
      ∧ Before (bobRecord t (if t < n then maxDeliveryAttempts else 0)) (bobRecord n 0))
      = List.range n := by
    rw [List.range_succ, List.filter_append, List.filter_eq_self.mpr, List.filter_eq_nil_iff.mpr,
      List.append_nil]
    · intro t ht
      obtain rfl := List.mem_singleton.mp ht
      simp [Before, bobRecord]
    · intro t ht
      have hl := List.mem_range.mp ht
      simp [WaitsFor, Before, bobRecord, hl]
  show ((List.map _ _).filter _).length = n
  rw [List.filter_map, List.length_map]
  exact (congrArg List.length hr).trans List.length_range

/-- A new record behind 63 others is dispatched. -/
theorem dispatch_marks_behind_63 : Marks bobPeer (exhaustedStore 63)
    ((exhaustedRelay 63).dispatchPendingCustodyForPeer (fun _ => 0) bobPull bobPeer).store := by
  have hm : bobRecord 63 0 ∈ (exhaustedStore 63).records :=
    List.mem_map.mpr ⟨63, by decide, rfl⟩
  refine (dispatch_marks_iff (fun _ => 0) (exhaustedRelay 63) bobPull bobPeer rfl rfl (by decide)).mpr
    (fun _ => ⟨bobRecord 63 0, hm, ⟨rfl, rfl⟩, by decide, ?_⟩)
    ⟨bobRecord 63 0, hm, ⟨rfl, rfl⟩, by decide⟩
  show ((exhaustedStore 63).ahead (bobRecord 63 0)).length < 64
  rw [exhaustedStore_ahead]
  decide

/-- 64 records used up their attempts, and the new one behind them is not marked. -/
theorem dispatch_starved :
    (∃ r ∈ (exhaustedStore 64).records, WaitsFor bobPeer r ∧ r.deliveryAttempts = 0)
      ∧ bobPull.blocked = false ∧ bobPull.connected = true
      ∧ (exhaustedRelay 64).pendingCustodyDispatches.keys.length < bobPull.maxInflightDispatches
      ∧ ¬ Marks bobPeer (exhaustedRelay 64).store
        ((exhaustedRelay 64).dispatchPendingCustodyForPeer (fun _ => 0) bobPull bobPeer).store := by
  refine ⟨⟨bobRecord 64 0, List.mem_map.mpr ⟨64, by decide, rfl⟩, ⟨rfl, rfl⟩, rfl⟩, rfl, rfl,
    by decide, ?_⟩
  rw [marks_iff_inReach rfl rfl (by decide)]
  rintro ⟨r, hr, -, hat, ha⟩
  obtain ⟨t, ht, rfl⟩ := List.mem_map.mp hr
  by_cases hlt : t < 64
  · simp [bobRecord, hlt, HasAttempts] at hat
  · -- the record with attempts left is the last one
    obtain rfl : t = 64 := by
      have hle := List.mem_range.mp ht
      omega
    have hl := exhaustedStore_ahead 64
    rw [if_neg hlt] at ha
    exact absurd ha (by rw [exhaustedRelay, hl]; decide)

end SCMessenger
