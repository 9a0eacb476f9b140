import SCMessenger.Lib.Run
import SCMessenger.Store.RelayCustody

/-!
# Custody across restarts

Beside the store a run keeps the records that were accepted and neither delivered nor purged since (`live`).
Opened again, a store has lost the table of the dispatches that waited for an answer.
-/

namespace SCMessenger

namespace RelayCustodyStore

def persistent (backend : RelayCustodyStore) : RelayCustodyStore := backend

end RelayCustodyStore

/-- A call to a custody store, or a restart. -/
inductive CustodyOp where
  | acceptCustody (policy : CustodyPolicy) (nowMs sequence : Nat) (request : CustodyRequest)
  | markDispatching (nowMs : Nat) (destinationPeerId custodyId : String)
  | markDispatchFailed (nowMs : Nat) (destinationPeerId custodyId : String)
  | markDelivered (destinationPeerId custodyId : String)
  | convergeDeliveredForMessage (destinationPeerId relayMessageId : String)
  | migratePendingIdentityDevice (policy : CustodyPolicy) (nowMs : Nat)
      (identityId fromDeviceId toDeviceId : String)
  | purgePendingIdentityMessages (policy : CustodyPolicy) (identityId : String)
      (deviceId : Option String)
  | enforceStoragePressure (purged : List String)
  | restart

/-- A store, and the records it took custody of that were neither delivered nor purged. -/
structure CustodyRun where
  store : RelayCustodyStore
  live : List CustodyMessage

namespace CustodyRun

def start : CustodyRun := ⟨.inMemory, []⟩

def without (keys : List String) (live : List CustodyMessage) : List CustodyMessage :=
  live.filter fun m => m.key ∉ keys

def step (run : CustodyRun) : CustodyOp → CustodyRun
  | .acceptCustody policy nowMs sequence request =>
    let acceptance := run.store.acceptCustody policy nowMs sequence request
    ⟨acceptance.store, without acceptance.purged run.live
      ++ (match acceptance.result with
        | .ok message => [message]
        | .error _ => [])⟩
  | .markDispatching nowMs d c =>
    match run.store.markDispatching nowMs d c with
    | .ok store => ⟨store, run.live⟩
    | .error _ => run
  | .markDispatchFailed nowMs d c =>
    match run.store.markDispatchFailed nowMs d c with
    | .ok store => ⟨store, run.live⟩
    | .error _ => run
  | .markDelivered d c =>
    match run.store.markDelivered d c with
    | .ok store => ⟨store, without [RelayCustodyStore.messageKey d c] run.live⟩
    | .error _ => run
  | .convergeDeliveredForMessage d m =>
    ⟨run.store.convergeDeliveredForMessage d m,
      without ((run.store.converging d m).map CustodyMessage.key) run.live⟩
  | .migratePendingIdentityDevice policy nowMs identityId fromDeviceId toDeviceId =>
    match run.store.migratePendingIdentityDevice policy nowMs identityId fromDeviceId toDeviceId with
    | .ok store => ⟨store, run.live⟩
    | .error _ => run
  | .purgePendingIdentityMessages policy identityId deviceId =>
    match policy.normalizeLookupIdentity identityId,
        run.store.purgePendingIdentityMessages policy identityId deviceId with
    | .ok (some identityId), .ok store =>
      ⟨store, without ((run.store.ofIdentity identityId deviceId).map CustodyMessage.key) run.live⟩
    | _, _ => run
  | .enforceStoragePressure purged => ⟨run.store.purge purged, without purged run.live⟩
  | .restart => ⟨.persistent run.store, run.live⟩

end CustodyRun

def CustodyOp.NamesPeer : CustodyOp → Prop
  | .convergeDeliveredForMessage destinationPeerId _ => '_' ∉ destinationPeerId.toList
  | _ => True

/-! ## Stored records and live records -/

/-- Two states of one custody record. -/
structure SameCustody (m r : CustodyMessage) : Prop where
  key : m.key = r.key
  messageId : m.relayMessageId = r.relayMessageId
  envelope : m.envelopeData = r.envelopeData

namespace SameCustody

theorem refl (r : CustodyMessage) : SameCustody r r := ⟨rfl, rfl, rfl⟩

theorem symm {m r : CustodyMessage} (h : SameCustody m r) : SameCustody r m :=
  ⟨h.key.symm, h.messageId.symm, h.envelope.symm⟩

theorem trans {m r s : CustodyMessage} (h : SameCustody m r) (h' : SameCustody r s) : SameCustody m s :=
  ⟨h.key.trans h'.key, h.messageId.trans h'.messageId, h.envelope.trans h'.envelope⟩

end SameCustody

/-- **The live records are those stored.** -/
structure CustodyInv (run : CustodyRun) : Prop where
  undelivered : ∀ r ∈ run.store.records, r.state ≠ .delivered
  named : ∀ r ∈ run.store.records, ∃ t s, r.custodyId = custodyIdOf r.relayMessageId t s
  stored : ∀ m ∈ run.live, ∃ r ∈ run.store.records, SameCustody m r
  owed : ∀ r ∈ run.store.records, ∃ m ∈ run.live, SameCustody m r

namespace CustodyInv

open RelayCustodyStore

variable {store store' : RelayCustodyStore} {live : List CustodyMessage}

theorem remove (h : CustodyInv ⟨store, live⟩) {k : List String}
    (hst : ∀ r, r ∈ store'.records ↔ r ∈ store.records ∧ r.key ∉ k) :
    CustodyInv ⟨store', CustodyRun.without k live⟩ := by
  refine ⟨?_, ?_, ?_, ?_⟩
  · intro r hr
    exact h.undelivered r ((hst r).mp hr).1
  · intro r hr
    exact h.named r ((hst r).mp hr).1
  · intro m hm
    simp only [CustodyRun.without, List.mem_filter, decide_eq_true_eq] at hm
    obtain ⟨r, hr, hs⟩ := h.stored m hm.1
    exact ⟨r, (hst r).mpr ⟨hr, hs.key ▸ hm.2⟩, hs⟩
  · intro r hr
    obtain ⟨hr, hk⟩ := (hst r).mp hr
    obtain ⟨m, hm, hs⟩ := h.owed r hr
    refine ⟨m, ?_, hs⟩
    simp only [CustodyRun.without, List.mem_filter, decide_eq_true_eq]
    exact ⟨hm, hs.key ▸ hk⟩

variable {record : CustodyMessage}

theorem update (h : CustodyInv ⟨store, live⟩) (hl : ∃ m ∈ live, SameCustody m record)
    (hs : record.state ≠ .delivered) : CustodyInv ⟨store.putMessage record, live⟩ := by
  obtain ⟨m, hm, hsa⟩ := hl
  obtain ⟨old, ho, hs'⟩ := h.stored m hm
  have hre : SameCustody old record := hs'.symm.trans hsa
  refine ⟨?_, ?_, ?_, ?_⟩
  · intro r hr
    rcases mem_putMessage.mp hr with ⟨hr, -⟩ | rfl
    · exact h.undelivered r hr
    · exact hs
  · intro r hr
    rcases mem_putMessage.mp hr with ⟨hr, -⟩ | rfl
    · exact h.named r hr
    · obtain ⟨t, s, hi⟩ := h.named old ho
      refine ⟨t, s, ?_⟩
      rw [← (key_inj hre.key).2, hi, hre.messageId]
  · intro m' hm'
    obtain ⟨r, hr, hr'⟩ := h.stored m' hm'
    by_cases hk : r.key = record.key
    · -- the record replaced is the live one that is updated
      obtain rfl := eq_of_key_eq hr ho (hk.trans hre.key.symm)
      exact ⟨record, mem_putMessage.mpr (.inr rfl), hr'.trans hre⟩
    · exact ⟨r, mem_putMessage.mpr (.inl ⟨hr, hk⟩), hr'⟩
  · intro r hr
    rcases mem_putMessage.mp hr with ⟨hr, -⟩ | rfl
    · exact h.owed r hr
    · exact ⟨m, hm, hsa⟩

theorem update_stored (h : CustodyInv ⟨store, live⟩) {r : CustodyMessage} (hr : r ∈ store.records)
    (hsa : SameCustody r record) (hs : record.state ≠ .delivered) :
    CustodyInv ⟨store.putMessage record, live⟩ := by
  obtain ⟨m, hm, hm'⟩ := h.owed r hr
  exact h.update ⟨m, hm, hm'.trans hsa⟩ hs

theorem add (h : CustodyInv ⟨store, live⟩) {t s : Nat}
    (hst : record.state ≠ .delivered)
    (hi : record.custodyId = custodyIdOf record.relayMessageId t s)
    (hn : ∀ r ∈ store.records, r.destinationPeerId = record.destinationPeerId →
      r.relayMessageId ≠ record.relayMessageId) :
    CustodyInv ⟨store.putMessage record, live ++ [record]⟩ := by
  -- a record under the same key would be one for the same message
  have hk : ∀ r ∈ store.records, r.key ≠ record.key := by
    intro r hr hs
    obtain ⟨hd, hc⟩ := key_inj hs
    obtain ⟨t', s', hr'⟩ := h.named r hr
    exact hn r hr hd (custodyIdOf_inj (hr'.symm.trans (hc.trans hi))).1
  refine ⟨?_, ?_, ?_, ?_⟩
  · intro r hr
    rcases mem_putMessage.mp hr with ⟨hr, -⟩ | rfl
    · exact h.undelivered r hr
    · exact hst
  · intro r hr
    rcases mem_putMessage.mp hr with ⟨hr, -⟩ | rfl
    · exact h.named r hr
    · exact ⟨t, s, hi⟩
  · intro m hm
    rcases mem_concat.mp hm with hm | rfl
    · obtain ⟨r, hr, hs⟩ := h.stored m hm
      exact ⟨r, mem_putMessage.mpr (.inl ⟨hr, hk r hr⟩), hs⟩
    · exact ⟨m, mem_putMessage.mpr (.inr rfl), .refl m⟩
  · intro r hr
    rcases mem_putMessage.mp hr with ⟨hr, -⟩ | rfl
    · obtain ⟨m, hm, hs⟩ := h.owed r hr
      exact ⟨m, List.mem_append_left _ hm, hs⟩
    · exact ⟨r, by simp, .refl r⟩

theorem updates (h : CustodyInv ⟨store, live⟩) {f : CustodyMessage → CustodyMessage}
    (hsa : ∀ r, SameCustody r (f r)) (hs : ∀ r, (f r).state = r.state) {l : List CustodyMessage}
    (hl : ∀ r ∈ l, r ∈ store.records) :
    CustodyInv ⟨l.foldl (fun store r => store.putMessage (f r)) store, live⟩ := by
  -- the records of the list stay live while others are stored
  have hli : ∀ r ∈ l, (∃ m ∈ live, SameCustody m (f r)) ∧ (f r).state ≠ .delivered := by
    intro r hr
    obtain ⟨m, hm, hm'⟩ := h.owed r (hl r hr)
    refine ⟨⟨m, hm, hm'.trans (hsa r)⟩, ?_⟩
    rw [hs]
    exact h.undelivered r (hl r hr)
  clear hl
  induction l generalizing store with
  | nil => exact h
  | cons r l ih =>
    obtain ⟨hr, hr'⟩ := hli r List.mem_cons_self
    exact ih (h.update hr hr') fun r hr => hli r (List.mem_cons_of_mem _ hr)

theorem accept (h : CustodyInv ⟨store, live⟩) (po : CustodyPolicy) (n s : Nat)
    (re : CustodyRequest) :
    CustodyInv ((⟨store, live⟩ : CustodyRun).step (.acceptCustody po n s re)) := by
  simp only [CustodyRun.step]
  rcases acceptCustody_cases store po n s re with
    ⟨ex, he, heq⟩ | ⟨e, p, heq⟩ | ⟨record, p, hf, hn, heq⟩
  · rw [heq]
    have ha : CustodyRun.without [] live = live := by simp [CustodyRun.without]
    simp only [ha]
    refine ⟨h.undelivered, h.named, fun m hm => ?_, fun r hr => ?_⟩
    · rcases mem_concat.mp hm with hm | rfl
      · exact h.stored m hm
      · exact ⟨m, he, .refl m⟩
    · obtain ⟨m, hm, hs⟩ := h.owed r hr
      exact ⟨m, List.mem_append_left _ hm, hs⟩
  · rw [heq]
    simp only [List.append_nil]
    exact h.remove fun r => mem_purge
  · rw [heq]
    have hp : CustodyInv ⟨store.purge p, CustodyRun.without p live⟩ :=
      h.remove fun r => mem_purge
    refine hp.add (by rw [hf.state]; decide)
      (hf.custodyId.trans (by rw [hf.relayMessageId])) fun r hr hd => ?_
    rw [hf.relayMessageId]
    refine findExisting_eq_none_iff.mp hn r (mem_purge.mp hr).1 ?_
    rw [← hf.destination, ← hd]
    exact startsWith_own_key r

theorem converge (h : CustodyInv ⟨store, live⟩) {d : String} (hd : '_' ∉ d.toList) (m : String) :
    CustodyInv ((⟨store, live⟩ : CustodyRun).step (.convergeDeliveredForMessage d m)) := by
  refine h.remove fun r => ?_
  have hk : ∀ r' ∈ store.converging d m,
      RelayCustodyStore.messageKey d r'.custodyId = r'.key := by
    intro r' hr'
    have hde := (startsWith_key_iff hd r').mp (mem_converging.mp hr').2.1
    rw [CustodyMessage.key, hde]
  rw [mem_convergeDeliveredForMessage]
  simp only [List.mem_map, not_exists, not_and]
  refine and_congr_right fun _ => ⟨fun hn r' hr' he => ?_, fun hn r' hr' he => ?_⟩
  · exact hn r' hr' (he.symm.trans (hk r' hr').symm)
  · exact hn r' hr' ((hk r' hr').symm.trans he.symm)

/-- **Every call keeps the stored records and the live ones together.** -/
theorem step {run : CustodyRun} (h : CustodyInv run) {op : CustodyOp} (ho : op.NamesPeer) :
    CustodyInv (run.step op) := by
  obtain ⟨store, live⟩ := run
  cases op with
  | acceptCustody p n s re => exact h.accept p n s re
  | markDispatching n d c =>
    simp only [CustodyRun.step]
    split
    · rename_i store' hm
      rcases markDispatching_ok hm with rfl | ⟨r, hr, -, -, -, rfl⟩
      · exact h
      · exact h.update_stored hr ⟨rfl, rfl, rfl⟩ (by simp)
    · exact h
  | markDispatchFailed n d c =>
    simp only [CustodyRun.step]
    split
    · rename_i store' hm
      rcases markDispatchFailed_ok hm with rfl | ⟨r, hr, -, -, rfl⟩
      · exact h
      · exact h.update_stored hr ⟨rfl, rfl, rfl⟩ (by simp)
    · exact h
  | markDelivered d c =>
    simp only [CustodyRun.step]
    split
    · rename_i store' hm
      rcases markDelivered_ok hm with ⟨-, r, hr, -, hs⟩ | rfl
      · exact absurd hs (h.undelivered r hr)
      · refine h.remove fun r => ?_
        rw [mem_removeMessage, List.mem_singleton]
    · exact h
  | convergeDeliveredForMessage d m => exact h.converge ho m
  | migratePendingIdentityDevice p n identityId fr t =>
    simp only [CustodyRun.step, migratePendingIdentityDevice]
    cases p.normalizeLookupIdentity identityId with
    | error e => exact h
    | ok identity =>
      cases identity with
      | none => exact h
      | some identityId =>
        have hme : ∀ r ∈ store.ofIdentity identityId (some fr), r ∈ store.records :=
          fun r hr => List.mem_of_mem_filter (List.mem_of_mem_filter hr)
        exact h.updates (f := fun r =>
          { r with intendedDeviceId := some t, updatedAtMs := n })
          (fun r => ⟨rfl, rfl, rfl⟩) (fun r => rfl) hme
  | purgePendingIdentityMessages p identityId di =>
    simp only [CustodyRun.step, purgePendingIdentityMessages]
    cases p.normalizeLookupIdentity identityId with
    | error e => exact h
    | ok identity =>
      cases identity with
      | none => exact h
      | some identityId =>
        refine h.remove fun r => ?_
        rw [mem_foldl_removeMessage]
        simp only [List.mem_map, not_exists, not_and, CustodyMessage.key, ne_eq]
        refine and_congr_right fun _ => forall₂_congr fun r' _ => ?_
        exact not_congr eq_comm
  | enforceStoragePressure pu => exact h.remove fun r => mem_purge
  | restart => exact h

end CustodyInv

/-! ## Restarts -/

/-- Every live record is found when the store is opened again. -/
def SurvivesRestart (run : CustodyRun) : Prop :=
  ∀ m ∈ run.live, ∃ r, SameCustody m r ∧ ∀ limit, run.store.records.length ≤ limit →
    r ∈ (RelayCustodyStore.persistent run.store).pendingForDestination m.destinationPeerId.text limit

open RelayCustodyStore in
theorem survivesRestart_iff {run : CustodyRun} (h : CustodyInv run) :
    SurvivesRestart run ↔ ∀ r ∈ run.store.records, r.state ≠ .dispatching := by
  constructor
  · intro hsu r hr
    obtain ⟨m, hm, hsa⟩ := h.owed r hr
    obtain ⟨r', hs', hp⟩ := hsu m hm
    obtain ⟨hr', -, hs⟩ := mem_of_mem_pending (hp _ (le_refl _))
    rw [eq_of_key_eq hr hr' (hsa.key.symm.trans hs'.key), hs]
    decide
  · intro hi m hm
    obtain ⟨r, hr, hsa⟩ := h.stored m hm
    refine ⟨r, hsa, fun l hl => (mem_pendingForDestination_iff hl).mpr ⟨hr, ?_, ?_⟩⟩
    · rw [(key_inj hsa.key).1]
      exact startsWith_own_key r
    · cases hs : r.state with
      | accepted => rfl
      | dispatching => exact absurd hs (hi r hr)
      | delivered => exact absurd hs (h.undelivered r hr)

/-- **Custody across restarts** in every state exactly when no record is being dispatched. -/
theorem custody_survives_iff (ops : List CustodyOp) (hops : ∀ op ∈ ops, op.NamesPeer) :
    SurvivesRestart (ops.foldl CustodyRun.step .start)
      ↔ ∀ r ∈ (ops.foldl CustodyRun.step .start).store.records, r.state ≠ .dispatching := by
  have hs : CustodyInv .start := by
    constructor <;> simp [CustodyRun.start, RelayCustodyStore.inMemory]
  exact survivesRestart_iff ((Guarded.of_forall CustodyRun.step hops .start).invariant CustodyInv
    (fun _ _ h ho => h.step ho) hs)

def bobRequest : CustodyRequest where
  sourcePeerId := "sender"
  destinationPeerId := bobPeer
  relayMessageId := "m1"
  envelopeData := [42]
  recipientIdentityId := none
  intendedDeviceId := none

def dispatchOps : List CustodyOp :=
  [.acceptCustody openPolicy 0 0 bobRequest, .markDispatching 1 "bob" (custodyIdOf "m1" 0 0)]

def failedOps : List CustodyOp :=
  dispatchOps ++ [.markDispatchFailed 2 "bob" (custodyIdOf "m1" 0 0)]

/-- A dispatch that failed before the restart is found again. -/
theorem custody_survives_failed : SurvivesRestart (failedOps.foldl CustodyRun.step .start) := by
  refine (custody_survives_iff _ ?_).mpr ?_
  · simp [failedOps, dispatchOps, CustodyOp.NamesPeer]
  · decide +kernel

/-- A record that was being dispatched at the restart is stored, and no pull finds it. -/
theorem custody_stuck :
    ((dispatchOps.foldl CustodyRun.step .start).live.map fun m => (m.relayMessageId, m.envelopeData))
        = [("m1", [42])]
      ∧ ((dispatchOps.foldl CustodyRun.step .start).store.records.map fun r =>
          (r.relayMessageId, r.state)) = [("m1", .dispatching)]
      ∧ (∀ limit, (RelayCustodyStore.persistent
          (dispatchOps.foldl CustodyRun.step .start).store).pendingForDestination "bob" limit = [])
      ∧ ¬ SurvivesRestart (dispatchOps.foldl CustodyRun.step .start) := by
  have hs : ∀ r ∈ (dispatchOps.foldl CustodyRun.step .start).store.records,
      r.state = .dispatching := by decide +kernel
  have hp : ∀ d limit, (RelayCustodyStore.persistent
      (dispatchOps.foldl CustodyRun.step .start).store).pendingForDestination d limit = [] := by
    intro d limit
    rw [List.eq_nil_iff_forall_not_mem]
    intro r hr
    obtain ⟨hme, -, ha⟩ := RelayCustodyStore.mem_of_mem_pending hr
    rw [hs r hme] at ha
    cases ha
  refine ⟨by decide +kernel, by decide +kernel, hp "bob", fun hsu => ?_⟩
  obtain ⟨m, hm⟩ : ∃ m, m ∈ (dispatchOps.foldl CustodyRun.step .start).live :=
    List.exists_mem_of_ne_nil _ (by decide +kernel)
  obtain ⟨r, -, hr⟩ := hsu m hm
  have hf := hr _ (le_refl _)
  rw [hp] at hf
  simp at hf

end SCMessenger
