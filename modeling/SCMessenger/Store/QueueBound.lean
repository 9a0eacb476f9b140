import SCMessenger.Store.CustodyRuns

/-!
# How long a queue gets

A relay refuses an envelope for a destination with too many records waiting.  A record that is being
dispatched does not wait, and waits again when the dispatch fails.
-/

namespace SCMessenger

namespace RelayCustodyStore

def undeliveredFor (store : RelayCustodyStore) (destination : String) : List CustodyMessage :=
  store.records.filter fun r => r.destinationPeerId.text = destination ∧ r.state ≠ .delivered

def dispatchingFor (store : RelayCustodyStore) (destination : String) : List CustodyMessage :=
  store.records.filter fun r => r.destinationPeerId.text = destination ∧ r.state = .dispatching

def Follows (store store' : RelayCustodyStore) : Prop :=
  ∀ r' ∈ store'.records, ∃ r ∈ store.records, r.key = r'.key ∧ (r.state = .delivered → r'.state = .delivered)

variable {store store' : RelayCustodyStore} {record r : CustodyMessage} {d : String}

theorem mem_undeliveredFor :
    r ∈ store.undeliveredFor d ↔ r ∈ store.records ∧ r.destinationPeerId.text = d ∧ r.state ≠ .delivered := by
  simp [undeliveredFor]

theorem undelivered_keys_nodup (store : RelayCustodyStore) (d : String) :
    ((store.undeliveredFor d).map CustodyMessage.key).Nodup :=
  (List.filter_sublist.map _).nodup store.distinct

namespace Follows

theorem refl (store : RelayCustodyStore) : Follows store store := fun r hr => ⟨r, hr, rfl, id⟩

theorem of_subset (h : ∀ r ∈ store'.records, r ∈ store.records) : Follows store store' :=
  fun r hr => ⟨r, h r hr, rfl, id⟩

theorem put (h : Follows store store') (hr : r ∈ store.records) (hk : r.key = record.key)
    (hs : r.state ≠ .delivered) : Follows store (store'.putMessage record) := by
  intro r' hr'
  rcases mem_putMessage.mp hr' with ⟨ho, -⟩ | rfl
  · exact h r' ho
  · exact ⟨r, hr, hk, fun hd => absurd hd hs⟩

theorem undelivered_le (h : Follows store store') (d : String) :
    (store'.undeliveredFor d).length ≤ (store.undeliveredFor d).length := by
  have hke : (store'.undeliveredFor d).map CustodyMessage.key
      ⊆ (store.undeliveredFor d).map CustodyMessage.key := by
    intro key hk
    obtain ⟨r', hr', rfl⟩ := List.mem_map.mp hk
    obtain ⟨hm', hd', hs'⟩ := mem_undeliveredFor.mp hr'
    obtain ⟨r, hr, he, hs⟩ := h r' hm'
    rw [← (key_inj he).1] at hd'
    exact List.mem_map.mpr ⟨r, mem_undeliveredFor.mpr ⟨hr, hd', fun hd => hs' (hs hd)⟩, he⟩
  simpa using (List.subperm_of_subset (undelivered_keys_nodup store' d) hke).length_le

end Follows

/-! ## Acceptance -/

theorem undelivered_nodup (store : RelayCustodyStore) (d : String) : (store.undeliveredFor d).Nodup :=
  (undelivered_keys_nodup store d).of_map _

theorem undelivered_le_pending (store : RelayCustodyStore) (p : PeerId) :
    (store.undeliveredFor p.text).length
      ≤ (store.pendingForDestination p.text store.records.length).length
        + (store.dispatchingFor p.text).length := by
  rw [← List.length_append]
  refine (List.subperm_of_subset (undelivered_nodup store p.text) fun r hr => ?_).length_le
  obtain ⟨hm, hd, hs⟩ := mem_undeliveredFor.mp hr
  rw [List.mem_append, mem_pendingForDestination_iff (Nat.le_refl _)]
  cases hc : r.state with
  | accepted => exact .inl ⟨hm, (startsWith_key_iff p.underscore_notMem r).mpr hd, rfl⟩
  | dispatching => exact .inr (by simp [dispatchingFor, hm, hd, hc])
  | delivered => exact absurd hc hs

theorem undelivered_put_le (store : RelayCustodyStore) (record : CustodyMessage) (d : String) :
    ((store.putMessage record).undeliveredFor d).length ≤ (store.undeliveredFor d).length + 1 := by
  rw [← List.length_cons (a := record)]
  refine (List.subperm_of_subset (undelivered_nodup _ d) fun r hr => ?_).length_le
  obtain ⟨hm, hre⟩ := mem_undeliveredFor.mp hr
  rcases mem_putMessage.mp hm with ⟨ho, -⟩ | rfl
  · exact List.mem_cons_of_mem _ (mem_undeliveredFor.mpr ⟨ho, hre⟩)
  · exact List.mem_cons_self

theorem undelivered_put_other (hd : record.destinationPeerId.text ≠ d) :
    ((store.putMessage record).undeliveredFor d).length ≤ (store.undeliveredFor d).length := by
  refine (List.subperm_of_subset (undelivered_nodup _ d) fun r hr => ?_).length_le
  obtain ⟨hm, hre⟩ := mem_undeliveredFor.mp hr
  rcases mem_putMessage.mp hm with ⟨ho, -⟩ | rfl
  · exact mem_undeliveredFor.mpr ⟨ho, hre⟩
  · exact absurd hre.1 hd

theorem acceptCustody_full (p : CustodyPolicy) (n s : Nat) {re : CustodyRequest}
    (hf : maxPendingPerDestination
      ≤ (store.pendingForDestination re.destinationPeerId.text store.records.length).length) :
    (store.acceptCustody p n s re).store = store := by
  unfold acceptCustody
  cases store.findExisting re.destinationPeerId.text re.relayMessageId with
  | some e => rfl
  | none =>
    simp only [if_pos hf]
    split <;> rfl

end RelayCustodyStore

/-! ## Runs -/

/-- An envelope is only accepted while at most so many records are being dispatched. -/
def CustodyRun.DispatchesAtMost (limit : Nat) (destination : String) (run : CustodyRun) : CustodyOp → Prop
  | .acceptCustody _ _ _ request =>
    request.destinationPeerId.text = destination → (run.store.dispatchingFor destination).length ≤ limit
  | _ => True

namespace CustodyRun

open RelayCustodyStore

theorem accept_bound {run : CustodyRun} {m : Nat} {d : String} (po : CustodyPolicy) (n s : Nat)
    (re : CustodyRequest) (hl : run.DispatchesAtMost m d (.acceptCustody po n s re))
    (h : (run.store.undeliveredFor d).length ≤ maxPendingPerDestination + m) :
    ((run.step (.acceptCustody po n s re)).store.undeliveredFor d).length
      ≤ maxPendingPerDestination + m := by
  simp only [step]
  by_cases hfu : maxPendingPerDestination ≤ (run.store.pendingForDestination
      re.destinationPeerId.text run.store.records.length).length
  · rwa [acceptCustody_full po n s hfu]
  · have hp : ∀ p, ((run.store.purge p).undeliveredFor d).length
        ≤ (run.store.undeliveredFor d).length :=
      fun p => (Follows.of_subset fun r hr => (mem_purge.mp hr).1).undelivered_le d
    rcases acceptCustody_cases run.store po n s re with
      ⟨ex, -, he⟩ | ⟨e, p, he⟩ | ⟨record, p, hf, -, he⟩
    · rwa [he]
    · rw [he]
      exact (hp p).trans h
    · rw [he]
      by_cases hd : re.destinationPeerId.text = d
      · have hw := undelivered_le_pending run.store re.destinationPeerId
        have hpu := undelivered_put_le (run.store.purge p) record d
        have hro := hl hd
        have hle := hp p
        subst hd
        show (((run.store.purge p).putMessage record).undeliveredFor _).length ≤ _
        omega
      · rw [← hf.destination] at hd
        exact (undelivered_put_other hd).trans ((hp p).trans h)

theorem step_follows {run : CustodyRun} {op : CustodyOp}
    (ho : ∀ p t q re, op ≠ .acceptCustody p t q re) :
    RelayCustodyStore.Follows run.store (run.step op).store := by
  cases op with
  | acceptCustody p t q re => exact absurd rfl (ho p t q re)
  | markDispatching n d c =>
    simp only [step]
    split
    · rename_i store' hm
      rcases markDispatching_ok hm with rfl | ⟨r, hr, -, hs, -, rfl⟩
      · exact .refl _
      · exact (Follows.refl _).put hr rfl (by rw [hs]; decide)
    · exact .refl _
  | markDispatchFailed n d c =>
    simp only [step]
    split
    · rename_i store' hm
      rcases markDispatchFailed_ok hm with rfl | ⟨r, hr, -, hs, rfl⟩
      · exact .refl _
      · exact (Follows.refl _).put hr rfl (by rw [hs]; decide)
    · exact .refl _
  | markDelivered d c =>
    simp only [step]
    split
    · rename_i store' hm
      rcases markDelivered_ok hm with ⟨rfl, -⟩ | rfl
      · exact .refl _
      · exact .of_subset fun r hr => (mem_removeMessage.mp hr).1
    · exact .refl _
  | convergeDeliveredForMessage d m =>
    exact .of_subset fun r hr => (mem_convergeDeliveredForMessage.mp hr).1
  | migratePendingIdentityDevice p n i a b =>
    simp only [step, migratePendingIdentityDevice]
    cases p.normalizeLookupIdentity i with
    | error e => exact .refl _
    | ok identity =>
      cases identity with
      | none => exact .refl _
      | some i =>
        have hmo : ∀ l : List CustodyMessage, (∀ r ∈ l, r ∈ run.store.records ∧ r.state ≠ .delivered) →
            ∀ store', RelayCustodyStore.Follows run.store store' → RelayCustodyStore.Follows run.store (l.foldl (fun store r =>
              store.putMessage { r with intendedDeviceId := some b, updatedAtMs := n }) store') := by
          intro l hl
          induction l with
          | nil => exact fun _ h => h
          | cons r l ih =>
            intro store' h
            obtain ⟨hr, hs⟩ := hl r List.mem_cons_self
            exact ih (fun r hr => hl r (List.mem_cons_of_mem _ hr)) _ (h.put hr rfl hs)
        refine hmo _ (fun r hr => ?_) _ (.refl _)
        simp only [ofIdentity, scanPrefix, List.mem_filter, decide_eq_true_eq] at hr
        exact ⟨hr.1.1, hr.2.1⟩
  | purgePendingIdentityMessages p i a =>
    simp only [step, purgePendingIdentityMessages]
    cases p.normalizeLookupIdentity i with
    | error e => exact .refl _
    | ok identity =>
      cases identity with
      | none => exact .refl _
      | some i => exact .of_subset fun r hr => (mem_foldl_removeMessage.mp hr).1
  | enforceStoragePressure pu => exact .of_subset fun r hr => (mem_purge.mp hr).1
  | restart => exact .refl _

end CustodyRun

/-- **Undelivered records stay within the limit** and as many more as are being dispatched. -/
theorem queue_bound (ops : List CustodyOp) (destination : String) (m : Nat)
    (h : Guarded (CustodyRun.DispatchesAtMost m destination) CustodyRun.step .start ops) :
    ((ops.foldl CustodyRun.step .start).store.undeliveredFor destination).length
      ≤ maxPendingPerDestination + m := by
  refine h.invariant (fun run => (run.store.undeliveredFor destination).length ≤ maxPendingPerDestination + m)
    (fun run op hr hl => ?_) (Nat.zero_le _)
  by_cases ho : ∀ p t q re, op ≠ .acceptCustody p t q re
  · exact ((CustodyRun.step_follows ho).undelivered_le destination).trans hr
  · push Not at ho
    obtain ⟨p, t, q, re, rfl⟩ := ho
    exact CustodyRun.accept_bound p t q re hl hr

def bobEnvelope (i : Nat) : CustodyRequest := ⟨"sender", bobPeer, toString i, [42], none, none⟩

def acceptAndDispatch (i : Nat) : List CustodyOp :=
  [.acceptCustody openPolicy 0 i (bobEnvelope i), .markDispatching 0 "bob" (custodyIdOf (toString i) 0 i)]

/-- The second envelope is accepted while the first one is being dispatched. -/
theorem queue_bound_dispatching :
    ((acceptAndDispatch 0).foldl CustodyRun.step .start).store.pendingForDestination "bob" 1 = []
      ∧ ((acceptAndDispatch 0 ++ acceptAndDispatch 1).foldl CustodyRun.step .start).store.records.length = 2
      ∧ (((acceptAndDispatch 0 ++ acceptAndDispatch 1).foldl CustodyRun.step .start).store.undeliveredFor
          "bob").length ≤ maxPendingPerDestination + 1 := by
  refine ⟨by decide +kernel, by decide +kernel, queue_bound _ "bob" 1 ?_⟩
  exact ⟨fun _ => Nat.zero_le 1, trivial, fun _ => by decide +kernel, trivial, trivial⟩

/-! ## More records than the limit -/

section

open RelayCustodyStore

/-- So many records for Bob are being dispatched. -/
structure AllDispatched (n : Nat) (store : RelayCustodyStore) : Prop where
  length : store.records.length = n
  dispatching : ∀ r ∈ store.records, r.destinationPeerId = bobPeer ∧ r.state = .dispatching
  named : ∀ r ∈ store.records, ∃ i < n, r.relayMessageId = toString i ∧ r.custodyId = custodyIdOf (toString i) 0 i

theorem putMessage_twice {store : RelayCustodyStore} {record u : CustodyMessage}
    (h : ∀ r ∈ store.records, r.key ≠ record.key) (hk : u.key = record.key) :
    ((store.putMessage record).putMessage u).records = store.records ++ [u] := by
  have hke : store.records.filter (fun r => r.key ≠ record.key) = store.records :=
    List.filter_eq_self.mpr fun r hr => decide_eq_true (h r hr)
  simp only [putMessage, hk, hke, List.filter_append]
  simp

theorem AllDispatched.step {n : Nat} {run : CustodyRun} (h : AllDispatched n run.store) :
    AllDispatched (n + 1) ((acceptAndDispatch n).foldl CustodyRun.step run).store := by
  have hot : ∀ r ∈ run.store.records, r.relayMessageId ≠ toString n := by
    intro r hr he
    obtain ⟨i, hi, hn, -⟩ := h.named r hr
    have hs := toString_toList_inj (congrArg String.toList (hn.symm.trans he))
    omega
  let record : CustodyMessage := ⟨custodyIdOf (toString n) 0 n, toString n, "sender", bobPeer, none, none, [42],
    .accepted, 0, 0, 0⟩
  have hk : ∀ r ∈ run.store.records, r.key ≠ record.key := by
    intro r hr he
    obtain ⟨i, hi, -, hid⟩ := h.named r hr
    have hs := custodyIdOf_inj (hid.symm.trans (key_inj he).2)
    omega
  have hno : run.store.findExisting "bob" (toString n) = none :=
    findExisting_eq_none_iff.mpr fun r hr _ => hot r hr
  have hp : run.store.pendingForDestination "bob" run.store.records.length = [] := by
    refine List.eq_nil_iff_forall_not_mem.mpr fun r hr => ?_
    obtain ⟨hme, -, ha⟩ := mem_of_mem_pending hr
    rw [(h.dispatching r hme).2] at ha
    cases ha
  have hap : (run.store.acceptCustody openPolicy 0 n (bobEnvelope n)).store = run.store.putMessage record := by
    have hb : (bobEnvelope n).destinationPeerId.text = "bob" := rfl
    have hn : (bobEnvelope n).relayMessageId = toString n := rfl
    simp only [acceptCustody, hb, hn, hno, hp]
    exact congrArg (RelayCustodyStore.putMessage · record) purge_nil
  have hf : (run.store.putMessage record).requireRecord "bob" (custodyIdOf (toString n) 0 n) = .ok record :=
    requireRecord_ok_iff.mpr ⟨mem_putMessage.mpr (.inr rfl), rfl⟩
  have hm : (run.store.putMessage record).markDispatching 0 "bob" (custodyIdOf (toString n) 0 n)
      = .ok ((run.store.putMessage record).putMessage { record with state := .dispatching, deliveryAttempts := 1 }) := by
    rw [markDispatching, hf]
    rfl
  have hre : ((acceptAndDispatch n).foldl CustodyRun.step run).store.records
      = run.store.records ++ [{ record with state := .dispatching, deliveryAttempts := 1 }] := by
    simp only [acceptAndDispatch, List.foldl_cons, List.foldl_nil, CustodyRun.step, hap, hm]
    exact putMessage_twice hk rfl
  constructor
  · rw [hre, List.length_append, h.length]
    rfl
  · intro r hr
    rw [hre] at hr
    rcases mem_concat.mp hr with ho | rfl
    · exact h.dispatching r ho
    · exact ⟨rfl, rfl⟩
  · intro r hr
    rw [hre] at hr
    rcases mem_concat.mp hr with ho | rfl
    · obtain ⟨i, hi, hn⟩ := h.named r ho
      exact ⟨i, Nat.lt_succ_of_lt hi, hn⟩
    · exact ⟨n, Nat.lt_succ_self n, rfl, rfl⟩

theorem allDispatched (n : Nat) :
    AllDispatched n (((List.range n).flatMap acceptAndDispatch).foldl CustodyRun.step .start).store := by
  induction n with
  | zero => exact ⟨rfl, fun r hr => absurd hr List.not_mem_nil, fun r hr => absurd hr List.not_mem_nil⟩
  | succ n ih =>
    rw [List.range_succ, List.flatMap_append, List.foldl_append, List.flatMap_singleton]
    exact ih.step

end

/-- With each envelope sent at once, none waits when the next one comes. -/
theorem queue_overflows :
    maxPendingPerDestination < ((((List.range (maxPendingPerDestination + 1)).flatMap acceptAndDispatch).foldl
      CustodyRun.step .start).store.undeliveredFor "bob").length := by
  have ha := allDispatched (maxPendingPerDestination + 1)
  rw [RelayCustodyStore.undeliveredFor, List.filter_eq_self.mpr, ha.length]
  · exact Nat.lt_succ_self _
  · intro r hr
    obtain ⟨hd, hs⟩ := ha.dispatching r hr
    rw [hd, hs]
    decide

end SCMessenger
