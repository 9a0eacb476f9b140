import SCMessenger.Store.RelayStore

/-!
# What the calls of a relay do

Storage pressure only purges records (`Trims`); a decision about the device of a request does to the
registry what lookups can do (`Observes`).
-/

namespace SCMessenger

namespace RelayStore

open RelayRegistry (Observes)

variable {clock : Clock} {hash : Bytes → Arr 32} {s s' : RelayStore}

@[simp] theorem purgeRecord_custody (re : CustodyMessage) (rs : String) :
    (s.purgeRecord clock re rs).custody
      = s.custody.removeMessage re.destinationPeerId.text re.custodyId := rfl

/-! ## Single changes -/

/-- One stored record is purged. -/
inductive PurgeStep (clock : Clock) : RelayStore → RelayStore → Prop
  | purge {s : RelayStore} {record : CustodyMessage} (reason : String)
      (h : record ∈ s.custody.records) : PurgeStep clock s (s.purgeRecord clock record reason)

def Trims (clock : Clock) : RelayStore → RelayStore → Prop := Relation.ReflTransGen (PurgeStep clock)

theorem foldl_steps {R : RelayStore → RelayStore → Prop} {f : RelayStore → CustodyMessage → RelayStore}
    {l : List CustodyMessage} (hs : ∀ s, ∀ r ∈ l, r ∈ s.custody.records → R s (f s r))
    (hk : ∀ s, ∀ r ∈ l, ∀ r' ∈ s.custody.records, r'.key ≠ r.key → r' ∈ (f s r).custody.records)
    (hl : ∀ r ∈ l, r ∈ s.custody.records) (hn : (l.map CustodyMessage.key).Nodup) :
    Relation.ReflTransGen R s (l.foldl f s) := by
  induction l generalizing s with
  | nil => exact .refl
  | cons r l ih =>
    rw [List.map_cons, List.nodup_cons] at hn
    refine .head (hs s r List.mem_cons_self (hl r List.mem_cons_self)) ?_
    refine ih (fun s r' hr' => hs s r' (List.mem_cons_of_mem _ hr'))
      (fun s r' hr' => hk s r' (List.mem_cons_of_mem _ hr')) (fun r' hr' => ?_) hn.2
    refine hk s r List.mem_cons_self r' (hl r' (List.mem_cons_of_mem _ hr')) fun hky => ?_
    exact hn.1 (hky ▸ List.mem_map_of_mem hr')

/-! ## Storage pressure -/

theorem mem_purgeRecord {re r : CustodyMessage} {rs : String} :
    r ∈ (s.purgeRecord clock re rs).custody.records
      ↔ r ∈ s.custody.records ∧ r.key ≠ re.key := by
  rw [purgeRecord_custody, RelayCustodyStore.mem_removeMessage, CustodyMessage.key.eq_def re]

theorem Trims.subset (h : Trims clock s s') : ∀ r ∈ s'.custody.records, r ∈ s.custody.records := by
  induction h with
  | refl => exact fun r hr => hr
  | tail _ hl ih =>
    cases hl with
    | purge re hmem => exact fun r hr => ih r (mem_purgeRecord.mp hr).1

theorem Trims.purge (h : Trims clock s s') : ∃ keys, s'.custody = s.custody.purge keys := by
  induction h with
  | refl => exact ⟨[], RelayCustodyStore.purge_nil.symm⟩
  | tail _ hl ih =>
    obtain ⟨keys, ih⟩ := ih
    cases hl with
    | purge re hmem => exact ⟨_, by rw [purgeRecord_custody, ih, RelayCustodyStore.removeMessage_purge]⟩

def needed : List Nat → Nat → Nat
  | [], _ => 0
  | size :: sizes, required => if required = 0 then 0 else needed sizes (required - size) + 1

theorem purgeCandidates_eq (clock : Clock) (rs : String) (l : List CustodyMessage) (re : Nat)
    (p : Nat × Nat) (s : RelayStore) :
    let first := l.take (needed (l.map serializedRecordBytes) re)
    purgeCandidates clock rs l re p s
      = ((p.1 + first.length, (first.map serializedRecordBytes).foldl saturatingAdd p.2),
        first.foldl (fun s r => s.purgeRecord clock r (rs ++ "_purged")) s) := by
  induction l generalizing re p s with
  | nil => rfl
  | cons r l ih =>
    simp only [purgeCandidates, needed, List.map_cons]
    split
    · rfl
    · simp only [List.take_succ_cons, List.length_cons, List.map_cons, List.foldl_cons]
      rw [ih, Nat.add_assoc, Nat.add_comm 1]

def purgedFirst (s : RelayStore) (required : Nat) : List CustodyMessage :=
  let order := s.custody.records.mergeSort (CustodyMessage.purgedBefore s.localIdentity)
  order.take (needed (order.map serializedRecordBytes) required)

theorem purgeOldestByPolicy_eq (clock : Clock) (s : RelayStore) (re : Nat) (rs : String) :
    s.purgeOldestByPolicy clock re rs
      = (((s.purgedFirst re).length,
          ((s.purgedFirst re).map serializedRecordBytes).foldl saturatingAdd 0),
        (s.purgedFirst re).foldl (fun s r => s.purgeRecord clock r (rs ++ "_purged")) s) := by
  rw [purgeOldestByPolicy, purgeCandidates_eq, Nat.zero_add]
  rfl

theorem purgeOldestByPolicy_trims (s : RelayStore) (re : Nat) (rs : String) :
    Trims clock s (s.purgeOldestByPolicy clock re rs).2 := by
  rw [purgeOldestByPolicy_eq]
  refine foldl_steps (fun s r _ h => .purge _ h) (fun s r _ r' hr' hk => mem_purgeRecord.mpr ⟨hr', hk⟩)
    (fun r hr => List.mem_mergeSort.mp (List.mem_of_mem_take hr)) ?_
  have hp := (List.mergeSort_perm s.custody.records
    (CustodyMessage.purgedBefore s.localIdentity)).map CustodyMessage.key
  exact ((List.take_sublist _ _).map _).nodup (hp.nodup_iff.mpr s.custody.distinct)

theorem mem_purgeOldestByPolicy {re : Nat} {rs : String} {r : CustodyMessage} :
    r ∈ (s.purgeOldestByPolicy clock re rs).2.custody.records
      ↔ r ∈ s.custody.records ∧ ∀ p ∈ s.purgedFirst re, r.key ≠ p.key := by
  rw [purgeOldestByPolicy_eq]
  generalize s.purgedFirst re = l
  induction l generalizing s with
  | nil => simp
  | cons p l ih =>
    rw [List.foldl_cons, ih, mem_purgeRecord]
    simp only [List.mem_cons, forall_eq_or_imp, and_assoc]

theorem enforceStoragePressureInternal_trims (s : RelayStore) (env : StorageEnv)
    (ic : Option CustodyMessage) :
    Trims clock s (s.enforceStoragePressureInternal clock env ic).2 := by
  unfold enforceStoragePressureInternal
  simp only
  split
  · exact .refl
  · split
    · exact purgeOldestByPolicy_trims _ _ _
    · exact (purgeOldestByPolicy_trims _ _ _).trans (purgeOldestByPolicy_trims _ _ _)

theorem enforceStoragePressureForWrite_trims_internal (clock : Clock) (s : RelayStore) (env : StorageEnv)
    (ic : CustodyMessage) :
    Trims clock (s.enforceStoragePressureInternal clock env (some ic)).2
      (s.enforceStoragePressureForWrite clock env ic).2 := by
  unfold enforceStoragePressureForWrite
  split
  · rename_i he
    rw [he]
    exact .refl
  · rename_i he
    rw [he]
    split
    · exact .refl
    · simp only
      split
      · exact .refl
      · split
        · exact .refl
        · split
          all_goals
            exact (purgeOldestByPolicy_trims _ _ _).trans (purgeOldestByPolicy_trims _ _ _)

theorem enforceStoragePressureForWrite_trims (clock : Clock) (s : RelayStore) (env : StorageEnv)
    (ic : CustodyMessage) : Trims clock s (s.enforceStoragePressureForWrite clock env ic).2 :=
  (enforceStoragePressureInternal_trims s env (some ic)).trans
    (enforceStoragePressureForWrite_trims_internal clock s env ic)

/-! ## Acceptance -/

theorem decideAdmission_observes (clock : Clock) (hash : Bytes → Arr 32) (s : RelayStore)
    (i d : Option String) :
    ∃ registry, Observes clock s.registry registry
      ∧ (s.decideAdmission clock hash i d).2 = { s with registry := registry } := by
  unfold decideAdmission
  split
  · rename_i identityId di
    have ho : Observes clock s.registry
        (s.registry.enforceCustody clock hash identityId di).2 :=
      RelayRegistry.enforceCustody_observes _ _ _
    split
    all_goals
      rename_i he
      rw [he] at ho
      exact ⟨_, ho, rfl⟩
  · split
    all_goals exact ⟨s.registry, .refl _, rfl⟩
  · exact ⟨s.registry, .refl _, rfl⟩

/-- What `registry` and the pressure on the storage decide about one request. -/
def decisions (clock : Clock) (hash : Bytes → Arr 32) (s : RelayStore) (env : StorageEnv)
    (registry : RelayRegistry) (purged : List String) : CustodyPolicy where
  normalizeLookupIdentity id := .ok (s.registry.normalizeLookupIdentity hash id)
  enforceCustody identityId deviceId :=
    match (s.registry.enforceCustody clock hash identityId deviceId).1 with
    | .error e => .error e.asCode
    | .ok _ => .ok ()
  enforceStoragePressure _ message :=
    ⟨purged, match ({ s with registry := registry.tick.takeSequence }.enforceStoragePressureForWrite clock env
        message).1 with
      | .error e => some e
      | .ok () => none⟩

theorem decisions_enforce (clock : Clock) (hash : Bytes → Arr 32) (s : RelayStore) (env : StorageEnv)
    (registry : RelayRegistry) (purged : List String) (i d : Option String) :
    (decisions clock hash s env registry purged).enforce i d
      = (s.decideAdmission clock hash i d).1.map fun _ => () := by
  cases i with
  | none => cases d <;> rfl
  | some i =>
    cases d with
    | none =>
      unfold decideAdmission
      cases s.compatMode <;> rfl
    | some d =>
      simp only [CustodyPolicy.enforce, decisions, decideAdmission]
      rcases s.registry.enforceCustody clock hash i d with ⟨⟨e⟩ | ⟨_⟩, registry⟩
      · rfl
      · rfl

/-- **The relay's store refines the custody records** under the decisions it comes to. -/
theorem acceptCustody_refines (clock : Clock) (hash : Bytes → Arr 32) (s : RelayStore) (env : StorageEnv)
    (request : CustodyRequest) :
    ∃ policy nowMs sequence,
      (s.acceptCustody clock hash env request).1
          = (s.custody.acceptCustody policy nowMs sequence request).result
        ∧ (s.acceptCustody clock hash env request).2.custody
          = (s.custody.acceptCustody policy nowMs sequence request).store := by
  obtain ⟨registry, -, hr⟩ := decideAdmission_observes clock hash s (s.recipientIdentity hash request)
    request.intendedDevice
  obtain ⟨keys, hk⟩ := (enforceStoragePressureForWrite_trims clock
    { s with registry := registry.tick.takeSequence } env
    (request.newMessage (s.recipientIdentity hash request) request.intendedDevice
      (clock.read registry.ticks) registry.sequence)).purge
  refine ⟨decisions clock hash s env registry keys, clock.read registry.ticks, registry.sequence, ?_⟩
  have hid : (request.recipientIdentityId.bind fun id =>
      ((decisions clock hash s env registry keys).normalizeLookupIdentity id).toOption.join)
      = s.recipientIdentity hash request := by
    simp only [decisions, Except.toOption, Option.join_some, recipientIdentity]
  have hen := decisions_enforce clock hash s env registry keys (s.recipientIdentity hash request)
    request.intendedDevice
  unfold acceptCustody RelayCustodyStore.acceptCustody
  cases hex : s.custody.findExisting request.destinationPeerId.text request.relayMessageId with
  | some existing => exact ⟨rfl, rfl⟩
  | none =>
    rcases hd : s.decideAdmission clock hash (s.recipientIdentity hash request) request.intendedDevice with
      ⟨admission, admitted⟩
    rw [hd] at hr hen
    subst hr
    simp only [hid, hen, hd]
    cases admission with
    | error e => exact ⟨rfl, rfl⟩
    | ok reason =>
      simp only [Except.map]
      split
      · exact ⟨rfl, rfl⟩
      · simp only [decisions]
        rcases hw : enforceStoragePressureForWrite clock { s with registry := registry.tick.takeSequence } env
          (request.newMessage (s.recipientIdentity hash request) request.intendedDevice
            (clock.read registry.ticks) registry.sequence) with ⟨⟨e⟩ | ⟨⟨⟩⟩, s'⟩
        · rw [hw] at hk
          exact ⟨rfl, hk⟩
        · rw [hw] at hk
          refine ⟨rfl, ?_⟩
          show s'.custody.putMessage _ = (s.custody.purge keys).putMessage _
          rw [show s'.custody = s.custody.purge keys from hk]

end RelayStore

end SCMessenger
