import SCMessenger.Store.Rejection

/-!
# What a purge takes

The records of a relay are purged in a fixed order until enough bytes are free.  With the device almost
full the store is only brought below the ceiling, and another quota is reported.
-/

namespace SCMessenger.RelayStore

variable {clock : Clock} {s : RelayStore} {required : Nat} {reason : String}

/-! ## The shortest beginning -/

theorem needed_le_length (si : List Nat) (required : Nat) : needed si required ≤ si.length := by
  induction si generalizing required with
  | nil => exact Nat.le_refl 0
  | cons size si ih =>
    rw [needed]
    split
    · exact Nat.zero_le _
    · exact Nat.succ_le_succ (ih _)

theorem needed_minimal {si : List Nat} {n : Nat} (h : n < needed si required) :
    (si.take n).sum < required := by
  induction si generalizing required n with
  | nil => exact absurd h (Nat.not_lt_zero n)
  | cons size si ih =>
    rw [needed] at h
    split at h
    · exact absurd h (Nat.not_lt_zero n)
    · cases n with
      | zero => exact Nat.pos_of_ne_zero ‹_›
      | succ n =>
        have hr := ih (Nat.lt_of_succ_lt_succ h)
        rw [List.take_succ_cons, List.sum_cons]
        omega

theorem needed_enough (si : List Nat) (required : Nat) :
    needed si required = si.length ∨ required ≤ (si.take (needed si required)).sum := by
  induction si generalizing required with
  | nil => exact .inl rfl
  | cons size si ih =>
    rw [needed]
    split
    · exact .inr (by omega)
    · rw [List.length_cons, List.take_succ_cons, List.sum_cons]
      rcases ih (required - size) with ha | he
      · exact .inl (by rw [ha])
      · exact .inr (by omega)

/-! ## What is left -/

def bytesOf (l : List CustodyMessage) : Nat := (l.map serializedRecordBytes).sum

theorem foldl_saturatingAdd (si : List Nat) (a : Nat) :
    si.foldl saturatingAdd (min a u64Max) = min (a + si.sum) u64Max := by
  induction si generalizing a with
  | nil => rfl
  | cons size si ih =>
    have hs : saturatingAdd (min a u64Max) size = min (a + size) u64Max := by
      rw [saturatingAdd]
      omega
    rw [List.foldl_cons, hs, ih, List.sum_cons, Nat.add_assoc]

theorem purgedFirst_subset {r : CustodyMessage} (h : r ∈ s.purgedFirst required) : r ∈ s.custody.records :=
  List.mem_mergeSort.mp (List.mem_of_mem_take h)

theorem mem_purged_iff {r : CustodyMessage} :
    r ∈ (s.purgeOldestByPolicy clock required reason).2.custody.records
      ↔ r ∈ s.custody.records ∧ r ∉ s.purgedFirst required := by
  rw [mem_purgeOldestByPolicy]
  constructor
  · rintro ⟨hr, hke⟩
    exact ⟨hr, fun hf => hke r hf rfl⟩
  · rintro ⟨hr, hf⟩
    refine ⟨hr, fun p hp hk => hf ?_⟩
    rwa [RelayCustodyStore.eq_of_key_eq hr (purgedFirst_subset hp) hk]

theorem records_nodup (st : RelayCustodyStore) : st.records.Nodup := List.Nodup.of_map _ st.distinct

theorem purge_perm (clock : Clock) (s : RelayStore) (required : Nat) (reason : String) :
    s.custody.records.Perm
      (s.purgedFirst required ++ (s.purgeOldestByPolicy clock required reason).2.custody.records) := by
  have hf : (s.purgedFirst required).Nodup :=
    (List.take_sublist _ _).nodup ((List.mergeSort_perm _ _).nodup_iff.mpr (records_nodup s.custody))
  refine (List.perm_ext_iff_of_nodup (records_nodup _) ?_).mpr fun r => ?_
  · exact hf.append (records_nodup _) fun r hr hr' => (mem_purged_iff.mp hr').2 hr
  · rw [List.mem_append, mem_purged_iff]
    have hs : r ∈ s.purgedFirst required → r ∈ s.custody.records := purgedFirst_subset
    tauto

theorem purge_bytes (clock : Clock) (s : RelayStore) (required : Nat) (reason : String)
    (hb : s.currentScmStorageBytes ≤ u64Max) :
    (s.purgeOldestByPolicy clock required reason).1.2 = bytesOf (s.purgedFirst required)
      ∧ ((s.purgeOldestByPolicy clock required reason).2.custody.records = []
        ∨ required ≤ bytesOf (s.purgedFirst required)) := by
  have hp := purge_perm clock s required reason
  constructor
  · have hs := (hp.map serializedRecordBytes).sum_nat
    rw [List.map_append, List.sum_append] at hs
    rw [purgeOldestByPolicy_eq]
    have hf := foldl_saturatingAdd ((s.purgedFirst required).map serializedRecordBytes) 0
    rw [Nat.zero_add] at hf
    refine hf.trans (min_eq_left ?_)
    unfold currentScmStorageBytes at hb
    omega
  · rw [purgedFirst] at hp ⊢
    generalize h : s.custody.records.mergeSort (CustodyMessage.purgedBefore s.localIdentity) = o
      at hp
    rcases needed_enough (o.map serializedRecordBytes) required with ha | he
    · left
      rw [ha, List.length_map, List.take_length] at hp
      have hl := hp.length_eq
      rw [List.length_append, ← h, List.length_mergeSort] at hl
      exact List.length_eq_zero_iff.mp (by omega)
    · right
      rwa [bytesOf, List.map_take]

theorem purge_audit (clock : Clock) (s : RelayStore) (required : Nat) (reason : String) :
    ∃ en, (s.purgeOldestByPolicy clock required reason).2.audit = s.audit ++ en
      ∧ en.map (fun e => (e.custodyId, e.fromState, e.toState, e.reason))
        = (s.purgedFirst required).map fun r => (r.custodyId, some r.state, r.state, reason ++ "_purged") := by
  rw [purgeOldestByPolicy_eq]
  generalize s.purgedFirst required = l
  induction l generalizing s with
  | nil => exact ⟨[], (List.append_nil _).symm, rfl⟩
  | cons r l ih =>
    obtain ⟨en, ha, he⟩ := ih (s.purgeRecord clock r (reason ++ "_purged"))
    rw [List.foldl_cons, ha, purgeRecord, removeMessage, recordTransition, List.append_assoc]
    exact ⟨_, rfl, congrArg (_ :: ·) he⟩

/-- **A purge takes exactly the shortest beginning of the order that is large enough.** -/
theorem purge_exact (clock : Clock) (s : RelayStore) (required : Nat) (reason : String) :
    let after := s.purgeOldestByPolicy clock required reason
    ∃ (order : List CustodyMessage) (n : Nat), order.Perm s.custody.records
      ∧ order.Pairwise (fun r r' => r.purgedBefore s.localIdentity r' = true)
      ∧ n ≤ order.length
      ∧ (∀ m < n, bytesOf (order.take m) < required)
      ∧ (n = order.length ∨ required ≤ bytesOf (order.take n))
      ∧ after.1 = (n, min (bytesOf (order.take n)) u64Max)
      ∧ (∀ r, r ∈ after.2.custody.records ↔ r ∈ s.custody.records ∧ r ∉ order.take n)
      ∧ ∃ entries, after.2.audit = s.audit ++ entries
        ∧ entries.map (fun e => (e.custodyId, e.fromState, e.toState, e.reason))
          = (order.take n).map fun r => (r.custodyId, some r.state, r.state, reason ++ "_purged") := by
  intro after
  let order := s.custody.records.mergeSort (CustodyMessage.purgedBefore s.localIdentity)
  have hl := needed_le_length (order.map serializedRecordBytes) required
  have he := needed_enough (order.map serializedRecordBytes) required
  rw [List.length_map] at hl he
  refine ⟨order, needed (order.map serializedRecordBytes) required, List.mergeSort_perm _ _,
    List.pairwise_mergeSort (CustodyMessage.purgedBefore_trans _) (CustodyMessage.purgedBefore_total _) _,
    hl, fun m hm => ?_, ?_, ?_, fun r => mem_purged_iff, purge_audit clock s required reason⟩
  · rw [bytesOf, List.map_take]
    exact needed_minimal hm
  · rwa [bytesOf, List.map_take]
  · have hf := foldl_saturatingAdd ((s.purgedFirst required).map serializedRecordBytes) 0
    rw [Nat.zero_add] at hf
    have ht : (s.purgedFirst required).length = needed (order.map serializedRecordBytes) required :=
      List.length_take_of_le hl
    simp only [after, purgeOldestByPolicy_eq]
    rw [ht]
    exact congrArg (Prod.mk _) hf

/-! ## The quota -/

section

open StoragePressureContext

variable {context : StoragePressureContext} {a b p q : Nat}

theorem bandOf_share_le (p : Nat) : (bandOf p).2 ≤ 100 := by
  unfold bandOf
  split_ifs <;> decide

theorem bandOf_anti (h : p ≤ q) (hc : (bandOf q).1 ≠ .emergencyOver90Pct) :
    (bandOf p).1 ≠ .emergencyOver90Pct ∧ (bandOf q).2 ≤ (bandOf p).2 := by
  unfold bandOf at hc ⊢
  split_ifs at hc ⊢ <;> first | omega | simp_all

theorem share_mod {f sh : Nat} (hf : f ≤ u64Max) (hs : sh ≤ 100) :
    f * sh / 100 % 2 ^ 64 = f * sh / 100 := by
  refine Nat.mod_eq_of_lt ?_
  have hl : f * sh / 100 ≤ f := Nat.div_le_of_le_mul (by rw [Nat.mul_comm]; exact Nat.mul_le_mul_right _ hs)
  unfold u64Max at hf
  omega

theorem basisPoints_mod {u t : Nat} (h : u < t) :
    u * 10000 / t % 2 ^ 64 = u * 10000 / t := by
  refine Nat.mod_eq_of_lt (Nat.lt_of_lt_of_le ?_ (show 10000 ≤ 2 ^ 64 by decide))
  exact Nat.div_lt_of_lt_mul (Nat.mul_lt_mul_of_pos_right h (by decide))

theorem targetQuotaBytes_anti (h : a ≤ b) (ht : context.totalBytes ≤ u64Max)
    (hc : (context.stateForScmBytes b).emergencyMode = false) :
    (context.stateForScmBytes b).targetQuotaBytes ≤ (context.stateForScmBytes a).targetQuotaBytes := by
  have hu : saturatingAdd context.nonScmUsedBytes a ≤ saturatingAdd context.nonScmUsedBytes b := by
    unfold saturatingAdd
    omega
  simp only [StoragePressureState.emergencyMode, stateForScmBytes] at hc ⊢
  replace hc := of_decide_eq_false hc
  refine min_le_min_right _ ?_
  rw [if_neg hc]
  by_cases hf : context.totalBytes ≤ saturatingAdd context.nonScmUsedBytes b
  · rw [Nat.sub_eq_zero_of_le hf, Nat.zero_mul, Nat.zero_div, Nat.zero_mod]
    exact Nat.zero_le _
  · have hp : saturatingAdd context.nonScmUsedBytes a * 10000 / context.totalBytes
        ≤ saturatingAdd context.nonScmUsedBytes b * 10000 / context.totalBytes :=
      Nat.div_le_div_right (Nat.mul_le_mul_right _ hu)
    rw [basisPoints_mod (by omega)] at hc ⊢
    obtain ⟨hc', hs⟩ := bandOf_anti hp hc
    rw [basisPoints_mod (by omega), if_neg hc', share_mod (by omega) (bandOf_share_le _),
      share_mod (by omega) (bandOf_share_le _)]
    exact Nat.div_le_div_right (Nat.mul_le_mul (by omega) hs)

end

/-- How much a store is over its quota. -/
def excessBytes (s : RelayStore) (context : StoragePressureContext) : Nat :=
  s.currentScmStorageBytes - (context.stateForScmBytes s.currentScmStorageBytes).targetQuotaBytes

/-- What stays of a store when as much as it is over its quota is purged. -/
def bytesLeft (s : RelayStore) (context : StoragePressureContext) : Nat :=
  s.currentScmStorageBytes - bytesOf (s.purgedFirst (s.excessBytes context))

/-- No record is left, or the purge for the quota was large enough for the ceiling too. -/
theorem enforceStoragePressure_spec (clock : Clock) {env : StorageEnv} {context : StoragePressureContext}
    (hcontext : s.pressureSnapshot env = some context) (hbytes : s.currentScmStorageBytes ≤ u64Max) :
    let final := s.enforceStoragePressure clock env
    ∃ report, final.1 = .ok report
      ∧ (final.2.custody.records = [] ∧ (∀ r ∈ s.custody.records, r ∈ s.purgedFirst (s.excessBytes context))
        ∨ (∀ r, r ∈ final.2.custody.records
            ↔ r ∈ s.custody.records ∧ r ∉ s.purgedFirst (s.excessBytes context))
          ∧ s.bytesLeft context ≤ (context.stateForScmBytes s.currentScmStorageBytes).targetQuotaBytes
          ∧ report.scmBytesAfter = s.bytesLeft context
          ∧ report.targetQuotaBytes = (context.stateForScmBytes (s.bytesLeft context)).targetQuotaBytes
          ∧ report.hardCeilingBytes = (context.stateForScmBytes (s.bytesLeft context)).hardCeilingBytes) := by
  rw [pressureSnapshot] at hcontext
  simp only [enforceStoragePressure, enforceStoragePressureInternal, hcontext, Option.map_none,
    Option.getD_none, Bool.false_eq_true, and_false, if_false]
  refine ⟨_, rfl, ?_⟩
  obtain ⟨hp, hd⟩ := purge_bytes clock s (s.excessBytes context) "storage_pressure_target_quota" hbytes
  have hm (r : CustodyMessage) :
      r ∈ (s.purgeOldestByPolicy clock (s.excessBytes context) "storage_pressure_target_quota").2.custody.records
        ↔ r ∈ s.custody.records ∧ r ∉ s.purgedFirst (s.excessBytes context) := mem_purged_iff
  rw [← excessBytes]
  rcases hd with hem | he
  · left
    constructor
    · refine List.eq_nil_iff_forall_not_mem.mpr fun r hr => ?_
      have hr := (purgeOldestByPolicy_trims _ _ _).subset r hr
      rw [hem] at hr
      exact List.not_mem_nil hr
    · intro r hr
      by_contra hn
      have hr := (hm r).mpr ⟨hr, hn⟩
      rw [hem] at hr
      exact List.not_mem_nil hr
  · right
    have hq : s.bytesLeft context ≤ (context.stateForScmBytes s.currentScmStorageBytes).targetQuotaBytes := by
      unfold bytesLeft
      unfold excessBytes at he ⊢
      omega
    -- the ceiling does not depend on the bytes of the store
    have hc : s.bytesLeft context ≤ (context.stateForScmBytes (s.bytesLeft context)).hardCeilingBytes :=
      Nat.le_trans hq (context.targetQuotaBytes_le _)
    rw [hp, ← bytesLeft, Nat.sub_eq_zero_of_le hc, purgeOldestByPolicy_zero]
    exact ⟨hm, hq, rfl, rfl, rfl⟩

/-- A check leaves no record, or no more bytes than the quota and the ceiling it reports. -/
def Relieved (clock : Clock) (s : RelayStore) (env : StorageEnv) : Prop :=
  ∃ report, (s.enforceStoragePressure clock env).1 = .ok report
    ∧ ((s.enforceStoragePressure clock env).2.custody.records = []
      ∨ report.scmBytesAfter ≤ report.targetQuotaBytes ∧ report.scmBytesAfter ≤ report.hardCeilingBytes)

/-- **When relief reaches its targets**: in an emergency, if what stays fits the quota of its band. -/
theorem enforceStoragePressure_relieves_iff (clock : Clock) (s : RelayStore) (env : StorageEnv)
    (context : StoragePressureContext) (hcontext : s.pressureSnapshot env = some context)
    (htotal : context.totalBytes ≤ u64Max) (hbytes : s.currentScmStorageBytes ≤ u64Max) :
    Relieved clock s env
      ↔ ((context.stateForScmBytes s.currentScmStorageBytes).emergencyMode = true →
        (∀ r ∈ s.custody.records, r ∈ s.purgedFirst (s.excessBytes context))
          ∨ s.bytesLeft context ≤ (context.stateForScmBytes (s.bytesLeft context)).targetQuotaBytes) := by
  obtain ⟨report, ho, ⟨hnil, hall⟩ | ⟨hm, hq, ha, ht, hh⟩⟩ := enforceStoragePressure_spec clock hcontext hbytes
  · exact iff_of_true ⟨report, ho, .inl hnil⟩ fun _ => .inl hall
  constructor
  · rintro ⟨report', ho', hr⟩ -
    obtain rfl : report = report' := Except.ok.inj (ho.symm.trans ho')
    rcases hr with hnil | ⟨hr, -⟩
    · left
      intro r hr
      by_contra hn
      have hr := (hm r).mpr ⟨hr, hn⟩
      rw [hnil] at hr
      exact List.not_mem_nil hr
    · right
      rwa [ha, ht] at hr
  · intro h
    refine ⟨report, ho, ?_⟩
    have hc : report.scmBytesAfter ≤ report.hardCeilingBytes := by
      rw [ha, hh]
      exact Nat.le_trans hq (context.targetQuotaBytes_le _)
    cases hem : (context.stateForScmBytes s.currentScmStorageBytes).emergencyMode with
    | false =>
      right
      refine ⟨?_, hc⟩
      rw [ha, ht]
      exact Nat.le_trans hq (targetQuotaBytes_anti (Nat.sub_le _ _) htotal hem)
    | true =>
      rcases h hem with hall | hl
      · left
        refine List.eq_nil_iff_forall_not_mem.mpr fun r hr => ?_
        exact ((hm r).mp hr).2 (hall r ((hm r).mp hr).1)
      · right
        exact ⟨by rwa [ha, ht], hc⟩

def twoRecords : RelayStore :=
  let record (relayMessageId : String) : CustodyMessage :=
    CustodyRequest.newMessage ⟨"alice", bobPeer, relayMessageId, [], none, none⟩ none none 0 0
  { RelayStore.new none .phaseA with custody := ⟨[record "m1", record "m2"], by decide⟩ }

def deviceOf (totalBytes usedBytes : Nat) : StorageEnv := ⟨some ⟨totalBytes, usedBytes⟩, none, none, none⟩

theorem twoRecords_sorted :
    twoRecords.custody.records.mergeSort (CustodyMessage.purgedBefore twoRecords.localIdentity)
      = twoRecords.custody.records := List.mergeSort_of_pairwise (by decide +kernel)

/-- On a device half full one of the two records goes, on a full one both. -/
theorem twoRecords_relieved :
    Relieved tenDayClock twoRecords (deviceOf 400 164) ∧ Relieved tenDayClock twoRecords (deviceOf 1000 990) := by
  constructor
  · exact (enforceStoragePressure_relieves_iff tenDayClock twoRecords (deviceOf 400 164) ⟨400, 0⟩
      (by decide +kernel) (by decide +kernel) (by decide +kernel)).mpr fun h => absurd h (by decide +kernel)
  · refine (enforceStoragePressure_relieves_iff tenDayClock twoRecords (deviceOf 1000 990) ⟨1000, 826⟩
      (by decide +kernel) (by decide +kernel) (by decide +kernel)).mpr fun _ => .inl ?_
    rw [purgedFirst, twoRecords_sorted]
    decide +kernel

/-- One of the two records goes, and the store is above the quota of its new band. -/
theorem emergency_misses_quota :
    let result := twoRecords.enforceStoragePressure tenDayClock (deviceOf 170 164)
    ∃ report, result.1 = .ok report ∧ report.targetQuotaBytes < report.scmBytesAfter
      ∧ result.2.custody.records ≠ [] := by
  have hf : twoRecords.purgeOldestByPolicy tenDayClock 11 "storage_pressure_target_quota"
      = ((1, 82), twoRecords.purgeRecord tenDayClock (twoRecords.custody.records.get ⟨0, by decide⟩)
          "storage_pressure_target_quota_purged") := by
    rw [purgeOldestByPolicy, twoRecords_sorted]
    rfl
  have hb : twoRecords.currentScmStorageBytes = 164 := by decide +kernel
  have hc : StoragePressureContext.fromSnapshot ⟨170, 164⟩ 164 = some ⟨170, 0⟩ := by decide
  have hcr : StoragePressureContext.stateForScmBytes ⟨170, 0⟩ 164 = ⟨.emergencyOver90Pct, 153, 153, 164⟩ := by
    decide
  have hl : StoragePressureContext.stateForScmBytes ⟨170, 0⟩ 82 = ⟨.from20To50Pct, 153, 39, 82⟩ := by
    decide
  simp only [enforceStoragePressure, enforceStoragePressureInternal, hb, deviceOf, Option.getD_some, hc,
    hcr, hf, hl, Option.map_none, Option.getD_none]
  refine ⟨⟨false, 153, 39, 164, 82, 1, 82⟩, ?_⟩
  decide +kernel

end SCMessenger.RelayStore
