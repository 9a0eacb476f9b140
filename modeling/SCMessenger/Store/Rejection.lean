import SCMessenger.Store.RelaySteps

/-!
# Envelopes that are rejected

Room for an envelope is made before it is measured; where it still does not fit it is rejected, and the
records that were purged for it are gone.
-/

namespace SCMessenger

def CustodyRequest.identityRelated (localIdentity : Option String) (request : CustodyRequest) : Bool :=
  match localIdentity with
  | none => false
  | some localIdentity =>
    request.sourcePeerId = localIdentity ∨ request.destinationPeerId.text = localIdentity

namespace RelayStore

variable {clock : Clock} {hash : Bytes → Arr 32} {s : RelayStore} {env : StorageEnv}

/-! ## What a purge takes -/

theorem purgeOldestByPolicy_zero (clock : Clock) (s : RelayStore) (r : String) :
    s.purgeOldestByPolicy clock 0 r = ((0, 0), s) := by
  rw [purgeOldestByPolicy_eq, purgedFirst]
  cases s.custody.records.mergeSort (CustodyMessage.purgedBefore s.localIdentity) <;> rfl

def Loses (s s' : RelayStore) : Prop := ∃ r ∈ s.custody.records, r ∉ s'.custody.records

variable {s' : RelayStore}

theorem Loses.ne (h : Loses s s') : s'.custody ≠ s.custody := by
  obtain ⟨r, hr, hg⟩ := h
  intro he
  rw [he] at hg
  exact hg hr

theorem Loses.trims {s'' : RelayStore} (h : Loses s s') (ht : Trims clock s' s'') : Loses s s'' := by
  obtain ⟨r, hr, hg⟩ := h
  exact ⟨r, hr, fun hm => hg (ht.subset r hm)⟩

theorem purgeOldestByPolicy_loses (clock : Clock) {re : Nat} (rs : String) (hn : re ≠ 0)
    (hsm : s.custody.records ≠ []) : Loses s (s.purgeOldestByPolicy clock re rs).2 := by
  cases hs : s.custody.records.mergeSort (CustodyMessage.purgedBefore s.localIdentity) with
  | nil =>
    have hl : (s.custody.records.mergeSort (CustodyMessage.purgedBefore s.localIdentity)).length
        = s.custody.records.length := List.length_mergeSort _
    rw [hs] at hl
    exact absurd (List.length_eq_zero_iff.mp hl.symm) hsm
  | cons r l =>
    refine ⟨r, List.mem_mergeSort.mp (hs ▸ List.mem_cons_self), fun hle => ?_⟩
    have hf : r ∈ s.purgedFirst re := by
      rw [purgedFirst, hs, List.map_cons, needed, if_neg hn]
      exact List.mem_cons_self
    exact (mem_purgeOldestByPolicy.mp hle).2 r hf rfl

/-! ## The two checks -/

def pressureSnapshot (s : RelayStore) (env : StorageEnv) : Option StoragePressureContext :=
  StoragePressureContext.fromSnapshot
    (env.probe.getD (env.syntheticStorageSnapshot s.currentScmStorageBytes)) s.currentScmStorageBytes

/-- The store holds more than it may before the envelope is looked at. -/
def Oversized (s : RelayStore) (env : StorageEnv) (related : Bool) : Prop :=
  ∃ context, s.pressureSnapshot env = some context
    ∧ if (context.stateForScmBytes s.currentScmStorageBytes).emergencyMode = true ∧ related = false then
        (context.stateForScmBytes s.currentScmStorageBytes).hardCeilingBytes < s.currentScmStorageBytes
      else (context.stateForScmBytes s.currentScmStorageBytes).targetQuotaBytes < s.currentScmStorageBytes

/-- The second check rejects whatever the size of the envelope. -/
def BarsWrite (s : RelayStore) (env : StorageEnv) (related : Bool) : Prop :=
  ∃ snapshot, env.probeBeforeWrite = some snapshot
    ∧ ∀ context, StoragePressureContext.fromSnapshot snapshot s.currentScmStorageBytes = some context →
      (context.stateForScmBytes s.currentScmStorageBytes).emergencyMode = true ∧ related = false

variable {incoming : CustodyMessage}

theorem enforceStoragePressureInternal_of_oversized (clock : Clock)
    (h : Oversized s env (incoming.identityRelated s.localIdentity)) (hs : s.custody.records ≠ []) :
    Loses s (s.enforceStoragePressureInternal clock env (some incoming)).2 := by
  obtain ⟨c, hc, hl⟩ := h
  rw [pressureSnapshot] at hc
  simp only [enforceStoragePressureInternal, hc, Option.map_some, Option.getD_some,
    Bool.not_eq_true']
  split
  · rename_i he
    rw [if_pos he] at hl
    exact purgeOldestByPolicy_loses clock _ (Nat.sub_ne_zero_of_lt hl) hs
  · rename_i hca
    rw [if_neg hca] at hl
    exact (purgeOldestByPolicy_loses clock _ (Nat.sub_ne_zero_of_lt hl) hs).trims
      (purgeOldestByPolicy_trims _ _ _)

theorem enforceStoragePressureInternal_of_not_oversized (clock : Clock)
    (h : ¬ Oversized s env (incoming.identityRelated s.localIdentity)) :
    (s.pressureSnapshot env = none
      ∧ s.enforceStoragePressureInternal clock env (some incoming) = (.error "invalid_storage_snapshot", s))
    ∨ (s.pressureSnapshot env ≠ none
      ∧ ∃ r, s.enforceStoragePressureInternal clock env (some incoming) = (.ok r, s)
        ∧ r.scmBytesAfter = s.currentScmStorageBytes) := by
  cases hc : s.pressureSnapshot env with
  | none =>
    refine .inl ⟨rfl, ?_⟩
    rw [pressureSnapshot] at hc
    simp only [enforceStoragePressureInternal, hc]
  | some c =>
    refine .inr ⟨Option.some_ne_none _, ?_⟩
    have hl := fun ho => h ⟨c, hc, ho⟩
    rw [pressureSnapshot] at hc
    simp only [enforceStoragePressureInternal, hc, Option.map_some, Option.getD_some,
      Bool.not_eq_true']
    split
    · rename_i he
      rw [if_pos he] at hl
      rw [Nat.sub_eq_zero_of_le (Nat.not_lt.mp hl), purgeOldestByPolicy_zero]
      exact ⟨_, rfl, Nat.sub_zero _⟩
    · rename_i hca
      rw [if_neg hca] at hl
      have hq := Nat.not_lt.mp hl
      have hce := hq.trans (c.targetQuotaBytes_le s.currentScmStorageBytes)
      rw [Nat.sub_eq_zero_of_le hq, purgeOldestByPolicy_zero]
      simp only [Nat.sub_zero]
      rw [Nat.sub_eq_zero_of_le hce, purgeOldestByPolicy_zero]
      exact ⟨_, rfl, Nat.sub_zero _⟩

/-- Nothing is purged exactly when the store is within its limits and any size is rejected. -/
theorem enforceStoragePressureForWrite_error {e : String}
    (h : s.enforceStoragePressureForWrite clock env incoming = (.error e, s'))
    (hs : s.custody.records ≠ []) :
    s'.custody = s.custody ↔ ¬ Oversized s env (incoming.identityRelated s.localIdentity)
      ∧ (s.pressureSnapshot env = none ∨ BarsWrite s env (incoming.identityRelated s.localIdentity)) := by
  by_cases ho : Oversized s env (incoming.identityRelated s.localIdentity)
  · -- the first check purges, and nothing comes back
    have hf := enforceStoragePressureInternal_of_oversized clock ho hs
    have hr := enforceStoragePressureForWrite_trims_internal clock s env incoming
    rw [h] at hr
    exact ⟨fun heq => absurd heq (hf.trims hr).ne, fun hn => absurd ho hn.1⟩
  · rcases enforceStoragePressureInternal_of_not_oversized clock ho with
      ⟨hnn, heq⟩ | ⟨hsn, r, heq, hby⟩
    · simp only [enforceStoragePressureForWrite, heq] at h
      cases h
      exact ⟨fun _ => ⟨ho, .inl hnn⟩, fun _ => rfl⟩
    · simp only [enforceStoragePressureForWrite, heq, hby] at h
      cases hp : env.probeBeforeWrite with
      | none =>
        rw [hp] at h
        cases h
      | some sn =>
        simp only [hp] at h
        cases hc : StoragePressureContext.fromSnapshot sn s.currentScmStorageBytes with
        | none =>
          rw [hc] at h
          cases h
          have hb : BarsWrite s env (incoming.identityRelated s.localIdentity) :=
            ⟨sn, hp, fun c hs => by rw [hc] at hs; cases hs⟩
          exact ⟨fun _ => ⟨ho, .inr hb⟩, fun _ => rfl⟩
        | some c =>
          simp only [hc] at h
          by_cases he : (c.stateForScmBytes s.currentScmStorageBytes).emergencyMode = true
              ∧ incoming.identityRelated s.localIdentity = false
          · rw [if_pos he] at h
            cases h
            refine ⟨fun _ => ⟨ho, .inr ⟨sn, hp, fun c' hs => ?_⟩⟩, fun _ => rfl⟩
            rw [hc] at hs
            cases hs
            exact he
          · have hop : ¬ BarsWrite s env (incoming.identityRelated s.localIdentity) := by
              rintro ⟨sn', hp', hb⟩
              rw [hp] at hp'
              cases hp'
              exact he (hb c hc)
            rw [if_neg he] at h
            -- were there room for the envelope, it would not be rejected
            have hnd : saturatingAdd s.currentScmStorageBytes (serializedRecordBytes incoming)
                - (c.stateForScmBytes s.currentScmStorageBytes).targetQuotaBytes ≠ 0 := by
              intro hz
              have hq := Nat.sub_eq_zero_iff_le.mp hz
              have hce := hq.trans (c.targetQuotaBytes_le s.currentScmStorageBytes)
              rw [hz, purgeOldestByPolicy_zero] at h
              simp only [Nat.sub_zero] at h
              rw [Nat.sub_eq_zero_of_le hce, purgeOldestByPolicy_zero] at h
              simp only [Nat.sub_zero] at h
              rw [if_neg (by simp only [not_or, Nat.not_lt]; exact ⟨hq, hce⟩)] at h
              cases h
            have hl : Loses s s' := by
              have hf := purgeOldestByPolicy_loses clock "storage_pressure_target_quota" hnd hs
              split at h
              · cases h
                exact hf.trims (purgeOldestByPolicy_trims _ _ _)
              · cases h
            exact ⟨fun heq => absurd heq hl.ne, fun hn => (hn.2.elim hsn hop).elim⟩

/-! ## Acceptance -/

/-- The registry or the queue refuses, nothing is stored, or any size is rejected without a purge. -/
def RejectedUnpurged (clock : Clock) (hash : Bytes → Arr 32) (s : RelayStore) (env : StorageEnv)
    (request : CustodyRequest) : Prop :=
  (∃ e, (s.decideAdmission clock hash (s.recipientIdentity hash request) request.intendedDevice).1
    = .error e)
  ∨ maxPendingPerDestination
    ≤ (s.custody.pendingForDestination request.destinationPeerId.text s.custody.records.length).length
  ∨ s.custody.records = []
  ∨ ¬ Oversized s env (request.identityRelated s.localIdentity)
    ∧ (s.pressureSnapshot env = none ∨ BarsWrite s env (request.identityRelated s.localIdentity))

theorem Trims.custody_of_empty (h : Trims clock s s') (he : s.custody.records = []) :
    s'.custody = s.custody := by
  refine preserves_of_steps (p := fun s' => s'.custody = s.custody) (fun a b hs heq => ?_) h rfl
  cases hs with
  | purge r hm =>
    rw [heq, he] at hm
    cases hm

/-- **A rejected envelope leaves the records alone** exactly when nothing is purged before. -/
theorem acceptCustody_error_iff (clock : Clock) (hash : Bytes → Arr 32) (s : RelayStore) (env : StorageEnv)
    (request : CustodyRequest) {e : String} {s' : RelayStore}
    (h : s.acceptCustody clock hash env request = (.error e, s')) :
    s'.custody = s.custody ↔ RejectedUnpurged clock hash s env request := by
  unfold acceptCustody at h
  cases hex : s.custody.findExisting request.destinationPeerId.text request.relayMessageId with
  | some ex =>
    rw [hex] at h
    cases h
  | none =>
    obtain ⟨registry, -, hr⟩ := decideAdmission_observes clock hash s
      (s.recipientIdentity hash request) request.intendedDevice
    rcases hd : s.decideAdmission clock hash (s.recipientIdentity hash request)
      request.intendedDevice with ⟨admission, admitted⟩
    rw [hd] at hr
    subst hr
    simp only [hex, hd] at h
    cases admission with
    | error re =>
      cases h
      exact ⟨fun _ => .inl ⟨e, by rw [hd]⟩, fun _ => rfl⟩
    | ok rs =>
      have ha : ¬ ∃ e, (s.decideAdmission clock hash (s.recipientIdentity hash request)
          request.intendedDevice).1 = .error e := by
        rw [hd]
        rintro ⟨e, he⟩
        cases he
      simp only at h
      split at h
      · rename_i hf
        cases h
        exact ⟨fun _ => .inr (.inl hf), fun _ => rfl⟩
      · rename_i hro
        have ht := enforceStoragePressureForWrite_trims clock
          { s with registry := registry.tick.takeSequence } env
          (request.newMessage (s.recipientIdentity hash request) request.intendedDevice
            (clock.read registry.ticks) registry.sequence)
        split at h
        · rename_i e' r hw
          cases h
          rw [hw] at ht
          rw [RejectedUnpurged, or_iff_right ha, or_iff_right hro]
          by_cases hem : s.custody.records = []
          · exact ⟨fun _ => .inl hem, fun _ => ht.custody_of_empty hem⟩
          · rw [or_iff_right hem]
            exact enforceStoragePressureForWrite_error hw hem
        · cases h

def waitingRelay : RelayStore :=
  (RelayStore.new none .phaseB).putMessage
    (CustodyRequest.newMessage ⟨"sender", bobPeer, "m1", [42], none, none⟩ none none 0 0)

def largeRequest : CustodyRequest := ⟨"sender", bobPeer, "m2", List.replicate 1000 0, none, none⟩

/-- The probe fails before the record is written, and the stored record is kept. -/
theorem acceptCustody_error_sample :
    (waitingRelay.acceptCustody tenDayClock sampleHash ⟨none, some ⟨0, 0⟩, none, none⟩ largeRequest).1.toOption
        = none
    ∧ (waitingRelay.acceptCustody tenDayClock sampleHash ⟨none, some ⟨0, 0⟩, none, none⟩
        largeRequest).2.custody = waitingRelay.custody := by
  have hr : (waitingRelay.acceptCustody tenDayClock sampleHash ⟨none, some ⟨0, 0⟩, none, none⟩
      largeRequest).1.toOption = none := by decide +kernel
  refine ⟨hr, ?_⟩
  rcases hre : waitingRelay.acceptCustody tenDayClock sampleHash ⟨none, some ⟨0, 0⟩, none, none⟩
    largeRequest with ⟨result, s'⟩
  rw [hre] at hr
  cases result with
  | ok m => cases hr
  | error e =>
    refine (acceptCustody_error_iff tenDayClock sampleHash waitingRelay _ largeRequest hre).mpr
      (.inr (.inr (.inr ⟨?_, .inr ⟨⟨0, 0⟩, rfl, fun c hc => ?_⟩⟩)))
    · rintro ⟨c, hc, hl⟩
      revert hl
      cases hc
      decide +kernel
    · cases hc

/-- A record is purged for an envelope larger than the quota, which is then rejected. -/
theorem largeRequest_purges :
    (waitingRelay.acceptCustody tenDayClock sampleHash ⟨some ⟨1000, 200⟩, some ⟨1000, 200⟩, none, none⟩
        largeRequest).1.toOption = none
    ∧ waitingRelay.custody.records ≠ []
    ∧ (waitingRelay.acceptCustody tenDayClock sampleHash ⟨some ⟨1000, 200⟩, some ⟨1000, 200⟩, none, none⟩
        largeRequest).2.custody.records = [] := by
  refine ⟨?_, ?_, ?_⟩ <;> decide +kernel

end RelayStore

end SCMessenger
