import SCMessenger.Store.RelaySteps

/-!
# Two forms of one device

A registration names a device by a UUID, which can be written in several forms.  The registry compares the
texts: another form of the same UUID is another device.
-/

namespace SCMessenger

namespace RelayRegistry

theorem register_first {clock : Clock} {registry : RelayRegistry} {i identityId form d : String} {n : Nat}
    (hi : normalizeIdentityId i = .ok identityId)
    (hd : normalizeUuidV4 form "registration_device_id_invalid" = .ok d) (hn : n ≠ 0)
    (hu : (registry.tick.getRecordByIdentityId clock identityId).1 = none) :
    (register clock registry i form n).1 = .ok ⟨.active d n, .none⟩ := by
  delta register
  simp only [hi, hd, if_neg hn, hu, registerTransition]

/-- **A device is known by its text**, up to the white space around it. -/
theorem device_forms_iff {form form' d d' error : String} (hform : normalizeUuidV4 form error = .ok d)
    (hform' : normalizeUuidV4 form' error = .ok d') :
    (∀ clock hash registry i n target,
      (register clock registry i form n).1 = (register clock registry i form' n).1
      ∧ (deregister clock registry i form target).1 = (deregister clock registry i form' target).1
      ∧ (enforceCustody clock hash registry i form).1 = (enforceCustody clock hash registry i form').1)
    ↔ rustTrim form = rustTrim form' := by
  constructor
  · intro hsa
    -- a first registration answers with the device as it was written
    have hf := (hsa tenDayClock sampleHash .new registeredIdentity 1 none).1
    have hi : normalizeIdentityId registeredIdentity = .ok registeredIdentity := by decide +kernel
    have hu : (new.tick.getRecordByIdentityId tenDayClock registeredIdentity).1 = none := rfl
    rw [register_first hi ((normalizeUuidV4_ok hform).2 _) Nat.one_ne_zero hu,
      register_first hi ((normalizeUuidV4_ok hform').2 _) Nat.one_ne_zero hu] at hf
    have hs := congrArg RegistrationUpdateOutcome.state (Except.ok.inj hf)
    rw [← (normalizeUuidV4_ok hform).1, ← (normalizeUuidV4_ok hform').1]
    exact (RegistrationState.active.inj hs).1
  · intro ht clock hash registry i n target
    have hd : ∀ error, normalizeUuidV4 form error = normalizeUuidV4 form' error := by
      intro error
      rw [normalizeUuidV4, normalizeUuidV4, ht]
    refine ⟨?_, ?_, ?_⟩
    · delta register
      rw [hd]
    · delta deregister
      rw [deregistrationDevices, deregistrationDevices, hd]
    · delta enforceCustody
      rw [hd]

theorem device_forms_blank :
    (∀ clock hash registry i n target,
      (register clock registry i phone n).1 = (register clock registry i (" " ++ phone) n).1
      ∧ (deregister clock registry i phone target).1 = (deregister clock registry i (" " ++ phone) target).1
      ∧ (enforceCustody clock hash registry i phone).1
        = (enforceCustody clock hash registry i (" " ++ phone)).1)
    ↔ rustTrim phone = rustTrim (" " ++ phone) :=
  have hphone : normalizeUuidV4 phone "" = .ok phone := by decide +kernel
  have hblank : normalizeUuidV4 (" " ++ phone) "" = .ok phone := by decide +kernel
  device_forms_iff hphone hblank

/-- The same UUID in capitals is taken for another device. -/
theorem device_form_conflict :
    let capitals := "550E8400-E29B-41D4-A716-446655440000"
    let registry := (register tenDayClock .new registeredIdentity phone 1).2
    Uuid.parseStr capitals = Uuid.parseStr phone
      ∧ (normalizeUuidV4 phone "").isOk = true ∧ (normalizeUuidV4 capitals "").isOk = true
      ∧ (register tenDayClock registry registeredIdentity phone 1).1 = .ok ⟨.active phone 1, .none⟩
      ∧ (register tenDayClock registry registeredIdentity capitals 1).1 = .error "registration_active_conflict"
      ∧ (deregister tenDayClock registry registeredIdentity capitals none).1
        = .error "registration_device_mismatch"
      ∧ (enforceCustody tenDayClock sampleHash registry registeredIdentity capitals).1
        = .error .deviceMismatch := by
  decide +kernel

end RelayRegistry

end SCMessenger
