import SCMessenger.Transport.L2cap

/-!
# Fragments put together in order

The reassemblers of `transport/ble/gatt.rs` and `transport/ble/l2cap.rs` that take a whole list.  An empty
message is sent as one fragment without a header, which neither accepts.
-/

namespace SCMessenger

def L2capConfig.reassemble (_config : L2capConfig) (fragments : List Bytes) : Except L2capError Bytes :=
  L2capError.errors.reassemble fragments

/-! ## Characteristics -/

inductive GattError where
  | fragmentationError (text : String)
  | reassemblyError (text : String)
deriving DecidableEq

namespace Gatt

def maxCharacteristicSize : Nat := 512

def errors : FragmentErrors GattError := ⟨.fragmentationError, .reassemblyError⟩

def maxPayloadPerWrite : Nat := maxCharacteristicSize - FragmentHeader.headerSize

def fragment (data : Bytes) : Except GattError (List Bytes) :=
  errors.fragment maxPayloadPerWrite "Message too large for GATT fragmentation" data

def reassemble (fragments : List Bytes) : Except GattError Bytes := errors.reassemble fragments

end Gatt

/-! ## The round trip -/

section

variable {ε : Type} {e : FragmentErrors ε} {p : Nat} {text : String} {d : Bytes} {f : List Bytes}

theorem forM_ok {α : Type} {check : α → Except ε PUnit} {xs : List α} (h : ∀ x ∈ xs, check x = .ok ⟨⟩) :
    xs.forM check = .ok ⟨⟩ := by
  induction xs with
  | nil => rfl
  | cons x xs ih =>
    rw [List.forM, h x (by simp)]
    exact ih fun y hy => h y (by simp [hy])

/-- **What a reassembler accepts**: fragments whose headers give their number and their place. -/
theorem FragmentErrors.reassemble_eq (hn : f ≠ []) (hl : f.length ≤ 65535)
    (hh : ∀ i b, f[i]? = some b →
      e.headerFromBytes b = .ok ⟨UInt16.ofNat f.length, UInt16.ofNat i⟩) :
    e.reassemble f = .ok (f.flatMap (·.drop FragmentHeader.headerSize)) := by
  cases f with
  | nil => exact absurd rfl hn
  | cons b r =>
    have ht := toNat_ofNat_position hl
    have hc : ∀ x ∈ (b :: r).zipIdx,
        e.checkFragment (UInt16.ofNat (b :: r).length) x.1 x.2 = .ok () := by
      rintro ⟨b', i⟩ hm
      have hg := List.mem_zipIdx_iff_getElem?.mp hm
      have hi := (List.getElem?_eq_some_iff.mp hg).1
      have hp : (UInt16.ofNat i).toNat = i := toNat_ofNat_position (by omega)
      rw [checkFragment, hh i b' hg]
      simp [bind, Except.bind, hp]
    simp only [reassemble, hh 0 b rfl, ht, bind, Except.bind, ne_eq, not_true_eq_false, if_false]
    rw [forM_ok hc]

theorem length_le_of_mem_fragments (hd : d ≠ []) (h : e.fragment p text d = .ok f) :
    ∀ b ∈ f, b.length ≤ p + FragmentHeader.headerSize := by
  obtain ⟨-, rfl⟩ := FragmentErrors.fragment_eq hd h
  intro b hb
  obtain ⟨⟨c, i⟩, hm, rfl⟩ := List.mem_map.mp hb
  have hc : c.length ≤ p := length_le_of_mem_chunksOf (List.fst_mem_of_mem_zipIdx hm)
  simp only [fragmentBytes, List.length_append, FragmentHeader.length_toBytes]
  omega

theorem reassemble_of_fragment (hp : 0 < p) (hd : d ≠ []) (h : e.fragment p text d = .ok f) :
    e.reassemble f = .ok d := by
  obtain ⟨hl, rfl⟩ := FragmentErrors.fragment_eq hd h
  have hf : (chunksOf p d).flatten = d := chunksOf_flatten hp d
  have hn : chunksOf p d ≠ [] := by
    intro hn
    rw [hn] at hf
    exact hd hf.symm
  rw [FragmentErrors.reassemble_eq (by simpa using hn) (by simpa using hl) ?_, List.flatMap_def,
    payloads_fragments, hf]
  intro i b hb
  simp only [List.length_map, List.length_zipIdx]
  rw [List.getElem?_map, List.getElem?_zipIdx, Option.map_map, Option.map_eq_some_iff] at hb
  obtain ⟨c, hc, rfl⟩ := hb
  have hi := (List.getElem?_eq_some_iff.mp hc).1
  simp only [Function.comp_apply, Nat.zero_add]
  exact headerFromBytes_fragmentBytes hi hl c

end

theorem reassemble_empty_fragment {ε : Type} (e : FragmentErrors ε) {b : Bytes} :
    e.reassemble [[]] ≠ .ok b := by
  intro h
  cases h

/-- **The round trip over both kinds of fragments** exactly for messages that are not empty. -/
theorem fragment_round_trip_iff (data : Bytes) (fragments : List Bytes) :
    (∀ config : L2capConfig, config.validate = .ok () → config.fragment data = .ok fragments →
      (∀ b ∈ fragments, b.length ≤ config.mtu.toNat)
        ∧ (config.reassemble fragments = .ok data ↔ data ≠ []))
    ∧ (Gatt.fragment data = .ok fragments →
      (∀ b ∈ fragments, b.length ≤ Gatt.maxCharacteristicSize)
        ∧ (Gatt.reassemble fragments = .ok data ↔ data ≠ [])) := by
  have hall : ∀ {ε : Type} (e : FragmentErrors ε) (p : Nat) (text : String), 0 < p →
      e.fragment p text data = .ok fragments →
      (∀ b ∈ fragments, b.length ≤ p + FragmentHeader.headerSize)
        ∧ (e.reassemble fragments = .ok data ↔ data ≠ []) := by
    intro ε e p text hp h
    by_cases hd : data = []
    · subst hd
      cases h
      exact ⟨by simp, by simpa using reassemble_empty_fragment e⟩
    · exact ⟨length_le_of_mem_fragments hd h,
        ⟨fun _ => hd, fun _ => reassemble_of_fragment hp hd h⟩⟩
  refine ⟨fun config hc h => ?_, fun h => hall Gatt.errors _ _ (by decide) h⟩
  have hm := L2capConfig.mtu_ge_of_validate hc
  have hs : config.maxPayloadPerFragment + FragmentHeader.headerSize = config.mtu.toNat :=
    Nat.sub_add_cancel (by simp only [FragmentHeader.headerSize]; omega)
  have hp : 0 < config.maxPayloadPerFragment := by
    simp only [FragmentHeader.headerSize] at hs
    omega
  rw [← hs]
  exact hall L2capError.errors _ _ hp h

/-- **Failing input**: the empty message is cut into one fragment that is not put together again. -/
theorem empty_message_refused :
    L2capConfig.fragment ⟨672, 30⟩ [] = .ok [[]] ∧ Gatt.fragment [] = .ok [[]]
      ∧ L2capConfig.reassemble ⟨672, 30⟩ [[]] = .error (.reassemblyError "Fragment header too short")
      ∧ Gatt.reassemble [[]] = .error (.reassemblyError "Fragment header too short") :=
  ⟨rfl, rfl, rfl, rfl⟩

end SCMessenger
