import Mathlib.Data.Nat.Log
import SCMessenger.Lib.Bytes

/-!
# Padding against traffic analysis

`privacy/padding.rs`: the marker `0x80` and zeros up to a target size.  The marker is written also when the
message fills the target already.
-/

namespace SCMessenger

namespace Padding

def standardSizes : List Nat := [256, 512, 1024, 2048, 4096]

/-- How much padding a message gets. -/
inductive PaddingScheme where
  | none
  | fixed (size : Nat)
  | powerOfTwo
  | random (min max : Nat)

inductive PaddingError where
  | invalidConfig (text : String)
  | messageTooLarge (size : Nat)
  | invalidPaddingFormat
deriving DecidableEq

def marker : UInt8 := 0x80

def padMessage (message : Bytes) (targetSize : Nat) : Except PaddingError Bytes :=
  if targetSize < message.length then .error (.messageTooLarge targetSize)
  else
    let padded := message ++ [marker]
    .ok (padded ++ List.replicate (targetSize - padded.length) 0)

def markerPos (padded : Bytes) : Option Nat :=
  (padded.reverse.findIdx? (· == marker)).map fun i => padded.length - 1 - i

def unpadMessage (padded : Bytes) : Except PaddingError Bytes :=
  match markerPos padded with
  | none => .error .invalidPaddingFormat
  | some pos =>
    if (padded.drop (pos + 1)).all (· == 0) then .ok (padded.take pos)
    else .error .invalidPaddingFormat

def padToNextStandardSize (message : Bytes) : Except PaddingError Bytes :=
  match standardSizes.find? (message.length ≤ ·) with
  | some targetSize => padMessage message targetSize
  | none => .error (.invalidConfig
      ("Message exceeds max standard size of " ++ toString (standardSizes.getLastD 0)))

def applyPaddingScheme (genRange : Nat → Nat → Nat) (message : Bytes) :
    PaddingScheme → Except PaddingError Bytes
  | .none => .ok message
  | .fixed size => padMessage message size
  | .powerOfTwo => padMessage message (2 ^ Nat.clog 2 message.length)
  | .random min max =>
    if max < min ∨ min = 0 then .error (.invalidConfig "Invalid random range")
    else
      let targetSize := genRange min max
      if targetSize < message.length then .error (.messageTooLarge targetSize)
      else padMessage message targetSize

variable {message padded : Bytes} {size : Nat}

/-- **The shape of a padded message**: the message, the marker and zeros. -/
theorem padMessage_eq_ok : padMessage message size = .ok padded
    ↔ message.length ≤ size
      ∧ padded = message ++ marker :: List.replicate (size - (message.length + 1)) 0 := by
  unfold padMessage
  by_cases h : size < message.length
  · simp [h, Nat.not_le.mpr h]
  · simp [h, Nat.not_lt.mp h, eq_comm]

theorem markerPos_append_zeros (message : Bytes) (n : Nat) :
    markerPos (message ++ marker :: List.replicate n 0) = some message.length := by
  have hz : (List.replicate n (0 : UInt8)).findIdx? (· == marker) = none := by
    rw [List.findIdx?_eq_none_iff]
    intro b hb
    rw [List.eq_of_mem_replicate hb]
    decide
  have hr : (message ++ marker :: List.replicate n 0).reverse
      = List.replicate n 0 ++ marker :: message.reverse := by simp
  rw [markerPos, hr, List.findIdx?_append, hz, List.findIdx?_cons]
  simp

theorem unpadMessage_of_padMessage (h : padMessage message size = .ok padded) :
    unpadMessage padded = .ok message := by
  obtain ⟨-, rfl⟩ := padMessage_eq_ok.mp h
  simp [unpadMessage, markerPos_append_zeros]

/-- **One byte too many** for a message that fills the target, and for no other. -/
theorem length_of_padMessage (h : padMessage message size = .ok padded) :
    padded.length = if message.length = size then size + 1 else size := by
  obtain ⟨hle, rfl⟩ := padMessage_eq_ok.mp h
  simp only [List.length_append, List.length_cons, List.length_replicate]
  split <;> omega

theorem length_eq_size_iff (h : padMessage message size = .ok padded) :
    padded.length = size ↔ message.length ≠ size := by
  rw [length_of_padMessage h]
  split <;> simp_all

theorem two_pow_add_one_ne {k : Nat} (hk : k ≠ 0) (j : Nat) : 2 ^ k + 1 ≠ 2 ^ j := by
  obtain ⟨k, rfl⟩ := Nat.exists_eq_succ_of_ne_zero hk
  cases j with
  | zero => simp
  | succ j =>
    rw [pow_succ, pow_succ]
    omega

theorem eq_two_pow_clog_iff (n : Nat) : n = 2 ^ Nat.clog 2 n ↔ ∃ k, n = 2 ^ k := by
  constructor
  · exact fun h => ⟨_, h⟩
  · rintro ⟨k, rfl⟩
    rw [Nat.clog_pow 2 k (by decide)]

theorem find_standardSizes {target : Nat} (h : standardSizes.find? (message.length ≤ ·) = some target) :
    target ∈ standardSizes ∧ (message.length ∈ standardSizes → message.length = target) := by
  refine ⟨List.mem_of_find?_eq_some h, fun hm => ?_⟩
  generalize message.length = n at h hm
  simp only [standardSizes, List.mem_cons, List.not_mem_nil, or_false] at hm
  rcases hm with rfl | rfl | rfl | rfl | rfl <;> simpa [standardSizes] using h

theorem standardSizes_add_one {n : Nat} (h : n ∈ standardSizes) : n + 1 ∉ standardSizes := by
  revert n
  decide

/-- **What padding hides**: the length of every message that does not fill its target. -/
theorem padding_hides_length_iff (genRange : Nat → Nat → Nat) :
    (∀ message size padded, applyPaddingScheme genRange message (.fixed size) = .ok padded →
      (padded.length = size ↔ message.length ≠ size) ∧ unpadMessage padded = .ok message)
    ∧ (∀ message padded, applyPaddingScheme genRange message .powerOfTwo = .ok padded →
      ((∃ k, padded.length = 2 ^ k) ↔ ∀ k, k ≠ 0 → message.length ≠ 2 ^ k)
        ∧ unpadMessage padded = .ok message)
    ∧ (∀ message padded, padToNextStandardSize message = .ok padded →
      (padded.length ∈ standardSizes ↔ message.length ∉ standardSizes)
        ∧ unpadMessage padded = .ok message)
    ∧ ∀ size message message' padded padded', padMessage message size = .ok padded →
      padMessage message' size = .ok padded' →
      (padded.length = padded'.length ↔ (message.length = size ↔ message'.length = size)) := by
  refine ⟨fun m s p h => ⟨length_eq_size_iff h, unpadMessage_of_padMessage h⟩, fun m p h => ?_,
    fun m p h => ?_, fun s m m' p p' h h' => ?_⟩
  · refine ⟨?_, unpadMessage_of_padMessage h⟩
    rw [length_of_padMessage h]
    by_cases hf : m.length = 2 ^ Nat.clog 2 m.length
    · rw [if_pos hf]
      constructor
      · -- only the class of one byte stays a power of two with the marker
        rintro ⟨j, hj⟩ k hk hm
        rw [hm, Nat.clog_pow 2 k (by decide)] at hj
        exact two_pow_add_one_ne hk j hj
      · intro hn
        have hz : Nat.clog 2 m.length = 0 := by
          by_contra hne
          exact hn _ hne hf
        exact ⟨1, by rw [hz]; rfl⟩
    · rw [if_neg hf]
      simp only [exists_apply_eq_apply', true_iff]
      exact fun k _ hm => hf ((eq_two_pow_clog_iff _).mpr ⟨k, hm⟩)
  · unfold padToNextStandardSize at h
    split at h
    · rename_i t ht
      obtain ⟨hm, hc⟩ := find_standardSizes ht
      refine ⟨?_, unpadMessage_of_padMessage h⟩
      rw [length_of_padMessage h]
      by_cases hf : m.length = t
      · simp [hf, hm, standardSizes_add_one hm]
      · simp only [hf, if_false, hm, true_iff]
        exact fun hs => hf (hc hs)
    · cases h
  · rw [length_of_padMessage h, length_of_padMessage h']
    by_cases hm : m.length = s <;> by_cases hm' : m'.length = s <;> simp [hm, hm']

/-- A message that fills its target is one byte longer than the others. -/
theorem full_message_stands_out :
    ((padMessage [1] 2).toOption.map List.length, (padMessage [1, 1] 2).toOption.map List.length)
        = (some 2, some 3)
      ∧ (padToNextStandardSize (List.replicate 256 1)).toOption.map List.length = some 257 := by
  decide +kernel

end Padding

end SCMessenger
