import SCMessenger.Lib.Bincode

/-!
# Exclusive or of byte arrays

The arrays of one length are a commutative group in which every element is its own inverse.
-/

namespace SCMessenger

namespace Arr

variable {n : Nat}

def xor (a b : Arr n) : Arr n := ⟨List.zipWith (· ^^^ ·) a.1 b.1, by simp [a.2, b.2]⟩

def zeros (n : Nat) : Arr n := ⟨List.replicate n 0, by simp⟩

theorem xor_comm (a b : Arr n) : a.xor b = b.xor a := by
  apply Subtype.ext
  exact List.zipWith_comm_of_comm UInt8.xor_comm

theorem xor_assoc (a b c : Arr n) : (a.xor b).xor c = a.xor (b.xor c) := by
  apply Subtype.ext
  apply List.ext_getElem
  · simp [xor]
  · intro i h₁ h₂
    simp [xor, UInt8.xor_assoc]

theorem zeros_xor (a : Arr n) : (zeros n).xor a = a := by
  apply Subtype.ext
  apply List.ext_getElem
  · simp [xor, zeros, a.2]
  · intro i h₁ h₂
    simp [xor, zeros]

theorem xor_self (a : Arr n) : a.xor a = zeros n := by
  apply Subtype.ext
  apply List.ext_getElem
  · simp [xor, zeros, a.2]
  · intro i h₁ h₂
    simp [xor, zeros]

instance : Add (Arr n) := ⟨xor⟩
instance : Zero (Arr n) := ⟨zeros n⟩
instance : Neg (Arr n) := ⟨fun a => a⟩

instance xorGroup : AddCommGroup (Arr n) where
  add_assoc := xor_assoc
  zero_add := zeros_xor
  add_zero a := (xor_comm a (zeros n)).trans (zeros_xor a)
  nsmul := nsmulRec
  zsmul := zsmulRec
  neg_add_cancel := xor_self
  add_comm := xor_comm

theorem add_self (a : Arr n) : a + a = 0 := xor_self a

end Arr

theorem leNat_zipWith_xor (a b : Bytes) (h : a.length = b.length) :
    leNat (List.zipWith (· ^^^ ·) a b) = leNat a ^^^ leNat b := by
  induction a generalizing b with
  | nil =>
    cases b with
    | nil => rfl
    | cons y b => cases h
  | cons x a ih =>
    cases b with
    | nil => cases h
    | cons y b =>
      have hx : x.toNat < 256 := x.toNat_lt
      have hy : y.toNat < 256 := y.toNat_lt
      -- the lowest byte and the rest are combined separately
      have hm : (leNat (x :: a) ^^^ leNat (y :: b)) % 2 ^ 8 = x.toNat ^^^ y.toNat := by
        rw [Nat.xor_mod_two_pow]
        simp only [leNat]
        congr 1 <;> omega
      have hd : (leNat (x :: a) ^^^ leNat (y :: b)) / 2 ^ 8 = leNat a ^^^ leNat b := by
        rw [Nat.xor_div_two_pow]
        simp only [leNat]
        congr 1 <;> omega
      rw [List.zipWith_cons_cons, leNat, ih b (by simpa using h), UInt8.toNat_xor, ← hm, ← hd]
      omega

end SCMessenger
