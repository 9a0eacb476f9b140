import Mathlib.Data.Fintype.Pigeonhole
import SCMessenger.Lib.Bincode

/-!
# Counting byte strings

There are `256 ^ n` byte strings of length `n`, and fewer shorter ones.
-/

namespace SCMessenger

/-- **Pigeonhole for byte strings.** -/
theorem exists_ne_map_eq {n k : Nat} (hk : k < 256 ^ n) (f : Arr n → Fin k) : ∃ a b, a ≠ b ∧ f a = f b := by
  obtain ⟨i, j, hn, he⟩ := Fintype.exists_ne_map_eq_of_card_lt
    (fun i : Fin (256 ^ n) => f ⟨leBytes n i, leBytes_length n i⟩) (by simpa using hk)
  refine ⟨_, _, fun h => hn (Fin.ext ?_), he⟩
  exact leBytes_inj i.2 j.2 (congrArg Subtype.val h)

def markedNat (b : Bytes) : Nat := leNat (b ++ [1])

theorem markedNat_cons (x : UInt8) (b : Bytes) : markedNat (x :: b) = x.toNat + 256 * markedNat b := rfl

theorem markedNat_pos (b : Bytes) : 0 < markedNat b := by
  induction b with
  | nil => exact Nat.one_pos
  | cons x b ih =>
    rw [markedNat_cons]
    omega

theorem markedNat_lt (b : Bytes) : markedNat b < 2 * 256 ^ b.length := by
  induction b with
  | nil => decide
  | cons x b ih =>
    have hx : x.toNat < 256 := x.toNat_lt
    rw [markedNat_cons, List.length_cons, Nat.pow_succ]
    omega

theorem markedNat_inj {b c : Bytes} (h : markedNat b = markedNat c) : b = c := by
  induction b generalizing c with
  | nil =>
    cases c with
    | nil => rfl
    | cons y c =>
      have hp := markedNat_pos c
      have ho : markedNat [] = 1 := rfl
      rw [ho, markedNat_cons] at h
      omega
  | cons x b ih =>
    have hx : x.toNat < 256 := x.toNat_lt
    cases c with
    | nil =>
      have hp := markedNat_pos b
      have ho : markedNat [] = 1 := rfl
      rw [ho, markedNat_cons] at h
      omega
    | cons y c =>
      have hy : y.toNat < 256 := y.toNat_lt
      rw [markedNat_cons, markedNat_cons] at h
      have hh : x = y := UInt8.toNat_inj.mp (by omega)
      have ht : markedNat b = markedNat c := by omega
      rw [hh, ih ht]

/-- **No injective function shortens every string of a length.** -/
theorem exists_long_image {f : Bytes → Bytes} (hf : Function.Injective f) (n : Nat) :
    ∃ b : Bytes, b.length = n + 1 ∧ n < (f b).length := by
  by_contra ha
  push Not at ha
  -- the images, as numbers, are too few
  have hs : ∀ a : Arr (n + 1), markedNat (f a.1) < 2 * 256 ^ n := by
    intro a
    refine Nat.lt_of_lt_of_le (markedNat_lt _) (Nat.mul_le_mul_left 2 ?_)
    exact Nat.pow_le_pow_right (Nat.succ_pos 255) (ha a.1 a.2)
  have hfe : 2 * 256 ^ n < 256 ^ (n + 1) := by
    have hp : 0 < 256 ^ n := Nat.pow_pos (Nat.succ_pos 255)
    rw [Nat.pow_succ]
    omega
  obtain ⟨a, b, hn, he⟩ := exists_ne_map_eq hfe fun a => ⟨markedNat (f a.1), hs a⟩
  exact hn (Subtype.ext (hf (markedNat_inj (congrArg Fin.val he))))

end SCMessenger
