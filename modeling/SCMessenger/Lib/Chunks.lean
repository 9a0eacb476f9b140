import Mathlib.Tactic.Common

/-!
# Chunks of a list

A list cut into chunks of equal length, the last one possibly shorter, as `slice::chunks` cuts it.
-/

namespace SCMessenger

variable {α : Type}

def chunksOf (n : Nat) (xs : List α) : List (List α) :=
  (List.range ((xs.length + n - 1) / n)).map fun i => (xs.drop (i * n)).take n

theorem flatten_map_chunks (n k : Nat) (xs : List α) :
    ((List.range k).map fun i => (xs.drop (i * n)).take n).flatten = xs.take (k * n) := by
  induction k with
  | zero => simp
  | succ k ih =>
    rw [List.range_succ, List.map_append, List.flatten_append, ih, Nat.succ_mul, List.take_add]
    simp

/-- **Nothing is lost**: the chunks put together are the list. -/
theorem chunksOf_flatten {n : Nat} (hn : 0 < n) (xs : List α) : (chunksOf n xs).flatten = xs := by
  rw [chunksOf, flatten_map_chunks]
  apply List.take_of_length_le
  have hd := Nat.div_add_mod (xs.length + n - 1) n
  have hm := Nat.mod_lt (xs.length + n - 1) hn
  rw [Nat.mul_comm]
  omega

theorem length_le_of_mem_chunksOf {n : Nat} {xs c : List α} (h : c ∈ chunksOf n xs) : c.length ≤ n := by
  obtain ⟨i, -, rfl⟩ := List.mem_map.mp h
  exact List.length_take_le n _

theorem chunksOf_getElem?_zero {n : Nat} (hn : 0 < n) {xs : List α} (hx : xs ≠ []) :
    (chunksOf n xs)[0]? = some (xs.take n) := by
  have hl : 0 < xs.length := List.length_pos_iff.mpr hx
  have hp : 0 < (xs.length + n - 1) / n := Nat.div_pos (by omega) hn
  simp [chunksOf, List.getElem?_range hp]

end SCMessenger
