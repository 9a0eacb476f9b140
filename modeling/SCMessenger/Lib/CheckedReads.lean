import Mathlib.Data.List.GetD
import SCMessenger.Lib.Bincode
import SCMessenger.Lib.Outcome

/-!
# Reads that may fault

Indexing and slicing as in Rust: a read outside the buffer panics, and so does a sum of offsets that does
not fit the `bits` of a machine word.
-/

namespace SCMessenger

variable {ε α : Type} {bits : Nat}

def offsetAdd (bits a b : Nat) : Outcome ε Nat :=
  if a + b < 2 ^ bits then .ok (a + b) else .panicked

def index (data : List α) (i : Nat) : Outcome ε α :=
  match data[i]? with
  | some a => .ok a
  | none => .panicked

def slice (data : List α) (first last : Nat) : Outcome ε (List α) :=
  if first ≤ last ∧ last ≤ data.length then .ok ((data.drop first).take (last - first)) else .panicked

def copyAt (bits : Nat) (data : Bytes) (offset n : Nat) : Outcome ε (Arr n) :=
  (offsetAdd bits offset n).bind fun last => (slice data offset last).map (Arr.fit n)

def leAt (bits : Nat) (data : Bytes) (offset : Nat) : Nat → Outcome ε Nat
  | 0 => .ok 0
  | n + 1 =>
    (index data offset).bind fun b =>
    (offsetAdd bits offset 1).bind fun next =>
    (leAt bits data next n).map fun high => b.toNat + 256 * high

theorem offsetAdd_eq_ok {a b : Nat} (h : a + b < 2 ^ bits) :
    (offsetAdd bits a b : Outcome ε Nat) = .ok (a + b) := if_pos h

theorem offsetAdd_eq_panicked {a b : Nat} (h : ¬ a + b < 2 ^ bits) :
    (offsetAdd bits a b : Outcome ε Nat) = .panicked := if_neg h

theorem index_eq_ok {data : List α} {i : Nat} (h : i < data.length) (d : α) :
    (index data i : Outcome ε α) = .ok (data.getD i d) := by
  rw [index, List.getElem?_eq_getElem h, List.getD_eq_getElem data d h]

theorem slice_eq_ok {d : List α} {o n : Nat} (h : o + n ≤ d.length) :
    (slice d o (o + n) : Outcome ε (List α)) = .ok ((d.drop o).take n) := by
  rw [slice, if_pos ⟨Nat.le_add_right o n, h⟩, Nat.add_sub_cancel_left]

theorem Arr.fit_take {n : Nat} {b : Bytes} (h : n ≤ b.length) : Arr.fit n (b.take n) = Arr.fit n b := by
  apply Subtype.ext
  have hl : (b.take n).length = n := by rw [List.length_take]; omega
  rw [Arr.fit_val_of_length hl]
  show b.take n = (b ++ List.replicate n 0).take n
  rw [List.take_append_of_le_length h]

theorem copyAt_eq_ok {data : Bytes} {o n : Nat} (h : o + n ≤ data.length) (hb : o + n < 2 ^ bits) :
    (copyAt bits data o n : Outcome ε (Arr n)) = .ok (Arr.fit n (data.drop o)) := by
  have hl : n ≤ (data.drop o).length := by rw [List.length_drop]; omega
  rw [copyAt, offsetAdd_eq_ok hb]
  show (slice data o (o + n)).map _ = _
  rw [slice_eq_ok h, Outcome.map, Arr.fit_take hl]

theorem leAt_eq_ok {data : Bytes} {o n : Nat} (h : o + n ≤ data.length) (hb : o + n < 2 ^ bits) :
    (leAt bits data o n : Outcome ε Nat) = .ok (leNat ((data.drop o).take n)) := by
  induction n generalizing o with
  | zero => rfl
  | succ n ih =>
    have ho : o < data.length := by omega
    rw [leAt, index_eq_ok ho 0, Outcome.bind, offsetAdd_eq_ok (by omega), Outcome.bind,
      ih (by omega) (by omega), Outcome.map, List.drop_eq_getElem_cons ho, List.take_succ_cons, leNat,
      List.getD_eq_getElem data 0 ho]

end SCMessenger
