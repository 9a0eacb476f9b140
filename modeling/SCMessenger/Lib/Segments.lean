import Mathlib.Data.List.Infix

/-!
# What stands where in a buffer

`StandsAt` says that a piece is found at an offset: a buffer put together from pieces has each of them at
the sum of the lengths before it.
-/

namespace SCMessenger

variable {α : Type} {data p q : List α} {o : Nat}

def StandsAt (data : List α) (o : Nat) (p : List α) : Prop := p <+: data.drop o

namespace StandsAt

theorem whole (data : List α) : StandsAt data 0 data := List.prefix_refl data

theorem append : StandsAt data o (p ++ q) ↔ StandsAt data o p ∧ StandsAt data (o + p.length) q := by
  unfold StandsAt
  rw [← List.drop_drop]
  constructor
  · rintro ⟨t, ht⟩
    rw [← ht, List.append_assoc]
    refine ⟨List.prefix_append _ _, ?_⟩
    rw [List.drop_left]
    exact List.prefix_append _ _
  · rintro ⟨⟨t, ht⟩, hq⟩
    rw [← ht, List.drop_left] at hq
    rw [← ht]
    exact (List.prefix_append_right_inj p).mpr hq

theorem cons {a : α} : StandsAt data o (a :: p) ↔ StandsAt data o [a] ∧ StandsAt data (o + 1) p :=
  append (p := [a])

theorem length_le (h : StandsAt data o p) (hp : p ≠ []) : o + p.length ≤ data.length := by
  have hl := List.IsPrefix.length_le h
  have hpo := List.length_pos_iff.mpr hp
  rw [List.length_drop] at hl
  omega

theorem take_drop {n : Nat} (h : StandsAt data o p) (hn : p.length = n) : (data.drop o).take n = p := by
  rw [← hn]
  exact (List.prefix_iff_eq_take.mp h).symm

theorem record {β : Type} {enc : β → List α} {w : Nat} (hw : ∀ b, (enc b).length = w) {bs : List β}
    {o : Nat} (h : StandsAt data o (bs.flatMap enc)) {i : Nat} {b : β} (hb : bs[i]? = some b) :
    StandsAt data (o + i * w) (enc b) := by
  induction bs generalizing o i with
  | nil => simp at hb
  | cons c bs ih =>
    rw [List.flatMap_cons, append, hw] at h
    cases i with
    | zero =>
      rw [List.getElem?_cons_zero] at hb
      cases hb
      simpa using h.1
    | succ i =>
      rw [List.getElem?_cons_succ] at hb
      have hr := ih h.2 hb
      rwa [Nat.add_assoc, Nat.add_comm w, ← Nat.succ_mul] at hr

theorem getElem? {a : α} (h : StandsAt data o [a]) : data[o]? = some a := by
  obtain ⟨t, ht⟩ := h
  rw [← List.head?_drop, ← ht]
  rfl

theorem getD {a : α} (h : StandsAt data o [a]) (d : α) : data.getD o d = a := by
  rw [List.getD_eq_getElem?_getD, h.getElem?, Option.getD_some]

end StandsAt

end SCMessenger
