import Mathlib.Algebra.BigOperators.Group.List.Basic
import Mathlib.Algebra.GroupWithZero.Nat
import Mathlib.Data.List.Nodup

/-!
# Tables of sums

Every key is put into some cells of a table; a cell shows how many keys were put into it (`weight`) and
their sum (`total`).  Where the weight is one, the sum is a key.
-/

namespace SCMessenger

namespace Peeling

open List

variable {ι κ : Type} (mult : ι → κ → ℕ)

def weight (keys : List κ) (j : ι) : ℕ := (keys.map (mult j)).sum

def total [AddCommGroup κ] (keys : List κ) (j : ι) : κ := (keys.map fun k => mult j k • k).sum

def without [DecidableEq κ] (keys : List κ) (k : κ) : List κ := keys.erase k

theorem perm_cons_without [DecidableEq κ] {keys : List κ} {k : κ} (h : k ∈ keys) :
    keys ~ k :: without keys k :=
  List.perm_cons_erase h

variable {mult} {keys keys' : List κ} {j : ι} {k : κ}

theorem weight_perm (mult : ι → κ → ℕ) (j : ι) (h : keys ~ keys') :
    weight mult keys j = weight mult keys' j :=
  (h.map _).sum_eq

theorem weight_append : weight mult (keys ++ keys') j = weight mult keys j + weight mult keys' j := by
  simp [weight]

theorem weight_eq_zero : weight mult keys j = 0 ↔ ∀ k ∈ keys, mult j k = 0 := by
  simp [weight, List.sum_eq_zero_iff_forall_eq_nat]

theorem weight_le {c : ℕ} (h : ∀ k, mult j k ≤ c) : weight mult keys j ≤ keys.length * c := by
  induction keys with
  | nil => exact Nat.zero_le _
  | cons k keys ih =>
    have hk := h k
    simp only [weight, List.map_cons, List.sum_cons, List.length_cons, Nat.succ_mul] at ih ⊢
    omega

theorem weight_without [DecidableEq κ] (mult : ι → κ → ℕ) (j : ι) (h : k ∈ keys) :
    weight mult keys j = mult j k + weight mult (without keys k) j := by
  rw [weight_perm mult j (perm_cons_without h)]
  simp [weight]

section Totals

variable [AddCommGroup κ]

theorem total_perm (mult : ι → κ → ℕ) (j : ι) (h : keys ~ keys') : total mult keys j = total mult keys' j :=
  (h.map _).sum_eq

theorem total_append : total mult (keys ++ keys') j = total mult keys j + total mult keys' j := by
  simp [total]

theorem total_without [DecidableEq κ] (mult : ι → κ → ℕ) (j : ι) (h : k ∈ keys) :
    total mult keys j = mult j k • k + total mult (without keys k) j := by
  rw [total_perm mult j (perm_cons_without h)]
  simp [total]

theorem total_eq_zero (h : weight mult keys j = 0) : total mult keys j = 0 := by
  apply List.sum_eq_zero
  intro x hx
  obtain ⟨k, hk, rfl⟩ := List.mem_map.mp hx
  rw [weight_eq_zero.mp h k hk, zero_nsmul]

/-- **A cell of weight one shows the key it holds.** -/
theorem exists_of_weight_eq_one [DecidableEq κ] (h : weight mult keys j = 1) :
    total mult keys j ∈ keys ∧ mult j (total mult keys j) = 1
      ∧ weight mult (without keys (total mult keys j)) j = 0 := by
  obtain ⟨k, hk, hn⟩ : ∃ k ∈ keys, mult j k ≠ 0 := by
    by_contra hno
    have hz : weight mult keys j = 0 :=
      weight_eq_zero.mpr fun k hk => by_contra fun hn => hno ⟨k, hk, hn⟩
    omega
  have hs := weight_without mult j hk
  have ho : mult j k = 1 := by omega
  have hr : weight mult (without keys k) j = 0 := by omega
  have ht : total mult keys j = k := by
    rw [total_without mult j hk, ho, one_nsmul, total_eq_zero hr, add_zero]
  rw [ht]
  exact ⟨hk, ho, hr⟩

end Totals

/-! ## Two sides -/

variable (mult) in
/-- In a cell with keys of both sides there is one of each, and every key has a cell of its side alone. -/
structure Separable (plus minus : List κ) : Prop where
  meet : ∀ j, 0 < weight mult plus j → 0 < weight mult minus j →
    weight mult plus j = 1 ∧ weight mult minus j = 1
  left : ∀ k ∈ plus, ∃ j, 0 < mult j k ∧ weight mult minus j = 0
  right : ∀ k ∈ minus, ∃ j, 0 < mult j k ∧ weight mult plus j = 0

theorem Separable.symm {plus minus : List κ} (h : Separable mult plus minus) :
    Separable mult minus plus :=
  ⟨fun j hm hp => (h.meet j hp hm).symm, h.right, h.left⟩

section Sides

variable [DecidableEq κ] {a b plus minus : List κ}

def only (a b : List κ) : List κ := a.filter fun k => k ∉ b

theorem mem_only : k ∈ only a b ↔ k ∈ a ∧ k ∉ b := by
  simp [only]

theorem nodup_only (ha : a.Nodup) : (only a b).Nodup := ha.filter _

theorem perm_common_append_only : a.filter (fun k => k ∈ b) ++ only a b ~ a := by
  have h := List.filter_append_perm (fun k => decide (k ∈ b)) a
  simpa [only] using h

theorem common_perm (ha : a.Nodup) (hb : b.Nodup) :
    a.filter (fun k => k ∈ b) ~ b.filter (fun k => k ∈ a) := by
  rw [List.perm_ext_iff_of_nodup (ha.filter _) (hb.filter _)]
  intro k
  simp [and_comm]

theorem weight_only_le : weight mult (only a b) j ≤ weight mult a j := by
  have hp := weight_perm mult j (perm_common_append_only (a := a) (b := b))
  rw [weight_append] at hp
  omega

theorem weight_sub_weight (ha : a.Nodup) (hb : b.Nodup) :
    (weight mult a j : ℤ) - weight mult b j = weight mult (only a b) j - weight mult (only b a) j := by
  have hp := weight_perm mult j (perm_common_append_only (a := a) (b := b))
  have hpb := weight_perm mult j (perm_common_append_only (a := b) (b := a))
  have hc := weight_perm mult j (common_perm ha hb)
  rw [weight_append] at hp hpb
  omega

theorem total_add_total [AddCommGroup κ] (hs : ∀ x : κ, x + x = 0) (ha : a.Nodup) (hb : b.Nodup) :
    total mult a j + total mult b j = total mult (only a b) j + total mult (only b a) j := by
  have hp := total_perm mult j (perm_common_append_only (a := a) (b := b))
  have hpb := total_perm mult j (perm_common_append_only (a := b) (b := a))
  rw [total_append] at hp hpb
  rw [← hp, ← hpb, total_perm mult j (common_perm ha hb), add_add_add_comm, hs, zero_add]

theorem weight_without_le : weight mult (without keys k) j ≤ weight mult keys j := by
  by_cases hk : k ∈ keys
  · rw [weight_without mult j hk]
    exact Nat.le_add_left _ _
  · exact Nat.le_of_eq (by rw [without, List.erase_of_not_mem hk])

theorem Separable.without_left (h : Separable mult plus minus) :
    Separable mult (without plus k) minus := by
  have hle : ∀ j, weight mult (without plus k) j ≤ weight mult plus j := fun j => weight_without_le
  refine ⟨fun j hp hm => ?_, fun k' hk => ?_, fun k' hk => ?_⟩
  · have hw := hle j
    obtain ⟨ho, ho'⟩ := h.meet j (by omega) hm
    exact ⟨by omega, ho'⟩
  · exact h.left k' (List.mem_of_mem_erase hk)
  · obtain ⟨j, hj, hz⟩ := h.right k' hk
    exact ⟨j, hj, Nat.le_zero.mp (hz ▸ hle j)⟩

end Sides

end Peeling

end SCMessenger
