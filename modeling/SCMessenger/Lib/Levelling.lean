import Mathlib.Algebra.BigOperators.Group.Finset.Piecewise
import Mathlib.Algebra.GroupWithZero.Nat
import Mathlib.Order.Interval.Finset.Nat

/-!
# Levelling

Counts are reduced by so many in all, always taking from the largest: every count is cut to a level, and
what is still missing is taken one each from counts at that level.
-/

namespace SCMessenger.Levelling

def excess (counts : List Nat) (level : Nat) : Nat := (counts.map (· - level)).sum

variable {counts counts' : List Nat} {bound : Nat}

theorem excess_perm (h : counts.Perm counts') (l : Nat) : excess counts l = excess counts' l :=
  (h.map _).sum_nat

theorem excess_eq_zero (h : ∀ c ∈ counts, c ≤ bound) : excess counts bound = 0 := by
  refine List.sum_eq_zero fun x hx => ?_
  obtain ⟨c, hc, rfl⟩ := List.mem_map.mp hx
  exact Nat.sub_eq_zero_of_le (h c hc)

theorem excess_succ (counts : List Nat) (l : Nat) :
    excess counts l = excess counts (l + 1) + (counts.filter (l < ·)).length := by
  induction counts with
  | nil => rfl
  | cons c counts ih =>
    simp only [excess, List.map_cons, List.sum_cons] at ih ⊢
    rw [List.filter_cons, ih]
    split <;> rename_i hc
    · have ha : l < c := of_decide_eq_true hc
      rw [List.length_cons]
      omega
    · have hb : ¬ l < c := fun ha => hc (decide_eq_true ha)
      omega

theorem sum_histogram (h : ∀ c ∈ counts, c ≤ bound) (l : Nat) :
    ∑ c ∈ Finset.Ioc l bound, counts.count c * (c - l) = excess counts l := by
  induction counts with
  | nil => simp [excess]
  | cons c counts ih =>
    obtain ⟨hc, hco⟩ := List.forall_mem_cons.mp h
    have ho : ∑ x ∈ Finset.Ioc l bound, (if c = x then 1 else 0) * (x - l) = c - l := by
      simp only [ite_mul, one_mul, zero_mul, Finset.sum_ite_eq, Finset.mem_Ioc]
      split <;> omega
    simp only [List.count_cons, beq_iff_eq, Nat.add_mul, Finset.sum_add_distrib, ih hco, ho]
    exact Nat.add_comm _ _

theorem sum_indicator {κ : Type} (p : κ → Prop) [DecidablePred p] (l : List κ) :
    (l.map fun x => if p x then 1 else 0).sum = (l.filter p).length := by
  induction l with
  | nil => rfl
  | cons x l ih =>
    rw [List.map_cons, List.sum_cons, ih, List.filter_cons]
    by_cases hx : p x
    · simp [hx, Nat.add_comm]
    · simp [hx]

def waterLevel (taken : Nat → Nat) (need : Nat) : Nat → Nat
  | 0 => 0
  | t + 1 => if need ≤ taken (t + 1) then t + 1 else waterLevel taken need t

variable {taken : Nat → Nat} {need : Nat}

theorem waterLevel_le (taken : Nat → Nat) (need bound : Nat) : waterLevel taken need bound ≤ bound := by
  induction bound with
  | zero => exact Nat.le_refl 0
  | succ t ih =>
    rw [waterLevel]
    split
    · exact Nat.le_refl _
    · exact Nat.le_succ_of_le ih

theorem le_taken_waterLevel (h : need ≤ taken 0) (bound : Nat) : need ≤ taken (waterLevel taken need bound) := by
  induction bound with
  | zero => exact h
  | succ t ih =>
    rw [waterLevel]
    split
    · assumption
    · exact ih

theorem taken_lt_of_waterLevel_lt {t : Nat} (h : waterLevel taken need bound < t) (ht : t ≤ bound) :
    taken t < need := by
  induction bound with
  | zero => exact absurd (Nat.lt_of_lt_of_le h ht) (Nat.not_lt_zero _)
  | succ bound ih =>
    rw [waterLevel] at h
    split at h
    · exact absurd (Nat.lt_of_lt_of_le h ht) (Nat.lt_irrefl _)
    · rename_i hl
      rcases Nat.of_le_succ ht with hle | rfl
      · exact ih h hle
      · exact Nat.lt_of_not_le hl

end SCMessenger.Levelling
