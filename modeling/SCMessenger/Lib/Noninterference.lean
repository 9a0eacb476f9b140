import SCMessenger.Lib.Run

/-!
# Noninterference

Some inputs of a system are *mine*.  They are answered alike with and without the others when there is an
`Unwinding` of the two runs.  Inputs carry a time, on which the relation may depend.
-/

namespace SCMessenger

variable {σ ι ω : Type} {step : σ → ι → ω × σ} {mine : ι → Bool}

/-- The answers to the inputs that are mine. -/
def answers (step : σ → ι → ω × σ) (mine : ι → Bool) : σ → List ι → List ω
  | _, [] => []
  | s, i :: is =>
    if mine i then (step s i).1 :: answers step mine (step s i).2 is
    else answers step mine (step s i).2 is

/-- What other inputs do is not seen by mine. -/
structure Unwinding (step : σ → ι → ω × σ) (mine : ι → Bool) (time : ι → Nat)
    (R : Nat → σ → σ → Prop) : Prop where
  keep : ∀ {T s t i}, mine i = true → T ≤ time i → R T s t →
    (step s i).1 = (step t i).1 ∧ R (time i) (step s i).2 (step t i).2
  other : ∀ {T s t i}, mine i = false → T ≤ time i → R T s t → R (time i) (step s i).2 t

/-- **The unwinding rule**: my inputs are answered as if there were no others. -/
theorem Unwinding.answers_eq {time : ι → Nat} {R : Nat → σ → σ → Prop} (h : Unwinding step mine time R)
    {T : Nat} {s t : σ} {is : List ι} (hr : R T s t) (ht : (T :: is.map time).Pairwise (· ≤ ·)) :
    answers step mine s is = outputs step t (is.filter mine) := by
  induction is generalizing T s t with
  | nil => rfl
  | cons i is ih =>
    rw [List.map_cons, List.pairwise_cons] at ht
    have hi : T ≤ time i := ht.1 _ List.mem_cons_self
    cases hm : mine i with
    | true =>
      obtain ⟨ha, hr'⟩ := h.keep hm hi hr
      rw [List.filter_cons_of_pos hm, outputs, answers, if_pos hm, ha, ih hr' ht.2]
    | false =>
      rw [List.filter_cons_of_neg (by simp [hm]), answers, if_neg (by simp [hm]),
        ih (h.other hm hi hr) ht.2]

end SCMessenger
