import Mathlib.Data.List.Basic

/-!
# Sliding windows

Which of some times lie less than a window before the present.
-/

namespace SCMessenger

namespace SlidingWindow

variable {window now now' : Nat} {kept all times : List Nat}

def live (window now : Nat) (times : List Nat) : List Nat := times.filter fun t => decide (now - t < window)

def Agrees (window now : Nat) (kept all : List Nat) : Prop :=
  ∀ later, now ≤ later → live window later kept = live window later all

theorem live_append (window now : Nat) (times m : List Nat) :
    live window now (times ++ m) = live window now times ++ live window now m := List.filter_append ..

theorem live_live (h : now ≤ now') : live window now' (live window now times) = live window now' times := by
  rw [live, live, live, List.filter_filter]
  refine List.filter_congr fun t _ => ?_
  simp only [Bool.and_eq_left_iff_imp, decide_eq_true_eq]
  omega

namespace Agrees

theorem refl (window now : Nat) (times : List Nat) : Agrees window now times times := fun _ _ => rfl

theorem live_eq (h : Agrees window now kept all) : live window now kept = live window now all :=
  h now (Nat.le_refl now)

theorem later (h : Agrees window now kept all) (hl : now ≤ now') : Agrees window now' kept all :=
  fun n hn => h n (Nat.le_trans hl hn)

theorem prune (h : Agrees window now kept all) : Agrees window now (live window now kept) all := by
  intro n hn
  rw [live_live hn, h n hn]

theorem push (h : Agrees window now kept all) (t : Nat) : Agrees window now (kept ++ [t]) (all ++ [t]) := by
  intro n hn
  rw [live_append, live_append, h n hn]

end Agrees

end SlidingWindow

end SCMessenger
