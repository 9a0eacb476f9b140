import Mathlib.Data.List.Forall2

/-!
# Lists related element by element

Two computations over two lists that run in step: what an operation on lists does to a relation between
their elements.
-/

namespace SCMessenger

namespace Pointwise

open List

variable {α β : Type} {R : α → β → Prop} {xs : List α} {ys : List β}

theorem modify (h : Forall₂ R xs ys) {f : α → α} {g : β → β} (hf : ∀ x y, R x y → R (f x) (g y)) (i : Nat) :
    Forall₂ R (xs.modify i f) (ys.modify i g) := by
  induction h generalizing i with
  | nil => simp
  | cons hx hr ih =>
    cases i with
    | zero => simpa using ⟨hf _ _ hx, hr⟩
    | succ i => simpa using ⟨hx, ih i⟩

theorem foldl_modify {f : α → α} {g : β → β} (hf : ∀ x y, R x y → R (f x) (g y)) (p : List Nat)
    {xs : List α} {ys : List β} (h : Forall₂ R xs ys) :
    Forall₂ R (p.foldl (fun l i => l.modify i f) xs) (p.foldl (fun l i => l.modify i g) ys) := by
  induction p generalizing xs ys with
  | nil => exact h
  | cons i p ih => exact ih (modify h hf i)

theorem set (h : Forall₂ R xs ys) {x : α} {y : β} (hx : R x y) (i : Nat) :
    Forall₂ R (xs.set i x) (ys.set i y) := by
  induction h generalizing i with
  | nil => simp
  | cons ha hr ih =>
    cases i with
    | zero => simpa using ⟨hx, hr⟩
    | succ i => simpa using ⟨ha, ih i⟩

theorem all_eq (h : Forall₂ R xs ys) {p : α → Bool} {q : β → Bool} (hp : ∀ x y, R x y → p x = q y) :
    xs.all p = ys.all q := by
  induction h with
  | nil => rfl
  | cons hxy _ ih => rw [List.all_cons, List.all_cons, hp _ _ hxy, ih]

theorem find?_zipIdx (h : Forall₂ R xs ys) {p : α → Bool} {q : β → Bool} (hpq : ∀ x y, R x y → p x = q y)
    (k : Nat) :
    ((xs.zipIdx k).find? (fun e => p e.1) = none ∧ (ys.zipIdx k).find? (fun e => q e.1) = none)
      ∨ ∃ x y i, (xs.zipIdx k).find? (fun e => p e.1) = some (x, i)
        ∧ (ys.zipIdx k).find? (fun e => q e.1) = some (y, i) ∧ R x y := by
  induction h generalizing k with
  | nil => exact .inl ⟨rfl, rfl⟩
  | @cons x y xs ys hx _ ih =>
    have hq := hpq x y hx
    by_cases hp : p x = true
    · rw [hp] at hq
      right
      exact ⟨x, y, k, by simp [List.zipIdx_cons, hp], by simp [List.zipIdx_cons, ← hq], hx⟩
    · have hp' : p x = false := by simpa using hp
      rw [hp'] at hq
      simpa [List.zipIdx_cons, hp', ← hq] using ih (k + 1)

theorem zipWith_swap {γ : Type} {S : γ → γ → Prop} {f : α → β → γ} {g : β → α → γ}
    (hf : ∀ x y, S (f x y) (g y x)) (xs : List α) (ys : List β) :
    Forall₂ S (List.zipWith f xs ys) (List.zipWith g ys xs) := by
  induction xs generalizing ys with
  | nil => simp
  | cons x xs ih =>
    cases ys with
    | nil => simp
    | cons y ys => simpa using ⟨hf x y, ih ys⟩

end Pointwise

end SCMessenger
