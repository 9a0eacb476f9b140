import Mathlib.Logic.Relation
import Mathlib.Tactic.Common

/-!
# Guarded runs

A run is a fold of a step function over a list of inputs.  `Guarded` says that every step meets a condition
on the state before it, and `Guarded.invariant` is the induction rule of the run properties.
-/

namespace SCMessenger

variable {σ ι : Type}

/-- Every step of the run from `s` over the inputs meets `guard` in the state it starts from. -/
def Guarded (guard : σ → ι → Prop) (step : σ → ι → σ) : σ → List ι → Prop
  | _, [] => True
  | s, i :: is => guard s i ∧ Guarded guard step (step s i) is

instance Guarded.decidable {guard : σ → ι → Prop} {step : σ → ι → σ}
    [∀ s i, Decidable (guard s i)] : ∀ s is, Decidable (Guarded guard step s is)
  | _, [] => .isTrue trivial
  | s, i :: is =>
    have : Decidable (Guarded guard step (step s i) is) := Guarded.decidable (step s i) is
    inferInstanceAs (Decidable (guard s i ∧ Guarded guard step (step s i) is))

variable {guard : σ → ι → Prop} {step : σ → ι → σ} {is : List ι} {s : σ}

/-- **The invariant rule**: what a guarded step preserves holds after every guarded run. -/
theorem Guarded.invariant (Inv : σ → Prop) (hg : Guarded guard step s is)
    (hst : ∀ s i, Inv s → guard s i → Inv (step s i)) (hs : Inv s) : Inv (is.foldl step s) := by
  induction is generalizing s with
  | nil => exact hs
  | cons i is ih => exact ih hg.2 (hst s i hs hg.1)

theorem Guarded.mono {g' : σ → ι → Prop} (hg : ∀ s i, guard s i → g' s i)
    (h : Guarded guard step s is) : Guarded g' step s is := by
  induction is generalizing s with
  | nil => trivial
  | cons i is ih => exact ⟨hg s i h.1, ih h.2⟩

theorem Guarded.and {g' : σ → ι → Prop} (h : Guarded guard step s is) (h' : Guarded g' step s is) :
    Guarded (fun s i => guard s i ∧ g' s i) step s is := by
  induction is generalizing s with
  | nil => trivial
  | cons i is ih => exact ⟨⟨h.1, h'.1⟩, ih h.2 h'.2⟩

theorem Guarded.of_forall {guard : ι → Prop} (step : σ → ι → σ) (h : ∀ i ∈ is, guard i) (s : σ) :
    Guarded (fun _ i => guard i) step s is := by
  induction is generalizing s with
  | nil => trivial
  | cons i is ih => exact ⟨h i (by simp), ih (fun j hj => h j (by simp [hj])) _⟩

/-- The invariant rule with fresh values: `seen` collects the values used so far. -/
theorem Guarded.invariant_fresh {κ : Type} (f : ι → List κ) (Inv : List κ → σ → Prop) {seen : List κ}
    (hg : Guarded guard step s is) (hn : (seen ++ is.flatMap f).Nodup)
    (hst : ∀ seen s i, Inv seen s → guard s i → (seen ++ f i).Nodup → Inv (seen ++ f i) (step s i))
    (hs : Inv seen s) : Inv (seen ++ is.flatMap f) (is.foldl step s) := by
  induction is generalizing s seen with
  | nil => simpa using hs
  | cons i is ih =>
    rw [List.flatMap_cons, ← List.append_assoc] at hn ⊢
    exact ih hg.2 hn (hst seen s i hs hg.1 (List.nodup_append.mp hn).1)

theorem mem_concat {l : List ι} {i j : ι} : i ∈ l ++ [j] ↔ i ∈ l ∨ i = j := by
  rw [List.mem_append, List.mem_singleton]

theorem preserves_of_steps {R : σ → σ → Prop} {p : σ → Prop} {t : σ} (hs : ∀ s t, R s t → p s → p t)
    (h : Relation.ReflTransGen R s t) (hp : p s) : p t := by
  induction h with
  | refl => exact hp
  | tail _ hlast ih => exact hs _ _ hlast ih

/-! ## The states along a run -/

section

variable {step : σ → ι → σ} {s : σ} {is : List ι}

def stateAt (step : σ → ι → σ) (s : σ) (is : List ι) (k : Nat) : σ := (is.take k).foldl step s

/-- **The rule for exact conditions**: `Good` holds all along a run exactly when every step is `ok`. -/
theorem forall_stateAt_iff {Inv Good : σ → Prop} {ok : σ → ι → Prop} (hg : ∀ s, Inv s → Good s)
    (hif : ∀ s, ∀ i ∈ is, Inv s → (Good (step s i) ↔ ok s i))
    (hk : ∀ s, ∀ i ∈ is, Inv s → ok s i → Inv (step s i)) (hs : Inv s) :
    (∀ k, Good (stateAt step s is k)) ↔ Guarded ok step s is := by
  induction is generalizing s with
  | nil => simpa [stateAt, Guarded] using hg s hs
  | cons i is ih =>
    have ht : Inv (step s i) →
        ((∀ k, Good (stateAt step (step s i) is k)) ↔ Guarded ok step (step s i) is) :=
      ih (fun s j hj => hif s j (List.mem_cons_of_mem _ hj))
        (fun s j hj => hk s j (List.mem_cons_of_mem _ hj))
    constructor
    · intro h
      have ho : ok s i := (hif s i List.mem_cons_self hs).mp (h 1)
      have hi := hk s i List.mem_cons_self hs ho
      exact ⟨ho, (ht hi).mp fun k => h (k + 1)⟩
    · rintro ⟨ho, hr⟩ k
      have hi := hk s i List.mem_cons_self hs ho
      cases k with
      | zero => exact hg s hs
      | succ k => exact (ht hi).mpr hr k

theorem foldl_iff_guarded (Inv Good : σ → Prop) {ok : σ → ι → Prop}
    (hif : ∀ s, ∀ i ∈ is, Inv s → (Good (step s i) ↔ Good s ∧ ok s i))
    (hk : ∀ s, ∀ i ∈ is, Inv s → Inv (step s i)) (hs : Inv s) :
    Good (is.foldl step s) ↔ Good s ∧ Guarded ok step s is := by
  induction is generalizing s with
  | nil => simp [Guarded]
  | cons i is ih =>
    have ht := ih (fun s j hj => hif s j (List.mem_cons_of_mem _ hj))
      (fun s j hj => hk s j (List.mem_cons_of_mem _ hj)) (hk s i List.mem_cons_self hs)
    rw [List.foldl_cons, ht, hif s i List.mem_cons_self hs, and_assoc]
    rfl

end

/-! ## Observable behaviour -/

variable {ω : Type}

def outputs (step : σ → ι → ω × σ) : σ → List ι → List ω
  | _, [] => []
  | s, i :: is => (step s i).1 :: outputs step (step s i).2 is

def SameBehaviour (step : σ → ι → ω × σ) (s t : σ) : Prop :=
  ∀ is, outputs step s is = outputs step t is

/-- **The simulation rule**: related states that answer alike and stay related behave alike. -/
theorem SameBehaviour.of_simulation {step : σ → ι → ω × σ} (R : σ → σ → Prop)
    (hs : ∀ s t i, R s t → (step s i).1 = (step t i).1 ∧ R (step s i).2 (step t i).2) {t : σ} (h : R s t) :
    SameBehaviour step s t := by
  intro is
  induction is generalizing s t with
  | nil => rfl
  | cons i is ih =>
    obtain ⟨ho, hn⟩ := hs s t i h
    rw [outputs, outputs, ho, ih hn]

end SCMessenger
