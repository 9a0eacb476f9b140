import Mathlib.Data.List.Basic
import Mathlib.Data.List.Flatten

/-!
# Queues by name

A list of named queues, in the order in which they are visited.  For every operation there is one lemma
about the elements it leaves, and `Shrinks` says that no queue got longer.
-/

namespace SCMessenger

def updateFirst {α : Type} (p : α → Bool) (f : α → α) : List α → List α
  | [] => []
  | x :: xs => if p x then f x :: xs else x :: updateFirst p f xs

section

variable {α : Type} {p : α → Bool} {f : α → α}

variable {xs : List α}

theorem updateFirst_append_of_any (h : xs.any p = true) (ys : List α) :
    updateFirst p f (xs ++ ys) = updateFirst p f xs ++ ys := by
  induction xs with
  | nil => simp at h
  | cons x xs ih =>
    by_cases hx : p x = true
    · simp only [List.cons_append, updateFirst, if_pos hx]
    · have hxs : xs.any p = true := by simpa [hx] using h
      simp only [List.cons_append, updateFirst, if_neg hx, ih hxs]

theorem updateFirst_append_of_not_any (h : xs.any p = false) (ys : List α) :
    updateFirst p f (xs ++ ys) = xs ++ updateFirst p f ys := by
  induction xs with
  | nil => rfl
  | cons x xs ih =>
    simp only [List.any_cons, Bool.or_eq_false_iff] at h
    simp only [List.cons_append, updateFirst, h.1, ih h.2, Bool.false_eq_true, if_false]

theorem mem_updateFirst {x : α} (h : x ∈ xs) :
    x ∈ updateFirst p f xs ∨ p x = true ∧ f x ∈ updateFirst p f xs := by
  induction xs with
  | nil => cases h
  | cons y ys ih =>
    by_cases hy : p y = true
    · simp only [updateFirst, if_pos hy]
      rcases List.mem_cons.mp h with rfl | hx
      · exact .inr ⟨hy, List.mem_cons_self⟩
      · exact .inl (List.mem_cons_of_mem _ hx)
    · simp only [updateFirst, if_neg hy]
      rcases List.mem_cons.mp h with rfl | hx
      · exact .inl List.mem_cons_self
      · exact (ih hx).imp (List.mem_cons_of_mem _) fun hf => ⟨hf.1, List.mem_cons_of_mem _ hf.2⟩

theorem mem_updateFirst_of_find? {x : α} (h : xs.find? p = some x) : f x ∈ updateFirst p f xs := by
  induction xs with
  | nil => cases h
  | cons y ys ih =>
    by_cases hy : p y = true
    · rw [List.find?_cons_of_pos hy] at h
      cases h
      rw [updateFirst, if_pos hy]
      exact List.mem_cons_self
    · rw [List.find?_cons_of_neg hy] at h
      rw [updateFirst, if_neg hy]
      exact List.mem_cons_of_mem _ (ih h)

theorem map_updateFirst {β : Type} {g : α → β} (h : ∀ x, p x = true → g (f x) = g x) (xs : List α) :
    (updateFirst p f xs).map g = xs.map g := by
  induction xs with
  | nil => rfl
  | cons y ys ih =>
    by_cases hy : p y = true
    · rw [updateFirst, if_pos hy, List.map_cons, List.map_cons, h y hy]
    · rw [updateFirst, if_neg hy, List.map_cons, List.map_cons, ih]

theorem length_updateFirst (xs : List α) : (updateFirst p f xs).length = xs.length := by
  simpa using congrArg List.length (map_updateFirst (p := p) (f := f) (g := fun _ => ()) (fun _ _ => rfl) xs)

theorem forall_updateFirst_iff {Q : α → Prop} (h : ∀ x ∈ xs, Q x) :
    (∀ x ∈ updateFirst p f xs, Q x) ↔ ∀ x, xs.find? p = some x → Q (f x) := by
  induction xs with
  | nil => simp [updateFirst]
  | cons y ys ih =>
    rw [List.forall_mem_cons] at h
    by_cases hy : p y = true
    · rw [updateFirst, if_pos hy, List.find?_cons_of_pos hy, List.forall_mem_cons]
      constructor
      · rintro ⟨hc, -⟩ x hx
        rw [← Option.some.inj hx]
        exact hc
      · intro hc
        exact ⟨hc y rfl, h.2⟩
    · rw [updateFirst, if_neg hy, List.find?_cons_of_neg hy, List.forall_mem_cons, ih h.2]
      exact and_iff_right h.1

end

abbrev Queues (κ α : Type) := List (κ × List α)

namespace Queues

variable {κ α : Type} [DecidableEq κ]

def all (qs : Queues κ α) : List α := qs.flatMap Prod.snd

def queueAt (k : κ) (qs : Queues κ α) : List α := (qs.lookup k).getD []

def pushBack (k : κ) (x : α) : Queues κ α → Queues κ α
  | [] => [(k, [x])]
  | (k', q) :: qs => if k' = k then (k', q ++ [x]) :: qs else (k', q) :: pushBack k x qs

def updateFirst (p : α → Bool) (f : α → α) : Queues κ α → Queues κ α
  | [] => []
  | (k, q) :: qs =>
    if q.any p then (k, SCMessenger.updateFirst p f q) :: qs else (k, q) :: updateFirst p f qs

def removeFirst (p : α → Bool) : Queues κ α → Queues κ α
  | [] => []
  | (k, q) :: qs => if q.any p then (k, q.eraseP p) :: qs else (k, q) :: removeFirst p qs

def dropQueue (k : κ) (qs : Queues κ α) : Queues κ α := qs.eraseP fun q => q.1 = k

def retainAt (k : κ) (keep : α → Bool) : Queues κ α → Queues κ α
  | [] => []
  | (k', q) :: qs =>
    if k' = k then
      if (q.filter keep).isEmpty then qs else (k', q.filter keep) :: qs
    else (k', q) :: retainAt k keep qs

def retain (keep : α → Bool) (qs : Queues κ α) : Queues κ α :=
  (qs.map fun q => (q.1, q.2.filter keep)).filter fun q => ¬ q.2.isEmpty

variable (k : κ)

omit [DecidableEq κ] in
theorem all_cons (q : List α) (qs : Queues κ α) : all ((k, q) :: qs) = q ++ all qs := rfl

theorem queueAt_cons_self (q : List α) (qs : Queues κ α) : queueAt k ((k, q) :: qs) = q := by
  rw [queueAt, List.lookup_cons_self, Option.getD_some]

theorem queueAt_cons_ne {k k' : κ} (h : k' ≠ k) (q : List α) (qs : Queues κ α) :
    queueAt k ((k', q) :: qs) = queueAt k qs := by
  have hb : (k == k') = false := by simpa using fun he => h he.symm
  simp only [queueAt, List.lookup_cons, hb]

variable {x : α}

theorem mem_all_pushBack {k : κ} {y : α} {qs : Queues κ α} :
    y ∈ all (pushBack k x qs) ↔ y ∈ all qs ∨ y = x := by
  induction qs with
  | nil => simp [pushBack, all]
  | cons q qs ih =>
    obtain ⟨k', q⟩ := q
    by_cases hk : k' = k
    · simp only [pushBack, if_pos hk, all_cons, List.mem_append, List.mem_singleton]
      tauto
    · simp only [pushBack, if_neg hk, all_cons, List.mem_append, ih]
      tauto

variable (p : α → Bool)

omit [DecidableEq κ] in
theorem all_updateFirst (f : α → α) (qs : Queues κ α) :
    all (updateFirst p f qs) = SCMessenger.updateFirst p f (all qs) := by
  induction qs with
  | nil => rfl
  | cons q qs ih =>
    obtain ⟨k, q⟩ := q
    cases hq : q.any p with
    | true => simp only [updateFirst, hq, if_true, all_cons, updateFirst_append_of_any hq]
    | false =>
      simp only [updateFirst, hq, Bool.false_eq_true, if_false, all_cons, ih,
        updateFirst_append_of_not_any hq]

omit [DecidableEq κ] in
theorem all_removeFirst (qs : Queues κ α) : all (removeFirst p qs) = (all qs).eraseP p := by
  induction qs with
  | nil => rfl
  | cons q qs ih =>
    obtain ⟨k, q⟩ := q
    cases hq : q.any p with
    | true =>
      obtain ⟨x, hx, hp⟩ := List.any_eq_true.mp hq
      simp only [removeFirst, hq, if_true, all_cons, List.eraseP_append_left hp _ hx]
    | false =>
      have hn : ∀ x ∈ q, ¬ p x = true := by
        intro x hx hp
        rw [List.any_eq_true.mpr ⟨x, hx, hp⟩] at hq
        cases hq
      simp only [removeFirst, hq, Bool.false_eq_true, if_false, all_cons, ih,
        List.eraseP_append_right _ hn]

theorem mem_all_dropQueue {qs : Queues κ α} (h : x ∈ all qs) :
    x ∈ queueAt k qs ∨ x ∈ all (dropQueue k qs) := by
  induction qs with
  | nil => cases h
  | cons q qs ih =>
    obtain ⟨k', q⟩ := q
    rw [all_cons, List.mem_append] at h
    by_cases hk : k' = k
    · subst hk
      rw [queueAt_cons_self, dropQueue, List.eraseP_cons_of_pos (by simp)]
      exact h
    · rw [queueAt_cons_ne hk, dropQueue, List.eraseP_cons_of_neg (by simpa using hk), all_cons,
        List.mem_append]
      rcases h with hq | hqs
      · exact .inr (.inl hq)
      · exact (ih hqs).imp_right .inr

variable (keep : α → Bool)

theorem mem_all_retainAt {qs : Queues κ α} (h : x ∈ all qs) :
    (x ∈ queueAt k qs ∧ keep x = false) ∨ x ∈ all (retainAt k keep qs) := by
  induction qs with
  | nil => cases h
  | cons q qs ih =>
    obtain ⟨k', q⟩ := q
    rw [all_cons, List.mem_append] at h
    by_cases hk : k' = k
    · subst hk
      rw [queueAt_cons_self]
      simp only [retainAt, if_true]
      rcases h with hq | hqs
      · cases hke : keep x with
        | false => exact .inl ⟨hq, rfl⟩
        | true =>
          have hx : x ∈ q.filter keep := List.mem_filter.mpr ⟨hq, hke⟩
          have hn : ¬ (q.filter keep).isEmpty = true := by
            intro he
            rw [List.isEmpty_iff.mp he] at hx
            cases hx
          right
          rw [if_neg hn, all_cons]
          exact List.mem_append_left _ hx
      · right
        split
        · exact hqs
        · exact List.mem_append_right _ hqs
    · rw [queueAt_cons_ne hk]
      simp only [retainAt, if_neg hk, all_cons, List.mem_append]
      rcases h with hq | hqs
      · exact .inr (.inl hq)
      · exact (ih hqs).imp_right .inr

omit [DecidableEq κ] in
theorem all_retain (qs : Queues κ α) : all (retain keep qs) = (all qs).filter keep := by
  induction qs with
  | nil => rfl
  | cons q qs ih =>
    obtain ⟨k, q⟩ := q
    have hs : all (retain keep ((k, q) :: qs)) = q.filter keep ++ all (retain keep qs) := by
      cases hq : (q.filter keep) with
      | nil => simp [retain, all, hq]
      | cons y ys => simp [retain, all, hq]
    rw [hs, ih, all_cons, List.filter_append]

omit [DecidableEq κ] in
theorem mem_all_retain {keep : α → Bool} {qs : Queues κ α} :
    x ∈ all (retain keep qs) ↔ x ∈ all qs ∧ keep x = true := by
  rw [all_retain, List.mem_filter]

/-! ### How long the queues are -/

theorem length_all_pushBack (x : α) (qs : Queues κ α) :
    (all (pushBack k x qs)).length = (all qs).length + 1 := by
  induction qs with
  | nil => rfl
  | cons q qs ih =>
    obtain ⟨k', q⟩ := q
    by_cases hk : k' = k
    · simp only [pushBack, if_pos hk, all_cons, List.length_append, List.length_singleton]
      omega
    · simp only [pushBack, if_neg hk, all_cons, List.length_append, ih]
      omega

variable (qs : Queues κ α)

theorem length_all_dropQueue : (all (dropQueue k qs)).length + (queueAt k qs).length = (all qs).length := by
  induction qs with
  | nil => rfl
  | cons q qs ih =>
    obtain ⟨k', q⟩ := q
    by_cases hk : k' = k
    · subst hk
      rw [queueAt_cons_self, dropQueue, List.eraseP_cons_of_pos (by simp), all_cons, List.length_append]
      omega
    · rw [queueAt_cons_ne hk, dropQueue, List.eraseP_cons_of_neg (by simpa using hk), all_cons, all_cons,
        List.length_append, List.length_append, ← ih, dropQueue]
      omega

theorem length_all_retainAt (qs : Queues κ α) :
    (all (retainAt k keep qs)).length + ((queueAt k qs).filter fun x => !keep x).length = (all qs).length := by
  induction qs with
  | nil => rfl
  | cons q qs ih =>
    obtain ⟨k', q⟩ := q
    by_cases hk : k' = k
    · subst hk
      have hs : q.length = (q.filter keep).length + (q.filter fun x => !keep x).length :=
        List.length_eq_length_filter_add keep
      rw [queueAt_cons_self, all_cons, List.length_append]
      simp only [retainAt, if_true]
      split
      case isTrue hempty =>
        rw [List.isEmpty_iff.mp hempty, List.length_nil] at hs
        omega
      case isFalse =>
        rw [all_cons, List.length_append]
        omega
    · rw [queueAt_cons_ne hk, all_cons, List.length_append]
      simp only [retainAt, if_neg hk, all_cons, List.length_append]
      omega

def Shrinks (qs' qs : Queues κ α) : Prop := ∀ q' ∈ qs', ∃ q ∈ qs, q'.2.length ≤ q.2.length

omit [DecidableEq κ] in
theorem Shrinks.of_subset {qs' qs : Queues κ α} (h : qs' ⊆ qs) : Shrinks qs' qs :=
  fun q hq => ⟨q, h hq, Nat.le_refl _⟩

omit [DecidableEq κ] in
theorem Shrinks.cons {k k' : κ} {q q' : List α} {qs qs' : Queues κ α} (hq : q'.length ≤ q.length)
    (h : Shrinks qs' qs) : Shrinks ((k', q') :: qs') ((k, q) :: qs) := by
  intro x hx
  rcases List.mem_cons.mp hx with rfl | hx
  · exact ⟨_, List.mem_cons_self, hq⟩
  · obtain ⟨y, hy, hl⟩ := h x hx
    exact ⟨y, List.mem_cons_of_mem _ hy, hl⟩

omit [DecidableEq κ] in
theorem shrinks_updateFirst (f : α → α) (qs : Queues κ α) : Shrinks (updateFirst p f qs) qs := by
  induction qs with
  | nil => exact .of_subset (List.Subset.refl _)
  | cons q qs ih =>
    obtain ⟨k, q⟩ := q
    rw [updateFirst]
    split
    · exact .cons (Nat.le_of_eq (length_updateFirst q)) (.of_subset (List.Subset.refl _))
    · exact .cons (Nat.le_refl _) ih

omit [DecidableEq κ] in
theorem shrinks_removeFirst (qs : Queues κ α) : Shrinks (removeFirst p qs) qs := by
  induction qs with
  | nil => exact .of_subset (List.Subset.refl _)
  | cons q qs ih =>
    obtain ⟨k, q⟩ := q
    rw [removeFirst]
    split
    · exact .cons List.length_eraseP_le (.of_subset (List.Subset.refl _))
    · exact .cons (Nat.le_refl _) ih

theorem shrinks_dropQueue : Shrinks (dropQueue k qs) qs :=
  .of_subset List.eraseP_subset

theorem shrinks_retainAt (qs : Queues κ α) : Shrinks (retainAt k keep qs) qs := by
  induction qs with
  | nil => exact .of_subset (List.Subset.refl _)
  | cons q qs ih =>
    obtain ⟨k', q⟩ := q
    rw [retainAt]
    split
    · split
      · exact .of_subset (List.subset_cons_self _ _)
      · exact .cons (List.length_filter_le _ _) (.of_subset (List.Subset.refl _))
    · exact .cons (Nat.le_refl _) ih

omit [DecidableEq κ] in
theorem shrinks_retain (qs : Queues κ α) : Shrinks (retain keep qs) qs := by
  intro q' hq'
  obtain ⟨q, hq, rfl⟩ := List.mem_map.mp (List.mem_of_mem_filter hq')
  exact ⟨q, hq, List.length_filter_le _ _⟩

theorem length_le_of_mem_pushBack {k : κ} {n : Nat} {qs : Queues κ α} (h : ∀ q ∈ qs, q.2.length ≤ n)
    (hr : (queueAt k qs).length < n) : ∀ q ∈ pushBack k x qs, q.2.length ≤ n := by
  induction qs with
  | nil =>
    intro q hq
    obtain rfl := List.mem_singleton.mp hq
    exact hr
  | cons q qs ih =>
    obtain ⟨k', q⟩ := q
    rw [List.forall_mem_cons] at h
    rw [pushBack]
    split
    case isTrue hk =>
      subst hk
      rw [queueAt_cons_self] at hr
      rw [List.forall_mem_cons]
      refine ⟨?_, h.2⟩
      rw [List.length_append, List.length_singleton]
      exact hr
    case isFalse hk =>
      rw [queueAt_cons_ne hk] at hr
      rw [List.forall_mem_cons]
      exact ⟨h.1, ih h.2 hr⟩

end Queues

/-! ## Sorted queues -/

theorem mem_take_iff_of_pairwise {α : Type} {lt : α → α → Prop} [DecidableRel lt] (hi : ∀ a, ¬ lt a a)
    (has : ∀ a b, lt a b → ¬ lt b a) {l : List α} (hl : l.Pairwise lt) {x : α} (hx : x ∈ l) {n : Nat} :
    x ∈ l.take n ↔ (l.filter fun a => lt a x).length < n := by
  obtain ⟨front, ba, rfl⟩ := List.append_of_mem hx
  obtain ⟨-, hb, hc⟩ := List.pairwise_append.mp hl
  have hf : ∀ a ∈ front, lt a x := fun a ha => hc a ha x List.mem_cons_self
  -- the smaller elements are those in front
  have hfi : (front ++ x :: ba).filter (fun a => lt a x) = front := by
    rw [List.filter_append, List.filter_eq_self.mpr (by simpa using hf), List.filter_eq_nil_iff.mpr,
      List.append_nil]
    intro a ha
    rcases List.mem_cons.mp ha with rfl | ha
    · simpa using hi a
    · simpa using has x a ((List.pairwise_cons.mp hb).1 a ha)
  rw [hfi, List.take_append]
  constructor
  · intro hm
    by_contra hle
    have hz : n - front.length = 0 := by omega
    rw [hz, List.take_zero, List.append_nil] at hm
    exact hi x (hf x (List.mem_of_mem_take hm))
  · intro hlt
    obtain ⟨k, hk⟩ : ∃ k, n - front.length = k + 1 := ⟨n - front.length - 1, by omega⟩
    rw [hk, List.take_succ_cons]
    exact List.mem_append_right _ List.mem_cons_self

end SCMessenger
