import Mathlib.Data.List.Nodup
import Mathlib.Data.List.Perm.Subperm

/-!
# Following a partial function

A walk from an element to its successor until there is none.  It ends exactly when it comes into no cycle.
-/

namespace SCMessenger

variable {α : Type}

def follow (next : α → Option α) : Nat → List α → α → Option (List α)
  | 0, _, _ => none
  | fuel + 1, chain, current =>
    match next current with
    | some x => follow next fuel (chain ++ [x]) x
    | none => some chain

def Follows (next : α → Option α) (a b : α) : Prop := next a = some b

def ReachesCycle (next : α → Option α) (a : α) : Prop :=
  ∃ b, Relation.ReflTransGen (Follows next) a b ∧ Relation.TransGen (Follows next) b b

variable {next : α → Option α} {a b : α}

theorem ReachesCycle.exists_next (h : ReachesCycle next a) : ∃ b, next a = some b ∧ ReachesCycle next b := by
  obtain ⟨c, hac, hcc⟩ := h
  rcases Relation.ReflTransGen.cases_head hac with rfl | ⟨b, hab, hbc⟩
  · obtain ⟨b, hab, hba⟩ := Relation.TransGen.head'_iff.mp hcc
    exact ⟨b, hab, a, hba, hcc⟩
  · exact ⟨b, hab, c, hbc, hcc⟩

theorem ReachesCycle.of_next (hn : next a = some b) (h : ReachesCycle next b) : ReachesCycle next a := by
  obtain ⟨c, hbc, hcc⟩ := h
  exact ⟨c, .head hn hbc, hcc⟩

theorem follow_eq_none (h : ReachesCycle next a) (f : Nat) (c : List α) :
    follow next f c a = none := by
  induction f generalizing c a with
  | zero => rfl
  | succ f ih =>
    obtain ⟨b, hb, hc⟩ := h.exists_next
    rw [follow, hb]
    exact ih hc (c ++ [b])

theorem nodup_concat {c : List α} (hn : c.Nodup) (hr : ∀ x ∈ c, Relation.ReflTransGen (Follows next) x a)
    (hs : next a = some b) (hc : ¬ ReachesCycle next b) :
    (c ++ [b]).Nodup ∧ ∀ x ∈ c ++ [b], Relation.ReflTransGen (Follows next) x b := by
  have hb : b ∉ c := fun hm => hc ⟨b, .refl, .tail' (hr b hm) hs⟩
  refine ⟨?_, fun x hx => ?_⟩
  · rw [List.nodup_append]
    refine ⟨hn, List.nodup_singleton b, fun x hx y hy => ?_⟩
    rintro rfl
    exact hb (by rwa [← List.mem_singleton.mp hy])
  · rcases List.mem_append.mp hx with hx | hx
    · exact (hr x hx).tail hs
    · rw [List.mem_singleton.mp hx]

theorem follow_nodup {f : Nat} {ch c : List α} (hn : ch.Nodup)
    (hr : ∀ x ∈ ch, Relation.ReflTransGen (Follows next) x a) (h : follow next f ch a = some c) :
    c.Nodup := by
  induction f generalizing ch a with
  | zero => cases h
  | succ f ih =>
    rw [follow] at h
    split at h
    case h_1 b hs =>
      have hc : ¬ ReachesCycle next b := by
        intro hc
        rw [follow_eq_none hc] at h
        cases h
      obtain ⟨hn', hr'⟩ := nodup_concat hn hr hs hc
      exact ih hn' hr' h
    case h_2 =>
      cases h
      exact hn

/-- A walk through finitely many elements ends unless it comes into a cycle. -/
theorem follow_terminates {r ch : List α} (hm : ∀ a b, next a = some b → b ∈ r) (k : Nat)
    (hk : r.length < ch.length + k) (hc : ¬ ReachesCycle next a) (hn : ch.Nodup)
    (hr : ∀ x ∈ ch, Relation.ReflTransGen (Follows next) x a) (hsub : ch ⊆ r) :
    ∃ f c, follow next f ch a = some c := by
  induction k generalizing ch a with
  | zero =>
    have := (hn.subperm hsub).length_le
    omega
  | succ k ih =>
    cases hs : next a with
    | none => exact ⟨1, ch, by rw [follow, hs]⟩
    | some b =>
      have hcb : ¬ ReachesCycle next b := fun h => hc (.of_next hs h)
      obtain ⟨hn', hr'⟩ := nodup_concat hn hr hs hcb
      obtain ⟨f, c, h⟩ := ih (by rw [List.length_append, List.length_singleton]; omega) hcb hn' hr'
        (List.append_subset.mpr ⟨hsub, by simpa using hm a b hs⟩)
      exact ⟨f + 1, c, by rw [follow, hs]; exact h⟩

/-- A walk ends and visits no element twice exactly when it comes into no cycle. -/
theorem follow_finite_iff {r : List α} (hm : ∀ a b, next a = some b → b ∈ r) (a : α) :
    ((∃ f c, follow next f [a] a = some c) ∧ ∀ f c, follow next f [a] a = some c → c.Nodup)
      ↔ ¬ ReachesCycle next a := by
  have hself : ∀ x ∈ [a], Relation.ReflTransGen (Follows next) x a := by
    intro x hx
    rw [List.mem_singleton.mp hx]
  constructor
  · rintro ⟨⟨f, c, h⟩, -⟩ hc
    rw [follow_eq_none hc] at h
    cases h
  · intro hc
    refine ⟨?_, fun f c => follow_nodup (List.nodup_singleton a) hself⟩
    have hm' (x y : α) (h : next x = some y) : y ∈ a :: r := List.mem_cons_of_mem _ (hm x y h)
    exact follow_terminates hm' (r.length + 1) (by simp) hc (List.nodup_singleton a) hself (by simp)

end SCMessenger
