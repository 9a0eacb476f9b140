import Mathlib.Algebra.GroupWithZero.Nat
import Mathlib.Data.List.AList

/-!
# Tables

Finite maps from which entries are removed one by one or all at once by what they hold.
-/

namespace SCMessenger

abbrev Table (κ β : Type) := AList fun _ : κ => β

/-- The order in which the entries of a hash map are visited. -/
structure HashOrder (α : Type) where
  visit : List α → List α
  perm : ∀ l, (visit l).Perm l

namespace Table

variable {κ β : Type} [DecidableEq κ]

def anyValue (p : β → Bool) (table : Table κ β) : Bool := table.entries.any fun e => p e.2

/-- Remove the entries that hold a value of a kind. -/
def purge (stale : β → Bool) (table : Table κ β) : List β × Table κ β :=
  ((table.entries.filter fun e => stale e.2).map fun e => e.2,
    ⟨table.entries.filter fun e => !stale e.2, table.nodupKeys.sublist List.filter_sublist⟩)

variable {table : Table κ β} {stale : β → Bool} {k : κ} {v : β}

theorem mem_entries : (⟨k, v⟩ : Sigma fun _ : κ => β) ∈ table.entries ↔ table.lookup k = some v := by
  rw [← Option.mem_def, AList.mem_lookup_iff]

theorem anyValue_iff : table.anyValue stale = true ↔ ∃ k v, table.lookup k = some v ∧ stale v = true := by
  rw [anyValue, List.any_eq_true]
  constructor
  · rintro ⟨⟨k, v⟩, he, hv⟩
    exact ⟨k, v, mem_entries.mp he, hv⟩
  · rintro ⟨k, v, hk, hv⟩
    exact ⟨⟨k, v⟩, mem_entries.mpr hk, hv⟩

/-- **What is left**: the entries of the other kind. -/
theorem lookup_purge :
    (table.purge stale).2.lookup k = some v ↔ table.lookup k = some v ∧ stale v = false := by
  rw [← mem_entries, ← mem_entries]
  simp [purge]

/-- **What was removed**: the entries of the kind. -/
theorem mem_removed : v ∈ (table.purge stale).1 ↔ ∃ k, table.lookup k = some v ∧ stale v = true := by
  simp only [purge, List.mem_map, List.mem_filter]
  constructor
  · rintro ⟨⟨k, v⟩, ⟨he, hv⟩, rfl⟩
    exact ⟨k, mem_entries.mp he, hv⟩
  · rintro ⟨k, hk, hv⟩
    exact ⟨⟨k, v⟩, ⟨mem_entries.mpr hk, hv⟩, rfl⟩

theorem lookup_insert_eq :
    (fun a => (table.insert k v).lookup a) = Function.update (fun a => table.lookup a) k (some v) := by
  funext a
  by_cases ha : a = k
  · rw [ha, AList.lookup_insert, Function.update_self]
  · rw [AList.lookup_insert_ne ha, Function.update_of_ne ha]

theorem lookup_erase_eq :
    (fun a => AList.lookup a (AList.erase k table)) = Function.update (fun a => table.lookup a) k none := by
  funext a
  by_cases ha : a = k
  · rw [ha, AList.lookup_erase, Function.update_self]
  · rw [AList.lookup_erase_ne ha, Function.update_of_ne ha]

theorem lookup_erase_iff {k' : κ} :
    AList.lookup k (AList.erase k' table) = some v ↔ k ≠ k' ∧ table.lookup k = some v := by
  by_cases hk : k = k'
  · subst hk
    simp
  · rw [AList.lookup_erase_ne hk]
    simp [hk]

theorem length_erase (h : k ∈ table.keys) : (AList.erase k table).keys.length + 1 = table.keys.length := by
  have hp : 0 < table.keys.length := List.length_pos_of_mem h
  rw [AList.keys_erase, List.length_erase_of_mem h, Nat.sub_add_cancel hp]

theorem length_erase_le : (AList.erase k table).keys.length ≤ table.keys.length := by
  rw [AList.keys_erase]
  exact List.length_erase_le

def restrict (p : κ → Bool) (table : Table κ β) : Table κ β :=
  ⟨table.entries.filter fun e => p e.1, table.nodupKeys.sublist List.filter_sublist⟩

theorem lookup_restrict {p : κ → Bool} :
    (table.restrict p).lookup k = some v ↔ p k = true ∧ table.lookup k = some v := by
  rw [← mem_entries, ← mem_entries, restrict, List.mem_filter, and_comm]

omit [DecidableEq κ] in
theorem keys_filterMap_sublist (f : β → Option β) (en : List (Sigma fun _ : κ => β)) :
    (en.filterMap fun e => (f e.2).map fun v => (⟨e.1, v⟩ : Sigma fun _ : κ => β)).keys.Sublist en.keys := by
  induction en with
  | nil => exact .slnil
  | cons e r ih =>
    cases hf : f e.2 with
    | none =>
      rw [List.filterMap_cons_none (by simp [hf])]
      exact ih.cons e.1
    | some v =>
      rw [List.filterMap_cons_some (b := ⟨e.1, v⟩) (by simp [hf])]
      exact ih.cons_cons e.1

def filterMapValues (f : β → Option β) (table : Table κ β) : Table κ β :=
  ⟨table.entries.filterMap fun e => (f e.2).map fun v => ⟨e.1, v⟩,
    List.Nodup.sublist (keys_filterMap_sublist f table.entries) table.nodupKeys⟩

theorem lookup_filterMapValues {f : β → Option β} :
    (table.filterMapValues f).lookup k = (table.lookup k).bind f := by
  ext v
  rw [← mem_entries, Option.bind_eq_some_iff]
  simp only [filterMapValues, List.mem_filterMap, Option.map_eq_some_iff]
  constructor
  · rintro ⟨⟨k', u⟩, he, w, hw, heq⟩
    cases heq
    exact ⟨u, mem_entries.mp he, hw⟩
  · rintro ⟨u, hu, hv⟩
    exact ⟨⟨k, u⟩, mem_entries.mpr hu, v, hv, rfl⟩

/-! ## Sums over a table -/

def total (w : β → Nat) (table : Table κ β) : Nat := (table.entries.map fun e => w e.2).sum

variable {w : β → Nat}

theorem sum_kerase (k : κ) (en : List (Sigma fun _ : κ => β)) :
    ((en.kerase k).map fun e => w e.2).sum + ((en.dlookup k).map w).getD 0 = (en.map fun e => w e.2).sum := by
  induction en with
  | nil => rfl
  | cons e en ih =>
    by_cases hk : k = e.1
    · subst hk
      obtain ⟨k, u⟩ := e
      simp [Nat.add_comm]
    · rw [List.kerase_cons_ne hk, List.dlookup_cons_ne en e hk, List.map_cons, List.map_cons,
        List.sum_cons, List.sum_cons, ← ih, Nat.add_assoc]

theorem total_insert (w : β → Nat) (table : Table κ β) (k : κ) (v : β) :
    total w (AList.insert k v table) + ((table.lookup k).map w).getD 0 = total w table + w v := by
  have hs := sum_kerase (w := w) k table.entries
  simp only [total, AList.lookup, AList.entries_insert, List.map_cons, List.sum_cons]
  omega

omit [DecidableEq κ] in
theorem total_filterMapValues_le {f : β → Option β} (h : ∀ u v, f u = some v → w v ≤ w u)
    (table : Table κ β) : total w (table.filterMapValues f) ≤ total w table := by
  simp only [total, filterMapValues]
  generalize table.entries = en
  induction en with
  | nil => exact le_rfl
  | cons e en ih =>
    rw [List.map_cons, List.sum_cons]
    cases hf : f e.2 with
    | none =>
      rw [List.filterMap_cons_none (by simp [hf])]
      omega
    | some v =>
      rw [List.filterMap_cons_some (b := ⟨e.1, v⟩) (by simp [hf]), List.map_cons, List.sum_cons]
      exact Nat.add_le_add (h _ _ hf) ih

end Table

end SCMessenger
