import Mathlib.Data.List.AList
import SCMessenger.Lib.Bytes

/-!
# Storage backends

A store of byte strings under text keys.  What fails in a call is an argument of the call
(`StorageFaults`), and an operation that fails changes nothing.
-/

namespace SCMessenger

/-- What fails, and with which error. -/
structure StorageFaults where
  put : String → Option String
  remove : String → Option String
  scan : Option String
  count : Option String
  flush : Option String

def StorageFaults.none : StorageFaults :=
  ⟨fun _ => Option.none, fun _ => Option.none, Option.none, Option.none, Option.none⟩

def startsWith (beginning key : String) : Bool := beginning.toList.isPrefixOf key.toList

theorem startsWith_append (b r : String) : startsWith b (b ++ r) = true := by
  simp [startsWith]

/-! ## Keys made of parts -/

theorem append_separator_inj {α : Type} {x : α} {a b s t : List α} (ha : x ∉ a) (hb : x ∉ b)
    (h : a ++ x :: s = b ++ x :: t) : a = b ∧ s = t := by
  induction a generalizing b with
  | nil =>
    cases b with
    | nil => simpa using h
    | cons y b =>
      rw [List.nil_append, List.cons_append, List.cons.injEq] at h
      exact absurd (h.1 ▸ List.mem_cons_self) hb
  | cons y a ih =>
    cases b with
    | nil =>
      rw [List.nil_append, List.cons_append, List.cons.injEq] at h
      exact absurd (h.1 ▸ List.mem_cons_self) ha
    | cons z b =>
      rw [List.cons_append, List.cons_append, List.cons.injEq] at h
      rw [List.mem_cons, not_or] at ha hb
      obtain ⟨hab, hs⟩ := ih ha.2 hb.2 h.2
      exact ⟨by rw [h.1, hab], hs⟩

theorem separator_append_inj {α : Type} {x : α} {a b s t : List α} (hs : x ∉ s) (ht : x ∉ t)
    (h : a ++ x :: s = b ++ x :: t) : a = b ∧ s = t := by
  have hr : s.reverse ++ x :: a.reverse = t.reverse ++ x :: b.reverse := by
    simpa using congrArg List.reverse h
  obtain ⟨hst, ha⟩ := append_separator_inj (by simpa using hs) (by simpa using ht) hr
  exact ⟨List.reverse_inj.mp ha, List.reverse_inj.mp hst⟩

theorem startsWith_separated {c a b r : String} (ha : '_' ∉ a.toList) (hb : '_' ∉ b.toList) :
    startsWith (c ++ a ++ "_") (c ++ b ++ "_" ++ r) = true ↔ a = b := by
  constructor
  · intro h
    obtain ⟨t, ht⟩ := List.isPrefixOf_iff_prefix.mp h
    simp only [String.toList_append, List.append_assoc, List.append_cancel_left_eq] at ht
    exact String.toList_inj.mp (append_separator_inj ha hb ht).1
  · rintro rfl
    exact startsWith_append _ _

/-! ## Backends -/

abbrev StorageBackend := AList fun _ : String => Bytes

namespace StorageBackend

variable (faults : StorageFaults) (db : StorageBackend)

def put (key : String) (value : Bytes) : Except String Unit × StorageBackend :=
  match faults.put key with
  | some e => (.error e, db)
  | none => (.ok (), AList.insert key value db)

def remove (key : String) : Except String Unit × StorageBackend :=
  match faults.remove key with
  | some e => (.error e, db)
  | none => (.ok (), AList.erase key db)

def scanPrefix (beginning : String) : Except String (List (String × Bytes)) :=
  match faults.scan with
  | some e => .error e
  | none => .ok ((db.entries.map fun e => (e.1, e.2)).filter fun e => startsWith beginning e.1)

def countPrefix (beginning : String) : Except String Nat :=
  match faults.count with
  | some e => .error e
  | none => .ok (db.keys.filter (startsWith beginning)).length

def removeAll : List String → StorageBackend → StorageBackend
  | [], db => db
  | key :: keys, db => removeAll keys (remove faults db key).2

variable {faults db}

variable {key : String} {value : Bytes}

theorem lookup_put_self (h : faults.put key = none) :
    (put faults db key value).2.lookup key = some value := by
  simp [put, h]

theorem put_of_fault (h : faults.put key ≠ none) : (put faults db key value).2 = db := by
  obtain ⟨e, he⟩ := Option.ne_none_iff_exists'.mp h
  simp [put, he]

theorem lookup_put_of_ne {key' : String} (value : Bytes) (h : key' ≠ key) :
    (put faults db key value).2.lookup key' = db.lookup key' := by
  unfold put
  split
  · rfl
  · exact AList.lookup_insert_ne h

theorem lookup_remove_of_ne {key' : String} (h : key' ≠ key) :
    (remove faults db key).2.lookup key' = db.lookup key' := by
  unfold remove
  split
  · rfl
  · exact AList.lookup_erase_ne h

theorem lookup_removeAll_of_notMem {ke : List String} (h : key ∉ ke) :
    (removeAll faults ke db).lookup key = db.lookup key := by
  induction ke generalizing db with
  | nil => rfl
  | cons k ke ih =>
    rw [List.mem_cons, not_or] at h
    rw [removeAll, ih h.2, lookup_remove_of_ne h.1]

/-- **A scan is exact.** -/
theorem mem_scanPrefix {b : String} {r : List (String × Bytes)}
    (h : scanPrefix faults db b = .ok r) :
    (key, value) ∈ r ↔ db.lookup key = some value ∧ startsWith b key = true := by
  unfold scanPrefix at h
  split at h
  · cases h
  · cases h
    have hen : (key, value) ∈ db.entries.map (fun e => (e.1, e.2))
        ↔ db.lookup key = some value := by
      rw [← Option.mem_def, AList.mem_lookup_iff, List.mem_map]
      constructor
      · rintro ⟨⟨k, v⟩, he, heq⟩
        cases heq
        exact he
      · intro he
        exact ⟨⟨key, value⟩, he, rfl⟩
    rw [List.mem_filter, hen]

end StorageBackend

end SCMessenger
