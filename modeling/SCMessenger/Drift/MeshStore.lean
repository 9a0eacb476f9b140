import Mathlib.Data.Finset.Card
import SCMessenger.Lib.Table
import SCMessenger.Lib.Bytes

/-!
# The Drift store

The envelopes a node carries for others (`drift/store.rs`).  How two envelopes compare is an argument
(`Scores`), as the source's scores are floating-point numbers that depend on the clock.
-/

namespace SCMessenger

/-- An envelope that is carried, with the header fields the store reads. -/
structure StoredEnvelope where
  envelopeData : Bytes
  messageId : Arr 16
  recipientHint : Arr 4
  createdAt : UInt32
  ttlExpiry : UInt32
  hopCount : UInt8
  priority : UInt8
  receivedAt : UInt64
deriving DecidableEq

/-- How two scores compare, by the size of the store; incomparable scores count as equal. -/
abbrev Scores := Nat → StoredEnvelope → StoredEnvelope → Ordering

/-- The envelopes carried, by message id. -/
structure MeshStore where
  messages : AList fun _ : Arr 16 => StoredEnvelope
  maxMessages : Nat

namespace MeshStore

def new : MeshStore := ⟨∅, 10000⟩

def withCapacity (max : Nat) : MeshStore := ⟨∅, max⟩

def get (store : MeshStore) (id : Arr 16) : Option StoredEnvelope := store.messages.lookup id

def contains (store : MeshStore) (id : Arr 16) : Bool := (store.get id).isSome

def messageIds (store : MeshStore) : List (Arr 16) := store.messages.keys

def len (store : MeshStore) : Nat := store.messageIds.length

def remove (store : MeshStore) (id : Arr 16) : Bool × MeshStore :=
  ((store.get id).isSome, { store with messages := store.messages.erase id })

@[simp] theorem get_remove_self (store : MeshStore) (id : Arr 16) : (store.remove id).2.get id = none :=
  AList.lookup_erase id store.messages

theorem get_remove_of_ne (store : MeshStore) {id id' : Arr 16} (h : id' ≠ id) :
    (store.remove id).2.get id' = store.get id' :=
  AList.lookup_erase_ne h

/-! ## Eviction and insertion -/

def lowestId (compare : StoredEnvelope → StoredEnvelope → Ordering) (store : MeshStore) : Option (Arr 16) :=
  match store.messages.entries with
  | [] => none
  | e :: rest => some (rest.foldl (fun x y => if compare x.2 y.2 = .gt then y else x) e).1

def evictRounds (scores : Scores) : Nat → MeshStore → MeshStore
  | 0, store => store
  | rounds + 1, store =>
    if store.maxMessages < store.len then
      match store.lowestId (scores store.len) with
      | some id => evictRounds scores rounds (store.remove id).2
      | none => store
    else store

def evictIfOverBudget (scores : Scores) (store : MeshStore) : MeshStore :=
  store.evictRounds scores store.len

def put (store : MeshStore) (envelope : StoredEnvelope) : MeshStore :=
  { store with messages := store.messages.insert envelope.messageId envelope }

def insert (scores : Scores) (store : MeshStore) (envelope : StoredEnvelope) : Bool × MeshStore :=
  if store.contains envelope.messageId then (false, store)
  else (true, (store.put envelope).evictIfOverBudget scores)

/-- Take over from another store what is missing here; each insertion may evict. -/
def merge (scores : Arr 16 → Scores) (store other : MeshStore) : MeshStore :=
  other.messages.entries.foldl
    (fun store e => if store.contains e.1 then store else (store.insert (scores e.1) e.2).2) store

def removeExpired (now : UInt32) (store : MeshStore) : Nat × MeshStore :=
  let expired := (store.messages.entries.filter
    fun e => e.2.ttlExpiry != 0 && decide (e.2.ttlExpiry ≤ now)).map Sigma.fst
  expired.foldl (fun acc id =>
    let (removed, store) := acc.2.remove id
    (if removed then acc.1 + 1 else acc.1, store)) (0, store)

/-! ## What the operations leave -/

variable {scores : Scores} {store other : MeshStore} {envelope : StoredEnvelope} {id : Arr 16}

def ids (store : MeshStore) : Finset (Arr 16) := store.messageIds.toFinset

theorem card_ids (store : MeshStore) : store.ids.card = store.len :=
  List.toFinset_card_of_nodup store.messages.keys_nodup

theorem mem_ids : id ∈ store.ids ↔ store.contains id = true := by
  rw [ids, List.mem_toFinset, contains, get, AList.lookup_isSome]
  exact Iff.rfl

theorem mem_ids_iff : id ∈ store.ids ↔ ∃ e, store.get id = some e := by
  rw [mem_ids, contains, Option.isSome_iff_exists]

theorem get_eq_none (h : store.contains id = false) : store.get id = none := by
  simpa [contains] using h

theorem get_put (store : MeshStore) (envelope : StoredEnvelope) (id : Arr 16) :
    (store.put envelope).get id = if id = envelope.messageId then some envelope else store.get id := by
  by_cases h : id = envelope.messageId
  · subst h
    rw [if_pos rfl]
    exact AList.lookup_insert store.messages
  · rw [if_neg h]
    exact AList.lookup_insert_ne h

theorem ids_put (store : MeshStore) (envelope : StoredEnvelope) :
    (store.put envelope).ids = Insert.insert envelope.messageId store.ids := by
  ext id
  rw [Finset.mem_insert, mem_ids_iff, mem_ids_iff]
  by_cases h : id = envelope.messageId
  · simp [get_put, h]
  · simp [get_put, h]

theorem evictIfOverBudget_of_le (h : store.len ≤ store.maxMessages) :
    store.evictIfOverBudget scores = store := by
  unfold evictIfOverBudget
  cases store.len with
  | zero => rfl
  | succ n => rw [evictRounds, if_neg (Nat.not_lt.mpr h)]

theorem foldl_lowest_mem (co : StoredEnvelope → StoredEnvelope → Ordering)
    (r : List (Sigma fun _ : Arr 16 => StoredEnvelope)) (e : Sigma fun _ : Arr 16 => StoredEnvelope) :
    r.foldl (fun x y => if co x.2 y.2 = .gt then y else x) e ∈ e :: r := by
  induction r generalizing e with
  | nil => simp
  | cons y r ih =>
    rw [List.foldl_cons]
    split
    · exact List.mem_cons_of_mem _ (ih y)
    · rcases List.mem_cons.mp (ih e) with he | hm
      · rw [he]
        exact List.mem_cons_self
      · exact List.mem_cons_of_mem _ (List.mem_cons_of_mem _ hm)

theorem lowestId_mem {co : StoredEnvelope → StoredEnvelope → Ordering}
    (h : store.lowestId co = some id) : id ∈ store.messages.keys := by
  rw [lowestId] at h
  split at h
  · cases h
  · rename_i e r he
    cases h
    rw [AList.keys, he]
    exact List.mem_map_of_mem (foldl_lowest_mem co r e)

theorem lowestId_ne_none {co : StoredEnvelope → StoredEnvelope → Ordering} (h : 0 < store.len) :
    store.lowestId co ≠ none := by
  rw [lowestId]
  split
  · rename_i he
    rw [len, messageIds, AList.keys, he] at h
    cases h
  · exact Option.some_ne_none _

theorem len_remove (h : id ∈ store.messages.keys) : (store.remove id).2.len + 1 = store.len :=
  Table.length_erase h

theorem len_evictRounds_le (r : Nat) (store : MeshStore) (h : store.len ≤ store.maxMessages + r) :
    (store.evictRounds scores r).len ≤ store.maxMessages := by
  induction r generalizing store with
  | zero => exact h
  | succ r ih =>
    rw [evictRounds]
    by_cases ho : store.maxMessages < store.len
    · rw [if_pos ho]
      cases hl : store.lowestId (scores store.len) with
      | none => exact absurd hl (lowestId_ne_none (Nat.zero_lt_of_lt ho))
      | some id =>
        have hle : (store.remove id).2.len + 1 = store.len := len_remove (lowestId_mem hl)
        exact ih (store.remove id).2 (show _ ≤ store.maxMessages + r by omega)
    · rw [if_neg ho]
      exact Nat.not_lt.mp ho

theorem len_evictIfOverBudget_le (scores : Scores) (store : MeshStore) :
    (store.evictIfOverBudget scores).len ≤ store.maxMessages :=
  len_evictRounds_le store.len store (Nat.le_add_left _ _)

/-! An operation only puts and removes messages, so what these two keep it keeps. -/

section Invariants

variable {P : MeshStore → Prop}

theorem evictRounds_induct (hr : ∀ s id, P s → P (s.remove id).2) (r : Nat) (store : MeshStore)
    (h : P store) : P (store.evictRounds scores r) := by
  induction r generalizing store with
  | zero => exact h
  | succ r ih =>
    rw [evictRounds]
    split
    · cases store.lowestId (scores store.len) with
      | none => exact h
      | some id => exact ih _ (hr _ _ h)
    · exact h

theorem insert_induct (hp : ∀ s, P s → P (s.put envelope)) (hr : ∀ s id, P s → P (s.remove id).2)
    (h : P store) : P (store.insert scores envelope).2 := by
  rw [insert]
  split
  · exact h
  · exact evictRounds_induct hr _ _ (hp _ h)

theorem merge_induct {scores : Arr 16 → Scores} (hp : ∀ s envelope, P s → P (s.put envelope))
    (hr : ∀ s id, P s → P (s.remove id).2) (h : P store) : P (store.merge scores other) := by
  rw [merge]
  generalize other.messages.entries = en
  induction en generalizing store with
  | nil => exact h
  | cons e r ih =>
    rw [List.foldl_cons]
    split
    · exact ih h
    · exact ih (insert_induct (fun s => hp s e.2) hr h)

end Invariants

theorem get_of_get_evict {e : StoredEnvelope} (h : (store.evictIfOverBudget scores).get id = some e) :
    store.get id = some e := by
  refine evictRounds_induct (P := fun s => ∀ id e, s.get id = some e → store.get id = some e) ?_
    store.len store (fun _ _ h => h) id e h
  intro s id' hs id e hg
  exact hs id e (Table.lookup_erase_iff.mp hg).2

theorem insert_of_room (hn : store.contains envelope.messageId = false)
    (hr : (Insert.insert envelope.messageId store.ids).card ≤ store.maxMessages) :
    store.insert scores envelope = (true, store.put envelope) := by
  have hl : (store.put envelope).len ≤ (store.put envelope).maxMessages := by
    rw [← card_ids, ids_put]
    exact hr
  rw [insert, hn, evictIfOverBudget_of_le hl]
  rfl

def Keyed (store : MeshStore) : Prop := ∀ id e, store.get id = some e → e.messageId = id

theorem get_foldl_merge {scores : Arr 16 → Scores} (en : List (Sigma fun _ : Arr 16 => StoredEnvelope))
    {store : MeshStore} (hke : ∀ e ∈ en, e.2.messageId = e.1)
    (hr : (store.ids ∪ en.keys.toFinset).card ≤ store.maxMessages) (id : Arr 16) :
    (en.foldl (fun store e => if store.contains e.1 then store
      else (store.insert (scores e.1) e.2).2) store).get id
      = (store.get id).or (en.dlookup id) := by
  induction en generalizing store with
  | nil => simp
  | cons e r ih =>
    have hk : e.2.messageId = e.1 := hke e List.mem_cons_self
    have hre : ∀ e ∈ r, e.2.messageId = e.1 := fun e he => hke e (List.mem_cons_of_mem _ he)
    have hu : store.ids ∪ (e :: r).keys.toFinset
        = Insert.insert e.1 store.ids ∪ r.keys.toFinset := by
      ext id
      simp only [List.keys_cons, List.toFinset_cons, Finset.mem_union, Finset.mem_insert]
      tauto
    rw [hu] at hr
    rw [List.foldl_cons]
    cases ho : store.contains e.1 with
    | true =>
      -- The message is known: what is stored hides the one of the list.
      have hm : e.1 ∈ store.ids := mem_ids.mpr ho
      rw [Finset.insert_eq_of_mem hm] at hr
      rw [if_pos rfl, ih hre hr]
      by_cases hi : id = e.1
      · subst hi
        obtain ⟨x, hx⟩ := mem_ids_iff.mp hm
        simp [hx]
      · rw [List.dlookup_cons_ne _ _ hi]
    | false =>
      have hon : (Insert.insert e.2.messageId store.ids).card ≤ store.maxMessages := by
        rw [hk]
        exact le_trans (Finset.card_le_card Finset.subset_union_left) hr
      rw [if_neg Bool.false_ne_true, insert_of_room (by rw [hk]; exact ho) hon]
      have hr' : ((store.put e.2).ids ∪ r.keys.toFinset).card ≤ (store.put e.2).maxMessages := by
        rw [ids_put, hk]
        exact hr
      rw [ih hre hr', get_put, hk]
      by_cases hi : id = e.1
      · subst hi
        rw [if_pos rfl, get_eq_none ho, Option.none_or, Option.some_or]
        exact (List.dlookup_cons_eq r e.1 e.2).symm
      · rw [if_neg hi, List.dlookup_cons_ne _ _ hi]

/-- A merge keeps what was there and adds what was not, as long as there is room. -/
theorem get_merge {scores : Arr 16 → Scores} (hk : other.Keyed)
    (hr : (store.ids ∪ other.ids).card ≤ store.maxMessages) (id : Arr 16) :
    (store.merge scores other).get id = (store.get id).or (other.get id) := by
  refine get_foldl_merge other.messages.entries (fun e he => hk e.1 e.2 ?_) hr id
  exact Table.mem_entries.mp he

/-! ## Merging as a join -/

def Same (a b : MeshStore) : Prop := ∀ id, a.get id = b.get id

theorem Same.len_eq {a b : MeshStore} (h : a.Same b) : a.len = b.len := by
  have hi : a.ids = b.ids := by
    ext id
    rw [mem_ids_iff, mem_ids_iff, h id]
  rw [← card_ids, ← card_ids, hi]

def Agree (a b : MeshStore) : Prop := ∀ id x y, a.get id = some x → b.get id = some y → x = y

def RoomForAll (a b c : MeshStore) : Prop :=
  ∀ s ∈ [a, b, c], (a.ids ∪ b.ids ∪ c.ids).card ≤ s.maxMessages

section Join

variable {a b c : MeshStore}

theorem keyed_new : new.Keyed := by
  intro id e he
  cases he

theorem keyed_put (ha : a.Keyed) (envelope : StoredEnvelope) : (a.put envelope).Keyed := by
  intro id e he
  rw [get_put] at he
  split at he
  case isTrue h =>
    cases he
    exact h.symm
  case isFalse => exact ha id e he

theorem keyed_merge {scores : Arr 16 → Scores} (ha : a.Keyed) (hb : b.Keyed)
    (hr : (a.ids ∪ b.ids).card ≤ a.maxMessages) : (a.merge scores b).Keyed := by
  intro id e he
  rw [get_merge hb hr] at he
  rcases Option.or_eq_some_iff.mp he with h | ⟨-, h⟩
  · exact ha id e h
  · exact hb id e h

theorem ids_merge {scores : Arr 16 → Scores} (hb : b.Keyed) (hr : (a.ids ∪ b.ids).card ≤ a.maxMessages) :
    (a.merge scores b).ids = a.ids ∪ b.ids := by
  ext id
  rw [mem_ids, contains, get_merge hb hr, Option.isSome_or, Bool.or_eq_true, Finset.mem_union]
  exact or_congr mem_ids.symm mem_ids.symm

theorem maxMessages_merge {scores : Arr 16 → Scores} : (a.merge scores b).maxMessages = a.maxMessages :=
  merge_induct (P := fun s => s.maxMessages = a.maxMessages) (fun _ _ h => h) (fun _ _ h => h) rfl

theorem merge_idem {scores : Arr 16 → Scores} (ha : a.Keyed) (hr : a.ids.card ≤ a.maxMessages) :
    (a.merge scores a).Same a := by
  intro id
  rw [get_merge ha (by rwa [Finset.union_self]), Option.or_self]

theorem merge_assoc {s₁ s₂ s₃ s₄ : Arr 16 → Scores} (hb : b.Keyed) (hc : c.Keyed) (hr : RoomForAll a b c) :
    ((a.merge s₁ b).merge s₂ c).Same (a.merge s₃ (b.merge s₄ c)) := by
  have hs : a.ids ∪ b.ids ⊆ a.ids ∪ b.ids ∪ c.ids := Finset.subset_union_left
  have hs' : b.ids ∪ c.ids ⊆ a.ids ∪ b.ids ∪ c.ids := by
    rw [Finset.union_assoc]
    exact Finset.subset_union_right
  have ha : (a.ids ∪ b.ids).card ≤ a.maxMessages :=
    le_trans (Finset.card_le_card hs) (hr a (by simp))
  have hbc : (b.ids ∪ c.ids).card ≤ b.maxMessages :=
    le_trans (Finset.card_le_card hs') (hr b (by simp))
  have hac : ((a.merge s₁ b).ids ∪ c.ids).card ≤ (a.merge s₁ b).maxMessages := by
    rw [ids_merge hb ha, maxMessages_merge]
    exact hr a (by simp)
  have ha' : (a.ids ∪ (b.merge s₄ c).ids).card ≤ a.maxMessages := by
    rw [ids_merge hc hbc, ← Finset.union_assoc]
    exact hr a (by simp)
  intro id
  rw [get_merge hc hac, get_merge hb ha, get_merge (keyed_merge hb hc hbc) ha', get_merge hc hbc,
    Option.or_assoc]

theorem merge_comm_iff {s₁ s₂ : Arr 16 → Scores} (ha : a.Keyed) (hb : b.Keyed)
    (hr : (a.ids ∪ b.ids).card ≤ a.maxMessages) (hr' : (a.ids ∪ b.ids).card ≤ b.maxMessages) :
    (a.merge s₁ b).Same (b.merge s₂ a) ↔ a.Agree b := by
  have hs : (b.ids ∪ a.ids).card ≤ b.maxMessages := by rwa [Finset.union_comm]
  constructor
  · intro hsa id x y hx hy
    have hi := hsa id
    rw [get_merge hb hr, get_merge ha hs, hx, hy] at hi
    simpa using hi
  · intro hag id
    rw [get_merge hb hr, get_merge ha hs]
    cases hx : a.get id with
    | none => simp
    | some x =>
      cases hy : b.get id with
      | none => rfl
      | some y => rw [hag id x y hx hy]

/-- **Merging is a join exactly for stores that agree** on the identifiers they share. -/
theorem merge_join_iff {a b c : MeshStore} (ha : a.Keyed) (hb : b.Keyed) (hc : c.Keyed)
    (hroom : RoomForAll a b c) (s₁ s₂ s₃ s₄ s₅ s₆ s₇ : Arr 16 → Scores) :
    ((a.merge s₁ b).Same (b.merge s₂ a)
      ∧ ((a.merge s₃ b).merge s₄ c).Same (a.merge s₅ (b.merge s₆ c))
      ∧ (a.merge s₇ a).Same a) ↔ a.Agree b := by
  have hs : a.ids ∪ b.ids ⊆ a.ids ∪ b.ids ∪ c.ids := Finset.subset_union_left
  have hs' : a.ids ⊆ a.ids ∪ b.ids ∪ c.ids := subset_trans Finset.subset_union_left hs
  have hco : (a.merge s₁ b).Same (b.merge s₂ a) ↔ a.Agree b :=
    merge_comm_iff ha hb (le_trans (Finset.card_le_card hs) (hroom a (by simp)))
      (le_trans (Finset.card_le_card hs) (hroom b (by simp)))
  have hi : (a.merge s₇ a).Same a :=
    merge_idem ha (le_trans (Finset.card_le_card hs') (hroom a (by simp)))
  exact ⟨fun h => hco.mp h.1, fun h => ⟨hco.mpr h, merge_assoc hb hc hroom, hi⟩⟩

def carrying (receivedAt : UInt64) : MeshStore :=
  new.put ⟨[], Arr.fit 16 [1], Arr.fit 4 [2], 1000, 0, 0, 100, receivedAt⟩

theorem keyed_carrying (t : UInt64) : (carrying t).Keyed := keyed_put keyed_new _

theorem ids_carrying (t : UInt64) : (carrying t).ids = {Arr.fit 16 [1]} := by
  rw [carrying, ids_put]
  rfl

theorem roomForAll_carrying (t u v : UInt64) : RoomForAll (carrying t) (carrying u) (carrying v) := by
  intro s hs
  have hm : s.maxMessages = 10000 := by
    rcases List.mem_cons.mp hs with rfl | hs
    · rfl
    · rcases List.mem_cons.mp hs with rfl | hs
      · rfl
      · rw [List.mem_singleton.mp hs]
        rfl
  rw [hm, ids_carrying, ids_carrying, ids_carrying, Finset.union_self, Finset.union_self,
    Finset.card_singleton]
  decide

def carryingAlso (id : UInt8) : MeshStore :=
  (carrying 7).put ⟨[], Arr.fit 16 [id], Arr.fit 4 [2], 1000, 0, 0, 100, 7⟩

theorem keyed_carryingAlso (id : UInt8) : (carryingAlso id).Keyed := keyed_put (keyed_carrying 7) _

theorem agree_carryingAlso : (carryingAlso 2).Agree (carryingAlso 3) := by
  intro id x y hx hy
  rw [carryingAlso, get_put] at hx hy
  split at hx
  case isTrue h =>
    subst h
    cases hy
  case isFalse =>
    split at hy
    case isTrue h =>
      subst h
      cases hx
    case isFalse => exact Option.some.inj (hx.symm.trans hy)

/-- Two nodes that got one envelope at the same time, and another one each, agree, and the laws hold. -/
theorem merge_join_sample : (carryingAlso 2).Agree (carryingAlso 3) ∧ (carryingAlso 2).ids ≠ (carryingAlso 3).ids
    ∧ ((carryingAlso 2).merge (fun _ _ _ _ => .eq) (carryingAlso 3)).Same
        ((carryingAlso 3).merge (fun _ _ _ _ => .eq) (carryingAlso 2)) := by
  have hroom : RoomForAll (carryingAlso 2) (carryingAlso 3) (carrying 9) := by
    unfold RoomForAll
    decide
  refine ⟨agree_carryingAlso, by decide, ?_⟩
  exact ((merge_join_iff (keyed_carryingAlso 2) (keyed_carryingAlso 3) (keyed_carrying 9) hroom
    (fun _ _ _ _ => .eq) (fun _ _ _ _ => .eq) (fun _ _ _ _ => .eq) (fun _ _ _ _ => .eq)
    (fun _ _ _ _ => .eq) (fun _ _ _ _ => .eq) (fun _ _ _ _ => .eq)).mpr agree_carryingAlso).1

/-- Two nodes that got an envelope at different times each keep their own copy. -/
theorem merge_not_comm : (carrying 7).Keyed ∧ (carrying 9).Keyed
    ∧ RoomForAll (carrying 7) (carrying 9) (carrying 9)
    ∧ ¬ ((carrying 7).merge (fun _ _ _ _ => .eq) (carrying 9)).Same
        ((carrying 9).merge (fun _ _ _ _ => .eq) (carrying 7)) := by
  refine ⟨keyed_carrying 7, keyed_carrying 9, roomForAll_carrying 7 9 9, fun hs => ?_⟩
  have hi := hs (Arr.fit 16 [1])
  have hr := congrArg (Option.map StoredEnvelope.receivedAt) hi
  revert hr
  decide

end Join

end MeshStore

end SCMessenger
