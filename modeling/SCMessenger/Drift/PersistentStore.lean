import SCMessenger.Drift.MeshStore
import SCMessenger.Lib.Bincode
import SCMessenger.Lib.Run

/-!
# The Drift store on a backend

A store made by `persistent` writes every change through to a backend, whose operations succeed.
-/

namespace SCMessenger

/-! ## Rows -/

def storedEnvelopeCodec : Codec StoredEnvelope :=
  (Codec.bytes.pair ((Codec.array 16).pair ((Codec.array 4).pair (Codec.u32.pair (Codec.u32.pair
    (Codec.u8.pair (Codec.u8.pair Codec.u64))))))).iso
    (fun p => ⟨p.1, p.2.1, p.2.2.1, p.2.2.2.1, p.2.2.2.2.1, p.2.2.2.2.2.1, p.2.2.2.2.2.2.1,
      p.2.2.2.2.2.2.2⟩)
    (fun e => (e.envelopeData, e.messageId, e.recipientHint, e.createdAt, e.ttlExpiry, e.hopCount,
      e.priority, e.receivedAt))
    fun _ => rfl

abbrev Rows := Table Bytes Bytes

def driftPrefix : Bytes := [0x64, 0x72, 0x69, 0x66, 0x74, 0x3a]

def rowKey (id : Arr 16) : Bytes := driftPrefix ++ id.1

def isDriftKey (key : Bytes) : Bool := driftPrefix.isPrefixOf key

def Rows.scanDrift (rows : Rows) : Rows := rows.restrict isDriftKey

theorem rowKey_inj {id id' : Arr 16} : rowKey id = rowKey id' ↔ id = id' := by
  rw [rowKey, rowKey, List.append_cancel_left_eq, Subtype.ext_iff]

theorem isDriftKey_rowKey (id : Arr 16) : isDriftKey (rowKey id) = true := by
  simp [isDriftKey, rowKey]

/-! ## The store -/

/-- A store and the backend it writes through to. -/
structure PersistentStore where
  store : MeshStore
  backend : Rows

namespace PersistentStore

def write (s : PersistentStore) (envelope : StoredEnvelope) : PersistentStore :=
  ⟨s.store.put envelope,
    AList.insert (rowKey envelope.messageId) (storedEnvelopeCodec.serialize envelope) s.backend⟩

def remove (s : PersistentStore) (id : Arr 16) : Bool × PersistentStore :=
  let (removed, store) := s.store.remove id
  (removed, ⟨store, if removed then AList.erase (rowKey id) s.backend else s.backend⟩)

def evictRounds (scores : Scores) : Nat → PersistentStore → PersistentStore
  | 0, s => s
  | rounds + 1, s =>
    if s.store.maxMessages < s.store.len then
      match s.store.lowestId (scores s.store.len) with
      | some id => evictRounds scores rounds (s.remove id).2
      | none => s
    else s

def evictIfOverBudget (scores : Scores) (s : PersistentStore) : PersistentStore :=
  s.evictRounds scores s.store.len

def insert (scores : Scores) (s : PersistentStore) (envelope : StoredEnvelope) : Bool × PersistentStore :=
  if s.store.contains envelope.messageId then (false, s)
  else (true, (s.write envelope).evictIfOverBudget scores)

def merge (scores : Arr 16 → Scores) (s : PersistentStore) (other : MeshStore) : PersistentStore :=
  other.messages.entries.foldl
    (fun s e => if s.store.contains e.1 then s else (s.insert (scores e.1) e.2).2) s

def removeExpired (now : UInt32) (s : PersistentStore) : Nat × PersistentStore :=
  let expired := (s.store.messages.entries.filter
    fun e => e.2.ttlExpiry != 0 && decide (e.2.ttlExpiry ≤ now)).map Sigma.fst
  expired.foldl (fun acc id =>
    let (removed, s) := acc.2.remove id
    (if removed then acc.1 + 1 else acc.1, s)) (0, s)

/-- Read rows into memory and count them; undecodable rows and known messages are skipped. -/
def readRows (rows : List (Sigma fun _ : Bytes => Bytes)) (store : MeshStore) : Nat × MeshStore :=
  rows.foldl (fun acc row =>
    match storedEnvelopeCodec.deserialize row.2 with
    | some envelope =>
      if acc.2.contains envelope.messageId then acc else (acc.1 + 1, acc.2.put envelope)
    | none => acc) (0, store)

def load (scores : Scores) (s : PersistentStore) (rows : Rows) : Nat × PersistentStore :=
  let (loaded, store) := readRows rows.scanDrift.entries s.store
  (loaded, ({ s with store := store } : PersistentStore).evictIfOverBudget scores)

def persistent (scores : Scores) (rows : Rows) : PersistentStore :=
  (load scores ⟨MeshStore.new, rows⟩ rows).2

end PersistentStore

/-! ## Operations -/

/-- An operation on a store, with what it reads of the time. -/
inductive StoreOp where
  | insert (scores : Scores) (envelope : StoredEnvelope)
  | remove (id : Arr 16)
  | merge (scores : Arr 16 → Scores) (other : MeshStore)
  | removeExpired (now : UInt32)
  | evict (scores : Scores)

def MeshStore.apply (store : MeshStore) : StoreOp → MeshStore
  | .insert scores envelope => (store.insert scores envelope).2
  | .remove id => (store.remove id).2
  | .merge scores other => store.merge scores other
  | .removeExpired now => (store.removeExpired now).2
  | .evict scores => store.evictIfOverBudget scores

def PersistentStore.apply (s : PersistentStore) : StoreOp → PersistentStore
  | .insert scores envelope => (s.insert scores envelope).2
  | .remove id => (s.remove id).2
  | .merge scores other => s.merge scores other
  | .removeExpired now => (s.removeExpired now).2
  | .evict scores => s.evictIfOverBudget scores

def StoreOp.Fits : StoreOp → Prop
  | .insert _ envelope => storedEnvelopeCodec.fits envelope
  | .merge _ other => ∀ id envelope, other.get id = some envelope → storedEnvelopeCodec.fits envelope
  | _ => True

namespace MeshStore

variable {scores : Scores} {store : MeshStore}

/-! ## Staying within the budget -/

def WithinBudget (store : MeshStore) : Prop := store.len ≤ store.maxMessages

theorem withinBudget_evict (scores : Scores) (store : MeshStore) :
    (store.evictIfOverBudget scores).WithinBudget := by
  have hm : (store.evictIfOverBudget scores).maxMessages = store.maxMessages :=
    evictRounds_induct (P := fun s => s.maxMessages = store.maxMessages) (fun _ _ h => h) _ _ rfl
  rw [WithinBudget, hm]
  exact len_evictIfOverBudget_le scores store

theorem withinBudget_remove (h : store.WithinBudget) (id : Arr 16) : (store.remove id).2.WithinBudget := by
  have hl : (store.remove id).2.len ≤ store.len := Table.length_erase_le
  exact Nat.le_trans hl h

theorem withinBudget_insert (h : store.WithinBudget) (e : StoredEnvelope) :
    (store.insert scores e).2.WithinBudget := by
  rw [insert]
  split
  · exact h
  · exact withinBudget_evict _ _

theorem withinBudget_apply (h : store.WithinBudget) (op : StoreOp) : (store.apply op).WithinBudget := by
  cases op with
  | insert scores ev => exact withinBudget_insert h ev
  | remove id => exact withinBudget_remove h id
  | merge scores other =>
    rw [apply, merge]
    generalize other.messages.entries = en
    induction en generalizing store with
    | nil => exact h
    | cons e r ih =>
      rw [List.foldl_cons]
      split
      · exact ih h
      · exact ih (withinBudget_insert h e.2)
  | removeExpired now =>
    rw [apply, removeExpired]
    generalize List.map Sigma.fst _ = expired
    generalize 0 = n
    induction expired generalizing store n with
    | nil => exact h
    | cons id r ih => exact ih (withinBudget_remove h id) _
  | evict scores => exact withinBudget_evict scores store

end MeshStore

namespace PersistentStore

variable {scores : Scores} {s : PersistentStore}

/-! ## The same in memory -/

theorem store_evictRounds (r : Nat) (s : PersistentStore) :
    (s.evictRounds scores r).store = s.store.evictRounds scores r := by
  induction r generalizing s with
  | zero => rfl
  | succ r ih =>
    rw [evictRounds, MeshStore.evictRounds]
    split
    · cases s.store.lowestId (scores s.store.len) with
      | none => rfl
      | some id => exact ih (s.remove id).2
    · rfl

theorem insert_store (e : StoredEnvelope) :
    (s.insert scores e).2.store = (s.store.insert scores e).2 := by
  rw [insert, MeshStore.insert]
  split
  · rfl
  · exact store_evictRounds _ _

theorem merge_store (scores : Arr 16 → Scores) (s : PersistentStore) (o : MeshStore) :
    (s.merge scores o).store = s.store.merge scores o := by
  rw [merge, MeshStore.merge]
  generalize o.messages.entries = en
  induction en generalizing s with
  | nil => rfl
  | cons e r ih =>
    rw [List.foldl_cons, List.foldl_cons, ih]
    split
    · rfl
    · rw [insert_store]

theorem removeExpired_store (now : UInt32) (s : PersistentStore) :
    (s.removeExpired now).2.store = (s.store.removeExpired now).2 := by
  rw [removeExpired, MeshStore.removeExpired]
  generalize List.map Sigma.fst _ = expired
  generalize 0 = n
  induction expired generalizing s n with
  | nil => rfl
  | cons id r ih => exact ih _ _

/-- **In memory a persistent store does what a store without a backend does.** -/
theorem store_apply (s : PersistentStore) (op : StoreOp) : (s.apply op).store = s.store.apply op := by
  cases op with
  | insert scores e => exact insert_store e
  | remove id => rfl
  | merge scores other => exact merge_store scores s other
  | removeExpired now => exact removeExpired_store now s
  | evict scores => exact store_evictRounds _ _

/-! ## Rows and memory -/

def Mirrors (s : PersistentStore) : Prop :=
  ∀ key value, isDriftKey key = true → (s.backend.lookup key = some value
    ↔ ∃ id e, s.store.get id = some e ∧ rowKey id = key ∧ storedEnvelopeCodec.serialize e = value)

/-- What holds of a persistent store at any time. -/
structure Synced (s : PersistentStore) : Prop where
  mirrors : s.Mirrors
  keyed : s.store.Keyed
  fits : ∀ id e, s.store.get id = some e → storedEnvelopeCodec.fits e
  capacity : s.store.maxMessages = 10000

theorem synced_write (hs : s.Synced) {en : StoredEnvelope} (hf : storedEnvelopeCodec.fits en) :
    (s.write en).Synced := by
  constructor
  case mirrors =>
    intro key v hk
    by_cases hn : key = rowKey en.messageId
    · subst hn
      rw [write, AList.lookup_insert]
      constructor
      · intro hv
        refine ⟨en.messageId, en, ?_, rfl, Option.some.inj hv⟩
        rw [MeshStore.get_put, if_pos rfl]
      · rintro ⟨id, e, hg, hi, hv⟩
        rw [MeshStore.get_put, if_pos (rowKey_inj.mp hi)] at hg
        rw [Option.some.inj hg, hv]
    · rw [write, AList.lookup_insert_ne hn, hs.mirrors key v hk]
      have ho : ∀ id, rowKey id = key → (s.store.put en).get id = s.store.get id := by
        rintro id rfl
        rw [MeshStore.get_put, if_neg fun h => hn (congrArg rowKey h)]
      constructor
      · rintro ⟨id, e, hg, hi, hv⟩
        exact ⟨id, e, (ho id hi).trans hg, hi, hv⟩
      · rintro ⟨id, e, hg, hi, hv⟩
        exact ⟨id, e, (ho id hi).symm.trans hg, hi, hv⟩
  case keyed => exact MeshStore.keyed_put hs.keyed en
  case fits =>
    intro id e hg
    rw [write, MeshStore.get_put] at hg
    split at hg
    · cases hg
      exact hf
    · exact hs.fits id e hg
  case capacity => exact hs.capacity

theorem get_remove (s : PersistentStore) (id id' : Arr 16) (e : StoredEnvelope) :
    (s.remove id).2.store.get id' = some e ↔ id' ≠ id ∧ s.store.get id' = some e :=
  Table.lookup_erase_iff

theorem synced_remove (hs : s.Synced) (id : Arr 16) : (s.remove id).2.Synced := by
  constructor
  case mirrors =>
    intro key v hk
    -- Whether or not there was a row to erase, no other row is touched.
    have hl : (s.remove id).2.backend.lookup key = some v
        ↔ key ≠ rowKey id ∧ s.backend.lookup key = some v := by
      by_cases ht : (s.store.get id).isSome = true
      · have hb : (s.remove id).2.backend = AList.erase (rowKey id) s.backend := if_pos ht
        rw [hb]
        exact Table.lookup_erase_iff
      · have hb : (s.remove id).2.backend = s.backend := if_neg ht
        rw [hb]
        refine ⟨fun hv => ⟨?_, hv⟩, And.right⟩
        rintro rfl
        obtain ⟨id', e, hg, hi, -⟩ := (hs.mirrors _ v hk).mp hv
        rw [rowKey_inj.mp hi] at hg
        exact ht (Option.isSome_iff_exists.mpr ⟨e, hg⟩)
    rw [hl, hs.mirrors key v hk]
    constructor
    · rintro ⟨hn, id', e, hg, rfl, hv⟩
      exact ⟨id', e, (get_remove s id id' e).mpr ⟨fun h => hn (congrArg rowKey h), hg⟩, rfl, hv⟩
    · rintro ⟨id', e, hg, rfl, hv⟩
      obtain ⟨hn, hg⟩ := (get_remove s id id' e).mp hg
      exact ⟨fun h => hn (rowKey_inj.mp h), id', e, hg, rfl, hv⟩
  case keyed => exact fun id' e hg => hs.keyed id' e ((get_remove s id id' e).mp hg).2
  case fits => exact fun id' e hg => hs.fits id' e ((get_remove s id id' e).mp hg).2
  case capacity => exact hs.capacity

theorem synced_evictRounds (r : Nat) {s : PersistentStore} (hs : s.Synced) :
    (s.evictRounds scores r).Synced := by
  induction r generalizing s with
  | zero => exact hs
  | succ r ih =>
    rw [evictRounds]
    split
    · cases s.store.lowestId (scores s.store.len) with
      | none => exact hs
      | some id => exact ih (synced_remove hs id)
    · exact hs

theorem synced_insert (hs : s.Synced) {e : StoredEnvelope}
    (hf : storedEnvelopeCodec.fits e) : (s.insert scores e).2.Synced := by
  rw [insert]
  split
  · exact hs
  · exact synced_evictRounds _ (synced_write hs hf)

theorem synced_merge {scores : Arr 16 → Scores} (hs : s.Synced) {o : MeshStore}
    (hf : ∀ id e, o.get id = some e → storedEnvelopeCodec.fits e) :
    (s.merge scores o).Synced := by
  have hen : ∀ e ∈ o.messages.entries, storedEnvelopeCodec.fits e.2 :=
    fun e he => hf e.1 e.2 (Table.mem_entries.mp he)
  rw [merge]
  generalize o.messages.entries = en at hen
  induction en generalizing s with
  | nil => exact hs
  | cons e r ih =>
    rw [List.foldl_cons]
    refine ih ?_ fun e he => hen e (List.mem_cons_of_mem _ he)
    split
    · exact hs
    · exact synced_insert hs (hen e List.mem_cons_self)

theorem synced_removeExpired (hs : s.Synced) (now : UInt32) : (s.removeExpired now).2.Synced := by
  rw [removeExpired]
  generalize List.map Sigma.fst _ = expired
  generalize 0 = n
  induction expired generalizing s n with
  | nil => exact hs
  | cons id r ih => exact ih (synced_remove hs id) _

/-- **Every operation keeps the rows and the map together.** -/
theorem synced_apply (hs : s.Synced) {op : StoreOp} (ho : op.Fits) : (s.apply op).Synced := by
  cases op with
  | insert scores e => exact synced_insert hs ho
  | remove id => exact synced_remove hs id
  | merge scores other => exact synced_merge hs ho
  | removeExpired now => exact synced_removeExpired hs now
  | evict scores => exact synced_evictRounds _ hs

/-! ## Opening -/

def WellKept (rows : Rows) : Prop :=
  ∀ key value, isDriftKey key = true → rows.lookup key = some value →
    ∃ e, storedEnvelopeCodec.fits e ∧ rowKey e.messageId = key ∧ storedEnvelopeCodec.serialize e = value

theorem get_readRows (r : List (Sigma fun _ : Bytes => Bytes)) (store : MeshStore)
    (hr : ∀ row ∈ r, ∃ e, storedEnvelopeCodec.fits e ∧ rowKey e.messageId = row.1
      ∧ storedEnvelopeCodec.serialize e = row.2) (id : Arr 16) :
    (readRows r store).2.get id
      = (store.get id).or ((r.dlookup (rowKey id)).bind storedEnvelopeCodec.deserialize) := by
  rw [readRows]
  generalize 0 = n
  induction r generalizing store n with
  | nil => simp
  | cons row re ih =>
    obtain ⟨key, v⟩ := row
    obtain ⟨e, hf, rfl, rfl⟩ := hr _ List.mem_cons_self
    have hre := fun store => ih store fun row h => hr row (List.mem_cons_of_mem _ h)
    rw [List.foldl_cons]
    simp only [storedEnvelopeCodec.deserialize_serialize_self hf]
    by_cases hi : id = e.messageId
    · subst hi
      rw [List.dlookup_cons_eq, Option.bind_some, storedEnvelopeCodec.deserialize_serialize_self hf]
      split
      case isTrue hthere =>
        obtain ⟨x, hx⟩ := Option.isSome_iff_exists.mp hthere
        rw [hre, hx, Option.some_or, Option.some_or]
      case isFalse hnew =>
        rw [hre, MeshStore.get_put, if_pos rfl, MeshStore.get_eq_none (by simpa using hnew),
          Option.some_or, Option.none_or]
    · rw [List.dlookup_cons_ne _ _ fun h => hi (rowKey_inj.mp h)]
      split
      · exact hre _ _
      · rw [hre, MeshStore.get_put, if_neg hi]

theorem maxMessages_readRows (r : List (Sigma fun _ : Bytes => Bytes)) (store : MeshStore) :
    (readRows r store).2.maxMessages = store.maxMessages := by
  rw [readRows]
  generalize 0 = n
  induction r generalizing store n with
  | nil => rfl
  | cons row re ih =>
    rw [List.foldl_cons]
    split
    · split
      · exact ih _ _
      · exact ih _ _
    · exact ih _ _

def loaded (rows : Rows) : MeshStore := (readRows rows.scanDrift.entries MeshStore.new).2

theorem get_loaded {r : Rows} (hr : WellKept r) {id : Arr 16} {e : StoredEnvelope} :
    (loaded r).get id = some e ↔ storedEnvelopeCodec.fits e ∧ e.messageId = id
      ∧ r.lookup (rowKey id) = some (storedEnvelopeCodec.serialize e) := by
  have hs : ∀ {key v}, r.scanDrift.lookup key = some v
      ↔ isDriftKey key = true ∧ r.lookup key = some v := Table.lookup_restrict
  have hg : (loaded r).get id
      = (r.scanDrift.lookup (rowKey id)).bind storedEnvelopeCodec.deserialize := by
    refine (get_readRows _ MeshStore.new (fun row hro => ?_) id).trans (Option.none_or)
    obtain ⟨hk, hv⟩ := hs.mp (Table.mem_entries.mp hro)
    exact hr row.1 row.2 hk hv
  rw [hg, Option.bind_eq_some_iff]
  constructor
  · rintro ⟨v, hv, he⟩
    obtain ⟨x, hf, hi, rfl⟩ := hr _ v (isDriftKey_rowKey id) (hs.mp hv).2
    rw [storedEnvelopeCodec.deserialize_serialize_self hf] at he
    cases he
    exact ⟨hf, rowKey_inj.mp hi, (hs.mp hv).2⟩
  · rintro ⟨hf, -, hv⟩
    exact ⟨_, hs.mpr ⟨isDriftKey_rowKey id, hv⟩,
      storedEnvelopeCodec.deserialize_serialize_self hf⟩

theorem synced_loaded {r : Rows} (hr : WellKept r) : Synced ⟨loaded r, r⟩ := by
  constructor
  case mirrors =>
    intro key v hk
    constructor
    · intro hv
      obtain ⟨e, hf, rfl, rfl⟩ := hr key v hk hv
      exact ⟨e.messageId, e, (get_loaded hr).mpr ⟨hf, rfl, hv⟩, rfl, rfl⟩
    · rintro ⟨id, e, hg, rfl, rfl⟩
      exact ((get_loaded hr).mp hg).2.2
  case keyed => exact fun id e hg => ((get_loaded hr).mp hg).2.1
  case fits => exact fun id e hg => ((get_loaded hr).mp hg).1
  case capacity => exact maxMessages_readRows _ _

/-- **A store opened on well-kept rows is in step with them.** -/
theorem synced_persistent {r : Rows} (hr : WellKept r) (scores : Scores) :
    (persistent scores r).Synced :=
  synced_evictRounds _ (synced_loaded hr)

theorem withinBudget_persistent (scores : Scores) (r : Rows) :
    (persistent scores r).store.WithinBudget := by
  rw [show (persistent scores r).store = (loaded r).evictIfOverBudget scores from
    store_evictRounds _ _]
  exact MeshStore.withinBudget_evict _ _

theorem wellKept_of_synced (hs : s.Synced) : WellKept s.backend := by
  intro key v hk hv
  obtain ⟨id, e, hg, rfl, rfl⟩ := (hs.mirrors key v hk).mp hv
  exact ⟨e, hs.fits id e hg, congrArg rowKey (hs.keyed id e hg), rfl⟩

theorem same_reopened (hs : s.Synced) (hb : s.store.WithinBudget) (scores : Scores) :
    (persistent scores s.backend).store.Same s.store := by
  have hsa : (loaded s.backend).Same s.store := by
    intro id
    apply Option.ext
    intro e
    rw [get_loaded (wellKept_of_synced hs)]
    constructor
    · rintro ⟨hf, rfl, hv⟩
      obtain ⟨id, x, hg, hi, hx⟩ := (hs.mirrors _ _ (isDriftKey_rowKey _)).mp hv
      have hxe : some x = some e := by
        rw [← storedEnvelopeCodec.deserialize_serialize_self (hs.fits id x hg), hx,
          storedEnvelopeCodec.deserialize_serialize_self hf]
      rw [rowKey_inj.mp hi, Option.some.inj hxe] at hg
      exact hg
    · intro hg
      exact ⟨hs.fits id e hg, hs.keyed id e hg,
        (hs.mirrors _ _ (isDriftKey_rowKey id)).mpr ⟨id, e, hg, rfl, rfl⟩⟩
  have hm : (loaded s.backend).maxMessages = 10000 := maxMessages_readRows _ _
  have hr : (loaded s.backend).len ≤ (loaded s.backend).maxMessages := by
    rw [hsa.len_eq, hm, ← hs.capacity]
    exact hb
  rw [show (persistent scores s.backend).store = (loaded s.backend).evictIfOverBudget scores from
    store_evictRounds _ _, MeshStore.evictIfOverBudget_of_le hr]
  exact hsa

/-- **The persistent store refines the one in memory**, and its rows are those of its map after any run. -/
theorem persistent_refines {rows : Rows} (hrows : WellKept rows) {ops : List StoreOp}
    (hops : ∀ op ∈ ops, op.Fits) (opening reopening : Scores) :
    (ops.foldl apply (persistent opening rows)).store
        = ops.foldl MeshStore.apply (persistent opening rows).store
      ∧ (ops.foldl apply (persistent opening rows)).Mirrors
      ∧ (persistent reopening (ops.foldl apply (persistent opening rows)).backend).store.Same
          (ops.foldl apply (persistent opening rows)).store := by
  have hsy : (ops.foldl apply (persistent opening rows)).Synced :=
    (Guarded.of_forall apply hops _).invariant Synced (fun _ _ hs ho => synced_apply hs ho)
      (synced_persistent hrows opening)
  have hb : (ops.foldl apply (persistent opening rows)).store.WithinBudget := by
    refine (Guarded.of_forall apply hops _).invariant (fun s => s.store.WithinBudget) ?_
      (withinBudget_persistent opening rows)
    intro s op hs _
    rw [store_apply]
    exact MeshStore.withinBudget_apply hs op
  have hst : (ops.foldl apply (persistent opening rows)).store
      = ops.foldl MeshStore.apply (persistent opening rows).store := by
    generalize persistent opening rows = s
    clear hsy hb hops
    induction ops generalizing s with
    | nil => rfl
    | cons op ops ih => rw [List.foldl_cons, List.foldl_cons, ih, store_apply]
  exact ⟨hst, hsy.mirrors, same_reopened hsy hb reopening⟩

def sampleOps : List StoreOp :=
  [.insert (fun _ _ _ => .eq) ⟨[1, 2], Arr.fit 16 [1], Arr.fit 4 [], 10, 0, 0, 1, 11⟩,
    .insert (fun _ _ _ => .eq) ⟨[3], Arr.fit 16 [2], Arr.fit 4 [], 10, 20, 0, 1, 12⟩,
    .insert (fun _ _ _ => .eq) ⟨[1, 2], Arr.fit 16 [1], Arr.fit 4 [], 10, 0, 0, 1, 13⟩,
    .remove (Arr.fit 16 [2])]

theorem wellKept_empty : WellKept ∅ := by
  intro key v _ hv
  cases hv

theorem fits_of_length {e : StoredEnvelope} (h : e.envelopeData.length < 256 ^ 8) :
    storedEnvelopeCodec.fits e :=
  ⟨h, trivial, trivial, e.createdAt.toNat_lt, e.ttlExpiry.toNat_lt, e.hopCount.toNat_lt,
    e.priority.toNat_lt, e.receivedAt.toNat_lt⟩

theorem sampleOps_fits : ∀ op ∈ sampleOps, op.Fits := by
  intro op ho
  simp only [sampleOps, List.mem_cons, List.not_mem_nil, or_false] at ho
  rcases ho with rfl | rfl | rfl | rfl
  · exact fits_of_length (by decide)
  · exact fits_of_length (by decide)
  · exact fits_of_length (by decide)
  · trivial

theorem persistent_refines_sample :
    (sampleOps.foldl apply (persistent (fun _ _ _ => .eq) ∅)).Mirrors
      ∧ (persistent (fun _ _ _ => .lt)
          (sampleOps.foldl apply (persistent (fun _ _ _ => .eq) ∅)).backend).store.Same
          (sampleOps.foldl apply (persistent (fun _ _ _ => .eq) ∅)).store :=
  (persistent_refines wellKept_empty sampleOps_fits (fun _ _ _ => .eq) (fun _ _ _ => .lt)).2

/-- A row that does not decode is skipped on opening and stays in the backend, without a message. -/
theorem unreadable_row_stays :
    ¬ (persistent (fun _ _ _ => .eq) (AList.singleton (rowKey (Arr.fit 16 [1])) [0])).Mirrors := by
  intro hm
  obtain ⟨id, e, hg, -, -⟩ :=
    (hm (rowKey (Arr.fit 16 [1])) [0] (isDriftKey_rowKey _)).mp (by decide)
  cases hg

end PersistentStore

end SCMessenger
