import SCMessenger.Core.State

/-!
# Retention of the history

One pass removes what is too old and stops at a record that does not decode; one removes the oldest beyond a
number.  Decoding, and what the emergency pass computes with floating-point numbers, are arguments.
-/

namespace SCMessenger

/-- How many messages are kept, and for how long. -/
structure RetentionConfig where
  maxMessages : UInt32
  maxAgeDays : UInt32

structure DiskStats where
  totalBytes : UInt64
  freeBytes : UInt64

/-- The time, the disk, whether a fifth is free, the result for the logs, and nine tenths. -/
structure MaintenanceEnv where
  now : UInt64
  stats : DiskStats
  belowBuffer : DiskStats → Bool
  pruneLogs : Except IronCoreError Unit
  nineTenths : Nat → Nat

namespace StoredHistory

def messagePrefix : String := "msg_"

def messages (db : StorageBackend) : List (String × Bytes) :=
  (db.entries.map fun e => (e.1, e.2)).filter fun e => startsWith messagePrefix e.1

section

variable (decode : Bytes → Option MessageRecord) (faults : StorageFaults)

def count (db : StorageBackend) : Nat :=
  match StorageBackend.countPrefix faults db messagePrefix with
  | .error _ => 0
  | .ok n => n % 2 ^ 32

def removeOrFail : List String → StorageBackend → Except IronCoreError Unit × StorageBackend
  | [], db => (.ok (), db)
  | key :: keys, db =>
    match StorageBackend.remove faults db key with
    | (.error _, db) => (.error .storageError, db)
    | (.ok _, db) => removeOrFail keys db

def decodable (all : List (String × Bytes)) : List (String × MessageRecord) :=
  all.filterMap fun e => (decode e.2).map (e.1, ·)

def oldestFirst (a b : String × MessageRecord) : Bool := decide (a.2.timestamp ≤ b.2.timestamp)

def enforceRetention (maxMessages : Nat) (db : StorageBackend) : Except IronCoreError Unit × StorageBackend :=
  match StorageBackend.scanPrefix faults db messagePrefix with
  | .error _ => (.error .storageError, db)
  | .ok all =>
    if all.length ≤ maxMessages then (.ok (), db)
    else
      let records := (decodable decode all).mergeSort oldestFirst
      removeOrFail faults ((records.take (records.length - maxMessages)).map Prod.fst) db

def pruneLoop (before : Nat) : List (String × Bytes) → StorageBackend → Except IronCoreError Unit × StorageBackend
  | [], db => (.ok (), db)
  | (key, value) :: rest, db =>
    match decode value with
    | none => (.error .internal, db)
    | some record =>
      if record.timestamp.toNat < before then
        match StorageBackend.remove faults db key with
        | (.error _, db) => (.error .storageError, db)
        | (.ok _, db) => pruneLoop before rest db
      else pruneLoop before rest db

def pruneBefore (before : Nat) (db : StorageBackend) : Except IronCoreError Unit × StorageBackend :=
  match StorageBackend.scanPrefix faults db messagePrefix with
  | .error _ => (.error .storageError, db)
  | .ok all => pruneLoop decode faults before all db

def emergencyPrune (env : MaintenanceEnv) (db : StorageBackend) : Except IronCoreError Unit × StorageBackend :=
  if 0 < env.stats.totalBytes ∧ env.belowBuffer env.stats then
    match env.pruneLogs with
    | .error e => (.error e, db)
    | .ok () =>
      if 100 < count faults db then enforceRetention decode faults (env.nineTenths (count faults db)) db
      else (.ok (), db)
  else (.ok (), db)

def cutoff (config : RetentionConfig) (env : MaintenanceEnv) : Nat :=
  env.now.toNat - config.maxAgeDays.toNat * 86400

def performMaintenance (config : RetentionConfig) (env : MaintenanceEnv) (db : StorageBackend) :
    Except IronCoreError Unit × StorageBackend :=
  match if 0 < config.maxAgeDays then pruneBefore decode faults (cutoff config env) db else (.ok (), db) with
  | (.error e, db) => (.error e, db)
  | (.ok (), db) =>
    match
      if 0 < config.maxMessages ∧ config.maxMessages.toNat < count faults db then
        enforceRetention decode faults config.maxMessages.toNat db
      else (.ok (), db) with
    | (.error e, db) => (.error e, db)
    | (.ok (), db) => emergencyPrune decode faults env db

end

/-! ## What the passes remove -/

variable {decode : Bytes → Option MessageRecord} {db : StorageBackend} {key : String} {value : Bytes}

theorem mem_messages : (key, value) ∈ messages db ↔ db.lookup key = some value ∧ startsWith messagePrefix key = true :=
  StorageBackend.mem_scanPrefix
    (show StorageBackend.scanPrefix .none db messagePrefix = .ok (messages db) from rfl)

theorem nodup_messages (db : StorageBackend) : ((messages db).map Prod.fst).Nodup := by
  have hk : ((db.entries.map fun e => (e.1, e.2)).map Prod.fst).Nodup := by
    simpa [List.map_map, Function.comp_def, AList.keys, List.keys] using db.keys_nodup
  exact hk.sublist (List.filter_sublist.map _)

theorem count_none (db : StorageBackend) : count .none db = (messages db).length % 2 ^ 32 := by
  simp [count, StorageBackend.countPrefix, StorageFaults.none, messages, AList.keys, List.keys, List.filter_map,
    Function.comp_def]

theorem lookup_removeAll (ke : List String) :
    (StorageBackend.removeAll .none ke db).lookup key = if key ∈ ke then none else db.lookup key := by
  induction ke generalizing db with
  | nil => simp [StorageBackend.removeAll]
  | cons k ke ih =>
    rw [StorageBackend.removeAll, ih, StorageBackend.remove]
    by_cases hk : key = k
    · subst hk
      simp [StorageFaults.none]
    · simp [hk, StorageFaults.none, AList.lookup_erase_ne]

theorem mem_messages_removeAll {k : List String} :
    (key, value) ∈ messages (StorageBackend.removeAll .none k db) ↔ (key, value) ∈ messages db ∧ key ∉ k := by
  rw [mem_messages, mem_messages, lookup_removeAll]
  split <;> simp_all

theorem removeOrFail_none (ke : List String) (db : StorageBackend) :
    removeOrFail .none ke db = (.ok (), StorageBackend.removeAll .none ke db) := by
  induction ke generalizing db with
  | nil => rfl
  | cons k ke ih => exact ih _

def Old (decode : Bytes → Option MessageRecord) (before : Nat) (value : Bytes) : Prop :=
  ∃ record, decode value = some record ∧ record.timestamp.toNat < before

variable {before maxMessages : Nat}

theorem pruneLoop_of_decodes (before : Nat) {all : List (String × Bytes)}
    (h : ∀ e ∈ all, (decode e.2).isSome = true) (db : StorageBackend) :
    ∃ keys, pruneLoop decode .none before all db = (.ok (), StorageBackend.removeAll .none keys db)
      ∧ ∀ key, key ∈ keys ↔ ∃ value, (key, value) ∈ all ∧ Old decode before value := by
  induction all generalizing db with
  | nil => exact ⟨[], rfl, by simp⟩
  | cons e r ih =>
    obtain ⟨k, v⟩ := e
    obtain ⟨record, hr⟩ := Option.isSome_iff_exists.mp (h (k, v) List.mem_cons_self)
    have hre := fun e he => h e (List.mem_cons_of_mem _ he)
    by_cases ho : record.timestamp.toNat < before
    · obtain ⟨keys, heq, hk⟩ := ih hre (StorageBackend.remove .none db k).2
      refine ⟨k :: keys, ?_, fun key => ?_⟩
      · simp only [pruneLoop, hr, if_pos ho]
        exact heq
      · simp [hk, Old, hr, ho, or_and_right, exists_or]
    · obtain ⟨keys, heq, hk⟩ := ih hre db
      refine ⟨keys, ?_, fun key => ?_⟩
      · simp only [pruneLoop, hr, if_neg ho]
        exact heq
      · simp [hk, Old, hr, ho, or_and_right, exists_or]

theorem pruneLoop_of_corrupt {all : List (String × Bytes)} (h : ∃ e ∈ all, decode e.2 = none)
    (db : StorageBackend) : (pruneLoop decode .none before all db).1 = .error .internal := by
  induction all generalizing db with
  | nil => simp at h
  | cons e r ih =>
    obtain ⟨k, v⟩ := e
    cases hr : decode v with
    | none => simp only [pruneLoop, hr]
    | some record =>
      have hre : ∃ e ∈ r, decode e.2 = none := by
        obtain ⟨e, he, hn⟩ := h
        rcases List.mem_cons.mp he with rfl | he
        · exact absurd (hr.symm.trans hn) (by simp)
        · exact ⟨e, he, hn⟩
      simp only [pruneLoop, hr]
      split
      · exact ih hre _
      · exact ih hre _

def Decodes (decode : Bytes → Option MessageRecord) (db : StorageBackend) : Prop :=
  ∀ e ∈ messages db, (decode e.2).isSome = true

/-- **The first pass** leaves the records that are not too old. -/
theorem pruneBefore_of_decodes (h : Decodes decode db) (before : Nat) :
    ∃ db', pruneBefore decode .none before db = (.ok (), db')
      ∧ ∀ key value, (key, value) ∈ messages db' ↔ (key, value) ∈ messages db ∧ ¬ Old decode before value := by
  obtain ⟨keys, he, hk⟩ := pruneLoop_of_decodes before h db
  refine ⟨_, he, fun key value => ?_⟩
  rw [mem_messages_removeAll, hk]
  refine and_congr_right fun hm => not_congr ⟨?_, fun ho => ⟨value, hm, ho⟩⟩
  rintro ⟨v', hm', ho⟩
  rwa [← Option.some.inj ((mem_messages.mp hm').1.symm.trans (mem_messages.mp hm).1)]

/-- Records are removed, and none that is newer than a record that is left. -/
structure Trims (decode : Bytes → Option MessageRecord) (db db' : StorageBackend) : Prop where
  sub : ∀ e ∈ messages db', e ∈ messages db
  order : ∀ e ∈ messages db, e ∉ messages db' → ∀ e' ∈ messages db', ∀ record record',
    decode e.2 = some record → decode e'.2 = some record' → record.timestamp ≤ record'.timestamp

theorem Trims.length_le {db' : StorageBackend} (h : Trims decode db db') :
    (messages db').length ≤ (messages db).length := by
  have hs := List.subperm_of_subset (nodup_messages db') (List.map_subset Prod.fst h.sub)
  simpa using hs.length_le

theorem mem_decodable {all : List (String × Bytes)} {r : MessageRecord} :
    (key, r) ∈ decodable decode all ↔ ∃ value, (key, value) ∈ all ∧ decode value = some r := by
  simp [decodable]

/-- **The second pass** leaves the newest records, no more than it may. -/
theorem enforceRetention_of_decodes (h : Decodes decode db) (maxMessages : Nat) :
    ∃ db', enforceRetention decode .none maxMessages db = (.ok (), db')
      ∧ Trims decode db db' ∧ (messages db').length ≤ maxMessages := by
  by_cases hf : (messages db).length ≤ maxMessages
  · exact ⟨db, if_pos hf, ⟨fun _ he => he, fun e he hn => absurd he hn⟩, hf⟩
  · let records := (decodable decode (messages db)).mergeSort oldestFirst
    let split := records.length - maxMessages
    have hm : ∀ {e : String × Bytes} {record}, e ∈ messages db → decode e.2 = some record →
        (e.1, record) ∈ records.take split ∨ (e.1, record) ∈ records.drop split := by
      intro e record he hre
      rw [← List.mem_append, List.take_append_drop, List.mem_mergeSort, mem_decodable]
      exact ⟨e.2, he, hre⟩
    have hs : records.Pairwise fun a b => oldestFirst a b = true :=
      List.pairwise_mergeSort (fun a b c => by simpa [oldestFirst] using UInt64.le_trans)
        (fun a b => by simpa [oldestFirst] using UInt64.le_total _ _) _
    rw [← List.take_append_drop split records, List.pairwise_append] at hs
    have hke : ∀ e ∈ messages (StorageBackend.removeAll .none ((records.take split).map Prod.fst) db),
        ∃ record, decode e.2 = some record ∧ (e.1, record) ∈ records.drop split := by
      intro e he
      obtain ⟨ho, hk⟩ := mem_messages_removeAll.mp he
      obtain ⟨record, hre⟩ := Option.isSome_iff_exists.mp (h e ho)
      refine ⟨record, hre, (hm ho hre).resolve_left fun ht => hk ?_⟩
      exact List.mem_map_of_mem ht
    refine ⟨_, (if_neg hf).trans (removeOrFail_none _ db), ⟨fun e he => (mem_messages_removeAll.mp he).1, ?_⟩, ?_⟩
    · intro e he hg e' he' record r' hre hr'
      obtain ⟨f, hfo, hd⟩ := hke e' he'
      obtain rfl : f = r' := Option.some.inj (hfo.symm.trans hr')
      have hk : e.1 ∈ (records.take split).map Prod.fst := by
        by_contra hno
        exact hg (mem_messages_removeAll.mpr ⟨he, hno⟩)
      obtain ⟨⟨k, r⟩, ht, rfl⟩ := List.mem_map.mp hk
      obtain ⟨value, hv, hr⟩ := mem_decodable.mp (List.mem_mergeSort.mp (List.mem_of_mem_take ht))
      obtain rfl : value = e.2 :=
        Option.some.inj ((mem_messages.mp hv).1.symm.trans (mem_messages.mp he).1)
      obtain rfl : r = record := Option.some.inj (hr.symm.trans hre)
      simpa [oldestFirst] using hs.2.2 _ ht _ hd
    · have hsu : (messages (StorageBackend.removeAll .none ((records.take split).map Prod.fst) db)).map Prod.fst
          ⊆ (records.drop split).map Prod.fst := by
        intro key hk
        obtain ⟨e, he, rfl⟩ := List.mem_map.mp hk
        obtain ⟨record, -, hd⟩ := hke e he
        exact List.mem_map_of_mem hd
      have hl := (List.subperm_of_subset (nodup_messages _) hsu).length_le
      have hd : (records.drop split).length ≤ maxMessages := by
        rw [List.length_drop]
        omega
      simp only [List.length_map] at hl
      exact hl.trans hd

/-! ## Maintenance -/

/-- Maintenance succeeds and leaves few, young records, none older than one removed. -/
structure Retained (decode : Bytes → Option MessageRecord) (config : RetentionConfig) (env : MaintenanceEnv)
    (db : StorageBackend) (result : Except IronCoreError Unit × StorageBackend) : Prop where
  ok : result.1 = .ok ()
  count : ((messages result.2).filterMap fun e => decode e.2).length ≤ config.maxMessages.toNat
  age : ∀ e ∈ messages result.2, ∀ record, decode e.2 = some record →
    env.now.toNat - record.timestamp.toNat ≤ config.maxAgeDays.toNat * 86400
  trims : Trims decode db result.2

/-- **Retention is enforced exactly on stores without corrupt records.** -/
theorem retained_iff (decode : Bytes → Option MessageRecord) {config : RetentionConfig} {env : MaintenanceEnv}
    (hmax : 0 < config.maxMessages) (hage : 0 < config.maxAgeDays) (hstats : env.stats.totalBytes = 0)
    {db : StorageBackend} (hfew : (messages db).length < 2 ^ 32) :
    Retained decode config env db (performMaintenance decode .none config env db) ↔ Decodes decode db := by
  constructor
  · intro h
    by_contra hcorrupt
    simp only [Decodes, not_forall, Bool.not_eq_true, Option.isSome_eq_false_iff, Option.isNone_iff_eq_none,
      exists_prop] at hcorrupt
    have her : (pruneBefore decode .none (cutoff config env) db).1 = .error .internal :=
      pruneLoop_of_corrupt hcorrupt db
    have ho := h.ok
    rw [performMaintenance, if_pos hage] at ho
    cases hp : pruneBefore decode .none (cutoff config env) db with
    | mk re db' =>
      rw [hp] at her ho
      obtain rfl : re = .error .internal := her
      cases ho
  · intro h
    obtain ⟨db₁, he₁, hm₁⟩ := pruneBefore_of_decodes h (cutoff config env)
    have ht₁ : Trims decode db db₁ := by
      refine ⟨fun e he => ((hm₁ e.1 e.2).mp he).1, fun e he hg e' he' record r' hre hr' => ?_⟩
      have hol : Old decode (cutoff config env) e.2 := by
        by_contra hn
        exact hg ((hm₁ e.1 e.2).mpr ⟨he, hn⟩)
      obtain ⟨r, hr, hl⟩ := hol
      obtain rfl : r = record := Option.some.inj (hr.symm.trans hre)
      have hy : ¬ r'.timestamp.toNat < cutoff config env := fun hl' =>
        ((hm₁ e'.1 e'.2).mp he').2 ⟨r', hr', hl'⟩
      exact UInt64.le_iff_toNat_le.mpr (by omega)
    have hem : ∀ db, emergencyPrune decode .none env db = (.ok (), db) := by
      intro db
      rw [emergencyPrune, hstats, if_neg (by simp)]
    have hd : Decodes decode db₁ := fun e he => h e (ht₁.sub e he)
    obtain ⟨db₂, he₂, ht₂, hl₂⟩ :
        ∃ db₂, performMaintenance decode .none config env db = (.ok (), db₂) ∧ Trims decode db₁ db₂
          ∧ (messages db₂).length ≤ config.maxMessages.toNat := by
      by_cases hc : config.maxMessages.toNat < count .none db₁
      · obtain ⟨db₂, he₂, ht, hle⟩ := enforceRetention_of_decodes hd config.maxMessages.toNat
        refine ⟨db₂, ?_, ht, hle⟩
        simp only [performMaintenance, if_pos hage, he₁, if_pos (And.intro hmax hc), he₂, hem]
      · refine ⟨db₁, ?_, ⟨fun _ he => he, fun e he hg => absurd he hg⟩, ?_⟩
        · simp only [performMaintenance, if_pos hage, he₁, if_neg fun h => hc (And.right h), hem]
        · rw [count_none, Nat.mod_eq_of_lt (ht₁.length_le.trans_lt hfew)] at hc
          exact Nat.not_lt.mp hc
    rw [he₂]
    refine ⟨rfl, (List.length_filterMap_le _ _).trans hl₂, fun e he record hre => ?_, ?_, ?_⟩
    · have hy : ¬ record.timestamp.toNat < cutoff config env := fun hl =>
        ((hm₁ e.1 e.2).mp (ht₂.sub e he)).2 ⟨record, hre, hl⟩
      rw [cutoff] at hy
      omega
    · exact fun e he => ht₁.sub e (ht₂.sub e he)
    · intro e he hg e' he'
      by_cases hm : e ∈ messages db₁
      · exact ht₂.order e hm hg e' he'
      · exact ht₁.order e he hm e' (ht₂.sub e' he')

def sampleDecode : Bytes → Option MessageRecord
  | [] => none
  | t :: _ => some ⟨"", .received, "", "", t.toUInt64, t.toUInt64, true, false⟩

def sampleEnv : MaintenanceEnv := ⟨3, ⟨0, 0⟩, fun _ => false, .ok (), id⟩

def twoMessages : StorageBackend := AList.insert "msg_b" [2] (AList.insert "msg_a" [1] ∅)

theorem retained_two : Retained sampleDecode ⟨1, 1⟩ sampleEnv twoMessages
    (performMaintenance sampleDecode .none ⟨1, 1⟩ sampleEnv twoMessages) :=
  (retained_iff sampleDecode (by decide) (by decide) rfl (by decide +kernel)).mpr
    (by rw [Decodes]; decide +kernel)

/-- A record does not decode: maintenance fails, and both other records stay. -/
theorem corrupt_stops :
    (performMaintenance sampleDecode .none ⟨1, 1⟩ sampleEnv (AList.insert "msg_c" [] twoMessages)).1
        = .error .internal
      ∧ ((messages (performMaintenance sampleDecode .none ⟨1, 1⟩ sampleEnv
        (AList.insert "msg_c" [] twoMessages)).2).filterMap fun e => sampleDecode e.2).length = 2 := by
  decide +kernel

end StoredHistory

end SCMessenger
