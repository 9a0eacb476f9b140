import Mathlib.Data.List.Dedup
import SCMessenger.Store.LedgerReload

/-!
# Addresses to dial, and seeds

Which entries are dialed again and handed to others, and how the seeds of an invite are taken in.  Where
there is no room an unproven entry goes first, which may be a seed of the same batch.
-/

namespace SCMessenger

def LedgerEntry.isAlive (entry : LedgerEntry) : Bool :=
  decide (0 < entry.successCount) && decide (entry.failureCount < ledgerDeadFailureThreshold)

/-- The freshest first, then by the rate of success, which is compared as floating-point numbers. -/
def dialableOrder (rateOrder : LedgerEntry → LedgerEntry → Ordering) (a b : LedgerEntry) : Ordering :=
  ((compare (b.lastSeen.getD 0) (a.lastSeen.getD 0)).then (rateOrder a b)).then
    ((compare b.successCount a.successCount).then (compare a.multiaddr b.multiaddr))

/-- Who will see an invite. -/
inductive SeedExportAudience where
  | untrusted
  | localMesh
deriving DecidableEq, Repr

namespace LedgerManager

variable (env : LedgerEnv) (manager : LedgerManager)

def dialableAddresses (rateOrder : LedgerEntry → LedgerEntry → Ordering) : List LedgerEntry :=
  (manager.entries.filter (·.isAlive)).mergeSort fun a b => dialableOrder rateOrder a b != .gt

def rankedRelays : List LedgerEntry :=
  (manager.entries.filter (·.isAlive)).mergeSort fun a b => decide (b.lastSeen.getD 0 ≤ a.lastSeen.getD 0)

def getPreferredRelays (limit : Nat) : List LedgerEntry := manager.rankedRelays.take limit

def mayExport (audience : SeedExportAudience) (addr : String) : Bool :=
  match audience with
  | .untrusted => env.addrs.isDisclosableMultiaddr addr
  | .localMesh => env.addrs.isDialableMultiaddr addr .localMode .reject

def exportSeedEntriesFor (limit : Nat) (audience : SeedExportAudience) : List SeedLedgerEntry :=
  (((manager.getPreferredRelays limit).map fun entry => env.addrs.stripPeerId entry.multiaddr).filter
    (mayExport env audience)).map SeedLedgerEntry.mk

end LedgerManager

/-! ## A connection -/

section

variable {env : LedgerEnv}

/-- **A connection revives an address** that failed less than three times, unless a count wraps. -/
theorem recordConnection_revives_iff (manager : LedgerManager) (rateOrder : LedgerEntry → LedgerEntry → Ordering)
    (now : Nat) (multiaddr peerId : String) (hr : env.addrs.isRecordableMultiaddr multiaddr = true)
    (ha : acceptable env multiaddr peerId = true) (hd : DistinctAddrs manager.entries)
    (hn : manager.entries.find? (isDnsEntryOf env multiaddr (recordedBinding env peerId).1) = none) :
    multiaddr ∈ ((manager.recordConnection env now multiaddr peerId).dialableAddresses rateOrder).map (·.multiaddr)
      ↔ ∀ e ∈ manager.entries, e.multiaddr = multiaddr →
        e.failureCount < ledgerDeadFailureThreshold ∧ e.successCount + 1 ≠ 0 := by
  have hmem (m : LedgerManager) : multiaddr ∈ (m.dialableAddresses rateOrder).map (·.multiaddr)
      ↔ ∃ e ∈ m.entries, e.multiaddr = multiaddr ∧ 0 < e.successCount
        ∧ e.failureCount < ledgerDeadFailureThreshold := by
    simp only [LedgerManager.dialableAddresses, List.mem_map, List.mem_mergeSort, List.mem_filter,
      LedgerEntry.isAlive, Bool.and_eq_true, decide_eq_true_eq]
    constructor
    · rintro ⟨e, ⟨he, h⟩, hm⟩
      exact ⟨e, he, hm, h⟩
    · rintro ⟨e, he, hm, h⟩
      exact ⟨e, ⟨he, h⟩, hm⟩
  have hpos (n : UInt32) : 0 < n ↔ n ≠ 0 := UInt32.pos_iff_ne_zero
  rw [hmem, LedgerManager.recordConnection, hr, ha]
  simp only [Bool.not_true, Bool.false_eq_true, if_false, LedgerManager.saveWithEntries, recordConnectionLocked,
    upsert, any_eq_false_iff_find?.mpr hn]
  cases hs : manager.entries.any (·.multiaddr == multiaddr) with
  | true =>
    rw [if_pos rfl]
    obtain ⟨x, hx⟩ := Option.isSome_iff_exists.mp (List.find?_isSome.mpr (List.any_eq_true.mp hs))
    have hxm : x.multiaddr = multiaddr := by simpa using List.find?_some hx
    have hxe := List.mem_of_find?_eq_some hx
    let f (entry : LedgerEntry) : LedgerEntry :=
      { entry with
        successCount := entry.successCount + 1
        publicKey := entry.publicKey.or (recordedBinding env peerId).2
        lastSeen := some now
        peerId := some (recordedBinding env peerId).1 }
    have hu : f x ∈ updateFirst (·.multiaddr == multiaddr) f manager.entries := mem_updateFirst_of_find? hx
    have hdu : DistinctAddrs (updateFirst (·.multiaddr == multiaddr) f manager.entries) :=
      hd.updateFirst fun _ => rfl
    constructor
    · rintro ⟨e, he, hm, h0, hf⟩ e' he' hm'
      obtain rfl := hdu.eq_of_mem he hu (hm.trans hxm.symm)
      obtain rfl := hd.eq_of_mem he' hxe (hm'.trans hxm.symm)
      exact ⟨hf, (hpos _).mp h0⟩
    · intro h
      obtain ⟨hf, h0⟩ := h x hxe hxm
      exact ⟨_, hu, hxm, (hpos _).mpr h0, hf⟩
  | false =>
    simp only [Bool.false_eq_true, if_false]
    have h1 : (0 : UInt32) < 1 ∧ (0 : UInt32) < ledgerDeadFailureThreshold := by decide
    refine iff_of_true ⟨_, List.mem_append_right _ (List.mem_singleton.mpr rfl), rfl, h1⟩ ?_
    intro e he hm
    have := List.any_eq_false.mp hs e he
    simp [hm] at this

/-! ## Exported seeds -/

variable (env) in
def LedgerEntry.isExportable (audience : SeedExportAudience) (entry : LedgerEntry) : Bool :=
  LedgerManager.mayExport env audience (env.addrs.stripPeerId entry.multiaddr)

variable (env) in
def freshestSeeds (manager : LedgerManager) (limit : Nat) (audience : SeedExportAudience) : List SeedLedgerEntry :=
  ((manager.rankedRelays.filter (LedgerEntry.isExportable env audience)).take limit).map
    fun e => ⟨env.addrs.stripPeerId e.multiaddr⟩

theorem take_filter_eq {α : Type} (p : α → Bool) (l : List α) (n : Nat) :
    (l.filter p).take n
      = (l.take n).filter p ++ ((l.drop n).filter p).take (n - ((l.take n).filter p).length) := by
  have hl : ((l.take n).filter p).length ≤ n := (List.length_filter_le _ _).trans (List.length_take_le _ _)
  conv_lhs => rw [← List.take_append_drop n l, List.filter_append, List.take_append, List.take_of_length_le hl]

/-- **An export fills its limit** exactly when nothing that may not be told is ranked before what may. -/
theorem seed_export_fills_limit_iff (manager : LedgerManager) (limit : Nat) (audience : SeedExportAudience) :
    manager.exportSeedEntriesFor env limit audience = freshestSeeds env manager limit audience
      ↔ (∀ e ∈ manager.rankedRelays.take limit, e.isExportable env audience = true)
        ∨ ∀ e ∈ manager.rankedRelays.drop limit, e.isExportable env audience = false := by
  have he : manager.exportSeedEntriesFor env limit audience
      = ((manager.rankedRelays.take limit).filter (LedgerEntry.isExportable env audience)).map
        fun e => ⟨env.addrs.stripPeerId e.multiaddr⟩ := by
    rw [LedgerManager.exportSeedEntriesFor, LedgerManager.getPreferredRelays, List.filter_map, List.map_map]
    rfl
  rw [he, freshestSeeds, take_filter_eq, List.map_append, List.self_eq_append_right, List.map_eq_nil_iff,
    List.take_eq_nil_iff, List.filter_eq_nil_iff]
  simp only [Bool.not_eq_true]
  have hl := List.length_filter_le (LedgerEntry.isExportable env audience) (manager.rankedRelays.take limit)
  have ht : (manager.rankedRelays.take limit).length = min limit manager.rankedRelays.length := List.length_take
  constructor
  · rintro (h0 | hnone)
    · exact .inl (List.length_filter_eq_length_iff.mp (by omega))
    · exact .inr hnone
  · rintro (hall | hnone)
    · have hf := List.length_filter_eq_length_iff.mpr hall
      by_cases hlt : limit ≤ manager.rankedRelays.length
      · exact .inl (by omega)
      · right
        rw [List.drop_of_length_le (by omega)]
        exact fun e hm => by cases hm
    · exact .inr hnone

/-! ## What makes room -/

section

variable {α : Type} {cmp : α → α → Ordering} {l : List α} {x : α}

theorem firstMinBy_cons {y : α} (h : firstMinBy cmp (y :: l) = some x) :
    (x = y ∧ ∀ z, firstMinBy cmp l = some z → cmp z y ≠ .lt)
      ∨ firstMinBy cmp l = some x ∧ cmp x y = .lt := by
  rw [firstMinBy] at h
  split at h
  case h_1 hn =>
    cases h
    refine .inl ⟨rfl, fun z hz => ?_⟩
    rw [hn] at hz
    cases hz
  case h_2 z hz =>
    split at h
    case isTrue hlt =>
      cases h
      exact .inr ⟨hz, hlt⟩
    case isFalse hlt =>
      cases h
      refine .inl ⟨rfl, fun w hw => ?_⟩
      rw [hz] at hw
      cases hw
      exact hlt

theorem firstMinBy_eq_none : firstMinBy cmp l = none ↔ l = [] := by
  cases l with
  | nil => simp [firstMinBy]
  | cons y l =>
    rw [firstMinBy]
    split
    · simp
    · split <;> simp

theorem firstMinBy_mem (h : firstMinBy cmp l = some x) : x ∈ l := by
  induction l with
  | nil => cases h
  | cons y l ih =>
    rcases firstMinBy_cons h with ⟨rfl, -⟩ | ⟨hm, -⟩
    · exact List.mem_cons_self
    · exact List.mem_cons_of_mem _ (ih hm)

end

/-- An eviction takes out one entry, and a proven one only where all are proven. -/
theorem evictOne_spec {l : List LedgerEntry} (hl : maxLedgerEntries ≤ l.length) :
    ∃ f v ba, l = f ++ v :: ba ∧ evictOne l = f ++ ba
      ∧ (v.successCount ≠ 0 → ∀ e ∈ l, e.successCount ≠ 0) := by
  have hcut (v : LedgerEntry) (idx : Nat) (hm : (v, idx) ∈ l.zipIdx) :
      l = l.take idx ++ v :: l.drop (idx + 1) ∧ l.eraseIdx idx = l.take idx ++ l.drop (idx + 1) := by
    have hg : l[idx]? = some v := List.mem_zipIdx_iff_getElem?.mp hm
    obtain ⟨hi, hv⟩ := List.getElem?_eq_some_iff.mp hg
    refine ⟨?_, List.eraseIdx_eq_take_drop_succ ..⟩
    rw [← hv, ← List.drop_eq_getElem_cons hi, List.take_append_drop]
  unfold evictOne
  rw [if_neg (Nat.not_lt.mpr hl)]
  cases hf : firstMinBy (fun a b => evictionOrder a.1 b.1) (l.zipIdx.filter fun e => e.1.successCount == 0) with
  | some x =>
    obtain ⟨v, idx⟩ := x
    obtain ⟨hm, hs⟩ := List.mem_filter.mp (firstMinBy_mem hf)
    obtain ⟨h1, h2⟩ := hcut v idx hm
    exact ⟨_, v, _, h1, by simpa only [hf] using h2, fun hne => absurd (eq_of_beq hs) hne⟩
  | none =>
    have hall : ∀ e ∈ l, e.successCount ≠ 0 := by
      intro e he h0
      obtain ⟨i, hi⟩ := List.getElem?_of_mem he
      refine List.filter_eq_nil_iff.mp (firstMinBy_eq_none.mp hf) (e, i) (List.mem_zipIdx_iff_getElem?.mpr hi) ?_
      simp [h0]
    cases hx : firstMinBy (fun a b => evictionOrder a.1 b.1) l.zipIdx with
    | none =>
      rw [firstMinBy_eq_none, List.zipIdx_eq_nil_iff] at hx
      rw [hx] at hl
      exact absurd hl (by decide)
    | some x =>
      obtain ⟨v, idx⟩ := x
      obtain ⟨h1, h2⟩ := hcut v idx (firstMinBy_mem hx)
      exact ⟨_, v, _, h1, by simpa only [hf, hx] using h2, fun _ => hall⟩

theorem evictOne_of_lt {l : List LedgerEntry} (hl : l.length < maxLedgerEntries) : evictOne l = l :=
  if_pos hl

theorem pushEntry_eq {l : List LedgerEntry} (e : LedgerEntry) (hl : l.length ≤ maxLedgerEntries) :
    pushEntry l e = evictOne l ++ [e] ∧ (pushEntry l e).length ≤ maxLedgerEntries := by
  rw [pushEntry, makeRoom]
  by_cases hlt : l.length < maxLedgerEntries
  · rw [if_pos hlt, evictOne_of_lt hlt, List.length_append, List.length_singleton]
    exact ⟨rfl, hlt⟩
  · obtain ⟨f, v, b, hf, he, -⟩ := evictOne_spec (Nat.not_lt.mp hlt)
    have hle : (evictOne l).length + 1 = l.length := by
      rw [he, hf, List.length_append, List.length_append, List.length_cons]
      omega
    have hroom : makeRoom l.length (evictOne l) = evictOne l := by
      rw [← hle, makeRoom, if_pos (by omega)]
    rw [if_neg hlt, hroom, List.length_append, List.length_singleton]
    exact ⟨rfl, by omega⟩

theorem unproven_evicted_first {l : List LedgerEntry} {e : LedgerEntry} (he : e ∈ l) (hv : e ∉ evictOne l)
    (h0 : e.successCount ≠ 0) : ∀ x ∈ l, x.successCount ≠ 0 := by
  by_cases hl : l.length < maxLedgerEntries
  · rw [evictOne_of_lt hl] at hv
    exact absurd he hv
  · obtain ⟨f, v, b, hf, hc, hall⟩ := evictOne_spec (Nat.not_lt.mp hl)
    refine hall ?_
    rw [hc, List.mem_append, not_or] at hv
    rw [hf, List.mem_append, List.mem_cons] at he
    rwa [← (he.resolve_left hv.1).resolve_right hv.2]

/-! ## The cap -/

theorem length_upsert_le {m p : String} {od o : LedgerEntry → LedgerEntry} {f : LedgerEntry}
    {l : List LedgerEntry} (hl : l.length ≤ maxLedgerEntries) :
    (upsert env m p od o f l).length ≤ maxLedgerEntries := by
  unfold upsert
  split
  · rwa [length_updateFirst]
  · split
    · rwa [length_updateFirst]
    · exact (pushEntry_eq f hl).2

theorem length_importSeeds_le {now : Nat} {m : NetworkMode} {l : List LedgerEntry} {a : Nat}
    (s : List SeedLedgerEntry) (hl : l.length ≤ maxLedgerEntries) :
    (s.foldl (LedgerManager.importSeed env now m) (l, a)).1.length ≤ maxLedgerEntries := by
  refine List.foldlRecOn (motive := fun st : List LedgerEntry × Nat => st.1.length ≤ maxLedgerEntries) s _ hl
    fun st hs se _ => ?_
  rcases LedgerManager.importSeed_cases now m st se with h | ⟨a, -, h, -, -⟩
  · rwa [h]
  · rw [h]
    exact (pushEntry_eq _ hs).2

theorem length_step_le {manager : LedgerManager} (hl : manager.entries.length ≤ maxLedgerEntries) (op : LedgerOp) :
    (manager.step env op).entries.length ≤ maxLedgerEntries := by
  cases op with
  | recordConnection now m peerId =>
    simp only [LedgerManager.step, LedgerManager.recordConnection]
    split
    · exact hl
    · split
      · exact hl
      · exact length_upsert_le hl
  | recordFailure m =>
    simp only [LedgerManager.step, LedgerManager.recordFailure, LedgerManager.saveWithEntries]
    rwa [length_updateFirst]
  | annotateIdentity now m peerId publicKey n =>
    simp only [LedgerManager.step, LedgerManager.annotateIdentity]
    split
    · exact hl
    · simp only [LedgerManager.saveWithEntries, annotateIdentityLocked]
      split
      · exact hl
      · exact length_upsert_le hl
  | importSeedEntries now s => exact length_importSeeds_le _ hl
  | load =>
    rcases manager.step_load_cases env with h | ⟨p, -, h⟩
    · rwa [h]
    · rw [h]
      simp only [loadEntries, List.length_map]
      split
      · exact List.length_take_le _ _
      · omega

/-- **The cap holds** after any operations. -/
theorem length_run_le (f : Option (List LedgerEntry)) (ops : List LedgerOp) :
    (ops.foldl (LedgerManager.step env) (.new f)).entries.length ≤ maxLedgerEntries :=
  List.foldlRecOn (motive := fun m : LedgerManager => m.entries.length ≤ maxLedgerEntries) ops _ (Nat.zero_le _)
    fun _ hm op _ => length_step_le hm op

/-! ## A batch of seeds -/

variable (env) in
def newAddresses (before : List LedgerEntry) (seeds : List SeedLedgerEntry) (after : List LedgerEntry) : List String :=
  (seeds.map fun seed => env.addrs.stripPeerId seed.multiaddr).dedup.filter fun a =>
    decide (a ∈ after.map (·.multiaddr)) && !before.any fun e => env.addrs.stripPeerId e.multiaddr == a

def seedEntry (now : Nat) (a : String) : LedgerEntry := ⟨a, none, none, none, 0, 0, some now, []⟩

section

variable {before l : List LedgerEntry} {seeds : List SeedLedgerEntry} {a : String}

theorem mem_newAddresses : a ∈ newAddresses env before seeds l
    ↔ (∃ seed ∈ seeds, env.addrs.stripPeerId seed.multiaddr = a) ∧ a ∈ l.map (·.multiaddr)
      ∧ ∀ e ∈ before, env.addrs.stripPeerId e.multiaddr ≠ a := by
  simp [newAddresses]

theorem newAddresses_nodup : (newAddresses env before seeds l).Nodup := (List.nodup_dedup _).filter _

theorem newAddresses_sublist {k : List LedgerEntry} (h : k.Sublist l) :
    (newAddresses env before seeds k).Sublist (newAddresses env before seeds l) := by
  refine List.monotone_filter_right _ fun a ha => ?_
  rw [Bool.and_eq_true, decide_eq_true_eq] at ha ⊢
  exact ⟨(h.map _).subset ha.1, ha.2⟩

theorem newAddresses_self (hla : env.Lawful) : newAddresses env l seeds l = [] := by
  refine List.eq_nil_iff_forall_not_mem.mpr fun a ha => ?_
  obtain ⟨⟨seed, -, rfl⟩, hm, hn⟩ := mem_newAddresses.mp ha
  obtain ⟨e, he, hea⟩ := List.mem_map.mp hm
  exact hn e he (by rw [hea, Multiaddrs.stripPeerId_idem hla.addrs])

/-- A seed that is pushed adds its address, unless the address was there before. -/
theorem length_newAddresses_push (before : List LedgerEntry) (now : Nat)
    (hs : ∃ seed ∈ seeds, env.addrs.stripPeerId seed.multiaddr = a) (hn : a ∉ l.map (·.multiaddr)) :
    (newAddresses env before seeds (l ++ [seedEntry now a])).length
      = (newAddresses env before seeds l).length
        + if ∀ e ∈ before, env.addrs.stripPeerId e.multiaddr ≠ a then 1 else 0 := by
  have hmem (x : String) : x ∈ newAddresses env before seeds (l ++ [seedEntry now a])
      ↔ x ∈ newAddresses env before seeds l
        ∨ x = a ∧ ∀ e ∈ before, env.addrs.stripPeerId e.multiaddr ≠ a := by
    simp only [mem_newAddresses, List.map_append, List.map_singleton, mem_concat]
    constructor
    · rintro ⟨h1, h2 | rfl, h3⟩
      · exact .inl ⟨h1, h2, h3⟩
      · exact .inr ⟨rfl, h3⟩
    · rintro (⟨h1, h2, h3⟩ | ⟨rfl, h3⟩)
      · exact ⟨h1, .inl h2, h3⟩
      · exact ⟨hs, .inr rfl, h3⟩
  split
  case isTrue hf =>
    have ha : a ∉ newAddresses env before seeds l := fun h => hn (mem_newAddresses.mp h).2.1
    refine ((List.perm_ext_iff_of_nodup newAddresses_nodup
      (List.nodup_cons.mpr ⟨ha, newAddresses_nodup⟩)).mpr fun x => ?_).length_eq
    rw [hmem, List.mem_cons, and_iff_left hf, or_comm]
  case isFalse hf =>
    refine ((List.perm_ext_iff_of_nodup newAddresses_nodup newAddresses_nodup).mpr fun x => ?_).length_eq
    rw [hmem, or_iff_left fun h => hf h.2]

variable (env) in
/-- A seed that is added is new, and takes the place of no new address of its batch. -/
def KeepsBatch (before : List LedgerEntry) (seeds : List SeedLedgerEntry) (now : Nat)
    (state : List LedgerEntry × Nat) (seed : SeedLedgerEntry) : Prop :=
  (LedgerManager.importSeed env now .localMode state seed).2 ≠ state.2 →
    (∀ e ∈ before, env.addrs.stripPeerId e.multiaddr ≠ env.addrs.stripPeerId seed.multiaddr)
      ∧ newAddresses env before seeds (evictOne state.1) = newAddresses env before seeds state.1

/-- The count is at least the number of new addresses, and equal as long as seeds keep the batch. -/
theorem importSeed_counts_iff (hla : env.Lawful) (now : Nat) {state : List LedgerEntry × Nat}
    {seed : SeedLedgerEntry} (hseed : seed ∈ seeds)
    (h : state.1.length ≤ maxLedgerEntries ∧ (newAddresses env before seeds state.1).length ≤ state.2) :
    let next := LedgerManager.importSeed env now .localMode state seed
    (next.1.length ≤ maxLedgerEntries ∧ (newAddresses env before seeds next.1).length ≤ next.2)
      ∧ ((newAddresses env before seeds next.1).length = next.2
        ↔ (newAddresses env before seeds state.1).length = state.2 ∧ KeepsBatch env before seeds now state seed) := by
  intro next
  rcases LedgerManager.importSeed_cases now .localMode state seed with hs | ⟨a, ha, hs, -, hn⟩
  · have hk : KeepsBatch env before seeds now state seed := fun hne => absurd (congrArg Prod.snd hs) hne
    exact ⟨by rwa [show next = state from hs], by rw [show next = state from hs, and_iff_left hk]⟩
  have hne : next.2 ≠ state.2 := by simp [show next = _ from hs]
  obtain ⟨hpush, hcap⟩ := pushEntry_eq (seedEntry now a) h.1
  have hold : a ∉ (evictOne state.1).map (·.multiaddr) := by
    intro hm
    obtain ⟨e, he, hea⟩ := List.mem_map.mp hm
    exact hn e (evictOne_sublist.subset he) (by rw [hea, ha, Multiaddrs.stripPeerId_idem hla.addrs])
  have hlen := length_newAddresses_push before now ⟨seed, hseed, ha.symm⟩ hold
  have hsub : (newAddresses env before seeds (evictOne state.1)).Sublist (newAddresses env before seeds state.1) :=
    newAddresses_sublist evictOne_sublist
  have hle := hsub.length_le
  rw [← hpush] at hlen
  rw [KeepsBatch, imp_iff_right hne, ← ha, show next = _ from hs]
  change ((pushEntry state.1 (seedEntry now a)).length ≤ _
    ∧ (newAddresses env before seeds (pushEntry state.1 (seedEntry now a))).length ≤ state.2 + 1)
    ∧ ((newAddresses env before seeds (pushEntry state.1 (seedEntry now a))).length = state.2 + 1 ↔ _)
  have hc := h.2
  rw [hlen]
  split
  case isTrue hf =>
    refine ⟨⟨hcap, by omega⟩, fun he => ?_, fun he => ?_⟩
    · exact ⟨by omega, hf, hsub.eq_of_length (by omega)⟩
    · rw [he.2.2, he.1]
  case isFalse hf => exact ⟨⟨hcap, by omega⟩, fun he => by omega, fun he => absurd he.2.1 hf⟩

end

end

/-! ## Sample ledgers -/

namespace SampleLedger

def anyRate (_ _ : LedgerEntry) : Ordering := .eq

def twiceFailed : LedgerManager := ⟨[⟨publicText, some "QmCarol", none, none, 1, 2, some 0, []⟩], none⟩

theorem carol_revived :
    publicText ∈ ((twiceFailed.recordConnection env 1 publicText "QmCarol").dialableAddresses anyRate).map
      (·.multiaddr) := by
  refine (recordConnection_revives_iff twiceFailed anyRate 1 publicText "QmCarol" (by decide +kernel)
    (by decide +kernel) (List.nodup_singleton _) (by decide +kernel)).mpr ?_
  simp [twiceFailed, ledgerDeadFailureThreshold]

/-- After three failures a connection does not revive the address. -/
theorem carol_not_revived :
    publicText ∉ (([recordCarol, .recordFailure publicText, .recordFailure publicText, .recordFailure publicText,
      recordCarol].foldl (LedgerManager.step env) (.new none)).dialableAddresses anyRate).map (·.multiaddr) := by
  decide +kernel

def otherText : String := "/ip4/198.51.100.10/tcp/9001"
def lanText : String := "/ip4/192.168.1.2/tcp/9001"

def seedTexts : List (String × List Protocol) :=
  [(publicText, publicAddr), (otherText, [.ip4 ⟨198, 51, 100, 10⟩, .tcp 9001]),
    (lanText, [.ip4 ⟨192, 168, 1, 2⟩, .tcp 9001])]

def seedEnv : LedgerEnv :=
  { env with
    addrs :=
      ⟨fun text => seedTexts.lookup text, fun addr => ((seedTexts.find? (·.2 = addr)).map (·.1)).getD ""⟩ }

theorem seedEnv_lawful : seedEnv.Lawful where
  toPeerId_startsWith := env_lawful.toPeerId_startsWith
  addrs := by
    refine ⟨fun text a h => ?_⟩
    obtain ⟨_, _, he, -⟩ := List.lookup_eq_some_iff.mp h
    have hall : ∀ e ∈ seedTexts, seedEnv.addrs.parse (seedEnv.addrs.toText (stripPeerIdMultiaddr e.2))
        = some (stripPeerIdMultiaddr e.2) := by decide +kernel
    exact hall (text, a) (he ▸ List.mem_append_right _ List.mem_cons_self)

/-- A full ledger with some numbers of successes. -/
def fullLedger (successes : Nat → UInt32) : LedgerManager where
  entries := (List.range 1024).map fun i =>
    ⟨"/ip6/2001:db8::1/tcp/" ++ toString i, none, none, none, successes i, 0, some i, []⟩
  file := none

def twoSeeds : List SeedLedgerEntry := [⟨publicText⟩, ⟨otherText⟩]

def halfReached : LedgerManager := fullLedger fun i => if i % 2 = 0 then 0 else 1

def lanLedger : LedgerManager where
  entries :=
    [⟨lanText, none, none, none, 1, 0, some 2, []⟩, ⟨publicText, none, none, none, 1, 0, some 1, []⟩]
  file := none

/-- The address of the local network takes the only place, and may not be told. -/
theorem lan_entry_takes_place :
    lanLedger.exportSeedEntriesFor seedEnv 1 .untrusted = []
      ∧ freshestSeeds seedEnv lanLedger 1 .untrusted = [⟨publicText⟩] := by
  have hr : lanLedger.rankedRelays = lanLedger.entries := by
    have hf : lanLedger.entries.filter (·.isAlive) = lanLedger.entries := by decide +kernel
    rw [LedgerManager.rankedRelays, hf, List.mergeSort_of_pairwise]
    decide +kernel
  rw [LedgerManager.exportSeedEntriesFor, LedgerManager.getPreferredRelays, freshestSeeds, hr]
  decide +kernel

end SampleLedger

end SCMessenger
