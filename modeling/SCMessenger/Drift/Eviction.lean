import SCMessenger.Drift.MeshStore
import SCMessenger.Lib.MinCache

/-!
# What a full store keeps

A store over its capacity removes the message with the lowest score until it is not.  Which of two equal
scores goes first depends on the iteration of the map; `Respects` leaves that open.
-/

namespace SCMessenger

variable {β : Type} [LinearOrder β] {score : StoredEnvelope → β}

def Scores.ofScore (score : StoredEnvelope → β) : Scores := fun _ x y => compare (score x) (score y)

def Scores.Respects (scores : Scores) (score : StoredEnvelope → β) : Prop :=
  ∀ n x y, (scores n x y = .gt → score y ≤ score x) ∧ (scores n x y ≠ .gt → score x ≤ score y)

theorem Scores.respects_ofScore (score : StoredEnvelope → β) : (Scores.ofScore score).Respects score := by
  intro n x y
  constructor
  · intro h
    exact (compare_gt_iff_gt.mp h).le
  · intro h
    exact not_lt.mp fun hl => h (compare_gt_iff_gt.mpr hl)

namespace MeshStore

variable {scores : Scores} {store : MeshStore} {envelope e : StoredEnvelope} {id : Arr 16} {n : Nat}

/-! ## The lowest score -/

theorem foldl_lowest_le (hr : scores.Respects score) (n : Nat)
    (r : List (Sigma fun _ : Arr 16 => StoredEnvelope)) (e : Sigma fun _ : Arr 16 => StoredEnvelope) :
    ∀ x ∈ e :: r, score (r.foldl (fun x y => if scores n x.2 y.2 = .gt then y else x) e).2 ≤ score x.2 := by
  induction r generalizing e with
  | nil => simp
  | cons y r ih =>
    intro x hx
    rw [List.foldl_cons]
    obtain ⟨hg, hn⟩ := hr n e.2 y.2
    by_cases hey : scores n e.2 y.2 = .gt
    · rw [if_pos hey]
      have hy := ih y y List.mem_cons_self
      rcases List.mem_cons.mp hx with rfl | hx
      · exact hy.trans (hg hey)
      · exact ih y x hx
    · rw [if_neg hey]
      have he := ih e e List.mem_cons_self
      rcases List.mem_cons.mp hx with rfl | hx
      · exact he
      · rcases List.mem_cons.mp hx with rfl | hx
        · exact he.trans (hn hey)
        · exact ih e x (List.mem_cons_of_mem _ hx)

theorem lowestId_le (hr : scores.Respects score) (h : store.lowestId (scores n) = some id) :
    ∃ e, store.get id = some e ∧ ∀ x ∈ store.messages.entries, score e ≤ score x.2 := by
  rw [lowestId] at h
  split at h
  · cases h
  · rename_i e r he
    cases h
    have hm := foldl_lowest_mem (scores n) r e
    refine ⟨_, Table.mem_entries.mp (he ▸ hm), ?_⟩
    rw [he]
    exact foldl_lowest_le hr n r e

theorem evictIfOverBudget_of_succ (scores : Scores) (h : store.len = store.maxMessages + 1) :
    ∃ id, store.lowestId (scores store.len) = some id ∧ store.evictIfOverBudget scores = (store.remove id).2 := by
  have hn : store.lowestId (scores store.len) ≠ none := lowestId_ne_none (by omega)
  obtain ⟨id, hi⟩ := Option.ne_none_iff_exists'.mp hn
  have hl := len_remove (lowestId_mem hi)
  refine ⟨id, hi, ?_⟩
  rw [evictIfOverBudget, h, evictRounds, if_pos (by omega)]
  rw [h] at hi
  simp only [h, hi]
  cases hm : store.maxMessages with
  | zero => rfl
  | succ r =>
    rw [evictRounds, if_neg]
    show ¬ store.maxMessages < _
    omega

/-! ## The best messages -/

def envelopes (store : MeshStore) : Finset StoredEnvelope :=
  (store.messages.entries.map Sigma.snd).toFinset

def insertAll (scores : Scores) (store : MeshStore) (arriving : List StoredEnvelope) : MeshStore :=
  arriving.foldl (fun store e => (store.insert scores e).2) store

theorem mem_envelopes (hk : store.Keyed) : e ∈ store.envelopes ↔ store.get e.messageId = some e := by
  rw [envelopes, List.mem_toFinset, List.mem_map]
  constructor
  · rintro ⟨⟨id, e⟩, hm, rfl⟩
    have hg : store.get id = some e := Table.mem_entries.mp hm
    rw [hk id e hg]
    exact hg
  · intro hg
    exact ⟨⟨e.messageId, e⟩, Table.mem_entries.mpr hg, rfl⟩

theorem card_envelopes (hk : store.Keyed) : store.envelopes.card = store.len := by
  have hi : (store.messages.entries.map Sigma.snd).map StoredEnvelope.messageId = store.messageIds := by
    rw [List.map_map, messageIds, AList.keys, List.keys]
    refine List.map_congr_left fun x hx => ?_
    exact hk x.1 x.2 (Table.mem_entries.mp hx)
  have hn : (store.messages.entries.map Sigma.snd).Nodup := by
    apply List.Nodup.of_map StoredEnvelope.messageId
    rw [hi]
    exact store.messages.keys_nodup
  rw [envelopes, List.toFinset_card_of_nodup hn, List.length_map, len, messageIds, AList.keys, List.keys,
    List.length_map]

theorem envelopes_put (hk : store.Keyed) (hn : store.contains envelope.messageId = false) :
    (store.put envelope).envelopes = Insert.insert envelope store.envelopes := by
  ext x
  rw [mem_envelopes (keyed_put hk envelope), get_put, Finset.mem_insert, mem_envelopes hk]
  by_cases hi : x.messageId = envelope.messageId
  · rw [if_pos hi, hi, get_eq_none hn]
    simp [eq_comm]
  · rw [if_neg hi]
    have hne : x ≠ envelope := fun he => hi (congrArg _ he)
    simp [hne]

theorem keyed_remove (hk : store.Keyed) (id : Arr 16) : (store.remove id).2.Keyed := by
  intro id' x hx
  exact hk id' x (Table.lookup_erase_iff.mp hx).2

theorem envelopes_remove (hk : store.Keyed) (hg : store.get id = some e) :
    (store.remove id).2.envelopes = store.envelopes.erase e := by
  have hi : e.messageId = id := hk id e hg
  ext x
  rw [mem_envelopes (keyed_remove hk id), Finset.mem_erase, mem_envelopes hk]
  constructor
  · intro hx
    obtain ⟨hn, hx⟩ := Table.lookup_erase_iff.mp hx
    exact ⟨fun he => hn (he ▸ hi), hx⟩
  · rintro ⟨hn, hx⟩
    refine Table.lookup_erase_iff.mpr ⟨fun he => hn ?_, hx⟩
    rw [he, hg] at hx
    exact (Option.some.inj hx).symm

theorem len_put (hn : store.contains envelope.messageId = false) :
    (store.put envelope).len = store.len + 1 := by
  have hm : envelope.messageId ∉ store.ids := fun h => by simp [mem_ids.mp h] at hn
  rw [← card_ids, ids_put, Finset.card_insert_of_notMem hm, card_ids]

/-- An insertion keeps every message if there is room, and all but a lowest one if there is none. -/
structure Inserted (score : StoredEnvelope → β) (store : MeshStore) (envelope : StoredEnvelope)
    (after : MeshStore) : Prop where
  keyed : after.Keyed
  capacity : after.maxMessages = store.maxMessages
  len_le : after.len ≤ store.maxMessages
  contains : ∀ id, after.contains id = true → (store.put envelope).contains id = true
  envelopes : (Insert.insert envelope store.envelopes).card ≤ store.maxMessages
        ∧ after.envelopes = Insert.insert envelope store.envelopes
      ∨ store.maxMessages < (Insert.insert envelope store.envelopes).card
        ∧ ∃ z ∈ Insert.insert envelope store.envelopes,
          (∀ y ∈ Insert.insert envelope store.envelopes, score z ≤ score y)
            ∧ after.envelopes = (Insert.insert envelope store.envelopes).erase z

theorem inserted (score : StoredEnvelope → β) (hke : store.Keyed) (hle : store.len ≤ store.maxMessages)
    (hn : store.contains envelope.messageId = false) :
    Inserted score store envelope (store.insert (.ofScore score) envelope).2 := by
  have hp := envelopes_put hke hn
  have hk := keyed_put hke envelope
  have hs := len_put hn
  have hc : (Insert.insert envelope store.envelopes).card = store.len + 1 := by
    rw [← hp, card_envelopes hk, hs]
  rw [insert, hn, if_neg Bool.false_ne_true]
  show Inserted score store envelope ((store.put envelope).evictIfOverBudget (.ofScore score))
  by_cases hr : store.len + 1 ≤ store.maxMessages
  · rw [evictIfOverBudget_of_le (show (store.put envelope).len ≤ store.maxMessages by omega)]
    exact ⟨hk, rfl, by omega, fun _ h => h, .inl ⟨by omega, hp⟩⟩
  · have ho : (store.put envelope).len = (store.put envelope).maxMessages + 1 := by
      show _ = store.maxMessages + 1
      omega
    obtain ⟨id, hl, he⟩ := evictIfOverBudget_of_succ (.ofScore score) ho
    obtain ⟨z, hz, hm⟩ := lowestId_le (Scores.respects_ofScore score) hl
    have hzi : z.messageId = id := hk id z hz
    have hsh := len_remove (lowestId_mem hl)
    rw [he]
    refine ⟨keyed_remove hk id, rfl, by omega, ?_, .inr ⟨by omega, z, ?_, ?_, ?_⟩⟩
    · intro id' h
      obtain ⟨x, hx⟩ := Option.isSome_iff_exists.mp h
      exact Option.isSome_iff_exists.mpr ⟨x, (Table.lookup_erase_iff.mp hx).2⟩
    · rw [← hp, mem_envelopes hk, hzi]
      exact hz
    · intro y hy
      rw [← hp, mem_envelopes hk] at hy
      exact hm ⟨y.messageId, y⟩ (Table.mem_entries.mpr hy)
    · rw [envelopes_remove hk hz, hp]

/-- **Inserting new messages fills the store like a cache that drops its least element.** -/
theorem filled_insertAll (score : StoredEnvelope → β) (ar : List StoredEnvelope) {store : MeshStore}
    (hke : store.Keyed) (hl : store.len ≤ store.maxMessages)
    (hn : ∀ x ∈ ar, store.contains x.messageId = false)
    (hi : (ar.map StoredEnvelope.messageId).Nodup)
    (hin : ∀ x ∈ store.envelopes ∪ ar.toFinset, ∀ y ∈ store.envelopes ∪ ar.toFinset, score x = score y → x = y) :
    (store.insertAll (.ofScore score) ar).Keyed
      ∧ Filled (fun x y => score x < score y) store.maxMessages store.envelopes ar
          (store.insertAll (.ofScore score) ar).envelopes := by
  induction ar generalizing store with
  | nil => exact ⟨hke, .nil _⟩
  | cons a r ih =>
    rw [List.map_cons, List.nodup_cons] at hi
    have hs := inserted score hke hl (hn a List.mem_cons_self)
    have hsp : store.envelopes ∪ (a :: r).toFinset
        = Insert.insert a store.envelopes ∪ r.toFinset := by
      rw [List.toFinset_cons, Finset.union_insert, Finset.insert_union]
    rw [hsp] at hin
    rw [insertAll, List.foldl_cons]
    generalize (store.insert (.ofScore score) a).2 = after at hs
    -- the messages still to come are not in the store, whatever was evicted
    have hr : ∀ x ∈ r, after.contains x.messageId = false := by
      intro x hx
      have hne : x.messageId ≠ a.messageId := fun he => hi.1 (he ▸ List.mem_map_of_mem hx)
      have hp : (store.put a).contains x.messageId = false := by
        rw [contains, get_put, if_neg hne]
        exact hn x (List.mem_cons_of_mem _ hx)
      exact Bool.eq_false_iff.mpr fun h => by simp [hs.contains _ h] at hp
    have hsu : after.envelopes ⊆ Insert.insert a store.envelopes := by
      rcases hs.envelopes with ⟨-, he⟩ | ⟨-, z, -, -, he⟩
      · exact he.subset
      · exact he ▸ Finset.erase_subset _ _
    have hi' : ∀ x ∈ after.envelopes ∪ r.toFinset, ∀ y ∈ after.envelopes ∪ r.toFinset,
        score x = score y → x = y :=
      fun x hx y hy => hin x (Finset.union_subset_union_left hsu hx) y
        (Finset.union_subset_union_left hsu hy)
    obtain ⟨hk, hf⟩ := ih hs.keyed (hs.capacity ▸ hs.len_le) hr hi.2 hi'
    refine ⟨hk, ?_⟩
    rw [hs.capacity] at hf
    rcases hs.envelopes with ⟨hro, he⟩ | ⟨hfu, z, hz, hm, he⟩
    · exact .keep hro (he ▸ hf)
    · refine .evict hfu hz ?_ (he ▸ hf)
      intro y hy hne
      refine lt_of_le_of_ne (hm y hy) fun hsc => hne ?_
      exact (hin z (Finset.mem_union_left _ hz) y (Finset.mem_union_left _ hy) hsc).symm

/-- **A bounded store keeps the best**: those than which fewer than `k` have a higher score. -/
theorem insertAll_best (score : StoredEnvelope → β) (k : Nat) {arriving : List StoredEnvelope}
    (hids : (arriving.map StoredEnvelope.messageId).Nodup)
    (hinj : ∀ x ∈ arriving, ∀ y ∈ arriving, score x = score y → x = y) :
    ((withCapacity k).insertAll (.ofScore score) arriving).len = min k arriving.length
      ∧ ∀ id e, ((withCapacity k).insertAll (.ofScore score) arriving).get id = some e
        ↔ e.messageId = id ∧ e ∈ arriving ∧ (arriving.filter fun y => score e < score y).length < k := by
  have hnn : (withCapacity k).Keyed := by
    intro id e he
    cases he
  have hem : (withCapacity k).envelopes = ∅ := rfl
  obtain ⟨hk, hf⟩ := filled_insertAll score arriving hnn (Nat.zero_le k) (fun _ _ => rfl) hids
    (by simpa [hem] using hinj)
  have hi : ∀ x : StoredEnvelope, ¬ score x < score x := fun _ => lt_irrefl _
  have ht : ∀ x y z : StoredEnvelope, score x < score y → score y < score z → score x < score z :=
    fun _ _ _ => lt_trans
  have hb := hf.best ht (S := ∅) (hem ▸ Best.empty)
  have hn : arriving.Nodup := List.Nodup.of_map _ hids
  rw [Finset.empty_union] at hb
  constructor
  · rw [← card_envelopes hk, hb.card, List.toFinset_card_of_nodup hn]
    rfl
  · intro id e
    have hr : (arriving.toFinset.filter fun y => score e < score y).card
        = (arriving.filter fun y => score e < score y).length := by
      rw [← List.toFinset_card_of_nodup (hn.filter _)]
      congr 1
      ext y
      simp
    have hm := hb.mem_iff (x := e) hi ht
    rw [mem_envelopes hk, List.mem_toFinset, hr] at hm
    constructor
    · intro hg
      have hid := hk id e hg
      exact ⟨hid, hm.mp (hid.symm ▸ hg)⟩
    · rintro ⟨rfl, hin⟩
      exact hm.mpr hin

def rated (n : UInt8) : StoredEnvelope := ⟨[], Arr.fit 16 [n], Arr.fit 4 [], 0, 0, 0, n, 0⟩

/-- The third of three messages takes the place of the first in a store for two. -/
theorem insertAll_best_sample :
    ((withCapacity 2).insertAll (.ofScore fun e => e.priority.toNat) [rated 5, rated 9, rated 7]).len = 2
      ∧ ((withCapacity 2).insertAll (.ofScore fun e => e.priority.toNat) [rated 5, rated 9, rated 7]).get
          (rated 7).messageId = some (rated 7) := by
  obtain ⟨hl, hg⟩ := insertAll_best (fun e : StoredEnvelope => e.priority.toNat) 2
    (show ([rated 5, rated 9, rated 7].map StoredEnvelope.messageId).Nodup by decide) (by decide)
  exact ⟨hl, (hg _ _).mpr ⟨rfl, by decide, by decide⟩⟩

/-! ## When a message survives -/

def weaker (score : StoredEnvelope → β) (envelope : StoredEnvelope) (store : MeshStore) : Nat :=
  store.messages.entries.countP fun x => decide (score x.2 < score envelope)

theorem weaker_remove {z : StoredEnvelope} (hz : store.get id = some z) (hl : score z < score envelope) :
    (store.remove id).2.weaker score envelope + 1 = store.weaker score envelope := by
  have hm : id ∈ store.messages.entries.keys := List.mem_keys_of_mem (Table.mem_entries.mpr hz)
  obtain ⟨z', f, b, -, he, her⟩ := List.exists_of_kerase hm
  have heq : z' = z := by
    have hen : (⟨id, z'⟩ : Sigma fun _ : Arr 16 => StoredEnvelope) ∈ store.messages.entries := by
      rw [he]
      simp
    exact Option.some.inj ((Table.mem_entries.mp hen).symm.trans hz)
  subst heq
  show List.countP _ (List.kerase id store.messages.entries) + 1 = List.countP _ store.messages.entries
  rw [her, he]
  simp [hl, Nat.add_assoc]

theorem get_evict_of_weaker (hr : scores.Respects score) (hg : store.get id = some e)
    (hw : store.len ≤ store.maxMessages + store.weaker score e) :
    (store.evictIfOverBudget scores).get id = some e := by
  unfold evictIfOverBudget
  generalize store.len = r
  induction r generalizing store with
  | zero => exact hg
  | succ r ih =>
    rw [evictRounds]
    by_cases ho : store.maxMessages < store.len
    · rw [if_pos ho]
      cases hl : store.lowestId (scores store.len) with
      | none => exact hg
      | some low =>
        obtain ⟨z, hz, hm⟩ := lowestId_le hr hl
        -- there is a weaker message, so what goes is weaker
        have hp : 0 < store.weaker score e := by omega
        obtain ⟨x, hx, hlt⟩ := List.countP_pos_iff.mp hp
        have hze : score z < score e := (hm x hx).trans_lt (of_decide_eq_true hlt)
        have hn : id ≠ low := by
          rintro rfl
          rw [hg] at hz
          cases hz
          exact lt_irrefl _ hze
        have hle := len_remove (lowestId_mem hl)
        have hc := weaker_remove hz hze
        refine ih (Table.lookup_erase_iff.mpr ⟨hn, hg⟩) ?_
        show _ ≤ store.maxMessages + _
        omega
    · rw [if_neg ho]
      exact hg

theorem foldl_lowest_first (score : StoredEnvelope → β) (n : Nat)
    (r : List (Sigma fun _ : Arr 16 => StoredEnvelope)) (e : Sigma fun _ : Arr 16 => StoredEnvelope) :
    r.foldl (fun x y => if Scores.ofScore score n x.2 y.2 = .gt then y else x) e = e
      ∨ score (r.foldl (fun x y => if Scores.ofScore score n x.2 y.2 = .gt then y else x) e).2 < score e.2 := by
  induction r generalizing e with
  | nil => exact .inl rfl
  | cons y r ih =>
    rw [List.foldl_cons]
    by_cases he : Scores.ofScore score n e.2 y.2 = .gt
    · rw [if_pos he]
      have hlt : score y.2 < score e.2 := compare_gt_iff_gt.mp he
      rcases ih y with heq | hl
      · exact .inr (heq.symm ▸ hlt)
      · exact .inr (hl.trans hlt)
    · rw [if_neg he]
      exact ih e

theorem get_remove_eq_none (h : store.get id = none) (id' : Arr 16) :
    (store.remove id').2.get id = none := by
  by_cases hi : id = id'
  · rw [hi, get_remove_self]
  · rw [get_remove_of_ne store hi, h]

theorem get_evictRounds_eq_none (r : Nat) {store : MeshStore}
    {re : List (Sigma fun _ : Arr 16 => StoredEnvelope)}
    (hf : store.messages.entries = ⟨id, e⟩ :: re)
    (hw : store.maxMessages + store.weaker score e < store.len)
    (hr : store.len ≤ store.maxMessages + r) :
    (store.evictRounds (.ofScore score) r).get id = none := by
  induction r generalizing store re with
  | zero => omega
  | succ r ih =>
    have hl : store.lowestId (Scores.ofScore score store.len) = some (re.foldl
        (fun x y => if Scores.ofScore score store.len x.2 y.2 = .gt then y else x) ⟨id, e⟩).1 := by
      rw [lowestId, hf]
    have hm := foldl_lowest_mem (Scores.ofScore score store.len) re ⟨id, e⟩
    have hc := foldl_lowest_first score store.len re ⟨id, e⟩
    have hle := len_remove (lowestId_mem hl)
    rw [evictRounds, if_pos (by omega), hl]
    generalize re.foldl (fun x y => if Scores.ofScore score store.len x.2 y.2 = .gt then y else x) ⟨id, e⟩ = z
      at hm hc hle
    rw [← hf] at hm
    rcases hc with rfl | hlt
    · -- it is the lowest itself, and does not come back
      exact evictRounds_induct (P := fun s => s.get id = none) (fun _ id' h => get_remove_eq_none h id')
        r _ (get_remove_self store id)
    · have hn : z.1 ≠ id := by
        intro heq
        have hz : store.get id = some z.2 := heq ▸ Table.mem_entries.mp hm
        have he : store.get id = some e := Table.mem_entries.mp (hf ▸ List.mem_cons_self)
        rw [hz] at he
        exact lt_irrefl _ (Option.some.inj he ▸ hlt)
      have hco : (store.remove z.1).2.weaker score e + 1 = store.weaker score e :=
        weaker_remove (Table.mem_entries.mp hm) hlt
      have hf' : (store.remove z.1).2.messages.entries = ⟨id, e⟩ :: List.kerase z.1 re := by
        show List.kerase z.1 store.messages.entries = _
        rw [hf, List.kerase_cons_ne hn]
      refine ih hf' ?_ ?_
      · show store.maxMessages + _ < _
        omega
      · show _ ≤ store.maxMessages + _
        omega

theorem get_evict_eq_none {r : List (Sigma fun _ : Arr 16 => StoredEnvelope)}
    (hf : store.messages.entries = ⟨id, e⟩ :: r)
    (hw : store.maxMessages + store.weaker score e < store.len) :
    (store.evictIfOverBudget (.ofScore score)).get id = none :=
  get_evictRounds_eq_none store.len hf hw (Nat.le_add_left _ _)

theorem entries_put (hn : store.contains envelope.messageId = false) :
    (store.put envelope).messages.entries = ⟨envelope.messageId, envelope⟩ :: store.messages.entries := by
  have hm : envelope.messageId ∉ store.messages := by
    rw [← AList.lookup_eq_none]
    exact get_eq_none hn
  exact AList.entries_insert_of_notMem hm

/-- A new message stays for every order of ties exactly if there is room or enough weaker ones. -/
theorem contains_evict_put_iff (score : StoredEnvelope → β)
    (hn : store.contains envelope.messageId = false) :
    (∀ scores : Scores, scores.Respects score →
        ((store.put envelope).evictIfOverBudget scores).contains envelope.messageId = true)
      ↔ store.len < store.maxMessages + store.weaker score envelope := by
  have hl := len_put hn
  have he := entries_put hn
  have hw : (store.put envelope).weaker score envelope = store.weaker score envelope := by
    rw [weaker, he, List.countP_cons_of_neg (by simp), weaker]
  constructor
  · intro hs
    by_contra hfew
    have hk := hs (.ofScore score) (Scores.respects_ofScore score)
    have hf : store.maxMessages + (store.put envelope).weaker score envelope < (store.put envelope).len := by
      omega
    rw [contains, get_evict_eq_none he hf] at hk
    cases hk
  · intro hm scores hr
    have hp : (store.put envelope).get envelope.messageId = some envelope := by
      rw [get_put, if_pos rfl]
    rw [contains, get_evict_of_weaker hr hp]
    · rfl
    · show _ ≤ store.maxMessages + _
      omega

end MeshStore

end SCMessenger
