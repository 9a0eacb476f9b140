import Mathlib.Data.Finset.Card

/-!
# A cache that drops its least element

A set that, when it has grown past its capacity, drops its least element: least in the order of the
elements, whatever the time it was added.
-/

namespace SCMessenger

variable {α : Type} [DecidableEq α]

/-- `Filled lt cap F xs G` : adding `xs` one by one to the cache `F` leaves `G`. -/
inductive Filled (lt : α → α → Prop) (cap : Nat) : Finset α → List α → Finset α → Prop
  | nil (F : Finset α) : Filled lt cap F [] F
  | keep {F G : Finset α} {x : α} {xs : List α} (hroom : (insert x F).card ≤ cap)
      (hrest : Filled lt cap (insert x F) xs G) : Filled lt cap F (x :: xs) G
  | evict {F G : Finset α} {x z : α} {xs : List α} (hfull : cap < (insert x F).card)
      (hz : z ∈ insert x F) (hmin : ∀ y ∈ insert x F, y ≠ z → lt z y)
      (hrest : Filled lt cap ((insert x F).erase z) xs G) : Filled lt cap F (x :: xs) G

def aged (old xs : List α) : List α := old.filter (fun x => decide (x ∉ xs)) ++ xs

def surplus (cap : Nat) (old xs : List α) : Nat :=
  (aged old xs).length - max cap ((aged old xs).length - xs.length)

namespace Filled

variable {lt : α → α → Prop} {cap : Nat} {F G : Finset α} {xs : List α}

theorem subset (h : Filled lt cap F xs G) : G ⊆ F ∪ xs.toFinset := by
  induction h with
  | nil F => simp
  | keep _ _ ih =>
    intro y hy
    have := ih hy
    simp only [Finset.mem_union, Finset.mem_insert, List.mem_toFinset, List.mem_cons] at this ⊢
    tauto
  | evict _ _ _ _ ih =>
    intro y hy
    have := ih hy
    simp only [Finset.mem_union, Finset.mem_erase, Finset.mem_insert, List.mem_toFinset,
      List.mem_cons] at this ⊢
    tauto

/-- **What was dropped lies below what is left.** -/
theorem evicted_lt (htrans : ∀ x y z, lt x y → lt y z → lt x z) (h : Filled lt cap F xs G)
    (hxs : xs.Pairwise lt) {x y : α} (hx : x ∈ F ∪ xs.toFinset) (hxG : x ∉ G) (hy : y ∈ G) : lt x y := by
  induction h with
  | nil F =>
    simp only [List.toFinset_nil, Finset.union_empty] at hx
    exact absurd hx hxG
  | keep _ _ ih =>
    refine ih (List.pairwise_cons.mp hxs).2 ?_ hxG hy
    simp only [Finset.mem_union, Finset.mem_insert, List.mem_toFinset, List.mem_cons] at hx ⊢
    tauto
  | @evict F G a z r _ hz hmi hrest ih =>
    obtain ⟨ha, hr'⟩ := List.pairwise_cons.mp hxs
    by_cases hxz : x = z
    · subst hxz
      -- a later element lies above the one just added, and that is not below the one dropped
      have hs := hrest.subset hy
      simp only [Finset.mem_union, Finset.mem_erase, List.mem_toFinset] at hs
      rcases hs with ⟨hn, hm⟩ | hm
      · exact hmi y hm hn
      · by_cases hax : a = x
        · exact hax ▸ ha y hm
        · exact htrans _ _ _ (hmi a (Finset.mem_insert_self a F) hax) (ha y hm)
    · refine ih hr' ?_ hxG hy
      simp only [Finset.mem_union, Finset.mem_erase, Finset.mem_insert, List.mem_toFinset,
        List.mem_cons] at hx ⊢
      tauto

private theorem evicted_not_mem_rest (hirr : ∀ x, ¬ lt x x)
    (htrans : ∀ x y z, lt x y → lt y z → lt x z) {a z : α} {r : List α}
    (ha : ∀ y ∈ r, lt a y) (hm : ∀ y ∈ insert a F, y ≠ z → lt z y) : z ∉ r := by
  intro hz
  by_cases haz : a = z
  · exact hirr z (haz ▸ ha z hz)
  · exact hirr z (htrans _ _ _ (hm a (Finset.mem_insert_self a F) haz) (ha z hz))

private theorem card_insert_sdiff {a : α} {r : List α} (ha : a ∉ r) :
    (insert a F \ r.toFinset).card = (F \ (a :: r).toFinset).card + 1 := by
  have hs : insert a F \ r.toFinset = insert a (F \ (a :: r).toFinset) := by
    ext y
    simp only [Finset.mem_sdiff, Finset.mem_insert, List.mem_toFinset, List.mem_cons]
    by_cases hy : y = a
    · simp [hy, ha]
    · simp [hy]
  rw [hs, Finset.card_insert_of_notMem (by simp)]

/-- All elements are left, or as many as the capacity. -/
theorem card_eq (hirr : ∀ x, ¬ lt x x) (htrans : ∀ x y z, lt x y → lt y z → lt x z)
    (h : Filled lt cap F xs G) (hxs : xs.Pairwise lt) :
    G.card = min ((F \ xs.toFinset).card + xs.length) (max cap (F \ xs.toFinset).card) := by
  induction h with
  | nil F => simp
  | @keep F G a r hroom _ ih =>
    obtain ⟨ha, hr⟩ := List.pairwise_cons.mp hxs
    have hc := card_insert_sdiff (F := F) fun hm => hirr a (ha a hm)
    have hle : (insert a F \ r.toFinset).card ≤ cap :=
      (Finset.card_le_card Finset.sdiff_subset).trans hroom
    rw [ih hr, List.length_cons]
    omega
  | @evict F G a z r hfull hz hmin _ ih =>
    obtain ⟨ha, hr⟩ := List.pairwise_cons.mp hxs
    have hc := card_insert_sdiff (F := F) fun hm => hirr a (ha a hm)
    have hzr := evicted_not_mem_rest hirr htrans ha hmin
    have he : ((insert a F).erase z \ r.toFinset).card
        = (insert a F \ r.toFinset).card - 1 := by
      rw [Finset.erase_sdiff_comm, Finset.card_erase_of_mem (by simp [hz, hzr])]
    -- the cache was full before the eviction, so it is full with what is still to come
    have hb : (insert a F).card ≤ (insert a F \ r.toFinset).card + r.length := by
      have hu := Finset.card_sdiff_add_card (insert a F) r.toFinset
      have hs := Finset.card_le_card
        (Finset.subset_union_left : insert a F ⊆ insert a F ∪ r.toFinset)
      have hl := List.toFinset_card_le r
      omega
    rw [ih hr, he, List.length_cons]
    omega

/-! ## Age -/

section Age

variable {old : List α}

theorem mem_aged {x : α} : x ∈ aged old xs ↔ x ∈ old ∨ x ∈ xs := by
  simp only [aged, List.mem_append, List.mem_filter, decide_eq_true_eq]
  tauto

theorem aged_nodup (hold : old.Nodup) (hxs : xs.Nodup) : (aged old xs).Nodup := by
  refine List.nodup_append.mpr ⟨hold.filter _, hxs, ?_⟩
  rintro x hx y hy rfl
  simp only [List.mem_filter, decide_eq_true_eq] at hx
  exact hx.2 hy

omit [DecidableEq α] in
theorem nodup_of_pairwise (hirr : ∀ x, ¬ lt x x) (hxs : xs.Pairwise lt) : xs.Nodup := by
  refine List.Pairwise.imp ?_ hxs
  rintro a b ha rfl
  exact hirr a ha

theorem length_aged (hold : old.Nodup) (hF : ∀ x, x ∈ old ↔ x ∈ F) :
    (aged old xs).length = (F \ xs.toFinset).card + xs.length := by
  have hs : (old.filter fun x => decide (x ∉ xs)).toFinset = F \ xs.toFinset := by
    ext x
    simp [hF]
  rw [aged, List.length_append, ← hs, List.toFinset_card_of_nodup (hold.filter _)]

theorem card_drop_aged (hold : old.Nodup) (hxs : xs.Nodup) (k : Nat) :
    ((aged old xs).drop k).toFinset.card = (aged old xs).length - k := by
  have hn := (aged_nodup hold hxs).sublist (List.drop_sublist k _)
  rw [List.toFinset_card_of_nodup hn, List.length_drop]

section

variable (hirr : ∀ x, ¬ lt x x) (htrans : ∀ x y z, lt x y → lt y z → lt x z) (h : Filled lt cap F xs G)
  (hxs : xs.Pairwise lt) (hold : old.Nodup) (hF : ∀ x, x ∈ old ↔ x ∈ F)
include hirr htrans h hxs hold hF

theorem card_eq_aged : G.card = (aged old xs).length - surplus cap old xs := by
  rw [h.card_eq hirr htrans hxs, surplus, length_aged hold hF]
  omega

theorem mem_iff_of_lt
    (hl : ∀ x ∈ (aged old xs).take (surplus cap old xs), ∀ y ∈ (aged old xs).drop (surplus cap old xs), lt x y)
    (x : α) : x ∈ G ↔ x ∈ (aged old xs).drop (surplus cap old xs) := by
  have hm : ∀ x, x ∈ aged old xs ↔ x ∈ F ∪ xs.toFinset := by
    intro x
    rw [mem_aged, hF, Finset.mem_union, List.mem_toFinset]
  have hc : ((aged old xs).drop (surplus cap old xs)).toFinset.card = G.card := by
    rw [card_drop_aged hold (nodup_of_pairwise hirr hxs), h.card_eq_aged hirr htrans hxs hold hF]
  have hs : ((aged old xs).drop (surplus cap old xs)).toFinset ⊆ G := by
    intro y hy
    by_contra hyG
    -- an element dropped too late leaves room for one that should have gone
    obtain ⟨z, hzG, hz⟩ : ∃ z ∈ G, z ∉ ((aged old xs).drop (surplus cap old xs)).toFinset := by
      by_contra ha
      push Not at ha
      have hss : G ⊂ ((aged old xs).drop (surplus cap old xs)).toFinset :=
        (Finset.ssubset_iff_of_subset ha).mpr ⟨y, hy, hyG⟩
      exact absurd hc (Finset.card_lt_card hss).ne'
    rw [List.mem_toFinset] at hy hz
    have hzt : z ∈ (aged old xs).take (surplus cap old xs) := by
      have := (hm z).mpr (h.subset hzG)
      rw [← List.take_append_drop (surplus cap old xs) (aged old xs), List.mem_append] at this
      exact this.resolve_right hz
    have hyz := h.evicted_lt htrans hxs ((hm y).mp (List.mem_of_mem_drop hy)) hyG hzG
    exact hirr z (htrans _ _ _ (hl z hzt y hy) hyz)
  rw [← Finset.eq_of_subset_of_card_le hs hc.ge, List.mem_toFinset]

/-- The latest are left exactly when, at the cut, earlier elements lie below later ones. -/
theorem keeps_latest_iff :
    (∃ k, ∀ x, x ∈ G ↔ x ∈ (aged old xs).drop k)
      ↔ ∀ x ∈ (aged old xs).take (surplus cap old xs), ∀ y ∈ (aged old xs).drop (surplus cap old xs),
          lt x y := by
  constructor
  · rintro ⟨k, hk⟩
    -- the number of elements left says where the list was cut
    have hG : G = ((aged old xs).drop k).toFinset := by
      ext x
      rw [hk, List.mem_toFinset]
    have hln : (aged old xs).length - k = (aged old xs).length - surplus cap old xs := by
      rw [← card_drop_aged hold (nodup_of_pairwise hirr hxs) k, ← hG, h.card_eq_aged hirr htrans hxs hold hF]
    have hc : (aged old xs).drop k = (aged old xs).drop (surplus cap old xs) := by
      have hle : surplus cap old xs ≤ (aged old xs).length := Nat.sub_le _ _
      rcases Nat.lt_or_ge (aged old xs).length k with hl | hg
      · rw [List.drop_eq_nil_of_le hl.le, List.drop_eq_nil_of_le (by omega)]
      · congr 1
        omega
    intro x hx y hy
    have hxG : x ∉ G := by
      rw [hk, hc]
      have hn := aged_nodup hold (nodup_of_pairwise hirr hxs)
      exact fun hx' => List.disjoint_take_drop hn le_rfl hx hx'
    have hxm := List.mem_of_mem_take hx
    rw [mem_aged, hF] at hxm
    exact h.evicted_lt htrans hxs (by simpa using hxm) hxG ((hk y).mpr (hc ▸ hy))
  · intro hl
    exact ⟨_, h.mem_iff_of_lt hirr htrans hxs hold hF hl⟩

end

end Age

/-- A cache with one element above all that are added loses the first one added. -/
theorem evicts_first (hirr : ∀ x, ¬ lt x x) (htrans : ∀ x y z, lt x y → lt y z → lt x z) {w x : α}
    {r : List α} (h : Filled lt cap {w} (x :: r) G) (hc : (x :: r).length = cap)
    (hxs : (x :: r).Pairwise lt) (hw : ∀ y ∈ x :: r, lt y w) : w ∈ G ∧ x ∉ G := by
  have hwx : w ∉ x :: r := fun hm => hirr w (hw w hm)
  have hcr : G.card = cap := by
    have hd : ({w} \ (x :: r).toFinset : Finset α) = {w} :=
      Finset.sdiff_eq_self_of_disjoint (by simpa using hwx)
    rw [h.card_eq hirr htrans hxs, hd, Finset.card_singleton, hc]
    simp only [List.length_cons] at hc
    omega
  have hb : ∀ y, lt w y → y ∉ ({w} ∪ (x :: r).toFinset : Finset α) := by
    intro y hl hy
    rcases Finset.mem_union.mp hy with hy | hy
    · exact hirr w (Finset.mem_singleton.mp hy ▸ hl)
    · exact hirr w (htrans _ _ _ hl (hw y (List.mem_toFinset.mp hy)))
  constructor
  · by_contra hwG
    obtain ⟨y, hy⟩ : G.Nonempty := by
      rw [← Finset.card_pos, hcr, ← hc]
      exact Nat.succ_pos _
    exact hb y (h.evicted_lt htrans hxs (by simp) hwG hy) (h.subset hy)
  · intro hx
    -- nothing lies below the first one, so nothing was dropped; but there was one element too many
    have ha : insert w (x :: r).toFinset ⊆ G := by
      intro z hz
      by_contra hzG
      have hzx := h.evicted_lt htrans hxs (Finset.insert_eq w _ ▸ hz) hzG hx
      rcases Finset.mem_insert.mp hz with rfl | hz
      · exact hb x hzx (by simp)
      · rcases List.mem_cons.mp (List.mem_toFinset.mp hz) with rfl | hz
        · exact hirr z hzx
        · exact hirr z (htrans _ _ _ hzx ((List.pairwise_cons.mp hxs).1 z hz))
    have hle := Finset.card_le_card ha
    rw [Finset.card_insert_of_notMem (by simpa using hwx),
      List.toFinset_card_of_nodup (nodup_of_pairwise hirr hxs), hcr, hc] at hle
    omega

end Filled

/-! ## Any order of arrival -/

/-- Of the elements `S`, the cache `G` has the greatest ones, as many as fit. -/
structure Best (lt : α → α → Prop) (cap : Nat) (S G : Finset α) : Prop where
  subset : G ⊆ S
  below : ∀ x ∈ S, x ∉ G → ∀ y ∈ G, lt x y
  card : G.card = min cap S.card

namespace Best

variable {lt : α → α → Prop} {cap : Nat} {S F : Finset α}

omit [DecidableEq α] in
theorem empty : Best lt cap ∅ ∅ := ⟨subset_rfl, by simp, by simp⟩

omit [DecidableEq α] in
theorem card_of_dropped (h : Best lt cap S F) {x : α} (hx : x ∈ S) (hxF : x ∉ F) : F.card = cap ∧ cap < S.card := by
  have hl : F.card < S.card := Finset.card_lt_card ((Finset.ssubset_iff_of_subset h.subset).mpr ⟨x, hx, hxF⟩)
  have hc := h.card
  omega

theorem keep (h : Best lt cap S F) {x : α} (hr : (insert x F).card ≤ cap) :
    Best lt cap (insert x S) (insert x F) := by
  by_cases he : F = S
  · subst he
    exact ⟨subset_rfl, fun y hy hy' => absurd hy hy', by omega⟩
  · -- the cache is full already, so the element is not new
    obtain ⟨z, hz, hzF⟩ := Finset.exists_of_ssubset (h.subset.ssubset_of_ne he)
    obtain ⟨hf, hm⟩ := h.card_of_dropped hz hzF
    have hx : x ∈ F := by
      by_contra hx
      rw [Finset.card_insert_of_notMem hx] at hr
      omega
    rw [Finset.insert_eq_of_mem hx, Finset.insert_eq_of_mem (h.subset hx)]
    exact h

theorem evict (htrans : ∀ x y z, lt x y → lt y z → lt x z) (h : Best lt cap S F) {x z : α}
    (hf : cap < (insert x F).card) (hz : z ∈ insert x F) (hmi : ∀ y ∈ insert x F, y ≠ z → lt z y) :
    Best lt cap (insert x S) ((insert x F).erase z) := by
  have hl : F.card ≤ cap := h.card ▸ Nat.min_le_left _ _
  have hc : ((insert x F).erase z).card = cap := by
    have hg := Finset.card_insert_le x F
    rw [Finset.card_erase_of_mem hz]
    omega
  have hs : insert x F ⊆ insert x S := Finset.insert_subset_insert x h.subset
  refine ⟨(Finset.erase_subset _ _).trans hs, ?_, ?_⟩
  · intro w hw hwG y hy
    obtain ⟨hyz, hyF⟩ := Finset.mem_erase.mp hy
    by_cases hwz : w = z
    · exact hwz ▸ hmi y hyF hyz
    · -- it was dropped before, so it lies below what the cache held then
      have hwF : w ∉ insert x F := fun hm => hwG (Finset.mem_erase.mpr ⟨hwz, hm⟩)
      have hw' : w ∈ S ∧ w ∉ F := by
        simp only [Finset.mem_insert, not_or] at hw hwF
        exact ⟨hw.resolve_left hwF.1, hwF.2⟩
      rcases Finset.mem_insert.mp hyF with rfl | hyF
      · have hzF : z ∈ F := (Finset.mem_insert.mp hz).resolve_left (Ne.symm hyz)
        exact htrans _ _ _ (h.below w hw'.1 hw'.2 z hzF) (hmi y hyF hyz)
      · exact h.below w hw'.1 hw'.2 y hyF
  · have hmo := Finset.card_le_card hs
    omega

/-- **What is left** are the elements that fewer than `cap` others lie above. -/
theorem mem_iff [DecidableRel lt] (hirr : ∀ x, ¬ lt x x) (htrans : ∀ x y z, lt x y → lt y z → lt x z)
    (h : Best lt cap S F) {x : α} : x ∈ F ↔ x ∈ S ∧ (S.filter fun y => lt x y).card < cap := by
  constructor
  · intro hx
    refine ⟨h.subset hx, ?_⟩
    have ha : S.filter (fun y => lt x y) ⊆ F.erase x := by
      intro y hy
      obtain ⟨hyS, hxy⟩ := Finset.mem_filter.mp hy
      refine Finset.mem_erase.mpr ⟨fun he => hirr x (he ▸ hxy), ?_⟩
      by_contra hyF
      exact hirr x (htrans _ _ _ hxy (h.below y hyS hyF x hx))
    have hc := Finset.card_le_card ha
    have hp : 0 < F.card := Finset.card_pos.mpr ⟨x, hx⟩
    have hl : F.card ≤ cap := h.card ▸ Nat.min_le_left _ _
    rw [Finset.card_erase_of_mem hx] at hc
    omega
  · rintro ⟨hxS, hf⟩
    by_contra hxF
    have hal : F ⊆ S.filter fun y => lt x y :=
      fun y hy => Finset.mem_filter.mpr ⟨h.subset hy, h.below x hxS hxF y hy⟩
    have hc := Finset.card_le_card hal
    have hfu := (h.card_of_dropped hxS hxF).1
    omega

end Best

/-- **The greatest elements are left**, in whatever order they come. -/
theorem Filled.best {lt : α → α → Prop} {cap : Nat} {F G : Finset α} {xs : List α}
    (htrans : ∀ x y z, lt x y → lt y z → lt x z) (h : Filled lt cap F xs G) {S : Finset α}
    (hF : Best lt cap S F) : Best lt cap (S ∪ xs.toFinset) G := by
  induction h generalizing S with
  | nil F => simpa using hF
  | keep hroom _ ih =>
    have hn := ih (hF.keep hroom)
    rwa [Finset.insert_union, ← Finset.union_insert, ← List.toFinset_cons] at hn
  | evict hfull hz hmin _ ih =>
    have hn := ih (hF.evict htrans hfull hz hmin)
    rwa [Finset.insert_union, ← Finset.union_insert, ← List.toFinset_cons] at hn

end SCMessenger
