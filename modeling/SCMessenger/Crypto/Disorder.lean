import Mathlib.Data.List.Nodup
import Mathlib.Data.List.Perm.Subperm
import SCMessenger.Crypto.Dialogue

/-!
# Messages out of order

The messages of a direction are a `Lane`: each is cached at its receiver or lies on a `Segment`, the part of
a chain between the receiver and the sender.  A ratchet step loses the keys the old chain had still to give.
-/

namespace SCMessenger

open RatchetSession

variable {K : Type} {P : Primitives K}

/-! ## The cache -/

variable {m : SkippedKeys K}

theorem SkippedKeys.size_le {ks : List SkipKey} (h : ∀ x k, m[x]? = some k → x ∈ ks) :
    m.size ≤ ks.length := by
  rw [← Std.ExtTreeMap.length_keys]
  refine (List.subperm_of_subset Std.ExtTreeMap.nodup_keys fun x hx => ?_).length_le
  obtain ⟨k, hk⟩ := Option.isSome_iff_exists.mp
    (Std.ExtTreeMap.mem_iff_isSome_getElem?.mp (Std.ExtTreeMap.mem_keys.mp hx))
  exact h x k hk

theorem SkippedKeys.getElem?_insert_of_ne {x y : SkipKey} {k : K} (h : y ≠ x) :
    (m.insert x k)[y]? = m[y]? := by
  rw [Std.ExtTreeMap.getElem?_insert, if_neg fun hc => h (Std.LawfulEqCmp.eq_of_compare hc).symm]

theorem SkippedKeys.getElem?_erase_of_ne {x y : SkipKey} (h : y ≠ x) : (m.erase x)[y]? = m[y]? := by
  rw [Std.ExtTreeMap.getElem?_erase, if_neg fun hc => h (Std.LawfulEqCmp.eq_of_compare hc).symm]

section Skip

variable (d : Arr 32) (target : UInt32)

theorem skipMessageKeys_succ {n : Nat} {c : Chain K} {m : SkippedKeys K} {ks : List SkipKey}
    (hk : ks.length ≤ maxSkipKeys) (hm : ∀ x k, m[x]? = some k → x ∈ ks) (hc : (d, c.index) ∈ ks)
    (hl : c.index < target) :
    skipMessageKeys P d target (n + 1) c m
      = skipMessageKeys P d target n ⟨nextChainKey P c.chainKey, c.index + 1⟩
          (m.insert (d, c.index) (messageKey P c.chainKey)) := by
  have hr : ¬ maxSkipKeys < (m.insert (d, c.index) (messageKey P c.chainKey)).size := by
    refine Nat.not_lt.mpr ((SkippedKeys.size_le fun x k hx => ?_).trans hk)
    by_cases hxc : x = (d, c.index)
    · exact hxc ▸ hc
    · rw [SkippedKeys.getElem?_insert_of_ne hxc] at hx
      exact hm x k hx
  simp only [skipMessageKeys, hl, if_true, Chain.nextMessageKey, UInt32.add_sub_cancel,
    evictSkipped, hr, if_false]

/-- The keys skipped are cached and no other changes, when there is room. -/
theorem skipMessageKeys_getElem? {ks : List SkipKey} (hk : ks.length ≤ maxSkipKeys) :
    ∀ (n : Nat) (c : Chain K) (m : SkippedKeys K), c.index.toNat + n = target.toNat →
      (∀ x k, m[x]? = some k → x ∈ ks) →
      (∀ i, c.index ≤ i → i < target → (d, i) ∈ ks) →
      (∀ i, c.index ≤ i → i < target → (skipMessageKeys P d target n c m).2[(d, i)]?
          = some (messageKey P ((nextChainKey P)^[(i - c.index).toNat] c.chainKey)))
        ∧ ∀ x, (∀ i, c.index ≤ i → i < target → x ≠ (d, i)) →
          (skipMessageKeys P d target n c m).2[x]? = m[x]? := by
  intro n
  induction n with
  | zero =>
    intro c m hn hm hk'
    refine ⟨fun i hi hl => ?_, fun x _ => rfl⟩
    rw [UInt32.le_iff_toNat_le] at hi
    rw [UInt32.lt_iff_toNat_lt] at hl
    omega
  | succ n ih =>
    intro c m hn hm hk'
    have hl : c.index < target := by rw [UInt32.lt_iff_toNat_lt]; omega
    have hs := toNat_add_one_of_lt hl
    have hme : (d, c.index) ∈ ks := hk' _ UInt32.le_rfl hl
    rw [skipMessageKeys_succ d target hk hm hme hl]
    have hnx := add_one_le_iff_of_lt hl
    obtain ⟨hh, hmi⟩ := ih ⟨nextChainKey P c.chainKey, c.index + 1⟩
      (m.insert (d, c.index) (messageKey P c.chainKey)) (by simp only [hs]; omega)
      (fun x k hx => by
        by_cases hxc : x = (d, c.index)
        · exact hxc ▸ hme
        · rw [SkippedKeys.getElem?_insert_of_ne hxc] at hx
          exact hm x k hx)
      (fun i hi hi' => hk' i (UInt32.le_of_lt ((hnx i).mp hi)) hi')
    refine ⟨fun i hi hi' => ?_, fun x hx => ?_⟩
    · rcases UInt32.le_iff_lt_or_eq.mp hi with hl' | rfl
      · rw [hh i ((hnx i).mpr hl') hi']
        have hsb : (i - c.index).toNat = (i - (c.index + 1)).toNat + 1 := by
          rw [UInt32.toNat_sub_of_le _ _ hi, UInt32.toNat_sub_of_le _ _ ((hnx i).mpr hl'), hs]
          rw [UInt32.lt_iff_toNat_lt] at hl'
          omega
        rw [hsb, Function.iterate_succ_apply]
      · rw [hmi _ fun j hj _ he => ?_, Std.ExtTreeMap.getElem?_insert_self]
        · simp
        · obtain rfl := (Prod.mk.inj he).2
          exact absurd ((hnx c.index).mp hj) (UInt32.lt_irrefl _)
    · rw [hmi x fun i hi hi' => hx i (UInt32.le_of_lt ((hnx i).mp hi)) hi',
        SkippedKeys.getElem?_insert_of_ne (hx c.index UInt32.le_rfl hl)]

end Skip

/-! ## Lanes -/

def Letter.key (l : Letter) : SkipKey := (l.sealed.ourDhPublic, l.sealed.messageNumber)

def Letter.SealedWith (P : Primitives K) (k : K) (l : Letter) : Prop :=
  l.sealed.ciphertext = P.aeadSeal k l.sealed.nonce l.plaintext l.aad

/-- The part of a chain between the receiver's position and the sender's. -/
structure Segment (K : Type) where
  dh : Arr 32
  start : Chain K
  stop : UInt32

namespace Segment

/-- The letter carries a message of the segment. -/
structure Holds (P : Primitives K) (seg : Segment K) (l : Letter) : Prop where
  dh : l.key.1 = seg.dh
  ge : seg.start.index ≤ l.key.2
  lt : l.key.2 < seg.stop
  seals : l.SealedWith P
    (messageKey P ((nextChainKey P)^[(l.key.2 - seg.start.index).toNat] seg.start.chainKey))

/-- The sender continues the segment with the chain `c`. -/
structure Feeds (P : Primitives K) (seg : Segment K) (c : Chain K) : Prop where
  stop : seg.stop = c.index
  le : seg.start.index ≤ c.index
  chain : c.chainKey = (nextChainKey P)^[(c.index - seg.start.index).toNat] seg.start.chainKey

def after (P : Primitives K) (seg : Segment K) (n : UInt32) : Segment K :=
  { seg with start := seg.start.after P n }

end Segment

/-- The letters on their way: each is cached or on a segment, and nothing else is cached. -/
structure Lane (P : Primitives K) (cache : SkippedKeys K) (letters : List Letter)
    (segs : List (Segment K)) : Prop where
  nodup : (letters.map Letter.key).Nodup
  sound : ∀ l ∈ letters, ∀ k, cache[l.key]? = some k → l.SealedWith P k
  cached : ∀ x k, cache[x]? = some k → x ∈ letters.map Letter.key
  reads : ∀ l ∈ letters, (∃ k, cache[l.key]? = some k) ∨ ∃ seg ∈ segs, seg.Holds P l
  covers : ∀ seg ∈ segs, ∀ n, seg.start.index ≤ n → n < seg.stop →
    (seg.dh, n) ∈ letters.map Letter.key
  /-- What is cached of a segment's chain lies before the segment. -/
  past : ∀ seg ∈ segs, ∀ n k, cache[(seg.dh, n)]? = some k → n < seg.start.index
  below : ∀ seg ∈ segs, ∀ l ∈ letters, l.key.1 = seg.dh → l.key.2 < seg.stop
  distinct : (segs.map Segment.dh).Nodup

theorem mem_keys_eraseIdx {letters : List Letter} (hn : (letters.map Letter.key).Nodup) {i : Nat}
    {l : Letter} (hi : letters[i]? = some l) {x : SkipKey} :
    x ∈ (letters.eraseIdx i).map Letter.key ↔ x ≠ l.key ∧ x ∈ letters.map Letter.key := by
  have hl : i < (letters.map Letter.key).length := by
    simpa using (List.getElem?_eq_some_iff.mp hi).1
  have hk : (letters.map Letter.key)[i] = l.key := by
    simp [(List.getElem?_eq_some_iff.mp hi).2]
  rw [← List.eraseIdx_map, ← hn.erase_getElem i hl, hk, hn.mem_erase_iff]

theorem iterate_after {c : Chain K} {n m : UInt32} (hn : c.index ≤ n) (hm : n < m) :
    (nextChainKey P)^[(m - (n + 1)).toNat] (c.after P n).chainKey
      = (nextChainKey P)^[(m - c.index).toNat] c.chainKey := by
  have hs := toNat_add_one_of_lt hm
  have hl : n + 1 ≤ m := (add_one_le_iff_of_lt hm m).mpr hm
  have hsm : (m - (n + 1)).toNat + ((n - c.index).toNat + 1) = (m - c.index).toNat := by
    rw [UInt32.toNat_sub_of_le _ _ hl, UInt32.toNat_sub_of_le _ _ hn, hs,
      UInt32.toNat_sub_of_le _ _ (UInt32.le_trans hn (UInt32.le_of_lt hm))]
    rw [UInt32.le_iff_toNat_le] at hn
    rw [UInt32.lt_iff_toNat_lt] at hm
    omega
  rw [← hsm, Function.iterate_add_apply]
  rfl

namespace Segment.Holds

variable {seg : Segment K} {l l' : Letter}

theorem key_eq (h : seg.Holds P l) : l.key = (seg.dh, l.key.2) := Prod.ext h.dh rfl

theorem after (h : seg.Holds P l) (h' : seg.Holds P l') (hl : l.key.2 < l'.key.2) :
    (seg.after P l.key.2).Holds P l' where
  dh := h'.dh
  ge := (add_one_le_iff_of_lt hl _).mpr hl
  lt := h'.lt
  seals := by
    have hs := h'.seals
    rw [← iterate_after h.ge hl] at hs
    exact hs

end Segment.Holds

namespace Lane

variable {cache : SkippedKeys K} {letters : List Letter} {segs : List (Segment K)}
  {seg : Segment K} {l : Letter} {i : Nat} {k : K}

theorem nodup_eraseIdx (h : Lane P cache letters segs) (i : Nat) :
    ((letters.eraseIdx i).map Letter.key).Nodup :=
  h.nodup.sublist ((List.eraseIdx_sublist letters i).map _)

/-- **A cached letter is delivered**: its key leaves the cache. -/
theorem dropCached (h : Lane P cache letters segs) (hi : letters[i]? = some l) (hk : cache[l.key]? = some k) :
    Lane P (cache.erase l.key) (letters.eraseIdx i) segs := by
  have hke : ∀ x, x ∈ (letters.eraseIdx i).map Letter.key
      ↔ x ≠ l.key ∧ x ∈ letters.map Letter.key := fun x => mem_keys_eraseIdx h.nodup hi
  have hne : ∀ l' ∈ letters.eraseIdx i, l'.key ≠ l.key := fun l' hl' =>
    ((hke _).mp (List.mem_map_of_mem hl')).1
  have hc : ∀ {x k'}, (cache.erase l.key)[x]? = some k' → x ≠ l.key ∧ cache[x]? = some k' := by
    intro x k' hx
    by_cases hxl : x = l.key
    · rw [hxl, Std.ExtTreeMap.getElem?_erase_self] at hx
      cases hx
    · rw [SkippedKeys.getElem?_erase_of_ne hxl] at hx
      exact ⟨hxl, hx⟩
  refine ⟨h.nodup_eraseIdx i, fun l' hl' k' hk' => ?_, fun x k' hx => ?_, fun l' hl' => ?_,
    fun sg hs n hn hn' => ?_, fun sg hs n k' hk' => ?_, fun sg hs l' hl' => ?_, h.distinct⟩
  · exact h.sound l' (List.mem_of_mem_eraseIdx hl') k' (hc hk').2
  · exact (hke x).mpr ⟨(hc hx).1, h.cached x k' (hc hx).2⟩
  · rw [SkippedKeys.getElem?_erase_of_ne (hne l' hl')]
    exact h.reads l' (List.mem_of_mem_eraseIdx hl')
  · refine (hke _).mpr ⟨fun he => ?_, h.covers sg hs n hn hn'⟩
    -- a cached letter lies before the segment
    have hl := h.past sg hs n k (he ▸ hk)
    exact absurd hn (UInt32.not_le.mpr hl)
  · exact h.past sg hs n k' (hc hk').2
  · exact h.below sg hs l' (List.mem_of_mem_eraseIdx hl')

theorem skip_lt (h : Lane P cache letters segs) (hs : seg ∈ segs) (hl : seg.Holds P l) :
    (l.key.2 - seg.start.index).toNat < letters.length := by
  obtain ⟨g, hg⟩ : ∃ g, (l.key.2 - seg.start.index).toNat = g := ⟨_, rfl⟩
  have hga : l.key.2.toNat = seg.start.index.toNat + g := by
    have hge := UInt32.le_iff_toNat_le.mp hl.ge
    rw [UInt32.toNat_sub_of_le _ _ hl.ge] at hg
    omega
  have hbo := l.key.2.toNat_lt
  have hn : ∀ j ≤ g, (seg.start.index + UInt32.ofNat j).toNat = seg.start.index.toNat + j := by
    intro j hj
    rw [UInt32.toNat_add, UInt32.toNat_ofNat_of_lt' (by simp only [UInt32.size]; omega)]
    exact Nat.mod_eq_of_lt (by omega)
  have hsu : ((List.range (g + 1)).map fun j => (seg.dh, seg.start.index + UInt32.ofNat j))
      ⊆ letters.map Letter.key := by
    intro x hx
    obtain ⟨j, hj, rfl⟩ := List.mem_map.mp hx
    have hj' : j ≤ g := Nat.lt_succ_iff.mp (List.mem_range.mp hj)
    refine h.covers seg hs _ ?_ (UInt32.lt_of_le_of_lt ?_ hl.lt)
    · rw [UInt32.le_iff_toNat_le, hn j hj']
      omega
    · rw [UInt32.le_iff_toNat_le, hn j hj']
      omega
  have hno : ((List.range (g + 1)).map
      fun j => (seg.dh, seg.start.index + UInt32.ofNat j)).Nodup := by
    refine List.Nodup.map_on (fun a ha b hb hab => ?_) List.nodup_range
    have hna := congrArg UInt32.toNat (Prod.mk.inj hab).2
    rw [hn a (Nat.lt_succ_iff.mp (List.mem_range.mp ha)),
      hn b (Nat.lt_succ_iff.mp (List.mem_range.mp hb))] at hna
    omega
  have hle := (List.subperm_of_subset hno hsu).length_le
  simp only [List.length_map, List.length_range] at hle
  omega

/-- Skipping to a letter of the first segment adds the keys of the messages before it. -/
theorem getElem?_skip {r : List (Segment K)} (h : Lane P cache letters (seg :: r))
    (hr : letters.length ≤ maxSkipKeys) (hl : seg.Holds P l) {x : SkipKey} :
    (skipMessageKeys P seg.dh l.key.2 (l.key.2 - seg.start.index).toNat seg.start cache).2[x]? = some k
      ↔ cache[x]? = some k ∨ ∃ j, x = (seg.dh, j) ∧ seg.start.index ≤ j ∧ j < l.key.2
        ∧ k = messageKey P ((nextChainKey P)^[(j - seg.start.index).toNat] seg.start.chainKey) := by
  have hm : seg ∈ seg :: r := List.mem_cons_self
  obtain ⟨hh, hmi⟩ := skipMessageKeys_getElem? (P := P) seg.dh l.key.2
    (by simpa using hr : (letters.map Letter.key).length ≤ maxSkipKeys)
    (l.key.2 - seg.start.index).toNat seg.start cache
    (by rw [UInt32.toNat_sub_of_le _ _ hl.ge]; have := UInt32.le_iff_toNat_le.mp hl.ge; omega)
    h.cached (fun j hj hj' => h.covers seg hm j hj (UInt32.lt_trans hj' hl.lt))
  by_cases hx : ∃ j, seg.start.index ≤ j ∧ j < l.key.2 ∧ x = (seg.dh, j)
  · obtain ⟨j, hj, hj', rfl⟩ := hx
    rw [hh j hj hj', Option.some.injEq]
    constructor
    · intro he
      exact .inr ⟨j, rfl, hj, hj', he.symm⟩
    · rintro (ho | ⟨j', hj'', -, -, rfl⟩)
      · -- what was cached before lies before the segment
        exact absurd hj (UInt32.not_le.mpr (h.past seg hm j k ho))
      · rw [(Prod.mk.inj hj'').2]
  · rw [hmi x fun j hj hj' he => hx ⟨j, hj, hj', he⟩]
    refine (or_iff_left ?_).symm
    rintro ⟨j, he, hj, hj', -⟩
    exact hx ⟨j, hj, hj', he⟩

/-- **A letter is taken from a segment**: the keys of the messages before it are cached. -/
theorem take {r : List (Segment K)} (h : Lane P cache letters (seg :: r))
    (hr : letters.length ≤ maxSkipKeys) (hi : letters[i]? = some l) (hl : seg.Holds P l) :
    Lane P (skipMessageKeys P seg.dh l.key.2 (l.key.2 - seg.start.index).toNat seg.start cache).2
      (letters.eraseIdx i) (seg.after P l.key.2 :: r) := by
  have hm : seg ∈ seg :: r := List.mem_cons_self
  have hre : ∀ sg ∈ r, sg.dh ≠ seg.dh := fun sg hs he =>
    (List.nodup_cons.mp h.distinct).1 (he ▸ List.mem_map_of_mem hs)
  have hk : ∀ x, x ∈ (letters.eraseIdx i).map Letter.key
      ↔ x ≠ l.key ∧ x ∈ letters.map Letter.key := fun x => mem_keys_eraseIdx h.nodup hi
  have hne : ∀ {d : Arr 32} {n : UInt32}, d ≠ seg.dh ∨ n ≠ l.key.2 → (d, n) ≠ l.key := by
    rintro d n hor he
    rw [hl.key_eq] at he
    exact hor.elim (fun hd => hd (Prod.mk.inj he).1) fun hn => hn (Prod.mk.inj he).2
  have hnx := add_one_le_iff_of_lt hl.lt
  refine ⟨h.nodup_eraseIdx i, fun l' hl' k' hk' => ?_, fun x k' hx => (hk x).mpr ?_,
    fun l' hl' => ?_, fun sg hs n hn hn' => (hk _).mpr ?_, fun sg hs n k' hk' => ?_,
    fun sg hs l' hl' hdh => ?_, h.distinct⟩
  · -- sound
    have hl'' := List.mem_of_mem_eraseIdx hl'
    rcases (h.getElem?_skip hr hl).mp hk' with ho | ⟨j, hj, hge, hlt, rfl⟩
    · exact h.sound l' hl'' k' ho
    · rcases h.reads l' hl'' with ⟨k'', hk''⟩ | ⟨sg, hs, hh⟩
      · exact absurd hge (UInt32.not_le.mpr (h.past seg hm j k'' (hj ▸ hk'')))
      · rcases List.mem_cons.mp hs with rfl | hs
        · have hse := hh.seals
          rw [hj] at hse
          exact hse
        · exact absurd (hh.dh.symm.trans (by rw [hj])) (hre sg hs)
  · -- cached
    rcases (h.getElem?_skip hr hl).mp hx with ho | ⟨j, rfl, hge, hlt, -⟩
    · refine ⟨fun he => ?_, h.cached x k' ho⟩
      have hlt := h.past seg hm l.key.2 k' (hl.key_eq ▸ he ▸ ho)
      exact absurd hl.ge (UInt32.not_le.mpr hlt)
    · exact ⟨hne (.inr (UInt32.ne_of_lt hlt)), h.covers seg hm j hge (UInt32.lt_trans hlt hl.lt)⟩
  · -- reads
    have hl'' := List.mem_of_mem_eraseIdx hl'
    rcases h.reads l' hl'' with ⟨k', hk'⟩ | ⟨sg, hs, hh⟩
    · exact .inl ⟨k', (h.getElem?_skip hr hl).mpr (.inl hk')⟩
    · rcases List.mem_cons.mp hs with rfl | hs
      · by_cases hlt : l'.key.2 < l.key.2
        · exact .inl ⟨_, (h.getElem?_skip hr hl).mpr
            (.inr ⟨l'.key.2, hh.key_eq, hh.ge, hlt, rfl⟩)⟩
        · have hot : l'.key ≠ l.key := ((hk _).mp (List.mem_map_of_mem hl')).1
          have hg : l.key.2 < l'.key.2 := UInt32.lt_of_le_of_ne (UInt32.not_lt.mp hlt)
            fun he => hot (by rw [hh.key_eq, hl.key_eq, he])
          exact .inr ⟨sg.after P l.key.2, List.mem_cons_self, hl.after hh hg⟩
      · exact .inr ⟨sg, List.mem_cons_of_mem _ hs, hh⟩
  · -- covers
    rcases List.mem_cons.mp hs with rfl | hs
    · have hg : l.key.2 < n := (hnx n).mp hn
      exact ⟨hne (.inr (UInt32.ne_of_lt hg).symm),
        h.covers seg hm n (UInt32.le_of_lt (UInt32.lt_of_le_of_lt hl.ge hg)) hn'⟩
    · exact ⟨hne (.inl (hre sg hs)), h.covers sg (List.mem_cons_of_mem _ hs) n hn hn'⟩
  · -- past
    have hc := (h.getElem?_skip hr hl).mp hk'
    rcases List.mem_cons.mp hs with rfl | hs
    · have hlt : n < l.key.2 := by
        rcases hc with ho | ⟨j, hj, -, hlt, -⟩
        · exact UInt32.lt_of_lt_of_le (h.past seg hm n k' ho) hl.ge
        · exact (Prod.mk.inj hj).2 ▸ hlt
      exact UInt32.lt_of_lt_of_le hlt (UInt32.le_of_lt ((hnx _).mp UInt32.le_rfl))
    · rcases hc with ho | ⟨j, hj, -⟩
      · exact h.past sg (List.mem_cons_of_mem _ hs) n k' ho
      · exact absurd (Prod.mk.inj hj).1 (hre sg hs)
  · -- below
    have hl'' := List.mem_of_mem_eraseIdx hl'
    rcases List.mem_cons.mp hs with rfl | hs
    · exact h.below seg hm l' hl'' hdh
    · exact h.below sg (List.mem_cons_of_mem _ hs) l' hl'' hdh

theorem dh_ne_last (h : Lane P cache letters (segs ++ [seg])) : ∀ sg ∈ segs, sg.dh ≠ seg.dh := by
  intro sg hs he
  have hn := h.distinct
  rw [List.map_append, List.nodup_append] at hn
  exact hn.2.2 _ (List.mem_map_of_mem hs) _ (by simp) he

/-- **A letter is sent** with the chain that continues the last segment. -/
theorem send {c : Chain K} (h : Lane P cache letters (segs ++ [seg])) (hf : seg.Feeds P c)
    (hc : c.index < c.index + 1) (hk : l.key = (seg.dh, c.index))
    (hse : l.SealedWith P (messageKey P c.chainKey)) :
    Lane P cache (letters ++ [l]) (segs ++ [{ seg with stop := c.index + 1 }]) := by
  have hm : seg ∈ segs ++ [seg] := by simp
  have ho : ∀ sg ∈ segs, sg ∈ segs ++ [seg] := fun sg hs => List.mem_append_left _ hs
  have hca : ∀ {n : UInt32}, n < c.index + 1 → n < c.index ∨ n = c.index := by
    intro n hn
    refine UInt32.le_iff_lt_or_eq.mp (UInt32.not_lt.mp fun hl => ?_)
    exact absurd hn (UInt32.not_lt.mpr ((add_one_le_iff_of_lt hc n).mpr hl))
  refine ⟨?_, fun l' hl' k' hk' => ?_, fun x k' hx => ?_, fun l' hl' => ?_,
    fun sg hs n hn hn' => ?_, fun sg hs n k' hk' => ?_, fun sg hs l' hl' hd => ?_, ?_⟩
  · -- nodup: the sender has not used the number before
    rw [List.map_append, List.nodup_append]
    refine ⟨h.nodup, by simp, fun a ha b hb he => ?_⟩
    obtain ⟨l', hl', rfl⟩ := List.mem_map.mp ha
    obtain rfl : b = l.key := by simpa using hb
    rw [hk] at he
    have hl := h.below seg hm l' hl' (by rw [he])
    rw [hf.stop, he] at hl
    exact UInt32.lt_irrefl _ hl
  · -- sound
    rcases List.mem_append.mp hl' with hl' | hl'
    · exact h.sound l' hl' k' hk'
    · obtain rfl := List.mem_singleton.mp hl'
      rw [hk] at hk'
      exact absurd hf.le (UInt32.not_le.mpr (h.past seg hm _ k' hk'))
  · -- cached
    rw [List.map_append]
    exact List.mem_append_left _ (h.cached x k' hx)
  · -- reads
    rcases List.mem_append.mp hl' with hl' | hl'
    · rcases h.reads l' hl' with hk' | ⟨sg, hs, hh⟩
      · exact .inl hk'
      · rcases mem_concat.mp hs with hs | rfl
        · exact .inr ⟨sg, List.mem_append_left _ hs, hh⟩
        · refine .inr ⟨_, List.mem_append_right _ List.mem_cons_self, hh.dh, hh.ge, ?_,
            hh.seals⟩
          exact UInt32.lt_trans (hf.stop ▸ hh.lt) hc
    · obtain rfl := List.mem_singleton.mp hl'
      refine .inr ⟨_, List.mem_append_right _ List.mem_cons_self, by rw [hk], ?_, ?_, ?_⟩
      · rw [hk]
        exact hf.le
      · rw [hk]
        exact hc
      · rw [hk, ← hf.chain]
        exact hse
  · -- covers
    rw [List.map_append]
    rcases mem_concat.mp hs with hs | rfl
    · exact List.mem_append_left _ (h.covers sg (ho sg hs) n hn hn')
    · rcases hca hn' with hl | rfl
      · exact List.mem_append_left _ (h.covers seg hm n hn (hf.stop ▸ hl))
      · exact List.mem_append_right _ (by simp [hk])
  · -- past
    rcases mem_concat.mp hs with hs | rfl
    · exact h.past sg (ho sg hs) n k' hk'
    · exact h.past seg hm n k' hk'
  · -- below
    rcases mem_concat.mp hs with hs | rfl
    · rcases List.mem_append.mp hl' with hl' | hl'
      · exact h.below sg (ho sg hs) l' hl' hd
      · obtain rfl := List.mem_singleton.mp hl'
        rw [hk] at hd
        exact absurd hd.symm (h.dh_ne_last sg hs)
    · rcases List.mem_append.mp hl' with hl' | hl'
      · exact UInt32.lt_trans (hf.stop ▸ h.below seg hm l' hl' hd) hc
      · obtain rfl := List.mem_singleton.mp hl'
        rw [hk]
        exact hc
  · simpa using h.distinct

/-- **A new chain is opened** under a ratchet key that no letter carries. -/
theorem openSegment (h : Lane P cache letters segs) {d : Arr 32} {ck : K}
    (hl : ∀ l ∈ letters, l.key.1 ≠ d) (hse : ∀ sg ∈ segs, sg.dh ≠ d) :
    Lane P cache letters (segs ++ [⟨d, Chain.new ck, 0⟩]) := by
  have hc : ∀ {sg : Segment K}, sg ∈ segs ++ [⟨d, Chain.new ck, 0⟩] →
      sg ∈ segs ∨ sg = ⟨d, Chain.new ck, 0⟩ := by
    intro sg hs
    simpa using hs
  refine ⟨h.nodup, h.sound, h.cached, fun l' hl' => ?_, fun sg hs n hn hn' => ?_,
    fun sg hs n k' hk' => ?_, fun sg hs l' hl' hd => ?_, ?_⟩
  · exact (h.reads l' hl').imp_right fun ⟨sg, hs, hh⟩ =>
      ⟨sg, List.mem_append_left _ hs, hh⟩
  · rcases hc hs with hs | rfl
    · exact h.covers sg hs n hn hn'
    · exact absurd hn' (UInt32.not_lt.mpr hn)
  · rcases hc hs with hs | rfl
    · exact h.past sg hs n k' hk'
    · obtain ⟨l', hl', hk⟩ := List.mem_map.mp (h.cached _ k' hk')
      exact absurd (by rw [hk]) (hl l' hl')
  · rcases hc hs with hs | rfl
    · exact h.below sg hs l' hl' hd
    · exact absurd hd (hl l' hl')
  · rw [List.map_append, List.nodup_append]
    refine ⟨h.distinct, by simp, fun a ha b hb he => ?_⟩
    obtain ⟨sg, hs, rfl⟩ := List.mem_map.mp ha
    obtain rfl : b = d := by simpa using hb
    exact hse sg hs he

/-- **The old chain is used up** when every letter that is not under the last key is cached. -/
theorem settle (h : Lane P cache letters (segs ++ [seg]))
    (ho : ∀ l ∈ letters, l.key.1 = seg.dh ∨ ∃ k, cache[l.key]? = some k) :
    Lane P cache letters [seg] := by
  have hm : ∀ sg ∈ [seg], sg ∈ segs ++ [seg] := fun sg hs => List.mem_append_right _ hs
  refine ⟨h.nodup, h.sound, h.cached, fun l' hl' => ?_, fun sg hs => h.covers sg (hm sg hs),
    fun sg hs => h.past sg (hm sg hs), fun sg hs => h.below sg (hm sg hs), by simp⟩
  rcases h.reads l' hl' with hk' | ⟨sg, hs, hh⟩
  · exact .inl hk'
  · rcases List.mem_append.mp hs with hs | hs
    · refine .inl ((ho l' hl').resolve_left fun hd => ?_)
      exact h.dh_ne_last sg hs (hh.dh.symm.trans hd)
    · exact .inr ⟨sg, hs, hh⟩

end Lane

/-! ## Receiving a letter -/

def Letter.openWith (P : Primitives K) (l : Letter) (rng : Nat → Arr 32) (s : RatchetSession K) :
    Except String Bytes × RatchetSession K :=
  s.decrypt P rng l.sealed.ourDhPublic.1 l.sealed.messageNumber l.sealed.nonce l.sealed.ciphertext
    l.aad

section Receive

variable {s : RatchetSession K} {l : Letter} {k : K}

theorem openWith_accepts (ha : AeadIdeal P) (hk : s.openingKey P l.key.1 l.key.2 = some k)
    (hl : l.SealedWith P k) (rng : Nat → Arr 32) :
    ∃ s', Accepted P s rng l.key.1 l.key.2 k s' ∧ l.openWith P rng s = (.ok l.plaintext, s') := by
  have ho : P.aeadOpen k l.sealed.nonce l.sealed.ciphertext l.aad = some l.plaintext :=
    (ha.open_iff _ _ _ _ _).mpr hl
  rcases decrypt_spec (P := P) s rng l.key.1 l.key.2 l.sealed.nonce l.sealed.ciphertext l.aad with
    ⟨k', p, s', hk', ho', hac, he⟩ | ⟨hn, -⟩
  · obtain rfl : k = k' := Option.some.inj (hk.symm.trans hk')
    obtain rfl : l.plaintext = p := Option.some.inj (ho.symm.trans ho')
    exact ⟨s', hac, he⟩
  · exact absurd ((hn k hk).symm.trans ho) (by simp)

/-- **A letter whose key is cached.** -/
theorem openWith_cached (ha : AeadIdeal P) (hk : s.skippedKeys[l.key]? = some k) (hl : l.SealedWith P k)
    (rng : Nat → Arr 32) :
    l.openWith P rng s = (.ok l.plaintext,
      { s with skippedKeys := s.skippedKeys.erase l.key, peerConfirmed := true }) := by
  have hke : s.openingKey P l.key.1 l.key.2 = some k := by
    simp only [openingKey, Prod.mk.eta, hk]
  obtain ⟨s', hac, he⟩ := openWith_accepts ha hke hl rng
  rw [he]
  cases hac with
  | cached _ => rfl
  | chain c hs _ _ _ => exact absurd (hs.symm.trans hk) (by simp)
  | ratchet hs _ _ => exact absurd (hs.symm.trans hk) (by simp)

theorem Segment.Holds.messageKeyAt {seg : Segment K} (h : seg.Holds P l)
    (hs : (l.key.2 - seg.start.index).toNat ≤ maxSkipKeys) :
    seg.start.messageKeyAt P l.key.2 = some
      (messageKey P ((nextChainKey P)^[(l.key.2 - seg.start.index).toNat] seg.start.chainKey)) := by
  rw [Chain.messageKeyAt, if_neg (UInt32.not_lt.mpr h.ge), if_neg (Nat.not_lt.mpr hs)]

/-- **A letter of the receiving chain.** -/
theorem openWith_chain (ha : AeadIdeal P) {seg : Segment K} (hl : seg.Holds P l)
    (hsk : (l.key.2 - seg.start.index).toNat ≤ maxSkipKeys) (hn : s.skippedKeys[l.key]? = none)
    (hd : s.theirDhPublic = some seg.dh) (hc : s.receivingChain = some seg.start) (rng : Nat → Arr 32) :
    l.openWith P rng s
      = (.ok l.plaintext, { s.takeKey P seg.dh l.key.2 seg.start with peerConfirmed := true }) := by
  have hat := hl.messageKeyAt hsk
  have hd' : s.theirDhPublic = some l.key.1 := hl.dh ▸ hd
  have hk : s.openingKey P l.key.1 l.key.2 = seg.start.messageKeyAt P l.key.2 := by
    simp only [openingKey, Prod.mk.eta, hn, chainFor, hd', if_true, hc, Option.bind_some]
  obtain ⟨s', hac, he⟩ := openWith_accepts ha (hk.trans hat) hl.seals rng
  rw [he]
  cases hac with
  | cached hs => exact absurd (hs.symm.trans hn) (by simp)
  | chain c _ _ hc' _ =>
    obtain rfl := Option.some.inj (hc.symm.trans hc')
    rw [hl.dh]
  | ratchet _ hne _ => exact absurd hd' hne

/-- **A letter under a new ratchet key.** -/
theorem openWith_ratchet (ha : AeadIdeal P) {d : Arr 32} {st : UInt32}
    (hl : (⟨d, Chain.new (s.receivingKeys P d).2, st⟩ : Segment K).Holds P l)
    (hsk : (l.key.2 - 0).toNat ≤ maxSkipKeys) (hn : s.skippedKeys[l.key]? = none)
    (hd : s.theirDhPublic ≠ some d) (rng : Nat → Arr 32) :
    l.openWith P rng s = (.ok l.plaintext, ((s.ratchetTrial P (rng 0) d s.mixedCandidate).takeKey P d
      l.key.2 (Chain.new (s.receivingKeys P d).2)).adoptTrial P s.mixedCandidate) := by
  have hat := hl.messageKeyAt hsk
  have hdh : l.key.1 = d := hl.dh
  have hk : s.openingKey P l.key.1 l.key.2
      = (Chain.new (s.receivingKeys P d).2).messageKeyAt P l.key.2 := by
    simp only [openingKey, Prod.mk.eta, hn]
    simp only [chainFor, hdh, hd, if_false, Option.bind_some]
  obtain ⟨s', hac, he⟩ := openWith_accepts ha (hk.trans hat) hl.seals rng
  rw [he]
  cases hac with
  | cached hs => exact absurd (hs.symm.trans hn) (by simp)
  | chain c _ hd' _ _ => exact absurd (hdh ▸ hd') hd
  | ratchet _ _ _ => rw [hdh]

end Receive

/-! ## Two sessions with letters on their way -/

/-- `x` has made the latest ratchet step; letters to `y` are on the rest of the `old` chain and on the new. -/
structure Leads (P : Primitives K) (x y : RatchetSession K) (toY toX : List Letter) : Prop where
  classicalAhead : x.isPqHybrid = false
  classicalBehind : y.isPqHybrid = false
  ownKey : x.ourDhPublic = P.x25519Public x.ourDhSecret
  noIdentity : x.ourIdentitySecret = none
  unseen : y.theirDhPublic ≠ some x.ourDhPublic
  toBehind : ∃ (ck : K) (c : Chain K) (old : Option (Segment K)),
    y.receivingKeys P x.ourDhPublic = (x.rootKey, ck) ∧ x.sendingChain = some c
      ∧ Segment.Feeds P ⟨x.ourDhPublic, Chain.new ck, c.index⟩ c
      ∧ (∀ seg ∈ old, y.theirDhPublic = some seg.dh ∧ y.receivingChain = some seg.start)
      ∧ Lane P y.skippedKeys toY (old.toList ++ [⟨x.ourDhPublic, Chain.new ck, c.index⟩])
  toAhead : (y.sendingChain = none ∧ toX = [] ∧ x.skippedKeys = ∅)
    ∨ ∃ (start c : Chain K), x.theirDhPublic = some y.ourDhPublic ∧ x.receivingChain = some start
      ∧ y.sendingChain = some c ∧ Segment.Feeds P ⟨y.ourDhPublic, start, c.index⟩ c
      ∧ Lane P x.skippedKeys toX [⟨y.ourDhPublic, start, c.index⟩]

theorem Segment.Feeds.send {d : Arr 32} {st c : Chain K} (h : Segment.Feeds P ⟨d, st, c.index⟩ c)
    (hc : c.index < c.index + 1) :
    Segment.Feeds P ⟨d, st, (c.nextMessageKey P).2.index⟩ (c.nextMessageKey P).2 where
  stop := rfl
  le := UInt32.le_trans h.le (UInt32.le_of_lt hc)
  chain := by
    have hl := UInt32.le_trans h.le (UInt32.le_of_lt hc)
    have hs : (c.index + 1 - st.index).toNat = (c.index - st.index).toNat + 1 := by
      rw [UInt32.toNat_sub_of_le _ _ hl, UInt32.toNat_sub_of_le _ _ h.le, toNat_add_one_of_lt hc]
      have := UInt32.le_iff_toNat_le.mp h.le
      omega
    have hch := h.chain
    simp only [Chain.nextMessageKey] at hch ⊢
    rw [hs, Function.iterate_succ_apply', ← hch]

theorem Segment.Feeds.after {seg : Segment K} {c : Chain K} (h : seg.Feeds P c) {l : Letter}
    (hl : seg.Holds P l) : (seg.after P l.key.2).Feeds P c where
  stop := h.stop
  le := by
    have hlt : l.key.2 < c.index := h.stop ▸ hl.lt
    exact (add_one_le_iff_of_lt hlt c.index).mpr hlt
  chain := by
    have hlt : l.key.2 < c.index := h.stop ▸ hl.lt
    exact h.chain.trans (iterate_after hl.ge hlt).symm

namespace Leads

variable {x y : RatchetSession K} {toY toX : List Letter} {c : Chain K} {l : Letter} {i : Nat}

theorem sendAhead (h : Leads P x y toY toX) (hc : x.sendingChain = some c) (hlt : c.index < c.index + 1)
    (hk : l.key = (x.ourDhPublic, c.index)) (hs : l.SealedWith P (messageKey P c.chainKey)) :
    Leads P (x.afterSend P c) y (toY ++ [l]) toX := by
  obtain ⟨ck, c', old, hke, hc', hf, ho, hl⟩ := h.toBehind
  obtain rfl := Option.some.inj (hc.symm.trans hc')
  exact { h with
    toBehind := ⟨ck, _, old, hke, rfl, hf.send hlt, ho, hl.send hf hlt hk hs⟩ }

theorem sendBehind (h : Leads P x y toY toX) (hc : y.sendingChain = some c) (hlt : c.index < c.index + 1)
    (hk : l.key = (y.ourDhPublic, c.index)) (hs : l.SealedWith P (messageKey P c.chainKey)) :
    Leads P x (y.afterSend P c) toY (toX ++ [l]) := by
  obtain ⟨start, c', hd, hr, hc', hf, hl⟩ := h.toAhead.resolve_left
    fun hn => by simp [hc] at hn
  obtain rfl := Option.some.inj (hc.symm.trans hc')
  have hl' : Lane P x.skippedKeys toX ([] ++ [⟨y.ourDhPublic, start, c.index⟩]) := hl
  exact { h with
    toAhead := .inr ⟨start, _, hd, hr, rfl, hf.send hlt, hl'.send hf hlt hk hs⟩ }

/-- **The side ahead receives**, in any order. -/
theorem receiveAhead (ha : AeadIdeal P) (h : Leads P x y toY toX) (hro : toX.length ≤ maxSkipKeys)
    (hi : toX[i]? = some l) (rng : Nat → Arr 32) :
    ∃ x', l.openWith P rng x = (.ok l.plaintext, x') ∧ Leads P x' y toY (toX.eraseIdx i) := by
  have hm := List.mem_of_getElem? hi
  obtain ⟨start, c, hd, hr, hc, hf, hl⟩ := h.toAhead.resolve_left
    fun hn => by simp [hn.2.1] at hm
  cases hca : x.skippedKeys[l.key]? with
  | some k =>
    refine ⟨_, openWith_cached ha hca (hl.sound l hm k hca) rng, { h with
      toAhead := .inr ⟨start, c, hd, hr, hc, hf, hl.dropCached hi hca⟩ }⟩
  | none =>
    obtain ⟨seg, hs, hh⟩ := (hl.reads l hm).resolve_left
      fun ⟨k, hk⟩ => by simp [hca] at hk
    obtain rfl := List.mem_singleton.mp hs
    have hsk := (hl.skip_lt hs hh).le.trans hro
    exact ⟨_, openWith_chain ha hh hsk hca hd hr rng, { h with
      toAhead := .inr ⟨_, c, hd, rfl, hc, hf.after hh, hl.take hro hi hh⟩ }⟩

/-- The side behind receives a letter of the new chain when the old one is used up, and is ahead. -/
theorem turn (hdc : DhCommutes P) (ha : AeadIdeal P) (h : Leads P x y toY toX)
    (hro : toY.length ≤ maxSkipKeys) (hi : toY[i]? = some l) (hno : y.skippedKeys[l.key]? = none)
    (hd : l.key.1 = x.ourDhPublic)
    (ho : ∀ l' ∈ toY, l'.key.1 = l.key.1 ∨ ∃ k, y.skippedKeys[l'.key]? = some k) {rng : Nat → Arr 32}
    (hf : x.theirDhPublic ≠ some (P.x25519Public (rng 0)))
    (hl : ∀ l' ∈ toX, l'.key.1 ≠ P.x25519Public (rng 0))
    (how : y.ourDhPublic ≠ P.x25519Public (rng 0)) :
    ∃ y', l.openWith P rng y = (.ok l.plaintext, y') ∧ Leads P y' x toX (toY.eraseIdx i) := by
  have hm := List.mem_of_getElem? hi
  obtain ⟨ck, c, old, hk, hc, hfe, -, hln⟩ := h.toBehind
  obtain rfl : (y.receivingKeys P x.ourDhPublic).2 = ck := congrArg Prod.snd hk
  -- every letter that is not of the new chain is cached, so the old segment can go
  have hla' := hln.settle fun l' hl' => (ho l' hl').imp_left fun heq => heq.trans hd
  have hu : ¬ ∃ k, y.skippedKeys[l.key]? = some k := by simp [hno]
  obtain ⟨seg, hs, hh⟩ := (hla'.reads l hm).resolve_left hu
  obtain rfl := List.mem_singleton.mp hs
  have hsp := (hla'.skip_lt hs hh).le.trans hro
  refine ⟨_, openWith_ratchet ha hh hsp hno h.unseen rng, ?_⟩
  -- both sides compute the step towards the new key from the root they share
  have hr : x.receivingKeys P (P.x25519Public (rng 0))
      = y.rootStep P (y.receivingKeys P x.ourDhPublic).1
          (P.diffieHellman (rng 0) x.ourDhPublic) y.mixedCandidate := by
    rw [congrArg Prod.fst hk, receivingKeys, firstDhSecret, h.noIdentity, Option.getD_none,
      rootStep_classical h.classicalAhead, rootStep_classical h.classicalBehind, h.ownKey,
      hdc (rng 0) x.ourDhSecret]
  refine {
    classicalAhead := h.classicalBehind
    classicalBehind := h.classicalAhead
    ownKey := rfl
    noIdentity := rfl
    unseen := hf
    toBehind := ?_
    toAhead := .inr ⟨_, c, rfl, rfl, hc, hfe.after hh, hla'.take hro hi hh⟩ }
  have hn : ∀ ck : K, Segment.Feeds P ⟨P.x25519Public (rng 0), Chain.new ck, 0⟩ (Chain.new ck) :=
    fun ck => ⟨rfl, UInt32.le_rfl, by simp [Chain.new]⟩
  rcases h.toAhead with ⟨-, rfl, hsk⟩ | ⟨start, c', hdh, hre, -, -, hla⟩
  · -- the side that turns has sent nothing before
    have he : Lane P x.skippedKeys [] [] := by
      rw [hsk]
      exact ⟨by simp, by simp, by simp, by simp, by simp, by simp, by simp, by simp⟩
    exact ⟨_, _, none, hr, rfl, hn _, by simp, he.openSegment (by simp) (by simp)⟩
  · refine ⟨_, _, some ⟨y.ourDhPublic, start, c'.index⟩, hr, rfl, hn _, fun seg hs => ?_,
      hla.openSegment hl fun seg hs => ?_⟩
    · obtain rfl := Option.some.inj hs
      exact ⟨hdh, hre⟩
    · obtain rfl := List.mem_singleton.mp hs
      exact how

/-- **The side behind receives**, in any order within a chain. -/
theorem receiveBehind (hdc : DhCommutes P) (ha : AeadIdeal P) (h : Leads P x y toY toX)
    (hro : toY.length ≤ maxSkipKeys) (hi : toY[i]? = some l)
    (ht : y.theirDhPublic = some l.key.1 ∨ (∃ k, y.skippedKeys[l.key]? = some k)
      ∨ ∀ l' ∈ toY, l'.key.1 = l.key.1 ∨ ∃ k, y.skippedKeys[l'.key]? = some k)
    {rng : Nat → Arr 32} (hfr : x.theirDhPublic ≠ some (P.x25519Public (rng 0)))
    (hle : ∀ l' ∈ toX, l'.key.1 ≠ P.x25519Public (rng 0))
    (how : y.ourDhPublic ≠ P.x25519Public (rng 0)) :
    ∃ y', l.openWith P rng y = (.ok l.plaintext, y')
      ∧ (Leads P x y' (toY.eraseIdx i) toX ∨ Leads P y' x toX (toY.eraseIdx i)) := by
  have hm := List.mem_of_getElem? hi
  obtain ⟨ck, c, old, hke, hc, hf, ho, hl⟩ := h.toBehind
  cases hca : y.skippedKeys[l.key]? with
  | some k =>
    exact ⟨_, openWith_cached ha hca (hl.sound l hm k hca) rng, .inl { h with
      toBehind := ⟨ck, c, old, hke, hc, hf, ho, hl.dropCached hi hca⟩ }⟩
  | none =>
    obtain ⟨seg, hs, hh⟩ := (hl.reads l hm).resolve_left
      fun ⟨k, hk⟩ => by simp [hca] at hk
    have hsk := (hl.skip_lt hs hh).le.trans hro
    rcases mem_concat.mp hs with hs | rfl
    · -- a letter of the chain the receiver knows
      obtain rfl := Option.mem_toList.mp hs
      obtain ⟨hdh, hr⟩ := ho seg rfl
      refine ⟨_, openWith_chain ha hh hsk hca hdh hr rng, .inl { h with
        toBehind := ⟨ck, c, some (seg.after P l.key.2), hke, hc, hf, fun sg hsg => ?_,
          hl.take hro hi hh⟩ }⟩
      obtain rfl := Option.some.inj hsg
      exact ⟨hdh, rfl⟩
    · have hd : l.key.1 = x.ourDhPublic := hh.dh
      rcases ht with hkn | ⟨k, hk⟩ | hal
      · exact absurd (hd ▸ hkn) h.unseen
      · simp [hca] at hk
      · obtain ⟨y', hop, hld⟩ := h.turn hdc ha hro hi hca hd hal hfr hle how
        exact ⟨y', hop, .inr hld⟩

end Leads

/-! ## The conversation -/

def Together (P : Primitives K) (x y : RatchetSession K) (toY toX : List Letter) : Prop :=
  Leads P x y toY toX ∨ Leads P y x toX toY

theorem together_sides {se : Side → RatchetSession K} {f : Side → List Letter} (z : Side)
    (h : Together P (se z) (se z.other) (f z) (f z.other)) (si : Side) :
    Together P (se si) (se si.other) (f si) (f si.other) := by
  rcases si.eq_or_other z with rfl | rfl
  · exact h
  · rw [Side.other_other]
    exact h.symm

def Letter.CachedAt (l : Letter) (s : RatchetSession K) : Prop :=
  (s.skippedKeys[l.key]?).isSome = true

def FewInFlight (d : Dialogue K) : Prop :=
  (d.flight .initiator).length ≤ maxSkipKeys ∧ (d.flight .responder).length ≤ maxSkipKeys

/-- No counter wraps, and a message under a new key arrives only when no other key is missing. -/
def Timely (d : Dialogue K) : DialogueEvent → Prop
  | .send side _ _ _ => ∀ c ∈ (d.session side).sendingChain, c.index < c.index + 1
  | .deliver sender i _ => ∀ l ∈ (d.flight sender)[i]?,
    (d.session sender.other).theirDhPublic = some l.key.1 ∨ l.CachedAt (d.session sender.other)
      ∨ ∀ l' ∈ d.flight sender, l'.key.1 = l.key.1 ∨ l'.CachedAt (d.session sender.other)

instance (d : Dialogue K) : Decidable (FewInFlight d) := inferInstanceAs (Decidable (_ ∧ _))

instance (l : Letter) (s : RatchetSession K) : Decidable (l.CachedAt s) :=
  inferInstanceAs (Decidable (_ = true))

instance (d : Dialogue K) : ∀ event, Decidable (Timely d event)
  | .send _ _ _ _ => inferInstanceAs (Decidable (∀ c ∈ _, _))
  | .deliver _ _ _ => inferInstanceAs (Decidable (∀ l ∈ _, _))

theorem FewInFlight.length_le {d : Dialogue K} (h : FewInFlight d) (si : Side) :
    (d.flight si).length ≤ maxSkipKeys := by
  cases si with
  | initiator => exact h.1
  | responder => exact h.2

/-- The sessions belong together with what is on its way, and every delivery gave what was sent. -/
structure DisorderInv (P : Primitives K) (d : Dialogue K) : Prop where
  together : ∀ side, Together P (d.session side) (d.session side.other) (d.flight side)
    (d.flight side.other)
  delivered : ∀ entry ∈ d.log, entry.2 = .ok entry.1

namespace DisorderInv

variable {d : Dialogue K} {z : Side}

/-- **A send keeps the invariant.** -/
theorem send (h : DisorderInv P d) (N : Arr 24) (p aad : Bytes) (ht : Timely d (.send z N p aad)) :
    DisorderInv P (d.step P (.send z N p aad)) := by
  rcases encrypt_cases (P := P) (d.session z) N p aad with ⟨c, hc, he⟩ | ⟨e, he⟩
  · have ho := z.other_ne
    have hl := ht c hc
    simp only [Dialogue.step, he]
    refine ⟨together_sides z ?_, h.delivered⟩
    simp only [Function.update_self, ne_eq, ho, not_false_eq_true, Function.update_of_ne]
    rcases h.together z with ha | hb
    · exact .inl (ha.sendAhead hc hl rfl rfl)
    · exact .inr (hb.sendBehind hc hl rfl rfl)
  · simpa only [Dialogue.step, he, Function.update_eq_self] using h

/-- **A delivery keeps the invariant**, whichever message arrives. -/
theorem deliver (hd : DhCommutes P) (ha : AeadIdeal P) (h : DisorderInv P d) (hfe : FewInFlight d)
    {i : Nat} {rng : Nat → Arr 32} (hti : Timely d (.deliver z i rng)) {se : List (Arr 32)}
    (hs : KeysSeen se d) (hf : P.x25519Public (rng 0) ∉ se) :
    DisorderInv P (d.step P (.deliver z i rng)) := by
  cases hi : (d.flight z)[i]? with
  | none => simpa only [Dialogue.step, hi] using h
  | some l =>
  have ho : ∃ y', l.openWith P rng (d.session z.other) = (.ok l.plaintext, y')
      ∧ Together P (d.session z) y' ((d.flight z).eraseIdx i) (d.flight z.other) := by
    rcases h.together z with hah | hb
    · have ht' := hti l hi
      simp only [Letter.CachedAt, Option.isSome_iff_exists] at ht'
      exact hah.receiveBehind hd ha (hfe.length_le z) hi ht'
        (fun he => hf (hs.their z _ he))
        (fun l' hl' he => hf (he ▸ hs.flight z.other l' hl'))
        (fun he => hf (he ▸ hs.own z.other))
    · obtain ⟨y', ho, hl⟩ := hb.receiveAhead ha (hfe.length_le z) hi rng
      exact ⟨y', ho, .inr hl⟩
  obtain ⟨y', ho, ht⟩ := ho
  have hde : (d.session z.other).decrypt P rng l.sealed.ourDhPublic.1 l.sealed.messageNumber
      l.sealed.nonce l.sealed.ciphertext l.aad = (.ok l.plaintext, y') := ho
  have hot := z.other_ne
  simp only [Dialogue.step, hi, hde]
  refine ⟨together_sides z ?_, fun entry hen => ?_⟩
  · simpa [hot, hot.symm] using ht
  · rcases mem_concat.mp hen with hol | rfl
    · exact h.delivered entry hol
    · rfl

theorem start (hd : DhCommutes P) (a b x y : Arr 32) :
    DisorderInv P (Dialogue.start P a b x y) where
  together := by
    refine together_sides .initiator (.inl {
      classicalAhead := rfl
      classicalBehind := rfl
      ownKey := rfl
      noIdentity := rfl
      unseen := nofun
      toBehind := ?_
      toAhead := .inl ⟨rfl, rfl, rfl⟩ })
    have he : Lane P (∅ : SkippedKeys K) [] [] :=
      ⟨by simp, by simp, by simp, by simp, by simp, by simp, by simp, by simp⟩
    refine ⟨_, _, none, start_receivingKeys hd a b x y, rfl, ⟨rfl, UInt32.le_rfl, by simp [Chain.new]⟩,
      nofun, he.openSegment (by simp) (by simp)⟩
  delivered := by simp [Dialogue.start]

end DisorderInv

def overtaking : List DialogueEvent :=
  [.send .initiator (Arr.fit 24 [1]) [1] [], .send .initiator (Arr.fit 24 [2]) [2] [],
    .deliver .initiator 1 fun _ => Arr.fit 32 [11], .deliver .initiator 0 fun _ => Arr.fit 32 [12]]

/-- The initiator's second message arrives after its first message under the next key. -/
def lateMessage : List DialogueEvent :=
  [.send .initiator (Arr.fit 24 [1]) [1] [], .send .initiator (Arr.fit 24 [2]) [2] [],
    .deliver .initiator 0 fun _ => Arr.fit 32 [11], .send .responder (Arr.fit 24 [3]) [3] [],
    .deliver .responder 0 fun _ => Arr.fit 32 [12], .send .initiator (Arr.fit 24 [4]) [4] [],
    .deliver .initiator 1 fun _ => Arr.fit 32 [13], .deliver .initiator 0 fun _ => Arr.fit 32 [14]]

def sampleOpening : Dialogue Term :=
  Dialogue.start termPrimitives alice.signingKey bob.signingKey (Arr.fit 32 [7]) (Arr.fit 32 [8])

/-- **Out-of-order tolerance**: in every timely run with few messages undelivered, every delivery is right. -/
theorem disorder_delivers (hdh : DhCommutes P) (haead : AeadIdeal P)
    (initiatorKey responderKey initiatorSecret responderSecret : Arr 32)
    (events : List DialogueEvent)
    (hfresh : FreshDraws P responderKey initiatorSecret responderSecret events)
    (hguard : Guarded (fun d event => FewInFlight d ∧ Timely d event) (Dialogue.step P)
      (Dialogue.start P initiatorKey responderKey initiatorSecret responderSecret) events) :
    ∀ entry ∈ (events.foldl (Dialogue.step P) (Dialogue.start P initiatorKey responderKey
      initiatorSecret responderSecret)).log, entry.2 = .ok entry.1 := by
  have hr := hguard.invariant_fresh (DialogueEvent.drawn P)
    (fun seen d => KeysSeen seen d ∧ DisorderInv P d) hfresh (fun seen d event hd hg hn => ?_)
    ⟨keysSeen_start _ _ _ _, .start hdh _ _ _ _⟩
  · exact hr.2.delivered
  · obtain ⟨hs, hi⟩ := hd
    refine ⟨hs.step event, ?_⟩
    cases event with
    | send z N p aad => exact hi.send N p aad hg.2
    | deliver z i rng =>
      refine hi.deliver hdh haead hg.1 hg.2 hs fun hm => ?_
      exact (List.nodup_append.mp hn).2.2 _ hm _ List.mem_cons_self rfl

theorem overtaking_delivers :
    FreshDraws termPrimitives bob.signingKey (Arr.fit 32 [7]) (Arr.fit 32 [8]) overtaking
      ∧ ∀ entry ∈ (overtaking.foldl (Dialogue.step termPrimitives) sampleOpening).log,
        entry.2 = .ok entry.1 := by
  have hf : FreshDraws termPrimitives bob.signingKey (Arr.fit 32 [7]) (Arr.fit 32 [8])
      overtaking := by decide
  have hg : Guarded (fun d e => FewInFlight d ∧ Timely d e)
      (Dialogue.step termPrimitives) sampleOpening overtaking := by decide +kernel
  exact ⟨hf, disorder_delivers termDh.comm termAead alice.signingKey bob.signingKey
    (Arr.fit 32 [7]) (Arr.fit 32 [8]) overtaking hf hg⟩

/-- Every message arrives once, and the late one does not decrypt. -/
theorem late_message_lost :
    (lateMessage.foldl (Dialogue.step termPrimitives) sampleOpening).log.map
        (fun entry => (entry.1, entry.2.toOption))
      = [([1], some [1]), ([3], some [3]), ([4], some [4]), ([2], none)]
      ∧ Guarded (fun d _ => FewInFlight d) (Dialogue.step termPrimitives) sampleOpening
        lateMessage := by
  decide +kernel

end SCMessenger
