import SCMessenger.Drift.Sketch
import SCMessenger.Lib.Pointwise

/-!
# Differences of sketches

A table is known from its weights and sums, so the difference of two depends on the differences of the sets
only.
-/

namespace SCMessenger

namespace IBLT

open Peeling

variable {hash : CellHash} {n : Nat} {cells cells' : List IBLTCell} {x : Nat → Int} {y : Nat → Arr 16}

/-! ## Check values -/

theorem check_xor (a b : Arr 16) : IBLTCell.check (a.xor b) = IBLTCell.check a ^^^ IBLTCell.check b := by
  have hl : (a.1.take 4).length = (b.1.take 4).length := by simp [a.2, b.2]
  simp only [IBLTCell.check, Arr.xor]
  rw [List.take_zipWith, leNat_zipWith_xor _ _ hl, UInt32.ofNat_xor]

def Checked (cells : List IBLTCell) : Prop := ∀ c ∈ cells, c.keyCheck = IBLTCell.check c.keySum

theorem checked_replicate (m : Nat) : Checked (List.replicate m .new) := by
  intro c hc
  rw [List.eq_of_mem_replicate hc]
  rfl

theorem Checked.modify (h : Checked cells) (s : Int) (key : Arr 16) (i : Nat) :
    Checked (cells.modify i (.put s key)) := by
  intro c hc
  obtain ⟨j, hj⟩ := List.mem_iff_getElem?.mp hc
  rw [List.getElem?_modify] at hj
  obtain ⟨d, hd, rfl⟩ := Option.map_eq_some_iff.mp hj
  have hch := h d (List.mem_of_getElem? hd)
  by_cases hi : i = j
  · simp [hi, IBLTCell.put, IBLTCell.xorIn, hch, check_xor]
  · simpa [hi] using hch

theorem Checked.touch (h : Checked cells) (s : Int) (key : Arr 16) :
    Checked (touch hash n key (.put s key) cells) := by
  unfold IBLT.touch
  generalize List.range hashCount = p
  induction p generalizing cells with
  | nil => exact h
  | cons i p ih => exact ih (h.modify s key _)

theorem Checked.ofKeys (k : List (Arr 16)) {t : IBLT} (h : Checked t.cells) :
    Checked (ofKeys hash t k).cells := by
  induction k generalizing t with
  | nil => exact h
  | cons key k ih => exact ih (h.touch 1 key)

theorem Checked.zipWith_subCell (h : Checked cells) (h' : Checked cells') :
    Checked (List.zipWith subCell cells cells') := by
  intro c hc
  obtain ⟨j, hj⟩ := List.mem_iff_getElem?.mp hc
  rw [List.getElem?_zipWith] at hj
  split at hj
  case h_1 u v hu hv =>
    cases hj
    simp [subCell, check_xor, h u (List.mem_of_getElem? hu), h' v (List.mem_of_getElem? hv)]
  case h_2 => cases hj

theorem eq_of_holds (hl : cells.length = cells'.length) (h : Holds cells x y) (h' : Holds cells' x y)
    (hch : Checked cells) (hch' : Checked cells') : cells = cells' := by
  apply List.ext_getElem hl
  intro j hj hj'
  obtain ⟨hco, hs⟩ := h j _ (List.getElem?_eq_getElem hj)
  obtain ⟨hco', hs'⟩ := h' j _ (List.getElem?_eq_getElem hj')
  have hc := hch _ (List.getElem_mem hj)
  have hc' := hch' _ (List.getElem_mem hj')
  rw [hs, ← hs', ← hc'] at hc
  generalize cells[j] = c at *
  generalize cells'[j] = c' at *
  obtain ⟨count, sum, check⟩ := c
  obtain ⟨co', sum', ch'⟩ := c'
  simp_all

/-! ## Tables of sets -/

theorem subtract_of_size {a b : IBLT} (hp : 0 < a.numCells) (hs : a.numCells = b.numCells) :
    a.subtract b = .ok ⟨List.zipWith subCell a.cells b.cells⟩ := by
  have hd : (withCells a.numCells).cells.drop a.numCells = [] := by
    apply List.drop_eq_nil_of_le
    simp only [withCells, List.length_replicate]
    omega
  rw [subtract, if_neg (not_not.mpr hs), hd, List.append_nil]

theorem only_perm {A B A' B' : List (Arr 16)} (hA : A.Nodup) (hA' : A'.Nodup)
    (h : A.toFinset \ B.toFinset = A'.toFinset \ B'.toFinset) : List.Perm (only A B) (only A' B') := by
  rw [List.perm_ext_iff_of_nodup (nodup_only hA) (nodup_only hA')]
  intro k
  have hk := Finset.ext_iff.mp h k
  simpa [mem_only] using hk

/-- The difference of two tables shows what only one of the sets has. -/
theorem holds_difference (hash : CellHash) (m : Nat) {A B : List (Arr 16)} (hA : A.Nodup) (hB : B.Nodup) :
    ∃ t, (ofKeys hash (withCells m) A).subtract (ofKeys hash (withCells m) B) = .ok t
      ∧ t.cells.length = (withCells m).numCells ∧ Checked t.cells
      ∧ Holds t.cells
          (fun j => weight (mult hash (withCells m).numCells) (only A B) j
            - weight (mult hash (withCells m).numCells) (only B A) j)
          (fun j => total (mult hash (withCells m).numCells) (only A B) j
            + total (mult hash (withCells m).numCells) (only B A) j) := by
  have hn : ∀ keys, (ofKeys hash (withCells m) keys).numCells = (withCells m).numCells :=
    fun keys => numCells_ofKeys _ _ _
  have hp : 0 < (ofKeys hash (withCells m) A).numCells := hn A ▸ numCells_withCells_pos m
  have hs := subtract_of_size hp ((hn A).trans (hn B).symm)
  obtain ⟨hl, hh⟩ := holds_subtract (shows_ofKeys m A) (shows_ofKeys m B) hp hs
  refine ⟨_, hs, hl.trans (hn A), ?_, ?_⟩
  · exact Checked.zipWith_subCell (Checked.ofKeys A (checked_replicate _))
      (Checked.ofKeys B (checked_replicate _))
  · rw [hn, hn] at hh
    convert hh using 1
    · funext j
      rw [weight_sub_weight hA hB]
    · funext j
      rw [total_add_total Arr.add_self hA hB]

/-- **The difference of two sketches depends on the differences of the sets only.** -/
theorem subtract_eq_of_same_difference (hash : CellHash) (m : Nat) {A B A' B' : List (Arr 16)}
    (hA : A.Nodup) (hB : B.Nodup) (hA' : A'.Nodup) (hB' : B'.Nodup)
    (hleft : A.toFinset \ B.toFinset = A'.toFinset \ B'.toFinset)
    (hright : B.toFinset \ A.toFinset = B'.toFinset \ A'.toFinset) :
    ∃ t, (ofKeys hash (withCells m) A).subtract (ofKeys hash (withCells m) B) = .ok t
      ∧ (ofKeys hash (withCells m) A').subtract (ofKeys hash (withCells m) B') = .ok t := by
  obtain ⟨t, hs, hle, hc, hh⟩ := holds_difference hash m hA hB
  obtain ⟨t', hs', hl', hc', hh'⟩ := holds_difference hash m hA' hB'
  have hl := only_perm hA hA' hleft
  have hr := only_perm hB hB' hright
  simp only [weight_perm _ _ hl, weight_perm _ _ hr, total_perm _ _ hl, total_perm _ _ hr] at hh
  have hce : t.cells = t'.cells := eq_of_holds (hle.trans hl'.symm) hh hh' hc hc'
  obtain ⟨cells⟩ := t
  obtain ⟨cells'⟩ := t'
  cases hce
  exact ⟨_, hs, hs'⟩

/-- Two pairs of sets that share something, and the pair of what they do not share. -/
theorem subtract_eq_sample :
    ∃ t, (ofKeys sampleHash (withCells 6) [Arr.fit 16 [1], Arr.fit 16 [2], Arr.fit 16 [9]]).subtract
          (ofKeys sampleHash (withCells 6) [Arr.fit 16 [9], Arr.fit 16 [4]]) = .ok t
      ∧ (ofKeys sampleHash (withCells 6) [Arr.fit 16 [2], Arr.fit 16 [1]]).subtract
          (ofKeys sampleHash (withCells 6) [Arr.fit 16 [4]]) = .ok t :=
  subtract_eq_of_same_difference sampleHash 6 (by decide) (by decide) (by decide) (by decide) (by decide)
    (by decide)

/-! ## The other way around -/

/-- Two cells with opposite counts, and otherwise the same. -/
structure Opposite (c d : IBLTCell) : Prop where
  left : c.count = i32 (-d.count)
  right : d.count = i32 (-c.count)
  keySum : c.keySum = d.keySum
  keyCheck : c.keyCheck = d.keyCheck

theorem i32_neg (a : Int) : i32 (-i32 a) = i32 (-a) := by
  have h := Int.sub_bmod_bmod (x := 0) (y := a) (n := 2 ^ 32)
  rwa [zero_sub, zero_sub] at h

namespace Opposite

variable {c d : IBLTCell}

theorem new : Opposite .new .new := ⟨rfl, rfl, rfl, rfl⟩

theorem subCell (u v : IBLTCell) : Opposite (IBLT.subCell u v) (IBLT.subCell v u) where
  left := by
    simp only [IBLT.subCell]
    rw [i32_neg, neg_sub]
  right := by
    simp only [IBLT.subCell]
    rw [i32_neg, neg_sub]
  keySum := Arr.xor_comm _ _
  keyCheck := UInt32.xor_comm _ _

theorem put (h : Opposite c d) (s : Int) (key : Arr 16) :
    Opposite (c.put s key) (d.put (-s) key) where
  left := by
    show i32 (c.count + s) = i32 (-i32 (d.count + -s))
    rw [i32_neg, h.left, i32_add]
    congr 1
    ring
  right := by
    show i32 (d.count + -s) = i32 (-i32 (c.count + s))
    rw [i32_neg, h.right, i32_add]
    congr 1
    ring
  keySum := congrArg (·.xor key) h.keySum
  keyCheck := congrArg (· ^^^ IBLTCell.check key) h.keyCheck

theorem symm (h : Opposite c d) : Opposite d c := ⟨h.right, h.left, h.keySum.symm, h.keyCheck.symm⟩

theorem count_eq_neg (h : Opposite c d) {a : Int} (hl : -2 ^ 31 < a) (hh : a < 2 ^ 31)
    (hc : c.count = a) : d.count = -a := by
  rw [h.right, hc]
  exact i32_of_small (by omega) (by omega)

theorem isPure (h : Opposite c d) : c.isPure = d.isPure := by
  have ho : ∀ {c d : IBLTCell}, Opposite c d → c.count = 1 → d.count = -1 :=
    fun h hc => h.count_eq_neg (by decide) (by decide) hc
  have hm : ∀ {c d : IBLTCell}, Opposite c d → c.count = -1 → d.count = 1 :=
    fun h hc => h.count_eq_neg (by decide) (by decide) hc
  rw [Bool.eq_iff_iff]
  simp only [IBLTCell.isPure, Bool.or_eq_true, beq_iff_eq]
  constructor
  · rintro (hc | hc)
    · exact .inr (ho h hc)
    · exact .inl (hm h hc)
  · rintro (hd | hd)
    · exact .inr (ho h.symm hd)
    · exact .inl (hm h.symm hd)

theorem isEmpty (h : Opposite c d) : c.isEmpty = d.isEmpty := by
  rw [Bool.eq_iff_iff]
  simp only [IBLTCell.isEmpty, beq_iff_eq]
  constructor
  · intro hc
    exact h.count_eq_neg (by decide) (by decide) hc
  · intro hd
    exact h.symm.count_eq_neg (by decide) (by decide) hd

end Opposite

theorem forall₂_peel (hash : CellHash) (n : Nat) (h : List.Forall₂ Opposite cells cells') (co : Int)
    (key : Arr 16) (idx : Nat) :
    List.Forall₂ Opposite ((touch hash n key (.put (-co) key) cells).set idx .new)
      ((touch hash n key (.put (- -co) key) cells').set idx .new) := by
  refine Pointwise.set ?_ Opposite.new idx
  have hf := Pointwise.foldl_modify (fun c d hc => Opposite.put hc (-co) key)
    ((List.range hashCount).map (hashToCell hash n key)) h
  rwa [List.foldl_map, List.foldl_map] at hf

/-- **In step**: the rounds on opposite tables find the same keys, one for the other side. -/
theorem decodeRounds_swap (r : Nat) {cells cells' : List IBLTCell} {a bob : List (Arr 16)}
    (h : List.Forall₂ Opposite cells cells') :
    decodeRounds hash n r cells' bob a
      = (decodeRounds hash n r cells a bob).map Prod.swap := by
  induction r generalizing cells cells' a bob with
  | zero => rfl
  | succ r ih =>
    rw [decodeRounds, decodeRounds]
    rcases Pointwise.find?_zipIdx h (fun c d hcd => hcd.isPure) 0 with
      ⟨hno, hn'⟩ | ⟨c, d, idx, hs, hs', hcd⟩
    · -- nothing is left to peel: both are empty or both are stuck
      rw [hno, hn']
      simp only [← Pointwise.all_eq h fun c d hcd => hcd.isEmpty]
      split <;> rfl
    · rw [hs, hs']
      simp only [← hcd.keySum, ← hcd.keyCheck]
      split
      · rfl
      · have hp : c.isPure = true := by simpa using List.find?_some hs
        have hsi : c.count = 1 ∨ c.count = -1 := by simpa [IBLTCell.isPure] using hp
        have hco : d.count = -c.count := by
          rcases hsi with hc | hc
          · exact hc ▸ hcd.count_eq_neg (by decide) (by decide) hc
          · exact hc ▸ hcd.count_eq_neg (by decide) (by decide) hc
        have hn := forall₂_peel hash n h c.count c.keySum idx
        rw [hco]
        rcases hsi with hc | hc
        · simp only [hc, neg_neg, reduceIte] at hn ⊢
          exact ih hn
        · simp only [hc, neg_neg, reduceIte] at hn ⊢
          exact ih hn

theorem decode_swap {t t' : IBLT} (h : List.Forall₂ Opposite t.cells t'.cells) :
    decode hash t' = (decode hash t).map Prod.swap := by
  have hn : t'.numCells = t.numCells := h.length_eq.symm
  rw [decode, decode, hn]
  exact decodeRounds_swap _ h

/-- **Decoding is symmetric**, in its keys, their order and its errors. -/
theorem decode_subtract_swap (hash : CellHash) {a b : IBLT} (hsize : a.numCells = b.numCells) :
    ∃ d d', a.subtract b = .ok d ∧ b.subtract a = .ok d' ∧ decode hash d' = (decode hash d).map Prod.swap := by
  have hce : List.Forall₂ Opposite
      (List.zipWith subCell a.cells b.cells ++ (withCells a.numCells).cells.drop a.numCells)
      (List.zipWith subCell b.cells a.cells ++ (withCells a.numCells).cells.drop a.numCells) := by
    refine List.rel_append (Pointwise.zipWith_swap Opposite.subCell _ _) (List.forall₂_same.mpr ?_)
    intro c hc
    rw [List.eq_of_mem_replicate (List.mem_of_mem_drop hc)]
    exact Opposite.new
  refine ⟨_, _, if_neg (not_not.mpr hsize), if_neg (not_not.mpr hsize.symm), ?_⟩
  rw [← hsize]
  exact decode_swap hce

/-- Two sets of which each has something the other lacks. -/
theorem decode_subtract_swap_sample :
    ∃ d d', (ofKeys sampleHash (withCells 12) [Arr.fit 16 [1], Arr.fit 16 [9]]).subtract
          (ofKeys sampleHash (withCells 12) [Arr.fit 16 [9], Arr.fit 16 [5]]) = .ok d
      ∧ (ofKeys sampleHash (withCells 12) [Arr.fit 16 [9], Arr.fit 16 [5]]).subtract
          (ofKeys sampleHash (withCells 12) [Arr.fit 16 [1], Arr.fit 16 [9]]) = .ok d'
      ∧ decode sampleHash d' = (decode sampleHash d).map Prod.swap :=
  decode_subtract_swap sampleHash rfl

end IBLT

end SCMessenger
