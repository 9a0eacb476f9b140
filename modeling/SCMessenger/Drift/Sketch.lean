import Mathlib.Logic.Equiv.Fin.Basic
import Mathlib.Tactic.Abel
import Mathlib.Tactic.Ring
import SCMessenger.Drift.Envelope
import SCMessenger.Lib.Counting
import SCMessenger.Lib.Peeling
import SCMessenger.Lib.Xor

/-!
# Sketches of sets of messages

The invertible Bloom lookup table of `drift/sketch.rs`, decoded by peeling cells whose count is one.  The
hash is a parameter; counts are `i32` and wrap around, as in a release build.
-/

namespace SCMessenger

def i32 (x : Int) : Int := x.bmod (2 ^ 32)

/-- A cell: how many keys it got, their exclusive or and that of their checks. -/
structure IBLTCell where
  count : Int
  keySum : Arr 16
  keyCheck : UInt32
deriving DecidableEq

namespace IBLTCell

def new : IBLTCell := ⟨0, Arr.zeros 16, 0⟩

def isPure (c : IBLTCell) : Bool := c.count == 1 || c.count == -1

def isEmpty (c : IBLTCell) : Bool := c.count == 0

def check (key : Arr 16) : UInt32 := UInt32.ofNat (leNat (key.1.take 4))

def xorIn (key : Arr 16) (c : IBLTCell) : IBLTCell :=
  { c with keySum := c.keySum.xor key, keyCheck := c.keyCheck ^^^ check key }

/-- Count a key in or out, and add it: `xor_out` is `xor_in`, as exclusive or undoes itself. -/
def put (sign : Int) (key : Arr 16) (c : IBLTCell) : IBLTCell :=
  { c with count := i32 (c.count + sign) }.xorIn key

end IBLTCell

abbrev CellHash := Nat → Arr 16 → UInt64

/-- An invertible Bloom lookup table. -/
structure IBLT where
  cells : List IBLTCell
deriving DecidableEq

namespace IBLT

open Peeling

def hashCount : Nat := 3
def cellsPerDiff : Nat := 3

def numCells (t : IBLT) : Nat := t.cells.length

def withCells (numCells : Nat) : IBLT := ⟨List.replicate (max numCells 1) .new⟩

def new (expectedDiffs : Nat) : IBLT := ⟨List.replicate (max expectedDiffs 1 * cellsPerDiff) .new⟩

/-- The cell of a key by one of the hash functions. -/
def hashToCell (hash : CellHash) (numCells : Nat) (key : Arr 16) (hashIdx : Nat) : Nat :=
  (hash hashIdx key).toNat % numCells

/-- Changes the cells of a key, one for each hash function. -/
def touch (hash : CellHash) (numCells : Nat) (key : Arr 16) (f : IBLTCell → IBLTCell)
    (cells : List IBLTCell) : List IBLTCell :=
  (List.range hashCount).foldl (fun cells i => cells.modify (hashToCell hash numCells key i) f) cells

def insert (hash : CellHash) (t : IBLT) (key : Arr 16) : IBLT :=
  ⟨touch hash t.numCells key (.put 1 key) t.cells⟩

def ofKeys (hash : CellHash) (t : IBLT) (keys : List (Arr 16)) : IBLT := keys.foldl (insert hash) t

def subCell (x y : IBLTCell) : IBLTCell :=
  ⟨i32 (x.count - y.count), x.keySum.xor y.keySum, x.keyCheck ^^^ y.keyCheck⟩

/-- The difference of two tables of the same size, in a table with at least one cell. -/
def subtract (t other : IBLT) : Except DriftError IBLT :=
  if t.numCells ≠ other.numCells then .error (.bufferTooShort t.numCells other.numCells)
  else .ok ⟨List.zipWith subCell t.cells other.cells ++ (withCells t.numCells).cells.drop t.numCells⟩

/-- Rounds of the loop: a cell with count one is taken for a single key, which is taken out. -/
def decodeRounds (hash : CellHash) (numCells : Nat) : Nat → List IBLTCell → List (Arr 16) → List (Arr 16) →
    Except DriftError (List (Arr 16) × List (Arr 16))
  | 0, _, _, _ => .error (.decompressionFailed
      "IBLT decode failed: exceeded maximum iterations (IBLT likely undersized for differences)")
  | rounds + 1, cells, aliceOnly, bobOnly =>
    match cells.zipIdx.find? fun c => c.1.isPure with
    | none =>
      if cells.all IBLTCell.isEmpty then .ok (aliceOnly, bobOnly)
      else .error (.decompressionFailed "IBLT decode failed: cannot peel remaining cells")
    | some (cell, idx) =>
      if cell.keyCheck ≠ IBLTCell.check cell.keySum then
        .error (.decompressionFailed
          "IBLT decode failed: key_check mismatch, possible hash collision or corruption")
      else
        decodeRounds hash numCells rounds
          ((touch hash numCells cell.keySum (.put (-cell.count) cell.keySum) cells).set idx .new)
          (if cell.count = 1 then aliceOnly ++ [cell.keySum] else aliceOnly)
          (if cell.count = 1 then bobOnly else bobOnly ++ [cell.keySum])

/-- The keys that were counted in only, and those that were counted out only. -/
def decode (hash : CellHash) (t : IBLT) : Except DriftError (List (Arr 16) × List (Arr 16)) :=
  decodeRounds hash t.numCells (t.numCells * 10) t.cells [] []

/-! ## What the cells hold -/

/-- How many of the hash functions send a key to a cell. -/
def mult (hash : CellHash) (numCells : Nat) (j : Nat) (key : Arr 16) : Nat :=
  ((List.range hashCount).map (hashToCell hash numCells key)).count j

def Holds (cells : List IBLTCell) (x : Nat → Int) (y : Nat → Arr 16) : Prop :=
  ∀ j c, cells[j]? = some c → c.count = i32 (x j) ∧ c.keySum = y j

variable {hash : CellHash} {n : Nat} {cells : List IBLTCell} {x : Nat → Int} {y : Nat → Arr 16}
  {key : Arr 16} {sign : Int}

theorem i32_add (a b : Int) : i32 (i32 a + b) = i32 (a + b) := Int.bmod_add_bmod

theorem i32_of_small {a : Int} (hl : -2 ^ 31 ≤ a) (hh : a < 2 ^ 31) : i32 a = a := by
  apply Int.bmod_eq_of_le
  · omega
  · omega

theorem holds_modify (sign : Int) (key : Arr 16) (h : Holds cells x y) (p : Nat) :
    Holds (cells.modify p (.put sign key)) (fun j => x j + if p = j then sign else 0)
      (fun j => y j + if p = j then key else 0) := by
  intro j c hc
  rw [List.getElem?_modify] at hc
  obtain ⟨d, hd, rfl⟩ := Option.map_eq_some_iff.mp hc
  obtain ⟨hco, hs⟩ := h j d hd
  by_cases hp : p = j
  · simp only [if_pos hp]
    refine ⟨?_, ?_⟩
    · show i32 (d.count + sign) = _
      rw [hco, i32_add]
    · show d.keySum + key = _
      rw [hs]
  · simp only [if_neg hp, add_zero]
    exact ⟨hco, hs⟩

theorem holds_foldl_modify (sign : Int) (key : Arr 16) (ps : List Nat) {cells : List IBLTCell}
    {x : Nat → Int} {y : Nat → Arr 16} (h : Holds cells x y) :
    Holds (ps.foldl (fun cells p => cells.modify p (.put sign key)) cells)
      (fun j => x j + ps.count j * sign) (fun j => y j + ps.count j • key) := by
  induction ps generalizing cells x y with
  | nil => simpa using h
  | cons p ps ih =>
    have hx : (fun j => x j + ((p :: ps).count j : Int) * sign)
        = fun j => (x j + if p = j then sign else 0) + ps.count j * sign := by
      funext j
      by_cases hp : p = j
      · rw [if_pos hp, hp, List.count_cons_self]
        push_cast
        ring
      · rw [if_neg hp, List.count_cons_of_ne hp, add_zero]
    have hy : (fun j => y j + (p :: ps).count j • key)
        = fun j => (y j + if p = j then key else 0) + ps.count j • key := by
      funext j
      by_cases hp : p = j
      · rw [if_pos hp, hp, List.count_cons_self, succ_nsmul]
        abel
      · rw [if_neg hp, List.count_cons_of_ne hp, add_zero]
    rw [List.foldl_cons, hx, hy]
    exact ih (holds_modify sign key h p)

theorem holds_touch (hash : CellHash) (n : Nat) (sign : Int) (key : Arr 16) (h : Holds cells x y) :
    Holds (touch hash n key (.put sign key) cells) (fun j => x j + mult hash n j key * sign)
      (fun j => y j + mult hash n j key • key) := by
  have hf := holds_foldl_modify sign key ((List.range hashCount).map (hashToCell hash n key)) h
  rw [List.foldl_map] at hf
  exact hf

theorem length_touch (f : IBLTCell → IBLTCell) (cells : List IBLTCell) :
    (touch hash n key f cells).length = cells.length := by
  simp [touch, hashCount, List.range_succ]

theorem holds_replicate (m : Nat) : Holds (List.replicate m .new) (fun _ => 0) (fun _ => 0) := by
  intro j c hc
  rw [List.eq_of_mem_replicate (List.mem_of_getElem? hc)]
  exact ⟨rfl, rfl⟩

theorem numCells_ofKeys (hash : CellHash) (k : List (Arr 16)) (t : IBLT) :
    (ofKeys hash t k).numCells = t.numCells := by
  induction k generalizing t with
  | nil => rfl
  | cons key k ih => exact (ih (insert hash t key)).trans (length_touch _ _)

theorem holds_ofKeys (hash : CellHash) (k : List (Arr 16)) {t : IBLT} {x : Nat → Int} {y : Nat → Arr 16}
    (h : Holds t.cells x y) :
    Holds (ofKeys hash t k).cells (fun j => x j + weight (mult hash t.numCells) k j)
      (fun j => y j + total (mult hash t.numCells) k j) := by
  induction k generalizing t x y with
  | nil => simpa [ofKeys, weight, total] using h
  | cons key k ih =>
    have hn : (insert hash t key).numCells = t.numCells := length_touch _ _
    have hs := ih (t := insert hash t key) (holds_touch hash t.numCells 1 key h)
    rw [hn] at hs
    have hx : (fun j => x j + (weight (mult hash t.numCells) (key :: k) j : Int))
        = fun j => x j + mult hash t.numCells j key * 1 + weight (mult hash t.numCells) k j := by
      funext j
      simp only [weight, List.map_cons, List.sum_cons]
      push_cast
      ring
    have hy : (fun j => y j + total (mult hash t.numCells) (key :: k) j)
        = fun j => y j + mult hash t.numCells j key • key + total (mult hash t.numCells) k j := by
      funext j
      simp only [total, List.map_cons, List.sum_cons, add_assoc]
    rw [hx, hy]
    exact hs

theorem holds_subtract {a b t : IBLT} {x x' : Nat → Int} {y y' : Nat → Arr 16} (ha : Holds a.cells x y)
    (hb : Holds b.cells x' y') (hp : 0 < a.numCells) (hs : subtract a b = .ok t) :
    t.numCells = a.numCells ∧ Holds t.cells (fun j => x j - x' j) (fun j => y j + y' j) := by
  rw [subtract] at hs
  split at hs
  · cases hs
  case isFalse hsi =>
    have hsi : a.cells.length = b.cells.length := not_not.mp hsi
    have hd : (withCells a.numCells).cells.drop a.numCells = [] := by
      apply List.drop_eq_nil_of_le
      simp only [withCells, List.length_replicate]
      omega
    rw [hd, List.append_nil] at hs
    cases hs
    refine ⟨by simp [numCells, hsi], fun j c hc => ?_⟩
    rw [List.getElem?_zipWith] at hc
    split at hc
    case h_1 u v hu hv =>
      cases hc
      obtain ⟨hco, hsm⟩ := ha j u hu
      obtain ⟨hc', hs'⟩ := hb j v hv
      refine ⟨?_, ?_⟩
      · show i32 (u.count - v.count) = _
        rw [hco, hc', i32, i32, Int.bmod_sub_bmod, i32, Int.sub_bmod_bmod]
        rfl
      · show u.keySum + v.keySum = _
        rw [hsm, hs']
    case h_2 => cases hc

/-! ## Peeling -/

/-- The cells hold the keys counted with `sign`, and those counted the other way. -/
def HoldsSides (hash : CellHash) (n : Nat) (cells : List IBLTCell) (sign : Int) (near far : List (Arr 16)) :
    Prop :=
  Holds cells (fun j => sign * (weight (mult hash n) near j - weight (mult hash n) far j))
    (fun j => total (mult hash n) near j + total (mult hash n) far j)

variable {near far : List (Arr 16)}

theorem HoldsSides.swap (h : HoldsSides hash n cells sign near far) :
    HoldsSides hash n cells (-sign) far near := by
  unfold HoldsSides at h ⊢
  convert h using 1
  · funext j
    ring
  · funext j
    rw [add_comm]

def Small (hash : CellHash) (n : Nat) (keys : List (Arr 16)) : Prop :=
  ∀ j, weight (mult hash n) keys j < 2 ^ 31

theorem Small.without (h : Small hash n near) : Small hash n (without near key) :=
  fun j => Nat.lt_of_le_of_lt weight_without_le (h j)

theorem HoldsSides.cell (h : HoldsSides hash n cells sign near far) (hs : sign = 1 ∨ sign = -1)
    (hn : Small hash n near) (hf : Small hash n far) {j : Nat} {c : IBLTCell} (hc : cells[j]? = some c) :
    c.count = sign * (weight (mult hash n) near j - weight (mult hash n) far j)
      ∧ c.keySum = total (mult hash n) near j + total (mult hash n) far j := by
  have hsm := hn j
  have hs' := hf j
  have he : i32 (sign * (weight (mult hash n) near j - weight (mult hash n) far j))
      = sign * (weight (mult hash n) near j - weight (mult hash n) far j) := by
    rcases hs with rfl | rfl
    · exact i32_of_small (by omega) (by omega)
    · exact i32_of_small (by omega) (by omega)
  exact ⟨(h j c hc).1.trans he, (h j c hc).2⟩

/-- A cell with count one shows a key of its side, and afterwards the table is that of the others. -/
theorem peel (hh : HoldsSides hash n cells sign near far) (hs : sign = 1 ∨ sign = -1)
    (ha : Separable (mult hash n) near far) (hn : Small hash n near) (hf : Small hash n far)
    {idx : Nat} {c : IBLTCell} (hc : cells[idx]? = some c) (hco : c.count = sign) :
    c.keySum ∈ near ∧ HoldsSides hash n
      ((touch hash n c.keySum (.put (-c.count) c.keySum) cells).set idx .new) sign
      (without near c.keySum) far := by
  obtain ⟨hce, hsu⟩ := hh.cell hs hn hf hc
  rw [hco] at hce
  -- A cell with keys of both sides counts zero, so the other side has no part in this one.
  obtain ⟨ho, hz⟩ : weight (mult hash n) near idx = 1 ∧ weight (mult hash n) far idx = 0 := by
    have hmeet := ha.meet idx
    rcases hs with rfl | rfl <;> omega
  obtain ⟨hm, hmu, hr⟩ := exists_of_weight_eq_one ho
  rw [total_eq_zero hz, add_zero] at hsu
  rw [← hsu] at hm hmu hr
  refine ⟨hm, ?_⟩
  intro j d hd
  rw [List.getElem?_set] at hd
  split at hd
  case isTrue hj =>
    -- The cell that was peeled is empty now.
    subst hj
    split at hd
    · cases hd
      simp only [hr, hz, total_eq_zero hr, total_eq_zero hz, add_zero]
      refine ⟨?_, rfl⟩
      simp [IBLTCell.new, i32]
    · cases hd
  case isFalse hj =>
    obtain ⟨hdc, hds⟩ := holds_touch hash n (-c.count) c.keySum hh j d hd
    have hw := weight_without (mult hash n) j hm
    have ht := total_without (mult hash n) j hm
    refine ⟨hdc.trans (congrArg i32 ?_), hds.trans ?_⟩
    · simp only [hco, hw]
      push_cast
      ring
    · have hse : mult hash n j c.keySum • c.keySum + mult hash n j c.keySum • c.keySum = 0 := by
        rw [← nsmul_add, Arr.add_self, nsmul_zero]
      simp only [ht]
      calc _ = mult hash n j c.keySum • c.keySum + mult hash n j c.keySum • c.keySum
            + (total (mult hash n) (without near c.keySum) j + total (mult hash n) far j) := by abel
        _ = _ := by rw [hse, zero_add]

theorem hashToCell_lt (hp : 0 < n) (key : Arr 16) (i : Nat) : hashToCell hash n key i < n :=
  Nat.mod_lt _ hp

theorem mult_le (hash : CellHash) (n j : Nat) (key : Arr 16) : mult hash n j key ≤ hashCount :=
  List.count_le_length.trans (by simp)

theorem lt_of_mult_pos (hp : 0 < n) {j : Nat} {key : Arr 16} (h : 0 < mult hash n j key) : j < n := by
  obtain ⟨i, -, rfl⟩ := List.mem_map.mp (List.count_pos_iff.mp h)
  exact hashToCell_lt hp key i

/-- A table whose counts are all zero holds no keys, if every key has a cell of its side alone. -/
theorem eq_nil_of_empty (hh : HoldsSides hash n cells sign near far) (hs : sign = 1 ∨ sign = -1)
    (hle : cells.length = n) (hp : 0 < n) (ha : Separable (mult hash n) near far)
    (hn : Small hash n near) (hf : Small hash n far) (he : ∀ c ∈ cells, c.count = 0) :
    near = [] := by
  apply List.eq_nil_iff_forall_not_mem.mpr
  intro key hk
  obtain ⟨j, hm, hz⟩ := ha.left key hk
  have hl : j < cells.length := by
    rw [hle]
    exact lt_of_mult_pos hp hm
  have hc := (hh.cell hs hn hf (List.getElem?_eq_getElem hl)).1
  rw [he _ (List.getElem_mem hl)] at hc
  have hw := weight_without (mult hash n) j hk
  rcases hs with rfl | rfl <;> omega

theorem decodeRounds_sound {p m xs ys : List (Arr 16)} (r : Nat) {cells : List IBLTCell}
    {near far a bob : List (Arr 16)} (hl : cells.length = n) (hp : 0 < n)
    (hh : HoldsSides hash n cells 1 near far) (ha : Separable (mult hash n) near far)
    (hn : Small hash n near) (hf : Small hash n far) (hal : List.Perm (a ++ near) p)
    (hb : List.Perm (bob ++ far) m) (ho : decodeRounds hash n r cells a bob = .ok (xs, ys)) :
    List.Perm xs p ∧ List.Perm ys m := by
  induction r generalizing cells near far a bob with
  | zero => cases ho
  | succ r ih =>
    rw [decodeRounds] at ho
    split at ho
    case h_1 =>
      split at ho
      case isTrue hall =>
        have he : ∀ c ∈ cells, c.count = 0 := by
          intro c hc
          simpa [IBLTCell.isEmpty] using List.all_eq_true.mp hall c hc
        have hni : near = [] :=
          eq_nil_of_empty hh (Or.inl rfl) hl hp ha hn hf he
        have hn' : far = [] :=
          eq_nil_of_empty hh.swap (Or.inr rfl) hl hp ha.symm hf hn he
        rw [hni, List.append_nil] at hal
        rw [hn', List.append_nil] at hb
        cases ho
        exact ⟨hal, hb⟩
      case isFalse => cases ho
    case h_2 c idx hfind =>
      have hc : cells[idx]? = some c :=
        List.mk_mem_zipIdx_iff_getElem?.mp (List.mem_of_find?_eq_some hfind)
      have hpu : c.isPure = true := by simpa using List.find?_some hfind
      have hl' : ((touch hash n c.keySum (.put (-c.count) c.keySum) cells).set idx .new).length = n := by
        rw [List.length_set, length_touch, hl]
      split at ho
      · cases ho
      · by_cases hon : c.count = 1
        · obtain ⟨hm, hnx⟩ := peel hh (Or.inl rfl) ha hn hf hc hon
          rw [if_pos hon, if_pos hon] at ho
          refine ih hl' hnx ha.without_left hn.without hf ?_ hb ho
          rw [List.append_assoc]
          exact ((perm_cons_without hm).append_left a).symm.trans hal
        · have hmi : c.count = -1 := by
            simpa [IBLTCell.isPure, hon] using hpu
          obtain ⟨hm, hnx⟩ := peel hh.swap (Or.inr rfl) ha.symm hf hn hc hmi
          rw [if_neg hon, if_neg hon] at ho
          refine ih hl' hnx.swap ha.symm.without_left.symm hn hf.without hal ?_ ho
          rw [List.append_assoc]
          exact ((perm_cons_without hm).append_left bob).symm.trans hb

/-! ## Differences of sets -/

/-- A table shows the keys of a set in every cell. -/
def Shows (hash : CellHash) (t : IBLT) (keys : List (Arr 16)) : Prop :=
  Holds t.cells (fun j => weight (mult hash t.numCells) keys j)
    (fun j => total (mult hash t.numCells) keys j)

theorem shows_ofKeys (m : Nat) (k : List (Arr 16)) :
    Shows hash (ofKeys hash (withCells m) k) k := by
  have h := holds_ofKeys hash k (t := withCells m) (holds_replicate _)
  rw [← numCells_ofKeys hash k (withCells m)] at h
  simpa only [Shows, zero_add] using h

theorem small_of_length {k : List (Arr 16)} (h : k.length * hashCount < 2 ^ 31) :
    Small hash n k := by
  intro j
  exact Nat.lt_of_le_of_lt (weight_le fun key => mult_le hash n j key) h

theorem decode_of_shows {a b : IBLT} {A B xs ys : List (Arr 16)} (ha : Shows hash a A) (hb : Shows hash b B)
    (hA : A.Nodup) (hB : B.Nodup) (hp : 0 < a.numCells)
    (hap : Separable (mult hash a.numCells) (only A B) (only B A))
    (hsm : Small hash a.numCells (only A B)) (hs' : Small hash a.numCells (only B A))
    (ho : (a.subtract b).bind (decode hash) = .ok (xs, ys)) :
    List.Perm xs (only A B) ∧ List.Perm ys (only B A) := by
  cases hs : a.subtract b with
  | error e =>
    rw [hs] at ho
    cases ho
  | ok t =>
    have hsz : a.numCells = b.numCells := by
      by_contra hne
      rw [subtract, if_pos hne] at hs
      cases hs
    rw [hs] at ho
    rw [Shows, ← hsz] at hb
    obtain ⟨hl, hh⟩ := holds_subtract ha hb hp hs
    have hsi : HoldsSides hash a.numCells t.cells 1 (only A B) (only B A) := by
      unfold HoldsSides
      convert hh using 1
      · funext j
        rw [weight_sub_weight hA hB, one_mul]
      · funext j
        rw [total_add_total Arr.add_self hA hB]
    replace ho : decodeRounds hash t.numCells (t.numCells * 10) t.cells [] [] = .ok (xs, ys) := ho
    rw [hl] at ho
    exact decodeRounds_sound _ hl hp hsi hap hsm hs' (List.Perm.refl _)
      (List.Perm.refl _) ho

theorem numCells_withCells_pos (m : Nat) : 0 < (withCells m).numCells := by
  rw [withCells, numCells, List.length_replicate]
  omega

def ListsOnly (xs A B : List (Arr 16)) : Prop := xs.Nodup ∧ ∀ id, id ∈ xs ↔ id ∈ A ∧ id ∉ B

theorem listsOnly_of_perm {xs A B : List (Arr 16)} (hA : A.Nodup) (h : List.Perm xs (only A B)) :
    ListsOnly xs A B :=
  ⟨h.nodup_iff.mpr (nodup_only hA), fun _ => h.mem_iff.trans mem_only⟩

/-- **Soundness of reconciliation**, if the identifiers of the two sides are separable and no count wraps. -/
theorem decode_sound (hash : CellHash) (m : Nat) {A B xs ys : List (Arr 16)} (hA : A.Nodup) (hB : B.Nodup)
    (hsep : Separable (mult hash (withCells m).numCells) (only A B) (only B A))
    (hsmall : (only A B).length * hashCount < 2 ^ 31) (hsmall' : (only B A).length * hashCount < 2 ^ 31)
    (hok : ((ofKeys hash (withCells m) A).subtract (ofKeys hash (withCells m) B)).bind (decode hash)
      = .ok (xs, ys)) : ListsOnly xs A B ∧ ListsOnly ys B A := by
  have hn : (ofKeys hash (withCells m) A).numCells = (withCells m).numCells := numCells_ofKeys _ _ _
  obtain ⟨hx, hy⟩ := decode_of_shows (shows_ofKeys m A) (shows_ofKeys m B) hA hB
    (hn ▸ numCells_withCells_pos m) (hn ▸ hsep) (small_of_length hsmall) (small_of_length hsmall') hok
  exact ⟨listsOnly_of_perm hA hx, listsOnly_of_perm hB hy⟩

def sampleHash : CellHash := fun i key => (key.1.headD 0).toUInt64 + i.toUInt64

/-- Only the cells of the table need a look. -/
theorem separable_of_lt (hp : 0 < n)
    (hmeet : ∀ j < n, 0 < weight (mult hash n) near j → 0 < weight (mult hash n) far j →
      weight (mult hash n) near j = 1 ∧ weight (mult hash n) far j = 1)
    (hleft : ∀ k ∈ near, ∃ j < n, 0 < mult hash n j k ∧ weight (mult hash n) far j = 0)
    (hright : ∀ k ∈ far, ∃ j < n, 0 < mult hash n j k ∧ weight (mult hash n) near j = 0) :
    Separable (mult hash n) near far := by
  refine ⟨fun j hn hf => ?_, fun k hk => ?_, fun k hk => ?_⟩
  · refine hmeet j ?_ hn hf
    by_contra hj
    have hz : weight (mult hash n) near j = 0 :=
      weight_eq_zero.mpr fun k _ => Nat.eq_zero_of_not_pos fun hm => hj (lt_of_mult_pos hp hm)
    omega
  · obtain ⟨j, -, hj⟩ := hleft k hk
    exact ⟨j, hj⟩
  · obtain ⟨j, -, hj⟩ := hright k hk
    exact ⟨j, hj⟩

/-- Each set has an identifier that the other lacks, and the two meet in a cell. -/
theorem decode_sound_sample :
    ∃ xs ys, ((ofKeys sampleHash (withCells 6) [Arr.fit 16 [1], Arr.fit 16 [2]]).subtract
        (ofKeys sampleHash (withCells 6) [Arr.fit 16 [2], Arr.fit 16 [3]])).bind (decode sampleHash)
        = .ok (xs, ys)
      ∧ ListsOnly xs [Arr.fit 16 [1], Arr.fit 16 [2]] [Arr.fit 16 [2], Arr.fit 16 [3]]
      ∧ ListsOnly ys [Arr.fit 16 [2], Arr.fit 16 [3]] [Arr.fit 16 [1], Arr.fit 16 [2]] := by
  refine ⟨[Arr.fit 16 [1]], [Arr.fit 16 [3]], by decide +kernel, ?_⟩
  refine decode_sound sampleHash 6 (by decide) (by decide) ?_ (by decide) (by decide) (by decide +kernel)
  exact separable_of_lt (by decide) (by decide +kernel) (by decide +kernel) (by decide +kernel)

/-! ## Collisions -/

theorem decode_of_counts_zero {t : IBLT} (hpo : 0 < t.numCells) (h : ∀ c ∈ t.cells, c.count = 0) :
    decode hash t = .ok ([], []) := by
  obtain ⟨r, hr⟩ := Nat.exists_eq_succ_of_ne_zero (show t.numCells * 10 ≠ 0 by omega)
  have hp : (t.cells.zipIdx.find? fun c => c.1.isPure) = none := by
    rw [List.find?_eq_none]
    intro c hc
    have hm : c.1 ∈ t.cells := List.fst_mem_of_mem_zipIdx hc
    simp [IBLTCell.isPure, h c.1 hm]
  have he : t.cells.all IBLTCell.isEmpty = true := by
    rw [List.all_eq_true]
    intro c hc
    simp [IBLTCell.isEmpty, h c hc]
  rw [decode, hr, decodeRounds]
  simp only [hp, he, if_true]

theorem exists_collision (hash : CellHash) {m : Nat} (hp : 0 < m) (hm : m * (m * m) < 256 ^ 16) :
    ∃ a b : Arr 16, a ≠ b ∧ ∀ i < hashCount, hashToCell hash m a i = hashToCell hash m b i := by
  let cell (i : Nat) (key : Arr 16) : Fin m := ⟨hashToCell hash m key i, hashToCell_lt hp key i⟩
  obtain ⟨a, b, hn, ha⟩ := exists_ne_map_eq hm fun key =>
    finProdFinEquiv (cell 0 key, finProdFinEquiv (cell 1 key, cell 2 key))
  refine ⟨a, b, hn, fun i hi => ?_⟩
  obtain ⟨h0, h12⟩ := Prod.mk.inj (finProdFinEquiv.injective ha)
  obtain ⟨h1, h2⟩ := Prod.mk.inj (finProdFinEquiv.injective h12)
  rw [hashCount] at hi
  obtain rfl | rfl | rfl : i = 0 ∨ i = 1 ∨ i = 2 := by omega
  · exact Fin.mk.inj h0
  · exact Fin.mk.inj h1
  · exact Fin.mk.inj h2

theorem decode_collision {m : Nat} {a b : Arr 16}
    (h : ∀ i < hashCount, hashToCell hash (withCells m).numCells a i = hashToCell hash (withCells m).numCells b i) :
    ((ofKeys hash (withCells m) [a]).subtract (ofKeys hash (withCells m) [b])).bind (decode hash)
      = .ok ([], []) := by
  have hn : ∀ keys, (ofKeys hash (withCells m) keys).numCells = (withCells m).numCells :=
    fun keys => numCells_ofKeys _ _ _
  have hp : 0 < (ofKeys hash (withCells m) [a]).numCells := hn [a] ▸ numCells_withCells_pos m
  obtain ⟨t, hs⟩ : ∃ t, (ofKeys hash (withCells m) [a]).subtract (ofKeys hash (withCells m) [b]) = .ok t :=
    ⟨_, if_neg (not_not.mpr ((hn [a]).trans (hn [b]).symm))⟩
  obtain ⟨hl, hh⟩ := holds_subtract (shows_ofKeys m [a]) (shows_ofKeys m [b]) hp hs
  rw [hs]
  refine decode_of_counts_zero (hl ▸ hp) fun c hc => ?_
  obtain ⟨j, hj⟩ := List.mem_iff_getElem?.mp hc
  have hm : mult hash (withCells m).numCells j a = mult hash (withCells m).numCells j b := by
    unfold mult
    rw [List.map_congr_left fun i hi => h i (List.mem_range.mp hi)]
  rw [(hh j c hj).1, hn, hn]
  simp [weight, hm, i32]

/-- **No hash makes reconciliation sound**: two sets of one identifier decode to nothing. -/
theorem no_hash_sound : ¬ ∃ (hash : CellHash) (m : Nat), 0 < m ∧ m * (m * m) < 256 ^ 16
    ∧ ∀ A B xs ys : List (Arr 16), A.Nodup → B.Nodup →
      ((ofKeys hash (withCells m) A).subtract (ofKeys hash (withCells m) B)).bind (decode hash) = .ok (xs, ys) →
      ListsOnly xs A B ∧ ListsOnly ys B A := by
  rintro ⟨hash, m, hp, hm, hs⟩
  have hn : (withCells m).numCells = m := by
    rw [withCells, numCells, List.length_replicate]
    omega
  obtain ⟨a, b, hne, hc⟩ := exists_collision hash hp hm
  rw [← hn] at hc
  obtain ⟨⟨-, hx⟩, -⟩ := hs [a] [b] [] [] (by simp) (by simp) (decode_collision hc)
  have hme : a ∈ ([] : List (Arr 16)) := (hx a).mpr ⟨by simp, by simpa using hne⟩
  cases hme

end IBLT

end SCMessenger
