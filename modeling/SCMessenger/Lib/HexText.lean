import Mathlib.Data.String.Basic
import SCMessenger.Lib.Bytes

/-!
# Hexadecimal texts

What a text that decodes looks like: it has two digits a byte, each of which is one byte of UTF-8, and
its lower-case form stands for the same bytes.
-/

namespace SCMessenger

theorem hexVal_bounds {c : Char} (h : (hexVal c).isSome = true) : 48 ≤ c.toNat ∧ c.toNat ≤ 102 := by
  unfold hexVal at h
  simp only [Char.le_def, UInt32.le_iff_toNat_le] at h
  have hc : c.val.toNat = c.toNat := rfl
  have h0 : ('0').val.toNat = 48 := rfl
  have h9 : ('9').val.toNat = 57 := rfl
  have ha : ('a').val.toNat = 97 := rfl
  have hf : ('f').val.toNat = 102 := rfl
  have hA : ('A').val.toNat = 65 := rfl
  have hF : ('F').val.toNat = 70 := rfl
  split at h
  · omega
  · split at h
    · omega
    · split at h
      · omega
      · cases h

theorem utf8Len_of_hexVal {l : List Char} (h : ∀ c ∈ l, (hexVal c).isSome = true) :
    String.utf8Len l = l.length := by
  induction l with
  | nil => rfl
  | cons c l ih =>
    have hs : c.utf8Size = 1 := by
      have hb := (hexVal_bounds (h c List.mem_cons_self)).2
      rw [Char.utf8Size_eq_one_iff, UInt32.le_iff_toNat_le]
      exact hb.trans (by decide)
    rw [String.utf8Len_cons, ih fun d hd => h d (List.mem_cons_of_mem c hd), hs, List.length_cons]

theorem hexVal_toLower (c : Char) : hexVal c.toLower = hexVal c := by
  unfold Char.toLower
  by_cases h : c.val ≥ 'A'.val ∧ c.val ≤ 'Z'.val
  · rw [dif_pos h]
    have hA : ('A').val.toNat = 65 := rfl
    have hZ : ('Z').val.toNat = 90 := rfl
    have hs : ('a'.val - 'A'.val).toNat = 32 := rfl
    simp only [ge_iff_le, UInt32.le_iff_toNat_le] at h
    have hl : (c.val + ('a'.val - 'A'.val)).toNat = c.val.toNat + 32 := by
      rw [UInt32.toNat_add, hs, Nat.mod_eq_of_lt (by omega)]
    have h0 : ('0').val.toNat = 48 := rfl
    have h9 : ('9').val.toNat = 57 := rfl
    have ha : ('a').val.toNat = 97 := rfl
    have hf : ('f').val.toNat = 102 := rfl
    have hF : ('F').val.toNat = 70 := rfl
    have hc : c.toNat = c.val.toNat := rfl
    unfold hexVal
    simp only [Char.le_def, UInt32.le_iff_toNat_le, Char.toNat, hl, h0, h9, ha, hf, hA, hF]
    by_cases hd : c.val.toNat ≤ 70
    · rw [if_neg (by omega), if_pos (by omega), if_neg (by omega), if_neg (by omega), if_pos (by omega)]
      simp only [Option.some.injEq]
      omega
    · rw [if_neg (by omega), if_neg (by omega), if_neg (by omega), if_neg (by omega), if_neg (by omega),
        if_neg (by omega)]
  · rw [dif_neg h]

variable {b : Bytes}

theorem hexDecodeChars_ok {i : Nat} {l : List Char} (h : hexDecodeChars i l = .ok b) :
    l.length = 2 * b.length ∧ ∀ c ∈ l, (hexVal c).isSome = true := by
  induction i, l using hexDecodeChars.induct generalizing b with
  | case1 i =>
    cases h
    simp
  | case2 i c => cases h
  | case3 i c d r hc => simp [hexDecodeChars, hc] at h
  | case4 i c d r hi hc hd => simp [hexDecodeChars, hc, hd] at h
  | case5 i c d r hi lo hd hc e he ih => simp [hexDecodeChars, hc, hd, he] at h
  | case6 i c d r hi lo hd hc b' hr ih =>
    simp only [hexDecodeChars, hc, hd, hr, Except.ok.injEq] at h
    obtain ⟨hl, hdi⟩ := ih hr
    rw [← h]
    refine ⟨by simp only [List.length_cons, hl]; omega, ?_⟩
    intro x hx
    rcases List.mem_cons.mp hx with rfl | hx
    · rw [hc]
      rfl
    · rcases List.mem_cons.mp hx with rfl | hx
      · rw [hd]
        rfl
      · exact hdi x hx

theorem hexDecodeChars_toLower {i j : Nat} {l : List Char} (h : hexDecodeChars i l = .ok b) :
    hexDecodeChars j (l.map Char.toLower) = .ok b := by
  induction i, l using hexDecodeChars.induct generalizing b j with
  | case1 i => exact h
  | case2 i c => cases h
  | case3 i c d r hc => simp [hexDecodeChars, hc] at h
  | case4 i c d r hi hc hd => simp [hexDecodeChars, hc, hd] at h
  | case5 i c d r hi lo hd hc e he ih => simp [hexDecodeChars, hc, hd, he] at h
  | case6 i c d r hi lo hd hc b' hr ih =>
    simp only [hexDecodeChars, hc, hd, hr, Except.ok.injEq] at h
    rw [List.map_cons, List.map_cons]
    simp only [hexDecodeChars, hexVal_toLower, hc, hd, ih hr]
    rw [h]

theorem hexDecodeChars_of_hexDecode {s : String} (h : hexDecode s = .ok b) :
    hexDecodeChars 0 s.toList = .ok b := by
  unfold hexDecode at h
  split at h
  · cases h
  · exact h

theorem hexDecode_toLower {s : String} (h : hexDecode s = .ok b) :
    hexDecode (String.ofList (s.toList.map Char.toLower)) = .ok b := by
  have hc := hexDecodeChars_of_hexDecode h
  have hl := (hexDecodeChars_ok hc).1
  unfold hexDecode
  rw [String.toList_ofList, List.length_map, if_neg (by omega)]
  exact hexDecodeChars_toLower hc

theorem hexDecode_ok {s : String} (h : hexDecode s = .ok b) :
    s.utf8ByteSize = 2 * b.length ∧ ∀ c ∈ s.toList, (hexVal c).isSome = true := by
  obtain ⟨hl, hd⟩ := hexDecodeChars_ok (hexDecodeChars_of_hexDecode h)
  refine ⟨?_, hd⟩
  rw [← String.ofList_toList (s := s), String.utf8ByteSize_ofList, utf8Len_of_hexVal hd, hl]

end SCMessenger
