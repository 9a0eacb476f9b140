import Mathlib.Algebra.Group.Nat.Defs
import Mathlib.Data.List.Basic
import Mathlib.Data.List.Flatten

/-!
# Byte strings, fixed-size arrays and hexadecimal text

`Bytes` is `Vec<u8>`, `Arr n` is `[u8; n]`: the length is part of the type, and tested in one place
(`Arr.ofBytes?`).
-/

namespace SCMessenger

abbrev Bytes := List UInt8

abbrev Arr (n : Nat) := { b : Bytes // b.length = n }

namespace Arr

def ofBytes? (n : Nat) (b : Bytes) : Option (Arr n) :=
  if h : b.length = n then some ⟨b, h⟩ else none

variable {n : Nat}

@[simp] theorem ofBytes?_val (a : Arr n) : ofBytes? n a.1 = some a := by
  simp [ofBytes?, a.2]

variable {b : Bytes}

theorem ofBytes?_eq_some {a : Arr n} : ofBytes? n b = some a ↔ b = a.1 := by
  constructor
  · intro h
    unfold ofBytes? at h
    split at h
    · cases h; rfl
    · cases h
  · rintro rfl
    exact ofBytes?_val a

theorem ofBytes?_eq_none : ofBytes? n b = none ↔ b.length ≠ n := by
  unfold ofBytes?
  split <;> simp_all

def fit (n : Nat) (b : Bytes) : Arr n :=
  ⟨(b ++ List.replicate n 0).take n, by simp⟩

theorem fit_val_of_length (h : b.length = n) : (fit n b).1 = b := by
  simp [fit, ← h]

@[simp] theorem fit_val (a : Arr n) : fit n a.1 = a :=
  Subtype.ext (fit_val_of_length a.2)

theorem take_fit {m : Nat} (hm : m ≤ n) (hb : m ≤ b.length) : (fit n b).1.take m = b.take m := by
  rw [fit, List.take_take, Nat.min_eq_left hm, List.take_append_of_le_length hb]

end Arr

/-! ## Hexadecimal text -/

def hexDigit (n : Nat) : Char :=
  if n < 10 then Char.ofNat (48 + n) else Char.ofNat (87 + n)

def hexVal (c : Char) : Option Nat :=
  if '0' ≤ c ∧ c ≤ '9' then some (c.toNat - 48)
  else if 'a' ≤ c ∧ c ≤ 'f' then some (c.toNat - 87)
  else if 'A' ≤ c ∧ c ≤ 'F' then some (c.toNat - 55)
  else none

def hexChars (b : Bytes) : List Char :=
  b.flatMap fun x => [hexDigit (x.toNat / 16), hexDigit (x.toNat % 16)]

def hexEncode (b : Bytes) : String := String.ofList (hexChars b)

/-- Why a text is not the hexadecimal form of a byte string. -/
inductive FromHexError where
  | invalidHexCharacter (c : Char) (index : Nat)
  | oddLength
  | invalidStringLength
deriving DecidableEq, Repr

def FromHexError.text : FromHexError → String
  | .invalidHexCharacter c i => s!"Invalid character '{c}' at position {i}"
  | .oddLength => "Odd number of digits"
  | .invalidStringLength => "Invalid string length"

def hexDecodeChars (i : Nat) : List Char → Except FromHexError Bytes
  | [] => .ok []
  | [c] => .error (.invalidHexCharacter c i)
  | c :: d :: rest =>
    match hexVal c, hexVal d with
    | none, _ => .error (.invalidHexCharacter c i)
    | some _, none => .error (.invalidHexCharacter d (i + 1))
    | some hi, some lo =>
      match hexDecodeChars (i + 2) rest with
      | .error e => .error e
      | .ok b => .ok (UInt8.ofNat (16 * hi + lo) :: b)

def hexDecode (s : String) : Except FromHexError Bytes :=
  if s.toList.length % 2 = 1 then .error .oddLength else hexDecodeChars 0 s.toList

def hexDecodeToSlice (n : Nat) (s : String) : Except FromHexError (Arr n) :=
  if s.toList.length % 2 = 1 then .error .oddLength
  else if s.toList.length / 2 ≠ n then .error .invalidStringLength
  else (hexDecodeChars 0 s.toList).map (Arr.fit n)

theorem hexVal_hexDigit : ∀ n < 16, hexVal (hexDigit n) = some n := by decide

theorem hexDecodeChars_hexChars (b : Bytes) : ∀ i, hexDecodeChars i (hexChars b) = .ok b := by
  induction b with
  | nil => intro i; rfl
  | cons x t ih =>
    intro i
    have hx : x.toNat < 256 := x.toNat_lt
    have hh := hexVal_hexDigit (x.toNat / 16) (by omega)
    have hl := hexVal_hexDigit (x.toNat % 16) (by omega)
    have hc : hexChars (x :: t)
        = hexDigit (x.toNat / 16) :: hexDigit (x.toNat % 16) :: hexChars t := rfl
    have hv : 16 * (x.toNat / 16) + x.toNat % 16 = x.toNat := by omega
    simp only [hc, hexDecodeChars, hh, hl, ih, hv, UInt8.ofNat_toNat]

theorem length_hexChars (b : Bytes) : (hexChars b).length = 2 * b.length := by
  induction b with
  | nil => rfl
  | cons x t ih =>
    have hc : hexChars (x :: t)
        = hexDigit (x.toNat / 16) :: hexDigit (x.toNat % 16) :: hexChars t := rfl
    rw [hc]
    simp only [List.length_cons, ih]
    omega

theorem mem_hexChars {b : Bytes} {c : Char} (h : c ∈ hexChars b) : ∃ n < 16, c = hexDigit n := by
  obtain ⟨x, -, hx⟩ := List.mem_flatMap.mp h
  have hl : x.toNat < 256 := x.toNat_lt
  have hc : c = hexDigit (x.toNat / 16) ∨ c = hexDigit (x.toNat % 16) := by simpa using hx
  rcases hc with rfl | rfl
  · exact ⟨_, by omega, rfl⟩
  · exact ⟨_, by omega, rfl⟩

/-- **Decoding undoes encoding.** -/
@[simp] theorem hexDecode_hexEncode (b : Bytes) : hexDecode (hexEncode b) = .ok b := by
  have he : (hexEncode b).toList.length % 2 = 0 := by
    simp [hexEncode, length_hexChars]
  unfold hexDecode
  rw [if_neg (by omega)]
  simp [hexEncode, hexDecodeChars_hexChars]

@[simp] theorem hexDecodeToSlice_hexEncode {n : Nat} (a : Arr n) : hexDecodeToSlice n (hexEncode a.1) = .ok a := by
  have hl : (hexEncode a.1).toList.length = 2 * n := by
    simp [hexEncode, length_hexChars, a.2]
  unfold hexDecodeToSlice
  rw [if_neg (by omega), if_neg (by omega)]
  simp [hexEncode, hexDecodeChars_hexChars, Except.map]

end SCMessenger
