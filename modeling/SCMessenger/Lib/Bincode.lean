import SCMessenger.Lib.Bytes

/-!
# The bincode format

Codecs put together the way bincode writes a value.  A `Codec` carries the proof that what it writes it
reads back, whatever follows.
-/

namespace SCMessenger

/-! ## Little-endian numbers -/

def leBytes : Nat → Nat → Bytes
  | 0, _ => []
  | w + 1, n => UInt8.ofNat n :: leBytes w (n / 256)

def leNat : Bytes → Nat
  | [] => 0
  | b :: bs => b.toNat + 256 * leNat bs

@[simp] theorem leBytes_length (w n : Nat) : (leBytes w n).length = w := by
  induction w generalizing n with
  | zero => rfl
  | succ w ih => simp [leBytes, ih]

theorem leBytes_succ (w n : Nat) : leBytes (w + 1) n = UInt8.ofNat n :: leBytes w (n / 256) := rfl

theorem leNat_append (a b : Bytes) : leNat (a ++ b) = leNat a + 256 ^ a.length * leNat b := by
  induction a with
  | nil => simp [leNat]
  | cons x a ih =>
    rw [List.cons_append, leNat, leNat, ih, List.length_cons, Nat.pow_succ', Nat.mul_add, Nat.add_assoc,
      Nat.mul_assoc]

theorem leNat_leBytes (w n : Nat) : leNat (leBytes w n) = n % 256 ^ w := by
  induction w generalizing n with
  | zero => simp [leBytes, leNat, Nat.mod_one]
  | succ w ih =>
    have hl : (UInt8.ofNat n).toNat = n % 256 := by simp
    rw [leBytes, leNat, ih, hl, Nat.pow_succ', Nat.mod_mul]

theorem leBytes_inj {w m n : Nat} (hm : m < 256 ^ w) (hn : n < 256 ^ w) (h : leBytes w m = leBytes w n) :
    m = n := by
  have he := congrArg leNat h
  rwa [leNat_leBytes, leNat_leBytes, Nat.mod_eq_of_lt hm, Nat.mod_eq_of_lt hn] at he

theorem leNat_lt (b : Bytes) : leNat b < 256 ^ b.length := by
  induction b with
  | nil => exact Nat.one_pos
  | cons x b ih =>
    have hx : x.toNat < 256 := x.toNat_lt
    rw [leNat, List.length_cons, Nat.pow_succ]
    omega

theorem leBytes_leNat (b : Bytes) : leBytes b.length (leNat b) = b := by
  induction b with
  | nil => rfl
  | cons x b ih =>
    have hx : x.toNat < 256 := x.toNat_lt
    have hl : UInt8.ofNat (x.toNat + 256 * leNat b) = x := by
      apply UInt8.toNat.inj
      rw [UInt8.toNat_ofNat']
      omega
    have hh : (x.toNat + 256 * leNat b) / 256 = leNat b := by omega
    rw [leNat, List.length_cons, leBytes_succ, hl, hh, ih]

theorem leBytes_eq_iff {w m n : Nat} : leBytes w m = leBytes w n ↔ m % 256 ^ w = n % 256 ^ w := by
  constructor
  · intro h
    rw [← leNat_leBytes, h, leNat_leBytes]
  · intro h
    have hm := leBytes_leNat (leBytes w m)
    have hn := leBytes_leNat (leBytes w n)
    rw [leBytes_length, leNat_leBytes] at hm hn
    rw [← hm, h, hn]

/-! ## Codecs -/

/-- How values are written and read from the front of a buffer; `fits` holds of those it can write. -/
structure Codec (α : Type) where
  encode : α → Bytes
  decode : Bytes → Option (α × Bytes)
  fits : α → Prop
  decode_encode : ∀ a rest, fits a → decode (encode a ++ rest) = some (a, rest)

namespace Codec

variable {α β : Type}

def serialize (c : Codec α) (a : α) : Bytes := c.encode a

def deserialize (c : Codec α) (b : Bytes) : Option α := (c.decode b).map Prod.fst

/-- **Round trip**: a value that fits is read back, whatever follows it. -/
theorem deserialize_serialize (c : Codec α) {a : α} (h : c.fits a) (r : Bytes) :
    c.deserialize (c.serialize a ++ r) = some a := by
  rw [deserialize, serialize, c.decode_encode a r h, Option.map_some]

theorem deserialize_serialize_self (c : Codec α) {a : α} (h : c.fits a) :
    c.deserialize (c.serialize a) = some a := by
  have hr := c.deserialize_serialize h []
  rwa [List.append_nil] at hr

def iso (c : Codec α) (make : α → β) (parts : β → α) (h : ∀ b, make (parts b) = b) : Codec β where
  encode b := c.encode (parts b)
  decode b := (c.decode b).map fun (a, rest) => (make a, rest)
  fits b := c.fits (parts b)
  decode_encode b rest hb := by simp [c.decode_encode _ rest hb, h]

def pair (c : Codec α) (d : Codec β) : Codec (α × β) where
  encode p := c.encode p.1 ++ d.encode p.2
  decode b := (c.decode b).bind fun (a, rest) => (d.decode rest).map fun (x, rest') => ((a, x), rest')
  fits p := c.fits p.1 ∧ d.fits p.2
  decode_encode p rest hp := by
    rw [List.append_assoc, c.decode_encode _ _ hp.1]
    simp [d.decode_encode _ rest hp.2]

def uint (w : Nat) : Codec Nat where
  encode n := leBytes w n
  decode b := if w ≤ b.length then some (leNat (b.take w), b.drop w) else none
  fits n := n < 256 ^ w
  decode_encode n rest hn := by
    have hlen : w ≤ (leBytes w n ++ rest).length := by simp
    rw [if_pos hlen, List.take_left' (leBytes_length w n), List.drop_left' (leBytes_length w n),
      leNat_leBytes, Nat.mod_eq_of_lt hn]

def u8 : Codec UInt8 := (uint 1).iso UInt8.ofNat UInt8.toNat fun b => by simp
def u32 : Codec UInt32 := (uint 4).iso UInt32.ofNat UInt32.toNat fun b => by simp
def u64 : Codec UInt64 := (uint 8).iso UInt64.ofNat UInt64.toNat fun b => by simp

def bytes : Codec Bytes where
  encode b := (uint 8).encode b.length ++ b
  decode b := ((uint 8).decode b).bind fun (n, rest) =>
    if n ≤ rest.length then some (rest.take n, rest.drop n) else none
  fits b := b.length < 256 ^ 8
  decode_encode b rest hb := by
    rw [List.append_assoc, (uint 8).decode_encode b.length (b ++ rest) hb]
    simp

def string : Codec String where
  encode s := bytes.encode s.toUTF8.data.toList
  decode b := (bytes.decode b).bind fun (d, rest) =>
    (String.fromUTF8? (ByteArray.mk d.toArray)).map fun s => (s, rest)
  fits s := s.toUTF8.size < 256 ^ 8
  decode_encode s rest hs := by
    have hlen : bytes.fits s.toUTF8.data.toList := by
      rw [show bytes.fits s.toUTF8.data.toList = (s.toUTF8.data.toList.length < 256 ^ 8) from rfl,
        Array.length_toList]
      exact hs
    have hvalid : s.toUTF8.IsValidUTF8 := s.isValidUTF8
    rw [bytes.decode_encode _ rest hlen]
    simp only [Option.bind_some, Array.toArray_toList, String.fromUTF8?, dif_pos hvalid]
    rfl

def option (c : Codec α) : Codec (Option α) where
  encode
    | none => [0]
    | some a => 1 :: c.encode a
  decode
    | [] => none
    | tag :: rest =>
      if tag = 0 then some (none, rest)
      else if tag = 1 then (c.decode rest).map fun (a, rest') => (some a, rest')
      else none
  fits o := ∀ a, o = some a → c.fits a
  decode_encode o rest ho := by
    cases o with
    | none => rfl
    | some a => simp [c.decode_encode a rest (ho a rfl)]

def bool : Codec Bool where
  encode b := [if b then 1 else 0]
  decode
    | [] => none
    | tag :: rest => if tag = 0 then some (false, rest) else if tag = 1 then some (true, rest) else none
  fits _ := True
  decode_encode b rest _ := by cases b <;> rfl

def array (n : Nat) : Codec (Arr n) where
  encode a := a.1
  decode b := (Arr.ofBytes? n (b.take n)).map fun a => (a, b.drop n)
  fits _ := True
  decode_encode a rest _ := by
    rw [List.take_left' a.2, List.drop_left' a.2, Arr.ofBytes?_val, Option.map_some]

def decodeMany (c : Codec α) : Nat → Bytes → Option (List α × Bytes)
  | 0, b => some ([], b)
  | n + 1, b => (c.decode b).bind fun (a, rest) =>
    (c.decodeMany n rest).map fun (as, rest') => (a :: as, rest')

theorem decodeMany_encode (c : Codec α) (r : Bytes) {as : List α} (h : ∀ a ∈ as, c.fits a) :
    c.decodeMany as.length (as.flatMap c.encode ++ r) = some (as, r) := by
  induction as with
  | nil => rfl
  | cons a as ih =>
    have ha := c.decode_encode a (as.flatMap c.encode ++ r) (h a (by simp))
    have has := ih fun b hb => h b (by simp [hb])
    rw [List.flatMap_cons, List.append_assoc, List.length_cons, decodeMany, ha, Option.bind_some]
    simp only [has, Option.map_some]

def vec (c : Codec α) : Codec (List α) where
  encode as := (uint 8).encode as.length ++ as.flatMap c.encode
  decode b := ((uint 8).decode b).bind fun (n, rest) => c.decodeMany n rest
  fits as := as.length < 256 ^ 8 ∧ ∀ a ∈ as, c.fits a
  decode_encode as rest has := by
    rw [List.append_assoc, (uint 8).decode_encode as.length _ has.1, Option.bind_some]
    exact c.decodeMany_encode rest has.2

def variant (index : α → Nat) (ofIndex : Nat → Option α) (h : ∀ a, ofIndex (index a) = some a) :
    Codec α where
  encode a := (uint 4).encode (index a)
  decode b := ((uint 4).decode b).bind fun (n, rest) => (ofIndex n).map fun a => (a, rest)
  fits a := index a < 256 ^ 4
  decode_encode a rest ha := by
    rw [(uint 4).decode_encode (index a) rest ha]
    simp [h]

/-! ## Sizes -/

def FitsBelow (c : Codec α) (n : Nat) : Prop := ∀ a, (c.encode a).length ≤ n → c.fits a

namespace FitsBelow

variable {c : Codec α} {d : Codec β} {n : Nat}

theorem u8 : Codec.u8.FitsBelow n := fun a _ => a.toNat_lt
theorem u32 : Codec.u32.FitsBelow n := fun a _ => a.toNat_lt
theorem u64 : Codec.u64.FitsBelow n := fun a _ => a.toNat_lt

theorem array {m : Nat} : (Codec.array m).FitsBelow n := fun _ _ => trivial
theorem bool : Codec.bool.FitsBelow n := fun _ _ => trivial

theorem bytes (hn : n < 256 ^ 8) : Codec.bytes.FitsBelow n := by
  intro b hb
  have hl : (Codec.bytes.encode b).length = 8 + b.length := by simp [Codec.bytes, uint]
  exact Nat.lt_of_le_of_lt (by omega) hn

theorem iso {m : α → β} {p : β → α} {h : ∀ b, m (p b) = b} (hc : c.FitsBelow n) :
    (c.iso m p h).FitsBelow n := fun b hb => hc (p b) hb

theorem pair (hc : c.FitsBelow n) (hd : d.FitsBelow n) : (c.pair d).FitsBelow n := by
  rintro ⟨a, b⟩ ha
  have hl : (c.encode a).length + (d.encode b).length ≤ n := by
    rw [← List.length_append]
    exact ha
  exact ⟨hc a (by omega), hd b (by omega)⟩

theorem option (hc : c.FitsBelow n) : c.option.FitsBelow n := by
  rintro o ho a rfl
  exact hc a (Nat.le_of_succ_le ho)

end FitsBelow

end Codec

end SCMessenger
