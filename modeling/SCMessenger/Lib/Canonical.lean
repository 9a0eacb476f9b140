import SCMessenger.Lib.Bincode

/-!
# Canonical codecs

A codec is canonical if what it reads is what it would have written.  `readVersioned` reads a format whose
values begin with the byte `1`, and an older one for everything else.
-/

namespace SCMessenger

namespace Codec

variable {α β : Type}

def Canonical (c : Codec α) : Prop := ∀ b a rest, c.decode b = some (a, rest) → b = c.encode a ++ rest

theorem Canonical.length_le {c : Codec α} (hc : c.Canonical) {b : Bytes} {a : α}
    (h : c.deserialize b = some a) : (c.encode a).length ≤ b.length := by
  obtain ⟨⟨a', r⟩, hd, rfl⟩ := Option.map_eq_some_iff.mp h
  rw [hc b a' r hd, List.length_append]
  exact Nat.le_add_right _ _

namespace Canonical

variable {c : Codec α} {d : Codec β}

theorem uint (w : Nat) : (Codec.uint w).Canonical := by
  intro b n r h
  simp only [Codec.uint, Option.ite_none_right_eq_some, Option.some.injEq, Prod.mk.injEq] at h
  obtain ⟨hl, rfl, rfl⟩ := h
  have ht : (b.take w).length = w := List.length_take_of_le hl
  have hb := leBytes_leNat (b.take w)
  rw [ht] at hb
  simp only [Codec.uint, hb, List.take_append_drop]

theorem iso {m : α → β} {p : β → α} {h : ∀ b, m (p b) = b} (hc : c.Canonical)
    (hp : ∀ b a r, c.decode b = some (a, r) → c.encode (p (m a)) = c.encode a) :
    (c.iso m p h).Canonical := by
  intro b x r hx
  obtain ⟨⟨a, r'⟩, hd, he⟩ := Option.map_eq_some_iff.mp hx
  cases he
  show b = c.encode (p (m a)) ++ r
  rw [hp b a r hd]
  exact hc b a r hd

theorem pair (hc : c.Canonical) (hd : d.Canonical) : (c.pair d).Canonical := by
  rintro b ⟨a, x⟩ r h
  obtain ⟨⟨a', mid⟩, ha, h⟩ := Option.bind_eq_some_iff.mp h
  obtain ⟨⟨x', r'⟩, hx, he⟩ := Option.map_eq_some_iff.mp h
  cases he
  show b = (c.encode a ++ d.encode x) ++ r
  rw [List.append_assoc, ← hd mid x r hx]
  exact hc b a mid ha

theorem lt_of_decode_uint {w n : Nat} {b r : Bytes} (h : (Codec.uint w).decode b = some (n, r)) :
    n < 256 ^ w := by
  simp only [Codec.uint, Option.ite_none_right_eq_some, Option.some.injEq, Prod.mk.injEq] at h
  obtain ⟨hl, rfl, -⟩ := h
  have hlt := leNat_lt (b.take w)
  rwa [List.length_take_of_le hl] at hlt

theorem u8 : Codec.u8.Canonical := by
  refine iso (uint 1) fun b n r hn => ?_
  have hl : n < 2 ^ 8 := lt_of_decode_uint hn
  rw [UInt8.toNat_ofNat', Nat.mod_eq_of_lt hl]

theorem u32 : Codec.u32.Canonical := by
  refine iso (uint 4) fun b n r hn => ?_
  have hl : n < 2 ^ 32 := lt_of_decode_uint hn
  rw [UInt32.toNat_ofNat', Nat.mod_eq_of_lt hl]

theorem u64 : Codec.u64.Canonical := by
  refine iso (uint 8) fun b n r hn => ?_
  have hl : n < 2 ^ 64 := lt_of_decode_uint hn
  rw [UInt64.toNat_ofNat', Nat.mod_eq_of_lt hl]

theorem bytes : Codec.bytes.Canonical := by
  intro b x r h
  obtain ⟨⟨n, t⟩, hn, h⟩ := Option.bind_eq_some_iff.mp h
  simp only [Option.ite_none_right_eq_some, Option.some.injEq, Prod.mk.injEq] at h
  obtain ⟨hl, rfl, rfl⟩ := h
  show b = ((Codec.uint 8).encode (t.take n).length ++ t.take n) ++ t.drop n
  rw [List.length_take_of_le hl, List.append_assoc, List.take_append_drop]
  exact uint 8 b n t hn

theorem string : Codec.string.Canonical := by
  intro b s r h
  obtain ⟨⟨d, t⟩, hd, h⟩ := Option.bind_eq_some_iff.mp h
  obtain ⟨s', hs, he⟩ := Option.map_eq_some_iff.mp h
  cases he
  have hu8 : s.toUTF8.data.toList = d := by
    simp only [String.fromUTF8?] at hs
    split at hs
    · cases hs
      rfl
    · cases hs
  show b = Codec.bytes.encode s.toUTF8.data.toList ++ r
  rw [hu8]
  exact bytes b d r hd

theorem option (hc : c.Canonical) : c.option.Canonical := by
  intro b o r h
  cases b with
  | nil => cases h
  | cons tag t =>
    simp only [Codec.option] at h
    split at h
    case isTrue hzero =>
      cases h
      rw [hzero]
      rfl
    case isFalse =>
      split at h
      case isTrue hone =>
        obtain ⟨⟨a, r'⟩, ha, he⟩ := Option.map_eq_some_iff.mp h
        cases he
        rw [hone, hc t a _ ha]
        rfl
      case isFalse => cases h

theorem bool : Codec.bool.Canonical := by
  intro b x r h
  cases b with
  | nil => cases h
  | cons tag t =>
    simp only [Codec.bool] at h
    split at h
    case isTrue hzero =>
      cases h
      rw [hzero]
      rfl
    case isFalse =>
      split at h
      case isTrue hone =>
        cases h
        rw [hone]
        rfl
      case isFalse => cases h

theorem variant {i : α → Nat} {o : Nat → Option α} {h : ∀ a, o (i a) = some a}
    (hi : ∀ n a, o n = some a → i a = n) : (Codec.variant i o h).Canonical := by
  intro b a r hb
  obtain ⟨⟨n, t⟩, hn, hb⟩ := Option.bind_eq_some_iff.mp hb
  obtain ⟨a', ha, he⟩ := Option.map_eq_some_iff.mp hb
  cases he
  show b = (Codec.uint 4).encode (i a) ++ r
  rw [hi n a ha]
  exact uint 4 b n r hn

end Canonical

/-! ## A new format and an old one -/

def readVersioned (c : Codec α) (old : Codec β) (upgrade : β → α) (data : Bytes) : Option α :=
  match data with
  | [] => none
  | first :: _ => if first = 1 then c.deserialize data else (old.deserialize data).map upgrade

variable {c : Codec α} {old : Codec β} {upgrade : β → α} {a : α} {x : β} {first : UInt8} {data : Bytes}

theorem readVersioned_of_head (hf : data.head? = some first) :
    readVersioned c old upgrade data
      = if first = 1 then c.deserialize data else (old.deserialize data).map upgrade := by
  cases data with
  | nil => cases hf
  | cons b t =>
    cases hf
    rfl

theorem readVersioned_serialize (hf : c.fits a) (hfi : (c.serialize a).head? = some 1) :
    readVersioned c old upgrade (c.serialize a) = some a := by
  rw [readVersioned_of_head hfi, if_pos rfl, c.deserialize_serialize_self hf]

/-- A value in the old format is read as itself exactly if it does not look like the new one. -/
theorem readVersioned_old_iff (hc : c.Canonical) (hf : old.fits x)
    (hl : (old.serialize x).length < (c.serialize a).length)
    (hfi : (old.serialize x).head? = some first) :
    readVersioned c old upgrade (old.serialize x) = some a ↔ first ≠ 1 ∧ upgrade x = a := by
  rw [readVersioned_of_head hfi]
  split
  case isTrue hone =>
    constructor
    · intro h
      exact absurd hl (Nat.not_lt.mpr (hc.length_le h))
    · rintro ⟨hn, -⟩
      exact absurd hone hn
  case isFalse hn =>
    rw [old.deserialize_serialize_self hf, Option.map_some, Option.some.injEq]
    exact (and_iff_right hn).symm

end Codec

end SCMessenger
