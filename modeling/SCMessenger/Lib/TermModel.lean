import Mathlib.Data.List.DropRight
import Mathlib.Tactic.Ring
import SCMessenger.Lib.Primitives

/-!
# A term model of the primitives

Secrets are formal terms, and a ciphertext spells out its key, nonce and associated data.  The model is
computable and satisfies every ideal assumption at once.
-/

namespace SCMessenger

/-- A secret value as a formal term. -/
inductive Term where
  | bytes (b : Bytes)
  | str (s : String)
  | pair (l r : Term)
deriving DecidableEq

namespace Term

/-! ## A self-delimiting code for terms -/

def codeString : Bytes → Bytes
  | [] => [0]
  | x :: t => 1 :: x :: codeString t

/-- The bytes of a number, least significant first; the first argument bounds their count. -/
def natBytes : Nat → Nat → Bytes
  | 0, _ => []
  | fuel + 1, n => if n = 0 then [] else UInt8.ofNat n :: natBytes fuel (n / 256)

/-- A string without its final zeros, and their number: the model's keys are mostly zeros. -/
def codeBytes (b : Bytes) : Bytes :=
  let core := b.rdropWhile (· == 0)
  codeString core ++ codeString (natBytes b.length (b.length - core.length))

def charBytes (c : Char) : Bytes :=
  [UInt8.ofNat (c.toNat / 65536), UInt8.ofNat (c.toNat / 256), UInt8.ofNat c.toNat]

def codeChars : List Char → Bytes
  | [] => [0]
  | c :: t => 1 :: (charBytes c ++ codeChars t)

def code : Term → Bytes
  | .bytes b => 0 :: codeBytes b
  | .str s => 1 :: codeChars s.toList
  | .pair l r => 2 :: (code l ++ code r)

theorem codeString_append_inj :
    ∀ {a b u v : Bytes}, codeString a ++ u = codeString b ++ v → a = b ∧ u = v := by
  intro a
  induction a with
  | nil =>
    intro b u v h
    cases b with
    | nil => simpa [codeString] using h
    | cons y t => simp [codeString] at h
  | cons x s ih =>
    intro b u v h
    cases b with
    | nil => simp [codeString] at h
    | cons y t =>
      simp only [codeString, List.cons_append, List.cons.injEq, true_and] at h
      obtain ⟨rfl, ht⟩ := h
      obtain ⟨rfl, rfl⟩ := ih ht
      exact ⟨rfl, rfl⟩

theorem natBytes_inj : ∀ {f g n m : Nat}, n ≤ f → m ≤ g → natBytes f n = natBytes g m → n = m := by
  intro f
  induction f with
  | zero =>
    intro g n m hn hm h
    cases g with
    | zero => omega
    | succ g =>
      simp only [natBytes] at h
      split at h
      · omega
      · cases h
  | succ f ih =>
    intro g n m hn hm h
    cases g with
    | zero =>
      simp only [natBytes] at h
      split at h
      · omega
      · cases h
    | succ g =>
      simp only [natBytes] at h
      split at h <;> split at h
      · omega
      · cases h
      · cases h
      · obtain ⟨hb, ht⟩ := List.cons.inj h
        have hd := ih (by omega) (by omega) ht
        have hmo := congrArg UInt8.toNat hb
        simp only [UInt8.toNat_ofNat'] at hmo
        omega

theorem rdropWhile_append_zeros (b : Bytes) :
    b.rdropWhile (· == 0) ++ List.replicate (b.length - (b.rdropWhile (· == 0)).length) 0 = b := by
  induction b using List.reverseRecOn with
  | nil => simp
  | append_singleton b x ih =>
    by_cases hx : x = 0
    · have hl : (b.rdropWhile (· == 0)).length ≤ b.length :=
        (List.rdropWhile_prefix _ b).length_le
      rw [List.rdropWhile_concat_pos _ _ _ (by simp [hx]), List.length_append,
        List.length_singleton, Nat.succ_sub hl, List.replicate_succ', ← List.append_assoc, ih, hx]
    · rw [List.rdropWhile_concat_neg _ _ _ (by simpa using hx)]
      simp

theorem codeBytes_append_inj {a b u v : Bytes} (h : codeBytes a ++ u = codeBytes b ++ v) :
    a = b ∧ u = v := by
  simp only [codeBytes, List.append_assoc] at h
  obtain ⟨hc, ht⟩ := codeString_append_inj h
  obtain ⟨hn, rfl⟩ := codeString_append_inj ht
  have hz := natBytes_inj (Nat.sub_le _ _) (Nat.sub_le _ _) hn
  refine ⟨?_, rfl⟩
  rw [← rdropWhile_append_zeros a, ← rdropWhile_append_zeros b, hz, hc]

theorem scalar_lt (c : Char) : c.toNat < 1114112 := by
  have hv := c.valid
  simp only [UInt32.isValidChar, Nat.isValidChar] at hv
  change c.val.toNat < 1114112
  omega

theorem charBytes_inj {c d : Char} (h : charBytes c = charBytes d) : c = d := by
  -- a scalar value is below 0x110000, so three bytes hold it
  have hc := scalar_lt c
  have hd := scalar_lt d
  simp only [charBytes, List.cons.injEq, and_true] at h
  obtain ⟨h1, h2, h3⟩ := h
  have e1 := congrArg UInt8.toNat h1
  have e2 := congrArg UInt8.toNat h2
  have e3 := congrArg UInt8.toNat h3
  simp only [UInt8.toNat_ofNat'] at e1 e2 e3
  exact Char.toNat_inj.mp (by omega)

theorem codeChars_append_inj :
    ∀ {a b : List Char} {u v : Bytes}, codeChars a ++ u = codeChars b ++ v → a = b ∧ u = v := by
  intro a
  induction a with
  | nil =>
    intro b u v h
    cases b with
    | nil => simpa [codeChars] using h
    | cons y t => simp [codeChars] at h
  | cons x s ih =>
    intro b u v h
    cases b with
    | nil => simp [codeChars] at h
    | cons y t =>
      simp only [codeChars, List.cons_append, List.cons.injEq, true_and, List.append_assoc] at h
      obtain ⟨hc, ht⟩ := List.append_inj h rfl
      obtain rfl := charBytes_inj hc
      obtain ⟨rfl, rfl⟩ := ih ht
      exact ⟨rfl, rfl⟩

/-- **Term codes are self-delimiting**: a code is read back in one way, whatever follows it. -/
theorem code_append_inj : ∀ {s t : Term} {u v : Bytes}, code s ++ u = code t ++ v → s = t ∧ u = v := by
  intro s
  induction s with
  | bytes a =>
    intro t u v h
    cases t with
    | bytes b =>
      simp only [code, List.cons_append, List.cons.injEq, true_and] at h
      obtain ⟨rfl, rfl⟩ := codeBytes_append_inj h
      exact ⟨rfl, rfl⟩
    | str s => simp [code] at h
    | pair l r => simp [code] at h
  | str a =>
    intro t u v h
    cases t with
    | bytes b => simp [code] at h
    | str b =>
      simp only [code, List.cons_append, List.cons.injEq, true_and] at h
      obtain ⟨hs, rfl⟩ := codeChars_append_inj h
      exact ⟨congrArg Term.str (String.toList_inj.mp hs), rfl⟩
    | pair l r => simp [code] at h
  | pair l r ihl ihr =>
    intro t u v h
    cases t with
    | bytes b => simp [code] at h
    | str s => simp [code] at h
    | pair l' r' =>
      simp only [code, List.cons_append, List.cons.injEq, true_and, List.append_assoc] at h
      obtain ⟨rfl, hr⟩ := ihl h
      obtain ⟨rfl, rfl⟩ := ihr hr
      exact ⟨rfl, rfl⟩

/-! ## Building terms -/

def size : Term → Nat
  | .bytes _ => 0
  | .str _ => 0
  | .pair l r => size l + size r + 1

def ofList : List Term → Term
  | [] => .bytes []
  | t :: ts => .pair t (ofList ts)

def ofMaterial : Material Term → Term
  | .secret t => .pair (.bytes []) t
  | .raw b => .bytes b

theorem ofList_inj : ∀ {s t : List Term}, ofList s = ofList t → s = t := by
  intro s
  induction s with
  | nil => intro t h; cases t with
      | nil => rfl
      | cons b t => cases h
  | cons a s ih => intro t h; cases t with
      | nil => cases h
      | cons b t =>
        simp only [ofList, pair.injEq] at h
        rw [h.1, ih h.2]

theorem ofMaterial_inj : Function.Injective ofMaterial := by
  intro a b h
  cases a <;> cases b <;> simp_all [ofMaterial]

theorem size_le_ofList {t : Term} : ∀ {l : List Term}, t ∈ l → size t < size (ofList l) := by
  intro l
  induction l with
  | nil => intro h; cases h
  | cons a s ih =>
    intro h
    rcases List.mem_cons.mp h with rfl | hm
    · simp only [ofList, size]; omega
    · have := ih hm
      simp only [ofList, size]; omega

def flatten : Term → Bytes
  | .bytes b => b
  | .str _ => []
  | .pair l r => flatten l ++ flatten r

def unordered (a b : Bytes) : Term :=
  match compare a b with
  | .lt | .eq => .pair (.bytes a) (.bytes b)
  | .gt => .pair (.bytes b) (.bytes a)

theorem unordered_comm (a b : Bytes) : unordered a b = unordered b a := by
  have hs : compare b a = (compare a b).swap := Std.OrientedCmp.eq_swap
  unfold unordered
  rw [hs]
  cases h : compare a b with
  | lt => rfl
  | eq => rw [Std.LawfulEqCmp.eq_of_compare h]; rfl
  | gt => rfl

theorem unordered_cases (a b : Bytes) :
    unordered a b = .pair (.bytes a) (.bytes b) ∨ unordered a b = .pair (.bytes b) (.bytes a) := by
  unfold unordered
  split
  · exact .inl rfl
  · exact .inl rfl
  · exact .inr rfl

theorem unordered_inj {a b c : Bytes} (h : unordered a b = unordered a c) : b = c := by
  rcases unordered_cases a b with hb | hb <;> rcases unordered_cases a c with hc | hc <;>
    rw [hb, hc, pair.injEq, bytes.injEq, bytes.injEq] at h
  · exact h.2
  · exact h.2.trans h.1
  · exact h.1.trans h.2
  · exact h.1

end Term

/-! ## The model -/

def termHeader (k : Term) (n : Arr 24) (a : Bytes) : Bytes :=
  k.code ++ n.1 ++ Term.codeBytes a

/-- The primitives over formal terms.  A public key is its secret: nothing is hidden. -/
def termPrimitives : Primitives Term where
  zeroKey := .bytes []
  deriveKey c m := .pair (.str c) (Term.ofList (m.map Term.ofMaterial))
  deriveBytes _ b := Arr.fit 32 b
  blake3 b := Arr.fit 32 b
  blake3Secret t := Arr.fit 32 t.flatten
  sha512 b := Arr.fit 64 b
  x25519Public a := a
  diffieHellman a p := Term.unordered a.1 p.1
  wasContributory _ := true
  edPublic a := a
  edToMontgomery a := some a
  edKeyValid _ := true
  edSign s m := Arr.fit 64 (s.1 ++ m)
  edVerify v m s := decide (s = Arr.fit 64 (v.1 ++ m))
  mlkemPublic s := Arr.fit 1184 s.1
  mlkemEncapsulate p r := (Arr.fit 1088 (r.1 ++ p.1), .pair (.bytes r.1) (.bytes p.1))
  mlkemDecapsulate s c :=
    if c = Arr.fit 1088 (c.1.take 32 ++ (Arr.fit 1184 s.1).1) then
      .pair (.bytes (c.1.take 32)) (.bytes (Arr.fit 1184 s.1).1)
    else .pair (.bytes c.1) (.bytes s.1)
  aeadSeal k n p a := termHeader k n a ++ p
  aeadOpen k n c a :=
    if (termHeader k n a).isPrefixOf c then some (c.drop (termHeader k n a).length) else none

theorem termHeader_append_inj {k k' : Term} {n n' : Arr 24} {a a' p p' : Bytes}
    (h : termHeader k n a ++ p = termHeader k' n' a' ++ p') : k = k' ∧ n = n' ∧ p = p' ∧ a = a' := by
  simp only [termHeader, List.append_assoc] at h
  obtain ⟨rfl, hn⟩ := Term.code_append_inj h
  obtain ⟨hno, ha⟩ := List.append_inj hn (n.2.trans n'.2.symm)
  obtain ⟨rfl, rfl⟩ := Term.codeBytes_append_inj ha
  exact ⟨rfl, Subtype.ext hno, rfl, rfl⟩

theorem termDh : DhIdeal termPrimitives where
  comm a b := Term.unordered_comm a.1 b.1
  inj _ _ _ h := Subtype.ext (Term.unordered_inj h)
  contributory _ _ := rfl

theorem termKdf : KdfIdeal termPrimitives where
  inj c c' m m' h := by
    simp only [termPrimitives, Term.pair.injEq, Term.str.injEq] at h
    exact ⟨h.1, List.map_injective_iff.mpr Term.ofMaterial_inj (Term.ofList_inj h.2)⟩
  acyclic := by
    refine ⟨Term.size, fun c m k hk => ?_⟩
    have hm : Term.ofMaterial (.secret k) ∈ m.map Term.ofMaterial := List.mem_map_of_mem hk
    have hl := Term.size_le_ofList hm
    simp only [termPrimitives, Term.size, Term.ofMaterial] at hl ⊢
    omega

theorem take_fit_append (r : Arr 32) (b : Bytes) : (Arr.fit 1088 (r.1 ++ b)).1.take 32 = r.1 := by
  rw [Arr.take_fit (by omega) (by simp [r.2])]
  exact List.take_left' r.2

theorem termKem : KemIdeal termPrimitives where
  correct s r := by
    have ht := take_fit_append r (Arr.fit 1184 s.1).1
    simp only [termPrimitives, ht, if_true]
  other s p r hp := by
    have ht := take_fit_append r p.1
    simp only [termPrimitives] at hp ⊢
    split
    · intro h
      simp only [Term.pair.injEq, Term.bytes.injEq] at h
      exact hp (Subtype.ext h.2)
    · intro h
      simp only [Term.pair.injEq, Term.bytes.injEq] at h
      have hl := congrArg List.length h.1
      rw [(Arr.fit 1088 (r.1 ++ p.1)).2, r.2] at hl
      omega

theorem termEd : EdCorrect termPrimitives where
  valid _ := rfl
  verify_sign _ _ := decide_eq_true rfl

theorem termAead : AeadIdeal termPrimitives where
  open_iff k n c a p := by
    simp only [termPrimitives]
    constructor
    · intro h
      split at h
      · rename_i hp
        obtain ⟨t, rfl⟩ := List.isPrefixOf_iff_prefix.mp hp
        simpa using h
      · cases h
    · rintro rfl
      rw [if_pos (List.isPrefixOf_iff_prefix.mpr (List.prefix_append _ _))]
      simp
  inj _ _ _ _ _ _ _ _ h := termHeader_append_inj h

end SCMessenger
