import Mathlib.Logic.Relation
import SCMessenger.Lib.Bytes

/-!
# Cryptographic primitives and what is assumed of them

One record of functions over an abstract type `K` of secrets: the ideal statements below cannot hold of a
finite type.  Public data is concrete bytes, and random values are arguments.
-/

namespace SCMessenger

/-- A part of the input of a key derivation: a secret value or public bytes. -/
inductive Material (K : Type) where
  | secret (k : K)
  | raw (b : Bytes)
deriving DecidableEq

/-- The primitives over a type `K` of secret values. -/
structure Primitives (K : Type) where
  /-- The all-zero secret. -/
  zeroKey : K
  /-- Key derivation under a context from concatenated material. -/
  deriveKey : String → List (Material K) → K
  /-- The same derivation where input and output are public. -/
  deriveBytes : String → Bytes → Arr 32
  /-- The hash of public bytes. -/
  blake3 : Bytes → Arr 32
  /-- The hash of a secret value. -/
  blake3Secret : K → Arr 32
  sha512 : Bytes → Arr 64
  /-- The X25519 public key of a secret scalar. -/
  x25519Public : Arr 32 → Arr 32
  diffieHellman : Arr 32 → Arr 32 → K
  /-- Whether a shared secret is not the all-zero value of a low-order key. -/
  wasContributory : K → Bool
  /-- The Ed25519 verifying key of a signing key. -/
  edPublic : Arr 32 → Arr 32
  /-- Decompression of an Edwards point and its Montgomery form. -/
  edToMontgomery : Arr 32 → Option (Arr 32)
  /-- Whether 32 bytes are a verifying key. -/
  edKeyValid : Arr 32 → Bool
  edSign : Arr 32 → Bytes → Arr 64
  edVerify : Arr 32 → Bytes → Arr 64 → Bool
  /-- The ML-KEM-768 encapsulation key of a key-generation seed. -/
  mlkemPublic : Arr 64 → Arr 1184
  /-- Encapsulation under a key with given randomness: ciphertext and secret. -/
  mlkemEncapsulate : Arr 1184 → Arr 32 → Arr 1088 × K
  /-- Decapsulation with the private key of a seed; it never fails (implicit rejection). -/
  mlkemDecapsulate : Arr 64 → Arr 1088 → K
  /-- Authenticated encryption: key, nonce, plaintext, associated data. -/
  aeadSeal : K → Arr 24 → Bytes → Bytes → Bytes
  /-- Authenticated decryption: key, nonce, ciphertext, associated data. -/
  aeadOpen : K → Arr 24 → Bytes → Bytes → Option Bytes

variable {K : Type}

/-- Diffie-Hellman commutes, separates public keys, and is contributory between generated keys. -/
structure DhIdeal (P : Primitives K) : Prop where
  comm : ∀ a b, P.diffieHellman a (P.x25519Public b) = P.diffieHellman b (P.x25519Public a)
  inj : ∀ a p q, P.diffieHellman a p = P.diffieHellman a q → p = q
  contributory : ∀ a b, P.wasContributory (P.diffieHellman a (P.x25519Public b)) = true

def DhCommutes (P : Primitives K) : Prop :=
  ∀ a b, P.diffieHellman a (P.x25519Public b) = P.diffieHellman b (P.x25519Public a)

/-- Key derivation is injective, and some rank grows from every secret input to the output. -/
structure KdfIdeal (P : Primitives K) : Prop where
  inj : ∀ c c' m m', P.deriveKey c m = P.deriveKey c' m' → c = c' ∧ m = m'
  acyclic : ∃ rank : K → Nat, ∀ c m k, Material.secret k ∈ m → rank k < rank (P.deriveKey c m)

def Precedes (P : Primitives K) : K → K → Prop :=
  Relation.TransGen fun r k => ∃ c m, Material.secret r ∈ m ∧ k = P.deriveKey c m

namespace Precedes

variable {P : Primitives K}

theorem derive (P : Primitives K) {r : K} {c : String} {m : List (Material K)} (h : Material.secret r ∈ m) :
    Precedes P r (P.deriveKey c m) :=
  .single ⟨c, m, h, rfl⟩

theorem trans {a b c : K} (ha : Precedes P a b) (hb : Precedes P b c) : Precedes P a c :=
  Relation.TransGen.trans ha hb

theorem irrefl (hk : KdfIdeal P) (k : K) : ¬ Precedes P k k := by
  obtain ⟨r, hr⟩ := hk.acyclic
  have hl : ∀ {a b : K}, Precedes P a b → r a < r b := by
    intro a b h
    induction h with
    | single hstep =>
      obtain ⟨c, m, hm, rfl⟩ := hstep
      exact hr c m _ hm
    | tail _ hstep ih =>
      obtain ⟨c, m, hm, rfl⟩ := hstep
      exact Nat.lt_trans ih (hr c m _ hm)
  exact fun h => Nat.lt_irrefl _ (hl h)

end Precedes

/-- Decapsulation returns the secret under the right key and another one under any other. -/
structure KemIdeal (P : Primitives K) : Prop where
  correct : ∀ s r, P.mlkemDecapsulate s (P.mlkemEncapsulate (P.mlkemPublic s) r).1
    = (P.mlkemEncapsulate (P.mlkemPublic s) r).2
  other : ∀ s p r, P.mlkemPublic s ≠ p →
    P.mlkemDecapsulate s (P.mlkemEncapsulate p r).1 ≠ (P.mlkemEncapsulate p r).2

/-- A verifying key accepts the signatures of its signing key. -/
structure EdCorrect (P : Primitives K) : Prop where
  valid : ∀ s, P.edKeyValid (P.edPublic s) = true
  verify_sign : ∀ s m, P.edVerify (P.edPublic s) m (P.edSign s m) = true

/-- A ciphertext opens exactly under the key, nonce and associated data it was sealed with. -/
structure AeadIdeal (P : Primitives K) : Prop where
  open_iff : ∀ k n c a p, P.aeadOpen k n c a = some p ↔ c = P.aeadSeal k n p a
  inj : ∀ k k' n n' p p' a a', P.aeadSeal k n p a = P.aeadSeal k' n' p' a' →
    k = k' ∧ n = n' ∧ p = p' ∧ a = a'

namespace AeadIdeal

variable {P : Primitives K}

theorem open_seal (h : AeadIdeal P) (k : K) (n : Arr 24) (p a : Bytes) :
    P.aeadOpen k n (P.aeadSeal k n p a) a = some p :=
  (h.open_iff _ _ _ _ _).mpr rfl

theorem key_unique (h : AeadIdeal P) {k k' : K} {n n' : Arr 24} {c a a' p p' : Bytes}
    (h1 : P.aeadOpen k n c a = some p) (h2 : P.aeadOpen k' n' c a' = some p') : k = k' := by
  rw [h.open_iff] at h1 h2
  exact (h.inj _ _ _ _ _ _ _ _ (h1.symm.trans h2)).1

end AeadIdeal

end SCMessenger
