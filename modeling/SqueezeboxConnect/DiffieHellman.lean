import Mathlib.Data.Nat.ModEq
import SqueezeboxConnect.ByteFields

/-!
# The key exchange with the access point

Both sides raise the generator to their private key, send the result as bytes
and raise what they receive to their private key again. The power is computed by
squaring, with the exponent shifted to the right until nothing is left of it.

Big numbers have no bound. How they are written is left to `num_bigint`: bytes,
most significant first, from which the number is read again.
-/

namespace DiffieHellman

open ByteFields

section Powers

def powmLoop (modulus base exp result : Nat) : Nat :=
  if exp = 0 then result
  else
    powmLoop modulus (base * base % modulus) (exp >>> 1)
      (if exp % 2 = 1 then result * base % modulus else result)
termination_by exp
decreasing_by
  rw [Nat.shiftRight_one]
  omega

def powm (base exp modulus : Nat) : Nat := powmLoop modulus base exp 1

variable {modulus : Nat}

/-- The low bit of the exponent is multiplied in and the others are left to the square. -/
theorem step_modEq (base exp result : Nat) :
    (if exp % 2 = 1 then result * base % modulus
      else result) * (base * base % modulus) ^ (exp / 2) ≡
      result * base ^ exp [MOD modulus] := by
  have square : (base * base % modulus) ^ (exp / 2) ≡ base ^ (2 * (exp / 2)) [MOD modulus] := by
    rw [Nat.pow_mul, Nat.pow_two]
    exact (Nat.mod_modEq _ _).pow _
  split
  · next odd =>
    have whole : exp = 1 + 2 * (exp / 2) := by omega
    calc result * base % modulus * (base * base % modulus) ^ (exp / 2)
        ≡ result * base * base ^ (2 * (exp / 2)) [MOD modulus] := (Nat.mod_modEq _ _).mul square
      _ = result * base ^ exp := by
        rw [Nat.mul_assoc, ← Nat.pow_succ', Nat.succ_eq_one_add, ← whole]
  · next even =>
    have whole : exp = 2 * (exp / 2) := by omega
    calc result * (base * base % modulus) ^ (exp / 2)
        ≡ result * base ^ (2 * (exp / 2)) [MOD modulus] := square.mul_left result
      _ = result * base ^ exp := by rw [← whole]

theorem powmLoop_eq {result : Nat} (reduced : result < modulus) (base exp : Nat) :
    powmLoop modulus base exp result = result * base ^ exp % modulus := by
  -- what the result still lacks is the power of the base that is left
  induction exp using Nat.strongRecOn generalizing base result with
  | ind exp ih =>
    rw [powmLoop]
    split
    · next done => rw [done, Nat.pow_zero, Nat.mul_one, Nat.mod_eq_of_lt reduced]
    · next left =>
      have reduced' : (if exp % 2 = 1 then result * base % modulus else result) < modulus := by
        split
        · exact Nat.mod_lt _ (Nat.zero_lt_of_lt reduced)
        · exact reduced
      rw [Nat.shiftRight_one, ih (exp / 2) (by omega) reduced']
      exact step_modEq base exp result

theorem powm_eq (proper : 1 < modulus) (base exp : Nat) :
    powm base exp modulus = base ^ exp % modulus := by
  rw [powm, powmLoop_eq proper, Nat.one_mul]

end Powers

/-- `BigUint::to_bytes_be`. -/
structure BigUint where
  toBytesBe : Nat → List UInt8
  beNat_toBytesBe : ∀ n, beNat (toBytesBe n) = n

def DH_GENERATOR : Nat := beNat [0x02]

def DH_PRIME : Nat :=
  beNat [
    0xff, 0xff, 0xff, 0xff, 0xff, 0xff, 0xff, 0xff, 0xc9, 0x0f, 0xda, 0xa2, 0x21, 0x68, 0xc2,
    0x34, 0xc4, 0xc6, 0x62, 0x8b, 0x80, 0xdc, 0x1c, 0xd1, 0x29, 0x02, 0x4e, 0x08, 0x8a, 0x67,
    0xcc, 0x74, 0x02, 0x0b, 0xbe, 0xa6, 0x3b, 0x13, 0x9b, 0x22, 0x51, 0x4a, 0x08, 0x79, 0x8e,
    0x34, 0x04, 0xdd, 0xef, 0x95, 0x19, 0xb3, 0xcd, 0x3a, 0x43, 0x1b, 0x30, 0x2b, 0x0a, 0x6d,
    0xf2, 0x5f, 0x14, 0x37, 0x4f, 0xe1, 0x35, 0x6d, 0x6d, 0x51, 0xc2, 0x45, 0xe4, 0x85, 0xb5,
    0x76, 0x62, 0x5e, 0x7e, 0xc6, 0xf4, 0x4c, 0x42, 0xe9, 0xa6, 0x3a, 0x36, 0x20, 0xff, 0xff,
    0xff, 0xff, 0xff, 0xff, 0xff, 0xff]

theorem one_lt_prime : 1 < DH_PRIME := by decide +kernel

/-- The public key is the one that belongs to the private key. -/
structure DhLocalKeys where
  privateKey : Nat
  publicKey : Nat
  belongs : publicKey = powm DH_GENERATOR privateKey DH_PRIME

namespace DhLocalKeys

/-- The keys of a private key of any size. -/
def ofPrivateKey (privateKey : Nat) : DhLocalKeys :=
  ⟨privateKey, powm DH_GENERATOR privateKey DH_PRIME, rfl⟩

variable (big : BigUint)

def publicKeyBytes (keys : DhLocalKeys) : List UInt8 := big.toBytesBe keys.publicKey

def sharedSecret (keys : DhLocalKeys) (remoteKey : List UInt8) : List UInt8 :=
  big.toBytesBe (powm (beNat remoteKey) keys.privateKey DH_PRIME)

end DhLocalKeys

theorem sharedSecret_eq (big : BigUint) (own other : DhLocalKeys) :
    own.sharedSecret big (other.publicKeyBytes big) =
      big.toBytesBe (DH_GENERATOR ^ (other.privateKey * own.privateKey) % DH_PRIME) := by
  rw [DhLocalKeys.sharedSecret, DhLocalKeys.publicKeyBytes, big.beNat_toBytesBe, other.belongs,
    powm_eq one_lt_prime, powm_eq one_lt_prime, ← Nat.pow_mod, Nat.pow_mul]

/-- `powm` computes the power for every modulus above one, and two parties come to the same
shared secret from each other's public keys. -/
theorem secrets_agree (big : BigUint) (base exp modulus : Nat) (proper : 1 < modulus)
    (alice bob : DhLocalKeys) :
    powm base exp modulus = base ^ exp % modulus ∧
      alice.sharedSecret big (bob.publicKeyBytes big) =
        bob.sharedSecret big (alice.publicKeyBytes big) := by
  refine ⟨powm_eq proper base exp, ?_⟩
  rw [sharedSecret_eq, sharedSecret_eq, Nat.mul_comm]

/-- No byte for zero, and one byte more for every factor of 256. -/
def shortest (n : Nat) : List UInt8 :=
  if n = 0 then [] else shortest (n / 256) ++ [UInt8.ofNat n]

theorem beNat_shortest (n : Nat) : beNat (shortest n) = n := by
  induction n using Nat.strongRecOn with
  | ind n ih =>
    rw [shortest]
    split
    · next zero => rw [zero]; rfl
    · next left =>
      have front := ih (n / 256) (by omega)
      rw [beNat] at front ⊢
      rw [List.foldl_append, front, List.foldl_cons, List.foldl_nil, UInt8.toNat_ofNat']
      omega

theorem smallKeys_agree :
    let big : BigUint := ⟨shortest, beNat_shortest⟩
    powm 3 5 7 = 3 ^ 5 % 7 ∧
      (DhLocalKeys.ofPrivateKey 6).sharedSecret big
          ((DhLocalKeys.ofPrivateKey 11).publicKeyBytes big) =
        (DhLocalKeys.ofPrivateKey 11).sharedSecret big
          ((DhLocalKeys.ofPrivateKey 6).publicKeyBytes big) :=
  secrets_agree _ 3 5 7 (by decide) (.ofPrivateKey 6) (.ofPrivateKey 11)

end DiffieHellman
