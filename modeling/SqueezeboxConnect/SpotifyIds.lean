import Mathlib.Data.Nat.Digits.Lemmas
import SqueezeboxConnect.SpotifyUri

/-!
# Ids keep their value in text

Writing goes over the four limbs of an id and keeps the digits to the base 62 of
what has been read so far. Reading goes over the digits from the most significant
one, so every value on the way is at most the id itself and none is refused.
-/

namespace SpotifyIds

open Connect Connect.SpotifyId

theorem carryDigits_eq_digits (fuel carry : Nat) (enough : carry < 62 ^ fuel) :
    carryDigits fuel carry = Nat.digits 62 carry := by
  induction fuel generalizing carry with
  | zero =>
    rw [Nat.pow_zero, Nat.lt_one_iff] at enough
    rw [enough, Nat.digits_zero, carryDigits]
  | succ fuel ih =>
    rw [carryDigits]
    split
    · next positive =>
      rw [ih (carry / 62) (Nat.div_lt_of_lt_mul (by rwa [Nat.pow_succ'] at enough)),
        Nat.digits_def' (by decide) positive]
    · next zero => rw [Nat.eq_zero_of_not_pos zero, Nat.digits_zero]

/-- A carry below `2 ^ 32` stays below it, so the `u64` does not overflow. -/
theorem addCarry_digits (n limb : Nat) (small : limb < 2 ^ 32) :
    addCarry (Nat.digits 62 n) limb = Nat.digits 62 (limb + 2 ^ 32 * n) := by
  induction n using Nat.strongRecOn generalizing limb with
  | ind n ih =>
    rcases Nat.eq_zero_or_pos n with rfl | positive
    · rw [Nat.digits_zero, addCarry, addLimb, Nat.mul_zero, Nat.add_zero]
      exact carryDigits_eq_digits 11 limb (by omega)
    · have digit := Nat.mod_lt n (by decide : 0 < 62)
      have fits : limb + n % 62 * 2 ^ 32 < 2 ^ 64 := by omega
      have next := ih (n / 62) (Nat.div_lt_self positive (by decide))
        ((limb + n % 62 * 2 ^ 32) / 62) (by omega)
      have low : (limb + 2 ^ 32 * n) % 62 = (limb + n % 62 * 2 ^ 32) % 62 := by omega
      have high : (limb + 2 ^ 32 * n) / 62 = (limb + n % 62 * 2 ^ 32) / 62 + 2 ^ 32 * (n / 62) := by
        omega
      have whole : 0 < limb + 2 ^ 32 * n := by omega
      rw [Nat.digits_def' (by decide) positive, Nat.digits_def' (by decide) whole, low, high,
        ← next, addCarry, addLimb, Nat.mod_eq_of_lt fits]
      rfl

theorem foldl_limbs (n : Nat) (bounded : n < 2 ^ 128) :
    (limbs n).foldl addCarry [] = Nat.digits 62 n := by
  have start : ([] : List Nat) = Nat.digits 62 0 := Nat.digits_zero 62 |>.symm
  have limb (m : Nat) : m % 2 ^ 32 < 2 ^ 32 := Nat.mod_lt m (by decide)
  simp only [limbs, List.map_cons, List.map_nil, List.foldl_cons, List.foldl_nil]
  rw [start, addCarry_digits _ _ (limb _), addCarry_digits _ _ (limb _),
    addCarry_digits _ _ (limb _), addCarry_digits _ _ (limb _)]
  congr 1
  omega

variable (i : SpotifyId)

/-- The digits of an id, most significant first. -/
def padded : List Nat := (Nat.digitsAppend 62 SIZE_BASE62 i.id.toNat).reverse

theorem toBase62_eq : i.toBase62 = (padded i).map fun b => BASE62_DIGITS.getD b '0' := by
  rw [toBase62, foldl_limbs i.id.toNat i.id.isLt]
  rfl

theorem padded_lt {b : Nat} (digit : b ∈ padded i) : b < 62 :=
  Nat.lt_of_mem_digitsAppend (by decide) SIZE_BASE62 b (List.mem_reverse.mp digit)

theorem length_padded : (padded i).length = SIZE_BASE62 := by
  rw [padded, List.length_reverse]
  exact Nat.length_digitsAppend (by decide) _ (Nat.lt_trans i.id.isLt (by decide))

theorem foldl_padded : (padded i).foldl (fun dst b => 62 * dst + b) 0 = i.id.toNat := by
  have value : Nat.ofDigits 62 (padded i).reverse = i.id.toNat := by
    rw [padded, List.reverse_reverse, Nat.digitsAppend, Nat.ofDigits_append_replicate_zero,
      Nat.ofDigits_digits]
  rw [← value, Nat.ofDigits_eq_foldr, List.foldr_reverse]
  simp only [Nat.cast_id, Nat.add_comm]

theorem digitValue_digit {b : Nat} (digit : b < 62) :
    digitValue (BASE62_DIGITS.getD b '0') = some b := by
  revert b
  decide +kernel

theorem le_foldl (bs : List Nat) (dst : Nat) :
    dst ≤ bs.foldl (fun dst b => 62 * dst + b) dst := by
  induction bs generalizing dst with
  | nil => exact Nat.le_refl dst
  | cons b bs ih => exact Nat.le_trans (by omega) (ih (62 * dst + b))

theorem readBase62_digits (bs : List Nat) (dst : Nat) (digits : ∀ b ∈ bs, b < 62)
    (fits : bs.foldl (fun dst b => 62 * dst + b) dst < 2 ^ 128) :
    readBase62 dst (bs.map fun b => BASE62_DIGITS.getD b '0') =
      .ok (bs.foldl (fun dst b => 62 * dst + b) dst) := by
  induction bs generalizing dst with
  | nil => rfl
  | cons b bs ih =>
    rw [List.foldl_cons] at fits ⊢
    rw [List.map_cons, readBase62, digitValue_digit (digits b List.mem_cons_self)]
    simp only
    rw [if_pos (Nat.lt_of_le_of_lt (le_foldl bs _) fits),
      ih _ (fun b member => digits b (List.mem_cons_of_mem _ member)) fits]

theorem length_toBase62 : i.toBase62.length = SIZE_BASE62 := by
  rw [toBase62_eq, List.length_map, length_padded]

theorem fromBase62_toBase62 : fromBase62 i.toBase62 = .ok i := by
  rw [fromBase62, if_neg (not_not.mpr (length_toBase62 i)), toBase62_eq,
    readBase62_digits (padded i) 0 (fun b digit => padded_lt i digit)
      (by rw [foldl_padded]; exact i.id.isLt), foldl_padded]
  show Except.ok (SpotifyId.mk (BitVec.ofNat 128 i.id.toNat)) = .ok i
  rw [BitVec.ofNat_toNat, BitVec.setWidth_eq]

theorem length_of_fromBase62 {src : List Char} {i : SpotifyId} (read : fromBase62 src = .ok i) :
    src.length = SIZE_BASE62 := by
  by_contra other
  rw [fromBase62, if_pos other] at read
  cases read

theorem digitValue_of_mem {i : SpotifyId} {c : Char} (member : c ∈ i.toBase62) :
    digitValue c ≠ none := by
  rw [toBase62_eq] at member
  obtain ⟨b, digit, rfl⟩ := List.mem_map.mp member
  rw [digitValue_digit (padded_lt i digit)]
  exact Option.some_ne_none b

end SpotifyIds
