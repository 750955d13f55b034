import Mathlib.Algebra.Order.Ring.Nat
import Mathlib.Data.List.Induction

/-!
# Numbers in positional notation

A number below `b ^ width` has one list of `width` digits to the base `b`, most
significant first. `value` reads a list of digits and `expansion` writes one;
each of them undoes the other.
-/

namespace Positional

/-- The number with these digits, most significant first. -/
def value (b : Nat) (digits : List Nat) : Nat := digits.foldl (fun n digit => b * n + digit) 0

/-- The last `width` digits of a number. -/
def expansion (b : Nat) : Nat → Nat → List Nat
  | 0, _ => []
  | width + 1, n => expansion b width (n / b) ++ [n % b]

variable {b : Nat}

@[simp] theorem value_nil : value b [] = 0 := rfl

@[simp] theorem value_concat (digits : List Nat) (digit : Nat) :
    value b (digits ++ [digit]) = b * value b digits + digit := by
  simp [value]

@[simp] theorem length_expansion (width n : Nat) : (expansion b width n).length = width := by
  induction width generalizing n with
  | zero => rfl
  | succ width ih => simp [expansion, ih]

theorem lt_of_mem_expansion (positive : 0 < b) {width n digit : Nat}
    (member : digit ∈ expansion b width n) : digit < b := by
  induction width generalizing n with
  | zero => simp [expansion] at member
  | succ width ih =>
    rcases List.mem_append.mp member with front | last
    · exact ih front
    · rw [List.mem_singleton.mp last]
      exact Nat.mod_lt n positive

theorem value_expansion {width n : Nat} (fits : n < b ^ width) :
    value b (expansion b width n) = n := by
  induction width generalizing n with
  | zero =>
    rw [Nat.pow_zero, Nat.lt_one_iff] at fits
    rw [fits]
    rfl
  | succ width ih =>
    have front : n / b < b ^ width := Nat.div_lt_of_lt_mul (by rwa [Nat.pow_succ'] at fits)
    rw [expansion, value_concat, ih front]
    exact Nat.div_add_mod n b

theorem expansion_value {digits : List Nat} (small : ∀ digit ∈ digits, digit < b) :
    expansion b digits.length (value b digits) = digits := by
  induction digits using List.reverseRecOn with
  | nil => rfl
  | append_singleton digits digit ih =>
    have last : digit < b := small digit (by simp)
    have front : (b * value b digits + digit) / b = value b digits := by
      rw [Nat.mul_add_div (Nat.zero_lt_of_lt last), Nat.div_eq_of_lt last, Nat.add_zero]
    have rest := ih fun other member => small other (by simp [member])
    rw [List.length_append, List.length_singleton, expansion, value_concat, front, rest,
      Nat.mul_add_mod, Nat.mod_eq_of_lt last]

theorem value_lt {digits : List Nat} (small : ∀ digit ∈ digits, digit < b) :
    value b digits < b ^ digits.length := by
  induction digits using List.reverseRecOn with
  | nil => simp
  | append_singleton digits digit ih =>
    have last : digit < b := small digit (by simp)
    have front := ih fun other member => small other (by simp [member])
    rw [value_concat, List.length_append, List.length_singleton, Nat.pow_succ']
    calc b * value b digits + digit < b * value b digits + b := by omega
      _ = b * (value b digits + 1) := by rw [Nat.mul_succ]
      _ ≤ b * b ^ digits.length := Nat.mul_le_mul_left b front

end Positional
