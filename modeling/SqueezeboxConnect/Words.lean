import Mathlib.Algebra.Ring.Int.Defs
import Mathlib.Algebra.Ring.Nat

/-!
# Bytes, texts and numbers of the radio

The radio has 32-bit words. A text is the list of its characters, and a number in
it is written in decimal digits, with or without a sign in front of them.
-/

namespace Words

abbrev Bytes := List UInt8

abbrev Text := List Char

def usizeSize : Nat := 2 ^ 32

/-- The most bytes that a vector can hold: `isize::MAX`. -/
def vecMax : Nat := 2 ^ 31 - 1

def byteLength (text : Text) : Nat := (text.map Char.utf8Size).sum

def hexValue (c : Char) : Option Nat :=
  if '0' ≤ c ∧ c ≤ '9' then some (c.toNat - '0'.toNat)
  else if 'a' ≤ c ∧ c ≤ 'f' then some (c.toNat - 'a'.toNat + 10)
  else if 'A' ≤ c ∧ c ≤ 'F' then some (c.toNat - 'A'.toNat + 10)
  else none

/-- At least one digit, and nothing else. -/
def readDecimal (digits : Text) : Option Nat :=
  if digits ≠ [] ∧ digits.all Char.isDigit then some (Nat.ofDigitChars 10 digits 0) else none

/-- `str::parse` for an unsigned type: an optional plus sign. -/
def parseUnsigned (size : Nat) (text : Text) : Option Nat :=
  (readDecimal (if text.head? = some '+' then text.drop 1 else text)).filter (· < size)

/-- The sign in front of the digits, and these. -/
def splitSign (text : Text) : Int × Text :=
  if text.head? = some '-' then (-1, text.drop 1)
  else if text.head? = some '+' then (1, text.drop 1)
  else (1, text)

/-- `str::parse` for a signed type with numbers from `-half` on. -/
def parseSigned (half : Nat) (text : Text) : Option Int :=
  ((readDecimal (splitSign text).2).map fun n : Nat => (splitSign text).1 * n).filter fun n =>
    -half ≤ n && n < half

theorem readDecimal_eq_some {digits : Text} {n : Nat} (read : readDecimal digits = some n) :
    ∀ c ∈ digits, c.isDigit = true := by
  rw [readDecimal] at read
  split at read
  · next decimal => exact List.all_eq_true.mp decimal.2
  · cases read

theorem parseUnsigned_lt {size n : Nat} {text : Text} (parsed : parseUnsigned size text = some n) :
    n < size := by
  simpa using (Option.filter_eq_some_iff.mp parsed).2

theorem parseUnsigned_toDigits {size n : Nat} (small : n < size) :
    parseUnsigned size (Nat.toDigits 10 n) = some n := by
  have value : Nat.ofDigitChars 10 (Nat.toDigits 10 n) 0 = n :=
    Nat.ofDigitChars_toDigits (by decide) (by decide)
  have digits : ∀ c ∈ Nat.toDigits 10 n, c.isDigit = true :=
    fun c inside => Nat.isDigit_of_mem_toDigits (by decide) (by decide) inside
  have unsigned : (Nat.toDigits 10 n).head? ≠ some '+' := by
    intro sign
    exact absurd (digits '+' (List.mem_of_head? sign)) (by decide)
  rw [parseUnsigned, if_neg unsigned, readDecimal,
    if_pos ⟨Nat.toDigits_ne_nil, List.all_eq_true.mpr digits⟩, value,
    Option.filter_some, if_pos (by simpa using small)]

/-- A number has digits, and perhaps a sign as its first character. -/
theorem parseSigned_chars {half : Nat} {text : Text} {n : Int}
    (parsed : parseSigned half text = some n) {c : Char} (inside : c ∈ text) :
    c.isDigit = true ∨ text.head? = some c ∧ (c = '-' ∨ c = '+') := by
  obtain ⟨value, read, -⟩ := Option.map_eq_some_iff.mp (Option.filter_eq_some_iff.mp parsed).1
  have digits := readDecimal_eq_some read
  cases text with
  | nil => cases inside
  | cons first rest =>
    rw [splitSign] at digits
    split at digits
    · next minus =>
      rcases List.mem_cons.mp inside with rfl | later
      · exact .inr ⟨rfl, .inl (Option.some.inj minus)⟩
      · exact .inl (digits c later)
    · split at digits
      · next plus =>
        rcases List.mem_cons.mp inside with rfl | later
        · exact .inr ⟨rfl, .inr (Option.some.inj plus)⟩
        · exact .inl (digits c later)
      · exact .inl (digits c inside)

end Words
