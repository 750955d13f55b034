import Mathlib.Data.List.Basic
import SqueezeboxConnect.Outcomes
import SqueezeboxConnect.Positional

/-!
# Checked access to sequences, and numbers in bytes

Access outside of a sequence panics. The operations here return the panic
instead, so that a program that uses them can be shown not to get there, or the
inputs on which it does can be named. Numbers are written with their most
significant byte first; a field of bytes has its length in two bytes before it.
-/

namespace ByteFields

open Outcomes

universe u
variable {A : Type u}

/-- What a program panics on. -/
inductive Panic where
  | index
  | slice
  | splitTo
  | length
  | remove
  | subtraction
  | division
  | capacity
  deriving DecidableEq, Repr

/-- `xs[i]`. -/
def index (xs : List A) (i : Nat) : Except Panic A :=
  match xs[i]? with
  | some x => .ok x
  | none => .error .index

/-- `&xs[lo..hi]`. -/
def slice (xs : List A) (lo hi : Nat) : Except Panic (List A) :=
  if lo ≤ hi ∧ hi ≤ xs.length then .ok ((xs.drop lo).take (hi - lo)) else .error .slice

/-- A slice as an array of the given length. -/
def array (n : Nat) (xs : List A) : Except Panic (List A) :=
  if xs.length = n then .ok xs else .error .length

def checkedSub (a b : Nat) : Except Panic Nat := if b ≤ a then .ok (a - b) else .error .subtraction

variable {xs : List A}

theorem index_eq {i : Nat} (inside : i < xs.length) (fallback : A) :
    index xs i = .ok (xs.getD i fallback) := by
  simp [index, List.getElem?_eq_getElem inside]

theorem slice_eq {lo hi : Nat} (order : lo ≤ hi) (inside : hi ≤ xs.length) :
    slice xs lo hi = .ok ((xs.drop lo).take (hi - lo)) :=
  if_pos ⟨order, inside⟩

theorem slice_returns {lo hi : Nat} : Returns (slice xs lo hi) ↔ lo ≤ hi ∧ hi ≤ xs.length := by
  rw [slice]
  split <;> simp [*]

variable {n : Nat}

theorem slice_add {start : Nat} (inside : start + n ≤ xs.length) :
    slice xs start (start + n) = .ok ((xs.drop start).take n) := by
  rw [slice_eq (Nat.le_add_right start n) inside, Nat.add_sub_cancel_left]

theorem array_eq (length : xs.length = n) : array n xs = .ok xs :=
  if_pos length

theorem array_returns : Returns (array n xs) ↔ xs.length = n := by
  rw [array]
  split <;> simp [*]

theorem checkedSub_eq {a b : Nat} (enough : b ≤ a) : checkedSub a b = .ok (a - b) := if_pos enough

theorem checkedSub_returns {a b : Nat} : Returns (checkedSub a b) ↔ b ≤ a := by
  rw [checkedSub]
  split <;> simp [*]

def splitTo (n : Nat) (xs : List A) : Except Panic (List A × List A) :=
  if n ≤ xs.length then .ok (xs.take n, xs.drop n) else .error .splitTo

theorem splitTo_eq_ok {front rest : List A} :
    splitTo n xs = .ok (front, rest) ↔ xs = front ++ rest ∧ front.length = n := by
  rw [splitTo]
  constructor
  · intro cut
    split at cut
    · rename_i enough
      cases cut
      exact ⟨(List.take_append_drop n xs).symm, List.length_take_of_le enough⟩
    · cases cut
  · rintro ⟨rfl, rfl⟩
    simp

theorem splitTo_append (front rest : List A) :
    splitTo front.length (front ++ rest) = .ok (front, rest) :=
  splitTo_eq_ok.mpr ⟨rfl, rfl⟩

theorem splitTo_returns : Returns (splitTo n xs) ↔ n ≤ xs.length := by
  rw [splitTo]
  split
  · rename_i enough
    exact ⟨fun _ => enough, fun _ => returns_ok _⟩
  · rename_i short
    exact ⟨fun returns => absurd returns (not_returns_error _), fun enough => absurd enough short⟩

/-- A number from its bytes, most significant first. -/
def beNat (bytes : List UInt8) : Nat := bytes.foldl (fun n b => 256 * n + b.toNat) 0

theorem beNat_lt (bytes : List UInt8) : beNat bytes < 256 ^ bytes.length := by
  have digits : beNat bytes = Positional.value 256 (bytes.map UInt8.toNat) := by
    rw [beNat, Positional.value, List.foldl_map]
  have small : ∀ digit ∈ bytes.map UInt8.toNat, digit < 256 := by
    intro digit inside
    obtain ⟨byte, -, rfl⟩ := List.mem_map.mp inside
    exact byte.toNat_lt
  have below := Positional.value_lt small
  rwa [List.length_map, ← digits] at below

/-- The two low bytes of a number. -/
def be16 (n : Nat) : List UInt8 := [UInt8.ofNat (n / 256), UInt8.ofNat n]

@[simp] theorem length_be16 (n : Nat) : (be16 n).length = 2 := rfl

theorem beNat_be16 (n : Nat) : beNat (be16 n) = n % 65536 := by
  simp only [beNat, be16, List.foldl_cons, List.foldl_nil, UInt8.toNat_ofNat']
  omega

theorem be16_congr {m : Nat} (same : m % 65536 = n % 65536) : be16 m = be16 n := by
  have high : UInt8.ofNat (m / 256) = UInt8.ofNat (n / 256) := by
    rw [← UInt8.toNat_inj, UInt8.toNat_ofNat', UInt8.toNat_ofNat']
    omega
  have low : UInt8.ofNat m = UInt8.ofNat n := by
    rw [← UInt8.toNat_inj, UInt8.toNat_ofNat', UInt8.toNat_ofNat']
    omega
  rw [be16, be16, high, low]

theorem be16_beNat {bytes : List UInt8} (two : bytes.length = 2) :
    beNat bytes < 65536 ∧ be16 (beNat bytes) = bytes := by
  match bytes, two with
  | [high, low], _ =>
    have hhigh := high.toNat_lt
    have hlow := low.toNat_lt
    simp only [beNat, be16, List.foldl_cons, List.foldl_nil]
    refine ⟨by omega, ?_⟩
    have first : (256 * (256 * 0 + high.toNat) + low.toNat) / 256 = high.toNat := by omega
    have second : UInt8.ofNat (256 * (256 * 0 + high.toNat) + low.toNat) = low := by
      rw [← UInt8.toNat_inj, UInt8.toNat_ofNat']
      omega
    rw [first, second, UInt8.ofNat_toNat]

/-- Bytes behind their length. -/
def field (bytes : List UInt8) : List UInt8 := be16 bytes.length ++ bytes

def readField (xs : List UInt8) : Except Panic (List UInt8 × List UInt8) :=
  (splitTo 2 xs).bind fun (size, xs) => splitTo (beNat size) xs

theorem readField_eq_ok {xs bytes rest : List UInt8} :
    readField xs = .ok (bytes, rest) ↔ bytes.length < 65536 ∧ xs = field bytes ++ rest := by
  rw [readField]
  constructor
  · intro read
    obtain ⟨⟨size, more⟩, first, second⟩ := ok_of_bind read
    obtain ⟨rfl, two⟩ := splitTo_eq_ok.mp first
    obtain ⟨rfl, length⟩ := splitTo_eq_ok.mp second
    obtain ⟨below, same⟩ := be16_beNat two
    rw [← length] at below same
    exact ⟨below, by rw [field, same, List.append_assoc]⟩
  · rintro ⟨short, rfl⟩
    have size : beNat (be16 bytes.length) = bytes.length := by
      rw [beNat_be16, Nat.mod_eq_of_lt short]
    have cut := splitTo_append (be16 bytes.length) (bytes ++ rest)
    rw [length_be16] at cut
    rw [field, List.append_assoc, cut]
    simp only [Except.bind, size, splitTo_append]

/-- A number of fields, one behind the other. -/
def readFields : Nat → List UInt8 → Except Panic (List (List UInt8) × List UInt8)
  | 0, xs => .ok ([], xs)
  | n + 1, xs => (readField xs).bind fun (bytes, xs) =>
    (readFields n xs).bind fun (fields, xs) => .ok (bytes :: fields, xs)

theorem readFields_eq_ok {xs rest : List UInt8} {fields : List (List UInt8)} :
    readFields n xs = .ok (fields, rest) ↔ fields.length = n ∧
      (∀ bytes ∈ fields, bytes.length < 65536) ∧ xs = fields.flatMap field ++ rest := by
  induction n generalizing xs fields with
  | zero =>
    constructor
    · intro read
      cases read
      exact ⟨rfl, by simp, rfl⟩
    · rintro ⟨nothing, -, rfl⟩
      rw [List.length_eq_zero_iff.mp nothing]
      rfl
  | succ n ih =>
    constructor
    · intro read
      obtain ⟨⟨bytes, more⟩, first, read₁⟩ := ok_of_bind read
      obtain ⟨⟨later, more'⟩, second, read₂⟩ := ok_of_bind read₁
      cases read₂
      obtain ⟨short, rfl⟩ := readField_eq_ok.mp first
      obtain ⟨rfl, shorts, rfl⟩ := ih.mp second
      exact ⟨rfl, by simpa using ⟨short, shorts⟩, by simp⟩
    · rintro ⟨length, short, rfl⟩
      match fields, length with
      | bytes :: later, length =>
        have first : readField (field bytes ++ (later.flatMap field ++ rest)) =
            .ok (bytes, later.flatMap field ++ rest) :=
          readField_eq_ok.mpr ⟨short bytes (by simp), rfl⟩
        have second : readFields n (later.flatMap field ++ rest) = .ok (later, rest) :=
          ih.mpr ⟨by simpa using length, fun b inside => short b (by simp [inside]), rfl⟩
        rw [readFields, List.flatMap_cons, List.append_assoc, first]
        simp only [Except.bind, second]

end ByteFields
