import SqueezeboxConnect.Outcomes
import SqueezeboxConnect.Positional
import SqueezeboxConnect.SpotifyIds
import SqueezeboxConnect.Words

/-!
# The texts of an id

To the base 62 an id is written on its four limbs, into a buffer of 22 bytes with
a carry of 64 bits. The checked version of that program stops where the source
would index past the buffer or overflow the carry; it is shown to come to the
same text and never to stop.

To the base 16 an id is written by the formatter and read by the parser of the
standard library. The parser takes a sign in front of the digits.
-/

namespace Connect.SpotifyId

open Words

/-- What the conversion would panic on. -/
inductive Fault where
  | index
  | overflow
  deriving DecidableEq, Repr

/-- `for b in &mut dst[..i]`, with the carry of the last round. -/
def carryInto : List Nat → Nat → Except Fault (List Nat × Nat)
  | [], carry => .ok ([], carry)
  | b :: dst, carry =>
    if carry + b * 2 ^ 32 < 2 ^ 64 then do
      let (rest, last) ← carryInto dst ((carry + b * 2 ^ 32) / 62)
      .ok ((carry + b * 2 ^ 32) % 62 :: rest, last)
    else .error .overflow

/-- `while carry > 0`. -/
def writeCarry (dst : List Nat) (i carry : Nat) : Except Fault (List Nat × Nat) :=
  if 0 < carry then
    if i < dst.length then writeCarry (dst.set i (carry % 62)) (i + 1) (carry / 62)
    else .error .index
  else .ok (dst, i)
termination_by carry

/-- One turn of the loop over the limbs. -/
def pushLimb (buffer : List Nat × Nat) (limb : Nat) : Except Fault (List Nat × Nat) :=
  let (dst, i) := buffer
  if i ≤ dst.length then do
    let (front, carry) ← carryInto (dst.take i) limb
    writeCarry (front ++ dst.drop i) i carry
  else .error .index

def digitChar (b : Nat) : Except Fault Char :=
  match BASE62_DIGITS[b]? with
  | some c => .ok c
  | none => .error .index

def toBase62Checked (i : SpotifyId) : Except Fault (List Char) := do
  let (dst, _) ← (limbs i.id.toNat).foldlM pushLimb (List.replicate 22 0, 0)
  dst.reverse.mapM digitChar

def readHex : Nat → List Char → Option Nat
  | dst, [] => some dst
  | dst, c :: rest =>
    match hexValue c with
    | none => none
    | some p => if 16 * dst + p < 2 ^ 128 then readHex (16 * dst + p) rest else none

/-- `u128::from_str_radix(src, 16)`: digits after an optional plus sign, at least one. -/
def fromStrRadix16 (src : List Char) : Option Nat :=
  let digits := if src.head? = some '+' then src.drop 1 else src
  if digits = [] then none else readHex 0 digits

def fromBase16 (src : List Char) : Except SpotifyIdError SpotifyId :=
  if byteLength src ≠ 32 then .error .invalidId
  else match fromStrRadix16 src with
    | none => .error .invalidId
    | some id => .ok ⟨BitVec.ofNat 128 id⟩

/-- `format!("\x7b:032x\x7d")`: lower-case digits, filled up with zeros. -/
def toBase16 (i : SpotifyId) : List Char := (Nat.toDigits 16 i.id.toNat).leftpad 32 '0'

end Connect.SpotifyId

namespace IdTexts

open Connect Connect.SpotifyId Positional SpotifyIds Words

section Base62

theorem carryInto_eq (dst : List Nat) (digits : ∀ b ∈ dst, b < 62) (carry : Nat)
    (small : carry < 2 ^ 32) : carryInto dst carry = .ok (addLimb dst carry) := by
  induction dst generalizing carry with
  | nil => rfl
  | cons b dst ih =>
    have digit := digits b List.mem_cons_self
    have fits : carry + b * 2 ^ 32 < 2 ^ 64 := by omega
    have next := ih (fun b member => digits b (List.mem_cons_of_mem _ member))
      ((carry + b * 2 ^ 32) / 62) (by omega)
    rw [carryInto, if_pos fits, next, addLimb, Nat.mod_eq_of_lt fits]
    rfl

theorem writeCarry_eq (dst zeros : List Nat) (carry : Nat)
    (room : (Nat.digits 62 carry).length ≤ zeros.length) :
    writeCarry (dst ++ zeros) dst.length carry =
      .ok (dst ++ Nat.digits 62 carry ++ zeros.drop (Nat.digits 62 carry).length,
        (dst ++ Nat.digits 62 carry).length) := by
  induction carry using Nat.strongRecOn generalizing dst zeros with
  | ind carry ih =>
    rcases Nat.eq_zero_or_pos carry with rfl | positive
    · rw [writeCarry, if_neg (Nat.lt_irrefl 0)]
      simp
    · rw [Nat.digits_def' (by decide) positive, List.length_cons] at room ⊢
      cases zeros with
      | nil => simp at room
      | cons first zeros =>
        have inside : dst.length < (dst ++ first :: zeros).length := by simp
        have next := ih (carry / 62) (Nat.div_lt_self positive (by decide))
          (dst ++ [carry % 62]) zeros (by simpa using room)
        rw [writeCarry, if_pos positive, if_pos inside]
        simpa using next

theorem length_addLimb (dst : List Nat) (carry : Nat) :
    (addLimb dst carry).1.length = dst.length := by
  induction dst generalizing carry with
  | nil => rfl
  | cons b dst ih => simp [addLimb, ih]

/-- The carry stays below `2 ^ 32` from digit to digit. -/
theorem addLimb_carry_lt (dst : List Nat) (digits : ∀ b ∈ dst, b < 62) (carry : Nat)
    (small : carry < 2 ^ 32) : (addLimb dst carry).2 < 2 ^ 32 := by
  induction dst generalizing carry with
  | nil => exact small
  | cons b dst ih =>
    have digit := digits b List.mem_cons_self
    have fits : carry + b * 2 ^ 32 < 2 ^ 64 := by omega
    rw [addLimb, Nat.mod_eq_of_lt fits]
    exact ih (fun b member => digits b (List.mem_cons_of_mem _ member)) _ (by omega)

/-- The buffer with the digits of what has been read so far. -/
def buffer (n : Nat) : List Nat × Nat :=
  (Nat.digits 62 n ++ List.replicate (SIZE_BASE62 - (Nat.digits 62 n).length) 0,
    (Nat.digits 62 n).length)

theorem pushLimb_buffer (n limb : Nat) (small : limb < 2 ^ 32)
    (fits : limb + 2 ^ 32 * n < 62 ^ SIZE_BASE62) :
    pushLimb (buffer n) limb = .ok (buffer (limb + 2 ^ 32 * n)) := by
  have digits (b : Nat) (member : b ∈ Nat.digits 62 n) : b < 62 :=
    Nat.digits_lt_base (by decide) member
  set front := (addLimb (Nat.digits 62 n) limb).1 with front_eq
  set carry := (addLimb (Nat.digits 62 n) limb).2 with carry_eq
  have carried : carryInto (Nat.digits 62 n) limb = .ok (front, carry) :=
    carryInto_eq (Nat.digits 62 n) digits limb small
  have length : front.length = (Nat.digits 62 n).length := length_addLimb _ limb
  have whole : front ++ Nat.digits 62 carry = Nat.digits 62 (limb + 2 ^ 32 * n) := by
    have below : carry < 62 ^ 11 :=
      Nat.lt_trans (addLimb_carry_lt (Nat.digits 62 n) digits limb small) (by decide)
    rw [← addCarry_digits n limb small, ← carryDigits_eq_digits 11 carry below]
    rfl
  have room : (Nat.digits 62 (limb + 2 ^ 32 * n)).length ≤ SIZE_BASE62 :=
    (Nat.digits_length_le_iff (by decide) _).mpr fits
  have lengths := congrArg List.length whole
  rw [List.length_append] at lengths
  have written := writeCarry_eq front
    (List.replicate (SIZE_BASE62 - (Nat.digits 62 n).length) 0) carry
    (by rw [List.length_replicate]; omega)
  rw [whole, length, List.drop_replicate] at written
  have left : SIZE_BASE62 - (Nat.digits 62 n).length - (Nat.digits 62 carry).length =
      SIZE_BASE62 - (Nat.digits 62 (limb + 2 ^ 32 * n)).length := by omega
  rw [left] at written
  simp only [pushLimb, buffer, List.length_append, Nat.le_add_right, if_true, List.take_left,
    List.drop_left, carried]
  exact written

/-- The number of which these are the limbs, most significant first, behind `n`. -/
def ofLimbs (n : Nat) (limbs : List Nat) : Nat :=
  limbs.foldl (fun n limb => limb + 2 ^ 32 * n) n

theorem le_ofLimbs (n : Nat) (limbs : List Nat) : n ≤ ofLimbs n limbs := by
  induction limbs generalizing n with
  | nil => exact Nat.le_refl n
  | cons limb limbs ih =>
    calc n ≤ limb + 2 ^ 32 * n := by omega
      _ ≤ ofLimbs (limb + 2 ^ 32 * n) limbs := ih _

theorem foldlM_pushLimb (n : Nat) (limbs : List Nat) (small : ∀ limb ∈ limbs, limb < 2 ^ 32)
    (fits : ofLimbs n limbs < 62 ^ SIZE_BASE62) :
    limbs.foldlM pushLimb (buffer n) = .ok (buffer (ofLimbs n limbs)) := by
  induction limbs generalizing n with
  | nil => rfl
  | cons limb limbs ih =>
    have here := pushLimb_buffer n limb (small limb List.mem_cons_self)
      (Nat.lt_of_le_of_lt (le_ofLimbs _ limbs) fits)
    rw [List.foldlM_cons, here]
    exact ih _ (fun limb member => small limb (List.mem_cons_of_mem _ member)) fits

theorem ofLimbs_limbs (i : SpotifyId) : ofLimbs 0 (limbs i.id.toNat) = i.id.toNat := by
  have bounded := i.id.isLt
  simp only [ofLimbs, limbs, List.map_cons, List.map_nil, List.foldl_cons, List.foldl_nil]
  omega

theorem mapM_digitChar (digits : List Nat) (small : ∀ b ∈ digits, b < 62) :
    digits.mapM digitChar = .ok (digits.map fun b => BASE62_DIGITS.getD b '0') := by
  induction digits with
  | nil => rfl
  | cons b digits ih =>
    have inside : b < BASE62_DIGITS.length := small b List.mem_cons_self
    have here : digitChar b = .ok (BASE62_DIGITS.getD b '0') := by
      simp [digitChar, List.getElem?_eq_getElem inside]
    rw [List.mapM_cons, here, ih fun b member => small b (List.mem_cons_of_mem _ member)]
    rfl

theorem padded_eq_expansion (i : SpotifyId) :
    padded i = expansion 62 SIZE_BASE62 i.id.toNat := by
  have small : ∀ b ∈ padded i, b < 62 := fun b digit => padded_lt i digit
  have written := expansion_value small
  rw [length_padded, value, foldl_padded] at written
  exact written.symm

/-- The conversion comes to its end, with the digits of the id. -/
theorem toBase62Checked_eq (i : SpotifyId) :
    i.toBase62Checked = .ok ((padded i).map fun b => BASE62_DIGITS.getD b '0') := by
  have small : ∀ limb ∈ limbs i.id.toNat, limb < 2 ^ 32 := by
    intro limb member
    obtain ⟨shift, -, rfl⟩ := List.mem_map.mp member
    exact Nat.mod_lt _ (by decide)
  have fits : ofLimbs 0 (limbs i.id.toNat) < 62 ^ SIZE_BASE62 := by
    rw [ofLimbs_limbs]
    exact Nat.lt_trans i.id.isLt (by decide)
  have pushed := foldlM_pushLimb 0 (limbs i.id.toNat) small fits
  rw [ofLimbs_limbs] at pushed
  have start : buffer 0 = (List.replicate 22 0, 0) := by simp [buffer, SIZE_BASE62]
  rw [start] at pushed
  have digits : (buffer i.id.toNat).1.reverse = padded i := rfl
  rw [toBase62Checked, pushed, ← mapM_digitChar (padded i) fun b digit => padded_lt i digit,
    ← digits]
  rfl

/-- A character of a range is the one at its offset. -/
theorem char_offset {low high c : Char} (range : low ≤ c ∧ c ≤ high) :
    ∃ k ≤ high.toNat - low.toNat, c.toNat - low.toNat = k ∧ Char.ofNat (k + low.toNat) = c := by
  have above : low.toNat ≤ c.toNat := Char.le_def.mp range.1
  have below : c.toNat ≤ high.toNat := Char.le_def.mp range.2
  refine ⟨c.toNat - low.toNat, by omega, rfl, ?_⟩
  rw [Nat.sub_add_cancel above, Char.ofNat_toNat]

theorem digitValue_some {c : Char} {p : Nat} (digit : digitValue c = some p) :
    p < 62 ∧ BASE62_DIGITS.getD p '0' = c := by
  have small : ∀ k ≤ 9, k < 62 ∧ BASE62_DIGITS.getD k '0' = Char.ofNat (k + 48) := by decide
  have lower : ∀ k ≤ 25, k + 10 < 62 ∧
      BASE62_DIGITS.getD (k + 10) '0' = Char.ofNat (k + 97) := by decide
  have upper : ∀ k ≤ 25, k + 36 < 62 ∧
      BASE62_DIGITS.getD (k + 36) '0' = Char.ofNat (k + 65) := by decide
  rw [digitValue] at digit
  split_ifs at digit with one two three
  · obtain ⟨k, inside, offset, rfl⟩ := char_offset one
    rw [offset] at digit
    obtain rfl := Option.some.inj digit
    exact small k inside
  · obtain ⟨k, inside, offset, rfl⟩ := char_offset two
    rw [offset] at digit
    obtain rfl := Option.some.inj digit
    exact lower k inside
  · obtain ⟨k, inside, offset, rfl⟩ := char_offset three
    rw [offset] at digit
    obtain rfl := Option.some.inj digit
    exact upper k inside

/-- What was read is the number with the digits of the text. -/
theorem readBase62_eq_ok {src : List Char} {dst v : Nat} (read : readBase62 dst src = .ok v)
    (start : dst < 2 ^ 128) : v < 2 ^ 128 ∧ ∃ digits : List Nat, (∀ b ∈ digits, b < 62) ∧
      src = (digits.map fun b => BASE62_DIGITS.getD b '0') ∧
      v = digits.foldl (fun dst b => 62 * dst + b) dst := by
  induction src generalizing dst with
  | nil =>
    obtain rfl : dst = v := Except.ok.inj read
    exact ⟨start, [], by simp, rfl, rfl⟩
  | cons c src ih =>
    rw [readBase62] at read
    split at read
    · cases read
    · next p digit =>
      split_ifs at read with fits
      obtain ⟨small, written⟩ := digitValue_some digit
      obtain ⟨bounded, digits, all, rfl, rfl⟩ := ih read fits
      refine ⟨bounded, p :: digits, ?_, ?_, rfl⟩
      · intro b member
        rcases List.mem_cons.mp member with rfl | later
        · exact small
        · exact all b later
      · rw [List.map_cons, written]

theorem toBase62_fromBase62 {src : List Char} {i : SpotifyId} (read : fromBase62 src = .ok i) :
    i.toBase62 = src := by
  have length := length_of_fromBase62 read
  rw [fromBase62, if_neg (not_not.mpr length)] at read
  obtain ⟨v, reads, rfl⟩ := Outcomes.map_eq_ok_iff.mp read
  obtain ⟨bounded, digits, small, rfl, rfl⟩ := readBase62_eq_ok reads (by decide)
  rw [List.length_map] at length
  have id : (BitVec.ofNat 128 (digits.foldl (fun dst b => 62 * dst + b) 0)).toNat =
      value 62 digits := by
    rw [BitVec.toNat_ofNat, Nat.mod_eq_of_lt bounded]
    rfl
  rw [toBase62_eq, padded_eq_expansion, id, ← length, expansion_value small]

/-- The conversion to the base 62 never stops on its buffer or its carry and gives the 22 digits
of the id, which are read as the id again; and every text that is read is written as it was. -/
theorem base62_exact (i : SpotifyId) (s : List Char) :
    i.toBase62Checked = .ok ((expansion 62 22 i.id.toNat).map fun b => BASE62_DIGITS.getD b '0') ∧
      i.toBase62Checked = .ok i.toBase62 ∧
      fromBase62 i.toBase62 = .ok i ∧
      ∀ x, fromBase62 s = .ok x → x.toBase62 = s := by
  refine ⟨?_, ?_, fromBase62_toBase62 i, fun x read => toBase62_fromBase62 read⟩
  · rw [toBase62Checked_eq, padded_eq_expansion]
    rfl
  · rw [toBase62Checked_eq, toBase62_eq]

end Base62

section Base16

def IsHexDigit (c : Char) : Prop :=
  ('0' ≤ c ∧ c ≤ '9') ∨ ('a' ≤ c ∧ c ≤ 'f') ∨ ('A' ≤ c ∧ c ≤ 'F')

theorem hexValue_isSome_iff (c : Char) : (hexValue c).isSome ↔ IsHexDigit c := by
  rw [hexValue, IsHexDigit]
  split_ifs with one two three <;> simp [*]

/-- A digit has a value, and the digit of that value is the one in lower case. -/
theorem hexValue_some {c : Char} {p : Nat} (digit : hexValue c = some p) :
    p < 16 ∧ Nat.digitChar p = c.toLower ∧ c.utf8Size = 1 := by
  have small : ∀ k ≤ 9, k < 16 ∧ Nat.digitChar k = (Char.ofNat (k + 48)).toLower ∧
      (Char.ofNat (k + 48)).utf8Size = 1 := by decide
  have lower : ∀ k ≤ 5, k + 10 < 16 ∧ Nat.digitChar (k + 10) = (Char.ofNat (k + 97)).toLower ∧
      (Char.ofNat (k + 97)).utf8Size = 1 := by decide
  have upper : ∀ k ≤ 5, k + 10 < 16 ∧ Nat.digitChar (k + 10) = (Char.ofNat (k + 65)).toLower ∧
      (Char.ofNat (k + 65)).utf8Size = 1 := by decide
  rw [hexValue] at digit
  split_ifs at digit with one two three
  · obtain ⟨k, inside, offset, rfl⟩ := char_offset one
    rw [offset] at digit
    obtain rfl := Option.some.inj digit
    exact small k inside
  · obtain ⟨k, inside, offset, rfl⟩ := char_offset two
    rw [offset] at digit
    obtain rfl := Option.some.inj digit
    exact lower k inside
  · obtain ⟨k, inside, offset, rfl⟩ := char_offset three
    rw [offset] at digit
    obtain rfl := Option.some.inj digit
    exact upper k inside

def hexDigits (src : List Char) : List Nat := src.map fun c => (hexValue c).getD 0

variable {src : List Char}

theorem hexDigits_lt (hex : ∀ c ∈ src, IsHexDigit c) : ∀ p ∈ hexDigits src, p < 16 := by
  intro p member
  obtain ⟨c, inside, rfl⟩ := List.mem_map.mp member
  obtain ⟨p, digit⟩ := Option.isSome_iff_exists.mp ((hexValue_isSome_iff c).mpr (hex c inside))
  rw [digit]
  exact (hexValue_some digit).1

theorem hexDigits_digitChar (hex : ∀ c ∈ src, IsHexDigit c) :
    (hexDigits src).map Nat.digitChar = src.map Char.toLower := by
  rw [hexDigits, List.map_map]
  refine List.map_congr_left fun c inside => ?_
  obtain ⟨p, digit⟩ := Option.isSome_iff_exists.mp ((hexValue_isSome_iff c).mpr (hex c inside))
  rw [Function.comp_apply, digit]
  exact (hexValue_some digit).2.1

theorem byteLength_hex (hex : ∀ c ∈ src, IsHexDigit c) : byteLength src = src.length := by
  induction src with
  | nil => rfl
  | cons c src ih =>
    obtain ⟨p, digit⟩ :=
      Option.isSome_iff_exists.mp ((hexValue_isSome_iff c).mpr (hex c List.mem_cons_self))
    have rest := ih fun c inside => hex c (List.mem_cons_of_mem _ inside)
    rw [byteLength] at rest ⊢
    rw [List.map_cons, List.sum_cons, rest, (hexValue_some digit).2.2, List.length_cons,
      Nat.add_comm]

theorem hex_of_readHex {dst v : Nat} (read : readHex dst src = some v) :
    ∀ c ∈ src, IsHexDigit c := by
  induction src generalizing dst with
  | nil => simp
  | cons c src ih =>
    rw [readHex] at read
    split at read
    · cases read
    · next p digit =>
      split_ifs at read
      intro other member
      rcases List.mem_cons.mp member with rfl | later
      · exact (hexValue_isSome_iff other).mp (by rw [digit]; rfl)
      · exact ih read other later

theorem readHex_eq {dst : Nat} (hex : ∀ c ∈ src, IsHexDigit c)
    (room : (dst + 1) * 16 ^ src.length ≤ 2 ^ 128) :
    readHex dst src = some ((hexDigits src).foldl (fun n p => 16 * n + p) dst) := by
  induction src generalizing dst with
  | nil => rfl
  | cons c src ih =>
    obtain ⟨p, digit⟩ :=
      Option.isSome_iff_exists.mp ((hexValue_isSome_iff c).mpr (hex c List.mem_cons_self))
    have small := (hexValue_some digit).1
    have later : (16 * dst + p + 1) * 16 ^ src.length ≤ 2 ^ 128 :=
      calc (16 * dst + p + 1) * 16 ^ src.length ≤ (dst + 1) * 16 * 16 ^ src.length :=
            Nat.mul_le_mul_right _ (by omega)
        _ = (dst + 1) * 16 ^ (c :: src).length := by
            rw [List.length_cons, Nat.pow_succ', Nat.mul_assoc]
        _ ≤ 2 ^ 128 := room
    have fits : 16 * dst + p < 2 ^ 128 :=
      Nat.lt_of_lt_of_le (Nat.lt_succ_self _)
        (Nat.le_trans (Nat.le_mul_of_pos_right _ (by positivity)) later)
    rw [readHex, digit]
    simp only [if_pos fits, ih (fun c inside => hex c (List.mem_cons_of_mem _ inside)) later]
    simp [hexDigits, digit]

/-- Up to 32 digits never come to `2 ^ 128`. -/
theorem readHex_hex (hex : ∀ c ∈ src, IsHexDigit c) (short : src.length ≤ 32) :
    readHex 0 src = some (value 16 (hexDigits src)) := by
  refine readHex_eq hex ?_
  rw [Nat.zero_add, Nat.one_mul, show 2 ^ 128 = 16 ^ 32 by decide]
  exact Nat.pow_le_pow_right (by decide) short

/-- The formatter writes the digits of the expansion. -/
theorem leftpad_toDigits (width n : Nat) (fits : n < 16 ^ (width + 1)) :
    (Nat.toDigits 16 n).leftpad (width + 1) '0' =
      (expansion 16 (width + 1) n).map Nat.digitChar := by
  induction width generalizing n with
  | zero =>
    have digit : n < 16 := by simpa using fits
    rw [Nat.toDigits_eq_if (by decide), if_pos digit]
    simp [expansion, Nat.mod_eq_of_lt digit, List.leftpad]
  | succ width ih =>
    have front := ih (n / 16) (Nat.div_lt_of_lt_mul (by rwa [Nat.pow_succ'] at fits))
    rw [expansion, List.map_append, ← front, Nat.toDigits_eq_if (by decide)]
    split
    · next digit =>
      have zero : Nat.toDigits 16 (n / 16) = ['0'] := by rw [Nat.div_eq_of_lt digit]; rfl
      rw [zero, Nat.mod_eq_of_lt digit]
      simp [List.leftpad, ← List.replicate_succ']
    · simp [List.leftpad]

theorem toBase16_eq (i : SpotifyId) :
    i.toBase16 = (expansion 16 32 i.id.toNat).map Nat.digitChar :=
  leftpad_toDigits 31 i.id.toNat (Nat.lt_of_lt_of_le i.id.isLt (by decide))

theorem not_isHexDigit_plus : ¬ IsHexDigit '+' := by
  unfold IsHexDigit
  decide

theorem fromBase16_digits (length : src.length = 32) (hex : ∀ c ∈ src, IsHexDigit c) :
    fromBase16 src = .ok ⟨BitVec.ofNat 128 (value 16 (hexDigits src))⟩ := by
  have unsigned : src.head? ≠ some '+' := fun sign =>
    not_isHexDigit_plus (hex '+' (List.mem_of_head? sign))
  have filled : src ≠ [] := by
    rintro rfl
    cases length
  rw [fromBase16, if_neg (not_not.mpr ((byteLength_hex hex).trans length)), fromStrRadix16]
  simp only [if_neg unsigned, if_neg filled, readHex_hex hex (Nat.le_of_eq length)]

/-- A text of 32 digits is read as the id that is written like it, in lower case. -/
theorem toBase16_digits (length : src.length = 32) (hex : ∀ c ∈ src, IsHexDigit c) :
    (SpotifyId.mk (BitVec.ofNat 128 (value 16 (hexDigits src)))).toBase16 =
      src.map Char.toLower := by
  have small := hexDigits_lt hex
  have digits : (hexDigits src).length = 32 := by rw [hexDigits, List.length_map, length]
  have fits : value 16 (hexDigits src) < 2 ^ 128 := by
    have below := value_lt small
    rw [digits] at below
    exact Nat.lt_of_lt_of_le below (by decide)
  rw [toBase16_eq, BitVec.toNat_ofNat, Nat.mod_eq_of_lt fits, ← digits, expansion_value small,
    hexDigits_digitChar hex]

/-- What can be read is 32 digits, or 31 behind a plus sign. -/
theorem fromBase16_ok {x : SpotifyId} (read : fromBase16 src = .ok x) :
    (src.length = 32 ∧ ∀ c ∈ src, IsHexDigit c) ∨
      ∃ digits, src = '+' :: digits ∧ digits.length = 31 ∧ ∀ c ∈ digits, IsHexDigit c := by
  rw [fromBase16] at read
  split_ifs at read with bytes
  rw [not_not] at bytes
  split at read
  · cases read
  · next id parsed =>
    rw [fromStrRadix16] at parsed
    by_cases sign : src.head? = some '+'
    · obtain ⟨digits, rfl⟩ : ∃ digits, src = '+' :: digits := by
        cases src with
        | nil => cases sign
        | cons c digits => exact ⟨digits, by rw [Option.some.inj sign]⟩
      simp only [sign, if_true, List.drop_one, List.tail_cons] at parsed
      split_ifs at parsed
      have hex := hex_of_readHex parsed
      refine .inr ⟨digits, rfl, ?_, hex⟩
      have length := byteLength_hex hex
      have sum : byteLength ('+' :: digits) = 1 + byteLength digits := rfl
      omega
    · simp only [sign, if_false] at parsed
      split_ifs at parsed
      have hex := hex_of_readHex parsed
      exact .inl ⟨(byteLength_hex hex).symm.trans bytes, hex⟩

theorem fromBase16_signed {digits : List Char} (length : digits.length = 31)
    (hex : ∀ c ∈ digits, IsHexDigit c) : ∃ x, fromBase16 ('+' :: digits) = .ok x := by
  have filled : digits ≠ [] := by
    rintro rfl
    cases length
  have bytes : byteLength ('+' :: digits) = 32 := by
    have sum : byteLength ('+' :: digits) = 1 + byteLength digits := rfl
    rw [sum, byteLength_hex hex, length]
  refine ⟨⟨BitVec.ofNat 128 (value 16 (hexDigits digits))⟩, ?_⟩
  rw [fromBase16, if_neg (not_not.mpr bytes), fromStrRadix16]
  simp [filled, readHex_hex hex (by omega : digits.length ≤ 32)]

theorem hexValue_digitChar {p : Nat} (small : p < 16) :
    hexValue (Nat.digitChar p) = some p := by
  revert p
  decide

theorem hexDigits_map_digitChar (digits : List Nat) (small : ∀ p ∈ digits, p < 16) :
    hexDigits (digits.map Nat.digitChar) = digits := by
  induction digits with
  | nil => rfl
  | cons p digits ih =>
    have rest := ih fun p inside => small p (List.mem_cons_of_mem _ inside)
    rw [hexDigits] at rest ⊢
    rw [List.map_cons, List.map_cons, hexValue_digitChar (small p List.mem_cons_self), rest]
    rfl

theorem fromBase16_toBase16 (i : SpotifyId) : fromBase16 i.toBase16 = .ok i := by
  have small (p : Nat) (member : p ∈ expansion 16 32 i.id.toNat) : p < 16 :=
    lt_of_mem_expansion (by decide) member
  have length : i.toBase16.length = 32 := by rw [toBase16_eq, List.length_map, length_expansion]
  have hex : ∀ c ∈ i.toBase16, IsHexDigit c := by
    intro c member
    rw [toBase16_eq] at member
    obtain ⟨p, inside, rfl⟩ := List.mem_map.mp member
    exact (hexValue_isSome_iff _).mp (by rw [hexValue_digitChar (small p inside)]; rfl)
  have fits : i.id.toNat < 16 ^ 32 := Nat.lt_of_lt_of_le i.id.isLt (by decide)
  rw [fromBase16_digits length hex, toBase16_eq, hexDigits_map_digitChar _ small,
    value_expansion fits, BitVec.ofNat_toNat, BitVec.setWidth_eq]

/-- The text is read exactly if it has 32 digits, and then as the id it is the text of. -/
def ReadsHex (s : List Char) : Prop :=
  ((∃ x, fromBase16 s = .ok x) ↔ s.length = 32 ∧ ∀ c ∈ s, IsHexDigit c) ∧
    ∀ x, fromBase16 s = .ok x → x.toBase16 = s.map Char.toLower

/-- Ids are read as they are written, and of all texts only those with a plus sign before 31
digits are read though they should not be. -/
theorem readsHex_iff (i : SpotifyId) (s : List Char) :
    fromBase16 i.toBase16 = .ok i ∧
      (ReadsHex s ↔
        ¬ ∃ digits, s = '+' :: digits ∧ digits.length = 31 ∧ ∀ c ∈ digits, IsHexDigit c) := by
  refine ⟨fromBase16_toBase16 i, ?_, ?_⟩
  · rintro ⟨accepted, -⟩ ⟨digits, rfl, length, hex⟩
    obtain ⟨-, all⟩ := accepted.mp (fromBase16_signed length hex)
    exact not_isHexDigit_plus (all '+' List.mem_cons_self)
  · intro unsigned
    have digits {x : SpotifyId} (read : fromBase16 s = .ok x) :
        s.length = 32 ∧ ∀ c ∈ s, IsHexDigit c :=
      (fromBase16_ok read).resolve_right unsigned
    refine ⟨⟨?_, ?_⟩, ?_⟩
    · rintro ⟨x, read⟩
      exact digits read
    · rintro ⟨length, hex⟩
      exact ⟨_, fromBase16_digits length hex⟩
    · intro x read
      obtain ⟨length, hex⟩ := digits read
      rw [fromBase16_digits length hex] at read
      rw [← Except.ok.inj read]
      exact toBase16_digits length hex

/-- A plus sign stands for a digit. -/
theorem signed_notReadsHex : ¬ ReadsHex ('+' :: List.replicate 31 '0') := by
  rintro ⟨accepted, -⟩
  have zeros : ∀ c ∈ List.replicate 31 '0', IsHexDigit c := by
    intro c inside
    rw [List.eq_of_mem_replicate inside]
    exact .inl ⟨by decide, by decide⟩
  obtain ⟨-, all⟩ := accepted.mp (fromBase16_signed List.length_replicate zeros)
  exact not_isHexDigit_plus (all '+' List.mem_cons_self)

end Base16

end IdTexts
