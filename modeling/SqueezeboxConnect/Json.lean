import Mathlib.Data.List.Basic
import Mathlib.Data.List.TakeWhile
import SqueezeboxConnect.Words

/-!
# JSON texts

A reader for JSON texts on lists of characters: values with blanks around them,
strings with their escapes, and lists of items up to a closing bracket. Control
characters do not stand in a string as they are, and half of a surrogate pair is
no character. Numbers are kept as they are written.

`Spells` says that a piece of text between quotes stands for a string, and
`Breaks` that it cannot stand there. An object whose keys and values are spelled
is read as what they stand for, and not at all if one of them breaks.
-/

namespace Json

open Words

inductive Value where
  | null
  | bool (b : Bool)
  | number (text : Text)
  | string (text : Text)
  | array (items : List Value)
  | object (members : List (Text × Value))

section Strings

def hex4 (text : Text) : Option (Nat × Text) :=
  if (text.take 4).length = 4 ∧ (text.take 4).all fun c => (hexValue c).isSome then
    some ((text.take 4).foldl (fun n c => 16 * n + (hexValue c).getD 0) 0, text.drop 4)
  else none

/-- Behind the first half of a surrogate pair. -/
def lowSurrogate (high : Nat) : Text → Option (Char × Text)
  | '\\' :: 'u' :: rest =>
    match hex4 rest with
    | none => none
    | some (low, rest) =>
      if 0xDC00 ≤ low ∧ low < 0xE000 then
        some (Char.ofNat (0x10000 + (high - 0xD800) * 0x400 + (low - 0xDC00)), rest)
      else none
  | _ => none

def unicodeEscape (text : Text) : Option (Char × Text) :=
  match hex4 text with
  | none => none
  | some (n, rest) =>
    if 0xD800 ≤ n ∧ n < 0xDC00 then lowSurrogate n rest
    else if 0xDC00 ≤ n ∧ n < 0xE000 then none
    else some (Char.ofNat n, rest)

def simpleEscape (c : Char) : Option Char :=
  if c = '"' ∨ c = '\\' ∨ c = '/' then some c
  else if c = 'b' then some (Char.ofNat 8)
  else if c = 'f' then some (Char.ofNat 12)
  else if c = 'n' then some '\n'
  else if c = 'r' then some '\r'
  else if c = 't' then some '\t'
  else none

/-- Behind a backslash. -/
def unescape : Text → Option (Char × Text)
  | [] => none
  | c :: rest => if c = 'u' then unicodeEscape rest else (simpleEscape c).map fun d => (d, rest)

theorem hex4_shorter {text rest : Text} {n : Nat} (read : hex4 text = some (n, rest)) :
    rest.length ≤ text.length := by
  rw [hex4] at read
  split at read
  · cases read
    rw [List.length_drop]
    omega
  · cases read

theorem lowSurrogate_shorter {high : Nat} {text rest : Text} {c : Char}
    (read : lowSurrogate high text = some (c, rest)) : rest.length ≤ text.length := by
  unfold lowSurrogate at read
  split at read
  · next later =>
    split at read
    · cases read
    · next low left digits =>
      have shorter := hex4_shorter digits
      split at read
      · rw [Option.some.injEq, Prod.mk.injEq] at read
        rw [← read.2, List.length_cons, List.length_cons]
        omega
      · cases read
  · cases read

theorem unescape_shorter {text rest : Text} {c : Char} (read : unescape text = some (c, rest)) :
    rest.length ≤ text.length := by
  unfold unescape unicodeEscape at read
  split at read
  · cases read
  · next d later =>
    rw [List.length_cons]
    refine Nat.le_succ_of_le ?_
    split at read
    · split at read
      · cases read
      · next n left digits =>
        have shorter := hex4_shorter digits
        split at read
        · exact Nat.le_trans (lowSurrogate_shorter read) shorter
        · split at read
          · cases read
          · cases read
            exact shorter
    · obtain ⟨e, -, same⟩ := Option.map_eq_some_iff.mp read
      cases same
      exact Nat.le_refl _

/-- The rest of a string behind its opening quote. -/
def readString : Text → Option (Text × Text)
  | [] => none
  | c :: rest =>
    if c = '"' then some ([], rest)
    else if c = '\\' then
      match _escape : unescape rest with
      | none => none
      | some (d, later) => (readString later).map fun (text, left) => (d :: text, left)
    else if c.toNat < 0x20 then none
    else (readString rest).map fun (text, left) => (c :: text, left)
termination_by text => text.length
decreasing_by
  · exact Nat.lt_succ_of_le (unescape_shorter _escape)
  · exact Nat.lt_succ_self _

theorem readString_quote (rest : Text) : readString ('"' :: rest) = some ([], rest) := by
  rw [readString, if_pos rfl]

theorem readString_escape {text later : Text} {d : Char}
    (escape : unescape text = some (d, later)) :
    readString ('\\' :: text) = (readString later).map fun (text, left) => (d :: text, left) := by
  rw [readString, if_neg (by decide), if_pos rfl]
  split
  · next failed =>
    rw [escape] at failed
    cases failed
  · next read =>
    rw [escape] at read
    cases read
    rfl

theorem readString_plain {c : Char} (notQuote : c ≠ '"') (notBackslash : c ≠ '\\')
    (printable : 0x20 ≤ c.toNat) (rest : Text) :
    readString (c :: rest) = (readString rest).map fun (text, left) => (c :: text, left) := by
  rw [readString, if_neg notQuote, if_neg notBackslash, if_neg (Nat.not_lt.mpr printable)]

theorem readString_control {c : Char} (control : c.toNat < 0x20) (rest : Text) :
    readString (c :: rest) = none := by
  have notQuote : c ≠ '"' := by
    rintro rfl
    exact absurd control (by decide)
  have notBackslash : c ≠ '\\' := by
    rintro rfl
    exact absurd control (by decide)
  rw [readString, if_neg notQuote, if_neg notBackslash, if_pos control]

/-- Between quotes the piece stands for the string. -/
def Spells (piece string : Text) : Prop :=
  ∀ rest, readString (piece ++ '"' :: rest) = some (string, rest)

/-- The piece cannot stand between quotes, whatever follows. -/
def Breaks (piece : Text) : Prop := ∀ rest, readString (piece ++ rest) = none

theorem spells_plain {text : Text}
    (plain : ∀ c ∈ text, c ≠ '"' ∧ c ≠ '\\' ∧ 0x20 ≤ c.toNat) : Spells text text := by
  intro rest
  induction text with
  | nil => exact readString_quote rest
  | cons c text ih =>
    obtain ⟨notQuote, notBackslash, printable⟩ := plain c List.mem_cons_self
    have later := ih fun d inside => plain d (List.mem_cons_of_mem _ inside)
    rw [List.cons_append, readString_plain notQuote notBackslash printable, later]
    rfl

/-- What is checked of every character of some texts holds of it. -/
theorem forall_of_all {texts : List Text} {p : Char → Prop} [DecidablePred p]
    (all : texts.all (fun text => text.all fun c => p c) = true) : ∀ text ∈ texts, ∀ c ∈ text,
      p c := by
  intro text inside c member
  exact of_decide_eq_true (List.all_eq_true.mp (List.all_eq_true.mp all text inside) c member)

end Strings

section Values

def isSpace (c : Char) : Bool := c == ' ' || c == '\n' || c == '\r' || c == '\t'

def skipSpace (text : Text) : Text := text.dropWhile isSpace

def readDigits (text : Text) : Option (Text × Text) :=
  if text.takeWhile Char.isDigit = [] then none
  else some (text.takeWhile Char.isDigit, text.dropWhile Char.isDigit)

/-- A number has no zeros in front. -/
def readInteger : Text → Option (Text × Text)
  | [] => none
  | c :: rest => if c = '0' then some ([c], rest) else readDigits (c :: rest)

def readFraction : Text → Option (Text × Text)
  | [] => some ([], [])
  | c :: rest =>
    if c = '.' then (readDigits rest).map fun (digits, left) => (c :: digits, left)
    else some ([], c :: rest)

def readSign : Text → Text × Text
  | [] => ([], [])
  | c :: rest => if c = '+' ∨ c = '-' then ([c], rest) else ([], c :: rest)

def readExponent : Text → Option (Text × Text)
  | [] => some ([], [])
  | c :: rest =>
    if c = 'e' ∨ c = 'E' then
      (readDigits (readSign rest).2).map fun (digits, left) =>
        (c :: (readSign rest).1 ++ digits, left)
    else some ([], c :: rest)

def readNumber (text : Text) : Option (Text × Text) :=
  let (minus, text) := if text.head? = some '-' then (['-'], text.drop 1) else ([], text)
  (readInteger text).bind fun (integer, text) => (readFraction text).bind fun (fraction, text) =>
    (readExponent text).map fun (exponent, text) => (minus ++ integer ++ fraction ++ exponent, text)

/-- Items with commas between them, up to the closing bracket. -/
def readItems {A : Type} (item : Text → Option (A × Text)) (close : Char) :
    Nat → Text → Option (List A × Text)
  | 0, _ => none
  | fuel + 1, text =>
    (item text).bind fun (a, rest) =>
      match skipSpace rest with
      | [] => none
      | c :: rest =>
        if c = close then some ([a], rest)
        else if c = ',' then (readItems item close fuel rest).map fun (items, left) =>
          (a :: items, left)
        else none

/-- The same with no items at all; each of them takes at least one character. -/
def readSequence {A : Type} (item : Text → Option (A × Text)) (close : Char) (text : Text) :
    Option (List A × Text) :=
  match skipSpace text with
  | [] => none
  | c :: rest => if c = close then some ([], rest) else readItems item close text.length text

def readMember (value : Text → Option (Value × Text)) (text : Text) :
    Option ((Text × Value) × Text) :=
  match skipSpace text with
  | [] => none
  | c :: rest =>
    if c = '"' then
      (readString rest).bind fun (key, rest) =>
        match skipSpace rest with
        | [] => none
        | c :: rest => if c = ':' then (value rest).map fun (v, left) => ((key, v), left) else none
    else none

/-- A value behind blanks; the fuel bounds how deep values are nested. -/
def readValue : Nat → Text → Option (Value × Text)
  | 0, _ => none
  | fuel + 1, text =>
    match skipSpace text with
    | [] => none
    | c :: rest =>
      if c = '"' then (readString rest).map fun (string, left) => (.string string, left)
      else if c = '\x7b' then
        (readSequence (readMember (readValue fuel)) '\x7d' rest).map fun (members, left) =>
          (.object members, left)
      else if c = '[' then
        (readSequence (readValue fuel) ']' rest).map fun (items, left) => (.array items, left)
      else if "null".toList <+: c :: rest then some (.null, rest.drop 3)
      else if "true".toList <+: c :: rest then some (.bool true, rest.drop 3)
      else if "false".toList <+: c :: rest then some (.bool false, rest.drop 4)
      else (readNumber (c :: rest)).map fun (number, left) => (.number number, left)

def decode (text : Text) : Option Value :=
  (readValue (text.length + 1) text).bind fun (value, left) =>
    if skipSpace left = [] then some value else none

end Values

section Objects

/-- A key and a piece for its string value. -/
structure Field where
  key : Text
  piece : Text

def Field.text (field : Field) : Text :=
  '"' :: field.key ++ '"' :: ':' :: '"' :: field.piece ++ ['"']

def fieldsText : List Field → Text
  | [] => []
  | [field] => field.text
  | field :: rest => field.text ++ ',' :: fieldsText rest

def objectText (fields : List Field) : Text := '\x7b' :: fieldsText fields ++ ['\x7d']

/-- The key stands for itself and the piece for the value. -/
def Field.Spells (field : Field) (value : Text) : Prop :=
  Json.Spells field.key field.key ∧ Json.Spells field.piece value

@[simp] theorem skipSpace_cons_of_not {c : Char} (visible : isSpace c = false) (rest : Text) :
    skipSpace (c :: rest) = c :: rest := by
  simp [skipSpace, visible]

theorem readValue_quote (fuel : Nat) (rest : Text) :
    readValue (fuel + 1) ('"' :: rest) =
      (readString rest).map fun (string, left) => (.string string, left) := by
  have quote : isSpace '"' = false := by decide
  simp only [readValue, skipSpace_cons_of_not quote, if_true]

/-- The key and the colon are read, and the value is left. -/
theorem readMember_eq {field : Field} (fuel : Nat) (spells : Spells field.key field.key)
    (rest : Text) :
    readMember (readValue (fuel + 1)) (field.text ++ rest) =
      (readString (field.piece ++ '"' :: rest)).map fun (v, left) =>
        ((field.key, .string v), left) := by
  have text : field.text ++ rest =
      '"' :: (field.key ++ '"' :: (':' :: '"' :: (field.piece ++ '"' :: rest))) := by
    simp [Field.text]
  have quote : isSpace '"' = false := by decide
  have colon : isSpace ':' = false := by decide
  have first := spells (':' :: '"' :: (field.piece ++ '"' :: rest))
  rw [text, readMember, skipSpace_cons_of_not quote]
  simp only [if_true, first, Option.bind_some, skipSpace_cons_of_not colon, readValue_quote,
    Option.map_map]
  rfl

theorem readMember_spelled {field : Field} {value : Text} (fuel : Nat) (spells : field.Spells value)
    (rest : Text) :
    readMember (readValue (fuel + 1)) (field.text ++ rest) =
      some ((field.key, .string value), rest) := by
  rw [readMember_eq fuel spells.1, spells.2]
  rfl

theorem readMember_breaks {field : Field} (fuel : Nat) (spells : Spells field.key field.key)
    (breaks : Breaks field.piece) (rest : Text) :
    readMember (readValue (fuel + 1)) (field.text ++ rest) = none := by
  rw [readMember_eq fuel spells, breaks]
  rfl

theorem readItems_cons {A : Type} {item : Text → Option (A × Text)} {close : Char}
    {text rest : Text}
    {a : A} (fuel : Nat) (read : item text = some (a, ',' :: rest)) (other : ',' ≠ close) :
    readItems item close (fuel + 1) text =
      (readItems item close fuel rest).map fun (items, left) => (a :: items, left) := by
  have comma : isSpace ',' = false := by decide
  simp only [readItems, read, Option.bind_some, skipSpace_cons_of_not comma, if_neg other, if_true]

theorem readItems_last {A : Type} {item : Text → Option (A × Text)} {close : Char}
    {text rest : Text}
    {a : A} (fuel : Nat) (read : item text = some (a, close :: rest))
    (visible : isSpace close = false) : readItems item close (fuel + 1) text =
      some ([a], rest) := by
  simp only [readItems, read, Option.bind_some, skipSpace_cons_of_not visible, if_true]

theorem fieldsText_cons (field next : Field) (rest : List Field) :
    fieldsText (field :: next :: rest) = field.text ++ ',' :: fieldsText (next :: rest) := rfl

theorem readItems_spelled {fields : List Field} {values : List Text} (fuel : Nat)
    (spells : List.Forall₂ Field.Spells fields values) (nonempty : fields ≠ []) {items : Nat}
    (enough : fields.length ≤ items) (rest : Text) :
    readItems (readMember (readValue (fuel + 1))) '\x7d' items
        (fieldsText fields ++ '\x7d' :: rest) =
      some ((fields.zip values).map fun (field, value) => (field.key, .string value), rest) := by
  induction spells generalizing items with
  | nil => exact absurd rfl nonempty
  | @cons field value fields values here later ih =>
    obtain ⟨items, rfl⟩ : ∃ n, items = n + 1 :=
      ⟨items - 1, by simp only [List.length_cons] at enough; omega⟩
    cases later with
    | nil =>
      have read := readMember_spelled fuel here ('\x7d' :: rest)
      exact readItems_last items read (by decide)
    | @cons next other fields values _ _ =>
      have read := readMember_spelled fuel here
        (',' :: (fieldsText (next :: fields) ++ '\x7d' :: rest))
      rw [fieldsText_cons, List.append_assoc, List.cons_append,
        readItems_cons items read (by decide),
        ih (by simp) (by simpa using enough)]
      rfl

theorem readItems_breaks {front : List Field} {values : List Text} {field : Field} (fuel : Nat)
    (spells : List.Forall₂ Field.Spells front values) (spellsKey : Spells field.key field.key)
    (breaks : Breaks field.piece) (back : List Field) (items : Nat) (rest : Text) :
    readItems (readMember (readValue (fuel + 1))) '\x7d' items
      (fieldsText (front ++ field :: back) ++ rest) = none := by
  induction spells generalizing items with
  | nil =>
    cases items with
    | zero => rfl
    | succ items =>
      obtain ⟨more, text⟩ : ∃ more, fieldsText (field :: back) ++ rest = field.text ++ more := by
        cases back with
        | nil => exact ⟨rest, rfl⟩
        | cons next back =>
          exact ⟨_, by rw [fieldsText_cons, List.append_assoc]⟩
      rw [List.nil_append, text, readItems, readMember_breaks fuel spellsKey breaks]
      rfl
  | @cons first value front values here later ih =>
    cases items with
    | zero => rfl
    | succ items =>
      obtain ⟨next, more, tail⟩ : ∃ next more, front ++ field :: back = next :: more := by
        cases front with
        | nil => exact ⟨field, back, rfl⟩
        | cons next front => exact ⟨next, _, rfl⟩
      have read := readMember_spelled fuel here (',' :: (fieldsText (front ++ field :: back) ++
        rest))
      rw [List.cons_append, tail, fieldsText_cons, ← tail, List.append_assoc, List.cons_append,
        readItems_cons items read (by decide), ih]
      rfl

theorem length_le_fieldsText (fields : List Field) : fields.length ≤
    (fieldsText fields).length := by
  induction fields with
  | nil => exact Nat.le_refl 0
  | cons field rest ih =>
    cases rest with
    | nil => simp [fieldsText, Field.text]
    | cons next rest =>
      rw [fieldsText_cons, List.length_append, List.length_cons, List.length_cons]
      exact Nat.succ_le_of_lt (Nat.lt_of_le_of_lt ih (by rw [List.length_cons]; omega))

theorem decode_object {fields : List Field} (nonempty : fields ≠ []) (blanks : Text) :
    ∃ fuel items, fields.length ≤ items ∧
      decode (objectText fields ++ blanks) =
        ((readItems (readMember (readValue (fuel + 1))) '\x7d' items
          (fieldsText fields ++ '\x7d' :: blanks)).bind fun (members, left) =>
            if skipSpace left = [] then some (.object members) else none) := by
  have text : objectText fields ++ blanks = '\x7b' :: (fieldsText fields ++ '\x7d' :: blanks) := by
    simp [objectText]
  obtain ⟨rest, first⟩ : ∃ rest, fieldsText fields ++ '\x7d' :: blanks = '"' :: rest := by
    match fields, nonempty with
    | [field], _ => exact ⟨_, rfl⟩
    | field :: next :: later, _ => exact ⟨_, rfl⟩
  have quote : isSpace '"' = false := by decide
  have bracket : isSpace '\x7b' = false := by decide
  have length := length_le_fieldsText fields
  refine ⟨(fieldsText fields ++ '\x7d' :: blanks).length,
    (fieldsText fields ++ '\x7d' :: blanks).length, by rw [List.length_append]; omega, ?_⟩
  rw [text, decode, readValue, skipSpace_cons_of_not bracket]
  simp only [if_neg (show ('\x7b' : Char) ≠ '"' by decide), if_true, List.length_cons]
  rw [readSequence, first, skipSpace_cons_of_not quote]
  simp only [if_neg (show ('"' : Char) ≠ '\x7d' by decide), Option.bind_map, Function.comp_def]

theorem decode_spelled {fields : List Field} {values : List Text}
    (spells : List.Forall₂ Field.Spells fields values) (nonempty : fields ≠ []) {blanks : Text}
    (blank : ∀ c ∈ blanks, isSpace c = true) :
    decode (objectText fields ++ blanks) =
      some (.object ((fields.zip values).map fun (field, value) =>
        (field.key, .string value))) := by
  obtain ⟨fuel, items, enough, decoded⟩ := decode_object nonempty blanks
  have skipped : skipSpace blanks = [] := List.dropWhile_eq_nil_iff.mpr blank
  rw [decoded, readItems_spelled fuel spells nonempty enough]
  simp only [Option.bind_some, skipped, if_true]

theorem decode_breaks {front : List Field} {values : List Text} {field : Field}
    (spells : List.Forall₂ Field.Spells front values) (spellsKey : Spells field.key field.key)
    (breaks : Breaks field.piece) (back : List Field) (blanks : Text) :
    decode (objectText (front ++ field :: back) ++ blanks) = none := by
  have nonempty : front ++ field :: back ≠ [] := by simp
  obtain ⟨fuel, items, -, decoded⟩ := decode_object nonempty blanks
  rw [decoded, readItems_breaks fuel spells spellsKey breaks]
  rfl

end Objects

end Json
