import SqueezeboxConnect.MetadataJson
import SqueezeboxConnect.Tables

/-!
# Two readers for the metadata file

The applet decodes the file as JSON. On firmware without a JSON module it takes
each field with a pattern: the name in quotes, a colon, a quote, and everything
up to the next quote. The pattern knows no escapes.

A quote inside of a value is written behind a backslash, so the name of a field
with its quotes and its colon is found only where the field begins. What is
taken there is the value exactly if nothing in it was escaped.

The status, the playback state and the volume come from other files and are left
out. The helper writes strings only, so a field is a text.
-/

namespace StatusData

open Metadata MetadataJson BridgeLoop Words

section Patterns

/-- The part of the pattern in front of the capture. -/
def opening (key : Text) : Text := '"' :: key ++ ['"', ':', '"']

/-- `"key":"([^"]*)"` at this place. -/
def matchAt (key text : Text) : Option Text :=
  if opening key <+: text then
    let rest := text.drop (opening key).length
    if '"' ∈ rest then some (rest.takeWhile fun c => c != '"') else none
  else none

/-- `text:match(pattern)`: the first place where the pattern matches. -/
def findMatch (key : Text) : Text → Option Text
  | [] => none
  | c :: rest => (matchAt key (c :: rest)).or (findMatch key rest)

end Patterns

structure Fields where
  playbackState : Option Text
  trackId : Option Text
  title : Option Text
  artist : Option Text
  album : Option Text
  durationMs : Option Text
  artworkUrl : Option Text
  deriving DecidableEq

/-- The fields by their names. -/
def Fields.ofLookup (lookup : Text → Option Text) : Fields where
  playbackState := lookup "playback_state".toList
  trackId := lookup "track_id".toList
  title := lookup "title".toList
  artist := lookup "artist".toList
  album := lookup "album".toList
  durationMs := lookup "duration_ms".toList
  artworkUrl := lookup "artwork_url".toList

/-- The branch without a JSON module. -/
def matchedFields (ms : Text) : Fields := .ofLookup fun key => findMatch key ms

def stringMember (members : List (Text × Json.Value)) (key : Text) : Option Text :=
  match members.lookup key with
  | some (.string text) => some text
  | _ => none

/-- The fields of the decoded table; any other value has none. -/
def parsedFields (ms : Text) : Option Fields :=
  match Json.decode ms with
  | some (.object members) => some (.ofLookup (stringMember members))
  | some (.array _) => some (.ofLookup fun _ => none)
  | _ => none

/-- What `statusData` takes from the metadata file. -/
def readMetadata (okJson : Bool) (ms : Text) : Fields :=
  if okJson then (parsedFields ms).getD (matchedFields ms) else matchedFields ms

variable {c : Char}

section Occurrences

variable {key : Text}

/-- A name that can only be found where a field begins. -/
structure Name (key : Text) : Prop where
  plain : ∀ c ∈ key, c ≠ '"' ∧ c ≠ '\\'
  start : ∃ c rest, key = c :: rest ∧ c ≠ ':' ∧ c ≠ ',' ∧ c ≠ '\x7d'

theorem findMatch_skip (other : c ≠ '"') (rest : Text) :
    findMatch key (c :: rest) = findMatch key rest := by
  have miss : ¬ opening key <+: c :: rest := by
    intro found
    exact other (List.cons_prefix_cons.mp found).1.symm
  rw [findMatch, matchAt, if_neg miss, Option.none_or]

theorem findMatch_skipAll {front : Text} (plain : ∀ c ∈ front, c ≠ '"') (rest : Text) :
    findMatch key (front ++ rest) = findMatch key rest := by
  induction front with
  | nil => rfl
  | cons c front ih =>
    rw [List.cons_append, findMatch_skip (plain c List.mem_cons_self),
      ih fun d inside => plain d (List.mem_cons_of_mem _ inside)]

/-- A character that is written stands alone or behind a backslash. -/
theorem escChar_cases (c : Char) :
    (escChar c = [c] ∧ c ≠ '"' ∧ c ≠ '\\') ∨ ∃ d, escChar c = ['\\', d] := by
  rw [escChar]
  split
  · exact .inr ⟨_, rfl⟩
  · split
    · exact .inr ⟨_, rfl⟩
    · split
      · exact .inr ⟨_, rfl⟩
      · split
        · exact .inr ⟨_, rfl⟩
        · next notBackslash notQuote _ _ => exact .inl ⟨rfl, notQuote, notBackslash⟩

/-- A plain text up to a quote and a colon is no end of an escaped value, unless the colon is
behind the value. -/
theorem colon_of_start {front value rest : Text} (plain : ∀ c ∈ front, c ≠ '"' ∧ c ≠ '\\')
    (found : front ++ ['"', ':'] <+: esc value ++ '"' :: c :: rest) : c = ':' := by
  induction value generalizing front with
  | nil =>
    cases front with
    | nil => exact (List.cons_prefix_cons.mp (List.cons_prefix_cons.mp found).2).1.symm
    | cons d front =>
      exact absurd (List.cons_prefix_cons.mp found).1 (plain d List.mem_cons_self).1
  | cons d value ih =>
    rw [esc_cons, List.append_assoc] at found
    rcases escChar_cases d with ⟨alone, notQuote, -⟩ | ⟨e, escaped⟩
    · rw [alone] at found
      cases front with
      | nil => exact absurd (List.cons_prefix_cons.mp found).1.symm notQuote
      | cons first front =>
        exact ih (fun b inside => plain b (List.mem_cons_of_mem _ inside))
          (List.cons_prefix_cons.mp found).2
    · rw [escaped] at found
      cases front with
      | nil => exact absurd (List.cons_prefix_cons.mp found).1 (by decide)
      | cons first front =>
        exact absurd (List.cons_prefix_cons.mp found).1 (plain first List.mem_cons_self).2

theorem findMatch_miss {text : Text} (miss : ¬ key ++ ['"', ':', '"'] <+: text) :
    findMatch key ('"' :: text) = findMatch key text := by
  have nowhere : ¬ opening key <+: '"' :: text := by
    intro found
    exact miss (List.cons_prefix_cons.mp found).2
  rw [findMatch, matchAt, if_neg nowhere, Option.none_or]

theorem miss_value (name : Name key) (value rest : Text) (other : c ≠ ':') :
    ¬ key ++ ['"', ':', '"'] <+: esc value ++ '"' :: c :: rest := by
  intro found
  have start : key ++ ['"', ':'] <+: key ++ ['"', ':', '"'] :=
    (List.prefix_append_right_inj key).mpr (by decide)
  exact other (colon_of_start name.plain (start.trans found))

theorem findMatch_value (name : Name key) (value rest : Text) (behind : c = ',' ∨ c = '\x7d') :
    findMatch key (esc value ++ '"' :: c :: rest) = findMatch key (c :: rest) := by
  have other : c ≠ ':' := by rcases behind with rfl | rfl <;> decide
  induction value with
  | nil =>
    refine findMatch_miss fun found => ?_
    obtain ⟨first, _, rfl, -, notComma, notBracket⟩ := name.start
    have same := (List.cons_prefix_cons.mp found).1
    rcases behind with rfl | rfl
    · exact notComma same
    · exact notBracket same
  | cons d value ih =>
    rw [esc_cons, List.append_assoc]
    rcases escChar_cases d with ⟨alone, notQuote, -⟩ | ⟨e, escaped⟩
    · rw [alone, List.singleton_append, findMatch_skip notQuote, ih]
    · rw [escaped, List.cons_append, List.singleton_append, findMatch_skip (by decide)]
      by_cases quote : e = '"'
      · rw [quote, findMatch_miss (miss_value name value rest other), ih]
      · rw [findMatch_skip quote, ih]

theorem eq_of_quoted {a b rest : Text} (plainA : ∀ c ∈ a, c ≠ '"') (plainB : ∀ c ∈ b, c ≠ '"')
    (found : a ++ ['"'] <+: b ++ '"' :: rest) : a = b := by
  induction a generalizing b with
  | nil =>
    cases b with
    | nil => rfl
    | cons d b =>
      exact absurd (List.cons_prefix_cons.mp found).1.symm (plainB d List.mem_cons_self)
  | cons c a ih =>
    cases b with
    | nil => exact absurd (List.cons_prefix_cons.mp found).1 (plainA c List.mem_cons_self)
    | cons d b =>
      obtain ⟨rfl, later⟩ := List.cons_prefix_cons.mp found
      rw [ih (fun e inside => plainA e (List.mem_cons_of_mem _ inside))
        (fun e inside => plainB e (List.mem_cons_of_mem _ inside)) later]

theorem field_text (entry : Text × Text) (rest : Text) :
    (field entry).text ++ rest =
      '"' :: (entry.1 ++ '"' :: ':' :: '"' :: (esc entry.2 ++ '"' :: rest)) := by
  simp [field, Json.Field.text]

theorem findMatch_otherField (name : Name key) {entry : Text × Text} (name' : Name entry.1)
    (other : key ≠ entry.1) (rest : Text) (behind : c = ',' ∨ c = '\x7d') :
    findMatch key ((field entry).text ++ c :: rest) = findMatch key (c :: rest) := by
  have notColon : c ≠ ':' := by rcases behind with rfl | rfl <;> decide
  have start : ¬ key ++ ['"', ':', '"'] <+:
      entry.1 ++ '"' :: ':' :: '"' :: (esc entry.2 ++ '"' :: c :: rest) := by
    intro found
    have quoted : key ++ ['"'] <+: key ++ ['"', ':', '"'] :=
      (List.prefix_append_right_inj key).mpr (by decide)
    exact other (eq_of_quoted (fun d inside => (name.plain d inside).1)
      (fun d inside => (name'.plain d inside).1) (quoted.trans found))
  have colon : ¬ key ++ ['"', ':', '"'] <+:
      ':' :: '"' :: (esc entry.2 ++ '"' :: c :: rest) := by
    intro found
    obtain ⟨first, _, rfl, notColon, -⟩ := name.start
    exact notColon (List.cons_prefix_cons.mp found).1
  rw [field_text, findMatch_miss start, findMatch_skipAll fun d inside => (name'.plain d inside).1,
    findMatch_miss colon, findMatch_skip (by decide),
    findMatch_miss (miss_value name entry.2 rest notColon),
    findMatch_value name entry.2 rest behind]

/-- What the pattern takes of a value. -/
def taken (value : Text) : Text := (esc value).takeWhile fun c => c != '"'

theorem matchAt_opening (value rest : Text) :
    matchAt key (opening key ++ (esc value ++ '"' :: rest)) = some (taken value) := by
  have stops : (esc value ++ '"' :: rest).takeWhile (fun c => c != '"') = taken value := by
    rw [taken, List.takeWhile_append]
    split
    · next whole =>
      rw [List.takeWhile_cons_of_neg (by decide), List.append_nil]
      exact ((List.takeWhile_prefix _).eq_of_length whole).symm
    · rfl
  rw [matchAt, if_pos (List.prefix_append _ _)]
  simp only [List.drop_left, stops]
  rw [if_pos (by simp)]

theorem findMatch_ownField (entry : Text × Text) (rest : Text) :
    findMatch entry.1 ((field entry).text ++ rest) = some (taken entry.2) := by
  have text : (field entry).text ++ rest =
      '"' :: (entry.1 ++ ['"', ':', '"'] ++ (esc entry.2 ++ '"' :: rest)) := by
    simp [field, Json.Field.text]
  have here : matchAt entry.1 (opening entry.1 ++ (esc entry.2 ++ '"' :: rest)) =
      some (taken entry.2) := matchAt_opening entry.2 rest
  rw [opening, List.cons_append, List.cons_append] at here
  rw [text, findMatch, here, Option.some_or]

/-- The pattern finds the field with its name, wherever it stands. -/
theorem findMatch_fields (name : Name key) {entries : List (Text × Text)} (nonempty : entries ≠ [])
    (names : ∀ entry ∈ entries, Name entry.1) (rest : Text) :
    findMatch key (Json.fieldsText (entries.map field) ++ '\x7d' :: rest) =
      ((entries.lookup key).map taken).or (findMatch key rest) := by
  induction entries with
  | nil => exact absurd rfl nonempty
  | cons entry entries ih =>
    obtain ⟨own, value⟩ := entry
    by_cases same : key = own
    · subst same
      obtain ⟨more, text⟩ : ∃ more, Json.fieldsText (((key, value) :: entries).map field) ++
          '\x7d' :: rest = (field (key, value)).text ++ more := by
        cases entries with
        | nil => exact ⟨_, rfl⟩
        | cons next entries => exact ⟨_, List.append_assoc _ _ _⟩
      rw [text, findMatch_ownField (key, value), List.lookup_cons_self]
      rfl
    · have name' := names (own, value) List.mem_cons_self
      rw [Tables.lookup_cons_ne value entries same]
      cases entries with
      | nil =>
        exact (findMatch_otherField name name' same rest (.inr rfl)).trans
          (findMatch_skip (by decide) rest)
      | cons next entries =>
        have later := ih (by simp) fun entry inside => names entry (List.mem_cons_of_mem _ inside)
        rw [List.map_cons, List.map_cons, Json.fieldsText_cons, ← List.map_cons, List.append_assoc,
          List.cons_append, findMatch_otherField name name' same _ (.inl rfl),
          findMatch_skip (by decide), later]

end Occurrences

section Plain

theorem length_le_esc (value : Text) : value.length ≤ (esc value).length := by
  induction value with
  | nil => exact Nat.le_refl 0
  | cons c value ih =>
    rw [esc_cons, List.length_append, List.length_cons]
    rcases escChar_cases c with ⟨alone, -⟩ | ⟨d, escaped⟩
    · rw [alone, List.length_singleton]
      omega
    · rw [escaped]
      simp only [List.length_cons, List.length_nil]
      omega

theorem esc_eq_self_iff (value : Text) : esc value = value ↔ ∀ c ∈ value, escChar c = [c] := by
  induction value with
  | nil => simp
  | cons c value ih =>
    rw [esc_cons, List.forall_mem_cons, ← ih]
    rcases escChar_cases c with ⟨alone, -⟩ | ⟨d, escaped⟩
    · rw [alone]
      simp
    · -- an escape makes the text longer
      have longer := length_le_esc value
      refine iff_of_false (fun same => ?_) fun h => ?_
      · have lengths := congrArg List.length same
        rw [escaped] at lengths
        simp only [List.length_append, List.length_cons, List.length_nil] at lengths
        omega
      · rw [escaped] at h
        cases h.1

theorem quote_of_mem_escChar (inside : '"' ∈ escChar c) : c = '"' := by
  rw [escChar] at inside
  split at inside
  · exact absurd inside (by decide)
  · split at inside
    · assumption
    · split at inside
      · exact absurd inside (by decide)
      · split at inside
        · exact absurd inside (by decide)
        · exact (List.mem_singleton.mp inside).symm

theorem taken_eq_self_iff (value : Text) : taken value = value ↔ ∀ c ∈ value, escChar c = [c] := by
  constructor
  · intro same
    have noQuote : ∀ c ∈ value, c ≠ '"' := by
      intro c inside
      rw [← same] at inside
      simpa using List.mem_takeWhile_imp inside
    have whole : taken value = esc value := by
      refine List.takeWhile_eq_self_iff.mpr fun c inside => ?_
      rw [esc_eq_flatMap, List.mem_flatMap] at inside
      obtain ⟨d, member, made⟩ := inside
      simp only [bne_iff_ne, ne_eq]
      rintro rfl
      exact noQuote d member (quote_of_mem_escChar made)
    exact (esc_eq_self_iff value).mp (whole.symm.trans same)
  · intro plain
    have whole := (esc_eq_self_iff value).mpr plain
    rw [taken, whole]
    refine List.takeWhile_eq_self_iff.mpr fun c inside => ?_
    rcases escChar_cases c with ⟨-, notQuote, -⟩ | ⟨d, escaped⟩
    · simpa using notQuote
    · rw [plain c inside] at escaped
      cases escaped

end Plain

/-- Nothing in the text has to be escaped. -/
def Plain (value : Text) : Prop := ∀ c ∈ value, c ≠ '"' ∧ c ≠ '\\' ∧ 0x20 ≤ c.toNat

theorem plain_iff (value : Text) :
    Plain value ↔ (∀ c ∈ value, ¬ Raw c) ∧ taken value = value := by
  rw [taken_eq_self_iff, Plain, ← forall₂_and]
  refine forall₂_congr fun c _ => ?_
  constructor
  · rintro ⟨notQuote, notBackslash, printable⟩
    have notNewline : c ≠ '\n' := by
      rintro rfl
      exact absurd printable (by decide)
    have notReturn : c ≠ '\r' := by
      rintro rfl
      exact absurd printable (by decide)
    refine ⟨fun raw => absurd raw.1 (Nat.not_lt.mpr printable), ?_⟩
    rw [escChar, if_neg notBackslash, if_neg notQuote, if_neg notNewline, if_neg notReturn]
  · rintro ⟨cooked, alone⟩
    rcases escChar_cases c with ⟨-, notQuote, notBackslash⟩ | ⟨d, escaped⟩
    · refine ⟨notQuote, notBackslash, ?_⟩
      by_contra control
      refine cooked ⟨Nat.lt_of_not_le control, ?_, ?_⟩
      · rintro rfl
        exact absurd alone (by decide)
      · rintro rfl
        exact absurd alone (by decide)
    · rw [alone] at escaped
      cases escaped

def keys : List Text :=
  ["playback_state".toList, "track_id".toList, "title".toList, "artist".toList, "album".toList,
    "duration_ms".toList, "artwork_url".toList]

theorem ofLookup_eq_iff (f g : Text → Option Text) :
    Fields.ofLookup f = .ofLookup g ↔ ∀ key ∈ keys, f key = g key := by
  simp [Fields.ofLookup, keys]

theorem keys_entries (env : Env) : (entries env).map Prod.fst = keys := rfl

theorem name_keys : ∀ key ∈ keys, Name key := by
  have plain : ∀ key ∈ keys, ∀ c ∈ key, c ≠ '"' ∧ c ≠ '\\' := Json.forall_of_all (by decide)
  have start : ∀ key ∈ keys, ∀ c ∈ key.take 1, c ≠ ':' ∧ c ≠ ',' ∧ c ≠ '\x7d' := by
    have first := @Json.forall_of_all (keys.map (·.take 1))
      (fun c => c ≠ ':' ∧ c ≠ ',' ∧ c ≠ '\x7d') _ (by decide)
    exact fun key inside => first _ (List.mem_map_of_mem inside)
  have nonempty : ∀ key ∈ keys, key ≠ [] := by decide
  intro key inside
  obtain ⟨c, rest, rfl⟩ := List.exists_cons_of_ne_nil (nonempty key inside)
  exact ⟨plain _ inside, c, rest, rfl, start _ inside c List.mem_cons_self⟩

theorem name_entries (env : Env) : ∀ entry ∈ entries env, Name entry.1 := by
  intro entry inside
  exact name_keys entry.1 (keys_entries env ▸ List.mem_map_of_mem inside)

/-- The pattern finds every field in the file. -/
theorem matchedFields_written (env : Env) :
    matchedFields (Json.objectText (fields env) ++ ['\n']) =
      .ofLookup fun key => ((entries env).lookup key).map taken := by
  refine (ofLookup_eq_iff _ _).mpr fun key inside => ?_
  have text : Json.objectText (fields env) ++ ['\n'] =
      '\x7b' :: (Json.fieldsText ((entries env).map field) ++ '\x7d' :: ['\n']) := by
    simp [Json.objectText, fields]
  have nothing : findMatch key ['\n'] = none := findMatch_skip (by decide) []
  rw [text, findMatch_skip (by decide),
    findMatch_fields (name_keys key inside) (by simp [entries]) (name_entries env), nothing,
    Option.or_none]

theorem stringMember_entries (entries : List (Text × Text)) (key : Text) :
    stringMember (entries.map fun (key, value) => (key, .string value)) key =
      entries.lookup key := by
  induction entries with
  | nil => rfl
  | cons entry entries ih =>
    obtain ⟨own, value⟩ := entry
    by_cases same : key = own
    · subst same
      rw [stringMember, List.map_cons, List.lookup_cons_self, List.lookup_cons_self]
    · rw [Tables.lookup_cons_ne value entries same, ← ih, stringMember, stringMember,
        List.map_cons, Tables.lookup_cons_ne _ _ same]

theorem parsedFields_written {env : Env} (cooked : ∀ entry ∈ entries env, ∀ c ∈ entry.2, ¬ Raw c) :
    parsedFields (Json.objectText (fields env) ++ ['\n']) =
      some (.ofLookup fun key => (entries env).lookup key) := by
  rw [parsedFields, fields, decode_cooked (spells_key env) cooked (by simp [entries])]
  exact congrArg (some ∘ Fields.ofLookup) (funext (stringMember_entries (entries env)))

/-- The pattern takes the values exactly if it takes each of them. -/
theorem taken_lookup_iff (env : Env) :
    (∀ key ∈ keys, (entries env).lookup key = ((entries env).lookup key).map taken) ↔
      ∀ entry ∈ entries env, taken entry.2 = entry.2 := by
  let table : Tables.Table Text Text := ⟨entries env, by rw [keys_entries]; decide⟩
  constructor
  · intro same entry inside
    have found : (entries env).lookup entry.1 = some entry.2 :=
      (table.lookup_eq_some_iff _ _).mpr inside
    have both := same entry.1 (keys_entries env ▸ List.mem_map_of_mem inside)
    rw [found] at both
    exact (Option.some.inj both).symm
  · intro same key _
    cases found : (entries env).lookup key with
    | none => rfl
    | some value =>
      have inside := (table.lookup_eq_some_iff key value).mp found
      rw [Option.map_some, same (key, value) inside]

/-- The module makes no difference where the file is not JSON, or the pattern takes from it what
the decoder finds. -/
theorem readMetadata_eq_iff (ms : Text) :
    readMetadata true ms = readMetadata false ms ↔
      parsedFields ms = none ∨ parsedFields ms = some (matchedFields ms) := by
  cases parsed : parsedFields ms <;> simp [readMetadata, parsed]

/-- The file is JSON, and the pattern takes from it what the decoder finds. -/
def Agree (files : Files) (env : Env) : Prop :=
  ∃ text, written files env = some text ∧ parsedFields text = some (matchedFields text)

/-- The readers agree exactly if no value has a quote, a backslash or a control character. -/
theorem agree_iff (files : Files) (env : Env) :
    Agree files env ↔ ∀ entry ∈ entries env, Plain entry.2 := by
  rw [Agree, written_eq]
  by_cases raw : ∃ entry ∈ entries env, ∃ c ∈ entry.2, Raw c
  · refine iff_of_false ?_ fun plain => ?_
    · rintro ⟨text, same, parsed⟩
      rw [← Option.some.inj same, parsedFields, fields, decode_raw (spells_key env) raw] at parsed
      cases parsed
    · obtain ⟨entry, inside, c, member, control⟩ := raw
      exact ((plain_iff entry.2).mp (plain entry inside)).1 c member control
  · push Not at raw
    have same := matchedFields_written env
    have parsed := parsedFields_written raw
    constructor
    · rintro ⟨text, written, agree⟩ entry inside
      rw [← Option.some.inj written, parsed, same, Option.some.injEq, ofLookup_eq_iff,
        taken_lookup_iff] at agree
      exact (plain_iff entry.2).mpr ⟨raw entry inside, agree entry inside⟩
    · intro plain
      refine ⟨_, rfl, ?_⟩
      rw [parsed, same, Option.some.injEq, ofLookup_eq_iff, taken_lookup_iff]
      exact fun entry inside => ((plain_iff entry.2).mp (plain entry inside)).2

def quoted : Env := { event := .trackChanged, name := "a\"b".toList }

theorem quoted_notAgree :
    ¬ Agree noFiles quoted ∧
      (matchedFields (Json.objectText (fields quoted) ++ ['\n'])).title = some "a\\".toList := by
  have title : (matchedFields (Json.objectText (fields quoted) ++ ['\n'])).title =
      some "a\\".toList := by
    rw [matchedFields_written]
    decide
  refine ⟨?_, title⟩
  rintro ⟨text, same, parsed⟩
  rw [written_eq, Option.some.injEq] at same
  have cooked : ∀ entry ∈ entries quoted, ∀ c ∈ entry.2, ¬ Raw c := by
    have values := @Json.forall_of_all ((entries quoted).map Prod.snd) (¬ Raw ·) _ (by decide)
    exact fun entry inside => values _ (List.mem_map_of_mem inside)
  rw [← same, parsedFields_written cooked, Option.some.injEq] at parsed
  rw [← parsed] at title
  exact absurd title (by decide)

end StatusData
