import Mathlib.Data.List.Forall2
import SqueezeboxConnect.Json
import SqueezeboxConnect.Metadata

/-!
# The metadata file as JSON

On a track change the helper writes one object with seven strings, escaped by
four replacements one after the other. The replacements act on each character
alone: backslashes, quotes, line feeds and carriage returns become an escape,
everything else stays as it is. So a text is spelled by its escape unless there
is another control character in it.
-/

namespace MetadataJson

open Metadata BridgeLoop Words

/-- What the four replacements make of one character. -/
def escChar (c : Char) : Text :=
  if c = '\\' then ['\\', '\\']
  else if c = '"' then ['\\', '"']
  else if c = '\n' then ['\\', 'n']
  else if c = '\r' then ['\\', 'r']
  else [c]

theorem esc_eq_flatMap (value : Text) : esc value = value.flatMap escChar := by
  simp only [esc, replaceChar, List.flatMap_assoc]
  congr 1
  funext c
  rw [escChar]
  split
  · next backslash =>
    subst backslash
    decide
  · split
    · next quote =>
      subst quote
      decide
    · split
      · next newline =>
        subst newline
        decide
      · split
        · next return_ =>
          subst return_
          decide
        · simp [*]

@[simp] theorem esc_nil : esc [] = [] := rfl

theorem esc_cons (c : Char) (value : Text) : esc (c :: value) = escChar c ++ esc value := by
  rw [esc_eq_flatMap, esc_eq_flatMap, List.flatMap_cons]

/-- A control character that is not escaped. -/
def Raw (c : Char) : Prop := c.toNat < 0x20 ∧ c ≠ '\n' ∧ c ≠ '\r'

instance (c : Char) : Decidable (Raw c) := inferInstanceAs (Decidable (_ ∧ _))

theorem readString_escChar {c : Char} (cooked : ¬ Raw c) (rest : Text) :
    Json.readString (escChar c ++ rest) =
      (Json.readString rest).map fun (text, left) => (c :: text, left) := by
  rw [escChar]
  split
  · next backslash =>
    subst backslash
    exact Json.readString_escape rfl
  · next notBackslash =>
    split
    · next quote =>
      subst quote
      exact Json.readString_escape rfl
    · next notQuote =>
      split
      · next newline =>
        subst newline
        exact Json.readString_escape rfl
      · next notNewline =>
        split
        · next return_ =>
          subst return_
          exact Json.readString_escape rfl
        · next notReturn =>
          have printable : 0x20 ≤ c.toNat := by
            by_contra control
            exact cooked ⟨Nat.lt_of_not_le control, notNewline, notReturn⟩
          exact Json.readString_plain notQuote notBackslash printable rest

theorem spells_esc {value : Text} (cooked : ∀ c ∈ value, ¬ Raw c) :
    Json.Spells (esc value) value := by
  intro rest
  induction value with
  | nil => exact Json.readString_quote rest
  | cons c value ih =>
    rw [esc_cons, List.append_assoc, readString_escChar (cooked c List.mem_cons_self),
      ih fun d inside => cooked d (List.mem_cons_of_mem _ inside)]
    rfl

theorem escChar_raw {c : Char} (raw : Raw c) : escChar c = [c] := by
  have notBackslash : c ≠ '\\' := by
    rintro rfl
    exact absurd raw.1 (by decide)
  have notQuote : c ≠ '"' := by
    rintro rfl
    exact absurd raw.1 (by decide)
  rw [escChar, if_neg notBackslash, if_neg notQuote, if_neg raw.2.1, if_neg raw.2.2]

theorem breaks_esc {value : Text} (raw : ∃ c ∈ value, Raw c) : Json.Breaks (esc value) := by
  intro rest
  induction value with
  | nil => simp at raw
  | cons c value ih =>
    rw [esc_cons, List.append_assoc]
    by_cases here : Raw c
    · rw [escChar_raw here]
      exact Json.readString_control here.1 _
    · obtain ⟨d, inside, control⟩ := raw
      have later : d ∈ value := by
        rcases List.mem_cons.mp inside with rfl | later
        · exact absurd control here
        · exact later
      rw [readString_escChar here, ih ⟨d, later, control⟩]
      rfl

/-- The names of the fields with what they should say. -/
def entries (env : Env) : List (Text × Text) :=
  [("playback_state".toList, "playing".toList), ("track_id".toList, env.trackId),
    ("title".toList, env.name), ("artist".toList, replaceChar '\n' ", ".toList env.artists),
    ("album".toList, env.album), ("duration_ms".toList, env.durationMs),
    ("artwork_url".toList, firstLine env.covers)]

def object (env : Env) : Json.Value :=
  .object ((entries env).map fun (key, value) => (key, .string value))

/-- The content of the file after the helper has handled a track change. -/
def written (files : Files) (env : Env) : Option Text :=
  (main { env with event := .trackChanged }).foldl FileOp.apply files .metadata

def field (entry : Text × Text) : Json.Field := ⟨entry.1, esc entry.2⟩

def fields (env : Env) : List Json.Field := (entries env).map field

def separator (key : Text) : Text := '"' :: ',' :: '"' :: key ++ ['"', ':', '"']

theorem json_eq (env : Env) :
    json "playing".toList env = Json.objectText (fields env) ++ ['\n'] := by
  have start : "\x7b\"playback_state\":\"".toList =
      '\x7b' :: '"' :: "playback_state".toList ++ ['"', ':', '"'] := by decide
  have separators : "\",\"track_id\":\"".toList = separator "track_id".toList ∧
      "\",\"title\":\"".toList = separator "title".toList ∧
      "\",\"artist\":\"".toList = separator "artist".toList ∧
      "\",\"album\":\"".toList = separator "album".toList ∧
      "\",\"duration_ms\":\"".toList = separator "duration_ms".toList ∧
      "\",\"artwork_url\":\"".toList = separator "artwork_url".toList := by decide
  have ending : "\"\x7d\n".toList = ['"', '\x7d', '\n'] := by decide
  have state : esc "playing".toList = "playing".toList := by decide
  obtain ⟨trackId, title, artist, album, duration, artwork⟩ := separators
  unfold json
  rw [start, trackId, title, artist, album, duration, artwork, ending]
  simp only [separator, Json.objectText, fields, entries, field, state, List.map_cons,
    List.map_nil, Json.fieldsText, Json.Field.text, List.append_assoc, List.cons_append,
    List.nil_append]

theorem written_eq (files : Files) (env : Env) :
    written files env = some (Json.objectText (fields env) ++ ['\n']) := by
  have content : written files env = some (json "playing".toList env) := rfl
  rw [content, json_eq]

/-- The names of the fields need no escape. -/
theorem spells_key (env : Env) : ∀ entry ∈ entries env, Json.Spells entry.1 entry.1 := by
  have names : ∀ key ∈ (entries env).map Prod.fst, ∀ c ∈ key,
      c ≠ '"' ∧ c ≠ '\\' ∧ 0x20 ≤ c.toNat := by
    have keys : (entries env).map Prod.fst =
        ["playback_state".toList, "track_id".toList, "title".toList, "artist".toList,
          "album".toList, "duration_ms".toList, "artwork_url".toList] := rfl
    rw [keys]
    exact Json.forall_of_all (by decide)
  intro entry inside
  exact Json.spells_plain (names entry.1 (List.mem_map_of_mem inside))

section Entries

variable {entries : List (Text × Text)}

theorem spells_fields (keys : ∀ entry ∈ entries, Json.Spells entry.1 entry.1)
    (cooked : ∀ entry ∈ entries, ∀ c ∈ entry.2, ¬ Raw c) :
    List.Forall₂ Json.Field.Spells (entries.map field) (entries.map Prod.snd) := by
  rw [List.forall₂_map_left_iff, List.forall₂_map_right_iff, List.forall₂_same]
  exact fun entry inside => ⟨keys entry inside, spells_esc (cooked entry inside)⟩

theorem decode_cooked (keys : ∀ entry ∈ entries, Json.Spells entry.1 entry.1)
    (cooked : ∀ entry ∈ entries, ∀ c ∈ entry.2, ¬ Raw c) (nonempty : entries ≠ []) :
    Json.decode (Json.objectText (entries.map field) ++ ['\n']) =
      some (.object (entries.map fun (key, value) => (key, .string value))) := by
  have blank : ∀ c ∈ ['\n'], Json.isSpace c = true :=
    List.all_eq_true.mp (by decide)
  rw [Json.decode_spelled (spells_fields keys cooked) (by simpa using nonempty) blank,
    List.zip_map', List.map_map]
  rfl

/-- The first value with a raw control character ends the string. -/
theorem decode_raw (keys : ∀ entry ∈ entries, Json.Spells entry.1 entry.1)
    (raw : ∃ entry ∈ entries, ∃ c ∈ entry.2, Raw c) :
    Json.decode (Json.objectText (entries.map field) ++ ['\n']) = none := by
  obtain ⟨entry, inside, control⟩ := raw
  cases first : entries.find? fun entry => entry.2.any fun c => Raw c with
  | none =>
    have cooked := List.find?_eq_none.mp first entry inside
    obtain ⟨c, member, raw⟩ := control
    exact absurd (List.any_eq_true.mpr ⟨c, member, decide_eq_true raw⟩) cooked
  | some entry =>
    obtain ⟨found, front, back, rfl, cooked⟩ := List.find?_eq_some_iff_append.mp first
    have control : ∃ c ∈ entry.2, Raw c := by simpa using found
    have breaks : Json.Breaks (field entry).piece := breaks_esc control
    have spelled := @spells_fields front (fun e inside => keys e (by simp [inside]))
      (fun e member => by simpa using cooked e member)
    rw [List.map_append, List.map_cons]
    exact Json.decode_breaks spelled (keys entry (by simp)) breaks _ _

end Entries

/-- The file is the object with the values. -/
def Decodes (files : Files) (env : Env) : Prop :=
  ∃ text, written files env = some text ∧ Json.decode text = some (object env)

/-- The file says what it should exactly if no value has a control character other than line feeds
and carriage returns. -/
theorem decodes_iff (files : Files) (env : Env) :
    Decodes files env ↔ ∀ entry ∈ entries env, ∀ c ∈ entry.2, ¬ Raw c := by
  rw [Decodes, written_eq]
  constructor
  · rintro ⟨text, same, decoded⟩ entry inside c member raw
    rw [← Option.some.inj same, fields,
      decode_raw (spells_key env) ⟨entry, inside, c, member, raw⟩] at decoded
    cases decoded
  · intro cooked
    exact ⟨_, rfl, decode_cooked (spells_key env) cooked (by simp [entries])⟩

def tabbed : Env := { event := .trackChanged, name := "a\tb".toList }

theorem tabbed_notDecodes : ¬ Decodes noFiles tabbed := by
  rintro ⟨text, same, decoded⟩
  rw [written_eq, Option.some.injEq] at same
  have raw : ∃ entry ∈ entries tabbed, ∃ c ∈ entry.2, Raw c :=
    ⟨("title".toList, "a\tb".toList), by decide, '\t', by decide, by decide⟩
  rw [← same, fields, decode_raw (spells_key tabbed) raw] at decoded
  cases decoded

end MetadataJson
