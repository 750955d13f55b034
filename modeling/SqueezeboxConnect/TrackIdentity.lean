import SqueezeboxConnect.ContextRuns
import SqueezeboxConnect.Outcomes
import SqueezeboxConnect.SpotifyIds
import SqueezeboxConnect.TextReplacement

/-!
# Which items keep their identity in a context

The uri of a context track is read and written again, and then every `unknown` in
it is replaced, so that items of an unknown type are played as tracks. The type of
a track, an episode or a local file does not contain that word, but its id or its
description may.
-/

namespace TrackIdentity

open Connect SpotifyUri TextReplacement Outcomes ContextRuns Words

/-- The items that a context can have as its tracks. -/
def SingleItem : SpotifyUri → Prop
  | .track _ | .episode _ | .local _ _ _ _ => True
  | _ => False

/-- The parts of a uri between its colons. -/
def fields : SpotifyUri → List (List Char)
  | .local performer albumTitle trackTitle durationSecs =>
    ["spotify".toList, "local".toList, performer, albumTitle, trackTitle,
      Nat.toDigits 10 durationSecs]
  | uri => ["spotify".toList, uri.itemType, uri.toId]

/-- The word is replaced in one part. -/
def renamed (field : List Char) : List Char :=
  replaceFrom "unknown".toList "track".toList 0 field

variable {u : SpotifyUri}

theorem toUri_single (item : SingleItem u) :
    u.toUri = "spotify".toList ++ ':' :: u.itemType ++ ':' :: u.toId := by
  cases u with
  | track id | episode id | «local» => rfl
  | _ => exact item.elim

theorem local_eq_intercalate (scheme kind performer albumTitle trackTitle digits : List Char) :
    scheme ++ ':' :: kind ++ ':' ::
        (performer ++ ':' :: albumTitle ++ ':' :: trackTitle ++ ':' :: digits) =
      [':'].intercalate [scheme, kind, performer, albumTitle, trackTitle, digits] := by
  simp

theorem toUri_eq_intercalate (item : SingleItem u) : u.toUri = [':'].intercalate (fields u) := by
  rw [toUri_single item]
  cases u with
  | track id | episode id => simp [fields]
  | «local» performer albumTitle trackTitle durationSecs => exact local_eq_intercalate _ _ _ _ _ _
  | _ => exact item.elim

theorem playedUri_toList (item : SingleItem u) :
    (playedUri u).toList = [':'].intercalate ((fields u).map renamed) := by
  rw [playedUri, String.toList_ofList, toUri_eq_intercalate item]
  exact replaceFrom_intercalate (by decide) (by decide) (fields u)

variable {kind : List Char} {parts : List (List Char)}

section Parsing

theorem not_mem_splitOn (src : List Char) {part : List Char} (member : part ∈ src.splitOn ':') :
    ':' ∉ part := by
  induction src generalizing part with
  | nil =>
    simp at member
    simp [member]
  | cons c rest ih =>
    rw [List.splitOn_cons_eq_if_modifyHead] at member
    split at member
    · rcases List.mem_cons.mp member with rfl | later
      · exact List.not_mem_nil
      · exact ih later
    · next other =>
      obtain ⟨first, others, split⟩ := List.exists_cons_of_ne_nil (List.splitOn_ne_nil ':' rest)
      rw [split, List.modifyHead_cons] at member
      rw [split] at ih
      rcases List.mem_cons.mp member with rfl | later
      · intro inside
        rcases List.mem_cons.mp inside with rfl | inside
        · exact other rfl
        · exact ih List.mem_cons_self inside
      · exact ih (List.mem_cons_of_mem first later)

theorem fromUri_parts {src : List Char} (parsed : fromUri src = .ok u) :
    ∃ username kind name parts, (∀ user, username = some user → ':' ∉ user) ∧
      (∀ part ∈ name :: parts, ':' ∉ part) ∧ fromItem username kind name parts = .ok u := by
  have apart := @not_mem_splitOn src
  unfold fromUri at parsed
  split at parsed
  · cases parsed
  · next scheme parts split =>
    rw [split] at apart
    split_ifs at parsed
    split at parsed
    · cases parsed
    · next next parts =>
      split_ifs at parsed
      · split at parsed
        · next username kind name parts =>
          refine ⟨some username, kind, name, parts, ?_, fun part member => apart ?_, parsed⟩
          · rintro user ⟨⟩
            exact apart (by simp)
          · simp [List.mem_cons.mp member]
        · cases parsed
      · split at parsed
        · next name parts =>
          refine ⟨none, next, name, parts, by simp, fun part member => apart ?_, parsed⟩
          simp [List.mem_cons.mp member]
        · cases parsed

/-- A playlist is named by the user of the uri, and the description of a local file is taken
from its parts. -/
def TakenFrom (username : Option (List Char)) (name : List Char) (parts : List (List Char)) :
    SpotifyUri → Prop
  | .playlist user _ => user = username
  | .local performer albumTitle trackTitle durationSecs =>
    performer = name ∧ albumTitle ∈ parts ∧ trackTitle ∈ parts ∧ durationSecs < 2 ^ 64
  | _ => True

theorem fromItem_takenFrom {username : Option (List Char)} {name : List Char}
    (read : fromItem username kind name parts = .ok u) : TakenFrom username name parts u := by
  unfold fromItem at read
  split_ifs at read
  -- the types with an id
  iterate 6
    obtain ⟨id, -, rfl⟩ := map_eq_ok_iff.mp read
    simp only [TakenFrom]
  · split at read
    · next duration _ =>
      cases parsed : parseU64 duration with
      | none =>
        rw [parsed] at read
        cases read
      | some value =>
        rw [parsed] at read
        cases read
        exact ⟨rfl, by simp, by simp, parseUnsigned_lt parsed⟩
    · cases read
  · cases read
    trivial

end Parsing

/-- An item whose uri can be read again. -/
def Written : SpotifyUri → Prop
  | .track _ | .episode _ => True
  | .local performer albumTitle trackTitle durationSecs =>
    ':' ∉ performer ∧ ':' ∉ albumTitle ∧ ':' ∉ trackTitle ∧ durationSecs < 2 ^ 64
  | _ => False

theorem written_of_fromUri {src : List Char} (parsed : fromUri src = .ok u) (item : SingleItem u) :
    Written u := by
  cases u with
  | track id | episode id => trivial
  | «local» performer albumTitle trackTitle durationSecs =>
    obtain ⟨username, kind, name, parts, -, apart, read⟩ := fromUri_parts parsed
    obtain ⟨rfl, album, title, small⟩ := fromItem_takenFrom read
    exact ⟨apart _ List.mem_cons_self, apart _ (List.mem_cons_of_mem _ album),
      apart _ (List.mem_cons_of_mem _ title), small⟩
  | _ => exact item.elim

theorem fromUri_intercalate {name : List Char} (apart : ∀ part ∈ kind :: name :: parts, ':' ∉ part)
    (item : kind ≠ "user".toList) :
    fromUri ([':'].intercalate ("spotify".toList :: kind :: name :: parts)) =
      fromItem none kind name parts := by
  have split : ([':'].intercalate ("spotify".toList :: kind :: name :: parts)).splitOn ':' =
      "spotify".toList :: kind :: name :: parts := by
    apply List.splitOn_intercalate
    · intro part member
      rcases List.mem_cons.mp member with rfl | later
      · decide
      · exact apart part later
    · exact List.cons_ne_nil _ _
  rw [fromUri, split]
  simp only [ne_eq, not_true_eq_false, if_false, if_neg item]

theorem fromItem_description (performer albumTitle trackTitle duration : List Char) :
    fromItem none "local".toList performer [albumTitle, trackTitle, duration] =
      (parseU64 duration).elim (.error .invalidFormat) fun durationSecs =>
        .ok (.local performer albumTitle trackTitle durationSecs) :=
  rfl

section Renaming

theorem renamed_eq_self_iff (field : List Char) :
    renamed field = field ↔ ¬ "unknown".toList <:+: field :=
  replaceFrom_eq_self_iff (by decide) field

theorem renamed_apart {field : List Char} (apart : ':' ∉ field) : ':' ∉ renamed field := by
  intro inside
  rcases mem_replaceFrom 0 field inside with new | old
  · exact absurd new (by decide)
  · exact apart old

theorem toBase62_apart (id : SpotifyId) : ':' ∉ id.toBase62 :=
  fun inside => SpotifyIds.digitValue_of_mem inside rfl

/-- An id in which the word was replaced has too few digits. -/
theorem fromBase62_renamed_iff (id : SpotifyId) :
    fromBase62 (renamed id.toBase62) = .ok id ↔ renamed id.toBase62 = id.toBase62 := by
  constructor
  · intro read
    rw [renamed_eq_self_iff]
    intro occurs
    have less := replaceFrom_length_lt (by decide : "track".toList.length < _) occurs
    rw [SpotifyIds.length_toBase62] at less
    cases value : SpotifyId.fromBase62 (renamed id.toBase62) with
    | error why =>
      rw [fromBase62, value] at read
      cases read
    | ok i => exact absurd (SpotifyIds.length_of_fromBase62 value) (Nat.ne_of_lt less)
  · intro same
    rw [same, fromBase62, SpotifyIds.fromBase62_toBase62]
    rfl

theorem renamed_toDigits (n : Nat) : renamed (Nat.toDigits 10 n) = Nat.toDigits 10 n := by
  rw [renamed_eq_self_iff]
  intro occurs
  have letter : 'u' ∈ Nat.toDigits 10 n := occurs.subset (by decide)
  exact absurd (Nat.isDigit_of_mem_toDigits (by decide) (by decide) letter) (by decide)

/-- The type is kept, so the item is read from the rest. -/
theorem fromUri_renamed (kept : renamed kind = kind) (apart : ':' ∉ kind)
    (item : kind ≠ "user".toList) {name : List Char} (others : ∀ part ∈ name :: parts, ':' ∉ part) :
    fromUri ([':'].intercalate (("spotify".toList :: kind :: name :: parts).map renamed)) =
      fromItem none kind (renamed name) (parts.map renamed) := by
  have scheme : renamed "spotify".toList = "spotify".toList := by decide
  rw [List.map_cons, List.map_cons, List.map_cons, scheme, kept]
  apply fromUri_intercalate _ item
  intro part member
  rcases List.mem_cons.mp member with rfl | later
  · exact apart
  · rw [← List.map_cons] at later
    obtain ⟨old, place, rfl⟩ := List.mem_map.mp later
    exact renamed_apart (others old place)

theorem map_renamed_id (kept : renamed kind = kind) (id : List Char) :
    ["spotify".toList, kind, id].map renamed = ["spotify".toList, kind, id] ↔ renamed id = id := by
  have scheme : renamed "spotify".toList = "spotify".toList := by decide
  rw [List.map_cons, List.map_cons, List.map_cons, scheme, kept]
  constructor
  · intro same
    exact (List.cons.inj (List.cons.inj (List.cons.inj same).2).2).1
  · intro same
    rw [same]
    rfl

theorem fromUri_renamed_id (kept : renamed kind = kind) (apart : ':' ∉ kind)
    (item : kind ≠ "user".toList) {make : SpotifyId → SpotifyUri}
    (reads : ∀ name, fromItem none kind name [] = (fromBase62 name).map make)
    (injective : ∀ i j, make i = make j → i = j) (id : SpotifyId) :
    fromUri ([':'].intercalate (["spotify".toList, kind, id.toBase62].map renamed)) =
        .ok (make id) ↔
      ["spotify".toList, kind, id.toBase62].map renamed =
        ["spotify".toList, kind, id.toBase62] := by
  rw [map_renamed_id kept, ← fromBase62_renamed_iff, fromUri_renamed kept apart item
    (fun part member => List.mem_singleton.mp member ▸ toBase62_apart id), List.map_nil, reads,
    map_eq_ok_iff]
  constructor
  · rintro ⟨i, read, same⟩
    rw [read, injective i id same]
  · exact fun read => ⟨id, read, rfl⟩

theorem fromUri_renamed_local {performer albumTitle trackTitle : List Char} {durationSecs : Nat}
    (written : Written (.local performer albumTitle trackTitle durationSecs)) :
    fromUri ([':'].intercalate
        ((fields (.local performer albumTitle trackTitle durationSecs)).map renamed)) =
        .ok (.local performer albumTitle trackTitle durationSecs) ↔
      (fields (.local performer albumTitle trackTitle durationSecs)).map renamed =
        fields (.local performer albumTitle trackTitle durationSecs) := by
  obtain ⟨first, second, third, small⟩ := written
  have kind : renamed "local".toList = "local".toList := by decide
  have scheme : renamed "spotify".toList = "spotify".toList := by decide
  have duration := renamed_toDigits durationSecs
  have parsed : parseU64 _ = _ := parseUnsigned_toDigits small
  have plain : ':' ∉ Nat.toDigits 10 durationSecs := fun inside =>
    absurd (Nat.isDigit_of_mem_toDigits (by decide) (by decide) inside) (by decide)
  rw [fields]
  generalize Nat.toDigits 10 durationSecs = digits at duration parsed plain ⊢
  rw [fromUri_renamed kind (by decide) (by decide) (by simp [first, second, third, plain])]
  simp only [List.map_cons, List.map_nil, duration, scheme, kind]
  rw [fromItem_description, parsed]
  simp

theorem fromUri_renamed_iff (written : Written u) :
    fromUri ([':'].intercalate ((fields u).map renamed)) = .ok u ↔
      (fields u).map renamed = fields u := by
  cases u with
  | track id =>
    exact @fromUri_renamed_id "track".toList (by decide) (by decide) (by decide) .track
      (fun _ => rfl) (fun _ _ => SpotifyUri.track.inj) id
  | episode id =>
    exact @fromUri_renamed_id "episode".toList (by decide) (by decide) (by decide) .episode
      (fun _ => rfl) (fun _ _ => SpotifyUri.episode.inj) id
  | «local» => exact fromUri_renamed_local written
  | _ => exact written.elim

theorem infix_intercalate {field : List Char} {fields : List (List Char)}
    (member : field ∈ fields) : field <:+: [':'].intercalate fields := by
  induction fields with
  | nil => cases member
  | cons first others ih =>
    cases others with
    | nil =>
      rw [List.mem_singleton.mp member, List.intercalate_singleton]
    | cons next others =>
      rw [List.intercalate_cons_cons]
      rcases List.mem_cons.mp member with rfl | later
      · rw [List.append_assoc]
        exact (List.prefix_append field _).isInfix
      · exact (ih later).trans (List.suffix_append _ _).isInfix

theorem map_renamed_iff (item : SingleItem u) :
    (fields u).map renamed = fields u ↔ ¬ "unknown".toList <:+: u.toUri := by
  constructor
  · intro same
    have whole := playedUri_toList item
    rw [same, ← toUri_eq_intercalate item, playedUri, String.toList_ofList] at whole
    exact (renamed_eq_self_iff u.toUri).mp whole
  · intro nothing
    have kept : ∀ field ∈ fields u, renamed field = id field := by
      intro field member
      apply (renamed_eq_self_iff field).mpr
      intro occurs
      rw [toUri_eq_intercalate item] at nothing
      exact nothing (occurs.trans (infix_intercalate member))
    rw [List.map_congr_left kept, List.map_id]

end Renaming

/-- The track that is made from a uri has the same identity exactly if the word
that stands for other types is nowhere in the uri of the item. -/
theorem identityKept_iff (s : ConnectState) {ctxTrack : ContextTrack} {uri : String}
    {u : SpotifyUri} (given : ctxTrack.uri = some uri) (plain : '?' ∉ uri.toList)
    (parsed : fromUri uri.toList = .ok u) (item : SingleItem u) (contextUri : Option String)
    (contextIndex : Option Nat) (pageMetadata : Option Metadata) (provider : Option Provider)
    (uuid : String) :
    (∃ track, s.contextToProvidedTrack ctxTrack contextUri contextIndex pageMetadata provider
        uuid = .ok track ∧ fromUri track.uri.toList = .ok u) ↔
      ¬ "unknown".toList <:+: u.toUri := by
  have nonempty : uri ≠ "" := by
    rintro rfl
    cases parsed
  have read : ctxTrack.item = .ok u := by
    have kept : (some uri).filter (fun uri => uri ≠ "") = some uri := by simp [nonempty]
    rw [ContextTrack.item, given, kept]
    simp only [List.contains_iff_mem, if_neg plain, parsed]
    rfl
  rw [← map_renamed_iff item, ← fromUri_renamed_iff (written_of_fromUri parsed item),
    ← playedUri_toList item, ConnectState.contextToProvidedTrack, read]
  constructor
  · rintro ⟨track, made, same⟩
    cases made
    exact same
  · exact fun same => ⟨_, rfl, same⟩

/-- A context track that has only a uri. -/
def trackOf (uri : String) : ContextTrack := ⟨some uri, none, none, []⟩

theorem ordinaryTrack_kept :
    ∃ track, (loaded [] none).contextToProvidedTrack
        (trackOf "spotify:track:5sWHDYs0csV6RS48xBl0tH") none none none none "" = .ok track ∧
      fromUri track.uri.toList = .ok (.track ⟨238762092608182713602505436543891614649⟩) :=
  (@identityKept_iff (loaded [] none) (trackOf "spotify:track:5sWHDYs0csV6RS48xBl0tH") _
    (.track ⟨238762092608182713602505436543891614649⟩) rfl (by decide) (by decide +kernel) trivial
    none none none none "").mpr (by decide +kernel)

/-- A local file of an artist called unknown becomes another one, and a track whose id
has the word among its digits gets a uri that cannot be read. -/
theorem unknownWord_changed :
    let uriOf := fun uri => ((loaded [] none).contextToProvidedTrack (trackOf uri) none none none
      none "").map fun track => fromUri track.uri.toList
    fromUri "spotify:local:unknown:b:c:1".toList =
        .ok (.local "unknown".toList ['b'] ['c'] 1) ∧
      uriOf "spotify:local:unknown:b:c:1" = .ok (.ok (.local "track".toList ['b'] ['c'] 1)) ∧
      (∃ id, fromUri "spotify:track:0unknown00000000000000".toList = .ok (.track id)) ∧
      uriOf "spotify:track:0unknown00000000000000" = .ok (.error (.id .invalidId)) := by
  refine ⟨?_, ?_, ⟨_, rfl⟩, ?_⟩ <;> decide +kernel

end TrackIdentity
