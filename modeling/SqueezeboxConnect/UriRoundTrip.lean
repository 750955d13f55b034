import SqueezeboxConnect.TrackIdentity

/-!
# Uris keep their item

A uri that was read is written in the form that fits its item: with the user only
for a named playlist, with the description for a local file. Its parts come from a
text that was split at the colons, so none of them has one, and the text that is
written splits into the same parts again.
-/

namespace UriRoundTrip

open Connect SpotifyUri TrackIdentity Outcomes Words

/-- What a known item needs so that its uri splits into its parts. -/
def Readable : SpotifyUri → Prop
  | .unknown _ _ => False
  | .playlist (some user) _ => ':' ∉ user
  | .local performer albumTitle trackTitle durationSecs =>
    ':' ∉ performer ∧ ':' ∉ albumTitle ∧ ':' ∉ trackTitle ∧ durationSecs < 2 ^ 64
  | _ => True

theorem readable_of_fromUri {src : List Char} {u : SpotifyUri} (parsed : fromUri src = .ok u)
    (known : ∀ kind id, u ≠ .unknown kind id) : Readable u := by
  obtain ⟨username, kind, name, parts, named, apart, read⟩ := fromUri_parts parsed
  have taken := fromItem_takenFrom read
  cases u with
  | album | artist | episode | «show» | track => trivial
  | playlist user id =>
    cases user with
    | none => trivial
    | some user => exact named user taken.symm
  | «local» performer albumTitle trackTitle durationSecs =>
    obtain ⟨rfl, album, title, small⟩ := taken
    exact ⟨apart _ List.mem_cons_self, apart _ (List.mem_cons_of_mem _ album),
      apart _ (List.mem_cons_of_mem _ title), small⟩
  | unknown kind id => exact absurd rfl (known kind id)

variable {name : List Char}

theorem fromUri_named {user kind : List Char} (apart : ∀ part ∈ [user, kind, name], ':' ∉ part) :
    fromUri ([':'].intercalate ["spotify".toList, "user".toList, user, kind, name]) =
      fromItem (some user) kind name [] := by
  have split : ([':'].intercalate ["spotify".toList, "user".toList, user, kind, name]).splitOn ':' =
      ["spotify".toList, "user".toList, user, kind, name] := by
    apply List.splitOn_intercalate
    · intro part member
      simp only [List.mem_cons, List.not_mem_nil, or_false] at member apart
      rcases member with rfl | rfl | later
      · decide
      · decide
      · exact apart part later
    · exact List.cons_ne_nil _ _
  rw [fromUri, split]
  simp only [ne_eq, not_true_eq_false, if_false, if_true]

theorem fromItem_id (username : Option (List Char)) {id : SpotifyId}
    (read : SpotifyId.fromBase62 name = .ok id) :
    fromItem username "album".toList name [] = .ok (.album id) ∧
      fromItem username "artist".toList name [] = .ok (.artist id) ∧
      fromItem username "episode".toList name [] = .ok (.episode id) ∧
      fromItem username "playlist".toList name [] = .ok (.playlist username id) ∧
      fromItem username "show".toList name [] = .ok (.show id) ∧
      fromItem username "track".toList name [] = .ok (.track id) := by
  have value : fromBase62 name = .ok id := by
    rw [fromBase62, read]
    rfl
  have mapped (make : SpotifyId → SpotifyUri) : (fromBase62 name).map make = .ok (make id) := by
    rw [value]
    rfl
  exact ⟨mapped _, mapped _, mapped _, mapped _, mapped _, mapped _⟩

theorem itemType_plain (u : SpotifyUri) : ':' ∉ u.itemType ∧ u.itemType ≠ "user".toList := by
  have types : ∀ kind ∈ ["album", "artist", "episode", "playlist", "show", "track", "local",
      "unknown"].map String.toList, ':' ∉ kind ∧ kind ≠ "user".toList := by decide
  cases u with
  | album id => exact types "album".toList (by decide)
  | artist id => exact types "artist".toList (by decide)
  | episode id => exact types "episode".toList (by decide)
  | playlist user id => exact types "playlist".toList (by decide)
  | «show» id => exact types "show".toList (by decide)
  | track id => exact types "track".toList (by decide)
  | «local» performer albumTitle trackTitle durationSecs => exact types "local".toList (by decide)
  | unknown kind id => exact types "unknown".toList (by decide)

theorem fromUri_typed (u : SpotifyUri) (apart : ':' ∉ name)
    (read : fromItem none u.itemType name [] = .ok u) :
    fromUri ("spotify:".toList ++ u.itemType ++ ':' :: name) = .ok u := by
  obtain ⟨type, item⟩ := itemType_plain u
  have joined : "spotify:".toList ++ u.itemType ++ ':' :: name =
      [':'].intercalate ["spotify".toList, u.itemType, name] := by simp
  rw [joined, fromUri_intercalate ?_ item, read]
  intro part member
  simp only [List.mem_cons, List.not_mem_nil, or_false] at member
  rcases member with rfl | rfl
  · exact type
  · exact apart

theorem fromUri_namedPlaylist {user : List Char} {id : SpotifyId} (named : ':' ∉ user)
    (apart : ':' ∉ name) (read : SpotifyId.fromBase62 name = .ok id) :
    fromUri ("spotify:user:".toList ++ user ++ ':' :: "playlist".toList ++ ':' :: name) =
      .ok (.playlist (some user) id) := by
  have joined : "spotify:user:".toList ++ user ++ ':' :: "playlist".toList ++ ':' :: name =
      [':'].intercalate ["spotify".toList, "user".toList, user, "playlist".toList, name] := by simp
  rw [joined, fromUri_named, (fromItem_id (some user) read).2.2.2.1]
  intro part member
  simp only [List.mem_cons, List.not_mem_nil, or_false] at member
  rcases member with rfl | rfl | rfl
  · exact named
  · decide
  · exact apart

theorem fromUri_local {performer albumTitle trackTitle : List Char} {durationSecs : Nat}
    (first : ':' ∉ performer) (second : ':' ∉ albumTitle) (third : ':' ∉ trackTitle)
    (small : durationSecs < 2 ^ 64) :
    fromUri (SpotifyUri.local performer albumTitle trackTitle durationSecs).toUri =
      .ok (.local performer albumTitle trackTitle durationSecs) := by
  have joined := toUri_eq_intercalate (u := .local performer albumTitle trackTitle durationSecs)
    trivial
  rw [joined, fields, fromUri_intercalate ?_ (by decide),
    fromItem_description, parseU64, parseUnsigned_toDigits small]
  · rfl
  · intro part member
    simp only [List.mem_cons, List.not_mem_nil, or_false] at member
    rcases member with rfl | rfl | rfl | rfl | rfl
    · decide
    · exact first
    · exact second
    · exact third
    · intro inside
      exact absurd (Nat.isDigit_of_mem_toDigits (by decide) (by decide) inside) (by decide)

theorem fromUri_toUri {u : SpotifyUri} (readable : Readable u) : fromUri u.toUri = .ok u := by
  have apart (id : SpotifyId) := toBase62_apart id
  have read (id : SpotifyId) := SpotifyIds.fromBase62_toBase62 id
  cases u with
  | album id => exact fromUri_typed (.album id) (apart id) (fromItem_id none (read id)).1
  | artist id => exact fromUri_typed (.artist id) (apart id) (fromItem_id none (read id)).2.1
  | episode id => exact fromUri_typed (.episode id) (apart id) (fromItem_id none (read id)).2.2.1
  | playlist user id =>
    cases user with
    | none =>
      exact fromUri_typed (.playlist none id) (apart id) (fromItem_id none (read id)).2.2.2.1
    | some user => exact fromUri_namedPlaylist readable (apart id) (read id)
  | «show» id =>
    exact fromUri_typed (.show id) (apart id) (fromItem_id none (read id)).2.2.2.2.1
  | track id =>
    exact fromUri_typed (.track id) (apart id) (fromItem_id none (read id)).2.2.2.2.2
  | «local» performer albumTitle trackTitle durationSecs =>
    obtain ⟨first, second, third, small⟩ := readable
    exact fromUri_local first second third small
  | unknown kind id => exact readable.elim

/-- The uri of an item that was read is read as the same item. -/
theorem uri_roundTrip {s : List Char} {u : SpotifyUri} (parsed : fromUri s = .ok u)
    (known : ∀ kind id, u ≠ .unknown kind id) : fromUri u.toUri = .ok u :=
  fromUri_toUri (readable_of_fromUri parsed known)

/-- A named playlist of a user without a name, and a local file without a description. -/
theorem emptyFields_roundTrip :
    fromUri (SpotifyUri.playlist (some []) ⟨0⟩).toUri = .ok (.playlist (some []) ⟨0⟩) ∧
      fromUri (SpotifyUri.local [] [] [] 5).toUri = .ok (.local [] [] [] 5) :=
  ⟨uri_roundTrip (s := "spotify:user::playlist:0000000000000000000000".toList) (by decide +kernel)
      (by simp),
    uri_roundTrip (s := "spotify:user:a:local::::+5:more".toList) (by decide +kernel) (by simp)⟩

end UriRoundTrip
