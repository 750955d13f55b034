import Mathlib.Algebra.Ring.Nat
import Mathlib.Data.List.Basic
import SqueezeboxConnect.Words

/-!
# Ids and uris of items

An id is a 128-bit number, written with 22 digits to the base 62. A uri names
the type of an item in front of its id; local files carry their description
instead, and types the library does not know keep their text.
-/

namespace Connect

open Words

inductive SpotifyIdError where
  | invalidId
  | invalidFormat
  deriving DecidableEq, Repr

structure SpotifyId where
  id : BitVec 128
  deriving DecidableEq, Repr

namespace SpotifyId

def BASE62_DIGITS : List Char :=
  "0123456789abcdefghijklmnopqrstuvwxyzABCDEFGHIJKLMNOPQRSTUVWXYZ".toList

def SIZE : Nat := 16

def SIZE_BASE62 : Nat := 22

def digitValue (c : Char) : Option Nat :=
  if '0' ≤ c ∧ c ≤ '9' then some (c.toNat - '0'.toNat)
  else if 'a' ≤ c ∧ c ≤ 'z' then some (c.toNat - 'a'.toNat + 10)
  else if 'A' ≤ c ∧ c ≤ 'Z' then some (c.toNat - 'A'.toNat + 36)
  else none

/-- The digits behind the value so far, which must stay below `2 ^ 128`. -/
def readBase62 : Nat → List Char → Except SpotifyIdError Nat
  | dst, [] => .ok dst
  | dst, c :: rest =>
    match digitValue c with
    | none => .error .invalidId
    | some p => if 62 * dst + p < 2 ^ 128 then readBase62 (62 * dst + p) rest else .error .invalidId

/-- The length is one in bytes, but a text with longer characters is refused anyway. -/
def fromBase62 (src : List Char) : Except SpotifyIdError SpotifyId :=
  if src.length ≠ SIZE_BASE62 then .error .invalidId
  else (readBase62 0 src).map fun dst => ⟨BitVec.ofNat 128 dst⟩

/-- Big-endian bytes. -/
def fromRaw (src : List UInt8) : Except SpotifyIdError SpotifyId :=
  if src.length ≠ SIZE then .error .invalidId
  else .ok ⟨BitVec.ofNat 128 (src.foldl (fun n byte => 256 * n + byte.toNat) 0)⟩

/-- One more limb moves the digits up by `2 ^ 32`; the carry is a `u64`. -/
def addLimb : List Nat → Nat → List Nat × Nat
  | [], carry => ([], carry)
  | b :: dst, carry =>
    let carry := (carry + b * 2 ^ 32) % 2 ^ 64
    let (dst, rest) := addLimb dst (carry / 62)
    (carry % 62 :: dst, rest)

/-- The digits of the carry, least significant first. A `u64` has at most eleven. -/
def carryDigits : Nat → Nat → List Nat
  | 0, _ => []
  | fuel + 1, carry => if 0 < carry then carry % 62 :: carryDigits fuel (carry / 62) else []

def addCarry (dst : List Nat) (limb : Nat) : List Nat :=
  let (dst, carry) := addLimb dst limb
  dst ++ carryDigits 11 carry

/-- The four 32-bit limbs, most significant first. -/
def limbs (n : Nat) : List Nat := [96, 64, 32, 0].map fun shift => n / 2 ^ shift % 2 ^ 32

def toBase62 (i : SpotifyId) : List Char :=
  let dst := (limbs i.id.toNat).foldl addCarry []
  (dst ++ List.replicate (SIZE_BASE62 - dst.length) 0).reverse.map fun b =>
    BASE62_DIGITS.getD b '0'

end SpotifyId

inductive SpotifyUriError where
  | invalidFormat
  | invalidRoot
  | id (why : SpotifyIdError)
  deriving DecidableEq, Repr

inductive SpotifyUri where
  | album (id : SpotifyId)
  | artist (id : SpotifyId)
  | episode (id : SpotifyId)
  | playlist (user : Option (List Char)) (id : SpotifyId)
  | show (id : SpotifyId)
  | track (id : SpotifyId)
  | local (artist albumTitle trackTitle : List Char) (durationSecs : Nat)
  | unknown (kind id : List Char)
  deriving DecidableEq, Repr

namespace SpotifyUri

def itemType : SpotifyUri → List Char
  | .album _ => "album".toList
  | .artist _ => "artist".toList
  | .episode _ => "episode".toList
  | .playlist _ _ => "playlist".toList
  | .show _ => "show".toList
  | .track _ => "track".toList
  | .local _ _ _ _ => "local".toList
  | .unknown _ _ => "unknown".toList

def toId : SpotifyUri → List Char
  | .album id | .artist id | .episode id | .playlist _ id | .show id | .track id => id.toBase62
  | .local performer albumTitle trackTitle durationSecs =>
    performer ++ ':' :: albumTitle ++ ':' :: trackTitle ++ ':' :: Nat.toDigits 10 durationSecs
  | .unknown _ id => id

def parseU64 (text : List Char) : Option Nat := parseUnsigned (2 ^ 64) text

def fromBase62 (name : List Char) : Except SpotifyUriError SpotifyId :=
  (SpotifyId.fromBase62 name).mapError .id

/-- The item behind the type, with the parts of the uri that follow. -/
def fromItem (username : Option (List Char)) (itemType name : List Char)
    (parts : List (List Char)) : Except SpotifyUriError SpotifyUri :=
  if itemType = "album".toList then (fromBase62 name).map .album
  else if itemType = "artist".toList then (fromBase62 name).map .artist
  else if itemType = "episode".toList then (fromBase62 name).map .episode
  else if itemType = "playlist".toList then (fromBase62 name).map (.playlist username)
  else if itemType = "show".toList then (fromBase62 name).map .show
  else if itemType = "track".toList then (fromBase62 name).map .track
  else if itemType = "local".toList then
    match parts with
    | albumTitle :: trackTitle :: duration :: _ =>
      (parseU64 duration).elim (.error .invalidFormat) fun durationSecs =>
        .ok (.local name albumTitle trackTitle durationSecs)
    | _ => .error .invalidFormat
  else .ok (.unknown itemType name)

def fromUri (src : List Char) : Except SpotifyUriError SpotifyUri :=
  match src.splitOn ':' with
  | [] => .error .invalidFormat
  | scheme :: parts =>
    if scheme ≠ "spotify".toList then .error .invalidRoot
    else
      match parts with
      | [] => .error .invalidFormat
      | next :: parts =>
        if next = "user".toList then
          match parts with
          | username :: itemType :: name :: parts => fromItem (some username) itemType name parts
          | _ => .error .invalidFormat
        else
          match parts with
          | name :: parts => fromItem none next name parts
          | [] => .error .invalidFormat

def toUri : SpotifyUri → List Char
  | .playlist (some user) id =>
    "spotify:user:".toList ++ user ++ ':' :: "playlist".toList ++ ':' :: id.toBase62
  | uri => "spotify:".toList ++ uri.itemType ++ ':' :: uri.toId

example : fromUri "spotify:user:a:playlist:5sWHDYs0csV6RS48xBl0tH".toList =
    .ok (.playlist (some ['a']) ⟨238762092608182713602505436543891614649⟩) := by
  decide +kernel

example : (SpotifyUri.track ⟨238762092608182713602505436543891614649⟩).toUri =
    "spotify:track:5sWHDYs0csV6RS48xBl0tH".toList := by
  decide +kernel

end SpotifyUri

end Connect
