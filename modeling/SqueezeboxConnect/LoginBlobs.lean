import Mathlib.Algebra.Ring.Nat
import SqueezeboxConnect.ByteFields
import SqueezeboxConnect.Fallible
import SqueezeboxConnect.Words

/-!
# Credentials in a blob

A login blob is base64 text of blocks that were chained and encrypted. What the
ciphers and hashes compute is a parameter; of a hash it is known how long it is,
and of a cipher that a block stays a block. The length of the text is nowhere
compared with the length of a block.
-/

namespace LoginBlobs

open Outcomes ByteFields Fallible Words

/-- The functions of other crates. -/
structure Crypto where
  base64 : Bytes → Option Bytes
  sha1 : Bytes → Bytes
  hmac : Bytes → Bytes → Bytes
  /-- Of a password, a salt and a number of rounds. -/
  pbkdf2 : Bytes → Bytes → Nat → Bytes
  decryptBlock : Bytes → Bytes → Bytes
  /-- Of a key, an initial vector and the data. -/
  applyKeystream : Bytes → Bytes → Bytes → Bytes
  sharedSecret : Bytes → Bytes
  sha1_length : ∀ message, (sha1 message).length = 20
  hmac_length : ∀ key message, (hmac key message).length = 20
  decryptBlock_length : ∀ key block, block.length = 16 → (decryptBlock key block).length = 16

/-- The errors of the crate, by where they come from. -/
inductive Error where
  | unexpectedEof
  | protobuf
  | base64
  | authType (value : UInt32)
  | paramsError (key : String)
  | hmacError (bytes : Bytes)
  | channelClosed
  deriving DecidableEq

inductive AuthenticationType where
  | userPass
  | storedSpotifyCredentials
  | storedFacebookCredentials
  | spotifyToken
  | facebookToken
  deriving DecidableEq

def AuthenticationType.fromI32 (value : Int32) : Option AuthenticationType :=
  match value.toInt with
  | 0 => some .userPass
  | 1 => some .storedSpotifyCredentials
  | 2 => some .storedFacebookCredentials
  | 3 => some .spotifyToken
  | 4 => some .facebookToken
  | _ => none

structure Credentials where
  username : Option String
  authType : AuthenticationType
  authData : Bytes
  deriving DecidableEq

def asBytes (text : String) : Bytes := text.toUTF8.data.toList

def decodeBase64 (c : Crypto) (text : Bytes) : Except Error Bytes :=
  match c.base64 text with
  | some data => .ok data
  | none => .error .base64

variable {data : Bytes}

theorem decodeBase64_eq_ok {c : Crypto} {text : Bytes} :
    decodeBase64 c text = .ok data ↔ c.base64 text = some data := by
  unfold decodeBase64
  cases c.base64 text <;> simp

section Reading

def readU8 : Bytes → Except Error (UInt8 × Bytes)
  | [] => .error .unexpectedEof
  | byte :: stream => .ok (byte, stream)

/-- One byte, or two if the first one has its high bit set. -/
def readInt (stream : Bytes) : Except Error (UInt32 × Bytes) := do
  let (lo, stream) ← readU8 stream
  if lo.toUInt32 &&& 0x80 = 0 then return (lo.toUInt32, stream)
  else
    let (hi, stream) ← readU8 stream
    let shifted : UInt32 := hi.toUInt32 <<< 7
    return (lo.toUInt32 &&& 0x7f ||| shifted, stream)

def readBytes (stream : Bytes) : Except Error (Bytes × Bytes) := do
  let (length, stream) ← readInt stream
  if stream.length < length.toNat then .error .unexpectedEof
  else return (stream.take length.toNat, stream.drop length.toNat)

/-- The part of `with_blob` behind the decryption. -/
def readCredentials (blob : Bytes) : Except Error (AuthenticationType × Bytes) := do
  let (_, cursor) ← readU8 blob
  let (_, cursor) ← readBytes cursor
  let (_, cursor) ← readU8 cursor
  let (value, cursor) ← readInt cursor
  let authType ← match AuthenticationType.fromI32 value.toInt32 with
    | some authType => .ok authType
    | none => .error (.authType value)
  let (_, cursor) ← readU8 cursor
  let (authData, _) ← readBytes cursor
  return (authType, authData)

end Reading

section Decrypting

def blobKey (c : Crypto) (username deviceId : Bytes) : Bytes :=
  c.sha1 (c.pbkdf2 (c.sha1 deviceId) username 0x100) ++ [0, 0, 0, 20]

/-- Bytes behind the last whole block stay as they are. -/
def decryptBlocks (decrypt : Bytes → Bytes) (data : Bytes) : Bytes :=
  if 16 ≤ data.length then decrypt (data.take 16) ++ decryptBlocks decrypt (data.drop 16)
  else data
termination_by data.length
decreasing_by simp only [List.length_drop]; omega

/-- One round of the loop that takes the chaining back. -/
def unchainByte (l : Nat) (data : Bytes) (i : Nat) : Except Panic Bytes := do
  let rest ← checkedSub l i
  let place ← checkedSub rest 1
  let source ← checkedSub rest 0x11
  let byte ← index data place
  let before ← index data source
  return data.set place (byte ^^^ before)

def unchain (data : Bytes) : Except Panic Bytes := do
  let rounds ← checkedSub data.length 0x10
  (List.range rounds).foldlM (unchainByte data.length) data

def withBlob (c : Crypto) (username : String) (encryptedBlob deviceId : Bytes) :
    Call Panic Error Credentials := do
  let key := blobKey c (asBytes username) deviceId
  let data ← result (decodeBase64 c encryptedBlob)
  let blob ← guarded (unchain (decryptBlocks (c.decryptBlock key) data))
  let (authType, authData) ← result (readCredentials blob)
  return ⟨some username, authType, authData⟩

theorem length_decryptBlocks {decrypt : Bytes → Bytes}
    (keeps : ∀ block, block.length = 16 → (decrypt block).length = 16) (data : Bytes) :
    (decryptBlocks decrypt data).length = data.length := by
  fun_induction decryptBlocks decrypt data with
  | case1 data whole ih =>
    have block : (data.take 16).length = 16 := by rw [List.length_take]; omega
    rw [List.length_append, keeps _ block, ih, List.length_drop]
    omega
  | case2 data short => rfl

/-- A round that begins at least a block from the front returns. -/
theorem unchainByte_returns {l i : Nat} (length : data.length = l) (inside : i + 0x10 < l) :
    ∃ data', unchainByte l data i = .ok data' ∧ data'.length = l := by
  have place : l - i - 1 < data.length := by omega
  have source : l - i - 0x11 < data.length := by omega
  refine ⟨data.set (l - i - 1) (data.getD (l - i - 1) 0 ^^^ data.getD (l - i - 0x11) 0), ?_, ?_⟩
  · simp only [unchainByte, checkedSub_eq (show i ≤ l by omega),
      checkedSub_eq (show 1 ≤ l - i by omega), checkedSub_eq (show 0x11 ≤ l - i by omega),
      index_eq place 0, index_eq source 0, bind, Except.bind]
    rfl
  · rw [List.length_set]
    exact length

theorem unchainBytes_return {l : Nat} {rounds : List Nat} (length : data.length = l)
    (inside : ∀ i ∈ rounds, i + 0x10 < l) : Returns (rounds.foldlM (unchainByte l) data) := by
  induction rounds generalizing data with
  | nil => exact returns_ok data
  | cons i rest ih =>
    obtain ⟨data', round, length'⟩ := unchainByte_returns length (inside i (by simp))
    rw [List.foldlM_cons, round]
    exact ih length' fun j later => inside j (by simp [later])

theorem unchain_returns : Returns (unchain data) ↔ 16 ≤ data.length := by
  unfold unchain
  constructor
  · intro returns
    obtain ⟨rounds, enough, -⟩ := returns_bind.mp returns
    exact checkedSub_returns.mp ⟨rounds, enough⟩
  · intro enough
    rw [checkedSub_eq enough]
    refine unchainBytes_return rfl fun i inside => ?_
    have below := List.mem_range.mp inside
    omega

/-- The blob is not base64 text, or there is at least one block in it. -/
def Whole (c : Crypto) (encryptedBlob : Bytes) : Prop :=
  ∀ data, c.base64 encryptedBlob = some data → 16 ≤ data.length

theorem withBlob_settles (c : Crypto) (username : String) (encryptedBlob deviceId : Bytes) :
    Settles (withBlob c username encryptedBlob deviceId) ↔ Whole c encryptedBlob := by
  have length (data : Bytes) := length_decryptBlocks
    (c.decryptBlock_length (blobKey c (asBytes username) deviceId)) data
  unfold withBlob Whole
  simp only [settles_result_bind, settles_guarded_bind, decodeBase64_eq_ok]
  constructor
  · intro settles data found
    obtain ⟨blob, unchained, -⟩ := settles data found
    rw [← length data]
    exact unchain_returns.mp ⟨blob, unchained⟩
  · intro whole data found
    obtain ⟨blob, unchained⟩ := unchain_returns.mpr ((length data).symm ▸ whole data found)
    exact ⟨blob, unchained, fun read _ => settles_pure _⟩

end Decrypting

end LoginBlobs
