import SqueezeboxConnect.LoginBlobs

/-!
# Input from peers that nobody has vouched for

The access point sends a packet before the handshake has checked its key, and
everybody in the local network can add a user. Three functions read such input:
`recv_packet`, `handle_add_user` and, with the text that the second one has
decrypted, `Credentials::with_blob`. A length that comes from the peer is used
in a subtraction or as the end of a slice in each of them. What follows says for
which input they return a result.

Memory is taken to be unlimited.
-/

namespace UntrustedPeers

open Outcomes ByteFields Fallible LoginBlobs Words

section Handshake

/-- The number of values of a `usize`, which has at least 32 bits. -/
structure Platform where
  word : Nat
  wide : 2 ^ 32 ≤ word

/-- The most bytes that a vector can hold: `isize::MAX`. -/
def Platform.vecMax (platform : Platform) : Nat := platform.word / 2 - 1

/-- `Vec::resize` with zeros. -/
def resize (platform : Platform) (bytes : Bytes) (size : Nat) : Except Panic Bytes :=
  if size ≤ platform.vecMax then .ok (bytes.take size ++ List.replicate (size - bytes.length) 0)
  else .error .capacity

/-- What the connection still sends before it ends. -/
def readExact (connection : Bytes) (size : Nat) : Except Error (Bytes × Bytes) :=
  if connection.length < size then .error .unexpectedEof
  else .ok (connection.take size, connection.drop size)

/-- The data, the accumulator with the data behind it, and the rest of the connection. The sum
may wrap, and then the accumulator is cut instead. -/
def readIntoAccumulator (platform : Platform) (connection : Bytes) (size : Nat) (acc : Bytes) :
    Call Panic Error (Bytes × Bytes × Bytes) := do
  let offset := acc.length
  let acc ← guarded (resize platform acc ((offset + size) % platform.word))
  let target ← guarded (slice acc offset acc.length)
  let (data, connection) ← result (readExact connection target.length)
  return (data, acc.take offset ++ data, connection)

def parseMessage {Message : Type} (parse : Bytes → Option Message) (data : Bytes) :
    Except Error Message :=
  match parse data with
  | some message => .ok message
  | none => .error .protobuf

def recvPacket {Message : Type} (platform : Platform) (parse : Bytes → Option Message)
    (connection acc : Bytes) : Call Panic Error (Message × Bytes × Bytes) := do
  let (header, acc, connection) ← readIntoAccumulator platform connection 4 acc
  let size := beNat header
  let length ← guarded (checkedSub size 4)
  let (data, acc, connection) ← readIntoAccumulator platform connection length acc
  let message ← result (parseMessage parse data)
  return (message, acc, connection)

variable {platform : Platform}

theorem resize_eq_ok {bytes resized : Bytes} {size : Nat}
    (done : resize platform bytes size = .ok resized) :
    size ≤ platform.vecMax ∧ resized.length = size := by
  rw [resize] at done
  split at done
  · next fits =>
    cases done
    rw [List.length_append, List.length_take, List.length_replicate]
    exact ⟨fits, by omega⟩
  · cases done

/-- With room for the data, the read appends it to the accumulator. -/
theorem readIntoAccumulator_eq {size : Nat} {acc : Bytes} (connection : Bytes)
    (room : acc.length + size ≤ platform.vecMax) :
    readIntoAccumulator platform connection size acc =
      result ((readExact connection size).map fun read => (read.1, acc ++ read.1, read.2)) := by
  have wide := platform.wide
  have total : (acc.length + size) % platform.word = acc.length + size := by
    rw [Platform.vecMax] at room
    exact Nat.mod_eq_of_lt (by omega)
  have longer : acc.take (acc.length + size) ++ List.replicate (acc.length + size - acc.length) 0 =
      acc ++ List.replicate size 0 := by
    rw [List.take_of_length_le (Nat.le_add_right _ _), Nat.add_sub_cancel_left]
  have target : slice (acc ++ List.replicate size 0) acc.length
      (acc ++ List.replicate size 0).length = .ok (List.replicate size 0) := by
    rw [slice_eq (by simp) (Nat.le_refl _), List.drop_left]
    simp
  unfold readIntoAccumulator
  simp only [total, resize, if_pos room, longer, guarded_ok_bind, target, List.length_replicate,
    List.take_left]
  cases readExact connection size <;> rfl

/-- Without room the accumulator cannot grow, or it is shorter than before and cannot be
sliced. -/
theorem readIntoAccumulator_settles {size : Nat} {acc : Bytes} (connection : Bytes)
    (word : size < platform.word) :
    Settles (readIntoAccumulator platform connection size acc) ↔
      acc.length + size ≤ platform.vecMax := by
  constructor
  · intro settles
    obtain ⟨resized, grown, settles⟩ := (settles_guarded_bind _ _).mp settles
    obtain ⟨target, sliced, -⟩ := (settles_guarded_bind _ _).mp settles
    obtain ⟨fits, length⟩ := resize_eq_ok grown
    have long := (slice_returns.mp ⟨target, sliced⟩).1
    rw [length] at long
    have short : (acc.length + size) % platform.word < platform.word := Nat.mod_lt _ (by omega)
    by_cases whole : acc.length + size < platform.word
    · rwa [Nat.mod_eq_of_lt whole] at fits
    · by_cases inside : acc.length < platform.word
      · rw [Nat.mod_eq_sub_mod (by omega), Nat.mod_eq_of_lt (by omega)] at long
        omega
      · omega
  · intro room
    rw [readIntoAccumulator_eq connection room]
    exact ⟨_, rfl⟩

/-- There is room for the header, and if a header comes, it counts itself and there is room for
the packet. -/
def Sized (platform : Platform) (connection acc : Bytes) : Prop :=
  acc.length + 4 ≤ platform.vecMax ∧ (4 ≤ connection.length →
    4 ≤ beNat (connection.take 4) ∧ acc.length + beNat (connection.take 4) ≤ platform.vecMax)

theorem recvPacket_settles {Message : Type} (platform : Platform)
    (parse : Bytes → Option Message) (connection acc : Bytes) :
    Settles (recvPacket platform parse connection acc) ↔ Sized platform connection acc := by
  have wide := platform.wide
  unfold recvPacket Sized
  by_cases room : acc.length + 4 ≤ platform.vecMax
  · rw [readIntoAccumulator_eq connection room, and_iff_right room]
    by_cases enough : 4 ≤ connection.length
    · have header : readExact connection 4 = .ok (connection.take 4, connection.drop 4) :=
        if_neg (by omega)
      have four : (connection.take 4).length = 4 := by rw [List.length_take]; omega
      have below := beNat_lt (connection.take 4)
      rw [four] at below
      have small : beNat (connection.take 4) - 4 < platform.word := by omega
      simp only [header, Except.map, result_ok_bind, settles_guarded_bind, forall_const, enough]
      constructor
      · rintro ⟨length, counted, settles⟩
        have four_le := checkedSub_returns.mp ⟨length, counted⟩
        rw [checkedSub_eq four_le] at counted
        cases counted
        have read := (settles_bind.mp settles).1
        rw [readIntoAccumulator_settles _ small, List.length_append, four] at read
        exact ⟨four_le, by omega⟩
      · rintro ⟨four_le, fits⟩
        refine ⟨_, checkedSub_eq four_le, settles_bind.mpr ⟨?_, fun read _ => ?_⟩⟩
        · rw [readIntoAccumulator_settles _ small, List.length_append, four]
          omega
        · exact (settles_result_bind _ _).mpr fun message _ => settles_pure _
    · have early : readExact connection 4 = .error .unexpectedEof := if_pos (by omega)
      rw [early]
      exact iff_of_true ⟨_, rfl⟩ fun long => absurd long enough
  · have header := (readIntoAccumulator_settles connection (by omega)).not.mpr room
    rw [settles_bind]
    exact iff_of_false (fun settles => header settles.1) fun sized => room sized.1

end Handshake

section AddUser

abbrev Params := String → Option String

structure Response where
  status : Nat
  spotifyError : Nat
  statusString : String
  deriving DecidableEq

structure RequestHandler where
  deviceId : String
  username : Option String
  /-- The lock of the user name is poisoned. -/
  poisoned : Bool
  /-- The other end of `event_tx` is there. -/
  listening : Bool
  events : List Credentials

def param (params : Params) (key : String) : Except Error String :=
  match params key with
  | some value => .ok value
  | none => .error (.paramsError key)

variable (c : Crypto) (h : RequestHandler)

/-- The end of `handle_add_user`, with the text that has been decrypted. -/
def login (username : String) (decrypted : Bytes) :
    Call Panic Error (Response × RequestHandler) := do
  let credentials ← withBlob c username decrypted (asBytes h.deviceId)
  if h.listening then
    return (⟨101, 0, "OK"⟩, { h with
      events := h.events ++ [credentials]
      username := if h.poisoned then h.username else some username })
  else throw .channelClosed

/-- `handle_add_user` behind the parameters. -/
def addUser (username : String) (encryptedBlob clientKey : Bytes) :
    Call Panic Error (Response × RequestHandler) :=
  let sharedKey := c.sharedSecret clientKey
  if encryptedBlob.length < 16 then throw (.hmacError encryptedBlob)
  else do
    let iv ← guarded (slice encryptedBlob 0 16)
    let stop ← guarded (checkedSub encryptedBlob.length 20)
    let encrypted ← guarded (slice encryptedBlob 16 stop)
    let cksum ← guarded (slice encryptedBlob stop encryptedBlob.length)
    let baseKey ← guarded (slice (c.sha1 sharedKey) 0 16)
    let checksumKey := c.hmac baseKey (asBytes "checksum")
    let encryptionKey := c.hmac baseKey (asBytes "encryption")
    if c.hmac checksumKey encrypted ≠ cksum then return (⟨102, 1, "ERROR-MAC"⟩, h)
    else
      let key ← guarded (slice encryptionKey 0 16)
      login c h username (c.applyKeystream key iv encrypted)

def handleAddUser (params : Params) : Call Panic Error (Response × RequestHandler) := do
  let username ← result (param params "userName")
  let encryptedBlob ← result (param params "blob")
  let clientKey ← result (param params "clientKey")
  let encryptedBlob ← result (decodeBase64 c (asBytes encryptedBlob))
  let clientKey ← result (decodeBase64 c (asBytes clientKey))
  addUser c h username encryptedBlob clientKey

/-- The parts of a blob of 36 bytes and more. -/
def ciphertext (blob : Bytes) : Bytes := (blob.drop 16).take (blob.length - 36)

def baseKey (clientKey : Bytes) : Bytes :=
  (c.sha1 (c.sharedSecret clientKey)).take 16

def Authentic (clientKey blob : Bytes) : Prop :=
  c.hmac (c.hmac (baseKey c clientKey) (asBytes "checksum")) (ciphertext blob) =
    blob.drop (blob.length - 20)

instance (c : Crypto) (clientKey blob : Bytes) : Decidable (Authentic c clientKey blob) :=
  inferInstanceAs (Decidable (_ = _))

def plaintext (clientKey blob : Bytes) : Bytes :=
  c.applyKeystream ((c.hmac (baseKey c clientKey) (asBytes "encryption")).take 16)
    (blob.take 16) (ciphertext blob)

/-- A blob that is too short for a vector is refused; one with a vector also has a checksum; and
the text of an authentic one is whole. -/
def Framed (clientKey blob : Bytes) : Prop :=
  blob.length < 16 ∨ 36 ≤ blob.length ∧
    (Authentic c clientKey blob → Whole c (plaintext c clientKey blob))

theorem login_settles (username : String) (decrypted : Bytes) :
    Settles (login c h username decrypted) ↔ Whole c decrypted := by
  rw [← withBlob_settles c username decrypted (asBytes h.deviceId), login, settles_bind,
    and_iff_left]
  intro credentials _
  split
  · exact settles_pure _
  · exact settles_throw _

theorem addUser_eq (username : String) {blob : Bytes} (clientKey : Bytes)
    (long : 36 ≤ blob.length) :
    addUser c h username blob clientKey =
      if Authentic c clientKey blob then login c h username (plaintext c clientKey blob)
      else pure (⟨102, 1, "ERROR-MAC"⟩, h) := by
  have vector : slice blob 0 16 = .ok (blob.take 16) := slice_eq (by omega) (by omega)
  have middle : slice blob 16 (blob.length - 20) = .ok (ciphertext blob) := by
    rw [slice_eq (by omega) (by omega), ciphertext, Nat.sub_sub]
  have last : slice blob (blob.length - 20) blob.length = .ok (blob.drop (blob.length - 20)) := by
    rw [slice_eq (by omega) (by omega), List.take_of_length_le (by rw [List.length_drop])]
  have base : slice (c.sha1 (c.sharedSecret clientKey)) 0 16 = .ok (baseKey c clientKey) :=
    slice_eq (by omega) (by rw [c.sha1_length]; omega)
  have key : slice (c.hmac (baseKey c clientKey) (asBytes "encryption")) 0 16 =
      .ok ((c.hmac (baseKey c clientKey) (asBytes "encryption")).take 16) :=
    slice_eq (by omega) (by rw [c.hmac_length]; omega)
  unfold addUser
  rw [if_neg (by omega)]
  simp only [vector, checkedSub_eq (show 20 ≤ blob.length by omega), middle, last, base, key,
    guarded_ok_bind, ne_eq, ite_not]
  rfl

theorem addUser_settles (username : String) (blob clientKey : Bytes) :
    Settles (addUser c h username blob clientKey) ↔ Framed c clientKey blob := by
  by_cases long : 36 ≤ blob.length
  · rw [addUser_eq c h username clientKey long, Framed, and_iff_right long, or_iff_right (by omega)]
    by_cases authentic : Authentic c clientKey blob
    · rw [if_pos authentic, login_settles]
      exact ⟨fun whole _ => whole, fun all => all authentic⟩
    · rw [if_neg authentic]
      exact iff_of_true (settles_pure _) fun h => absurd h authentic
  · rw [Framed, addUser]
    by_cases short : blob.length < 16
    · rw [if_pos short]
      exact iff_of_true (settles_throw _) (.inl short)
    · rw [if_neg short]
      refine iff_of_false ?_ (by rintro (h | h) <;> omega)
      intro settles
      obtain ⟨iv, -, settles⟩ := (settles_guarded_bind _ _).mp settles
      obtain ⟨stop, counted, settles⟩ := (settles_guarded_bind _ _).mp settles
      obtain ⟨encrypted, sliced, -⟩ := (settles_guarded_bind _ _).mp settles
      have enough := checkedSub_returns.mp ⟨stop, counted⟩
      rw [checkedSub_eq enough] at counted
      cases counted
      have order := (slice_returns.mp ⟨encrypted, sliced⟩).1
      omega

/-- If all parameters are there and both texts are base64, the blob is framed. -/
def Admissible (params : Params) : Prop :=
  ∀ username blobText keyText blob clientKey, params "userName" = some username →
    params "blob" = some blobText → params "clientKey" = some keyText →
    c.base64 (asBytes blobText) = some blob → c.base64 (asBytes keyText) = some clientKey →
    Framed c clientKey blob

theorem param_eq_ok {params : Params} {key value : String} :
    param params key = .ok value ↔ params key = some value := by
  unfold param
  cases params key <;> simp

theorem handleAddUser_settles (params : Params) :
    Settles (handleAddUser c h params) ↔ Admissible c params := by
  unfold handleAddUser Admissible
  simp only [settles_result_bind, param_eq_ok, decodeBase64_eq_ok, addUser_settles]
  constructor
  · intro all username blobText keyText blob clientKey user text key decoded decodedKey
    exact all username user blobText text keyText key blob decoded clientKey decodedKey
  · intro all username user blobText text keyText key blob decoded clientKey decodedKey
    exact all username blobText keyText blob clientKey user text key decoded decodedKey

end AddUser

/-- For which input from a peer each of the three functions returns a result. -/
theorem peers_settle_iff {Message : Type} (c : Crypto) (platform : Platform)
    (parse : Bytes → Option Message) (connection acc : Bytes) (h : RequestHandler)
    (params : Params) (username : String) (encryptedBlob deviceId : Bytes) :
    (Settles (recvPacket platform parse connection acc) ↔ Sized platform connection acc) ∧
    (Settles (handleAddUser c h params) ↔ Admissible c params) ∧
    (Settles (withBlob c username encryptedBlob deviceId) ↔ Whole c encryptedBlob) :=
  ⟨recvPacket_settles platform parse connection acc, handleAddUser_settles c h params,
    withBlob_settles c username encryptedBlob deviceId⟩

/-- Twenty zeros and one zero, as base64 text; the ciphers do nothing. -/
def zeros : Crypto where
  base64 text :=
    if text = asBytes "AAAAAAAAAAAAAAAAAAAAAAAAAAA=" then some (List.replicate 20 0)
    else if text = asBytes "AA==" then some [0]
    else none
  sha1 _ := List.replicate 20 0
  hmac _ _ := List.replicate 20 0
  pbkdf2 _ _ _ := List.replicate 20 0
  decryptBlock _ block := block
  applyKeystream _ _ data := data
  sharedSecret key := key
  sha1_length _ := rfl
  hmac_length _ _ := rfl
  decryptBlock_length _ _ length := length

def shortBlob : Params
  | "userName" => some "user"
  | "blob" => some "AAAAAAAAAAAAAAAAAAAAAAAAAAA="
  | "clientKey" => some "AA=="
  | _ => none

/-- A packet of three bytes in all, a blob of twenty bytes, and credentials of one byte. -/
theorem shortInput_notSettles :
    (¬ Settles (recvPacket ⟨2 ^ 32, Nat.le_refl _⟩ some [0, 0, 0, 3] [])) ∧
    (¬ Settles (handleAddUser zeros ⟨"radio", none, false, true, []⟩ shortBlob)) ∧
    ¬ Settles (withBlob zeros "user" (asBytes "AA==") (asBytes "radio")) := by
  refine ⟨?_, ?_, ?_⟩
  · rw [recvPacket_settles]
    rintro ⟨-, sized⟩
    have four := (sized (by decide)).1
    revert four
    decide
  · rw [handleAddUser_settles]
    intro admissible
    have framed := admissible "user" _ _ (List.replicate 20 0) [0] rfl rfl rfl rfl rfl
    rcases framed with short | ⟨long, -⟩
    · revert short
      decide
    · revert long
      decide
  · rw [withBlob_settles]
    intro whole
    have long := whole [0] rfl
    revert long
    decide

end UntrustedPeers
