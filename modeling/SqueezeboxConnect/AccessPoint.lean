import SqueezeboxConnect.ByteFields
import SqueezeboxConnect.Runs
import SqueezeboxConnect.Words

/-!
# The codec of the access point connection

A packet is a command byte, the length of its payload in two bytes and the
payload, all encrypted, with four bytes of authentication behind them. For each
packet the cipher is set to the next nonce. The decoder gets the bytes in
pieces of any size; between two pieces it remembers the header of a packet whose
payload has not arrived yet, and the cipher is then in the middle of the packet.

The Shannon cipher is not modelled. What is assumed of it is stated as a
structure: for a key and a nonce it is a stream cipher, and it accepts the
authentication code it would have produced itself. Counters wrap around.
-/

namespace AccessPoint

open Runs ByteFields Words

/-- The interface of the cipher; each operation also returns the new state. -/
structure Shannon (State : Type) where
  new : Bytes → State
  nonceU32 : UInt32 → State → State
  encrypt : Bytes → State → Bytes × State
  decrypt : Bytes → State → Bytes × State
  finish : State → Bytes × State
  checkMac : Bytes → State → Bool × State

/-- A stream cipher with a key that stays the same. -/
structure StreamCipher {State : Type} (c : Shannon State) where
  key : State → Bytes
  key_new : ∀ k, key (c.new k) = k
  key_nonce : ∀ n s, key (c.nonceU32 n s) = key s
  key_encrypt : ∀ bytes s, key (c.encrypt bytes s).2 = key s
  key_decrypt : ∀ bytes s, key (c.decrypt bytes s).2 = key s
  key_finish : ∀ s, key (c.finish s).2 = key s
  key_checkMac : ∀ mac s, key (c.checkMac mac s).2 = key s
  /-- The nonce begins the stream of the key anew. -/
  reset : ∀ n s t, key s = key t → c.nonceU32 n s = c.nonceU32 n t
  decrypt_append : ∀ front back s, c.decrypt (front ++ back) s =
    ((c.decrypt front s).1 ++ (c.decrypt back (c.decrypt front s).2).1,
      (c.decrypt back (c.decrypt front s).2).2)
  length_encrypt : ∀ bytes s, (c.encrypt bytes s).1.length = bytes.length
  length_decrypt : ∀ bytes s, (c.decrypt bytes s).1.length = bytes.length
  decrypt_encrypt : ∀ bytes s, c.decrypt (c.encrypt bytes s).1 s = (bytes, (c.encrypt bytes s).2)
  length_finish : ∀ s, (c.finish s).1.length = 4
  checkMac_finish : ∀ s, (c.checkMac (c.finish s).1 s).1 = true

def HEADER_SIZE : Nat := 3

def MAC_SIZE : Nat := 4

inductive DecodeState where
  | header
  | payload (cmd : UInt8) (size : Nat)
  deriving DecidableEq

inductive DecodeError where
  | payload
  | mac
  deriving DecidableEq

abbrev Item := UInt8 × Bytes

structure ApCodec (State : Type) where
  encodeNonce : UInt32
  encodeCipher : State
  decodeNonce : UInt32
  decodeCipher : State
  decodeState : DecodeState

namespace ApCodec

variable {State : Type} (c : Shannon State)

def new (sendKey recvKey : Bytes) : ApCodec State where
  encodeNonce := 0
  encodeCipher := c.new sendKey
  decodeNonce := 0
  decodeCipher := c.new recvKey
  decodeState := .header

def encode (codec : ApCodec State) (item : Item) (buf : Bytes) : ApCodec State × Bytes :=
  let cipher := c.nonceU32 codec.encodeNonce codec.encodeCipher
  let (encrypted, cipher) := c.encrypt (item.1 :: be16 item.2.length ++ item.2) cipher
  let (mac, cipher) := c.finish cipher
  ({ codec with encodeNonce := codec.encodeNonce + 1, encodeCipher := cipher },
    buf ++ encrypted ++ mac)

/-- The header, once it has arrived. -/
def decodeHeader (codec : ApCodec State) (buf : Bytes) : ApCodec State × Bytes :=
  if codec.decodeState = .header ∧ HEADER_SIZE ≤ buf.length then
    let cipher := c.nonceU32 codec.decodeNonce codec.decodeCipher
    let (header, cipher) := c.decrypt (buf.take HEADER_SIZE) cipher
    ({ codec with
      decodeNonce := codec.decodeNonce + 1
      decodeCipher := cipher
      decodeState := .payload (header.getD 0 0) (beNat (header.drop 1)) }, buf.drop HEADER_SIZE)
  else (codec, buf)

/-- The payload and the authentication code, once they have arrived. -/
def decodePayload (codec : ApCodec State) (buf : Bytes) :
    ApCodec State × Bytes × Except DecodeError (Option Item) :=
  match codec.decodeState with
  | .header => (codec, buf, .ok none)
  | .payload cmd size =>
    if size + MAC_SIZE ≤ buf.length then
      let codec := { codec with decodeState := .header }
      let payload := buf.take (size + MAC_SIZE)
      let buf := buf.drop (size + MAC_SIZE)
      if payload.length < size then (codec, buf, .error .payload)
      else
        let (decrypted, cipher) := c.decrypt (payload.take size) codec.decodeCipher
        let (valid, cipher) := c.checkMac (payload.drop size) cipher
        let codec := { codec with decodeCipher := cipher }
        if valid then (codec, buf, .ok (some (cmd, decrypted))) else (codec, buf, .error .mac)
    else (codec, buf, .ok none)

def decode (codec : ApCodec State) (buf : Bytes) :
    ApCodec State × Bytes × Except DecodeError (Option Item) :=
  let (codec, buf) := decodeHeader c codec buf
  decodePayload c codec buf

/-- The packets one after the other into one buffer. -/
def encodeAll (codec : ApCodec State) : List Item → Bytes → ApCodec State × Bytes
  | [], buf => (codec, buf)
  | item :: rest, buf =>
    let (codec, buf) := codec.encode c item buf
    codec.encodeAll rest buf

end ApCodec

variable {State : Type} {c : Shannon State}

theorem decodeHeader_length (codec : ApCodec State) (buf : Bytes) :
    (codec.decodeHeader c buf).2.length ≤ buf.length := by
  rw [ApCodec.decodeHeader]
  split
  · simp
  · exact Nat.le_refl _

variable {codec codec' : ApCodec State} {buf rest : Bytes} {items : List Item} {final : UInt32}
  {buf' : Bytes} {item : Item}

theorem decodePayload_shorter
    (decoded : codec.decodePayload c buf = (codec', buf', .ok (some item))) :
    buf'.length < buf.length := by
  simp only [ApCodec.decodePayload] at decoded
  split at decoded
  · cases decoded
  · split at decoded
    · rename_i size enough
      split at decoded
      · cases decoded
      · split at decoded
        · cases decoded
          rw [List.length_drop]
          simp only [MAC_SIZE] at enough ⊢
          omega
        · cases decoded
    · cases decoded

theorem decode_shorter (decoded : codec.decode c buf = (codec', buf', .ok (some item))) :
    buf'.length < buf.length :=
  Nat.lt_of_lt_of_le (decodePayload_shorter decoded) (decodeHeader_length codec buf)

/-- `decode` is called until it returns no packet. -/
def drain (c : Shannon State) (codec : ApCodec State) (buf : Bytes) :
    ApCodec State × Bytes × List Item × Option DecodeError :=
  match _decoded : codec.decode c buf with
  | (codec, buf, .ok none) => (codec, buf, [], none)
  | (codec, buf, .error e) => (codec, buf, [], some e)
  | (codec, buf', .ok (some item)) =>
    let (codec, buf, items, failed) := drain c codec buf'
    (codec, buf, item :: items, failed)
termination_by buf.length
decreasing_by exact decode_shorter _decoded

/-- The side of a connection that reads, with the packets so far. -/
structure Reader (State : Type) where
  codec : ApCodec State
  buf : Bytes
  items : List Item
  failed : Option DecodeError

/-- One more piece of the input; an error ends the connection. -/
def receive (c : Shannon State) (r : Reader State) (chunk : Bytes) : Reader State :=
  if r.failed.isSome then r
  else
    let (codec, buf, items, failed) := drain c r.codec (r.buf ++ chunk)
    ⟨codec, buf, r.items ++ items, failed⟩

section Wire

variable (c) (key : Bytes)

def plain (item : Item) : Bytes := item.1 :: be16 item.2.length ++ item.2

/-- The cipher at the beginning of a packet. -/
def start (n : UInt32) : State := c.nonceU32 n (c.new key)

/-- The bytes of a packet and the code behind them. -/
def packetBytes (n : UInt32) (item : Item) : Bytes :=
  (c.encrypt (plain item) (start c key n)).1 ++
    (c.finish (c.encrypt (plain item) (start c key n)).2).1

def wire : UInt32 → List Item → Bytes
  | _, [] => []
  | n, item :: rest => packetBytes c key n item ++ wire (n + 1) rest

end Wire

variable (cipher : StreamCipher c) {key : Bytes}

theorem encode_wire (keyed : cipher.key codec.encodeCipher = key) (item : Item) (buf : Bytes) :
    (codec.encode c item buf).2 = buf ++ packetBytes c key codec.encodeNonce item ∧
      (codec.encode c item buf).1.encodeNonce = codec.encodeNonce + 1 ∧
      cipher.key (codec.encode c item buf).1.encodeCipher = key := by
  have begun : c.nonceU32 codec.encodeNonce codec.encodeCipher = start c key codec.encodeNonce :=
    cipher.reset _ _ _ (by rw [keyed, cipher.key_new])
  refine ⟨?_, rfl, ?_⟩
  · simp only [ApCodec.encode, begun, packetBytes, plain, List.append_assoc]
  · simp only [ApCodec.encode, begun, cipher.key_finish, cipher.key_encrypt]
    rw [start, cipher.key_nonce, cipher.key_new]

theorem ofNat_length_cons (item : Item) (rest : List Item) :
    UInt32.ofNat (item :: rest).length = 1 + UInt32.ofNat rest.length := by
  rw [List.length_cons, Nat.add_comm, UInt32.ofNat_add]
  rfl

theorem encodeAll_wire (keyed : cipher.key codec.encodeCipher = key) (items : List Item)
    (buf : Bytes) :
    (codec.encodeAll c items buf).2 = buf ++ wire c key codec.encodeNonce items ∧
      (codec.encodeAll c items buf).1.encodeNonce = codec.encodeNonce +
      UInt32.ofNat items.length := by
  induction items generalizing codec buf with
  | nil => simp [ApCodec.encodeAll, wire]
  | cons item rest ih =>
    obtain ⟨bytes, nonce, keyed'⟩ := encode_wire cipher keyed item buf
    obtain ⟨bytes', nonce'⟩ := ih keyed' (codec.encode c item buf).2
    rw [nonce] at bytes' nonce'
    constructor
    · rw [ApCodec.encodeAll, wire, ← List.append_assoc, ← bytes]
      exact bytes'
    · rw [ApCodec.encodeAll, ofNat_length_cons, ← UInt32.add_assoc]
      exact nonce'

/-- The cipher can be stopped behind the header and go on with the payload. -/
theorem decrypt_packet (cipher : StreamCipher c) (item : Item) (s : State) :
    ∃ front body middle, (c.encrypt (plain item) s).1 = front ++ body ∧ front.length = 3 ∧
      body.length = item.2.length ∧ c.decrypt front s = (item.1 :: be16 item.2.length, middle) ∧
      c.decrypt body middle = (item.2, (c.encrypt (plain item) s).2) := by
  have length := cipher.length_encrypt (plain item) s
  have inverse := cipher.decrypt_encrypt (plain item) s
  generalize (c.encrypt (plain item) s).1 = encrypted at length inverse
  have size : (plain item).length = 3 + item.2.length := by
    simp [plain]
    omega
  have three : (encrypted.take 3).length = 3 := by
    rw [List.length_take]
    omega
  rw [← List.take_append_drop 3 encrypted, cipher.decrypt_append] at inverse
  have bytes := congrArg Prod.fst inverse
  obtain ⟨header, payload⟩ := List.append_inj bytes (by
    rw [cipher.length_decrypt, three]
    rfl)
  refine ⟨encrypted.take 3, encrypted.drop 3, (c.decrypt (encrypted.take 3) s).2,
    (List.take_append_drop 3 encrypted).symm, three, by rw [List.length_drop]; omega, ?_, ?_⟩
  · exact Prod.ext header rfl
  · have state := congrArg Prod.snd inverse
    exact Prod.ext payload state

/-- What a decoder knows that has to produce some packets from its buffer and the rest, and
which nonce is the next one behind them. -/
def Expects (key : Bytes) (final : UInt32) (codec : ApCodec State) (buf : Bytes) (items : List Item)
    (rest : Bytes) : Prop :=
  cipher.key codec.decodeCipher = key ∧ (∀ item ∈ items, item.2.length ≤ 65535) ∧
    match codec.decodeState with
    | .header => buf ++ rest = wire c key codec.decodeNonce items ∧
        codec.decodeNonce + UInt32.ofNat items.length = final
    | .payload cmd size => ∃ payload later body last, items = (cmd, payload) :: later ∧
        body.length = size ∧ c.decrypt body codec.decodeCipher = (payload, last) ∧
        buf ++ rest = body ++ (c.finish last).1 ++ wire c key codec.decodeNonce later ∧
        codec.decodeNonce + UInt32.ofNat later.length = final

/-- The decoder has to wait for more bytes. -/
def Waits (codec : ApCodec State) (buf : Bytes) : Prop :=
  match codec.decodeState with
  | .header => buf.length < HEADER_SIZE
  | .payload _ size => buf.length < size + MAC_SIZE

theorem front_of_append {front more : Bytes} (same : buf ++ rest = front ++ more)
    (enough : front.length ≤ buf.length) : ∃ buf', buf = front ++ buf' ∧ buf' ++ rest = more := by
  rcases List.append_eq_append_iff.mp same with ⟨missing, rfl, rfl⟩ | ⟨buf', rfl, rfl⟩
  · have nothing : missing = [] := by
      rw [List.length_append] at enough
      exact List.length_eq_zero_iff.mp (by omega)
    subst nothing
    exact ⟨[], by simp, by simp⟩
  · exact ⟨buf', rfl, rfl⟩

theorem decodeHeader_arrived (state : codec.decodeState = .header) {front : Bytes}
    (three : front.length = 3) (buf : Bytes) {header : Bytes} {middle : State}
    (decrypted : c.decrypt front (c.nonceU32 codec.decodeNonce codec.decodeCipher) =
      (header, middle)) :
    codec.decodeHeader c (front ++ buf) = ({ codec with
      decodeNonce := codec.decodeNonce + 1
      decodeCipher := middle
      decodeState := .payload (header.getD 0 0) (beNat (header.drop 1)) }, buf) := by
  have enough : HEADER_SIZE ≤ (front ++ buf).length := by
    rw [List.length_append, three, HEADER_SIZE]
    omega
  have taken : (front ++ buf).take HEADER_SIZE = front := List.take_left' three
  have left : (front ++ buf).drop HEADER_SIZE = buf := List.drop_left' three
  simp only [ApCodec.decodeHeader, if_pos (And.intro state enough), taken, left, decrypted]

theorem decodePayload_arrived {cmd : UInt8} {size : Nat}
    (state : codec.decodeState = .payload cmd size) {body mac : Bytes} (length : body.length = size)
    (four : mac.length = 4) (buf : Bytes) {payload : Bytes} {last : State}
    (decrypted : c.decrypt body codec.decodeCipher = (payload, last))
    (valid : (c.checkMac mac last).1 = true) :
    codec.decodePayload c (body ++ mac ++ buf) = ({ codec with
      decodeState := .header
      decodeCipher := (c.checkMac mac last).2 }, buf, .ok (some (cmd, payload))) := by
  have whole : (body ++ mac).length = size + MAC_SIZE := by
    rw [List.length_append, length, four, MAC_SIZE]
  have enough : size + MAC_SIZE ≤ (body ++ mac ++ buf).length := by
    rw [List.length_append, whole]
    omega
  have long : ¬ (body ++ mac).length < size := by omega
  have taken : (body ++ mac ++ buf).take (size + MAC_SIZE) = body ++ mac := List.take_left' whole
  have left : (body ++ mac ++ buf).drop (size + MAC_SIZE) = buf := List.drop_left' whole
  have front : (body ++ mac).take size = body := List.take_left' length
  have back : (body ++ mac).drop size = mac := List.drop_left' length
  simp only [ApCodec.decodePayload, state, if_pos enough, taken, left, if_neg long, front, back,
    decrypted, valid, if_true]

section

variable (expects : Expects cipher key final codec buf items rest)
include expects

theorem decodeHeader_expects :
    Expects cipher key final (codec.decodeHeader c buf).1 (codec.decodeHeader c buf).2 items rest ∧
      ((codec.decodeHeader c buf).1.decodeState = .header →
        (codec.decodeHeader c buf).2.length < HEADER_SIZE) := by
  by_cases arrived : codec.decodeState = .header ∧ HEADER_SIZE ≤ buf.length
  · obtain ⟨state, enough⟩ := arrived
    obtain ⟨keyed, short, expected⟩ := expects
    rw [state] at expected
    obtain ⟨bytes, count⟩ := expected
    cases items with
    | nil =>
      rw [wire, List.append_eq_nil_iff] at bytes
      rw [bytes.1] at enough
      cases enough
    | cons item later =>
      have begun : c.nonceU32 codec.decodeNonce codec.decodeCipher =
          start c key codec.decodeNonce :=
        cipher.reset _ _ _ (by rw [keyed, cipher.key_new])
      obtain ⟨front, body, middle, split, three, size, first, second⟩ :=
        decrypt_packet cipher item (start c key codec.decodeNonce)
      rw [wire, packetBytes, split, List.append_assoc, List.append_assoc] at bytes
      obtain ⟨buf', rfl, bytes'⟩ := front_of_append bytes (by rw [three]; exact enough)
      have length : beNat (be16 item.2.length) = item.2.length := by
        have below := short item (by simp)
        rw [beNat_be16]
        omega
      have kept := cipher.key_decrypt front (start c key codec.decodeNonce)
      rw [first, start, cipher.key_nonce, cipher.key_new] at kept
      rw [← begun] at first
      rw [decodeHeader_arrived state three buf' first]
      rw [ofNat_length_cons, ← UInt32.add_assoc] at count
      refine ⟨⟨kept, short, item.2, later, body, _, rfl, ?_, second, ?_, count⟩,
        fun waits => by cases waits⟩
      · rw [size]
        exact length.symm
      · rw [bytes', List.append_assoc]
  · rw [ApCodec.decodeHeader, if_neg arrived]
    refine ⟨expects, ?_⟩
    intro state
    exact Nat.lt_of_not_le fun enough => arrived ⟨state, enough⟩

theorem decodePayload_expects (header : codec.decodeState = .header → buf.length < HEADER_SIZE) :
    ∃ codec' buf', (codec.decodePayload c buf = (codec', buf', .ok none) ∧
        Expects cipher key final codec' buf' items rest ∧ Waits codec' buf') ∨
      ∃ item later, items = item :: later ∧
        codec.decodePayload c buf = (codec', buf', .ok (some item)) ∧
        Expects cipher key final codec' buf' later rest := by
  cases state : codec.decodeState with
  | header =>
    refine ⟨codec, buf, Or.inl ⟨?_, expects, ?_⟩⟩
    · rw [ApCodec.decodePayload, state]
    · rw [Waits, state]
      exact header state
  | payload cmd size =>
    by_cases enough : size + MAC_SIZE ≤ buf.length
    · obtain ⟨keyed, short, arrives⟩ := expects
      rw [state] at arrives
      obtain ⟨payload, later, body, last, rfl, length, decrypted, bytes, count⟩ := arrives
      have four := cipher.length_finish last
      obtain ⟨buf', rfl, bytes'⟩ := front_of_append bytes (by
        rw [List.length_append, four, length]
        exact enough)
      have kept := cipher.key_decrypt body codec.decodeCipher
      rw [decrypted] at kept
      refine ⟨_, buf', Or.inr ⟨(cmd, payload), later, rfl,
        decodePayload_arrived state length four buf' decrypted (cipher.checkMac_finish last), ?_⟩⟩
      refine ⟨?_, fun item inside => short item (by simp [inside]), bytes', count⟩
      rw [cipher.key_checkMac]
      exact kept.trans keyed
    · refine ⟨codec, buf, Or.inl ⟨?_, expects, ?_⟩⟩
      · rw [ApCodec.decodePayload, state]
        exact if_neg enough
      · rw [Waits, state]
        exact Nat.lt_of_not_le enough

theorem decode_expects :
    ∃ codec' buf', (codec.decode c buf = (codec', buf', .ok none) ∧
        Expects cipher key final codec' buf' items rest ∧ Waits codec' buf') ∨
      ∃ item later, items = item :: later ∧ codec.decode c buf = (codec', buf', .ok (some item)) ∧
        Expects cipher key final codec' buf' later rest := by
  obtain ⟨expects', header⟩ := decodeHeader_expects cipher expects
  exact decodePayload_expects cipher expects' header

end

theorem drain_none (decoded : codec.decode c buf = (codec', buf', .ok none)) :
    drain c codec buf = (codec', buf', [], none) := by
  rw [drain]
  split
  · rename_i same
    rw [decoded] at same
    cases same
    rfl
  · rename_i same
    rw [decoded] at same
    cases same
  · rename_i same
    rw [decoded] at same
    cases same

theorem drain_some (decoded : codec.decode c buf = (codec', buf', .ok (some item))) :
    drain c codec buf = ((drain c codec' buf').1, (drain c codec' buf').2.1,
      item :: (drain c codec' buf').2.2.1, (drain c codec' buf').2.2.2) := by
  rw [drain]
  split
  · rename_i same
    rw [decoded] at same
    cases same
  · rename_i same
    rw [decoded] at same
    cases same
  · rename_i same
    rw [decoded] at same
    cases same
    rfl

theorem drain_expects (expects : Expects cipher key final codec buf items rest) :
    ∃ codec' buf' done left, drain c codec buf = (codec', buf', done, none) ∧ items = done ++ left ∧
      Expects cipher key final codec' buf' left rest ∧ Waits codec' buf' := by
  induction length : buf.length using Nat.strongRecOn generalizing codec buf items with
  | ind n ih =>
    obtain ⟨codec', buf', ⟨decoded, expects', waits⟩ | ⟨item, later, rfl, decoded, expects'⟩⟩ :=
      decode_expects cipher expects
    · exact ⟨codec', buf', [], items, drain_none decoded, rfl, expects', waits⟩
    · obtain ⟨codec₁, buf₁, done, left, drained, rfl, expects₁, waits⟩ :=
        ih buf'.length (length ▸ decode_shorter decoded) expects' rfl
      refine ⟨codec₁, buf₁, item :: done, left, ?_, rfl, expects₁, waits⟩
      rw [drain_some decoded, drained]

/-- With all bytes there, a decoder that waits has nothing left to produce. -/
theorem waits_end (expects : Expects cipher key final codec buf items [])
    (waits : Waits codec buf) :
    items = [] ∧ buf = [] ∧ codec.decodeState = .header := by
  obtain ⟨-, -, bytes⟩ := expects
  rw [Waits] at waits
  cases state : codec.decodeState with
  | header =>
    rw [state, List.append_nil] at bytes
    rw [state] at waits
    cases items with
    | nil => exact ⟨rfl, bytes.1, rfl⟩
    | cons item later =>
      have length := congrArg List.length bytes.1
      rw [wire, packetBytes, List.length_append, List.length_append, cipher.length_encrypt,
        cipher.length_finish, plain] at length
      simp only [HEADER_SIZE, List.length_append, List.length_cons] at waits length
      omega
  | payload cmd size =>
    rw [state] at bytes waits
    obtain ⟨payload, later, body, last, -, size', -, bytes, -⟩ := bytes
    have length := congrArg List.length bytes
    simp only [List.length_append, cipher.length_finish, List.length_nil] at length
    simp only [MAC_SIZE] at waits
    omega

/-- The reader after some pieces of the input has what it had, and what the pieces complete. -/
theorem receive_expects (chunks : List Bytes) (done : List Item)
    (expects : Expects cipher key final codec buf items chunks.flatten) (waits : Waits codec buf) :
    ∃ codec', run (receive c) ⟨codec, buf, done, none⟩ chunks = ⟨codec', [], done ++ items, none⟩ ∧
      codec'.decodeState = .header ∧ codec'.decodeNonce = final := by
  induction chunks generalizing codec buf items done with
  | nil =>
    obtain ⟨rfl, rfl, state⟩ := waits_end cipher expects waits
    obtain ⟨-, -, bytes⟩ := expects
    rw [state] at bytes
    refine ⟨codec, by simp, state, ?_⟩
    simpa using bytes.2
  | cons chunk rest ih =>
    have more : Expects cipher key final codec (buf ++ chunk) items rest.flatten := by
      simpa only [Expects, List.flatten_cons, List.append_assoc] using expects
    obtain ⟨codec', buf', taken, left, drained, rfl, expects', waits'⟩ := drain_expects cipher more
    have received : receive c ⟨codec, buf, done, none⟩ chunk =
        ⟨codec', buf', done ++ taken, none⟩ := by
      simp only [receive, Option.isSome_none, Bool.false_eq_true, if_false, drained]
    rw [run_cons, received, ← List.append_assoc]
    exact ih (done ++ taken) expects' waits'

/-- Packets that were encoded one after the other come out of a decoder with the same key, in
whatever pieces their bytes arrive. -/
theorem packets_roundTrip (cipher : StreamCipher c) (key sendKey recvKey : Bytes)
    (items : List Item)
    (short : ∀ item ∈ items, item.2.length ≤ 65535) (chunks : List Bytes)
    (whole : chunks.flatten = ((ApCodec.new c key recvKey).encodeAll c items []).2) :
    ∃ codec, run (receive c) ⟨.new c sendKey key, [], [], none⟩ chunks = ⟨codec, [], items, none⟩ ∧
      codec.decodeState = .header ∧ codec.decodeNonce = UInt32.ofNat items.length ∧
      ((ApCodec.new c key recvKey).encodeAll c items []).1.encodeNonce =
      UInt32.ofNat items.length := by
  have keyed : cipher.key (ApCodec.new c key recvKey).encodeCipher = key := cipher.key_new key
  have zero : (0 : UInt32) + UInt32.ofNat items.length = UInt32.ofNat items.length :=
    UInt32.zero_add _
  obtain ⟨bytes, nonce⟩ := encodeAll_wire cipher keyed items []
  rw [bytes, List.nil_append] at whole
  have expects : Expects cipher key (UInt32.ofNat items.length) (.new c sendKey key) [] items
      chunks.flatten := ⟨cipher.key_new key, short, whole, zero⟩
  have waits : Waits (ApCodec.new c sendKey key) [] := Nat.zero_lt_succ 2
  obtain ⟨codec, received, state, final⟩ := receive_expects cipher chunks [] expects waits
  exact ⟨codec, received, state, final, nonce.trans zero⟩

section Examples

/-- A cipher that adds the low byte of the nonce to every byte. -/
def shift : Shannon (Bytes × UInt8) where
  new k := (k, 0)
  nonceU32 n s := (s.1, n.toUInt8)
  encrypt bytes s := (bytes.map (· + s.2), s)
  decrypt bytes s := (bytes.map (· - s.2), s)
  finish s := ([s.2, s.2, s.2, s.2], s)
  checkMac mac s := (mac == [s.2, s.2, s.2, s.2], s)

def shift_streamCipher : StreamCipher shift where
  key := Prod.fst
  key_new _ := rfl
  key_nonce _ _ := rfl
  key_encrypt _ _ := rfl
  key_decrypt _ _ := rfl
  key_finish _ := rfl
  key_checkMac _ _ := rfl
  reset n s t same := Prod.ext same rfl
  decrypt_append front back s := by simp [shift]
  length_encrypt bytes s := by simp [shift]
  length_decrypt bytes s := by simp [shift]
  decrypt_encrypt bytes s := by simp [shift, Function.comp_def]
  length_finish _ := rfl
  checkMac_finish s := by simp [shift]

/-- Two packets whose bytes arrive in three pieces, one of them with the end of the first packet
and the beginning of the second. -/
theorem twoPackets_roundTrip :
    ∃ codec, run (receive shift) ⟨.new shift [] [7], [], [], none⟩
        [[4, 0], [1, 9, 0, 0, 0, 0, 6], [1, 1, 1, 1, 1, 1]] =
        ⟨codec, [], [(4, [9]), (5, [])], none⟩ ∧
      codec.decodeState = .header ∧ codec.decodeNonce = 2 ∧
      ((ApCodec.new shift [7] []).encodeAll shift [(4, [9]), (5, [])] []).1.encodeNonce = 2 :=
  packets_roundTrip shift_streamCipher [7] [] [] [(4, [9]), (5, [])] (by decide)
    [[4, 0], [1, 9, 0, 0, 0, 0, 6], [1, 1, 1, 1, 1, 1]] (by decide)

end Examples

end AccessPoint
