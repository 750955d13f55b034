import Mathlib.Algebra.Ring.Nat
import SqueezeboxConnect.Mercury
import SqueezeboxConnect.Words

/-!
# Dispatching packets of the access point

Each packet has a command byte and a payload. The session looks at the command
and hands the payload to the manager it belongs to, which takes it apart with
`split_to` and plain indices. Whether a packet panics depends on the lengths in
it, and on what the managers wait for.

The clock, UTF-8, the XML reader and whether errors are logged are inputs. The
radio has 32-bit machine words. Reading XML ends at `Eof`. What is sent on a
channel is kept in order.
-/

namespace SessionDispatch

open ByteFields Outcomes Mercury Words

/-- How a call ends that does not return. -/
inductive Stop where
  | panic (p : Panic)
  /-- `exit(1)`. -/
  | exit
  deriving DecidableEq, Repr

inductive AudioKeyError where
  | aesKey
  | channel
  | packet (cmd : UInt8)
  | sequence (seq : Nat)
  deriving DecidableEq

inductive Failure where
  | packet (cmd : UInt8)
  | utf8
  | xml
  | channel
  | audioKey (e : AudioKeyError)
  | mercury (e : MercuryError)
  deriving DecidableEq

section AudioKeys

structure AudioKeyManager where
  pending : Nat → Option Callback
  /-- What was sent to the callbacks. -/
  delivered : List (Nat × Except AudioKeyError Bytes)

namespace AudioKeyManager

def send (a : AudioKeyManager) (sender : Callback) (message : Except AudioKeyError Bytes) :
    AudioKeyManager × Except AudioKeyError Unit :=
  if sender.connected then ({ a with delivered := a.delivered ++ [(sender.id, message)] }, .ok ())
  else (a, .error .channel)

/-- The first two bytes of an error packet are only looked at for the log. -/
def logError (logsErrors : Bool) (data : Bytes) : Except Panic Unit :=
  if logsErrors then (index data 0).bind fun _ => (index data 1).bind fun _ => .ok () else .ok ()

def dispatch (logsErrors : Bool) (a : AudioKeyManager) (cmd : PacketType) (data : Bytes) :
    Except Panic (AudioKeyManager × Except AudioKeyError Unit) :=
  (splitTo 4 data).bind fun (front, data) =>
    let seq := beNat front
    match a.pending seq with
    | none => .ok (a, .error (.sequence seq))
    | some sender =>
      let a := { a with pending := Function.update a.pending seq none }
      match cmd with
      | .aesKey => (array 16 data).bind fun key => .ok (a.send sender (.ok key))
      | .aesKeyError =>
        (logError logsErrors data).bind fun _ => .ok (a.send sender (.error .aesKey))
      | _ => .ok (a, .error (.packet cmd.code))

end AudioKeyManager

end AudioKeys

section Channels

/-- The sending half of a channel, with what was sent. -/
structure Channel where
  connected : Bool
  messages : List (UInt8 × Bytes)

structure ChannelManager where
  channels : Nat → Option Channel
  downloadRateEstimate : Nat
  /-- In nanoseconds. -/
  downloadMeasurementStart : Option Nat
  downloadMeasurementBytes : Nat

def ONE_SECOND : Nat := 1000000000

namespace ChannelManager

def elapsedMillis (start now : Nat) : Nat := (now - start) / 1000000 % usizeSize

def measure (c : ChannelManager) (now : Nat) : Except Panic ChannelManager :=
  match c.downloadMeasurementStart with
  | none => .ok { c with downloadMeasurementStart := some now }
  | some start =>
    if ONE_SECOND < now - start then
      if elapsedMillis start now = 0 then .error .division
      else .ok { c with
        downloadRateEstimate :=
          (1000 * c.downloadMeasurementBytes) % usizeSize / elapsedMillis start now
        downloadMeasurementStart := some now
        downloadMeasurementBytes := 0 }
    else .ok c

def dispatch (now : Nat) (c : ChannelManager) (cmd : PacketType) (data : Bytes) :
    Except Panic (ChannelManager × Except Unit Unit) :=
  (splitTo 2 data).bind fun (front, data) => (c.measure now).bind fun c =>
    let id := beNat front
    let c := { c with
      downloadMeasurementBytes := (c.downloadMeasurementBytes + data.length) % usizeSize }
    match c.channels id with
    | none => .ok (c, .ok ())
    | some channel =>
      if channel.connected then
        let channel := { channel with messages := channel.messages ++ [(cmd.code, data)] }
        .ok ({ c with channels := Function.update c.channels id (some channel) }, .ok ())
      else .ok (c, .error ())

end ChannelManager

end Channels

section ProductInfo

inductive XmlEvent where
  | start (element : Bytes)
  | ending
  /-- The text, if it can be decoded. -/
  | text (value : Option String)
  | other
  | error
  deriving DecidableEq

abbrev UserAttributes := String → Option String

/-- The attributes of the events before `Eof`; the element is that of the last start. -/
def readAttributes (utf8 : Bytes → Option String) :
    List XmlEvent → String → UserAttributes → Except Failure UserAttributes
  | [], _, attributes => .ok attributes
  | .start element :: rest, _, attributes =>
    match utf8 element with
    | none => .error .utf8
    | some element => readAttributes utf8 rest element attributes
  | .ending :: rest, _, attributes => readAttributes utf8 rest "" attributes
  | .text value :: rest, element, attributes =>
    if element = "" then readAttributes utf8 rest element attributes
    else
      match value with
      | none => .error .xml
      | some value => readAttributes utf8 rest element
        (Function.update attributes element (some value))
  | .other :: rest, element, attributes => readAttributes utf8 rest element attributes
  | .error :: rest, element, attributes => readAttributes utf8 rest element attributes

def checkCatalogue (attributes : UserAttributes) : Except Stop Unit :=
  match attributes "type" with
  | none => .ok ()
  | some accountType => if accountType ≠ "premium" then .error .exit else .ok ()

end ProductInfo

inductive KeepAliveState where
  | expectingPing
  | pendingPong
  | expectingPongAck
  deriving DecidableEq

/-- What a dispatch finds around it; times in nanoseconds, the system time in seconds. -/
structure Env where
  now : Nat
  systemTime : Nat
  logsErrors : Bool
  utf8 : Bytes → Option String
  xmlEvents : String → List XmlEvent
  mercury : Mercury.Env

structure Session where
  keepAliveState : KeepAliveState
  timeout : Nat
  timeDelta : Int
  country : String
  attributes : UserAttributes
  channel : ChannelManager
  audioKey : AudioKeyManager
  mercury : MercuryManager

def PING_TIMEOUT : Nat := 80000000000

def PONG_DELAY : Nat := 60000000000

abbrev Result := Except Failure Unit

/-- Put the outcome of a manager into the session. -/
def lift {Manager E : Type} (outcome : Except Panic (Manager × Except E Unit))
    (update : Manager → Session) (failure : E → Failure) : Except Stop (Session × Result) :=
  match outcome with
  | .error p => .error (.panic p)
  | .ok (manager, .ok ()) => .ok (update manager, .ok ())
  | .ok (manager, .error e) => .ok (update manager, .error (failure e))

namespace Session

def ping (env : Env) (s : Session) (data : Bytes) : Except Stop (Session × Result) :=
  let s := { s with keepAliveState := .pendingPong, timeout := env.now + PONG_DELAY }
  -- `BigEndian::read_u32` asks for four bytes.
  match slice data 0 4 with
  | .error p => .error (.panic p)
  | .ok word => .ok ({ s with timeDelta := (beNat word : Int) - env.systemTime }, .ok ())

def productInfo (env : Env) (s : Session) (data : Bytes) : Except Stop (Session × Result) :=
  match env.utf8 data with
  | none => .ok (s, .error .utf8)
  | some text =>
    match readAttributes env.utf8 (env.xmlEvents text) "" (fun _ => none) with
    | .error e => .ok (s, .error e)
    | .ok attributes =>
      (checkCatalogue attributes).bind fun _ => .ok ({ s with attributes := attributes }, .ok ())

def dispatch (env : Env) (s : Session) (cmd : UInt8) (data : Bytes) :
    Except Stop (Session × Result) :=
  match PacketType.fromU8 cmd with
  | none => .ok (s, .error (.packet cmd))
  | some type =>
    match type with
    | .ping => s.ping env data
    | .pongAck =>
      .ok ({ s with keepAliveState := .expectingPing, timeout := env.now + PING_TIMEOUT }, .ok ())
    | .countryCode =>
      match env.utf8 data with
      | none => .ok (s, .error .utf8)
      | some country => .ok ({ s with country := country }, .ok ())
    | .streamChunkRes | .channelError =>
      lift (s.channel.dispatch env.now type data) (fun c => { s with channel := c })
        fun _ => .channel
    | .aesKey | .aesKeyError =>
      lift (s.audioKey.dispatch env.logsErrors type data)
        (fun a => { s with audioKey := a }) .audioKey
    | .mercuryReq | .mercurySub | .mercuryUnsub | .mercuryEvent =>
      lift (s.mercury.dispatch env.mercury type data) (fun m => { s with mercury := m }) .mercury
    | .productInfo => s.productInfo env data
    | .secretBlock | .legacyWelcome | .unknownDataAllZeros | .licenseVersion => .ok (s, .ok ())
    | _ => .ok (s, .error (.packet type.code))

end Session

theorem lift_returns {Manager E : Type} {outcome : Except Panic (Manager × Except E Unit)}
    {update : Manager → Session} {failure : E → Failure} :
    Returns (lift outcome update failure) ↔ Returns outcome := by
  cases outcome with
  | error p => simp [lift]
  | ok result =>
    obtain ⟨manager, answer⟩ := result
    cases answer <;> simp [lift]

/-- The parts of a response that is complete, or of which nothing is known. -/
def HasHeader (flags : UInt8) (pending : MercuryPending) (parts : List Bytes) : Prop :=
  flags = 1 → pending.parts ≠ [] ∨ parts ≠ []

/-- A Mercury packet that is waited for has to be complete up to its last part. -/
def MercuryFormed (m : MercuryManager) (cmd : PacketType) (data : Bytes) : Prop :=
  ∃ seq flags count rest, seq.length < 65536 ∧ count < 65536 ∧
    data = field seq ++ [flags] ++ be16 count ++ rest ∧
    ∀ pending, m.awaited cmd seq = some pending → ∃ parts more, parts.length = count ∧
      (∀ part ∈ parts, part.length < 65536) ∧ rest = parts.flatMap field ++ more ∧
      HasHeader flags pending parts

/-- A key is 16 bytes long, and an error has a code that is written to the log. -/
def AudioKeyFormed (logsErrors : Bool) (a : AudioKeyManager) (cmd : PacketType) (data : Bytes) :
    Prop :=
  4 ≤ data.length ∧ ((a.pending (beNat (data.take 4))).isSome = true →
    (cmd = .aesKey → data.length = 20) ∧
    (cmd = .aesKeyError → logsErrors = true → 6 ≤ data.length))

/-- The rate can be measured unless the milliseconds are a multiple of the machine word. -/
def Measurable (c : ChannelManager) (now : Nat) : Prop :=
  ∀ start, c.downloadMeasurementStart = some start → ONE_SECOND < now - start →
    ChannelManager.elapsedMillis start now ≠ 0

/-- A list of attributes without an account type other than premium. -/
def Supported (env : Env) (data : Bytes) : Prop :=
  ∀ text, env.utf8 data = some text → ∀ attributes,
    readAttributes env.utf8 (env.xmlEvents text) "" (fun _ => none) = .ok attributes →
    ∀ accountType, attributes "type" = some accountType → accountType = "premium"

/-- The packets the session can take. -/
def WellFormed (env : Env) (s : Session) (cmd : UInt8) (data : Bytes) : Prop :=
  match PacketType.fromU8 cmd with
  | none => True
  | some type =>
    match type with
    | .ping => 4 ≤ data.length
    | .streamChunkRes | .channelError => 2 ≤ data.length ∧ Measurable s.channel env.now
    | .aesKey | .aesKeyError => AudioKeyFormed env.logsErrors s.audioKey type data
    | .mercuryReq | .mercurySub | .mercuryUnsub | .mercuryEvent => MercuryFormed s.mercury type data
    | .productInfo => Supported env data
    | _ => True

theorem addParts_hasHeader {flags : UInt8} (final : flags = 1) (pending : MercuryPending)
    (parts : List Bytes) :
    (pending.addParts flags parts).parts ≠ [] ↔ pending.parts ≠ [] ∨ parts ≠ [] := by
  induction parts generalizing pending with
  | nil => simp [MercuryPending.addParts]
  | cons part rest ih =>
    rw [MercuryPending.addParts, ih]
    subst final
    simp [MercuryPending.addPart]

theorem completeRequest_returns (env : Mercury.Env) (m : MercuryManager) (cmd : PacketType)
    (pending : MercuryPending) :
    Returns (m.completeRequest env cmd pending) ↔ pending.parts ≠ [] := by
  rw [MercuryManager.completeRequest]
  split
  · rename_i nothing
    simp [nothing]
  · rename_i headerData payload parts
    split <;> simp [parts]

theorem receive_returns (env : Mercury.Env) (m : MercuryManager) (cmd : PacketType) (seq : Bytes)
    (flags : UInt8) (count : Nat) (data : Bytes) :
    Returns (m.receive env cmd seq flags count data) ↔
      ∀ pending, m.awaited cmd seq = some pending → ∃ parts more, parts.length = count ∧
        (∀ part ∈ parts, part.length < 65536) ∧ data = parts.flatMap field ++ more ∧
        HasHeader flags pending parts := by
  rw [MercuryManager.receive]
  cases m.awaited cmd seq with
  | none => simp
  | some pending =>
    dsimp only
    rw [receiveParts_eq, returns_bind]
    constructor
    · rintro ⟨⟨pending', more⟩, received, returns⟩ _ ⟨⟩
      obtain ⟨⟨parts, more'⟩, read, added⟩ := ok_of_bind received
      obtain ⟨count, short, split⟩ := readFields_eq_ok.mp read
      cases added
      refine ⟨parts, more, count, short, split, ?_⟩
      intro final
      dsimp only at returns
      rw [if_pos final, completeRequest_returns] at returns
      exact (addParts_hasHeader final pending parts).mp returns
    · intro formed
      obtain ⟨parts, more, count, short, split, header⟩ := formed pending rfl
      rw [readFields_eq_ok.mpr ⟨count, short, split⟩]
      refine ⟨_, rfl, ?_⟩
      dsimp only
      split
      · rename_i final
        rw [completeRequest_returns]
        exact (addParts_hasHeader final pending parts).mpr (header final)
      · exact returns_ok _

theorem mercury_returns (env : Mercury.Env) (m : MercuryManager) (cmd : PacketType) (data : Bytes) :
    Returns (m.dispatch env cmd data) ↔ MercuryFormed m cmd data := by
  rw [MercuryManager.dispatch, returns_bind]
  constructor
  · rintro ⟨⟨seq, flags, count, rest⟩, head, returns⟩
    obtain ⟨short, below, split⟩ := readHead_eq_ok.mp head
    exact ⟨seq, flags, count, rest, short, below, split,
      (receive_returns env m cmd seq flags count rest).mp returns⟩
  · rintro ⟨seq, flags, count, rest, short, below, split, formed⟩
    exact ⟨(seq, flags, count, rest), readHead_eq_ok.mpr ⟨short, below, split⟩,
      (receive_returns env m cmd seq flags count rest).mpr formed⟩

theorem logError_returns (logsErrors : Bool) (data : Bytes) :
    Returns (AudioKeyManager.logError logsErrors data) ↔ (logsErrors = true → 2 ≤ data.length) := by
  rw [AudioKeyManager.logError]
  split
  · rename_i logs
    match data with
    | [] => simp [logs, index, Except.bind]
    | [_] => simp [logs, index, Except.bind]
    | _ :: _ :: rest => simp [index, Except.bind]
  · rename_i silent
    simp [silent]

theorem audioKey_returns (logsErrors : Bool) (a : AudioKeyManager) (cmd : PacketType)
    (data : Bytes) :
    Returns (a.dispatch logsErrors cmd data) ↔ AudioKeyFormed logsErrors a cmd data := by
  rw [AudioKeyManager.dispatch, AudioKeyFormed]
  by_cases enough : 4 ≤ data.length
  · have length : (data.drop 4).length = data.length - 4 := List.length_drop
    have cut : splitTo 4 data = .ok (data.take 4, data.drop 4) := if_pos enough
    rw [cut, Except.bind]
    dsimp only
    cases a.pending (beNat (data.take 4)) with
    | none => simp [enough]
    | some sender =>
      cases cmd with
      | aesKey =>
        dsimp only
        rw [returns_bind_ok, array_returns, length]
        simp only [Option.isSome_some, forall_const, reduceCtorEq, false_implies, and_true]
        omega
      | aesKeyError =>
        dsimp only
        rw [returns_bind_ok, logError_returns, length]
        simp only [Option.isSome_some, forall_const, reduceCtorEq, false_implies, true_and]
        cases logsErrors with
        | true => simp only [forall_const]; omega
        | false => simp [enough]
      | _ => simp [enough]
  · simp [splitTo, enough, Except.bind]

theorem measure_returns (c : ChannelManager) (now : Nat) :
    Returns (c.measure now) ↔ Measurable c now := by
  rw [ChannelManager.measure, Measurable]
  cases c.downloadMeasurementStart with
  | none => simp
  | some start =>
    dsimp only
    split
    · rename_i long
      split
      · rename_i zero
        simp [long, zero]
      · rename_i filled
        simp [filled]
    · rename_i short
      simp [short]

theorem channel_returns (now : Nat) (c : ChannelManager) (cmd : PacketType) (data : Bytes) :
    Returns (c.dispatch now cmd data) ↔ 2 ≤ data.length ∧ Measurable c now := by
  rw [ChannelManager.dispatch, returns_bind, ← measure_returns]
  constructor
  · rintro ⟨⟨front, rest⟩, cut, returns⟩
    obtain ⟨c', measured, -⟩ := returns_bind.mp returns
    exact ⟨splitTo_returns.mp ⟨_, cut⟩, c', measured⟩
  · rintro ⟨enough, c', measured⟩
    obtain ⟨⟨front, rest⟩, cut⟩ := splitTo_returns.mpr enough
    refine ⟨(front, rest), cut, returns_bind.mpr ⟨c', measured, ?_⟩⟩
    dsimp only
    split
    · exact returns_ok _
    · split
      · exact returns_ok _
      · exact returns_ok _

theorem ping_returns (env : Env) (s : Session) (data : Bytes) :
    Returns (s.ping env data) ↔ 4 ≤ data.length := by
  rw [Session.ping, slice]
  by_cases enough : 4 ≤ data.length
  · simp [enough]
  · simp [enough]

theorem productInfo_returns (env : Env) (s : Session) (data : Bytes) :
    Returns (s.productInfo env data) ↔ Supported env data := by
  rw [Session.productInfo, Supported]
  cases env.utf8 data with
  | none => simp
  | some text =>
    dsimp only
    cases read : readAttributes env.utf8 (env.xmlEvents text) "" (fun _ => none) with
    | error e => simp [read]
    | ok attributes =>
      dsimp only
      rw [returns_bind, checkCatalogue]
      cases type : attributes "type" with
      | none => simp [read, type]
      | some accountType =>
        by_cases premium : accountType = "premium"
        · simp [read, type, premium]
        · simp [read, type, premium]

/-- The session returns from exactly the packets that are well formed. -/
theorem dispatch_returns_iff (env : Env) (s : Session) (cmd : UInt8) (data : Bytes) :
    Returns (s.dispatch env cmd data) ↔ WellFormed env s cmd data := by
  rw [Session.dispatch, WellFormed]
  cases PacketType.fromU8 cmd with
  | none => simp
  | some type =>
    cases type with
    | ping => exact ping_returns env s data
    | streamChunkRes => exact lift_returns.trans (channel_returns ..)
    | channelError => exact lift_returns.trans (channel_returns ..)
    | aesKey => exact lift_returns.trans (audioKey_returns ..)
    | aesKeyError => exact lift_returns.trans (audioKey_returns ..)
    | mercuryReq => exact lift_returns.trans (mercury_returns ..)
    | mercurySub => exact lift_returns.trans (mercury_returns ..)
    | mercuryUnsub => exact lift_returns.trans (mercury_returns ..)
    | mercuryEvent => exact lift_returns.trans (mercury_returns ..)
    | productInfo => exact productInfo_returns env s data
    | countryCode =>
      dsimp only
      cases env.utf8 data <;> simp
    | _ => simp

/-- Nothing can be decoded, and errors are logged. -/
def idle : Env := ⟨0, 0, true, fun _ => none, fun _ => [], ⟨fun _ => none, fun _ => false⟩⟩

def fresh : Session where
  keepAliveState := .expectingPing
  timeout := 0
  timeDelta := 0
  country := ""
  attributes := fun _ => none
  channel := ⟨fun _ => none, 0, none, 0⟩
  audioKey := ⟨fun _ => none, []⟩
  mercury := ⟨fun _ => none, [], [], []⟩

/-- A ping without a time panics, and so does the only packet of an event without parts. -/
theorem shortPackets_panic :
    ¬ Returns (fresh.dispatch idle 0x04 []) ∧
      ¬ Returns (fresh.dispatch idle 0xb5 [0, 0, 1, 0, 0]) := by
  have ping : fresh.dispatch idle 0x04 [] = .error (.panic .slice) := rfl
  have event : fresh.dispatch idle 0xb5 [0, 0, 1, 0, 0] = .error (.panic .remove) := rfl
  rw [ping, event]
  exact ⟨not_returns_error _, not_returns_error _⟩

end SessionDispatch
