import SqueezeboxConnect.ByteReaders
import SqueezeboxConnect.Cursors

/-!
# The sequential CDN reader

A task fetches the file in requests of 64 KiB and sends each body through a
bounded channel; the reader copies from the channel into the caller's buffer.
The channel only makes one side wait for the other, so what the reader gets is
the list of messages the task sends, followed by the end of the channel if the
task ends. The answers of the CDN are inputs, one for each request.
-/

namespace StreamingAudio

open ByteReaders

def CHUNK : Nat := 64 * 1024

/-- `display` is the status as it is printed. -/
structure StatusCode where
  code : Nat
  display : String
  deriving DecidableEq

def StatusCode.isPartialContent (status : StatusCode) : Bool := status.code == 206

/-- What becomes of one request: the response and what collecting its body
gives, or one of the ways in which there is no response. -/
inductive CdnResult where
  | response (status : StatusCode) (body : Except String (List UInt8))
  | transport (e : String)
  | eof
  | request (e : String)

abbrev Message := Except String (List UInt8)

/-- What comes through the channel, and whether its end does. -/
structure Channel where
  messages : List Message
  closed : Bool

namespace Channel

/-- The task sends one more message before going on. -/
def push (message : Message) (rest : Channel) : Channel := ⟨message :: rest.messages, rest.closed⟩

/-- The task sends a message and ends. -/
def last (message : Message) : Channel := ⟨[message], true⟩

def ended : Channel := ⟨[], true⟩

def waiting : Channel := ⟨[], false⟩

end Channel

/-- The body of the request made at `offset`. An empty one ends the task. -/
def sendBody (offset : Nat) (body : Except String (List UInt8)) (next : Nat → Channel) : Channel :=
  match body with
  | .ok data => if data.isEmpty then .ended else .push (.ok data) (next (offset + data.length))
  | .error e => .last (.error e)

/-- The loop of the task, once the first response is used up. -/
def fetchLoop (total offset : Nat) (results : List CdnResult) : Channel :=
  if total ≤ offset then .ended
  else match results with
    | [] => .waiting
    | .response status body :: rest =>
      if status.isPartialContent then
        sendBody offset body (fun offset => fetchLoop total offset rest)
      else .last (.error ("streaming CDN status " ++ status.display))
    | .transport e :: _ => .last (.error e)
    | .eof :: _ => .last (.error "streaming CDN EOF")
    | .request e :: _ => .last (.error e)

/-- The task from its start; the status of the first response has been checked. -/
def fetch (total : Nat) (first : Except String (List UInt8)) (results : List CdnResult) : Channel :=
  sendBody 0 first (fun offset => fetchLoop total offset results)

/-- The first response with the answers to the later requests. -/
def answers (first : Except String (List UInt8)) (results : List CdnResult) : List CdnResult :=
  .response ⟨206, "206 Partial Content"⟩ first :: results

theorem fetch_eq {total : Nat} (positive : 0 < total) (first : Except String (List UInt8))
    (results : List CdnResult) :
    fetch total first results = fetchLoop total 0 (answers first results) := by
  have before : ¬ total ≤ 0 := by omega
  conv => rhs; unfold fetchLoop
  rw [if_neg before]
  rfl

structure SequentialAudio where
  rx : Channel
  current : Option (List UInt8 × Nat)
  position : Nat
  fileSize : Nat

namespace SequentialAudio

def «open» (total : Nat) (first : Except String (List UInt8)) (results : List CdnResult) :
    SequentialAudio :=
  ⟨fetch total first results, none, 0, total⟩

/-- Copy what fits from the current chunk. -/
def copyCurrent (a : SequentialAudio) (size : Nat) (copied : List UInt8) :
    List UInt8 × SequentialAudio :=
  match a.current with
  | none => (copied, a)
  | some (data, pos) =>
    let n := min (size - copied.length) (data.length - pos)
    (copied ++ (data.drop pos).take n,
      { a with current := some (data, pos + n), position := a.position + n })

/-- The loop of `read` when the current chunk is used up or the buffer is full:
each round receives one chunk and copies from it. -/
def readLoop (size : Nat) (closed : Bool) (messages : List Message) (copied : List UInt8)
    (a : SequentialAudio) : Option (Except String (List UInt8) × SequentialAudio) :=
  if copied.length < size then
    match messages with
    | [] => if closed then some (.ok copied, { a with rx := ⟨[], closed⟩ }) else none
    | .error e :: rest => some (.error e, { a with rx := ⟨rest, closed⟩ })
    | .ok data :: rest =>
      let (copied, a) := copyCurrent { a with current := some (data, 0) } size copied
      readLoop size closed rest copied a
  else some (.ok copied, { a with rx := ⟨messages, closed⟩ })

def read (a : SequentialAudio) (size : Nat) :
    Option (Except String (List UInt8) × SequentialAudio) :=
  if size = 0 then some (.ok [], a)
  else
    let (copied, a') := copyCurrent a size []
    readLoop size a.rx.closed a.rx.messages copied a'

instance : Reader SequentialAudio String UInt8 := ⟨read⟩

/-- Only the place where the reader is can be asked for. -/
def seek (a : SequentialAudio) : Cursors.SeekFrom → Except String Nat
  | .current d =>
    if d = 0 then .ok a.position else .error "streaming-only mode does not support seek"
  | _ => .error "streaming-only mode does not support seek"

/-- The part of the current chunk that has not been copied. -/
def unread (a : SequentialAudio) : List UInt8 :=
  match a.current with
  | none => []
  | some (data, pos) => data.drop pos

/-- What successful reads will return before a failure is met. -/
def left (a : SequentialAudio) : List UInt8 := a.unread ++ untilError a.rx.messages

end SequentialAudio

def isError : Message → Bool
  | .ok _ => false
  | .error _ => true

/-- One of the messages is a failure. -/
def fails (messages : List Message) : Bool := messages.any isError

open SequentialAudio

/-- The first failure, with the messages behind it. -/
def firstFailure : List Message → Option (String × List Message)
  | [] => none
  | .ok _ :: rest => firstFailure rest
  | .error e :: rest => some (e, rest)

theorem fails_eq (messages : List Message) : fails messages = (firstFailure messages).isSome := by
  induction messages with
  | nil => rfl
  | cons message rest ih =>
    cases message with
    | ok data => exact ih
    | error e => rfl

theorem copyCurrent_spec (a : SequentialAudio) (size : Nat) (copied : List UInt8)
    (fits : copied.length ≤ size) :
    let r := copyCurrent a size copied
    r.1.length ≤ size ∧ copied ++ a.unread = r.1 ++ r.2.unread ∧
      (r.1.length = size ∨ r.2.unread = []) ∧
      r.2.position + copied.length = a.position + r.1.length := by
  unfold copyCurrent
  cases hc : a.current with
  | none => exact ⟨fits, rfl, Or.inr (by simp [unread, hc]), rfl⟩
  | some chunk =>
    obtain ⟨data, pos⟩ := chunk
    have split := List.take_append_drop
      (min (size - copied.length) (data.length - pos)) (data.drop pos)
    refine ⟨?_, ?_, ?_, ?_⟩
    · simp only [List.length_append, List.length_take, List.length_drop]
      omega
    · simp only [unread, hc, List.append_assoc]
      rw [← List.drop_drop, split]
    · simp only [unread, List.length_append, List.length_take, List.length_drop,
        List.drop_eq_nil_iff]
      omega
    · simp only [List.length_append, List.length_take, List.length_drop]
      omega

/-- What a successful read has done to the reader. -/
structure ReadOk (size : Nat) (rest : List UInt8) (failing closed : Bool) (bytes : List UInt8)
    (a : SequentialAudio) : Prop where
  length_le : bytes.length ≤ size
  taken : rest = bytes ++ a.left
  failing_eq : fails a.rx.messages = failing
  closed_eq : a.rx.closed = closed
  /-- A short read has come to the end of the channel. -/
  short : bytes.length < size → closed = true ∧ failing = false ∧ a.left = []

/-- What a read comes to that began at a position, with the bytes before a failure. -/
def Outcome (size origin : Nat) (rest : List UInt8) (messages : List Message) (closed : Bool) :
    Option (Except String (List UInt8) × SequentialAudio) → Prop
  | none => closed = false ∧ firstFailure messages = none
  | some (.ok bytes, a) =>
    ReadOk size rest (fails messages) closed bytes a ∧ a.position = origin + bytes.length
  | some (.error e, a) => rest.length < size ∧ a.position = origin + rest.length ∧ a.unread = [] ∧
    firstFailure messages = some (e, a.rx.messages) ∧ a.rx.closed = closed

variable {a a' : SequentialAudio}

theorem readLoop_spec {size origin : Nat} (closed : Bool) (messages : List Message)
    {copied : List UInt8} (fits : copied.length ≤ size)
    (usedUp : copied.length = size ∨ a.unread = [])
    (counted : a.position = origin + copied.length) :
    Outcome size origin (copied ++ a.unread ++ untilError messages) messages closed
      (readLoop size closed messages copied a) := by
  induction messages generalizing copied a with
  | nil =>
    unfold readLoop
    by_cases room : copied.length < size
    · have empty := usedUp.resolve_left (by omega)
      rw [if_pos room]
      cases closed with
      | false => exact ⟨rfl, rfl⟩
      | true =>
        have nothing : ({ a with rx := ⟨[], true⟩ } : SequentialAudio).left = [] := by
          simpa [left, untilError, unread] using empty
        refine ⟨⟨fits, ?_, rfl, rfl, fun _ => ⟨rfl, rfl, nothing⟩⟩, counted⟩
        simp [nothing, empty, untilError]
    · rw [if_neg room]
      exact ⟨⟨fits, by simp [left, unread], rfl, rfl, fun short => absurd short room⟩, counted⟩
  | cons message rest ih =>
    unfold readLoop
    by_cases room : copied.length < size
    · have empty := usedUp.resolve_left (by omega)
      rw [if_pos room, empty, List.append_nil]
      cases message with
      | error e =>
        rw [untilError, List.append_nil]
        exact ⟨room, counted, empty, rfl, rfl⟩
      | ok data =>
        obtain ⟨fits', same, usedUp', counted'⟩ :=
          copyCurrent_spec { a with current := some (data, 0) } size copied fits
        have result := ih fits' usedUp' (by dsimp only at counted'; omega)
        have chunk : ({ a with current := some (data, 0) } : SequentialAudio).unread = data := by
          simp [unread]
        rw [← same, chunk, List.append_assoc] at result
        exact result
    · rw [if_neg room]
      exact ⟨⟨fits, by simp [left, unread], rfl, rfl, fun short => absurd short room⟩, counted⟩

theorem read_spec (a : SequentialAudio) (size : Nat) :
    Outcome size a.position a.left a.rx.messages a.rx.closed (read a size) := by
  unfold SequentialAudio.read
  by_cases zero : size = 0
  · rw [if_pos zero]
    refine ⟨⟨Nat.zero_le _, rfl, rfl, rfl, fun short => ?_⟩, rfl⟩
    subst zero
    cases short
  · rw [if_neg zero]
    obtain ⟨fits, same, usedUp, counted⟩ := copyCurrent_spec a size [] (Nat.zero_le _)
    have result := readLoop_spec a.rx.closed a.rx.messages fits usedUp counted
    rw [← same, List.nil_append] at result
    exact result

theorem read_ok {size : Nat} {bytes : List UInt8} (h : read a size = some (.ok bytes, a')) :
    ReadOk size a.left (fails a.rx.messages) a.rx.closed bytes a' := by
  have outcome := read_spec a size
  rw [h] at outcome
  exact outcome.1

theorem left_tracked : Tracks (fun (a : SequentialAudio) rest => a.left <+: rest) := by
  rintro a rest size bytes a' ⟨more, rfl⟩ h
  have result := read_ok h
  refine ⟨result.length_le, a'.left ++ more, ?_, List.prefix_append _ _⟩
  rw [result.taken, List.append_assoc]

/-- A read waits only for a task that has not ended, and fails only on a failure. -/
theorem read_returns (size : Nat) (closed : a.rx.closed = true)
    (sound : fails a.rx.messages = false) : ∃ bytes a', read a size = some (.ok bytes, a') := by
  have outcome := read_spec a size
  rw [fails_eq] at sound
  rcases h : read a size with _ | ⟨e | bytes, a'⟩
  · rw [h] at outcome
    exact absurd (outcome.1.symm.trans closed) (by decide)
  · rw [h] at outcome
    rw [outcome.2.2.2.1] at sound
    cases sound
  · exact ⟨bytes, a', rfl⟩

theorem read_error {size : Nat} {e : String} (h : read a size = some (.error e, a')) :
    fails a.rx.messages = true := by
  have outcome := read_spec a size
  rw [h] at outcome
  rw [fails_eq, outcome.2.2.2.1]
  rfl

/-- A read with a failure ahead: it fills the buffer, or it fails having copied everything before
the failure. -/
theorem read_ahead (size : Nat) (ahead : fails a.rx.messages = true) :
    (∃ bytes a', read a size = some (.ok bytes, a') ∧ bytes.length = size ∧
        a.left = bytes ++ a'.left ∧ a'.position = a.position + size ∧
        fails a'.rx.messages = true) ∨
      ∃ e a', read a size = some (.error e, a') ∧ a.left.length < size ∧
        a'.position = a.position + a.left.length ∧ a'.unread = [] ∧
        firstFailure a.rx.messages = some (e, a'.rx.messages) ∧ a'.rx.closed = a.rx.closed := by
  have outcome := read_spec a size
  rcases h : read a size with _ | ⟨e | bytes, a'⟩
  · rw [h] at outcome
    rw [fails_eq, outcome.2] at ahead
    cases ahead
  · rw [h] at outcome
    exact .inr ⟨e, a', rfl, outcome⟩
  · rw [h] at outcome
    obtain ⟨result, position⟩ := outcome
    have full : bytes.length = size := by
      by_contra short
      have failing := (result.short (Nat.lt_of_le_of_ne result.length_le short)).2.1
      rw [ahead] at failing
      cases failing
    rw [full] at position
    exact .inl ⟨bytes, a', rfl, full, result.taken, position, result.failing_eq.trans ahead⟩

/-- The reads before a clean end of file, when none of them failed. -/
theorem clean_end {sizes : List Nat} {front back : List (Except String (List UInt8))}
    (positive : ∀ size ∈ sizes, 0 < size) (h : reads a sizes = front ++ .ok [] :: back)
    (sound : ∀ e, .error e ∉ front) :
    a.left = returned front ∧ a.rx.closed = true ∧ fails a.rx.messages = false := by
  induction front generalizing a sizes with
  | nil =>
    obtain ⟨size, sizes, a', rfl, hread, -⟩ := reads_eq_cons h
    have result := read_ok hread
    obtain ⟨closed, failing, nothing⟩ := result.short (positive size (by simp))
    exact ⟨by rw [result.taken, nothing]; rfl, closed, failing⟩
  | cons outcome front ih =>
    obtain ⟨size, sizes, a', rfl, hread, rest⟩ := reads_eq_cons h
    cases outcome with
    | error e => exact absurd (by simp) (sound e)
    | ok bytes =>
      have result := read_ok hread
      obtain ⟨taken, closed, failing⟩ := ih (fun n hn => positive n (by simp [hn])) rest
        (fun e he => sound e (by simp [he]))
      rw [result.closed_eq] at closed
      rw [result.failing_eq] at failing
      refine ⟨?_, closed, failing⟩
      rw [result.taken, taken]
      simp [returned]

theorem reads_sound (sizes : List Nat) (sound : fails a.rx.messages = false) (e : String) :
    .error e ∉ reads a sizes := by
  induction sizes generalizing a with
  | nil => simp [reads]
  | cons size sizes ih =>
    simp only [reads]
    cases hread : Reader.read a size with
    | none => simp
    | some r =>
      obtain ⟨outcome, a'⟩ := r
      cases outcome with
      | error e' => rw [read_error hread] at sound; cases sound
      | ok bytes =>
        have failing := (read_ok hread).failing_eq.trans sound
        simpa using ih failing

theorem untilError_chunks (chunks : List (List UInt8)) (e : String) :
    untilError (chunks.map .ok ++ [.error e]) = chunks.flatten := by
  induction chunks with
  | nil => rfl
  | cons data chunks ih =>
    rw [List.map_cons, List.cons_append, untilError, ih]
    rfl

theorem firstFailure_chunks (chunks : List (List UInt8)) (e : String) :
    firstFailure (chunks.map .ok ++ [.error e]) = some (e, []) := by
  induction chunks with
  | nil => rfl
  | cons data chunks ih => exact ih

/-- A read that comes across the last message, a failure. -/
theorem read_failing (size : Nat) {chunks : List (List UInt8)} {e : String}
    (messages : a.rx = ⟨chunks.map .ok ++ [.error e], true⟩) (usedUp : a.unread = [])
    (large : chunks.flatten.length < size) :
    ∃ a', read a size = some (.error e, a') ∧ a'.left = [] ∧ a'.rx = ⟨[], true⟩ := by
  have left : a.left = chunks.flatten := by
    rw [SequentialAudio.left, usedUp, messages, untilError_chunks, List.nil_append]
  have first : firstFailure a.rx.messages = some (e, []) := by
    rw [messages, firstFailure_chunks]
  rcases read_ahead size (by rw [fails_eq, first]; rfl) with ⟨bytes, a', _, full, taken, _⟩ |
    ⟨e', a', h, -, -, empty, failed, closed⟩
  · rw [← left, taken, List.length_append] at large
    omega
  · rw [first] at failed
    obtain ⟨rfl, nothing⟩ := Prod.mk.inj (Option.some.inj failed)
    have rx : a'.rx = ⟨[], true⟩ := by
      rw [nothing, show true = a'.rx.closed by rw [closed, messages]]
    exact ⟨a', h, by rw [SequentialAudio.left, empty, rx]; rfl, rx⟩

end StreamingAudio
