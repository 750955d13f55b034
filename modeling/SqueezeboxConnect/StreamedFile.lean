import SqueezeboxConnect.DownloadRuns
import SqueezeboxConnect.Cursors

/-!
# Reading a file while it is downloaded

`AudioFileStreaming` reads the file the fetch writes. A read waits until its first
byte is there and returns what is there from it on; a seek asks the file, except
where it takes the position asked for to be the present one. The fetch goes on
between the calls and while a read waits. What is compared is a cursor over the
complete file, which moves by the bytes a read returns.
-/

namespace StreamedFile

open AudioRanges AudioFetch DownloadRuns Cursors Runs Words

structure Setting extends Environment where
  file : Nat → UInt8
  /-- The number of positions the file system accepts in a seek. -/
  limit : Nat
  /-- The bytes that are asked for beyond a read in streaming mode. -/
  readAhead : Nat
  fileSize_lt : fileSize < word
  fileSize_lt_limit : fileSize < limit
  limit_le : limit ≤ 2 ^ 63

structure AudioFileStreaming where
  shared : State
  /-- The bytes of the temporary file, also when the fetch has handed it over. -/
  disk : Nat → UInt8
  /-- The position of `read_file`. -/
  readFile : Nat
  position : Nat

/-- What the fetch writes to the temporary file in a step. -/
def written (s : State) : Event → Option (Nat × Bytes)
  | .message io =>
    match s.phase, s.queue, s.output with
    | .select, .data part :: _, some _ =>
      some (part.offset, part.data.take (io.failsAt.getD part.data.length))
    | _, _, _ => none
  | _ => none

namespace AudioFileStreaming

variable (env : Setting)

/-- The file behind `open`, with nothing read. -/
def opened (initialRequest : Range) : AudioFileStreaming :=
  { shared := start env.toEnvironment initialRequest
    disk := fun _ => 0
    readFile := 0
    position := 0 }

variable (f : AudioFileStreaming)

def progress (event : Event) : AudioFileStreaming :=
  { f with
    shared := AudioFetch.step env.toEnvironment f.shared event
    disk := match written f.shared event with
      | some (offset, data) => write f.disk offset data
      | none => f.disk }

def lengthToRequest (offset length : Nat) : Nat :=
  if f.shared.downloadStreaming then
    min (wrappingAdd env.word length env.readAhead) (env.fileSize - offset)
  else length

/-- The ranges a read asks the fetch for. -/
def rangesToRequest (offset length : Nat) : RangeSet :=
  let ranges := addRange env.word ⟨offset, f.lengthToRequest env offset length⟩ []
  let ranges := subtractRangeSet env.word ranges f.shared.downloaded
  subtractRangeSet env.word ranges f.shared.requested

def setReadPosition (position : Nat) : AudioFileStreaming :=
  { f with shared := { f.shared with readPosition := position % env.word } }

/-- The position of the file becomes the position of the reader, which is shared. -/
def movedTo (position : Nat) : AudioFileStreaming :=
  setReadPosition env { f with readFile := position, position := position } position

def setDownloadStreaming (streaming : Bool) : AudioFileStreaming :=
  { f with shared := { f.shared with downloadStreaming := streaming } }

/-- The end of a read, when the byte at `offset` is there. The file gives at most `short + 1`
bytes at once. -/
def readAvailable (offset length short : Nat) : Option (List UInt8) × AudioFileStreaming :=
  match accepted env.limit offset with
  | none => (none, f)
  | some position =>
    let availableLength := containedLengthFromValue env.word f.shared.downloaded offset
    let readLen := min (min length availableLength) (short + 1)
    (some (bodyOf f.disk offset readLen), f.movedTo env (position + readLen))

/-- `none` is a failure: the fetch has ended, or the wait has timed out. The events are those
of the fetch while the read waits. -/
def read (size : Nat) (waiting : List Event) (short : Nat) :
    Option (List UInt8) × AudioFileStreaming :=
  let offset := f.position % env.word
  if env.fileSize ≤ offset then (some [], f)
  else
    let length := min size (env.fileSize - offset)
    if length = 0 then (some [], f)
    else if f.shared.phase = .stopped ∧ f.rangesToRequest env offset length ≠ [] then (none, f)
    else
      let f := run (progress env) f waiting
      if contains env.word f.shared.downloaded offset then f.readAvailable env offset length short
      else (none, f)

def requestedPos : SeekFrom → Int64
  | .start n => n.toInt64
  | .end d => Int64.ofNat env.fileSize - d - 1
  | .current d => Int64.ofNat f.position + d

/-- The seek of the file itself; a failure leaves the download mode as it was set for it. -/
def seekFile (pos : SeekFrom) (available : Bool) : Option Nat × AudioFileStreaming :=
  let wasStreaming := !available && f.shared.downloadStreaming
  let f := if wasStreaming then f.setDownloadStreaming false else f
  match accepted env.limit (pos.target env.fileSize f.readFile) with
  | none => (none, f)
  | some position =>
    let f := f.movedTo env position
    (some position, if wasStreaming then f.setDownloadStreaming true else f)

def seek (pos : SeekFrom) : Option Nat × AudioFileStreaming :=
  let requested := f.requestedPos env pos
  if requested = Int64.ofNat f.position then (some (Int64.ofNat f.position).toUInt64.toNat, f)
  else
    f.seekFile env pos
      (contains env.word f.shared.downloaded (requested.toUInt64.toNat % env.word))

end AudioFileStreaming

open AudioFileStreaming

section Fetching

variable {env : Setting} {s : State} {event : Event}

/-- What a step of the fetch does to the data that a reader sees. -/
structure Advances (env : Environment) (s : State) (event : Event) (s' : State) : Prop where
  readPosition_eq : (∀ position, event ≠ .setReadPosition position) →
    s'.readPosition = s.readPosition
  parts : ∀ part, ReceivedData.data part ∈ s'.queue → ReceivedData.data part ∈ s.queue ∨
    ∃ i elapsed r, event = .receiver i (.respond elapsed (.partialContent part.data)) ∧
      s.receivers[i]? = some r ∧ part.offset = r.offset
  downloaded_eq : s'.downloaded = s.downloaded ∨
    ∃ part, ReceivedData.data part ∈ s.queue ∧ written s event = some (part.offset, part.data) ∧
      s'.downloaded = addRange env.word part.range s.downloaded

theorem advances_still {s' : State} (position : s'.readPosition = s.readPosition)
    (queue : ∀ part, ReceivedData.data part ∈ s'.queue → ReceivedData.data part ∈ s.queue)
    (downloaded : s'.downloaded = s.downloaded) : Advances env.toEnvironment s event s' :=
  ⟨fun _ => position, fun part inside => .inl (queue part inside), .inl downloaded⟩

theorem receiverStep_advances {i : Nat} {r : Receiver} (found : s.receivers[i]? = some r)
    (action : ReceiverAction) :
    Advances env.toEnvironment s (.receiver i action)
      (receiverStep env.toEnvironment s i r action) := by
  have moves := receiverStep_moves env.toEnvironment s i r action
  generalize receiverStep env.toEnvironment s i r action = s' at moves
  cases moves with
  | idle | giveBack _ | leave _ => exact advances_still rfl (fun _ => id) rfl
  | quiet _ _ _ silent =>
    refine advances_still rfl (fun part inside => ?_) rfl
    rcases List.mem_append.mp inside with old | new
    · exact old
    · exact absurd new (silent_parts silent part)
  | @body elapsed data _ =>
    refine ⟨fun _ => rfl, fun part inside => ?_, .inl rfl⟩
    rcases List.mem_append.mp inside with old | new
    · exact .inl old
    · obtain ⟨messages, r', shape, silent, -⟩ := respond_body env.word r elapsed data
      rw [shape] at new
      rcases List.mem_append.mp new with early | last
      · exact absurd early (silent_parts silent part)
      · cases List.mem_singleton.mp last
        exact .inr ⟨i, elapsed, r, rfl, found, rfl⟩

theorem message_advances {io : Io} {message : ReceivedData} {rest : List ReceivedData}
    (select : s.phase = .select) (queue : s.queue = message :: rest) :
    Advances env.toEnvironment s (.message io)
      (handleFileData env.toEnvironment { s with queue := rest } io message) := by
  have later : ∀ part, ReceivedData.data part ∈ rest → ReceivedData.data part ∈ s.queue :=
    fun part inside => by rw [queue]; exact List.mem_cons_of_mem _ inside
  cases message with
  | throughput bytes => exact advances_still rfl later rfl
  | responseTime duration => exact advances_still rfl later rfl
  | data part =>
    simp only [handleFileData, handlePart]
    cases output : s.output with
    | none => exact advances_still rfl later rfl
    | some out =>
      cases fails : io.failsAt with
      | some n => exact advances_still rfl later rfl
      | none =>
        have write : written s (.message io) = some (part.offset, part.data) := by
          simp [written, select, queue, output, fails]
        have grown : ∀ s' : State, s'.readPosition = s.readPosition → s'.queue = rest →
            s'.downloaded = addRange env.word part.range s.downloaded →
            Advances env.toEnvironment s (.message io) s' := by
          intro s' position queue' downloaded
          refine ⟨fun _ => position, fun other inside => .inl (later other (queue' ▸ inside)), ?_⟩
          exact .inr ⟨part, by rw [queue]; exact List.mem_cons_self, write, downloaded⟩
        simp only
        split
        · exact grown _ rfl rfl rfl
        · exact grown _ rfl rfl rfl

theorem step_advances : Advances env.toEnvironment s event
    (AudioFetch.step env.toEnvironment s event) := by
  have still : Advances env.toEnvironment s event s := advances_still rfl (fun _ => id) rfl
  unfold AudioFetch.step
  split
  · exact still
  · exact advances_still rfl (fun _ => id) rfl
  · exact ⟨fun other => absurd rfl (other _), fun _ => .inl, .inl rfl⟩
  · split
    · exact still
    · rename_i r found
      exact receiverStep_advances found _
  · exact advances_still rfl (fun _ => id) rfl
  · exact advances_still rfl (fun _ => id) rfl
  · rename_i select
    split
    · exact still
    · rename_i message rest queue
      exact message_advances select queue
  · simp only [checkPending]
    repeat' split
    all_goals exact advances_still rfl (fun _ => id) rfl
  · exact advances_still rfl (fun _ => id) rfl
  · exact still

end Fetching

variable (env : Setting)

/-- The server sends bytes of the file; only the reader itself sets its position. -/
def Served (s : State) : Event → Prop
  | .receiver i (.respond _ (.partialContent data)) => ∀ r, s.receivers[i]? = some r →
      r.offset + data.length ≤ env.fileSize ∧ Genuine env.file r.offset data
  | .setReadPosition _ => False
  | _ => True

/-- The bytes that are there, or about to be, are those of the file. -/
structure Genuinely (env : Setting) (f : AudioFileStreaming) : Prop where
  sorted : Sorted env.word 0 f.shared.downloaded
  disk_eq : ∀ p, Covers f.shared.downloaded p → f.disk p = env.file p
  parts : ∀ part, ReceivedData.data part ∈ f.shared.queue →
    part.offset + part.data.length ≤ env.fileSize ∧ Genuine env.file part.offset part.data

section Progress

variable {env : Setting} {f : AudioFileStreaming}

theorem progress_disk (genuinely : Genuinely env f) {event : Event} {p : Nat}
    (right : f.disk p = env.file p) : (progress env f event).disk p = env.file p := by
  simp only [progress]
  cases write : written f.shared event with
  | none => exact right
  | some part =>
    obtain ⟨offset, data⟩ := part
    simp only [written] at write
    split at write
    · split at write
      · rename_i part rest out _ queue _
        cases write
        have inside := genuinely.parts part (by rw [queue]; exact List.mem_cons_self)
        exact write_genuine (genuine_take inside.2 _) fun _ => right
      · cases write
    · cases write

theorem progress_genuinely (genuinely : Genuinely env f) {event : Event}
    (served : Served env f.shared event) : Genuinely env (progress env f event) := by
  have advances : Advances env.toEnvironment f.shared event (progress env f event).shared :=
    step_advances
  refine ⟨?_, ?_, ?_⟩
  · rcases advances.downloaded_eq with same | ⟨part, queued, -, grown⟩
    · exact same ▸ genuinely.sorted
    · have fits : part.range.Fits env.word :=
        Nat.lt_of_le_of_lt (genuinely.parts part queued).1 env.fileSize_lt
      exact grown ▸ (addRange_spec genuinely.sorted (Nat.zero_le _) fits).1
  · intro p covered
    rcases advances.downloaded_eq with same | ⟨part, queued, write, grown⟩
    · exact progress_disk genuinely (genuinely.disk_eq p (same ▸ covered))
    · have inside := genuinely.parts part queued
      have fits : part.range.Fits env.word := Nat.lt_of_le_of_lt inside.1 env.fileSize_lt
      have covers := (addRange_spec genuinely.sorted (Nat.zero_le _) fits).2
      simp only [progress, write]
      exact write_downloaded inside.2 genuinely.disk_eq covers p (grown ▸ covered)
  · intro part inside
    rcases advances.parts part inside with old | ⟨i, elapsed, r, rfl, found, offset⟩
    · exact genuinely.parts part old
    · rw [offset]
      exact served r found

theorem progress_frame {event : Event} (served : Served env f.shared event) :
    (progress env f event).shared.readPosition = f.shared.readPosition ∧
      (progress env f event).position = f.position ∧
      (progress env f event).readFile = f.readFile := by
  have advances : Advances env.toEnvironment f.shared event (progress env f event).shared :=
    step_advances
  refine ⟨advances.readPosition_eq ?_, rfl, rfl⟩
  rintro position rfl
  exact served

end Progress

inductive Op where
  | progress (event : Event)
  | read (size : Nat) (waiting : List Event) (short : Nat)
  | seek (pos : SeekFrom)

variable (s : AudioFileStreaming × Cursor UInt8)

/-- One operation, and what it is for the cursor over the complete file. -/
def step :
    Op → AudioFileStreaming × Cursor UInt8
  | .progress event => (progress env s.1 event, s.2)
  | .read size waiting short =>
    let (bytes, f) := s.1.read env size waiting short
    (f, (s.2.read (bytes.getD []).length).2)
  | .seek pos => ((s.1.seek env pos).2, (s.2.seek env.limit pos).2)

/-- The download does not fail: bodies are served, and a read gets its first byte in time. -/
def Sound : Op → Prop
  | .progress event => Served env s.1.shared event
  | .read size waiting _ =>
    let offset := s.1.position % env.word
    let length := min size (env.fileSize - offset)
    Along (progress env) (fun f event => Served env f.shared event) s.1 waiting ∧
      (0 < length →
        (s.1.shared.phase = .stopped → s.1.rangesToRequest env offset length = []) ∧
          contains env.word (run (progress env) s.1 waiting).shared.downloaded offset = true)
  | .seek _ => True

/-- A seek returns what the cursor does, a read a part of what the cursor does, which is only
empty if there is nothing to read; and the shared position is that of the cursor. -/
def LikeFile (op : Op) : Prop :=
  (step env s op).1.shared.readPosition = (step env s op).2.pos ∧
    match op with
    | .progress _ => True
    | .read size waiting short => ∃ bytes, (s.1.read env size waiting short).1 = some bytes ∧
        bytes <+: (s.2.read size).1 ∧ (bytes = [] → (s.2.read size).1 = [])
    | .seek pos => (s.1.seek env pos).1 = (s.2.seek env.limit pos).1

/-- A seek from the end is not mistaken for one to the present position, and no seek goes
where a `usize` does not reach. -/
def Harmless : Op → Prop
  | .seek pos =>
    (∀ d, pos = .end d → (env.fileSize : Int) - d.toInt - 1 ≠ s.2.pos) ∧
      ∀ p, accepted env.limit (pos.target env.fileSize s.2.pos) = some p → p < env.word
  | _ => True

/-- The reader and the cursor stand at the same place. -/
structure Linked (env : Setting) (s : AudioFileStreaming × Cursor UInt8) : Prop where
  genuinely : Genuinely env s.1
  bytes_eq : s.2.bytes = bodyOf env.file 0 env.fileSize
  position_eq : s.1.position = s.2.pos
  readFile_eq : s.1.readFile = s.2.pos
  readPosition_eq : s.1.shared.readPosition = s.2.pos
  pos_lt : s.2.pos < env.limit
  pos_lt_word : s.2.pos < env.word

section Reading

variable {env : Setting} {f : AudioFileStreaming} {c : Cursor UInt8}

theorem length_bodyOf (file : Nat → UInt8) (offset length : Nat) :
    (bodyOf file offset length).length = length := by
  simp [bodyOf]

theorem drop_bodyOf (file : Nat → UInt8) (length pos : Nat) :
    (bodyOf file 0 length).drop pos = bodyOf file pos (length - pos) := by
  refine List.ext_getElem (by simp [bodyOf]) fun k _ _ => ?_
  simp [bodyOf]

theorem take_bodyOf (file : Nat → UInt8) (offset : Nat) {n length : Nat} (le : n ≤ length) :
    (bodyOf file offset length).take n = bodyOf file offset n := by
  refine List.ext_getElem (by simp [bodyOf, Nat.min_eq_left le]) fun k _ _ => ?_
  simp [bodyOf]

theorem bodyOf_congr {disk file : Nat → UInt8} {offset length : Nat}
    (same : ∀ p, offset ≤ p → p < offset + length → disk p = file p) :
    bodyOf disk offset length = bodyOf file offset length := by
  refine List.map_congr_left fun k inside => same _ (Nat.le_add_right _ _) ?_
  have := List.mem_range.mp inside
  omega

section

variable (linked : Linked env (f, c))
include linked

theorem cursor_read (size : Nat) :
    (c.read size).1 = bodyOf env.file c.pos (min size (env.fileSize - c.pos)) := by
  have bytes : c.bytes = bodyOf env.file 0 env.fileSize := linked.bytes_eq
  simp only [Cursor.read, bytes, drop_bodyOf]
  by_cases short : size ≤ env.fileSize - c.pos
  · rw [take_bodyOf _ _ short, Nat.min_eq_left short]
  · rw [List.take_of_length_le (by rw [length_bodyOf]; omega), Nat.min_eq_right (by omega)]

theorem waiting_linked {waiting : List Event}
    (served : Along (progress env) (fun f event => Served env f.shared event) f waiting) :
    Linked env (run (progress env) f waiting, c) := by
  have keeps : ∀ f event, Linked env (f, c) → Served env f.shared event →
      Linked env (progress env f event, c) := by
    intro f event linked served
    obtain ⟨readPosition, position, readFile⟩ := progress_frame served
    exact ⟨progress_genuinely linked.genuinely served, linked.bytes_eq,
      position.trans linked.position_eq, readFile.trans linked.readFile_eq,
      readPosition.trans linked.readPosition_eq, linked.pos_lt, linked.pos_lt_word⟩
  exact run_invariant keeps linked served

theorem movedTo_linked {pos : Nat} (inLimit : pos < env.limit) (inWord : pos < env.word) :
    Linked env (f.movedTo env pos, { c with pos }) :=
  ⟨⟨linked.genuinely.sorted, linked.genuinely.disk_eq, linked.genuinely.parts⟩, linked.bytes_eq,
    rfl, rfl, Nat.mod_eq_of_lt inWord, inLimit, inWord⟩

/-- The end of a read: some of the bytes, and both go on behind them. -/
theorem readAvailable_linked {length : Nat} (short : Nat) (positive : 0 < length)
    (within : c.pos + length ≤ env.fileSize)
    (there : contains env.word f.shared.downloaded c.pos = true) :
    ∃ n, f.readAvailable env c.pos length short =
        (some (bodyOf env.file c.pos n), f.movedTo env (c.pos + n)) ∧
      0 < n ∧ n ≤ length ∧ Linked env (f.movedTo env (c.pos + n), { c with pos := c.pos + n }) := by
  have sorted : Sorted env.word 0 f.shared.downloaded := linked.genuinely.sorted
  have inWord := env.fileSize_lt
  have inLimit := env.fileSize_lt_limit
  have place : accepted env.limit (c.pos : Int) = some c.pos :=
    accepted_eq_some.mpr ⟨rfl, linked.pos_lt⟩
  have first : 1 ≤ containedLengthFromValue env.word f.shared.downloaded c.pos := by
    refine (le_containedLength_iff sorted c.pos 1).mpr fun p above below => ?_
    rw [show p = c.pos by omega]
    exact (contains_iff sorted c.pos).mp there
  let n := min (min length (containedLengthFromValue env.word f.shared.downloaded c.pos))
    (short + 1)
  have genuine : bodyOf f.disk c.pos n = bodyOf env.file c.pos n := by
    refine bodyOf_congr fun p above below => linked.genuinely.disk_eq p ?_
    exact (containedLength_spec sorted _).1 p above (by omega)
  refine ⟨n, ?_, by omega, by omega, movedTo_linked linked (by omega) (by omega)⟩
  unfold readAvailable
  rw [place]
  exact Prod.ext (congrArg some genuine) rfl

theorem read_likeFile {size : Nat} {waiting : List Event} {short : Nat}
    (sound : Sound env (f, c) (.read size waiting short)) :
    LikeFile env (f, c) (.read size waiting short) ∧
      Linked env (step env (f, c) (.read size waiting short)) := by
  obtain ⟨served, inTime⟩ := sound
  have here : f.position % env.word = c.pos := by
    rw [show f.position = c.pos from linked.position_eq, Nat.mod_eq_of_lt linked.pos_lt_word]
  have moved : ∀ n f', n ≤ min size (env.fileSize - c.pos) →
      f.read env size waiting short = (some (bodyOf env.file c.pos n), f') →
      (n = 0 → min size (env.fileSize - c.pos) = 0) →
      Linked env (f', { c with pos := c.pos + n }) →
      LikeFile env (f, c) (.read size waiting short) ∧
        Linked env (step env (f, c) (.read size waiting short)) := by
    intro n f' le result filled linked'
    have reached : step env (f, c) (.read size waiting short) =
        (f', { c with pos := c.pos + n }) := by
      simp only [step, result, Option.getD_some, length_bodyOf]
      refine Prod.ext rfl (congrArg (Cursor.mk c.bytes) ?_)
      change c.pos + (c.read n).1.length = c.pos + n
      rw [cursor_read linked, length_bodyOf]
      omega
    rw [reached]
    refine ⟨⟨?_, bodyOf env.file c.pos n, congrArg Prod.fst result, ?_, ?_⟩, linked'⟩
    · rw [reached]
      exact linked'.readPosition_eq
    · rw [cursor_read linked, ← take_bodyOf env.file c.pos le]
      exact List.take_prefix _ _
    · intro empty
      have zero := congrArg List.length empty
      rw [length_bodyOf] at zero
      rw [cursor_read linked, filled zero]
      rfl
  have nothing : min size (env.fileSize - c.pos) = 0 →
      f.read env size waiting short = (some (bodyOf env.file c.pos 0), f) →
      LikeFile env (f, c) (.read size waiting short) ∧
        Linked env (step env (f, c) (.read size waiting short)) := by
    intro absent result
    exact moved 0 f (Nat.zero_le _) result (fun _ => absent) linked
  simp only [here] at inTime
  by_cases atEnd : env.fileSize ≤ c.pos
  · refine nothing (by omega) ?_
    simp only [AudioFileStreaming.read, here]
    exact if_pos atEnd
  by_cases empty : min size (env.fileSize - c.pos) = 0
  · refine nothing empty ?_
    simp only [AudioFileStreaming.read, here]
    rw [if_neg atEnd, if_pos empty]
    rfl
  obtain ⟨running, there⟩ := inTime (by omega)
  obtain ⟨n, result, present, le, linked'⟩ :=
    readAvailable_linked (waiting_linked linked served) short
    (by omega) (show c.pos + min size (env.fileSize - c.pos) ≤ env.fileSize by omega) there
  refine moved n _ le ?_ (fun zero => by omega) linked'
  simp only [AudioFileStreaming.read, here]
  rw [if_neg atEnd, if_neg empty, if_neg fun ended => ended.2 (running ended.1), if_pos there]
  exact result

end

end Reading

section Seeking

variable {env : Setting} {f : AudioFileStreaming} {c : Cursor UInt8}

theorem toInt64_eq_ofNat {n : UInt64} {p : Nat} (small : p < 2 ^ 63) :
    n.toInt64 = Int64.ofNat p ↔ n.toNat = p := by
  have bounded := n.toNat_lt
  rw [← Int64.toInt_inj, Int64.toInt_ofNat_of_lt small, ← UInt64.ofNat_toNat (x := n),
    UInt64.toInt64_ofNat', Int64.toInt_ofNat']
  simp only [Int.bmod_def, Nat.cast_ofNat, Int.reduceAdd, Int.reduceDiv, UInt64.ofNat_toNat]
  omega

theorem ofNat_add_eq {p : Nat} {d : Int64} : Int64.ofNat p + d = Int64.ofNat p ↔ d = 0 := by
  constructor
  · intro same
    have difference := congrArg (· - Int64.ofNat p) same
    simpa [Int64.add_comm] using difference
  · rintro rfl
    simp

theorem fromEnd_eq {size p : Nat} {d : Int64} (small : p < 2 ^ 63) (small' : size < 2 ^ 63) :
    Int64.ofNat size - d - 1 = Int64.ofNat p ↔ (size : Int) - d.toInt - 1 = p := by
  have above := d.le_toInt
  have below := d.toInt_lt
  rw [← Int64.toInt_inj, Int64.toInt_ofNat_of_lt small, Int64.toInt_sub, Int64.toInt_sub,
    Int64.toInt_ofNat_of_lt small']
  simp only [Nat.reducePow, Int.bmod_def, Nat.cast_ofNat, Int.reduceAdd, Int.reduceDiv,
    Int64.reduceToInt]
  omega

section

variable (linked : Linked env (f, c))
include linked

/-- When a seek is taken for one to the present position. -/
theorem requestedPos_eq_iff (pos : SeekFrom) :
    f.requestedPos env pos = Int64.ofNat f.position ↔
      (∃ d, pos = .end d ∧ (env.fileSize : Int) - d.toInt - 1 = c.pos) ∨
        (∀ d, pos ≠ .end d) ∧ pos.target env.fileSize c.pos = c.pos := by
  have here : f.position = c.pos := linked.position_eq
  have small : c.pos < 2 ^ 63 := Nat.lt_of_lt_of_le linked.pos_lt env.limit_le
  have small' : env.fileSize < 2 ^ 63 := Nat.lt_of_lt_of_le env.fileSize_lt_limit env.limit_le
  rw [here]
  cases pos with
  | start n =>
    simp only [requestedPos, toInt64_eq_ofNat small, SeekFrom.target, reduceCtorEq, false_and,
      exists_const, false_or, ne_eq, not_false_eq_true, implies_true, true_and]
    omega
  | current d =>
    have zero : d = 0 ↔ d.toInt = 0 := by rw [← Int64.toInt_inj]; rfl
    simp only [requestedPos, here, ofNat_add_eq, SeekFrom.target, zero, reduceCtorEq, false_and,
      exists_const, false_or, ne_eq, not_false_eq_true, implies_true, true_and]
    omega
  | «end» d =>
    simp only [requestedPos, fromEnd_eq small small']
    simp

theorem setDownloadStreaming_linked (streaming : Bool) :
    Linked env (f.setDownloadStreaming streaming, c) :=
  ⟨⟨linked.genuinely.sorted, linked.genuinely.disk_eq, linked.genuinely.parts⟩, linked.bytes_eq,
    linked.position_eq, linked.readFile_eq, linked.readPosition_eq, linked.pos_lt,
    linked.pos_lt_word⟩

theorem cursor_seek (pos : SeekFrom) :
    c.seek env.limit pos = (accepted env.limit (pos.target env.fileSize c.pos),
      { c with pos := (accepted env.limit (pos.target env.fileSize c.pos)).getD c.pos }) := by
  have length : c.bytes.length = env.fileSize := by
    rw [show c.bytes = _ from linked.bytes_eq, length_bodyOf]
  rw [← length]
  exact Prod.ext (Cursor.seek_fst _ _ _) (Cursor.seek_snd _ _ _)

/-- The seek of the file is that of the cursor, as far as the position can be shared. -/
theorem seekFile_spec (pos : SeekFrom) (available : Bool) :
    (f.seekFile env pos available).1 = (c.seek env.limit pos).1 ∧
      (f.seekFile env pos available).2.shared.readPosition =
      (c.seek env.limit pos).2.pos % env.word ∧
      ((c.seek env.limit pos).2.pos < env.word →
        Linked env ((f.seekFile env pos available).2, (c.seek env.limit pos).2)) := by
  have stands : Linked env (if !available && f.shared.downloadStreaming then
      f.setDownloadStreaming false else f, c) := by
    split
    · exact setDownloadStreaming_linked linked false
    · exact linked
  simp only [seekFile]
  generalize (!available && f.shared.downloadStreaming) = wasStreaming at stands ⊢
  generalize hg : (if wasStreaming then f.setDownloadStreaming false else f) = g at stands ⊢
  rw [cursor_seek linked, show g.readFile = c.pos from stands.readFile_eq]
  cases place : accepted env.limit (pos.target env.fileSize c.pos) with
  | none =>
    refine ⟨rfl, ?_, fun _ => stands⟩
    change g.shared.readPosition = c.pos % env.word
    rw [Nat.mod_eq_of_lt linked.pos_lt_word]
    exact stands.readPosition_eq
  | some p =>
    have inLimit := (accepted_eq_some.mp place).2
    refine ⟨rfl, ?_, fun inWord => ?_⟩
    · cases wasStreaming <;> rfl
    · have there := movedTo_linked stands inLimit inWord
      cases wasStreaming with
      | false => exact there
      | true => exact setDownloadStreaming_linked there true

variable {pos : SeekFrom}

theorem seek_shortcut (same : f.requestedPos env pos = Int64.ofNat f.position) :
    f.seek env pos = (some c.pos, f) := by
  have small : c.pos < 2 ^ 63 := Nat.lt_of_lt_of_le linked.pos_lt env.limit_le
  have value : (Int64.ofNat f.position).toUInt64.toNat = c.pos := by
    rw [show f.position = c.pos from linked.position_eq]
    simp only [Int64.toUInt64_ofNat', UInt64.toNat_ofNat']
    omega
  unfold AudioFileStreaming.seek
  simp only [same, if_true, value]

/-- A seek that is taken for one to the present position is one, unless it is from the end. -/
theorem seek_here_iff (same : f.requestedPos env pos = Int64.ofNat f.position) :
    (LikeFile env (f, c) (.seek pos) ↔ Harmless env (f, c) (.seek pos)) ∧
      (Harmless env (f, c) (.seek pos) → Linked env (step env (f, c) (.seek pos))) := by
  have shortcut := seek_shortcut linked same
  rcases (requestedPos_eq_iff linked pos).mp same with ⟨d, rfl, mistaken⟩ | ⟨other, place⟩
  · have harmful : ¬ Harmless env (f, c) (.seek (.end d)) := fun harmless =>
      harmless.1 d rfl mistaken
    refine ⟨⟨fun likeFile => ?_, fun harmless => absurd harmless harmful⟩,
      fun harmless => absurd harmless harmful⟩
    have answer : some c.pos = (c.seek env.limit (.end d)).1 :=
      (congrArg Prod.fst shortcut).symm.trans likeFile.2
    rw [cursor_seek linked] at answer
    have moved := (accepted_eq_some.mp answer.symm).1
    simp only [SeekFrom.target] at moved
    omega
  · have stays : c.seek env.limit pos = (some c.pos, c) := by
      rw [cursor_seek linked, place, accepted_eq_some.mpr ⟨rfl, linked.pos_lt⟩]
      rfl
    have reached : step env (f, c) (.seek pos) = (f, c) := by simp only [step, shortcut, stays]
    have harmless : Harmless env (f, c) (.seek pos) := by
      refine ⟨fun d h => absurd h (other d), fun p found => ?_⟩
      rw [place] at found
      have here : (c.pos : Int) = p := (accepted_eq_some.mp found).1
      have bound : c.pos < env.word := linked.pos_lt_word
      omega
    refine ⟨⟨fun _ => harmless, fun _ => ⟨?_, ?_⟩⟩, fun _ => ?_⟩
    · rw [reached]
      exact linked.readPosition_eq
    · simp only [shortcut, stays]
    · rw [reached]
      exact linked

theorem seek_away_iff (other : f.requestedPos env pos ≠ Int64.ofNat f.position) :
    (LikeFile env (f, c) (.seek pos) ↔ Harmless env (f, c) (.seek pos)) ∧
      (Harmless env (f, c) (.seek pos) → Linked env (step env (f, c) (.seek pos))) := by
  let available := contains env.word f.shared.downloaded
    ((f.requestedPos env pos).toUInt64.toNat % env.word)
  have file : f.seek env pos = f.seekFile env pos available := if_neg other
  obtain ⟨answer, shared, stays⟩ := seekFile_spec linked pos available
  rw [← file] at answer shared stays
  have positive : 0 < env.word := Nat.lt_of_le_of_lt (Nat.zero_le _) linked.pos_lt_word
  have inWord_iff : (c.seek env.limit pos).2.pos < env.word ↔ Harmless env (f, c) (.seek pos) := by
    have fromEnd : ∀ d, pos = .end d → (env.fileSize : Int) - d.toInt - 1 ≠ c.pos :=
      fun d h mistaken => other ((requestedPos_eq_iff linked pos).mpr (.inl ⟨d, h, mistaken⟩))
    rw [cursor_seek linked]
    cases place : accepted env.limit (pos.target env.fileSize c.pos) with
    | none =>
      refine ⟨fun _ => ⟨fromEnd, fun p found => ?_⟩, fun _ => linked.pos_lt_word⟩
      rw [place] at found
      cases found
    | some p =>
      refine ⟨fun inWord => ⟨fromEnd, fun q found => ?_⟩, fun harmless => harmless.2 p place⟩
      rw [place] at found
      cases found
      exact inWord
  refine ⟨⟨fun likeFile => ?_, fun harmless => ⟨?_, answer⟩⟩, fun harmless =>
    stays (inWord_iff.mpr harmless)⟩
  · have same := shared.symm.trans likeFile.1
    exact inWord_iff.mp (same ▸ Nat.mod_lt _ positive)
  · exact shared.trans (Nat.mod_eq_of_lt (inWord_iff.mpr harmless))

end

end Seeking

theorem op_likeFile_iff {env : Setting} {s : AudioFileStreaming × Cursor UInt8} {op : Op}
    (linked : Linked env s) (sound : Sound env s op) :
    (LikeFile env s op ↔ Harmless env s op) ∧
      (Harmless env s op → Linked env (step env s op)) := by
  obtain ⟨f, c⟩ := s
  cases op with
  | progress event =>
    have linked' : Linked env (run (progress env) f [event], c) :=
      waiting_linked linked ⟨sound, trivial⟩
    exact ⟨⟨fun _ => trivial, fun _ => ⟨linked'.readPosition_eq, trivial⟩⟩, fun _ => linked'⟩
  | read size waiting short =>
    obtain ⟨likeFile, linked'⟩ := read_likeFile linked sound
    exact ⟨⟨fun _ => trivial, fun _ => likeFile⟩, fun _ => linked'⟩
  | seek pos =>
    by_cases same : f.requestedPos env pos = Int64.ofNat f.position
    · exact seek_here_iff linked same
    · exact seek_away_iff linked same

/-- A file that has just been opened, and a cursor over the complete one. -/
def initial (initialRequest : Range) : AudioFileStreaming × Cursor UInt8 :=
  (.opened env initialRequest, ⟨bodyOf env.file 0 env.fileSize, 0⟩)

theorem initial_linked (initialRequest : Range) : Linked env (initial env initialRequest) := by
  have inWord := env.fileSize_lt
  have inLimit := env.fileSize_lt_limit
  refine ⟨⟨trivial, fun p covered => ?_, fun part inside => ?_⟩, rfl, rfl, rfl, rfl, ?_, ?_⟩
  · exact absurd covered (covers_nil p)
  · cases inside
  · exact Nat.lt_of_le_of_lt (Nat.zero_le _) inLimit
  · exact Nat.lt_of_le_of_lt (Nat.zero_le _) inWord

/-- Reads and seeks during a download that does not fail are those of the complete file exactly
if no seek from the end is mistaken and none goes beyond the positions of a `usize`. -/
theorem likeFile_iff_harmless (env : Setting) (initialRequest : Range) (ops : List Op)
    (sound : Along (step env) (Sound env) (initial env initialRequest) ops) :
    Along (step env) (LikeFile env) (initial env initialRequest) ops ↔
      Along (step env) (Harmless env) (initial env initialRequest) ops := by
  refine along_iff_along ?_ ?_ (initial_linked env initialRequest) sound
  · intro s op linked sound
    exact (op_likeFile_iff linked sound).1
  · intro s op linked sound harmless
    exact (op_likeFile_iff linked sound).2 harmless

/-- A file of three bytes on a machine of 32 bits. -/
def smallSetting : Setting :=
  { smallFile with
    file := smallBytes
    limit := 2 ^ 43
    readAhead := 0
    fileSize_lt := by decide
    fileSize_lt_limit := by decide
    limit_le := by decide }

/-- A read that waits for the first two bytes, and a seek to the last byte. -/
def readAndSeek : List Op :=
  [.progress (.receiver 0 .acquire),
    .read 4 [.receiver 0 (.respond 0 (.partialContent (bodyOf smallBytes 0 2))),
      .message ⟨none, true, true⟩] 9,
    .seek (.end (-1))]

theorem readAndSeek_likeFile :
    Along (step smallSetting) (LikeFile smallSetting)
    (initial smallSetting ⟨0, 2⟩) readAndSeek := by
  refine (likeFile_iff_harmless smallSetting ⟨0, 2⟩ readAndSeek ?_).mpr ?_
  · refine ⟨trivial, ⟨⟨?_, trivial, trivial⟩, fun _ => ⟨fun ended => ?_, ?_⟩⟩, trivial, trivial⟩
    · rintro r ⟨⟩
      exact ⟨by decide, bodyOf_genuine smallBytes 0 2⟩
    · cases ended
    · decide
  · refine ⟨trivial, trivial, ⟨?_, ?_⟩, trivial⟩
    · rintro d ⟨⟩
      decide
    · intro p found
      have two : some 2 = some p := found
      cases two
      decide

/-- At the last byte, a seek to the end stays there. -/
theorem seekToEnd_notLikeFile :
    Along (step smallSetting) (Sound smallSetting) (initial smallSetting ⟨0, 2⟩)
        [.seek (.start 2), .seek (.end 0)] ∧
      ¬ Along (step smallSetting) (LikeFile smallSetting) (initial smallSetting ⟨0, 2⟩)
        [.seek (.start 2), .seek (.end 0)] := by
  refine ⟨⟨trivial, trivial, trivial⟩, ?_⟩
  rintro ⟨-, ⟨-, answer⟩, -⟩
  have wrong : some 2 = some 3 := answer
  cases wrong

end StreamedFile
