import SqueezeboxConnect.StreamingAudio

/-!
# The decrypted stream behind its header

`AudioDecrypt` applies the cipher to what the reader below it returns, and
`SkipReader` drops the first bytes of what is left. Both wrap any reader. The
cipher is a fixed sequence of bytes indexed by the position in the stream.
-/

namespace DecryptedAudio

open ByteReaders StreamingAudio

def SPOTIFY_OGG_HEADER_END : Nat := 0xa7

/-- The state of the CTR cipher: its keystream and the position in it. -/
structure Aes128Ctr where
  keystream : Nat → UInt8
  pos : Nat

namespace Aes128Ctr

/-- Exclusive or with the keystream from a position on. -/
def xorFrom (keystream : Nat → UInt8) : Nat → List UInt8 → List UInt8
  | _, [] => []
  | pos, b :: bytes => (b ^^^ keystream pos) :: xorFrom keystream (pos + 1) bytes

@[simp] theorem length_xorFrom (keystream : Nat → UInt8) (pos : Nat) (bytes : List UInt8) :
    (xorFrom keystream pos bytes).length = bytes.length := by
  induction bytes generalizing pos with
  | nil => rfl
  | cons b bytes ih => simp [xorFrom, ih]

theorem xorFrom_append (keystream : Nat → UInt8) (pos : Nat) (front back : List UInt8) :
    xorFrom keystream pos (front ++ back) =
      xorFrom keystream pos front ++ xorFrom keystream (pos + front.length) back := by
  induction front generalizing pos with
  | nil => simp [xorFrom]
  | cons b front ih =>
    simp only [List.cons_append, xorFrom, ih, List.length_cons]
    rw [Nat.add_assoc, Nat.add_comm 1]

def applyKeystream (c : Aes128Ctr) (bytes : List UInt8) : List UInt8 × Aes128Ctr :=
  (xorFrom c.keystream c.pos bytes, { c with pos := c.pos + bytes.length })

end Aes128Ctr

universe u
variable {R : Type u} [Reader R String UInt8]

/-- Without a cipher the file passes unaltered. -/
structure AudioDecrypt (R : Type u) where
  cipher : Option Aes128Ctr
  reader : R

namespace AudioDecrypt

def new (key : Option (Nat → UInt8)) (reader : R) : AudioDecrypt R :=
  ⟨key.map fun keystream => ⟨keystream, 0⟩, reader⟩

def read (d : AudioDecrypt R) (size : Nat) :
    Option (Except String (List UInt8) × AudioDecrypt R) :=
  match Reader.read d.reader size with
  | none => none
  | some (.error e, reader) => some (.error e, { d with reader := reader })
  | some (.ok output, reader) =>
    match d.cipher with
    | none => some (.ok output, { d with reader := reader })
    | some cipher =>
      let (output, cipher) := cipher.applyKeystream output
      some (.ok output, ⟨some cipher, reader⟩)

instance : Reader (AudioDecrypt R) String UInt8 := ⟨read⟩

end AudioDecrypt

structure SkipReader (R : Type u) where
  inner : R
  remaining : Nat

namespace SkipReader

def new (inner : R) (remaining : Nat) : SkipReader R := ⟨inner, remaining⟩

/-- The bytes before the offset are read into a scratch buffer of 256 bytes;
an end of file or a failure among them is handed on. -/
def read (s : SkipReader R) (size : Nat) : Option (Except String (List UInt8) × SkipReader R) :=
  if 0 < s.remaining then
    match Reader.read s.inner (min s.remaining 256) with
    | none => none
    | some (.error e, inner) => some (.error e, { s with inner := inner })
    | some (.ok scratch, inner) =>
      if scratch.length = 0 then some (.ok [], { s with inner := inner })
      else read ⟨inner, s.remaining - scratch.length⟩ size
  else
    match Reader.read s.inner size with
    | none => none
    | some (result, inner) => some (result, { s with inner := inner })
termination_by s.remaining
decreasing_by omega

instance : Reader (SkipReader R) String UInt8 := ⟨read⟩

end SkipReader

/-- What the cipher will make of the bytes below it. -/
def plain (cipher : Option Aes128Ctr) (bytes : List UInt8) : List UInt8 :=
  match cipher with
  | none => bytes
  | some c => Aes128Ctr.xorFrom c.keystream c.pos bytes

variable {left : R → List UInt8 → Prop}

theorem audioDecrypt_tracked (tracks : Tracks left) :
    Tracks (fun (d : AudioDecrypt R) rest => ∃ below, left d.reader below ∧
      rest = plain d.cipher below) := by
  rintro d _ size bytes d' ⟨below, h, rfl⟩ hread
  change AudioDecrypt.read d size = _ at hread
  unfold AudioDecrypt.read at hread
  rcases hinner : Reader.read d.reader size with _ | ⟨_ | output, reader⟩
  · rw [hinner] at hread; cases hread
  · rw [hinner] at hread; cases hread
  rw [hinner] at hread
  obtain ⟨bound, below', rfl, h'⟩ := tracks _ _ _ _ _ h hinner
  cases hcipher : d.cipher with
  | none =>
    rw [hcipher] at hread
    cases hread
    exact ⟨bound, below', rfl, below', h', by simp [plain]⟩
  | some c =>
    rw [hcipher] at hread
    cases hread
    refine ⟨by simpa [Aes128Ctr.applyKeystream] using bound, _, ?_, below', h', rfl⟩
    simp [plain, Aes128Ctr.xorFrom_append]

theorem skipReader_tracked (tracks : Tracks left) :
    Tracks (fun (s : SkipReader R) rest => ∃ below, left s.inner below ∧
      rest = below.drop s.remaining) := by
  rintro s _ size bytes s' ⟨below, h, rfl⟩ hread
  change SkipReader.read s size = _ at hread
  -- the rounds of the skip, by how much is left to be skipped
  induction hremaining : s.remaining using Nat.strongRecOn generalizing s below with
  | ind remaining ih =>
    subst hremaining
    unfold SkipReader.read at hread
    by_cases skipping : 0 < s.remaining
    · rw [if_pos skipping] at hread
      rcases hinner : Reader.read s.inner (min s.remaining 256) with _ | ⟨_ | scratch, inner⟩
      · rw [hinner] at hread; cases hread
      · rw [hinner] at hread; cases hread
      rw [hinner] at hread
      obtain ⟨bound, below', rfl, h'⟩ := tracks _ _ _ _ _ h hinner
      by_cases empty : scratch.length = 0
      · simp only [if_pos empty] at hread
        cases hread
        have nothing : scratch = [] := List.length_eq_zero_iff.mp empty
        exact ⟨Nat.zero_le _, _, rfl, below', h', by simp [nothing]⟩
      · simp only [if_neg empty] at hread
        have fits : scratch.length ≤ s.remaining := by omega
        have result := ih (s.remaining - scratch.length) (by omega)
          ⟨inner, s.remaining - scratch.length⟩ below' h' hread rfl
        have skipped : (scratch ++ below').drop s.remaining =
            below'.drop (s.remaining - scratch.length) := by
          rw [List.drop_append, List.drop_eq_nil_of_le fits, List.nil_append]
        rw [skipped]
        exact result
    · rw [if_neg skipping] at hread
      have done : s.remaining = 0 := by omega
      rcases hinner : Reader.read s.inner size with _ | ⟨result, inner⟩
      · rw [hinner] at hread; cases hread
      rw [hinner] at hread
      cases hread
      obtain ⟨bound, below', rfl, h'⟩ := tracks _ _ _ _ _ h hinner
      exact ⟨bound, below', by simp [done], below', h', by simp [done]⟩

/-- Every body with status 206 is the beginning of the range that was asked for. -/
def ServesFile (file : List UInt8) : Nat → List CdnResult → Prop
  | offset, .response status (.ok data) :: rest => status.isPartialContent = true →
    data <+: (file.drop offset).take CHUNK ∧ ServesFile file (offset + data.length) rest
  | _, _ => True

variable {file : List UInt8}

theorem sendBody_isPrefix {offset : Nat} {body : Except String (List UInt8)} {next : Nat → Channel}
    (served : ∀ data, body = .ok data → data <+: (file.drop offset).take CHUNK ∧
      untilError (next (offset + data.length)).messages <+: file.drop (offset + data.length)) :
    untilError (sendBody offset body next).messages <+: file.drop offset := by
  cases body with
  | error e => exact List.nil_prefix
  | ok data =>
    obtain ⟨range, later⟩ := served data rfl
    obtain ⟨more, split⟩ := range.trans (List.take_prefix _ _)
    simp only [sendBody]
    by_cases none : data.isEmpty = true
    · rw [if_pos none]; exact List.nil_prefix
    · rw [if_neg none]
      have next : file.drop (offset + data.length) = more := by
        rw [← List.drop_drop, ← split, List.drop_left]
      rw [next] at later
      rw [← split]
      exact (List.prefix_append_right_inj data).mpr later

variable {results : List CdnResult}

/-- The task sends the file from its offset on, as far as it gets. -/
theorem fetchLoop_isPrefix {offset : Nat} (total : Nat) (serves : ServesFile file offset results) :
    untilError (fetchLoop total offset results).messages <+: file.drop offset := by
  induction results generalizing offset with
  | nil =>
    unfold fetchLoop
    split
    · exact List.nil_prefix
    · exact List.nil_prefix
  | cons result rest ih =>
    unfold fetchLoop
    by_cases done : total ≤ offset
    · rw [if_pos done]; exact List.nil_prefix
    rw [if_neg done]
    cases result with
    | response status body =>
      by_cases partialContent : status.isPartialContent = true
      · simp only [if_pos partialContent]
        apply sendBody_isPrefix
        rintro data rfl
        exact ⟨(serves partialContent).1, ih (serves partialContent).2⟩
      · simp only [if_neg partialContent]
        exact List.nil_prefix
    | transport e => exact List.nil_prefix
    | eof => exact List.nil_prefix
    | request e => exact List.nil_prefix

theorem fetch_isPrefix {first : Except String (List UInt8)} (total : Nat)
    (serves : ServesFile file 0 (answers first results)) :
    untilError (fetch total first results).messages <+: file := by
  rw [← file.drop_zero]
  apply sendBody_isPrefix
  rintro data rfl
  exact ⟨(serves rfl).1, fetchLoop_isPrefix total (serves rfl).2⟩

/-- The stack of readers that the decoder of a streamed track reads from. -/
def pipeline (total : Nat) (first : Except String (List UInt8)) (results : List CdnResult)
    (key : Option (Nat → UInt8)) : SkipReader (AudioDecrypt SequentialAudio) :=
  .new (.new key (.open total first results)) SPOTIFY_OGG_HEADER_END

/-- The decryption of a whole file. -/
def decrypt (key : Option (Nat → UInt8)) (file : List UInt8) : List UInt8 :=
  match key with
  | none => file
  | some keystream => Aes128Ctr.xorFrom keystream 0 file

/-- What the stack returns is the decrypted file behind its header, as far as it gets. -/
theorem pipeline_refines_file (file : List UInt8) (total : Nat)
    (first : Except String (List UInt8)) (results : List CdnResult) (key : Option (Nat → UInt8))
    (sizes : List Nat) (serves : ServesFile file 0 (answers first results)) :
    untilError (reads (pipeline total first results key) sizes) <+:
      (decrypt key file).drop SPOTIFY_OGG_HEADER_END := by
  have start : (SequentialAudio.open total first results).left <+: file :=
    fetch_isPrefix total serves
  have deciphered : decrypt key file = plain (AudioDecrypt.new key ()).cipher file := by
    cases key with
    | none => rfl
    | some keystream => rfl
  apply reads_isPrefix (skipReader_tracked (audioDecrypt_tracked left_tracked))
  exact ⟨decrypt key file, ⟨file, start, deciphered⟩, rfl⟩

/-- A file that arrives in two bodies and is read in small pieces. -/
theorem pipeline_refines_two_bodies :
    let file := List.replicate 170 7
    untilError (reads (pipeline 170 (.ok (file.take 100))
        [.response ⟨206, "206 Partial Content"⟩ (.ok (file.drop 100))] (some fun n => n.toUInt8))
      [1, 5]) <+: (decrypt (some fun n => n.toUInt8) file).drop SPOTIFY_OGG_HEADER_END := by
  refine pipeline_refines_file _ 170 _ _ _ [1, 5] ?_
  intro _
  refine ⟨by decide, fun _ => ⟨by decide, trivial⟩⟩

end DecryptedAudio
