import Mathlib.Data.List.Basic

/-!
# The subprocess sink

The sink writes a block of bytes to the standard input of a child process, as
often as the child takes a part of it only. What the operating system answers
is the input of the loop, one attempt for each write. The bytes the children
have taken are kept as a history.

Behind a short write the window is as long as that write, and the loop stops
when the window reaches the end of the block, without writing it.
-/

namespace Subprocess

inductive SubprocessError where
  | onWrite (e : String)
  | spawnFailure (command e : String)
  | invalidArgs (command e : String)
  | flushFailure (e : String)
  | killFailure (e : String)
  | waitFailure (e : String)
  | writeZero
  | missingCommand
  | noChild
  | noStdin
  deriving DecidableEq

namespace SubprocessError

def text : SubprocessError → String
  | onWrite e => "<SubprocessSink> " ++ e
  | spawnFailure command e =>
    "<SubprocessSink> Command " ++ command ++ " Can Not be Executed, " ++ e
  | invalidArgs command e =>
    "<SubprocessSink> Failed to Parse Command args for " ++ command ++ ", " ++ e
  | flushFailure e => "<SubprocessSink> Failed to Flush the Subprocess, " ++ e
  | killFailure e => "<SubprocessSink> Failed to Kill the Subprocess, " ++ e
  | waitFailure e => "<SubprocessSink> Failed to Wait for the Subprocess to Exit, " ++ e
  | writeZero => "<SubprocessSink> The Subprocess is no longer able to accept Bytes"
  | missingCommand => "<SubprocessSink> Missing Required Shell Command"
  | noChild => "<SubprocessSink> The Subprocess is None"
  | noStdin => "<SubprocessSink> The Subprocess's stdin is None"

end SubprocessError

/-- The errors of a sink, with their text. -/
inductive SinkError where
  | notConnected (text : String)
  | connectionRefused (text : String)
  | onWrite (text : String)
  | invalidParams (text : String)
  deriving DecidableEq

def SinkError.ofSubprocess (e : SubprocessError) : SinkError :=
  match e with
  | .flushFailure _ | .killFailure _ | .waitFailure _ | .onWrite _ | .writeZero => .onWrite e.text
  | .spawnFailure .. => .connectionRefused e.text
  | .missingCommand | .invalidArgs .. => .invalidParams e.text
  | .noChild | .noStdin => .notConnected e.text

/-- A call fails, or it panics on a command without words. -/
inductive Failure where
  | error (e : SinkError)
  | panic
  deriving DecidableEq

abbrev Result := Except Failure Unit

def fail (e : SubprocessError) : Result := .error (.error (.ofSubprocess e))

structure Child where
  /-- The standard input has not been taken out. -/
  stdin : Bool
  deriving DecidableEq

structure SubprocessSink where
  shellCommand : Option String
  child : Option Child
  /-- What the child processes have taken, in order. -/
  accepted : List UInt8
  deriving DecidableEq

/-- How the command is split into words and run. -/
inductive Spawn where
  | invalidArgs (e : String)
  | noWords
  | failed (e : String)
  | spawned
  deriving DecidableEq

/-- How a child process is brought to its end. -/
structure Shutdown where
  /-- Whether it has ended already. -/
  tryWait : Except String Bool
  flush : Except String Unit
  kill : Except String Unit
  wait : Except String Unit

inductive WriteAnswer where
  /-- The child takes at most this many bytes. -/
  | wrote (n : Nat)
  | interrupted
  | failed (e : String)
  deriving DecidableEq

/-- The answers to a write and to the restart that it may lead to. -/
structure Attempt where
  write : WriteAnswer
  stop : Shutdown
  start : Spawn

namespace SubprocessSink

/-- The command is run even if there is a child, which is kept then. -/
def start (s : SubprocessSink) (spawn : Spawn) : SubprocessSink × Result :=
  match s.shellCommand with
  | none => (s, fail .missingCommand)
  | some command =>
    match spawn with
    | .invalidArgs e => (s, fail (.invalidArgs command e))
    | .noWords => (s, .error .panic)
    | .failed e => (s, fail (.spawnFailure command e))
    | .spawned => ({ s with child := some (s.child.getD ⟨true⟩) }, .ok ())

/-- The process that has not ended by itself is killed. -/
def killChild (child : Child) (shutdown : Shutdown) : Result :=
  if !child.stdin then fail .noStdin
  else match shutdown.flush with
    | .error e => fail (.flushFailure e)
    | .ok () => match shutdown.kill with
      | .error e => fail (.killFailure e)
      | .ok () => match shutdown.wait with
        | .error e => fail (.waitFailure e)
        | .ok () => .ok ()

def stop (s : SubprocessSink) (shutdown : Shutdown) : SubprocessSink × Result :=
  match s.child with
  | none => (s, fail .noChild)
  | some child =>
    let s := { s with child := none }
    match shutdown.tryWait with
    | .ok true => (s, .ok ())
    | .ok false => (s, killChild child shutdown)
    | .error e => (s, fail (.waitFailure e))

/-- If the restart fails the original error is returned. -/
def tryRestart (s : SubprocessSink) (attempt : Attempt) (e : SubprocessError) (restarted : Bool) :
    SubprocessSink × Result :=
  if restarted then (s, fail e)
  else match s.stop attempt.stop with
    | (s, .error _) => (s, fail e)
    | (s, .ok _) => match s.start attempt.start with
      | (s, .error .panic) => (s, .error .panic)
      | (s, .error _) => (s, fail e)
      | (s, .ok _) => (s, .ok ())

end SubprocessSink

structure Cursor where
  restarted : Bool
  startIndex : Nat
  endIndex : Nat
  deriving DecidableEq

/-- The part of the block that is written next. -/
def Cursor.window (c : Cursor) (data : List UInt8) : List UInt8 :=
  (data.drop c.startIndex).take (c.endIndex - c.startIndex)

/-- The window behind a short write. -/
def Cursor.advance (c : Cursor) (dataLen bytesWritten : Nat) : Cursor :=
  let startIndex := min dataLen (c.startIndex + bytesWritten)
  { c with startIndex := startIndex, endIndex := min dataLen (startIndex + bytesWritten) }

/-- The loop of `write_bytes`; `none` when it has not returned after the attempts. -/
def writeLoop (data : List UInt8) :
    List Attempt → SubprocessSink → Cursor → Option (SubprocessSink × Result)
  | [], _, _ => none
  | attempt :: rest, s, c =>
    let retry (e : SubprocessError) :=
      match s.tryRestart attempt e c.restarted with
      | (s, .ok _) => writeLoop data rest s { c with restarted := true }
      | (s, .error e) => some (s, .error e)
    match s.child with
    | none => some (s, fail .noChild)
    | some child =>
      if !child.stdin then some (s, fail .noStdin)
      else match attempt.write with
        | .wrote n =>
          let bytes := (c.window data).take n
          if bytes.length = 0 then retry .writeZero
          else
            let s := { s with accepted := s.accepted ++ bytes }
            let c := c.advance data.length bytes.length
            if c.endIndex = data.length then some (s, .ok ()) else writeLoop data rest s c
        | .interrupted => writeLoop data rest s c
        | .failed e => retry (.onWrite e)

def writeBytes (s : SubprocessSink) (data : List UInt8) (attempts : List Attempt) :
    Option (SubprocessSink × Result) :=
  writeLoop data attempts s ⟨false, 0, data.length⟩

theorem start_accepted (s : SubprocessSink) (spawn : Spawn) :
    (s.start spawn).1.accepted = s.accepted := by
  unfold SubprocessSink.start
  repeat' split
  all_goals rfl

theorem stop_accepted (s : SubprocessSink) (shutdown : Shutdown) :
    (s.stop shutdown).1.accepted = s.accepted := by
  unfold SubprocessSink.stop
  dsimp only
  repeat' split
  all_goals rfl

theorem tryRestart_accepted (s : SubprocessSink) (attempt : Attempt) (e : SubprocessError)
    (restarted : Bool) : (s.tryRestart attempt e restarted).1.accepted = s.accepted := by
  have stopped := stop_accepted s attempt.stop
  unfold SubprocessSink.tryRestart
  split
  · rfl
  · split
    · rename_i s₁ _ hstop
      rw [hstop] at stopped
      exact stopped
    · rename_i s₁ _ hstop
      rw [hstop] at stopped
      have started := start_accepted s₁ attempt.start
      split
      all_goals
        rename_i hstart
        rw [hstart] at started
        exact started.trans stopped

variable {data : List UInt8} {attempt : Attempt} {c : Cursor}

/-- What one round of the loop does: it ends with an error, goes on in the same place, or
takes some bytes of the window. -/
theorem writeLoop_cons {rest : List Attempt} {s s' : SubprocessSink}
    (returned : writeLoop data (attempt :: rest) s c = some (s', .ok ())) :
    (∃ s₁ restarted, s₁.accepted = s.accepted ∧
      (∀ n, attempt.write = .wrote n → (c.window data).take n = []) ∧
      writeLoop data rest s₁ { c with restarted := restarted } = some (s', .ok ())) ∨
    ∃ n, attempt.write = .wrote n ∧ (c.window data).take n ≠ [] ∧
      let bytes := (c.window data).take n
      let s₁ := { s with accepted := s.accepted ++ bytes }
      let c₁ := c.advance data.length bytes.length
      (c₁.endIndex = data.length ∧ s' = s₁ ∨
        c₁.endIndex ≠ data.length ∧ writeLoop data rest s₁ c₁ = some (s', .ok ())) := by
  let idle := ∀ n, attempt.write = .wrote n → (c.window data).take n = []
  have retried : ∀ e, idle → (match s.tryRestart attempt e c.restarted with
      | (s, .ok _) => writeLoop data rest s { c with restarted := true }
      | (s, .error e) => some (s, .error e)) = some (s', .ok ()) →
      ∃ s₁ restarted, s₁.accepted = s.accepted ∧ idle ∧
        writeLoop data rest s₁ { c with restarted := restarted } = some (s', .ok ()) := by
    intro e nothing again
    have same := tryRestart_accepted s attempt e c.restarted
    split at again
    · rename_i s₁ _ restart
      rw [restart] at same
      exact ⟨s₁, true, same, nothing, again⟩
    · cases again
  simp only [writeLoop] at returned
  split at returned
  · cases returned
  · split at returned
    · cases returned
    · split at returned
      · rename_i n wrote
        split at returned
        · rename_i empty
          left
          refine retried _ (fun m wrote' => ?_) returned
          obtain rfl : n = m := WriteAnswer.wrote.inj (wrote.symm.trans wrote')
          exact List.length_eq_zero_iff.mp empty
        · rename_i filled
          right
          refine ⟨n, wrote, fun absent => filled (by simp [absent]), ?_⟩
          split at returned
          · rename_i reached
            cases returned
            exact Or.inl ⟨reached, rfl⟩
          · rename_i short
            exact Or.inr ⟨short, returned⟩
      · rename_i interrupted
        exact Or.inl ⟨s, c.restarted, rfl, by simp [interrupted], returned⟩
      · rename_i failed
        exact Or.inl (retried _ (by simp [idle, failed]) returned)

theorem length_taken (inside : c.endIndex ≤ data.length) (n : Nat) :
    ((c.window data).take n).length = min n (c.endIndex - c.startIndex) := by
  simp only [Cursor.window, List.length_take, List.length_drop]
  omega

theorem take_append_taken (inside : c.endIndex ≤ data.length) (n : Nat) :
    data.take c.startIndex ++ (c.window data).take n =
      data.take (c.startIndex + ((c.window data).take n).length) := by
  rw [length_taken inside, Cursor.window, List.take_take, List.take_add]

/-- Behind a short write the window ends inside of the block, so that no write can finish it. -/
theorem writeLoop_short {attempts : List Attempt} {s s' : SubprocessSink} (before : List UInt8)
    (inside : c.endIndex < data.length) (sofar : s.accepted = before ++ data.take c.startIndex)
    (returned : writeLoop data attempts s c = some (s', .ok ())) :
    ∃ n, n < data.length ∧ s'.accepted = before ++ data.take n := by
  induction attempts generalizing s c with
  | nil => cases returned
  | cons attempt rest ih =>
    rcases writeLoop_cons returned with ⟨s₁, restarted, same, -, again⟩ | ⟨n, -, filled, outcome⟩
    · exact ih (c := { c with restarted := restarted }) inside (same.trans sofar) again
    · have count := length_taken (Nat.le_of_lt inside) n
      have taken := take_append_taken (Nat.le_of_lt inside) n
      generalize (c.window data).take n = bytes at filled outcome count taken
      have positive : 0 < bytes.length := List.length_pos_of_ne_nil filled
      have place : min data.length (c.startIndex + bytes.length) = c.startIndex + bytes.length := by
        omega
      have accepted : s.accepted ++ bytes = before ++ data.take (c.startIndex + bytes.length) := by
        rw [sofar, List.append_assoc, taken]
      rcases outcome with ⟨-, rfl⟩ | ⟨short, again⟩
      · exact ⟨c.startIndex + bytes.length, by omega, accepted⟩
      · refine ih ?_ ?_ again
        · simp only [Cursor.advance] at short ⊢
          omega
        · simp only [Cursor.advance, place]
          exact accepted

/-- The bytes that the first write with any success takes, at most. -/
def firstCount : List Attempt → Nat
  | [] => 0
  | attempt :: rest =>
    match attempt.write with
    | .wrote 0 => firstCount rest
    | .wrote n => n
    | _ => firstCount rest

theorem firstCount_wrote {n : Nat} (wrote : attempt.write = .wrote n) (positive : 0 < n)
    (rest : List Attempt) : firstCount (attempt :: rest) = n := by
  simp only [firstCount, wrote]
  cases n with
  | zero => omega
  | succ n => rfl

theorem firstCount_skip (skipped : ∀ n, attempt.write = .wrote n → n = 0) (rest : List Attempt) :
    firstCount (attempt :: rest) = firstCount rest := by
  simp only [firstCount]
  cases write : attempt.write with
  | wrote n =>
    obtain rfl := skipped n write
    rfl
  | interrupted => rfl
  | failed e => rfl

theorem writeLoop_empty (attempts : List Attempt) (s s' : SubprocessSink) (c : Cursor) :
    writeLoop [] attempts s c ≠ some (s', .ok ()) := by
  intro returned
  induction attempts generalizing s c with
  | nil => cases returned
  | cons attempt rest ih =>
    rcases writeLoop_cons returned with ⟨s₁, restarted, -, -, again⟩ | ⟨n, -, filled, -⟩
    · exact ih s₁ _ again
    · simp [Cursor.window] at filled

theorem take_eq_self_iff (before : List UInt8) (n : Nat) :
    before ++ data.take n = before ++ data ↔ data.length ≤ n := by
  rw [List.append_cancel_left_eq]
  constructor
  · intro whole
    have length := congrArg List.length whole
    rw [List.length_take] at length
    omega
  · exact List.take_of_length_le

/-- The block is complete in exactly the case that the first write took the whole of it. -/
theorem writeLoop_whole {attempts : List Attempt} {s s' : SubprocessSink} (start : c.startIndex = 0)
    (ending : c.endIndex = data.length) (returned : writeLoop data attempts s c = some (s', .ok ()))
    :
    s'.accepted = s.accepted ++ data ↔ data.length ≤ firstCount attempts := by
  have window : c.window data = data := by simp [Cursor.window, start, ending]
  induction attempts generalizing s c with
  | nil => cases returned
  | cons attempt rest ih =>
    rcases writeLoop_cons returned with ⟨s₁, restarted, same, absent, again⟩ | ⟨n, wrote, filled,
      outcome⟩
    · have skipped : ∀ n, attempt.write = .wrote n → n = 0 := by
        intro n wrote
        have nothing := absent n wrote
        rw [window, List.take_eq_nil_iff] at nothing
        rcases nothing with zero | rfl
        · exact zero
        · exact absurd returned (writeLoop_empty _ _ _ _)
      rw [← same, firstCount_skip skipped]
      exact ih (c := { c with restarted := restarted }) start ending again window
    · rw [window] at filled outcome
      have positive : 0 < n := by
        by_contra zero
        obtain rfl : n = 0 := by omega
        exact filled (List.take_zero ..)
      rw [firstCount_wrote wrote positive]
      rcases outcome with ⟨-, rfl⟩ | ⟨short, again⟩
      · exact take_eq_self_iff ..
      · have place : (c.advance data.length (data.take n).length).startIndex =
            min n data.length := by
          simp only [Cursor.advance, start, List.length_take]
          omega
        have inside : (c.advance data.length (data.take n).length).endIndex < data.length := by
          simp only [Cursor.advance] at short ⊢
          omega
        have sofar : s.accepted ++ data.take n = s.accepted ++
            data.take (c.advance data.length (data.take n).length).startIndex := by
          rw [place, List.append_cancel_left_eq, List.take_eq_take_iff]
          omega
        have partly : n < data.length := by
          simp only [Cursor.advance, start, List.length_take] at short
          omega
        obtain ⟨k, less, accepted⟩ := writeLoop_short s.accepted inside sofar again
        rw [accepted, take_eq_self_iff]
        omega

/-- Whenever the sink reports success, its children have taken the whole block. -/
def WritesAll (s : SubprocessSink) (data : List UInt8) (attempts : List Attempt) : Prop :=
  ∀ s', writeBytes s data attempts = some (s', .ok ()) → s'.accepted = s.accepted ++ data

/-- The sink writes everything in exactly the runs in which the first write that takes
anything takes the whole block. -/
theorem writesAll_iff (s : SubprocessSink) (data : List UInt8) (attempts : List Attempt) :
    WritesAll s data attempts ↔
      ∀ s', writeBytes s data attempts = some (s', .ok ()) → data.length ≤ firstCount attempts := by
  constructor
  · intro all s' returned
    exact (writeLoop_whole rfl rfl returned).mp (all s' returned)
  · intro first s' returned
    exact (writeLoop_whole rfl rfl returned).mpr (first s' returned)

/-- A child that takes at most this many bytes at once. -/
def takes (n : Nat) : Attempt := ⟨.wrote n, ⟨.ok true, .ok (), .ok (), .ok ()⟩, .spawned⟩

def running : SubprocessSink := ⟨some "play", some ⟨true⟩, []⟩

/-- Of four bytes the child takes two, and the sink reports success. -/
theorem halfBlock_not_written : ¬ WritesAll running [1, 2, 3, 4] [takes 2] := by
  intro all
  have written := all { running with accepted := [1, 2] } rfl
  cases written

end Subprocess
