import SqueezeboxConnect.StreamingAudio

/-!
# Truncated downloads

Which answers of the CDN cut a download short, what the task has sent by then,
and what the reader makes of it. A failure is passed on; an empty body closes
the channel, which the reader takes for the end of the file.
-/

namespace Truncation

open ByteReaders StreamingAudio SequentialAudio

/-- A request made before the end of the file is answered by an empty body. -/
def emptyBody (total offset : Nat) : List CdnResult → Bool
  | .response status body :: rest =>
    decide (offset < total) && status.isPartialContent &&
      match body with
      | .ok data => data.isEmpty || emptyBody total (offset + data.length) rest
      | .error _ => false
  | _ => false

/-- A request made before the end of the file fails. -/
def failedAnswer (total offset : Nat) : List CdnResult → Bool
  | [] => false
  | .response status body :: rest =>
    decide (offset < total) && (!status.isPartialContent ||
      match body with
      | .ok data => !data.isEmpty && failedAnswer total (offset + data.length) rest
      | .error _ => true)
  | _ :: _ => decide (offset < total)

/-- What the task has sent when it meets a failure or an empty body. -/
structure CutShort (total offset : Nat) (failing : Bool) (rx : Channel) : Prop where
  closed : rx.closed = true
  short : offset + (untilError rx.messages).length < total
  messages : ∃ chunks : List (List UInt8), if failing then
      ∃ e, rx.messages = chunks.map .ok ++ [.error e] else rx.messages = chunks.map .ok

variable {total offset : Nat} {results : List CdnResult} {first : Except String (List UInt8)}
  {rx : Channel}

theorem cutShort_push {failing : Bool} {data : List UInt8}
    (h : CutShort total (offset + data.length) failing rx) :
    CutShort total offset failing (rx.push (.ok data)) := by
  obtain ⟨closed, short, chunks, shape⟩ := h
  refine ⟨closed, ?_, data :: chunks, ?_⟩
  · simp only [Channel.push, untilError, List.length_append]
    omega
  · cases failing with
    | false => simp only [Bool.false_eq_true, if_false] at shape ⊢; simp [Channel.push, shape]
    | true =>
      simp only [if_true] at shape ⊢
      obtain ⟨e, shape⟩ := shape
      exact ⟨e, by simp [Channel.push, shape]⟩

theorem cutShort_last (before : offset < total) (e : String) :
    CutShort total offset true (.last (.error e)) :=
  ⟨rfl, by simpa [Channel.last, untilError] using before, [], by simp [Channel.last]⟩

/-- What becomes of a download, by whether it meets an empty body or a failure. Without either the
task sends no failure, and ends only when the file is complete. -/
structure Fate (total offset : Nat) (rx : Channel) (empty failed : Bool) : Prop where
  emptied : empty = true → CutShort total offset false rx
  failing : failed = true → CutShort total offset true rx
  sound : failed = false → fails rx.messages = false
  complete : empty = false → rx.closed = true → fails rx.messages = false →
    total ≤ offset + (untilError rx.messages).length

theorem fate_push {empty failed : Bool} {data : List UInt8}
    (h : Fate total (offset + data.length) rx empty failed) :
    Fate total offset (rx.push (.ok data)) empty failed where
  emptied empty := cutShort_push (h.emptied empty)
  failing failed := cutShort_push (h.failing failed)
  sound := h.sound
  complete noEmpty closed sound := by
    have later := h.complete noEmpty closed sound
    simp only [Channel.push, untilError, List.length_append]
    omega

theorem fate_last (before : offset < total) (e : String) :
    Fate total offset (.last (.error e)) false true :=
  ⟨nofun, fun _ => cutShort_last before e, nofun, fun _ _ => nofun⟩

theorem fate_ended (sound : fails rx.messages = false)
    (complete : rx.closed = true → total ≤ offset + (untilError rx.messages).length) :
    Fate total offset rx false false :=
  ⟨nofun, nofun, fun _ => sound, fun _ closed _ => complete closed⟩

theorem fetchLoop_fate (total offset : Nat) (results : List CdnResult) :
    Fate total offset (fetchLoop total offset results) (emptyBody total offset results)
      (failedAnswer total offset results) := by
  induction results generalizing offset with
  | nil =>
    unfold fetchLoop
    split
    · next done => exact fate_ended rfl fun _ => Nat.le_add_right_of_le done
    · exact fate_ended rfl fun closed => Bool.noConfusion closed
  | cons result rest ih =>
    unfold fetchLoop
    by_cases done : total ≤ offset
    · have late : ¬ offset < total := by omega
      rw [if_pos done]
      cases result <;> simp only [emptyBody, failedAnswer, late, decide_false, Bool.false_and] <;>
        exact fate_ended rfl fun _ => Nat.le_add_right_of_le done
    · have before : offset < total := by omega
      rw [if_neg done]
      cases result with
      | response status body =>
        simp only [emptyBody, failedAnswer, before, decide_true, Bool.true_and]
        cases status.isPartialContent with
        | false => exact fate_last before _
        | true =>
          cases body with
          | error e => exact fate_last before e
          | ok data =>
            simp only [sendBody]
            cases data.isEmpty with
            | true =>
              refine ⟨fun _ => ⟨rfl, ?_, [], by simp [Channel.ended]⟩, nofun, fun _ => rfl, nofun⟩
              simpa [Channel.ended, untilError] using before
            | false => exact fate_push (ih _)
      | _ =>
        simp only [emptyBody, failedAnswer, before, decide_true]
        exact fate_last before _

/-- A clean end of file is only read when the whole file has been returned. -/
def EndsComplete (total : Nat) (first : Except String (List UInt8)) (results : List CdnResult) :
    Prop :=
  ∀ sizes front back, (∀ size ∈ sizes, 0 < size) →
    reads (SequentialAudio.open total first results) sizes = front ++ .ok [] :: back →
      total ≤ (returned front).length

/-- The same, where a failure that was read before may stand for the missing part. -/
def ReportsShortfall (total : Nat) (first : Except String (List UInt8))
    (results : List CdnResult) : Prop :=
  ∀ sizes front back, (∀ size ∈ sizes, 0 < size) →
    reads (SequentialAudio.open total first results) sizes = front ++ .ok [] :: back →
      total ≤ (returned front).length ∨ ∃ e, .error e ∈ front

theorem left_open (total : Nat) (first : Except String (List UInt8)) (results : List CdnResult) :
    (SequentialAudio.open total first results).left =
      untilError (fetch total first results).messages := rfl

theorem read_ended {a : SequentialAudio} (nothing : a.left = []) (closed : a.rx.closed = true)
    (sound : fails a.rx.messages = false) : ∃ a', Reader.read a 1 = some (.ok [], a') := by
  obtain ⟨bytes, a', h⟩ := read_returns 1 closed sound
  have taken := (read_ok h).taken
  rw [nothing] at taken
  obtain ⟨rfl, -⟩ := List.append_eq_nil_iff.mp taken.symm
  exact ⟨a', h⟩

/-- An empty body is read as a clean end of file. -/
theorem emptyBody_silent (h : emptyBody total 0 (answers first results) = true) :
    ¬ ReportsShortfall total first results := by
  intro reports
  have positive : 0 < total := by
    simp only [answers, emptyBody, Bool.and_eq_true, decide_eq_true_eq] at h
    exact h.1.1
  obtain ⟨closed, short, chunks, shape⟩ := (fetchLoop_fate ..).emptied h
  rw [← fetch_eq positive] at closed short shape
  simp only [Bool.false_eq_true, if_false] at shape
  have sound : fails (fetch total first results).messages = false := by
    rw [shape]
    simp [fails, isError]
  -- one read takes everything, and the next one finds the end
  let size := (untilError (fetch total first results).messages).length + 1
  obtain ⟨bytes, a', hread⟩ := read_returns (a := .open total first results) size closed sound
  have result := read_ok hread
  rw [left_open] at result
  have lengths := congrArg List.length result.taken
  rw [List.length_append] at lengths
  obtain ⟨-, -, nothing⟩ := result.short (by omega)
  obtain ⟨a'', hnext⟩ := read_ended nothing (result.closed_eq.trans closed)
    (result.failing_eq.trans sound)
  have outcome := reports [size, 1] [.ok bytes] [] (by simp [size]) (by
    simp only [reads]
    rw [show Reader.read (SequentialAudio.open total first results) size = _ from hread]
    simp only [hnext]
    rfl)
  rcases outcome with complete | ⟨e, he⟩
  · simp only [returned, List.flatMap_cons, List.flatMap_nil, List.append_nil] at complete
    omega
  · simp at he

/-- After a failure the next read is a clean end of file as well. -/
theorem failedAnswer_ends (h : failedAnswer total 0 (answers first results) = true) :
    ¬ EndsComplete total first results := by
  intro complete
  have positive : 0 < total := by
    simp only [answers, failedAnswer, Bool.and_eq_true, decide_eq_true_eq] at h
    exact h.1
  obtain ⟨closed, short, chunks, shape⟩ := (fetchLoop_fate ..).failing h
  rw [← fetch_eq positive] at closed short shape
  simp only [if_true] at shape
  obtain ⟨e, messages⟩ := shape
  have rx : (SequentialAudio.open total first results).rx =
      ⟨chunks.map .ok ++ [.error e], true⟩ := by
    change fetch total first results = _
    rw [← messages, ← closed]
  let size := chunks.flatten.length + 1
  obtain ⟨a', hread, nothing, rx'⟩ := read_failing size rx rfl (Nat.lt_succ_self _)
  obtain ⟨a'', hnext⟩ := read_ended nothing (by rw [rx']) (by rw [rx']; rfl)
  have outcome := complete [size, 1] [.error e] [] (by simp [size]) (by
    simp only [reads]
    rw [show Reader.read (SequentialAudio.open total first results) size = _ from hread]
    simp only [hnext]
    rfl)
  simp only [returned, List.flatMap_cons, List.flatMap_nil, List.append_nil, List.length_nil]
    at outcome
  omega

theorem reportsShortfall_of_noEmpty (h : emptyBody total 0 (answers first results) = false) :
    ReportsShortfall total first results := by
  intro sizes front back positive hreads
  by_cases failed : ∃ e, .error e ∈ front
  · exact Or.inr failed
  refine Or.inl ?_
  by_cases zero : total = 0
  · omega
  obtain ⟨taken, closed, sound⟩ := clean_end positive hreads (fun e he => failed ⟨e, he⟩)
  rw [left_open] at taken
  change (fetch total first results).closed = true at closed
  change fails (fetch total first results).messages = false at sound
  rw [fetch_eq (by omega)] at taken closed sound
  have complete := (fetchLoop_fate ..).complete h closed sound
  rw [taken] at complete
  omega

/-- A shortfall goes unreported exactly when a body comes back empty; the end
of file is exactly where it should be when no request fails either. -/
theorem shortfall_reported_iff (total : Nat) (first : Except String (List UInt8))
    (results : List CdnResult) :
    (ReportsShortfall total first results ↔ emptyBody total 0 (answers first results) = false) ∧
      (EndsComplete total first results ↔
        emptyBody total 0 (answers first results) = false ∧
          failedAnswer total 0 (answers first results) = false) := by
  have weaker : EndsComplete total first results → ReportsShortfall total first results :=
    fun h sizes front back positive hreads => Or.inl (h sizes front back positive hreads)
  have noEmpty : ReportsShortfall total first results →
      emptyBody total 0 (answers first results) = false := by
    intro reports
    by_contra h
    exact emptyBody_silent (by simpa using h) reports
  refine ⟨⟨noEmpty, reportsShortfall_of_noEmpty⟩, ?_, ?_⟩
  · intro complete
    refine ⟨noEmpty (weaker complete), ?_⟩
    by_contra h
    exact failedAnswer_ends (by simpa using h) complete
  · rintro ⟨empty, sound⟩ sizes front back positive hreads
    rcases reportsShortfall_of_noEmpty empty sizes front back positive hreads with h | ⟨e, he⟩
    · exact h
    · by_cases zero : total = 0
      · omega
      have messages := (fetchLoop_fate ..).sound sound
      rw [← fetch_eq (by omega)] at messages
      have nothing := reads_sound (a := .open total first results) sizes messages e
      rw [hreads] at nothing
      exact absurd (List.mem_append_left _ he) nothing

/-- Two bytes are announced, one arrives, and the next body is empty. -/
theorem empty_second_body :
    ¬ ReportsShortfall 2 (.ok [0]) [.response ⟨206, "206 Partial Content"⟩ (.ok [])] :=
  emptyBody_silent rfl

end Truncation
