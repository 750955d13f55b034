import Mathlib.Data.List.Nodup
import Mathlib.Data.List.Perm.Basic
import SqueezeboxConnect.Runs
import SqueezeboxConnect.Mercury

/-!
# Responses that come in pieces

A response is a list of parts. It is cut into packets, where the last chunk of
a packet may go on in the next one, and the packets of different requests come
in any order. What a pending request has received, with what is still on its
way, is the response all the time. The last packet completes it.
-/

namespace MercuryAssembly

open Runs ByteFields Mercury Words

/-- A packet that can be written down. -/
structure Packet where
  cmd : PacketType
  seq : Bytes
  flags : UInt8
  chunks : List Bytes
  seq_short : seq.length < 65536
  few : chunks.length < 65536
  short : ∀ chunk ∈ chunks, chunk.length < 65536

/-- How a response is cut: the flags and the chunks of each packet, first packet first. -/
inductive Fragments : List Bytes → List (UInt8 × List Bytes) → Prop
  | final {chunks : List Bytes} (filled : chunks ≠ []) : Fragments chunks [(1, chunks)]
  /-- Whole parts follow. -/
  | whole {chunks later : List Bytes} {frames : List (UInt8 × List Bytes)} (filled : chunks ≠ [])
      (rest : Fragments later frames) : Fragments (chunks ++ later) ((0, chunks) :: frames)
  /-- The last chunk goes on in the next packet. -/
  | cut {chunks later : List Bytes} {front back : Bytes} {frames : List (UInt8 × List Bytes)}
      (rest : Fragments (back :: later) frames) :
      Fragments (chunks ++ (front ++ back) :: later) ((2, chunks ++ [front]) :: frames)

def framesOf (seq : Bytes) (packets : List Packet) : List (UInt8 × List Bytes) :=
  (packets.filter fun p => p.seq = seq).map fun p => (p.flags, p.chunks)

/-- The manager after one more packet; what `dispatch` returns is only logged. -/
def deliver (env : Env) (sofar : Except Panic MercuryManager) (p : Packet) :
    Except Panic MercuryManager :=
  sofar.bind fun m => (m.dispatch env p.cmd (frame p.seq p.flags p.chunks)).map Prod.fst

/-- Put some bytes in front of the first part. -/
def extendFirst (front : Bytes) : List Bytes → List Bytes
  | [] => []
  | part :: rest => (front ++ part) :: rest

variable (pending : MercuryPending)

/-- What has been received, with what is still to come. -/
def joined (left : List Bytes) : List Bytes :=
  pending.parts ++ extendFirst (pending.partialPart.getD []) left

@[simp] theorem extendFirst_nil (left : List Bytes) : extendFirst [] left = left := by
  cases left <;> rfl

variable {frames : List (UInt8 × List Bytes)} {left : List Bytes}

theorem fragments_ne_nil (h : Fragments left frames) : left ≠ [] := by
  cases h with
  | final some => exact some
  | whole some => simp [some]
  | cut => simp

theorem joined_ne_nil (filled : left ≠ []) : joined pending left ≠ [] := by
  cases left with
  | nil => exact absurd rfl filled
  | cons part rest => simp [joined, extendFirst]

theorem joined_finished (part : Bytes) (left : List Bytes) :
    joined (pending.addPart false part) left = joined pending (part :: left) := by
  simp only [joined, MercuryPending.addPart, Bool.false_eq_true, if_false, Option.getD_none,
    extendFirst_nil, List.append_assoc, List.singleton_append]
  rfl

theorem joined_unfinished (front back : Bytes) (left : List Bytes) :
    joined (pending.addPart true front) (back :: left) =
      joined pending ((front ++ back) :: left) := by
  simp [joined, MercuryPending.addPart, extendFirst]

theorem joined_addParts {flags : UInt8} (notCut : flags ≠ 2) (pending : MercuryPending)
    (chunks left : List Bytes) :
    joined (pending.addParts flags chunks) left = joined pending (chunks ++ left) := by
  induction chunks generalizing pending with
  | nil => rfl
  | cons chunk rest ih =>
    have finished : (rest.isEmpty && flags == 2) = false := by simp [notCut]
    rw [MercuryPending.addParts, finished, ih, joined_finished, List.cons_append]

theorem joined_addParts_cut (chunks : List Bytes) (front back : Bytes) (left : List Bytes) :
    joined (pending.addParts 2 (chunks ++ [front])) (back :: left) =
      joined pending (chunks ++ (front ++ back) :: left) := by
  induction chunks generalizing pending with
  | nil => exact joined_unfinished pending front back left
  | cons chunk rest ih =>
    have finished : ((rest ++ [front]).isEmpty && (2 : UInt8) == 2) = false := by simp
    rw [List.cons_append, MercuryPending.addParts, finished, ih, joined_finished, List.cons_append]

/-- The first packet either is the last one, or adds what the remaining ones go on from. -/
theorem fragments_cons {flags : UInt8} {chunks : List Bytes}
    (h : Fragments left ((flags, chunks) :: frames)) :
    (flags = 1 ∧ frames = [] ∧ ∀ pending : MercuryPending,
      (pending.addParts flags chunks).parts = joined pending left) ∨
    (flags ≠ 1 ∧ ∃ later, Fragments later frames ∧ ∀ pending : MercuryPending,
      joined (pending.addParts flags chunks) later = joined pending left) := by
  cases h with
  | final some =>
    refine Or.inl ⟨rfl, rfl, ?_⟩
    intro pending
    have notCut : (1 : UInt8) ≠ 2 := by decide
    have whole := joined_addParts notCut pending left []
    simpa [joined, extendFirst] using whole
  | whole some rest =>
    exact Or.inr ⟨by decide, _, rest, fun pending => joined_addParts (by decide) pending _ _⟩
  | cut rest => exact Or.inr ⟨by decide, _, rest, fun pending =>
    joined_addParts_cut pending _ _ _ _⟩

/-- What a response leads to does not touch the requests that are waited for. -/
theorem respond_frame (env : Env) (m : MercuryManager) (cmd : PacketType)
    (callback : Option Callback)
    (response : MercuryResponse) :
    (m.respond env cmd callback response).1.pending = m.pending ∧
      (m.respond env cmd callback response).1.completed = m.completed := by
  have sent : ∀ callback message, (m.send callback message).1.pending = m.pending ∧
      (m.send callback message).1.completed = m.completed := by
    intro callback message
    rw [MercuryManager.send]
    split
    · exact ⟨rfl, rfl⟩
    · exact ⟨rfl, rfl⟩
  unfold MercuryManager.respond
  split
  · exact ⟨rfl, rfl⟩
  · split
    · cases callback with
      | none => exact ⟨rfl, rfl⟩
      | some callback =>
        have kept := sent callback (.error (.response response))
        dsimp only
        split
        · rename_i done
          rw [done] at kept
          exact kept
        · rename_i failed
          rw [failed] at kept
          exact kept
    · split
      · dsimp only
        split
        · exact ⟨rfl, rfl⟩
        · exact ⟨rfl, rfl⟩
      · cases callback with
        | none => exact ⟨rfl, rfl⟩
        | some callback => exact sent callback (.ok response)

theorem completeRequest_frame (env : Env) (m : MercuryManager) (cmd : PacketType)
    {pending : MercuryPending} (filled : pending.parts ≠ []) :
    ∃ m' result, m.completeRequest env cmd pending = .ok (m', result) ∧ m'.pending = m.pending ∧
      m'.completed = m.completed := by
  rw [MercuryManager.completeRequest]
  split
  · rename_i nothing
    exact absurd nothing filled
  · split
    · exact ⟨m, _, rfl, rfl, rfl⟩
    · exact ⟨_, _, rfl, respond_frame env m cmd _ _⟩

/-- A packet that is waited for is read as it was written. -/
theorem dispatch_waited (env : Env) (m : MercuryManager) (p : Packet) {pending : MercuryPending}
    (waited : m.pending p.seq = some pending) :
    m.dispatch env p.cmd (frame p.seq p.flags p.chunks) =
      if p.flags = 1 then
        { m.remove p.seq with
          completed := m.completed ++ [(p.seq, (pending.addParts p.flags p.chunks).parts)]
        }.completeRequest env p.cmd (pending.addParts p.flags p.chunks)
      else .ok ((m.remove p.seq).insert p.seq (pending.addParts p.flags p.chunks), .ok ()) := by
  have head : readHead (frame p.seq p.flags p.chunks) =
      .ok (p.seq, p.flags, p.chunks.length, p.chunks.flatMap field) :=
    readHead_eq_ok.mpr ⟨p.seq_short, p.few, rfl⟩
  have parts : readFields p.chunks.length (p.chunks.flatMap field) = .ok (p.chunks, []) :=
    readFields_eq_ok.mpr ⟨rfl, p.short, (List.append_nil _).symm⟩
  have awaited : m.awaited p.cmd p.seq = some pending := by simp [MercuryManager.awaited, waited]
  rw [MercuryManager.dispatch, head]
  simp only [Except.bind, MercuryManager.receive, awaited, receiveParts_eq, parts]
  rfl

theorem deliver_continues (env : Env) (m : MercuryManager) (p : Packet) {pending : MercuryPending}
    (waited : m.pending p.seq = some pending) (more : p.flags ≠ 1) :
    ∃ m', deliver env (.ok m) p = .ok m' ∧ m'.completed = m.completed ∧
      m'.pending = Function.update m.pending p.seq (some (pending.addParts p.flags p.chunks)) := by
  refine ⟨(m.remove p.seq).insert p.seq (pending.addParts p.flags p.chunks), ?_, rfl, ?_⟩
  · simp only [deliver, Except.bind, dispatch_waited env m p waited, if_neg more, Except.map]
  · simp [MercuryManager.insert, MercuryManager.remove]

theorem deliver_completes (env : Env) (m : MercuryManager) (p : Packet) {pending : MercuryPending}
    (waited : m.pending p.seq = some pending) (final : p.flags = 1)
    (filled : (pending.addParts p.flags p.chunks).parts ≠ []) :
    ∃ m', deliver env (.ok m) p = .ok m' ∧ m'.pending = Function.update m.pending p.seq none ∧
      m'.completed = m.completed ++ [(p.seq, (pending.addParts p.flags p.chunks).parts)] := by
  obtain ⟨m', result, completed, pending', log⟩ := completeRequest_frame env
    { m.remove p.seq with
      completed := m.completed ++ [(p.seq, (pending.addParts p.flags p.chunks).parts)] } p.cmd
        filled
  refine ⟨m', ?_, pending', log⟩
  simp only [deliver, Except.bind, dispatch_waited env m p waited, if_pos final, completed,
    Except.map]

/-- A response of which a part may have been received, and the packets that are to come. -/
def Awaited (m : MercuryManager) (packets : List Packet) (response : Bytes × List Bytes) : Prop :=
  ∃ pending left, m.pending response.1 = some pending ∧
    Fragments left (framesOf response.1 packets) ∧ response.2 = joined pending left

theorem framesOf_cons_same (p : Packet) (rest : List Packet) :
    framesOf p.seq (p :: rest) = (p.flags, p.chunks) :: framesOf p.seq rest := by
  simp [framesOf]

theorem framesOf_cons_other {seq : Bytes} {p : Packet} (other : p.seq ≠ seq) (rest : List Packet) :
    framesOf seq (p :: rest) = framesOf seq rest := by
  simp [framesOf, other]

variable {response : Bytes × List Bytes} {entry : Option MercuryPending}

theorem awaited_other {m m' : MercuryManager} {p : Packet} {rest : List Packet}
    (awaited : Awaited m (p :: rest) response) (other : response.1 ≠ p.seq)
    (updated : m'.pending = Function.update m.pending p.seq entry) : Awaited m' rest response := by
  obtain ⟨pending, left, waits, fragments, whole⟩ := awaited
  refine ⟨pending, left, ?_, ?_, whole⟩
  · rw [updated, Function.update_of_ne other, waits]
  · rwa [framesOf_cons_other (Ne.symm other)] at fragments

/-- Every response is completed once and no longer pending; other requests are as before. -/
structure Completed (m m' : MercuryManager) (responses log : List (Bytes × List Bytes)) : Prop where
  completed_eq : m'.completed = m.completed ++ log
  perm : log.Perm responses
  gone : ∀ response ∈ responses, m'.pending response.1 = none
  kept : ∀ seq, seq ∉ responses.map Prod.fst → m'.pending seq = m.pending seq

theorem completed_cons {m m₁ m' : MercuryManager} {responses log : List (Bytes × List Bytes)}
    {seq : Bytes} {parts : List Bytes} (inside : (seq, parts) ∈ responses)
    (once : seq ∉ (responses.erase (seq, parts)).map Prod.fst)
    (updated : m₁.pending = Function.update m.pending seq none)
    (logged : m₁.completed = m.completed ++ [(seq, parts)])
    (later : Completed m₁ m' (responses.erase (seq, parts)) log) :
    Completed m m' responses ((seq, parts) :: log) := by
  have perm : responses.Perm ((seq, parts) :: responses.erase (seq, parts)) :=
    List.perm_cons_erase inside
  constructor
  · rw [later.completed_eq, logged, List.append_assoc, List.singleton_append]
  · exact (later.perm.cons _).trans perm.symm
  · intro response old
    by_cases same : response.1 = seq
    · rw [same, later.kept seq once, updated, Function.update_self]
    · rcases List.mem_cons.mp (perm.mem_iff.mp old) with rfl | erased
      · exact absurd rfl same
      · exact later.gone response erased
  · intro other outside
    have apart : other ≠ seq := by
      rintro rfl
      exact outside (List.mem_map_of_mem inside)
    rw [later.kept other, updated, Function.update_of_ne apart]
    intro erased
    obtain ⟨response, old, rfl⟩ := List.mem_map.mp erased
    exact outside (List.mem_map_of_mem (List.mem_of_mem_erase old))

theorem completed_continues {m m₁ m' : MercuryManager} {responses log : List (Bytes × List Bytes)}
    (inside : response ∈ responses)
    (updated : m₁.pending = Function.update m.pending response.1 entry)
    (logged : m₁.completed = m.completed) (later : Completed m₁ m' responses log) :
    Completed m m' responses log := by
  refine ⟨by rw [later.completed_eq, logged], later.perm, later.gone, ?_⟩
  intro seq outside
  have apart : seq ≠ response.1 := by
    rintro rfl
    exact outside (List.mem_map_of_mem inside)
  rw [later.kept seq outside, updated, Function.update_of_ne apart]

/-- The run from any point on: every response that is still awaited is completed once. -/
theorem run_completes (env : Env) {packets : List Packet} {m : MercuryManager}
    {responses : List (Bytes × List Bytes)} (distinct : (responses.map Prod.fst).Nodup)
    (awaited : ∀ response ∈ responses, Awaited m packets response)
    (own : ∀ p ∈ packets, p.seq ∈ responses.map Prod.fst) :
    ∃ m' log, run (deliver env) (.ok m) packets = .ok m' ∧ Completed m m' responses log := by
  induction packets generalizing m responses with
  | nil =>
    have absent : responses = [] := by
      refine List.eq_nil_iff_forall_not_mem.mpr ?_
      intro response inside
      obtain ⟨_, left, _, fragments, _⟩ := awaited response inside
      cases fragments
    subst absent
    exact ⟨m, [], rfl, by simp, .refl [], by simp, fun _ _ => rfl⟩
  | cons p rest ih =>
    obtain ⟨⟨seq, parts⟩, inside, same⟩ := List.mem_map.mp (own p (by simp))
    obtain ⟨pending, left, waits, fragments, whole⟩ := awaited _ inside
    dsimp only at same waits fragments whole
    subst same
    rw [framesOf_cons_same] at fragments
    rw [run_cons]
    rcases fragments_cons fragments with ⟨final, last, assembled⟩ | ⟨more, later, fragments',
      assembled⟩
    · have parts_eq := (assembled pending).trans whole.symm
      have filled : (pending.addParts p.flags p.chunks).parts ≠ [] := by
        rw [assembled pending]
        exact joined_ne_nil pending (fragments_ne_nil fragments)
      obtain ⟨m₁, delivered, updated, logged⟩ := deliver_completes env m p waits final filled
      rw [parts_eq] at logged
      have perm : responses.Perm ((p.seq, parts) :: responses.erase (p.seq, parts)) :=
        List.perm_cons_erase inside
      have distinct' := (perm.map Prod.fst).nodup_iff.mp distinct
      rw [List.map_cons, List.nodup_cons] at distinct'
      have others : ∀ response ∈ responses.erase (p.seq, parts), response.1 ≠ p.seq := by
        rintro response old same
        exact distinct'.1 (List.mem_map.mpr ⟨response, old, same⟩)
      have none_left : ∀ q ∈ rest, q.seq ≠ p.seq := by
        intro q later same
        have frame : (q.flags, q.chunks) ∈ framesOf p.seq rest :=
          List.mem_map_of_mem (List.mem_filter.mpr ⟨later, by simpa using same⟩)
        rw [last] at frame
        cases frame
      obtain ⟨m', log, ran, completed⟩ := ih distinct'.2
        (fun response old => awaited_other (awaited response (List.mem_of_mem_erase old))
          (others response old) updated)
        (by
          intro q later
          have member := (perm.map Prod.fst).mem_iff.mp (own q (by simp [later]))
          rw [List.map_cons, List.mem_cons] at member
          rcases member with same | old
          · exact absurd same (none_left q later)
          · exact old)
      exact ⟨m', (p.seq, parts) :: log, by rw [delivered, ran],
        completed_cons inside distinct'.1 updated logged completed⟩
    · obtain ⟨m₁, delivered, logged, updated⟩ := deliver_continues env m p waits more
      have awaited' : ∀ response ∈ responses, Awaited m₁ rest response := by
        intro response old
        by_cases same : response.1 = p.seq
        · have this : response = (p.seq, parts) := List.inj_on_of_nodup_map distinct old inside same
          subst this
          refine ⟨_, later, ?_, fragments', whole.trans (assembled pending).symm⟩
          rw [updated, Function.update_self]
        · exact awaited_other (awaited response old) same updated
      obtain ⟨m', log, ran, completed⟩ := ih distinct awaited' fun q later =>
        own q (by simp [later])
      exact ⟨m', log, by rw [delivered, ran], completed_continues inside updated logged completed⟩

/-- Responses to requests of which nothing has come back yet, cut in any way and with their
packets in any order: each one is completed once, with its parts, and no longer pending. -/
theorem responses_assembled (env : Env) (m : MercuryManager) (responses : List (Bytes × List Bytes))
    (packets : List Packet) (distinct : (responses.map Prod.fst).Nodup)
    (outstanding : ∀ response ∈ responses, ∃ callback,
      m.pending response.1 = some ⟨[], none, callback⟩)
    (fragmented : ∀ response ∈ responses, Fragments response.2 (framesOf response.1 packets))
    (own : ∀ p ∈ packets, p.seq ∈ responses.map Prod.fst) :
    ∃ m' log, run (deliver env) (.ok m) packets = .ok m' ∧ m'.completed = m.completed ++ log ∧
      log.Perm responses ∧ ∀ response ∈ responses, m'.pending response.1 = none := by
  have awaited : ∀ response ∈ responses, Awaited m packets response := by
    intro response inside
    obtain ⟨callback, pending⟩ := outstanding response inside
    exact ⟨_, response.2, pending, fragmented response inside, by simp [joined]⟩
  obtain ⟨m', log, ran, completed, complete, gone, -⟩ := run_completes env distinct awaited own
  exact ⟨m', log, ran, completed, complete, gone⟩

section Examples

/-- Two requests, and no header can be parsed. -/
def twoRequests : MercuryManager where
  pending := fun seq => if seq = [1] ∨ seq = [2] then some ⟨[], none, none⟩ else none
  subscriptions := []
  delivered := []
  completed := []

def packet (seq flags : UInt8) (chunks : List Bytes) (few : chunks.length < 65536)
    (short : ∀ chunk ∈ chunks, chunk.length < 65536) : Packet :=
  ⟨.mercuryReq, [seq], flags, chunks, by simp, few, short⟩

/-- The answer to the second request comes between the two packets of the first one. -/
def interleaved : List Packet :=
  [packet 1 2 [[10]] (by decide) (by decide), packet 2 1 [[20]] (by decide) (by decide),
    packet 1 1 [[11], [12]] (by decide) (by decide)]

theorem interleaved_assembled :
    ∃ m' log, run (deliver ⟨fun _ => none, fun _ => false⟩) (.ok twoRequests) interleaved = .ok m' ∧
      m'.completed = [] ++ log ∧ log.Perm [([1], [[10, 11], [12]]), ([2], [[20]])] ∧
      ∀ response ∈ [(([1], [[10, 11], [12]]) : Bytes × List Bytes), ([2], [[20]])],
        m'.pending response.1 = none := by
  have first : Fragments [[10, 11], [12]] (framesOf [1] interleaved) :=
    @Fragments.cut [] [[12]] [10] [11] _ (.final (by decide))
  have second : Fragments [[20]] (framesOf [2] interleaved) := .final (by decide)
  refine responses_assembled _ twoRequests _ interleaved (by decide) ?_ ?_ (by decide)
  · intro response inside
    simp only [List.mem_cons, List.not_mem_nil, or_false] at inside
    rcases inside with rfl | rfl
    · exact ⟨none, rfl⟩
    · exact ⟨none, rfl⟩
  · intro response inside
    simp only [List.mem_cons, List.not_mem_nil, or_false] at inside
    rcases inside with rfl | rfl
    · exact first
    · exact second

end Examples

end MercuryAssembly
