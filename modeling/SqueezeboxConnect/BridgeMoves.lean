import SqueezeboxConnect.BridgeLoop

/-!
# What a round of the bridge can do

A round looks at the loading marker and may accept a client. What follows is a
sequence of moves, each with the conditions under which the loop makes it, and
perhaps a way out of the loop at its end. An invariant of the loop is therefore
an invariant of the moves.
-/

namespace BridgeMoves

open Relation Outcomes Streams OggPage HeaderTracker BridgeLoop Bridge

/-- The generation and the stream marker after a page that completed the headers, or not. -/
def Announced (config : Config) (b : Bridge) (headers : Headers) (generation : Nat)
    (marker : Option (Nat × Nat)) : Prop :=
  if b.headers.packets ≠ 3 ∧ headers.packets = 3 then
    generation = b.generation + 1 ∧
      marker = ((headers.serial.filter fun _ => config.marker).map (Prod.mk generation)).or
        b.streamMarker
  else generation = b.generation ∧ marker = b.streamMarker

/-- What accepting a client can do. -/
inductive Accepting (tick : Tick) (b : Bridge) : Bridge → Prop
  | nobody (refused : b.client = none → ∀ s, tick.accept = .socket s → acceptHttp s ≠ .ok ()) :
      Accepting tick b b
  | replayed {s : Socket} (socket : tick.accept = .socket s) (accepted : acceptHttp s = .ok ())
      (noClient : b.client = none) : Accepting tick b b.replay
  | replayFailed {s : Socket} {sent : List UInt8} (socket : tick.accept = .socket s)
      (accepted : acceptHttp s = .ok ()) (noClient : b.client = none)
      (part : sent <+: b.headers.bytes) (fails : s.replayFails.isSome ∨ s.timeoutSet = false) :
      Accepting tick b (b.failReplay sent)

/-- The answers to a write on which the bridge gives up a client. -/
def writeFails : Except ErrorKind Nat → Bool
  | .ok n => n == 0
  | .error e => e == .other

/-- What the rest of a round is made of. -/
inductive Move (config : Config) (tick : Tick) : Bridge → Bridge → Prop
  | discarded {b : Bridge} {p : Page} {rest : List Page} (noPending : b.pending = none)
      (queue : b.queue = p :: rest) (discards : b.discardUntilBos = true)
      (inside : p.isBos = false) : Move config tick b (b.discardPage p rest)
  | kept {b : Bridge} {p : Page} {rest : List Page} {headers : Headers} {generation : Nat}
      {marker : Option (Nat × Nat)} (noPending : b.pending = none) (queue : b.queue = p :: rest)
      (wanted : b.discardUntilBos = true → p.isBos = true)
      (observed : b.headers.observe p = .ok headers)
      (announced : Announced config b headers generation marker) :
      Move config tick b (keepPage { (b.takePage p rest).beginStream p with
        headers := headers, generation := generation, streamMarker := marker } p
        (p.isBos || b.headers.packets < 3))
  | timed {b : Bridge} (timeline : Option (Nat × Nat)) :
      Move config tick b { b with timeline := timeline }
  | wrote {b : Bridge} {p : Page} {c : Connection} {n : Nat} (pending : b.pending = some p)
      (client : b.client = some c) (written : tick.write = .ok n) (positive : 0 < n) :
      Move config tick b (b.advance p c n)
  | disconnected {b : Bridge} {p : Page} {c : Connection} (pending : b.pending = some p)
      (client : b.client = some c) (failed : writeFails tick.write = true) :
      Move config tick b b.disconnect

/-- The ways out of the loop. -/
inductive Leave : Bridge → Bridge → Prop
  | left {b : Bridge} (e : Exit) : Leave b (b.leave e)
  | failed {b : Bridge} {p : Page} {rest : List Page} (headers : Headers) (generation : Nat)
      (e : Exit) (noPending : b.pending = none) (queue : b.queue = p :: rest)
      (wanted : b.discardUntilBos = true → p.isBos = true) :
      Leave b (leave { (b.takePage p rest).beginStream p with
        headers := headers, generation := generation } e)

def Moves (config : Config) (tick : Tick) : Bridge → Bridge → Prop :=
  ReflTransGen (Move config tick)

/-- The state in which a round ends. -/
def Ends (config : Config) (tick : Tick) (b b' : Bridge) : Prop :=
  ∃ m, Moves config tick b m ∧ (b' = m ∨ Leave m b')

variable (config : Config) (tick : Tick) (b : Bridge)

theorem ends_of_moves {b b' : Bridge} (moves : Moves config tick b b') : Ends config tick b b' :=
  ⟨b', moves, Or.inl rfl⟩

theorem ends_of_leave {b b' : Bridge} (leaves : Leave b b') : Ends config tick b b' :=
  ⟨b, .refl, Or.inr leaves⟩

/-- The marker is the one that was seen last, or there is none, or it is a new one. -/
theorem checkLoading_cases :
    b.checkLoading config tick = b ∧ (∀ text, config.loadingMarker = true →
      readMarker tick.loading = some text → b.lastLoading = some text) ∨
    ∃ text, config.loadingMarker = true ∧ readMarker tick.loading = some text ∧
      b.lastLoading ≠ some text ∧ b.checkLoading config tick = b.startLoading text := by
  rw [checkLoading]
  split
  · rename_i given
    split
    · rename_i noMarker
      refine Or.inl ⟨rfl, ?_⟩
      intro text _ read
      rw [noMarker] at read
      cases read
    · rename_i text read
      split
      · rename_i seen
        refine Or.inl ⟨rfl, ?_⟩
        intro other _ read'
        rw [read] at read'
        rw [seen, read']
      · rename_i new
        exact Or.inr ⟨text, given, read, new, rfl⟩
  · rename_i notGiven
    refine Or.inl ⟨rfl, ?_⟩
    intro text given
    exact absurd given notGiven

theorem acceptClient_spec :
    Yields (b.acceptClient tick) (Accepting tick b)
      (fun b' => ∃ m, Accepting tick b m ∧ Leave m b') := by
  rw [acceptClient]
  split
  · rename_i client
    refine .nobody fun noClient => ?_
    rw [noClient] at client
    cases client
  · rename_i noClient
    have absent : b.client = none := by simpa using noClient
    split
    · rename_i waits
      refine .nobody fun _ s socket => ?_
      rw [waits] at socket
      cases socket
    · rename_i fails
      refine ⟨b, .nobody fun _ s socket => ?_, .left .accept⟩
      rw [fails] at socket
      cases socket
    · rename_i s socket
      split
      · rename_i rejected
        refine .nobody fun _ other same accepted => ?_
        rw [socket] at same
        cases same
        rw [rejected] at accepted
        cases accepted
      · rename_i accepted
        split
        · rename_i n fails
          exact .replayFailed socket accepted absent (List.take_prefix _ _)
            (Or.inl (by simp [fails]))
        · split
          · exact .replayed socket accepted absent
          · rename_i unset
            exact ⟨_, .replayFailed socket accepted absent (List.prefix_refl _)
              (Or.inr (by simpa using unset)), .left .writeTimeout⟩

theorem announce_spec (h : Headers) :
    Yields (announce config tick { b with headers := h })
      (fun b' => ∃ marker, b' = { b with
        headers := h, generation := b.generation + 1, streamMarker := marker } ∧
        marker = ((h.serial.filter fun _ => config.marker).map (Prod.mk (b.generation + 1))).or
          b.streamMarker)
      (fun b' => b' = leave { b with headers := h, generation := b.generation + 1 } .marker) := by
  simp only [announce]
  split
  · rename_i serial given hserial
    split
    · refine ⟨_, rfl, ?_⟩
      have hserial' : h.serial = some serial := hserial
      rw [given, hserial']
      rfl
    · rfl
  · rename_i notBoth
    refine ⟨_, rfl, ?_⟩
    cases hserial : h.serial with
    | none => rfl
    | some serial =>
      cases given : config.marker with
      | false => rfl
      | true => exact absurd hserial (notBoth serial given)

theorem beginStream_frame (p : Page) :
    let b' := b.beginStream p
    b'.headers = b.headers ∧ b'.generation = b.generation ∧ b'.streamMarker = b.streamMarker ∧
      b'.received = b.received ∧ b'.connections = b.connections ∧ b'.log = b.log := by
  rw [beginStream]
  split
  · exact ⟨rfl, rfl, rfl, rfl, by simp [connections, closeClient], rfl⟩
  · exact ⟨rfl, rfl, rfl, rfl, rfl, rfl⟩

/-- The state after a page that is kept. -/
abbrev keptPage (p : Page) (rest : List Page) (headers : Headers) (generation : Nat)
    (marker : Option (Nat × Nat)) : Bridge :=
  keepPage { (b.takePage p rest).beginStream p with
    headers := headers, generation := generation, streamMarker := marker } p
    (p.isBos || b.headers.packets < 3)

structure KeptPage (p : Page) (headers : Headers) (generation : Nat) (marker : Option (Nat × Nat))
    (b' : Bridge) : Prop where
  received : b'.received = b.received ++ [p]
  connections : b'.connections = b.connections
  discards : b'.discardUntilBos = true → b.discardUntilBos = true ∧ p.isBos = false
  sameClient : p.isBos = false → b'.client = b.client
  noClient : p.isBos = true → b'.client = none
  stream : b'.headers = headers ∧ b'.generation = generation ∧ b'.streamMarker = marker
  log : b'.log = b.log
  lastLoading : b'.lastLoading = b.lastLoading

theorem keptPage_spec (p : Page) (rest : List Page) (headers : Headers) (generation : Nat)
    (marker : Option (Nat × Nat)) :
    KeptPage b p headers generation marker (keptPage b p rest headers generation marker) := by
  by_cases bos : p.isBos = true
  · have all : (b.takePage p rest).closeClient.connections = b.connections := by
      simp [connections, closeClient, takePage]
    simp only [keptPage, keepPage, beginStream, if_pos bos]
    split
    · exact ⟨rfl, all, nofun, by simp [bos], fun _ => rfl, by simp, rfl, rfl⟩
    · exact ⟨rfl, all, nofun, by simp [bos], fun _ => rfl, by simp, rfl, rfl⟩
  · have inside : p.isBos = false := by simpa using bos
    simp only [keptPage, keepPage, beginStream, if_neg bos]
    split
    · exact ⟨rfl, rfl, (⟨·, inside⟩), fun _ => rfl, by simp [bos], by simp, rfl, rfl⟩
    · exact ⟨rfl, rfl, (⟨·, inside⟩), fun _ => rfl, by simp [bos], by simp, rfl, rfl⟩

/-- What is written goes to the client and the log. -/
theorem advance_frame (p : Page) (c : Connection) (n : Nat) :
    let b' := b.advance p c n
    b'.received = b.received ∧ b'.closed = b.closed ∧ b'.discardUntilBos = b.discardUntilBos ∧
      b'.lastLoading = b.lastLoading ∧
      b'.log = b.log ++ [.sent b.lastPage ((p.bytes.drop b.offset).take n)] := by
  simp only [advance]
  split
  · exact ⟨rfl, rfl, rfl, rfl, rfl⟩
  · exact ⟨rfl, rfl, rfl, rfl, rfl⟩

theorem handlePage_moves {p : Page} {rest : List Page} (noPending : b.pending = none)
    (queue : b.queue = p :: rest) :
    Yields (b.handlePage config tick p rest) (Moves config tick b) (Ends config tick b) := by
  simp only [handlePage]
  split
  · rename_i discards
    simp only [Bool.and_eq_true, Bool.not_eq_true'] at discards
    exact ends_of_moves config tick (.single (.discarded noPending queue discards.1 discards.2))
  · rename_i keeps
    have wanted : b.discardUntilBos = true → p.isBos = true := by
      intro discards
      simpa [discards] using keeps
    obtain ⟨same, generation, marker, -⟩ := beginStream_frame (b.takePage p rest) p
    rw [same]
    split
    · rename_i e _
      exact ends_of_leave config tick (.failed _ _ (.header e) noPending queue wanted)
    · rename_i headers observed
      have observed' : b.headers.observe p = .ok headers := observed
      refine yields_bind (fun b' => ∃ g m, Announced config b headers g m ∧
        b' = { (b.takePage p rest).beginStream p with
          headers := headers, generation := g, streamMarker := m }) ?_ ?_
      · split
        · rename_i ready
          have complete : b.headers.packets ≠ 3 ∧ headers.packets = 3 := by simpa using ready
          refine yields_mono (announce_spec config tick _ headers) ?_ ?_
          · rintro b' ⟨m, rfl, hm⟩
            refine ⟨_, m, ?_, rfl⟩
            rw [Announced, if_pos complete, generation]
            rw [generation, marker] at hm
            exact ⟨rfl, hm⟩
          · rintro b' rfl
            exact ends_of_leave config tick (.failed headers _ .marker noPending queue wanted)
        · rename_i notReady
          have incomplete : ¬ (b.headers.packets ≠ 3 ∧ headers.packets = 3) := by
            simpa using notReady
          refine ⟨_, _, ?_, rfl⟩
          rw [Announced, if_neg incomplete]
          exact ⟨generation, marker⟩
      · rintro b' ⟨g, m, announced, rfl⟩
        exact .single (.kept noPending queue wanted observed' announced)

theorem receive_moves :
    Yields (b.receive config tick) (Moves config tick b) (Ends config tick b) := by
  rw [receive]
  split
  · exact .refl
  · rename_i noPending
    have absent : b.pending = none := by simpa using noPending
    split
    · exact ends_of_moves config tick .refl
    · split
      · rename_i p rest queue
        exact handlePage_moves config tick b absent queue
      · split
        · exact ends_of_leave config tick (.left .eof)
        · exact ends_of_leave config tick (.left (.read _))

theorem writePending_moves {p : Page} {c : Connection} (pending : b.pending = some p)
    (client : b.client = some c) : Moves config tick b (b.writePending tick p c) := by
  rw [writePending]
  split
  · split
    · rename_i written positive
      exact .single (.wrote pending client written positive)
    · rename_i written nothing
      refine .single (.disconnected pending client ?_)
      rw [written]
      simpa [writeFails] using nothing
  · exact .refl
  · exact .refl
  · exact .refl
  · rename_i failed
    refine .single (.disconnected pending client ?_)
    rw [failed]
    rfl

theorem forward_moves : Moves config tick b (b.forward config tick) := by
  simp only [forward]
  split
  · rename_i p c pending client
    split
    · split
      · exact .single (.timed _)
      · exact .head (.timed _) (writePending_moves config tick _ pending client)
    · exact writePending_moves config tick _ pending client
  · exact .refl

/-- A round up to the point where the pending page is forwarded. -/
def prepare : Except Bridge Bridge := do
  let b ← (b.checkLoading config tick).acceptClient tick
  let b ← b.hold
  b.receive config tick

theorem prepare_spec :
    Yields (prepare config tick b)
      (fun b' => ∃ m, Accepting tick (b.checkLoading config tick) m ∧ Moves config tick m b')
      (fun b' => ∃ m, Accepting tick (b.checkLoading config tick) m ∧ Ends config tick m b') := by
  rw [prepare]
  generalize b.checkLoading config tick = b
  refine yields_bind (Accepting tick b) ?_ ?_
  · refine yields_mono (acceptClient_spec tick b) (fun _ accepting => accepting) ?_
    rintro b' ⟨m, accepting, leaves⟩
    exact ⟨m, accepting, ends_of_leave config tick leaves⟩
  · intro m accepting
    refine yields_mono (?_ : Yields _ (Moves config tick m) (Ends config tick m))
      (fun _ moves => ⟨m, accepting, moves⟩) (fun _ ends => ⟨m, accepting, ends⟩)
    refine yields_bind (fun b' => b' = m) ?_ ?_
    · rw [hold]
      split
      · exact ends_of_moves config tick .refl
      · rfl
    · intro held same
      rw [same]
      exact receive_moves config tick m

theorem round_eq_prepare :
    b.round config tick = prepare config tick b >>= fun b => pure (b.forward config tick) := by
  simp only [Bridge.round, prepare, bind_assoc]

theorem round_spec :
    Yields (b.round config tick)
      (fun b' => ∃ m, Accepting tick (b.checkLoading config tick) m ∧ Moves config tick m b')
      (fun b' => ∃ m, Accepting tick (b.checkLoading config tick) m ∧ Ends config tick m b') := by
  rw [round_eq_prepare]
  refine yields_bind _ (prepare_spec config tick b) ?_
  rintro b' ⟨m, accepting, moves⟩
  exact ⟨m, accepting, moves.trans (forward_moves config tick b')⟩

/-- What a round yields holds after the step, however the round ends. -/
theorem step_yields {P : Bridge → Prop} (running : b.exit = none)
    (yields : Yields (b.round config tick) P P) : P (step config b tick) := by
  rw [step, running]
  cases result : b.round config tick with
  | ok b' =>
    rw [result] at yields
    exact yields
  | error b' =>
    rw [result] at yields
    exact yields

theorem step_ends (running : b.exit = none) :
    ∃ m, Accepting tick (b.checkLoading config tick) m ∧
      Ends config tick m (step config b tick) := by
  have ends : Yields (b.round config tick)
      (fun b' => ∃ m, Accepting tick (b.checkLoading config tick) m ∧ Ends config tick m b')
      (fun b' => ∃ m, Accepting tick (b.checkLoading config tick) m ∧ Ends config tick m b') := by
    refine yields_mono (round_spec config tick b) ?_ fun _ ends => ends
    rintro b' ⟨m, accepting, moves⟩
    exact ⟨m, accepting, ends_of_moves config tick moves⟩
  exact step_yields config tick b running ends

theorem accepting_lastLoading {b b' : Bridge} (accepting : Accepting tick b b') :
    b'.lastLoading = b.lastLoading := by
  cases accepting <;> rfl

theorem move_lastLoading {b b' : Bridge} (move : Move config tick b b') :
    b'.lastLoading = b.lastLoading := by
  cases move with
  | kept => exact (keptPage_spec ..).lastLoading
  | wrote => exact (advance_frame ..).2.2.2.1
  | _ => rfl

theorem leave_exit {b b' : Bridge} (leaves : Leave b b') : b'.exit ≠ none := by
  cases leaves <;> simp [leave]

theorem moves_running {running : Bridge → Prop}
    (moves : ∀ b b', running b → Move config tick b b' → running b') {b b' : Bridge}
    (path : Moves config tick b b') (start : running b) : running b' := by
  induction path with
  | refl => exact start
  | tail _ move ih => exact moves _ _ ih move

/-- What holds between the rounds of a bridge, and what of it is left when it has ended. -/
structure Kept (between always : Bridge → Prop) (b : Bridge) : Prop where
  between : b.exit = none → between b
  always : always b

/-- The invariant rule: looking at the marker and accepting a client establish
what the moves keep. -/
theorem step_kept {before waiting running between always : Bridge → Prop}
    (loading : before b → waiting (b.checkLoading config tick))
    (accepting : ∀ b b', waiting b → Accepting tick b b' → running b')
    (moves : ∀ b b', running b → Move config tick b b' → running b')
    (after : ∀ b, running b → between b) (weaker : ∀ b, running b → always b)
    (leaves : ∀ b b', running b → Leave b b' → always b') (start : b.exit = none → before b)
    (ended : b.exit ≠ none → always b) : Kept between always (step config b tick) := by
  by_cases alive : b.exit = none
  · obtain ⟨m₁, accepts, m, path, last⟩ := step_ends config tick b alive
    have along := moves_running config tick moves path
      (accepting _ m₁ (loading (start alive)) accepts)
    rcases last with same | leaving
    · rw [same]
      exact ⟨fun _ => after m along, weaker m along⟩
    · exact ⟨fun still => absurd still (leave_exit leaving), leaves m _ along leaving⟩
  · have stays : step config b tick = b := by
      rw [step, if_pos]
      simpa [Option.isSome_iff_ne_none] using alive
    rw [stays]
    exact ⟨fun still => absurd still alive, ended alive⟩

end BridgeMoves
