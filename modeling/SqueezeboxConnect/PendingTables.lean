import SqueezeboxConnect.MercuryAssembly
import SqueezeboxConnect.Requesters
import SqueezeboxConnect.Runs
import SqueezeboxConnect.SessionDispatch

/-!
# Requests that are waited for

A request for an audio key and a Mercury request are written into a table under a
new sequence number before they are sent. The sender of the answer is in the
table, and the requester waits at the other end. The entry is taken out when a
packet with its number comes. If the request cannot be sent, if a key does not
come in time, or if the future is dropped, the requester is gone and the entry
stays.

Packets are dispatched one after the other. A panic while a packet is taken apart
comes behind the removal of its entry. The number of a new request is drawn and
written into the table in one step. Requesters are numbered as they come.
-/

namespace PendingTables

open ByteFields Mercury SessionDispatch Words

/-- Why somebody stops waiting without an answer. -/
inductive Reason where
  | sendFailed
  | timedOut
  | dropped

/-- The receiving half of the channel is gone. -/
def disconnect (id : Nat) (callback : Callback) : Callback :=
  if callback.id = id then { callback with connected := false } else callback

section AudioKeys

structure AudioKeys where
  manager : AudioKeyManager := ⟨fun _ => none, []⟩
  sequence : Nat := 0
  requesters : Nat := 0
  gone : List Nat := []

namespace AudioKeys

def request (a : AudioKeys) : AudioKeys where
  manager := { a.manager with
    pending := Function.update a.manager.pending a.sequence (some ⟨a.requesters, true⟩) }
  sequence := (a.sequence + 1) % 2 ^ 32
  requesters := a.requesters + 1
  gone := a.gone

def giveUp (a : AudioKeys) (id : Nat) : AudioKeys :=
  if id < a.requesters then
    { a with
      manager := { a.manager with
        pending := fun seq => (a.manager.pending seq).map (disconnect id) }
      gone := a.gone ++ [id] }
  else a

/-- The entry that a packet removes before it panics. -/
def removed (a : AudioKeys) (data : Bytes) : AudioKeys :=
  match splitTo 4 data with
  | .error _ => a
  | .ok (front, _) =>
    { a with manager := { a.manager with
      pending := Function.update a.manager.pending (beNat front) none } }

def dispatch (logsErrors : Bool) (a : AudioKeys) (cmd : PacketType) (data : Bytes) : AudioKeys :=
  match a.manager.dispatch logsErrors cmd data with
  | .ok (manager, _) => { a with manager }
  | .error _ => a.removed data

def Waiting (a : AudioKeys) (id : Nat) : Prop :=
  id < a.requesters ∧ id ∉ a.gone ∧ id ∉ a.manager.delivered.map Prod.fst

/-- Only requests that are waited for are in the table. -/
def Tidy (a : AudioKeys) : Prop :=
  ∀ seq callback, a.manager.pending seq = some callback → a.Waiting callback.id

end AudioKeys

end AudioKeys

section Requests

/-- A Mercury manager with the requesters and the numbers of the events so far. -/
structure Requests where
  manager : MercuryManager := ⟨fun _ => none, [], [], []⟩
  sequence : Nat := 0
  invalid : Bool := false
  requesters : Nat := 0
  gone : List Nat := []
  events : List Bytes := []

/-- `BigEndian::write_u64`. -/
def be64 (n : Nat) : Bytes := (List.range 8).map fun i => UInt8.ofNat (n / 256 ^ (7 - i))

namespace Requests

variable (r : Requests)

def request : Requests where
  manager :=
    if r.invalid then r.manager
    else r.manager.insert (be64 r.sequence) ⟨[], none, some ⟨r.requesters, true⟩⟩
  sequence := (r.sequence + 1) % 2 ^ 64
  invalid := r.invalid
  requesters := r.requesters + 1
  gone := r.gone
  events := r.events

def giveUp (id : Nat) : Requests :=
  if id < r.requesters then
    { r with
      manager := { r.manager with
        pending := fun seq => (r.manager.pending seq).map fun entry =>
          { entry with callback := entry.callback.map (disconnect id) } }
      gone := r.gone ++ [id] }
  else r

/-- The entry that a packet removes before it panics. -/
def removed (data : Bytes) : Requests :=
  match readHead data with
  | .error _ => r
  | .ok (seq, _) => { r with manager := r.manager.remove seq }

def noteEvent (cmd : PacketType) (data : Bytes) : Requests :=
  match readHead data with
  | .error _ => r
  | .ok (seq, _) => if cmd = .mercuryEvent then { r with events := r.events ++ [seq] } else r

def dispatch (env : Mercury.Env) (r : Requests) (cmd : PacketType) (data : Bytes) : Requests :=
  match r.manager.dispatch env cmd data with
  | .ok (manager, _) => { r.noteEvent cmd data with manager }
  | .error _ => (r.noteEvent cmd data).removed data

def listen (subscription : Subscription) : Requests :=
  if r.invalid then r
  else { r with manager := { r.manager with
    subscriptions := r.manager.subscriptions ++ [subscription] } }

def shutdown : Requests :=
  { r with
    manager := { r.manager with pending := fun _ => none, subscriptions := [] }
    invalid := true }

def Waiting (id : Nat) : Prop :=
  id < r.requesters ∧ id ∉ r.gone ∧ id ∉ r.manager.delivered.map Prod.fst

/-- Only requests that are waited for are in the table, and events of which a part has come. -/
def Tidy : Prop :=
  ∀ seq entry, r.manager.pending seq = some entry →
    match entry.callback with
    | some callback => r.Waiting callback.id
    | none => seq ∈ r.events

end Requests

end Requests

structure System where
  keys : AudioKeys := {}
  mercury : Requests := {}

inductive Event where
  | requestKey
  | keyGivenUp (id : Nat) (reason : Reason)
  | keyPacket (logsErrors : Bool) (cmd : PacketType) (data : Bytes)
  | request
  | givenUp (id : Nat) (reason : Reason)
  | packet (env : Mercury.Env) (cmd : PacketType) (data : Bytes)
  | listen (subscription : Subscription)
  | shutdown

def step (s : System) : Event → System
  | .requestKey => { s with keys := s.keys.request }
  | .keyGivenUp id _ => { s with keys := s.keys.giveUp id }
  | .keyPacket logsErrors cmd data => { s with keys := s.keys.dispatch logsErrors cmd data }
  | .request => { s with mercury := s.mercury.request }
  | .givenUp id _ => { s with mercury := s.mercury.giveUp id }
  | .packet env cmd data => { s with mercury := s.mercury.dispatch env cmd data }
  | .listen subscription => { s with mercury := s.mercury.listen subscription }
  | .shutdown => { s with mercury := s.mercury.shutdown }

def Tidy (s : System) : Prop := s.keys.Tidy ∧ s.mercury.Tidy

section KeyBook

open Requesters

variable (a : AudioKeys)

/-- Who waits for which key. -/
def AudioKeys.book : Book Nat where
  owner := Option.map Callback.id ∘ a.manager.pending
  next := a.requesters
  gone := a.gone
  answered := a.manager.delivered.map Prod.fst

theorem AudioKeys.tidy_iff : a.Tidy ↔ Requesters.Tidy a.book := by
  constructor
  · intro tidy seq id found
    obtain ⟨callback, there, rfl⟩ := Option.map_eq_some_iff.mp found
    exact tidy seq callback there
  · intro tidy seq callback there
    exact tidy seq callback.id (Option.map_eq_some_iff.mpr ⟨callback, there, rfl⟩)

theorem AudioKeys.leads_request : Leads a.book a.request.book True := by
  refine ⟨.ask a.sequence, ?_, Iff.rfl⟩
  simp only [book, request, Requesters.step, Function.comp_update, Option.map_some]

theorem disconnect_id (id : Nat) (callback : Callback) :
    (disconnect id callback).id = callback.id := by
  rw [disconnect]
  split <;> rfl

theorem AudioKeys.leads_giveUp (id : Nat) : Leads a.book (a.giveUp id).book
    (∀ seq callback, a.manager.pending seq = some callback → callback.id ≠ id) := by
  have owners : (Option.map Callback.id ∘ fun seq => (a.manager.pending seq).map (disconnect id)) =
      Option.map Callback.id ∘ a.manager.pending := by
    funext seq
    simp [Function.comp_def, disconnect_id]
  refine ⟨.leave id, ?_, by simp [Fair, book]⟩
  rw [giveUp]
  split
  · next known => simp only [book, owners, Requesters.step, known, if_true]
  · next unknown => simp only [book, Requesters.step, unknown, if_false]

theorem AudioKeys.leads_settle {seq : Nat} {sender : Callback} {manager : AudioKeyManager}
    (there : a.manager.pending seq = some sender)
    (pending : manager.pending = Function.update a.manager.pending seq none)
    (delivered : manager.delivered = a.manager.delivered ∨
      ∃ message, manager.delivered = a.manager.delivered ++ [(sender.id, message)]) :
    Leads a.book (AudioKeys.book { a with manager }) True := by
  rcases delivered with same | ⟨message, sent⟩
  · refine ⟨.settle seq false, ?_, Iff.rfl⟩
    simp only [book, Requesters.step, pending, same, Function.comp_update, Option.map_none]
    rfl
  · refine ⟨.settle seq true, ?_, Iff.rfl⟩
    simp only [book, Requesters.step, pending, sent, Function.comp_update, Option.map_none,
      List.map_append, Function.comp_apply, there, Option.map_some]
    rfl

theorem send_frame (manager : AudioKeyManager) (sender : Callback)
    (message : Except AudioKeyError Bytes) :
    (manager.send sender message).1.pending = manager.pending ∧
      ((manager.send sender message).1.delivered = manager.delivered ∨
        (manager.send sender message).1.delivered = manager.delivered ++
        [(sender.id, message)]) := by
  rw [AudioKeyManager.send]
  split
  · exact ⟨rfl, .inr rfl⟩
  · exact ⟨rfl, .inl rfl⟩

theorem dispatch_settles {logsErrors : Bool} {manager after : AudioKeyManager} {cmd : PacketType}
    {data front rest : Bytes} {sender : Callback} {result : Except AudioKeyError Unit}
    (halves : splitTo 4 data = .ok (front, rest))
    (there : manager.pending (beNat front) = some sender)
    (done : manager.dispatch logsErrors cmd data = .ok (after, result)) :
    after.pending = Function.update manager.pending (beNat front) none ∧
      (after.delivered = manager.delivered ∨
        ∃ message, after.delivered = manager.delivered ++ [(sender.id, message)]) := by
  have sent : ∀ message, (Except.ok (AudioKeyManager.send
      { manager with pending := Function.update manager.pending (beNat front) none }
        sender message) : Except Panic _) = .ok (after, result) →
      after.pending = Function.update manager.pending (beNat front) none ∧
        (after.delivered = manager.delivered ∨
          ∃ message, after.delivered = manager.delivered ++ [(sender.id, message)]) := by
    intro message same
    obtain ⟨pending, delivered⟩ := send_frame
      { manager with pending := Function.update manager.pending (beNat front) none } sender message
    rw [Except.ok.inj same] at pending delivered
    exact ⟨pending, delivered.imp id fun more => ⟨message, more⟩⟩
  rw [AudioKeyManager.dispatch, halves] at done
  simp only [Except.bind, there] at done
  split at done
  · split at done
    · cases done
    · exact sent _ done
  · split at done
    · cases done
    · exact sent _ done
  · cases done
    exact ⟨rfl, .inl rfl⟩

/-- What a packet does to the table: nothing, or it takes one entry out. -/
theorem AudioKeys.leads_dispatch (logsErrors : Bool) (cmd : PacketType) (data : Bytes) :
    Leads a.book (a.dispatch logsErrors cmd data).book True := by
  cases halves : splitTo 4 data with
  | error panic =>
    simp only [dispatch, AudioKeyManager.dispatch, removed, halves, Except.bind]
    exact leads_self a.book
  | ok parts =>
    obtain ⟨front, rest⟩ := parts
    cases there : a.manager.pending (beNat front) with
    | none =>
      simp only [dispatch, AudioKeyManager.dispatch, halves, Except.bind, there]
      exact leads_self a.book
    | some sender =>
      rw [dispatch]
      cases done : a.manager.dispatch logsErrors cmd data with
      | error panic =>
        simp only [removed, halves]
        exact a.leads_settle there rfl (.inl rfl)
      | ok outcome =>
        obtain ⟨pending, delivered⟩ := dispatch_settles halves there done
        exact a.leads_settle there pending delivered

end KeyBook

variable {pending : MercuryPending}

section MercuryBook

open Requesters

variable (r : Requests)

def ownerOf (entry : Option MercuryPending) : Option Nat :=
  (entry.bind MercuryPending.callback).map Callback.id

/-- Who waits for which response. -/
def Requests.book : Book Bytes where
  owner := ownerOf ∘ r.manager.pending
  next := r.requesters
  gone := r.gone
  answered := r.manager.delivered.map Prod.fst

/-- The entries that nobody waits for belong to events. -/
def Requests.Events : Prop :=
  ∀ seq entry, r.manager.pending seq = some entry → entry.callback = none → seq ∈ r.events

theorem Requests.tidy_iff : r.Tidy ↔ Requesters.Tidy r.book ∧ r.Events := by
  constructor
  · intro tidy
    constructor
    · intro seq id found
      obtain ⟨callback, there, rfl⟩ := Option.map_eq_some_iff.mp found
      obtain ⟨entry, pending, waited⟩ := Option.bind_eq_some_iff.mp there
      have waits := tidy seq entry pending
      rw [waited] at waits
      exact waits
    · intro seq entry pending alone
      have event := tidy seq entry pending
      rw [alone] at event
      exact event
  · rintro ⟨tidy, events⟩ seq entry pending
    split
    · next callback waited =>
      refine tidy seq callback.id ?_
      simp [book, ownerOf, pending, waited]
    · next alone => exact events seq entry pending alone

theorem Requests.leads_request : Leads r.book r.request.book True := by
  cases invalid : r.invalid with
  | true =>
    refine ⟨.askInVain, ?_, Iff.rfl⟩
    simp only [book, request, invalid, if_true, Requesters.step]
  | false =>
    refine ⟨.ask (be64 r.sequence), ?_, Iff.rfl⟩
    simp only [book, request, invalid, Bool.false_eq_true, if_false, MercuryManager.insert,
      Requesters.step, Function.comp_update]
    rfl

theorem Requests.leads_giveUp (id : Nat) : Leads r.book (r.giveUp id).book
    (∀ seq entry callback, r.manager.pending seq = some entry →
      entry.callback = some callback → callback.id ≠ id) := by
  have owners : (ownerOf ∘ fun seq => (r.manager.pending seq).map fun entry =>
      { entry with callback := entry.callback.map (disconnect id) }) =
        ownerOf ∘ r.manager.pending := by
    funext seq
    cases pending : r.manager.pending seq with
    | none => simp [ownerOf, pending]
    | some entry => simp [ownerOf, pending, Function.comp_def, disconnect_id]
  refine ⟨.leave id, ?_, by simp [Fair, book, ownerOf, Option.bind_eq_some_iff]; grind⟩
  rw [giveUp]
  split
  · next known => simp only [book, owners, Requesters.step, known, if_true]
  · next unknown => simp only [book, Requesters.step, unknown, if_false]

variable {flags : UInt8} {count : Nat}

section Packets

variable {env : Mercury.Env} {cmd : PacketType} {m after : MercuryManager} {seq : Bytes}

theorem addParts_callback (flags : UInt8) (pending : MercuryPending) (parts : List Bytes) :
    (pending.addParts flags parts).callback = pending.callback := by
  induction parts generalizing pending with
  | nil => rfl
  | cons part rest ih =>
    rw [MercuryPending.addParts, ih, MercuryPending.addPart]
    split <;> rfl

theorem receiveParts_callback {after : MercuryPending} {data rest : Bytes}
    (read : receiveParts flags count pending data = .ok (after, rest)) :
    after.callback = pending.callback := by
  rw [receiveParts_eq] at read
  obtain ⟨⟨parts, left⟩, -, same⟩ := Outcomes.ok_of_bind read
  cases same
  exact addParts_callback flags pending parts

theorem mercurySend_delivered (m : MercuryManager) (callback : Callback)
    (message : Except MercuryError MercuryResponse) :
    (m.send callback message).1.delivered = m.delivered ∨
      (m.send callback message).1.delivered = m.delivered ++ [(callback.id, message)] := by
  rw [MercuryManager.send]
  split
  · exact .inr rfl
  · exact .inl rfl

/-- A response is for the one whose callback it is. -/
theorem respond_delivered (env : Mercury.Env) (m : MercuryManager) (cmd : PacketType)
    (callback : Option Callback) (response : MercuryResponse) :
    (m.respond env cmd callback response).1.delivered = m.delivered ∨ ∃ sender message,
      callback = some sender ∧
        (m.respond env cmd callback response).1.delivered = m.delivered ++
        [(sender.id, message)] := by
  unfold MercuryManager.respond
  split
  · exact .inl rfl
  · split
    · cases callback with
      | none => exact .inl rfl
      | some sender =>
        have sent := mercurySend_delivered m sender (.error (.response response))
        dsimp only
        split
        · next done =>
          rw [done] at sent
          exact sent.imp id fun more => ⟨sender, _, rfl, more⟩
        · next failed =>
          rw [failed] at sent
          exact sent.imp id fun more => ⟨sender, _, rfl, more⟩
    · split
      · dsimp only
        split <;> exact .inl rfl
      · cases callback with
        | none => exact .inl rfl
        | some sender =>
          exact (mercurySend_delivered m sender (.ok response)).imp id
            fun more => ⟨sender, _, rfl, more⟩

/-- What is left of an entry behind a packet. -/
inductive Left (m : MercuryManager) (seq : Bytes) (callback : Option Callback)
    (after : MercuryManager) : Prop
  | kept (entry : MercuryPending) (same : entry.callback = callback)
      (pending : after.pending = Function.update m.pending seq (some entry))
      (delivered : after.delivered = m.delivered)
  | settled (pending : after.pending = Function.update m.pending seq none)
      (delivered : after.delivered = m.delivered)
  | answered (sender : Callback) (message : Except MercuryError MercuryResponse)
      (owner : callback = some sender)
      (pending : after.pending = Function.update m.pending seq none)
      (delivered : after.delivered = m.delivered ++ [(sender.id, message)])

variable {result : Except MercuryError Unit}

theorem completeRequest_left {removed : MercuryManager}
    (done : removed.completeRequest env cmd pending = .ok (after, result))
    (taken : removed.pending = Function.update m.pending seq none)
    (same : removed.delivered = m.delivered) : Left m seq pending.callback after := by
  rw [MercuryManager.completeRequest] at done
  split at done
  · cases done
  · split at done
    · cases done
      exact .settled taken same
    · next part payload parts _ header parsed =>
      have frame := (MercuryAssembly.respond_frame env removed cmd pending.callback
        ⟨header.uri, header.statusCode, payload⟩).1
      have sent := respond_delivered env removed cmd pending.callback
        ⟨header.uri, header.statusCode, payload⟩
      rw [Except.ok.inj done] at frame sent
      rcases sent with nothing | ⟨sender, message, owner, more⟩
      · exact .settled (frame.trans taken) (nothing.trans same)
      · exact .answered sender message owner (frame.trans taken) (same ▸ more)

section

variable (awaited : m.awaited cmd seq = some pending)
include awaited

theorem receive_left {data : Bytes}
    (done : m.receive env cmd seq flags count data = .ok (after, result)) :
    Left m seq pending.callback after := by
  rw [MercuryManager.receive, awaited] at done
  obtain ⟨⟨received, rest⟩, read, done⟩ := Outcomes.ok_of_bind done
  have same := receiveParts_callback read
  dsimp only at done
  split at done
  · rw [← same]
    exact completeRequest_left done rfl rfl
  · cases done
    refine .kept received same ?_ rfl
    rw [MercuryManager.insert, MercuryManager.remove, Function.update_idem]

theorem awaited_cases :
    m.pending seq = some pending ∨
      m.pending seq = none ∧ pending.callback = none ∧ cmd = .mercuryEvent := by
  rw [MercuryManager.awaited] at awaited
  cases there : m.pending seq with
  | some entry =>
    rw [there, Option.some_or] at awaited
    exact .inl awaited
  | none =>
    rw [there, Option.none_or] at awaited
    split at awaited
    · next event =>
      cases awaited
      exact .inr ⟨rfl, rfl, event⟩
    · cases awaited

theorem awaited_owner : ownerOf (m.pending seq) = pending.callback.map Callback.id := by
  rcases awaited_cases awaited with there | ⟨absent, alone, -⟩
  · rw [there]
    rfl
  · rw [absent, alone]
    rfl

end

end Packets

theorem Requests.leads_left {seq : Bytes} {cmd : PacketType} {manager : MercuryManager}
    {events : List Bytes} (awaited : r.manager.awaited cmd seq = some pending)
    (left : Left r.manager seq pending.callback manager) :
    Leads r.book (Requests.book { r with manager, events }) True := by
  have owner := awaited_owner awaited
  cases left with
  | kept entry same pending delivered =>
    refine ⟨.stay, ?_, Iff.rfl⟩
    have unchanged : ownerOf (some entry) = (ownerOf ∘ r.manager.pending) seq := by
      rw [Function.comp_apply, owner, ← same]
      rfl
    simp only [book, pending, delivered, Function.comp_update, unchanged, Function.update_eq_self,
      Requesters.step]
  | settled pending delivered =>
    refine ⟨.settle seq false, ?_, Iff.rfl⟩
    simp only [book, pending, delivered, Function.comp_update, Requesters.step]
    rfl
  | answered sender message waited pending delivered =>
    refine ⟨.settle seq true, ?_, Iff.rfl⟩
    simp only [book, pending, delivered, Function.comp_update, Requesters.step, if_true,
      Function.comp_apply, owner, waited, List.map_append]
    rfl

theorem Requests.noteEvent_eq (cmd : PacketType) {data seq rest : Bytes}
    (head : readHead data = .ok (seq, flags, count, rest)) :
    ∃ events, r.noteEvent cmd data = { r with events } ∧
      (∀ other ∈ r.events, other ∈ events) ∧ (cmd = .mercuryEvent → seq ∈ events) := by
  rw [noteEvent, head]
  dsimp only
  split
  · exact ⟨_, rfl, fun _ inside => List.mem_append_left _ inside, fun _ => List.mem_concat_self⟩
  · next other => exact ⟨_, rfl, fun _ inside => inside, fun event => absurd event other⟩

/-- What a packet does to the table: nothing, or there is an entry for it and something may be left
of the entry. -/
theorem Requests.dispatch_cases (env : Mercury.Env) (cmd : PacketType) (data : Bytes) :
    ∃ manager events, r.dispatch env cmd data = { r with manager, events } ∧
      (∀ other ∈ r.events, other ∈ events) ∧
      (manager = r.manager ∨ ∃ seq pending, r.manager.awaited cmd seq = some pending ∧
        Left r.manager seq pending.callback manager ∧ (cmd = .mercuryEvent → seq ∈ events)) := by
  cases head : readHead data with
  | error panic =>
    refine ⟨r.manager, r.events, ?_, fun _ inside => inside, .inl rfl⟩
    simp only [dispatch, MercuryManager.dispatch, head, Except.bind, noteEvent, removed]
  | ok parts =>
    obtain ⟨seq, flags, count, rest⟩ := parts
    obtain ⟨events, noted, more, new⟩ := r.noteEvent_eq cmd head
    have received : r.manager.dispatch env cmd data =
        r.manager.receive env cmd seq flags count rest := by
      rw [MercuryManager.dispatch, head]
      rfl
    rw [dispatch, received, noted]
    cases awaited : r.manager.awaited cmd seq with
    | none =>
      refine ⟨r.manager, events, ?_, more, .inl rfl⟩
      simp only [MercuryManager.receive, awaited]
    | some pending =>
      cases done : r.manager.receive env cmd seq flags count rest with
      | error panic =>
        refine ⟨r.manager.remove seq, events, ?_, more,
          .inr ⟨seq, pending, awaited, .settled rfl rfl, new⟩⟩
        simp only [removed, head]
      | ok outcome =>
        exact ⟨outcome.1, events, rfl, more,
          .inr ⟨seq, pending, awaited, receive_left awaited done, new⟩⟩

theorem Requests.leads_dispatch (env : Mercury.Env) (cmd : PacketType) (data : Bytes) :
    Leads r.book (r.dispatch env cmd data).book True := by
  obtain ⟨manager, events, same, -, rfl | ⟨seq, pending, awaited, left, -⟩⟩ :=
    r.dispatch_cases env cmd data
  · rw [same]
    exact leads_self r.book
  · rw [same]
    exact r.leads_left awaited left

theorem Requests.events_update {r after : Requests} (events : r.Events) {seq : Bytes}
    {entry : Option MercuryPending}
    (pending : after.manager.pending = Function.update r.manager.pending seq entry)
    (more : ∀ other ∈ r.events, other ∈ after.events)
    (new : ∀ pending, entry = some pending → pending.callback = none → seq ∈ after.events) :
    after.Events := by
  intro other left there alone
  rw [pending] at there
  by_cases same : other = seq
  · rw [same, Function.update_self] at there
    rw [same]
    exact new left there alone
  · rw [Function.update_of_ne same] at there
    exact more other (events other left there alone)

/-- An entry without a callback that a packet leaves behind is one of an event. -/
theorem Requests.events_dispatch (env : Mercury.Env) (cmd : PacketType) (data : Bytes)
    (events : r.Events) : (r.dispatch env cmd data).Events := by
  obtain ⟨manager, noted, same, more, rfl | ⟨seq, pending, awaited, left, new⟩⟩ :=
    r.dispatch_cases env cmd data
  · rw [same]
    exact fun other entry there alone => more other (events other entry there alone)
  · rw [same]
    cases left with
    | kept entry callback left _ =>
      refine events_update events left more ?_
      rintro _ ⟨⟩ alone
      rcases awaited_cases awaited with there | ⟨-, -, event⟩
      · exact more seq (events seq pending there (callback ▸ alone))
      · exact new event
    | settled left _ => exact events_update events left more nofun
    | answered _ _ _ left _ => exact events_update events left more nofun

end MercuryBook

section Runs

theorem Requests.events_request {r : Requests} (events : r.Events) : r.request.Events := by
  cases invalid : r.invalid with
  | true =>
    have same : r.request.manager = r.manager := by simp [request, invalid]
    intro seq entry there alone
    rw [same] at there
    exact events seq entry there alone
  | false =>
    have inserted : r.request.manager.pending = Function.update r.manager.pending (be64 r.sequence)
        (some ⟨[], none, some ⟨r.requesters, true⟩⟩) := by
          simp [request, invalid, MercuryManager.insert]
    refine events_update events inserted (fun _ inside => inside) ?_
    rintro _ ⟨⟩ ⟨⟩

theorem Requests.events_giveUp {r : Requests} (events : r.Events) (id : Nat) :
    (r.giveUp id).Events := by
  rw [giveUp]
  split
  · intro seq entry there alone
    obtain ⟨before, pending, rfl⟩ := Option.map_eq_some_iff.mp there
    exact events seq before pending (Option.map_eq_none_iff.mp alone)
  · exact events

theorem Requests.events_listen {r : Requests} (events : r.Events) (subscription : Subscription) :
    (r.listen subscription).Events := by
  rw [listen]
  split <;> exact events

/-- What holds of all reachable tables. -/
structure Inv (s : System) : Prop where
  keys : Requesters.Inv s.keys.book
  mercury : Requesters.Inv s.mercury.book
  events : s.mercury.Events

/-- Nobody gives up whose request is in the table. -/
def Patient (s : System) : Event → Prop
  | .keyGivenUp id _ => ∀ seq callback, s.keys.manager.pending seq = some callback →
    callback.id ≠ id
  | .givenUp id _ => ∀ seq entry callback, s.mercury.manager.pending seq = some entry →
      entry.callback = some callback → callback.id ≠ id
  | _ => True

open Requesters in
/-- Every event is a move in each of the two books. -/
theorem step_leads (s : System) (event : Event) : ∃ fairKey fair,
    Leads s.keys.book (step s event).keys.book fairKey ∧
      Leads s.mercury.book (step s event).mercury.book fair ∧
      (Patient s event ↔ fairKey ∧ fair) := by
  have keys := leads_self s.keys.book
  have mercury := leads_self s.mercury.book
  have both : True ↔ True ∧ True := Iff.of_eq (and_true _).symm
  cases event with
  | requestKey => exact ⟨_, _, s.keys.leads_request, mercury, both⟩
  | keyGivenUp id reason => exact ⟨_, _, s.keys.leads_giveUp id, mercury,
    Iff.of_eq (and_true _).symm⟩
  | keyPacket logsErrors cmd data =>
    exact ⟨_, _, s.keys.leads_dispatch logsErrors cmd data, mercury, both⟩
  | request => exact ⟨_, _, keys, s.mercury.leads_request, both⟩
  | givenUp id reason => exact ⟨_, _, keys, s.mercury.leads_giveUp id, Iff.of_eq (true_and _).symm⟩
  | packet env cmd data => exact ⟨_, _, keys, s.mercury.leads_dispatch env cmd data, both⟩
  | listen subscription =>
    have same : (s.mercury.listen subscription).book = s.mercury.book := by
      rw [Requests.listen]
      split <;> rfl
    exact ⟨_, _, keys, same ▸ mercury, both⟩
  | shutdown => exact ⟨_, _, keys, ⟨.clear, rfl, Iff.rfl⟩, both⟩

theorem events_step {s : System} (events : s.mercury.Events) (event : Event) :
    (step s event).mercury.Events := by
  cases event with
  | requestKey => exact events
  | keyGivenUp id reason => exact events
  | keyPacket logsErrors cmd data => exact events
  | request => exact Requests.events_request events
  | givenUp id reason => exact Requests.events_giveUp events id
  | packet env cmd data => exact s.mercury.events_dispatch env cmd data events
  | listen subscription => exact Requests.events_listen events subscription
  | shutdown => exact nofun

theorem inv_step {s : System} (inv : Inv s) (event : Event) : Inv (step s event) := by
  obtain ⟨_, _, keys, mercury, -⟩ := step_leads s event
  exact ⟨Requesters.inv_leads inv.keys keys, Requesters.inv_leads inv.mercury mercury,
    events_step inv.events event⟩

def new : System := {}

theorem inv_new : Inv new :=
  ⟨⟨nofun, nofun, by rintro id (inside | inside) <;> cases inside⟩,
    ⟨nofun, nofun, by rintro id (inside | inside) <;> cases inside⟩, nofun⟩

theorem tidy_iff (s : System) (events : s.mercury.Events) :
    Tidy s ↔ Requesters.Tidy s.keys.book ∧ Requesters.Tidy s.mercury.book := by
  rw [Tidy, AudioKeys.tidy_iff, Requests.tidy_iff]
  exact and_congr_right fun _ => and_iff_left events

/-- Tidy tables stay tidy exactly if nobody gives up who is in one of them. -/
theorem tidy_step_iff {s : System} (inv : Inv s) (tidy : Tidy s) (event : Event) :
    Tidy (step s event) ↔ Patient s event := by
  obtain ⟨_, _, keys, mercury, patient⟩ := step_leads s event
  obtain ⟨tidyKeys, tidyMercury⟩ := (tidy_iff s inv.events).mp tidy
  rw [tidy_iff _ (events_step inv.events event), patient,
    Requesters.tidy_leads_iff inv.keys keys tidyKeys,
    Requesters.tidy_leads_iff inv.mercury mercury tidyMercury]

def AlwaysTidy (events : List Event) : Prop :=
  ∀ front, front <+: events → Tidy (Runs.run step new front)

/-- The tables are tidy at all times exactly if nobody ever gives up whose request is in one of
them. -/
theorem alwaysTidy_iff (events : List Event) :
    AlwaysTidy events ↔ Runs.Along step Patient new events := by
  have keeps : ∀ s event, Inv s → Inv (step s event) := fun s event inv => inv_step inv event
  have stays : ∀ s event, Inv s → Tidy s → (Tidy (step s event) ↔ Patient s event) :=
    fun s event inv tidy => tidy_step_iff inv tidy event
  have start : Tidy new := ⟨nofun, nofun⟩
  exact Runs.throughout_iff_along keeps stays inv_new start

theorem givenUp_notTidy :
    ¬ AlwaysTidy [.requestKey, .keyGivenUp 0 .timedOut] ∧
      ¬ AlwaysTidy [.requestKey, .keyGivenUp 0 .sendFailed] ∧
      ¬ AlwaysTidy [.request, .givenUp 0 .dropped] := by
  refine ⟨?_, ?_, ?_⟩
  · intro tidy
    have waits := (tidy _ (List.prefix_refl _)).1 0 ⟨0, false⟩ rfl
    exact waits.2.1 (by decide)
  · intro tidy
    have waits := (tidy _ (List.prefix_refl _)).1 0 ⟨0, false⟩ rfl
    exact waits.2.1 (by decide)
  · intro tidy
    have waits := (tidy _ (List.prefix_refl _)).2 (be64 0) ⟨[], none, some ⟨0, false⟩⟩ rfl
    exact waits.2.1 (by decide)

end Runs

end PendingTables
