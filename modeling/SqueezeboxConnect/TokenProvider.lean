import Mathlib.Algebra.Ring.Nat
import Mathlib.Data.List.Basic
import SqueezeboxConnect.Runs
import SqueezeboxConnect.Words

/-!
# Cached access tokens

A call looks for a token with the wanted scopes, reads it by its index, and
either returns it or removes it by the same index and requests a new one. Each
of the three accesses locks the list on its own, so calls that run at the same
time may change the list between them. A panic inside of a lock poisons it.

Every cached token carries the client id it was requested with. The list of the
provider has no such entry, and nothing looks at it there.

Times are in nanoseconds. The clock is the one of the system, which can be set.
-/

namespace TokenProvider

open Words

structure Token where
  accessToken : Text
  expiresIn : Nat
  tokenType : Text
  scopes : List Text
  timestamp : Int
  deriving DecidableEq

namespace Token

/-- In seconds, as the time a token lasts. -/
def EXPIRY_THRESHOLD : Nat := 10

def nanoseconds (seconds : Nat) : Int := seconds * 1000000000

/-- The first time that the clock cannot show. -/
def endOfTime : Int := nanoseconds (2 ^ 63)

def expiry (token : Token) : Int :=
  token.timestamp + nanoseconds (token.expiresIn - EXPIRY_THRESHOLD)

/-- Whether the token is expired; the sum panics if it leaves the range of the clock. -/
def isExpired (token : Token) (now : Int) : Option Bool :=
  if token.expiry < endOfTime then some (decide (token.expiry < now)) else none

def inScope (token : Token) (scope : Text) : Bool := token.scopes.contains scope

def inScopes (token : Token) (scopes : List Text) : Bool := scopes.all token.inScope

theorem isExpired_later {token : Token} {now later : Int} (order : now ≤ later)
    (expired : token.isExpired now = some true) : token.isExpired later = some true := by
  rw [isExpired] at expired ⊢
  split at expired
  · next inRange =>
    have past := of_decide_eq_true (Option.some.inj expired)
    rw [if_pos inRange, decide_eq_true (by omega)]
  · cases expired

end Token

/-- What the service answers. -/
structure TokenData where
  accessToken : Text
  expiresIn : Nat
  tokenType : Text
  scope : List Text

def Token.ofData (data : TokenData) (now : Int) : Token where
  accessToken := data.accessToken
  expiresIn := data.expiresIn
  tokenType := data.tokenType
  scopes := data.scope
  timestamp := now

/-- A token with the client id it was issued for. -/
structure Cached where
  token : Token
  clientId : Text
  deriving DecidableEq

inductive TokenError where
  | emptyClientId
  | request
  deriving DecidableEq

/-- How far a call is. -/
inductive Phase where
  | called
  | found (index : Nat)
  | read (index : Nat) (cached : Cached)
  | expired (index : Nat)
  | requesting
  | received (cached : Cached)
  | returned (cached : Cached)
  | failed (error : TokenError)
  | panicked

/-- The index that a call is going to use. -/
def Phase.held : Phase → Option Nat
  | .found index | .read index _ | .expired index => some index
  | _ => none

structure Call where
  scopes : Text
  clientId : Text
  phase : Phase

def Call.wanted (call : Call) : List Text := call.scopes.splitOn ','

structure State where
  tokens : List Cached := []
  poisoned : Bool := false
  now : Int
  calls : Nat → Option Call := fun _ => none

/-- What a step does to the cache, as far as somebody could complain about it. -/
inductive Access where
  | hit (call : Call) (cached : Cached)
  | removal (cached : Cached)
  | outOfRange

def findToken (tokens : List Cached) (scopes : List Text) : Option Nat :=
  tokens.findIdx? fun cached => cached.token.inScopes scopes

def State.goto (s : State) (id : Nat) (call : Call) (phase : Phase) : State :=
  { s with calls := fun other => if other = id then some { call with phase } else s.calls other }

/-- A lock section; it panics if another one did. -/
def State.locked (s : State) (id : Nat) (call : Call) (body : State × Option Access) :
    State × Option Access :=
  if s.poisoned then (s.goto id call .panicked, none) else body

/-- A call goes on, up to its next lock section or its next look at the clock. -/
def getTokenWithClientId (s : State) (id : Nat) (call : Call) : State × Option Access :=
  match call.phase with
  | .called =>
    if call.clientId = [] then (s.goto id call (.failed .emptyClientId), none)
    else s.locked id call <| match findToken s.tokens call.wanted with
      | some index => (s.goto id call (.found index), none)
      | none => (s.goto id call .requesting, none)
  | .found index =>
    s.locked id call <| match s.tokens[index]? with
      | some cached => (s.goto id call (.read index cached), none)
      | none => ({ s.goto id call .panicked with poisoned := true }, some .outOfRange)
  | .read index cached =>
    match cached.token.isExpired s.now with
    | some true => (s.goto id call (.expired index), none)
    | some false => (s.goto id call (.returned cached), some (.hit call cached))
    | none => (s.goto id call .panicked, none)
  | .expired index =>
    s.locked id call <| match s.tokens[index]? with
      | some cached =>
        ({ s.goto id call .requesting with tokens := s.tokens.eraseIdx index },
          some (.removal cached))
      | none => ({ s.goto id call .panicked with poisoned := true }, some .outOfRange)
  | .received cached =>
    s.locked id call ({ s.goto id call (.returned cached) with tokens := s.tokens ++ [cached] },
      none)
  | .requesting | .returned _ | .failed _ | .panicked => (s, none)

def respond (s : State) (id : Nat) (call : Call) (answer : Option TokenData) : State :=
  match call.phase, answer with
  | .requesting, some data => s.goto id call (.received ⟨.ofData data s.now, call.clientId⟩)
  | .requesting, none => s.goto id call (.failed .request)
  | _, _ => s

inductive Event where
  | call (id : Nat) (scopes clientId : Text)
  | proceed (id : Nat)
  | respond (id : Nat) (answer : Option TokenData)
  | clock (now : Int)

def perform (s : State) : Event → State × Option Access
  | .call id scopes clientId =>
    match s.calls id with
    | none => (s.goto id ⟨scopes, clientId, .called⟩ .called, none)
    | some _ => (s, none)
  | .proceed id =>
    match s.calls id with
    | none => (s, none)
    | some call => getTokenWithClientId s id call
  | .respond id answer =>
    match s.calls id with
    | none => (s, none)
    | some call => (respond s id call answer, none)
  | .clock now => ({ s with now }, none)

def step (s : State) (event : Event) : State := (perform s event).1

/-- A token from the cache has the scopes, is for the client and not expired, and only expired
tokens are removed. -/
def Access.Sound (now : Int) : Access → Prop
  | .hit call cached =>
    cached.token.inScopes call.wanted = true ∧ cached.clientId = call.clientId ∧
      cached.token.isExpired now = some false
  | .removal cached => cached.token.isExpired now = some true
  | .outOfRange => False

def SoundStep (s : State) (event : Event) : Prop :=
  ∀ access, (perform s event).2 = some access → access.Sound s.now

/-- The cache is sound over a whole history. -/
def Sound (s : State) (events : List Event) : Prop := Runs.Along step SoundStep s events

/-- A call finds a token of its own client, and removes none at or below an index that another call
is going to use; the clock is not set back. -/
def Undisturbed (s : State) : Event → Prop
  | .proceed id => ∀ call, s.calls id = some call →
    match call.phase with
    | .called => ∀ index cached, findToken s.tokens call.wanted = some index →
        s.tokens[index]? = some cached → cached.clientId = call.clientId
    | .expired index => ∀ other otherCall held, other ≠ id → s.calls other = some otherCall →
        otherCall.phase.held = some held → held < index
    | _ => True
  | .clock now => s.now ≤ now
  | _ => True

section Invariant

/-- The index that a call holds is the one of a token that suits it. -/
def Fits (tokens : List Cached) (now : Int) (call : Call) : Prop :=
  match call.phase with
  | .found index => ∃ cached, tokens[index]? = some cached ∧
      cached.token.inScopes call.wanted = true ∧ cached.clientId = call.clientId
  | .read index cached => tokens[index]? = some cached ∧
      cached.token.inScopes call.wanted = true ∧ cached.clientId = call.clientId
  | .expired index => ∃ cached, tokens[index]? = some cached ∧
      cached.token.isExpired now = some true
  | _ => True

structure Inv (s : State) : Prop where
  open_ : s.poisoned = false
  fits : ∀ id call, s.calls id = some call → Fits s.tokens s.now call

theorem fits_tokens {tokens changed : List Cached} {now : Int} {call : Call}
    (same : ∀ held cached, call.phase.held = some held → tokens[held]? = some cached →
      changed[held]? = some cached)
    (fits : Fits tokens now call) : Fits changed now call := by
  rw [Fits] at fits ⊢
  split
  · next index found =>
    rw [found] at fits same
    obtain ⟨cached, there, suits⟩ := fits
    exact ⟨cached, same index cached rfl there, suits⟩
  · next index cached read =>
    rw [read] at fits same
    exact ⟨same index cached rfl fits.1, fits.2⟩
  · next index expired =>
    rw [expired] at fits same
    obtain ⟨cached, there, past⟩ := fits
    exact ⟨cached, same index cached rfl there, past⟩
  · trivial

theorem fits_later {tokens : List Cached} {now later : Int} {call : Call} (order : now ≤ later)
    (fits : Fits tokens now call) : Fits tokens later call := by
  rw [Fits] at fits ⊢
  split
  · next found => simpa only [found] using fits
  · next read => simpa only [read] using fits
  · next expired =>
    rw [expired] at fits
    obtain ⟨cached, there, past⟩ := fits
    exact ⟨cached, there, Token.isExpired_later order past⟩
  · trivial

theorem Inv.goto {s : State} (inv : Inv s) {id : Nat} {call : Call} {phase : Phase}
    (fits : Fits s.tokens s.now { call with phase }) : Inv (s.goto id call phase) := by
  refine ⟨inv.open_, fun other otherCall called => ?_⟩
  rw [State.goto] at called
  dsimp only at called
  split at called
  · cases called
    exact fits
  · exact inv.fits other otherCall called

/-- The list changes in a way that the other calls do not notice. -/
theorem Inv.change {s : State} (inv : Inv s) {id : Nat} {call : Call} {phase : Phase}
    {changed : List Cached} (fits : Fits changed s.now { call with phase })
    (same : ∀ other otherCall held cached, other ≠ id → s.calls other = some otherCall →
      otherCall.phase.held = some held → s.tokens[held]? = some cached →
        changed[held]? = some cached) :
    Inv { s.goto id call phase with tokens := changed } := by
  refine ⟨inv.open_, fun other otherCall called => ?_⟩
  dsimp only [State.goto] at called ⊢
  split at called
  · cases called
    exact fits
  · next apart =>
    exact fits_tokens (fun held cached => same other otherCall held cached apart called)
      (inv.fits other otherCall called)

theorem findToken_suits {tokens : List Cached} {scopes : List Text} {index : Nat}
    (found : findToken tokens scopes = some index) :
    ∃ cached, tokens[index]? = some cached ∧ cached.token.inScopes scopes = true := by
  obtain ⟨inRange, suits, -⟩ := List.findIdx?_eq_some_iff_getElem.mp found
  exact ⟨tokens[index], List.getElem?_eq_getElem inRange, suits⟩

/-- A call goes on: its step is sound and the calls still fit. -/
theorem getTokenWithClientId_sound {s : State} (inv : Inv s) {id : Nat} {call : Call}
    (called : s.calls id = some call) (good : Undisturbed s (.proceed id)) :
    Inv (getTokenWithClientId s id call).1 ∧
      ∀ access, (getTokenWithClientId s id call).2 = some access → access.Sound s.now := by
  have fits := inv.fits id call called
  have fine := good call called
  have unlocked : ∀ body, s.locked id call body = body := by
    intro body
    rw [State.locked, inv.open_]
    rfl
  rw [Fits] at fits
  rw [getTokenWithClientId]
  split
  · next phase =>
    rw [phase] at fine
    split
    · exact ⟨inv.goto trivial, nofun⟩
    · rw [unlocked]
      split
      · next index found =>
        obtain ⟨cached, there, suits⟩ := findToken_suits found
        exact ⟨inv.goto ⟨cached, there, suits, fine index cached found there⟩, nofun⟩
      · exact ⟨inv.goto trivial, nofun⟩
  · next index phase =>
    rw [phase] at fits
    obtain ⟨cached, there, suits⟩ := fits
    rw [unlocked, there]
    exact ⟨inv.goto ⟨there, suits⟩, nofun⟩
  · next index cached phase =>
    rw [phase] at fits
    split
    · next past => exact ⟨inv.goto ⟨cached, fits.1, past⟩, nofun⟩
    · next valid =>
      refine ⟨inv.goto trivial, fun access same => ?_⟩
      cases same
      exact ⟨fits.2.1, fits.2.2, valid⟩
    · exact ⟨inv.goto trivial, nofun⟩
  · next index phase =>
    rw [phase] at fits fine
    obtain ⟨cached, there, past⟩ := fits
    rw [unlocked, there]
    refine ⟨inv.change trivial fun other otherCall held kept apart calls holds inside => ?_,
      fun access same => ?_⟩
    · rw [List.getElem?_eraseIdx_of_lt (fine other otherCall held apart calls holds)]
      exact inside
    · cases same
      exact past
  · rw [unlocked]
    refine ⟨inv.change trivial fun other otherCall held kept _ _ _ inside => ?_, nofun⟩
    rw [List.getElem?_append_left (List.getElem?_eq_some_iff.mp inside).1]
    exact inside
  all_goals exact ⟨inv, nofun⟩

/-- Every event keeps the invariant and is sound. -/
theorem perform_sound {s : State} (inv : Inv s) {event : Event} (good : Undisturbed s event) :
    Inv (step s event) ∧ SoundStep s event := by
  rw [step, SoundStep]
  cases event with
  | call id scopes clientId =>
    rw [perform]
    split
    · exact ⟨inv.goto trivial, nofun⟩
    · exact ⟨inv, nofun⟩
  | proceed id =>
    rw [perform]
    split
    · exact ⟨inv, nofun⟩
    · next called => exact getTokenWithClientId_sound inv called good
  | respond id answer =>
    rw [perform]
    split
    · exact ⟨inv, nofun⟩
    · refine ⟨?_, nofun⟩
      unfold respond
      split
      · exact inv.goto trivial
      · exact inv.goto trivial
      · exact inv
  | clock now =>
    exact ⟨⟨inv.open_, fun id call called => fits_later good (inv.fits id call called)⟩, nofun⟩

end Invariant

def new (now : Int) : State := { now }

theorem inv_new (now : Int) : Inv (new now) := ⟨rfl, nofun⟩

def answer (scope : Text) (expiresIn : Nat) : TokenData where
  accessToken := "token".toList
  expiresIn := expiresIn
  tokenType := "Bearer".toList
  scope := [scope]

/-- A call that asks the service, from its beginning to its end. -/
def fetch (id : Nat) (scope clientId : Text) (expiresIn : Nat) : List Event :=
  [.call id scope clientId, .proceed id, .respond id (some (answer scope expiresIn)), .proceed id]

/-- A history in which nothing gets between the accesses of a call, and each call finds a token of
its own client only. -/
theorem sound_of_undisturbed (now : Int) (events : List Event)
    (undisturbed : Runs.Along step Undisturbed (new now) events) : Sound (new now) events := by
  have keeps : ∀ s event, Inv s → Undisturbed s event → Inv (step s event) :=
    fun s event inv good => (perform_sound inv good).1
  have sound : ∀ s event, Inv s → Undisturbed s event → SoundStep s event :=
    fun s event inv good => (perform_sound inv good).2
  exact Runs.along_of_invariant keeps sound (inv_new now) undisturbed

/-- The client asks again and gets its token from the cache. -/
def sameClient : List Event :=
  fetch 0 "a".toList "first".toList 3600 ++
    [.call 1 "a".toList "first".toList, .proceed 1, .proceed 1, .proceed 1]

theorem sameClient_sound : Sound (new 0) sameClient := by
  refine sound_of_undisturbed 0 sameClient ⟨trivial, ?_, trivial, ?_, trivial, ?_, ?_, ?_, trivial⟩
  · rintro call ⟨⟩ index cached ⟨⟩
  · rintro call ⟨⟩
    trivial
  · rintro call ⟨⟩ index cached ⟨⟩ ⟨⟩
    rfl
  · rintro call ⟨⟩
    trivial
  · rintro call ⟨⟩
    trivial

section Races

def otherClient : List Event :=
  fetch 0 "a".toList "first".toList 3600 ++
    [.call 1 "a".toList "second".toList, .proceed 1, .proceed 1, .proceed 1]

/-- Two calls find the same expired token and remove it one after the other. -/
def removedTwice : List Event :=
  fetch 0 "a".toList "client".toList 0 ++ fetch 1 "b".toList "client".toList 3600 ++
    [.clock 1, .call 2 "a".toList "client".toList, .call 3 "a".toList "client".toList,
      .proceed 2, .proceed 3, .proceed 2, .proceed 3, .proceed 2, .proceed 3, .proceed 2,
      .proceed 3]

/-- A token is removed while another call has found one behind it. -/
def movedAway : List Event :=
  fetch 0 "a".toList "client".toList 0 ++ fetch 1 "b".toList "client".toList 3600 ++
    [.clock 1, .call 2 "b".toList "client".toList, .proceed 2, .call 3 "a".toList "client".toList,
      .proceed 3, .proceed 3, .proceed 3, .proceed 3, .proceed 2]

/-- The last event of a history is not sound. -/
theorem not_sound_of_last {events : List Event} {last : Event} {access : Access} {s : State}
    (performed : (perform (Runs.run step s events) last).2 = some access)
    (wrong : ¬ access.Sound (Runs.run step s events).now) : ¬ Sound s (events ++ [last]) := by
  intro sound
  exact wrong ((Runs.along_iff _ _ _ _).mp sound events last [] rfl access performed)

theorem races_notSound :
    ¬ Sound (new 0) otherClient ∧ ¬ Sound (new 0) removedTwice ∧ ¬ Sound (new 0) movedAway := by
  refine ⟨?_, ?_, ?_⟩
  · refine @not_sound_of_last otherClient.dropLast (.proceed 1)
      (.hit ⟨"a".toList, "second".toList, .read 0 _⟩ _) (new 0) rfl ?_
    rintro ⟨-, same, -⟩
    exact absurd same (by decide)
  · refine @not_sound_of_last removedTwice.dropLast (.proceed 3)
      (.removal ⟨.ofData (answer "b".toList 3600) 0, "client".toList⟩) (new 0) rfl ?_
    change Token.isExpired _ 1 ≠ some true
    decide
  · exact @not_sound_of_last movedAway.dropLast (.proceed 2) .outOfRange (new 0) rfl nofun

end Races

end TokenProvider
