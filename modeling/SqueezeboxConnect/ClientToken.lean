import Mathlib.Data.List.Basic
import SqueezeboxConnect.Loops
import SqueezeboxConnect.TokenProvider
import SqueezeboxConnect.Words

/-!
# Negotiating a client token

The first request carries the data of the client. The service answers with a
token or with a challenge; a solved challenge is answered with its solution, and
whatever comes back is handled in the next turn of the loop. If the challenge
cannot be solved or the answer is not accepted, the first request is repeated,
as long as fewer than three turns have been taken.

The service is a sequence of replies, one for each request, and the solver may
find a solution or not each time it is called. The counter of the turns is a
byte; where it overflows, the program panics or goes on with zero, as it is
built. The data about the platform in the first request are left out.
-/

namespace ClientToken

open TokenProvider Words

section Messages

structure HashCashParameters where
  length : Int := 0
  start : Text := []

structure Challenge where
  hashcash : Option HashCashParameters

/-- The parameters, or the defaults if there are others. -/
def Challenge.evaluateHashcashParameters (challenge : Challenge) : HashCashParameters :=
  challenge.hashcash.getD {}

structure ChallengesResponse where
  state : Text := []
  challenges : List Challenge := []

structure GrantedTokenResponse where
  token : Text := []
  refreshAfterSeconds : Int := 0
  domains : List Text := []

inductive Response where
  | grantedToken (response : GrantedTokenResponse)
  | challenges (response : ChallengesResponse)

structure ClientTokenResponse where
  responseType : Int
  response : Option Response

def ClientTokenResponse.challenges (message : ClientTokenResponse) : ChallengesResponse :=
  match message.response with
  | some (.challenges response) => response
  | _ => {}

def ClientTokenResponse.grantedToken (message : ClientTokenResponse) : GrantedTokenResponse :=
  match message.response with
  | some (.grantedToken response) => response
  | _ => {}

inductive ClientTokenResponseType where
  | unknown
  | grantedTokenResponse
  | challengesResponse

def ClientTokenResponseType.fromI32 (value : Int) : Option ClientTokenResponseType :=
  if value = 0 then some .unknown
  else if value = 1 then some .grantedTokenResponse
  else if value = 2 then some .challengesResponse
  else none

structure ClientDataRequest where
  clientVersion : Text
  clientId : Text
  deviceId : Text
  deriving DecidableEq

inductive ClientTokenRequest where
  | clientData (request : ClientDataRequest)
  | challengeAnswers (state suffix : Text)
  deriving DecidableEq

end Messages

inductive TokenError where
  | request (message : Text)
  | parse (message : Text)
  | failedPrecondition (message : Text)
  | unimplemented (message : Text)

/-- How a negotiation ends. -/
inductive Outcome where
  | granted (token : GrantedTokenResponse)
  | failed (error : TokenError)
  | panicked

def MAX_TRIES : Nat := 3

/-- What the client meets: the reply to each request, the parser, the decoder and the encoder of
hexadecimal texts, and the solver with the number of requests sent before it is called. -/
structure Setting where
  request : ClientDataRequest
  reply : Nat → Except TokenError Bytes
  parse : Bytes → Except TokenError ClientTokenResponse
  decodeHex : Text → Except Text Bytes
  encodeHex : Bytes → Text
  solveHashCash : Nat → Bytes → Int → Option Bytes
  overflowChecks : Bool

/-- The state at the beginning of a turn, with all requests so far. -/
structure Negotiation where
  response : Bytes
  count : Nat
  sent : List ClientTokenRequest

/-- How a negotiation ends, with all its requests. -/
structure End where
  outcome : Outcome
  sent : List ClientTokenRequest

namespace Setting

variable (setting : Setting)

/-- The request is sent, and the loop goes on with the reply. -/
def send (message : ClientTokenRequest) (count : Nat) (sent : List ClientTokenRequest)
    (refused : TokenError → Negotiation ⊕ End) : Negotiation ⊕ End :=
  match setting.reply sent.length with
  | .ok response => .inl ⟨response, count, sent ++ [message]⟩
  | .error error => refused error

/-- Behind a challenge without an accepted answer. -/
def tryAgain (count : Nat) (sent : List ClientTokenRequest) : Negotiation ⊕ End :=
  if count < MAX_TRIES then
    let message := ClientTokenRequest.clientData setting.request
    setting.send message count sent fun error => .inr ⟨.failed error, sent ++ [message]⟩
  else
    .inr ⟨.failed (.failedPrecondition "Unable to solve any of 3 hash cash challenges".toList),
      sent⟩

/-- `count += 1` for a byte. -/
def increment (count : Nat) : Option Nat :=
  if count + 1 < 256 then some (count + 1) else if setting.overflowChecks then none else some 0

def answerChallenge (challenges : ChallengesResponse) (count : Nat)
    (sent : List ClientTokenRequest) : Negotiation ⊕ End :=
  match challenges.challenges with
  | [] => .inr ⟨.failed (.failedPrecondition "No challenges found".toList), sent⟩
  | challenge :: _ =>
    let parameters := challenge.evaluateHashcashParameters
    match setting.decodeHex parameters.start with
    | .error e =>
      .inr ⟨.failed (.failedPrecondition ("Unable to decode hash cash challenge: ".toList ++ e)),
        sent⟩
    | .ok start =>
      match setting.solveHashCash sent.length start parameters.length with
      | some suffix =>
        let answer := ClientTokenRequest.challengeAnswers challenges.state
          (setting.encodeHex suffix)
        setting.send answer count sent fun _ => setting.tryAgain count (sent ++ [answer])
      | none => setting.tryAgain count sent

def turn (negotiation : Negotiation) : Negotiation ⊕ End :=
  match setting.increment negotiation.count with
  | none => .inr ⟨.panicked, negotiation.sent⟩
  | some count =>
    match setting.parse negotiation.response with
    | .error error => .inr ⟨.failed error, negotiation.sent⟩
    | .ok message =>
      match ClientTokenResponseType.fromI32 message.responseType with
      | some .grantedTokenResponse => .inr ⟨.granted message.grantedToken, negotiation.sent⟩
      | some .challengesResponse =>
        setting.answerChallenge message.challenges count negotiation.sent
      | some .unknown =>
        .inr ⟨.failed (.unimplemented
          "Unknown client token response type: RESPONSE_UNKNOWN".toList), negotiation.sent⟩
      | none =>
        .inr ⟨.failed (.failedPrecondition "No client token response type".toList),
          negotiation.sent⟩

def start : Negotiation ⊕ End :=
  let message := ClientTokenRequest.clientData setting.request
  setting.send message 0 [] fun error => .inr ⟨.failed error, [message]⟩

def solveFirst (challenges : ChallengesResponse) (sent : List ClientTokenRequest) : Option Bytes :=
  match challenges.challenges with
  | [] => none
  | challenge :: _ =>
    match setting.decodeHex challenge.evaluateHashcashParameters.start with
    | .error _ => none
    | .ok start =>
      setting.solveHashCash sent.length start challenge.evaluateHashcashParameters.length

/-- The solution of what came last, if it is a challenge and is solved. -/
def solution (negotiation : Negotiation) : Option Bytes :=
  match setting.parse negotiation.response with
  | .error _ => none
  | .ok message =>
    match ClientTokenResponseType.fromI32 message.responseType with
    | some .challengesResponse => setting.solveFirst message.challenges negotiation.sent
    | _ => none

end Setting

section Cache

/-- The client with the token it has; its expiry is a time that the clock can show. -/
structure SpClient where
  clientToken : Option Token
  now : Int
  inRange : ∀ token ∈ clientToken, token.expiry < Token.endOfTime

/-- The token, unless it is expired. -/
def SpClient.valid (client : SpClient) : Option Token :=
  client.clientToken.filter fun token => token.isExpired client.now = some false

inductive Result where
  | ok (accessToken : Text)
  | error (error : TokenError)
  | panicked

/-- The end of a call: its result, what it requested, and the token that is kept. -/
structure Finished where
  result : Result
  sent : List ClientTokenRequest
  clientToken : Option Token

def tokenOf (granted : GrantedTokenResponse) (now : Int) : Token where
  accessToken := granted.token
  expiresIn := if 0 ≤ granted.refreshAfterSeconds then granted.refreshAfterSeconds.toNat else 7200
  tokenType := "client-token".toList
  scopes := granted.domains
  timestamp := now

/-- What is left to do behind the loop. -/
def finish (now : Int) (ended : End) : Finished :=
  match ended.outcome with
  | .granted granted => ⟨.ok granted.token, ended.sent, some (tokenOf granted now)⟩
  | .failed error => ⟨.error error, ended.sent, none⟩
  | .panicked => ⟨.panicked, ended.sent, none⟩

/-- The whole call; `later` is the time when a granted token is stored. -/
def clientToken (setting : Setting) (client : SpClient) (later : Int) (fuel : Nat) :
    Option Finished :=
  match client.valid with
  | some token => some ⟨.ok token.accessToken, [], some token⟩
  | none =>
    match setting.start with
    | .inr ended => some (finish later ended)
    | .inl negotiation => (Loops.loop setting.turn fuel negotiation).map (finish later)

end Cache

section Requests

def isAnswer : ClientTokenRequest → Bool
  | .clientData _ => false
  | .challengeAnswers _ _ => true

def answers (sent : List ClientTokenRequest) : Nat := sent.countP isAnswer

def repeats (sent : List ClientTokenRequest) : Nat := sent.countP fun message => !isAnswer message

theorem length_eq (sent : List ClientTokenRequest) : sent.length = answers sent + repeats sent := by
  simpa [answers, repeats] using List.length_eq_countP_add_countP (l := sent) isAnswer

theorem answers_append (front back : List ClientTokenRequest) :
    answers (front ++ back) = answers front + answers back := List.countP_append

theorem repeats_append (front back : List ClientTokenRequest) :
    repeats (front ++ back) = repeats front + repeats back := List.countP_append

end Requests

variable {sent : List ClientTokenRequest} {negotiation first : Negotiation}

section Turns

variable {setting : Setting}

/-- All requests up to the end of a turn. -/
def log : Negotiation ⊕ End → List ClientTokenRequest
  | .inl negotiation => negotiation.sent
  | .inr ended => ended.sent

/-- A turn that has taken place: what is sent in it, and that it goes on only if something is. -/
structure Took (count : Nat) (before : List ClientTokenRequest) (solved : Nat)
    (after : Negotiation ⊕ End) (extra : List ClientTokenRequest) : Prop where
  log_eq : log after = before ++ extra
  answers_eq : answers extra = solved
  repeats_le : repeats extra = 0 ∨ repeats extra = 1 ∧ count < MAX_TRIES
  goes : ∀ next, after = .inl next → next.count = count ∧ extra ≠ []
  ends : ∀ ended, after = .inr ended → ended.outcome ≠ .panicked

theorem took_end {count : Nat} {outcome : Outcome} (orderly : outcome ≠ .panicked) :
    Took count sent 0 (.inr ⟨outcome, sent⟩) [] where
  log_eq := (List.append_nil sent).symm
  answers_eq := rfl
  repeats_le := .inl rfl
  goes := nofun
  ends := by
    rintro ended ⟨⟩
    exact orderly

theorem took_send {count solved : Nat} {message : ClientTokenRequest} (response : Bytes)
    (answers_eq : answers [message] = solved) (few : isAnswer message = true ∨ count < MAX_TRIES) :
    Took count sent solved (.inl ⟨response, count, sent ++ [message]⟩) [message] where
  log_eq := rfl
  answers_eq := answers_eq
  repeats_le := by
    rcases few with answer | few
    · exact .inl (by simp [repeats, answer])
    · cases answer : isAnswer message
      · exact .inr ⟨by simp [repeats, answer], few⟩
      · exact .inl (by simp [repeats, answer])
  goes := by
    rintro next ⟨⟩
    exact ⟨rfl, List.cons_ne_nil _ _⟩
  ends := nofun

theorem tryAgain_took (setting : Setting) (count : Nat) (sent : List ClientTokenRequest) :
    ∃ extra, Took count sent 0 (setting.tryAgain count sent) extra := by
  rw [Setting.tryAgain]
  split
  · next few =>
    dsimp only
    rw [Setting.send]
    split
    · exact ⟨_, took_send _ rfl (.inr few)⟩
    · refine ⟨[.clientData setting.request], rfl, rfl, .inr ⟨rfl, few⟩, nofun, ?_⟩
      rintro ended ⟨⟩
      exact nofun
  · exact ⟨[], took_end nofun⟩

/-- An answer that is not accepted comes before what is tried instead. -/
theorem Took.behind {count : Nat} {extra : List ClientTokenRequest} {after : Negotiation ⊕ End}
    {answer : ClientTokenRequest} (took : Took count (sent ++ [answer]) 0 after extra)
    (answers_ : isAnswer answer = true) : Took count sent 1 after (answer :: extra) where
  log_eq := by simp [took.log_eq]
  answers_eq := by
    have nothing := took.answers_eq
    simp only [answers] at nothing
    simp [answers, answers_, nothing]
  repeats_le := by
    have few := took.repeats_le
    simp only [repeats] at few
    simpa [repeats, answers_] using few
  goes next same := ⟨(took.goes next same).1, List.cons_ne_nil _ _⟩
  ends := took.ends

theorem answerChallenge_took (setting : Setting) (challenges : ChallengesResponse) (count : Nat)
    (sent : List ClientTokenRequest) :
    ∃ extra, Took count sent (setting.solveFirst challenges sent).toList.length
      (setting.answerChallenge challenges count sent) extra := by
  rw [Setting.answerChallenge, Setting.solveFirst]
  split
  · exact ⟨[], took_end nofun⟩
  · next challenge rest _ =>
    dsimp only
    cases setting.decodeHex challenge.evaluateHashcashParameters.start with
    | error e => exact ⟨[], took_end nofun⟩
    | ok start =>
      dsimp only
      split
      · next suffix solved =>
        rw [solved, Setting.send]
        split
        · exact ⟨_, took_send _ rfl (.inl rfl)⟩
        · obtain ⟨extra, took⟩ := tryAgain_took setting count _
          exact ⟨_, took.behind rfl⟩
      · next unsolved =>
        rw [unsolved]
        exact tryAgain_took setting count sent

theorem turn_took (setting : Setting) {count : Nat}
    (counted : setting.increment negotiation.count = some count) :
    ∃ extra, Took count negotiation.sent (setting.solution negotiation).toList.length
      (setting.turn negotiation) extra := by
  rw [Setting.turn, counted, Setting.solution]
  cases setting.parse negotiation.response with
  | error error => exact ⟨[], took_end nofun⟩
  | ok message =>
    dsimp only
    cases ClientTokenResponseType.fromI32 message.responseType with
    | none => exact ⟨[], took_end nofun⟩
    | some responseType =>
      cases responseType with
      | unknown => exact ⟨[], took_end nofun⟩
      | grantedTokenResponse => exact ⟨[], took_end nofun⟩
      | challengesResponse => exact answerChallenge_took setting _ count negotiation.sent

theorem turn_panics (uncounted : setting.increment negotiation.count = none) :
    setting.turn negotiation = .inr ⟨.panicked, negotiation.sent⟩ := by
  rw [Setting.turn, uncounted]

end Turns

section Bounds

variable {setting : Setting}

def Reached (setting : Setting) (negotiation : Negotiation) : Prop :=
  ∃ first, setting.start = .inl first ∧ Loops.Reached setting.turn first negotiation

/-- No challenge can be solved any more once three have been answered. -/
def FewSolved (setting : Setting) : Prop :=
  ∀ negotiation, Reached setting negotiation → setting.solution negotiation ≠ none →
    answers negotiation.sent < MAX_TRIES

structure Inv (negotiation : Negotiation) : Prop where
  answers_le : answers negotiation.sent ≤ MAX_TRIES
  repeats_le : repeats negotiation.sent ≤ MAX_TRIES
  repeats_count : repeats negotiation.sent ≤ negotiation.count + 1
  count_lt : negotiation.count < negotiation.sent.length

/-- So few turns that the counter does not overflow. -/
theorem Inv.increment (inv : Inv negotiation) :
    setting.increment negotiation.count = some (negotiation.count + 1) := by
  have length := length_eq negotiation.sent
  have answers_le := inv.answers_le
  have repeats_le := inv.repeats_le
  have below := inv.count_lt
  rw [MAX_TRIES] at answers_le repeats_le
  rw [Setting.increment, if_pos (by omega)]

theorem Inv.log_le (inv : Inv negotiation)
    (few : setting.solution negotiation ≠ none → answers negotiation.sent < MAX_TRIES) :
    answers (log (setting.turn negotiation)) ≤ MAX_TRIES ∧
      repeats (log (setting.turn negotiation)) ≤ MAX_TRIES ∧
      repeats (log (setting.turn negotiation)) ≤ negotiation.count + 2 := by
  obtain ⟨extra, took⟩ := turn_took setting inv.increment
  have answers_le := inv.answers_le
  have repeats_le := inv.repeats_le
  have repeats_count := inv.repeats_count
  rw [took.log_eq, answers_append, repeats_append, took.answers_eq]
  refine ⟨?_, ?_⟩
  · cases solved : setting.solution negotiation with
    | none => exact answers_le
    | some suffix => exact few (by rw [solved]; exact nofun)
  · rcases took.repeats_le with nothing | ⟨one, below⟩
    · omega
    · omega

theorem Inv.next {negotiation next : Negotiation} (inv : Inv negotiation)
    (few : setting.solution negotiation ≠ none → answers negotiation.sent < MAX_TRIES)
    (turn : setting.turn negotiation = .inl next) :
    Inv next ∧ negotiation.sent.length < next.sent.length := by
  obtain ⟨answers_le, repeats_le, repeats_count⟩ := inv.log_le few
  obtain ⟨extra, took⟩ := turn_took setting inv.increment
  obtain ⟨count_eq, something⟩ := took.goes next turn
  have sent := took.log_eq
  rw [turn] at answers_le repeats_le repeats_count sent
  have longer : negotiation.sent.length < next.sent.length := by
    rw [show next.sent = negotiation.sent ++ extra from sent, List.length_append]
    have := List.length_pos_of_ne_nil something
    omega
  refine ⟨⟨answers_le, repeats_le, ?_, ?_⟩, longer⟩
  · rw [count_eq]
    exact repeats_count
  · rw [count_eq]
    have := inv.count_lt
    omega

theorem inv_start (started : setting.start = .inl first) : Inv first := by
  rw [Setting.start, Setting.send] at started
  split at started
  · cases started
    exact ⟨Nat.zero_le 3, Nat.le_add_right 1 2, Nat.le_refl 1, Nat.zero_lt_one⟩
  · cases started

theorem inv_reached (few : FewSolved setting) (reached : Reached setting negotiation) :
    Inv negotiation := by
  obtain ⟨first, started, turns⟩ := reached
  induction turns with
  | start => exact inv_start started
  | turn earlier turn ih => exact (ih.next (few _ ⟨first, started, earlier⟩) turn).1

theorem answers_turn (setting : Setting) (s : Negotiation) :
    answers s.sent ≤ answers (log (setting.turn s)) := by
  cases counted : setting.increment s.count with
  | none =>
    rw [turn_panics counted]
    exact Nat.le_refl _
  | some count =>
    obtain ⟨extra, took⟩ := turn_took setting counted
    rw [took.log_eq, answers_append]
    exact Nat.le_add_right _ _

theorem answers_finished {ended : End} (done : Loops.Finishes setting.turn first ended) :
    answers first.sent ≤ answers ended.sent := by
  obtain ⟨last, turns, turn⟩ := Loops.reached_of_finishes done
  have all : answers first.sent ≤ answers last.sent := by
    refine turns.invariant (fun s => answers first.sent ≤ answers s.sent) ?_ (Nat.le_refl _)
    intro s next earlier turn
    have more := answers_turn setting s
    rw [turn] at more
    exact Nat.le_trans earlier more
  have more := answers_turn setting last
  rw [turn] at more
  exact Nat.le_trans all more

theorem loop_bounded (started : setting.start = .inl first) (few : FewSolved setting) :
    ∃ ended, Loops.Finishes setting.turn first ended ∧ ended.outcome ≠ .panicked ∧
      answers ended.sent ≤ MAX_TRIES ∧ repeats ended.sent ≤ MAX_TRIES := by
  have bounded : ∀ negotiation, Loops.Reached setting.turn first negotiation → Inv negotiation :=
    fun negotiation turns => inv_reached few ⟨first, started, turns⟩
  obtain ⟨ended, done⟩ : ∃ ended, Loops.Finishes setting.turn first ended := by
    refine Loops.finishes_of_variant (fun negotiation => 2 * MAX_TRIES - negotiation.sent.length) ?_
    intro s next turns turn
    have longer := ((bounded s turns).next (few s ⟨first, started, turns⟩) turn).2
    have inv := bounded next (.turn turns turn)
    have length := length_eq next.sent
    have answers_le := inv.answers_le
    have repeats_le := inv.repeats_le
    omega
  obtain ⟨last, turns, turn⟩ := Loops.reached_of_finishes done
  have inv := bounded last turns
  obtain ⟨answers_le, repeats_le, -⟩ := inv.log_le (few last ⟨first, started, turns⟩)
  obtain ⟨extra, took⟩ := turn_took setting inv.increment
  rw [turn] at answers_le repeats_le
  exact ⟨ended, done, took.ends ended turn, answers_le, repeats_le⟩

theorem fourth_answered {ended : End} (solved : setting.solution negotiation ≠ none)
    (many : MAX_TRIES ≤ answers negotiation.sent)
    (done : Loops.Finishes setting.turn negotiation ended) :
    ended.outcome = .panicked ∨ MAX_TRIES < answers ended.sent := by
  cases counted : setting.increment negotiation.count with
  | none =>
    obtain rfl := (Loops.finishes_inr (turn_panics counted) ended).mp done
    exact .inl rfl
  | some count =>
    obtain ⟨extra, took⟩ := turn_took setting counted
    obtain ⟨suffix, found⟩ := Option.ne_none_iff_exists'.mp solved
    have more : MAX_TRIES < answers (log (setting.turn negotiation)) := by
      rw [took.log_eq, answers_append, took.answers_eq, found]
      exact Nat.lt_succ_of_le many
    right
    cases turn : setting.turn negotiation with
    | inl next =>
      rw [turn] at more
      exact Nat.lt_of_lt_of_le more (answers_finished ((Loops.finishes_inl turn ended).mp done))
    | inr last =>
      obtain rfl := (Loops.finishes_inr turn ended).mp done
      rw [turn] at more
      exact more

end Bounds

/-- The call returns after at most six requests, at most three of them answers to challenges. -/
def Bounded (setting : Setting) (client : SpClient) (later : Int) : Prop :=
  ∃ fuel finished, clientToken setting client later fuel = some finished ∧
    finished.result ≠ .panicked ∧ finished.sent.length ≤ 2 * MAX_TRIES ∧
    answers finished.sent ≤ MAX_TRIES

theorem sent_finish (later : Int) (ended : End) : (finish later ended).sent = ended.sent := by
  rw [finish]
  split <;> rfl

theorem panicked_finish (later : Int) (ended : End) :
    (finish later ended).result = .panicked ↔ ended.outcome = .panicked := by
  rw [finish]
  split
  · next granted => simp [granted]
  · next failed => simp [failed]
  · next panicked => simp [panicked]

section Calls

variable {setting : Setting} {client : SpClient} {later : Int} {fuel : Nat}

theorem clientToken_valid {token : Token} (valid : client.valid = some token) :
    clientToken setting client later fuel = some ⟨.ok token.accessToken, [], some token⟩ := by
  rw [clientToken, valid]

theorem clientToken_refused {ended : End} (missing : client.valid = none)
    (refused : setting.start = .inr ended) :
    clientToken setting client later fuel = some (finish later ended) := by
  rw [clientToken, missing]
  dsimp only
  rw [refused]

theorem clientToken_loop (missing : client.valid = none) (started : setting.start = .inl first) :
    clientToken setting client later fuel =
      (Loops.loop setting.turn fuel first).map (finish later) := by
  rw [clientToken, missing]
  dsimp only
  rw [started]

theorem start_refused {ended : End} (refused : setting.start = .inr ended) :
    ended.outcome ≠ .panicked ∧ answers ended.sent = 0 ∧ repeats ended.sent = 1 := by
  rw [Setting.start, Setting.send] at refused
  split at refused
  · cases refused
  · cases refused
    exact ⟨nofun, rfl, rfl⟩

theorem bounded_of_end {ended : End} (fuel : Nat)
    (called : clientToken setting client later fuel = some (finish later ended))
    (orderly : ended.outcome ≠ .panicked) (answers_le : answers ended.sent ≤ MAX_TRIES)
    (repeats_le : repeats ended.sent ≤ MAX_TRIES) : Bounded setting client later := by
  have length := length_eq ended.sent
  refine ⟨fuel, finish later ended, called, ?_, ?_, ?_⟩
  · exact fun panicked => orderly ((panicked_finish later ended).mp panicked)
  · rw [sent_finish]
    omega
  · rw [sent_finish]
    exact answers_le

theorem not_bounded_of_fourth (missing : client.valid = none)
    (reached : Reached setting negotiation) (solved : setting.solution negotiation ≠ none)
    (many : MAX_TRIES ≤ answers negotiation.sent) : ¬ Bounded setting client later := by
  rintro ⟨fuel, finished, called, orderly, -, few⟩
  obtain ⟨first, started, turns⟩ := reached
  rw [clientToken_loop missing started] at called
  obtain ⟨ended, looped, rfl⟩ := Option.map_eq_some_iff.mp called
  rw [sent_finish] at few
  have done := (turns.finishes_iff ended).mp ⟨fuel, looped⟩
  rcases fourth_answered solved many done with panicked | more
  · exact orderly ((panicked_finish later ended).mpr panicked)
  · omega

end Calls

/-- The negotiation is bounded exactly if no challenge is solved any more once three have been
answered. -/
theorem bounded_iff (setting : Setting) (client : SpClient) (later : Int) :
    Bounded setting client later ↔ (client.valid = none → FewSolved setting) := by
  constructor
  · intro bounded missing negotiation reached solved
    by_contra many
    exact not_bounded_of_fourth missing reached solved (Nat.le_of_not_lt many) bounded
  · intro few
    cases found : client.valid with
    | some token =>
      exact ⟨0, _, clientToken_valid found, nofun, Nat.zero_le _, Nat.zero_le _⟩
    | none =>
      cases started : setting.start with
      | inr ended =>
        obtain ⟨orderly, nothing, one⟩ := start_refused started
        refine bounded_of_end 0 (clientToken_refused found started) orderly ?_ ?_
        · rw [nothing]
          exact Nat.zero_le _
        · rw [one]
          decide
      | inl first =>
        obtain ⟨ended, ⟨fuel, looped⟩, orderly, answers_le, repeats_le⟩ :=
          loop_bounded started (few found)
        refine bounded_of_end fuel ?_ orderly answers_le repeats_le
        rw [clientToken_loop found started, looped, Option.map_some]

section Stubborn

/-- A service that answers everything with another challenge. -/
def challenged : ClientTokenResponse where
  responseType := 2
  response := some (.challenges ⟨"state".toList, [⟨some ⟨1, "00".toList⟩⟩]⟩)

def stubborn (overflowChecks : Bool) : Setting where
  request := ⟨"1.2".toList, "client".toList, "device".toList⟩
  reply := fun _ => .ok []
  parse := fun _ => .ok challenged
  decodeHex := fun _ => .ok []
  encodeHex := fun _ => []
  solveHashCash := fun _ _ _ => some []
  overflowChecks := overflowChecks

def fresh : SpClient where
  clientToken := none
  now := 0
  inRange := nofun

theorem stubborn_turn (overflowChecks : Bool) {negotiation : Negotiation} {count : Nat}
    (counted : (stubborn overflowChecks).increment negotiation.count = some count) :
    (stubborn overflowChecks).turn negotiation =
      .inl ⟨[], count, negotiation.sent ++ [.challengeAnswers "state".toList []]⟩ := by
  rw [Setting.turn, counted]
  rfl

/-- In a build that does not check for overflows the loop goes on for ever. -/
theorem stubborn_endless (fuel : Nat) : clientToken (stubborn false) fresh 0 fuel = none := by
  rw [clientToken_loop rfl rfl, Loops.endless (fun _ => True) trivial, Option.map_none]
  intro negotiation _
  obtain ⟨count, counted⟩ :
      ∃ count, (stubborn false).increment negotiation.count = some count := by
    rw [Setting.increment]
    split
    · exact ⟨_, rfl⟩
    · exact ⟨0, rfl⟩
  exact ⟨_, stubborn_turn false counted, trivial⟩

theorem stubborn_fourth (overflowChecks : Bool) : ¬ Bounded (stubborn overflowChecks) fresh 0 := by
  have first := Loops.Reached.turn .start (@stubborn_turn overflowChecks
    ⟨[], 0, [.clientData (stubborn overflowChecks).request]⟩ _ rfl)
  have second := first.turn (stubborn_turn overflowChecks rfl)
  have third := second.turn (stubborn_turn overflowChecks rfl)
  have few : MAX_TRIES ≤ 3 := Nat.le_refl 3
  exact not_bounded_of_fourth rfl ⟨_, rfl, third⟩ nofun few

theorem stubborn_notBounded :
    (∀ fuel, clientToken (stubborn false) fresh 0 fuel = none) ∧
      ¬ Bounded (stubborn false) fresh 0 ∧ ¬ Bounded (stubborn true) fresh 0 :=
  ⟨stubborn_endless, stubborn_fourth false, stubborn_fourth true⟩

end Stubborn

end ClientToken
