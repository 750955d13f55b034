import Mathlib.Data.List.Count
import Mathlib.Data.List.Perm.Basic
import SqueezeboxConnect.Runs
import SqueezeboxConnect.Words

/-!
# Requests of the dealer

A request comes in over a websocket with a key, and the reply with that key is
queued for sending. A responder goes along with the request; if it is dropped
before it was used, it replies that the request failed. Some handlers hold on to
the responder in a task of their own, which ends later or is cancelled.

Base64, gzip, UTF-8 and JSON come from other libraries and may give any result.
`force_unanswered` is called nowhere and left out, and so is the log.
-/

namespace DealerRequests

open Runs Words

structure Response where
  success : Bool
  deriving DecidableEq

/-- The text message of type `reply`. -/
structure Reply where
  key : String
  success : Bool
  deriving DecidableEq

/-- The channel to the task that sends on the websocket. -/
structure SendQueue where
  connected : Bool
  messages : List Reply
  deriving DecidableEq

structure Responder where
  key : String
  sent : Bool
  deriving DecidableEq

namespace Responder

def new (key : String) : Responder := ⟨key, false⟩

def sendInternal (r : Responder) (tx : SendQueue) (response : Response) : SendQueue :=
  if tx.connected then { tx with messages := tx.messages ++ [⟨r.key, response.success⟩] } else tx

def drop (r : Responder) (tx : SendQueue) : SendQueue :=
  if r.sent then tx else r.sendInternal tx ⟨false⟩

/-- The responder is consumed, and dropped at the end. -/
def send (r : Responder) (tx : SendQueue) (response : Response) : SendQueue :=
  let tx := r.sendInternal tx response
  { r with sent := true }.drop tx

end Responder

inductive ProtocolError where
  | base64
  | gzip
  | mismatched
  | utf8
  | deserialization
  deriving DecidableEq, Repr

/-- The libraries that take a payload apart. -/
structure Codecs (Request : Type) where
  base64 : String → Option (List UInt8)
  /-- The number of bytes that were read comes with them. -/
  gunzip : List UInt8 → Option (Nat × List UInt8)
  utf8 : List UInt8 → Option String
  json : String → Option Request

structure WebsocketRequest where
  headers : List (String × String)
  messageIdent : Text
  key : String
  /-- `payload.compressed`. -/
  compressed : String
  deriving DecidableEq

variable {Request : Type} (codecs : Codecs Request)

def handleTransferEncoding (headers : List (String × String)) (data : List UInt8) :
    Except ProtocolError (List UInt8) :=
  if headers.lookup "Transfer-Encoding" ≠ some "gzip" then .ok data
  else match codecs.gunzip data with
    | none => .error .gzip
    | some (n, bytes) => if n = bytes.length then .ok bytes else .error .mismatched

def handlePayload (r : WebsocketRequest) : Except ProtocolError Request := do
  let bytes ← (codecs.base64 r.compressed).elim (.error .base64) .ok
  let payload ← handleTransferEncoding codecs r.headers bytes
  let payload ← (codecs.utf8 payload).elim (.error .utf8) .ok
  (codecs.json payload).elim (.error .deserialization) .ok

def stripScheme (scheme text : Text) : Option Text :=
  if scheme.isPrefixOf text then some (text.drop scheme.length) else none

def trimEnd (sep : Char) (text : Text) : Text := (text.reverse.dropWhile (· == sep)).reverse

def splitUri (s : Text) : Option (List Text) :=
  match stripScheme "hm://".toList s with
  | some rest => some ("hm".toList :: (trimEnd '/' rest).splitOn '/')
  | none =>
    match stripScheme "spotify:".toList s with
    | some rest => some ("spotify".toList :: (trimEnd ':' rest).splitOn ':')
    | none => if s.contains '/' then some ([] :: (trimEnd '/' s).splitOn '/') else none

inductive HandlerMap (T : Type) where
  | leaf (handler : T)
  | branch (children : List (Text × HandlerMap T))

/-- The handler of the first leaf on the path. -/
def HandlerMap.get {T : Type} : HandlerMap T → List Text → Option T
  | .leaf t, _ => some t
  | .branch _, [] => none
  | .branch children, component :: path =>
    match children.lookup component with
    | none => none
    | some next => next.get path

inductive Handler (Request : Type) where
  /-- `DealerRequestHandler`; its requests can be received or not. -/
  | queue (connected : Bool)
  /-- A function that returns the response. -/
  | function (answer : Request → Response)
  /-- A function that returns a future, which is awaited in a task. -/
  | asyncFunction
  /-- A handler that drops its responder. -/
  | dropping

/-- The connection, with the responders that tasks still hold. -/
structure Dealer where
  tx : SendQueue
  held : List Responder
  deriving DecidableEq

namespace Dealer

def answer (d : Dealer) (r : Responder) (response : Response) : Dealer :=
  { d with tx := r.send d.tx response }

def dropResponder (d : Dealer) (r : Responder) : Dealer := { d with tx := r.drop d.tx }

/-- A request that has been queued is acknowledged before it is handled; what comes of it
later is only logged. -/
def handleRequest (d : Dealer) (handler : Handler Request) (request : Request) (r : Responder) :
    Dealer :=
  match handler with
  | .queue false => d.answer r ⟨false⟩
  | .queue true => d.answer r ⟨true⟩
  | .function answer => d.answer r (answer request)
  | .asyncFunction => { d with held := d.held ++ [r] }
  | .dropping => d.dropResponder r

/-- A request whose payload cannot be decoded never gets a responder. -/
def dispatchRequest (handlers : HandlerMap (Handler Request)) (d : Dealer) (r : WebsocketRequest) :
    Dealer :=
  match handlePayload codecs r with
  | .error _ => d
  | .ok request =>
    let responder := Responder.new r.key
    match splitUri r.messageIdent with
    | none => d.dropResponder responder
    | some split =>
      match handlers.get split with
      | some handler => d.handleRequest handler request responder
      | none => d.dropResponder responder

/-- A task ends with the response of its future, or is cancelled with its responder. -/
def finishTask (d : Dealer) (i : Nat) (response : Option Response) : Dealer :=
  match d.held[i]? with
  | none => d
  | some r =>
    let d := { d with held := d.held.eraseIdx i }
    match response with
    | some response => d.answer r response
    | none => d.dropResponder r

end Dealer

inductive Input (Request : Type) where
  /-- A request, with the handlers that are registered when it comes in. -/
  | request (handlers : HandlerMap (Handler Request)) (r : WebsocketRequest)
  | finishTask (i : Nat) (response : Option Response)
  /-- The task that sends has ended. -/
  | close

def step (d : Dealer) : Input Request → Dealer
  | .request handlers r => d.dispatchRequest codecs handlers r
  | .finishTask i response => d.finishTask i response
  | .close => { d with tx := { d.tx with connected := false } }

def start : Dealer := ⟨⟨true, []⟩, []⟩

def requestOf? : Input Request → Option WebsocketRequest
  | .request _ r => some r
  | _ => none

def requests (inputs : List (Input Request)) : List WebsocketRequest := inputs.filterMap requestOf?

/-- The replies with the key, and those that tasks are going to send. -/
def answers (d : Dealer) (key : String) : Nat :=
  d.tx.messages.countP (fun reply => reply.key == key) + d.held.countP fun r => r.key == key

def decodable (r : WebsocketRequest) : Bool :=
  match handlePayload codecs r with
  | .ok _ => true
  | .error _ => false

/-- For every key there are as many replies, sent or still held, as there were requests. -/
def AnsweredOnce (inputs : List (Input Request)) : Prop :=
  ∀ key, answers (run (step codecs) start inputs) key =
    (requests inputs).countP fun r => r.key == key

/-- An open connection whose responders have not been used. -/
structure Open (d : Dealer) : Prop where
  connected : d.tx.connected = true
  unsent : ∀ r ∈ d.held, r.sent = false

/-- One more answer with the key, on a connection that is open. -/
structure Answers (key : String) (d d' : Dealer) : Prop where
  stays : Open d → Open d'
  one : Open d → ∀ k, answers d' k = answers d k + if key == k then 1 else 0

theorem send_messages {tx : SendQueue} (connected : tx.connected = true) (r : Responder)
    (response : Response) :
    r.send tx response = { tx with messages := tx.messages ++ [⟨r.key, response.success⟩] } := by
  simp [Responder.send, Responder.sendInternal, Responder.drop, connected]

theorem drop_messages {tx : SendQueue} (connected : tx.connected = true) {r : Responder}
    (unsent : r.sent = false) :
    r.drop tx = { tx with messages := tx.messages ++ [⟨r.key, false⟩] } := by
  simp [Responder.drop, Responder.sendInternal, connected, unsent]

theorem answer_answers (d : Dealer) (r : Responder) (response : Response) :
    Answers r.key d (d.answer r response) := by
  constructor
  · intro h
    rw [Dealer.answer, send_messages h.connected]
    exact ⟨h.connected, h.unsent⟩
  · intro h k
    rw [Dealer.answer, send_messages h.connected]
    simp only [answers, List.countP_append, List.countP_singleton]
    omega

theorem dropResponder_answers (d : Dealer) (r : Responder) (unsent : r.sent = false) :
    Answers r.key d (d.dropResponder r) := by
  constructor
  · intro h
    rw [Dealer.dropResponder, drop_messages h.connected unsent]
    exact ⟨h.connected, h.unsent⟩
  · intro h k
    rw [Dealer.dropResponder, drop_messages h.connected unsent]
    simp only [answers, List.countP_append, List.countP_singleton]
    omega

/-- Every handler answers once, though not always at once. -/
theorem handleRequest_answers (d : Dealer) (handler : Handler Request) (request : Request)
    (r : Responder) (unsent : r.sent = false) :
    Answers r.key d (d.handleRequest handler request r) := by
  cases handler with
  | queue connected => cases connected <;> exact answer_answers ..
  | function answer => exact answer_answers ..
  | dropping => exact dropResponder_answers d r unsent
  | asyncFunction =>
    constructor
    · intro h
      refine ⟨h.connected, ?_⟩
      intro s inside
      rcases List.mem_append.mp inside with old | new
      · exact h.unsent s old
      · rw [List.mem_singleton.mp new]
        exact unsent
    · intro h k
      simp only [answers, Dealer.handleRequest, List.countP_append, List.countP_singleton]
      omega

theorem dispatchRequest_answers (handlers : HandlerMap (Handler Request)) (d : Dealer)
    {r : WebsocketRequest} (decodes : decodable codecs r = true) :
    Answers r.key d (d.dispatchRequest codecs handlers r) := by
  rw [decodable] at decodes
  rw [Dealer.dispatchRequest]
  split at decodes
  · rename_i request payload
    rw [payload]
    dsimp only
    split
    · exact dropResponder_answers d (.new r.key) rfl
    · split
      · exact handleRequest_answers d _ request (.new r.key) rfl
      · exact dropResponder_answers d (.new r.key) rfl
  · cases decodes

theorem dispatchRequest_undecodable (handlers : HandlerMap (Handler Request)) (d : Dealer)
    {r : WebsocketRequest} (fails : decodable codecs r = false) :
    d.dispatchRequest codecs handlers r = d := by
  rw [decodable] at fails
  rw [Dealer.dispatchRequest]
  split at fails
  · cases fails
  · rename_i payload
    rw [payload]

theorem finishTask_answers (d : Dealer) (i : Nat) (response : Option Response) (h : Open d) :
    Open (d.finishTask i response) ∧
      ∀ key, answers (d.finishTask i response) key = answers d key := by
  rw [Dealer.finishTask]
  cases there : d.held[i]? with
  | none => exact ⟨h, fun _ => rfl⟩
  | some r =>
    obtain ⟨inside, place⟩ := List.getElem?_eq_some_iff.mp there
    have perm : (r :: d.held.eraseIdx i).Perm d.held := by
      rw [← place]
      exact List.getElem_cons_eraseIdx_perm inside
    let rest : Dealer := { d with held := d.held.eraseIdx i }
    have unsent : r.sent = false := h.unsent r (List.mem_of_getElem? there)
    have stays : Open rest :=
      ⟨h.connected, fun s later => h.unsent s (List.mem_of_mem_eraseIdx later)⟩
    have answered : Answers r.key rest (match response with
        | some response => rest.answer r response
        | none => rest.dropResponder r) := by
      cases response with
      | some response => exact answer_answers rest r response
      | none => exact dropResponder_answers rest r unsent
    refine ⟨answered.stays stays, fun key => (answered.one stays key).trans ?_⟩
    have count := perm.countP_eq fun r => r.key == key
    rw [List.countP_cons] at count
    simp only [answers, rest]
    omega

/-- A run in which the connection stays open answers the requests that can be decoded. -/
theorem run_answers {inputs : List (Input Request)} {d : Dealer} (h : Open d)
    (stays : .close ∉ inputs) (key : String) :
    answers (run (step codecs) d inputs) key = answers d key +
      ((requests inputs).filter (decodable codecs)).countP fun r => r.key == key := by
  induction inputs generalizing d with
  | nil => rfl
  | cons input rest ih =>
    have later : .close ∉ rest := fun inside => stays (List.mem_cons_of_mem _ inside)
    rw [run_cons]
    cases input with
    | close => exact absurd (List.mem_cons_self ..) stays
    | finishTask i response =>
      obtain ⟨stays', same⟩ := finishTask_answers d i response h
      rw [step, ih stays' later, same]
      rfl
    | request handlers r =>
      have front : requests (.request handlers r :: rest) = r :: requests rest := rfl
      rw [front, List.filter_cons]
      by_cases decodes : decodable codecs r = true
      · have answered := dispatchRequest_answers codecs handlers d decodes
        rw [if_pos decodes, step, ih (answered.stays h) later, answered.one h key, List.countP_cons]
        omega
      · have fails : decodable codecs r = false := by simpa using decodes
        rw [if_neg decodes, step, dispatchRequest_undecodable codecs handlers d fails]
        exact ih h later

/-- On a connection that stays open, every request is answered once if and only if the
payload of every request can be decoded. -/
theorem answeredOnce_iff (inputs : List (Input Request)) (stays : .close ∉ inputs) :
    AnsweredOnce codecs inputs ↔ ∀ r ∈ requests inputs, decodable codecs r = true := by
  have opened : Open start := ⟨rfl, by simp [start]⟩
  have answered : ∀ key, answers (run (step codecs) start inputs) key =
      ((requests inputs).filter (decodable codecs)).countP fun r => r.key == key := by
    intro key
    rw [run_answers codecs opened stays]
    simp [answers, start]
  constructor
  · intro once r inside
    by_contra fails
    have same := (answered r.key).symm.trans (once r.key)
    have parts := List.countP_eq_countP_filter_add (requests inputs) (fun s => s.key == r.key)
      (decodable codecs)
    have lost : 0 < ((requests inputs).filter fun s => !decodable codecs s).countP
        fun s => s.key == r.key := by
      rw [List.countP_pos_iff]
      exact ⟨r, List.mem_filter.mpr ⟨inside, by simpa using fails⟩, by simp⟩
    omega
  · intro all key
    rw [answered key, List.filter_eq_self.mpr all]

section Examples

/-- Every payload is a JSON text but for the one that says so. -/
def plain : Codecs String where
  base64 text := if text = "not base64" then none else some []
  gunzip _ := none
  utf8 _ := some ""
  json text := some text

def registered : HandlerMap (Handler String) :=
  .branch [("hm".toList, .branch [("connect-state".toList, .leaf (.queue true))])]

def request (key payload : String) : WebsocketRequest :=
  ⟨[], "hm://connect-state/v1/player/command".toList, key, payload⟩

theorem playerCommand_answeredOnce :
    AnsweredOnce plain [.request registered (request "1" "{}")] :=
  (answeredOnce_iff plain _ (by simp)).mpr (by
    intro r inside
    simp only [requests, requestOf?, List.filterMap_cons, List.filterMap_nil,
      List.mem_singleton] at inside
    subst inside
    rfl)

/-- A payload that is not encoded as it should be gets no reply. -/
theorem brokenPayload_not_answered :
    ¬ AnsweredOnce plain [.request registered (request "1" "not base64")] := by
  intro once
  have one := once "1"
  cases one

end Examples

end DealerRequests
