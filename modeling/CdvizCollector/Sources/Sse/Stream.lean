import CdvizCollector.Lib.System
import CdvizCollector.Security.Header

/-!
The SSE source: one connection (`event_source/event_source.rs`) and the loop
that connects again after each failure (`sources/sse/mod.rs`).

What the response and the stream of a connection have ready when they are polled
comes from elsewhere, and so do the ids of its messages. Polls that find nothing
ready change nothing and are left out.
-/

namespace CdvizCollector.Sources.Sse

open Lib Lib.Http Security

/-! ### A connection -/

structure MessageEvent where
  id : String
  event : String
  data : String
deriving DecidableEq, Repr

/-- `event_source::Error`. -/
inductive Error where
  | utf8
  | parser (message : String)
  | transport
  | invalidContentType (value : List UInt8)
  | invalidStatusCode (status : ℕ)
  | streamEnded
  | currentStreamRetrievalFailed
deriving DecidableEq, Repr

inductive StreamEvent where
  | opened
  | message (message : MessageEvent)
deriving DecidableEq, Repr

structure Response where
  status : ℕ
  contentType : Option HeaderValue

/-- `check_response`; `isEventStream` tells whether a content type is the media
type `text/event-stream`. -/
def checkResponse (isEventStream : String → Bool) (res : Response) : Except Error Unit :=
  if res.status ≠ 200 then .error (.invalidStatusCode res.status)
  else
    match res.contentType with
    | none => .error (.invalidContentType [])
    | some contentType =>
        if contentType.toStr.any isEventStream then .ok ()
        else .error (.invalidContentType contentType.bytes)

/-- What the stream of an open connection has ready. -/
inductive StreamItem where
  | failed (error : Error)
  | message (message : MessageEvent)
  | ended
deriving DecidableEq, Repr

/-- What a poll finds ready: the response, unless the request failed, or an item
of the stream. -/
structure Ready where
  response : Option Response
  item : StreamItem

/-- An `EventSource`, by whether it awaits its response and whether it has a
stream. -/
structure EventSource where
  nextResponse : Bool
  curStream : Bool
  isClosed : Bool
  lastEventId : String
deriving DecidableEq, Repr

namespace EventSource

def new : EventSource :=
  { nextResponse := true, curStream := false, isClosed := false, lastEventId := "" }

def clearFetch (es : EventSource) : EventSource :=
  { es with nextResponse := false, curStream := false }

def handleResponse (es : EventSource) : EventSource := { es with curStream := true }

def handleEvent (es : EventSource) (message : MessageEvent) : EventSource :=
  { es with lastEventId := message.id }

def handleError (es : EventSource) : EventSource := { es.clearFetch with isClosed := true }

/-- `poll_next`, when something is ready; without a result the stream is over. -/
def pollNext (isEventStream : String → Bool) (es : EventSource) (ready : Ready) :
    EventSource × Option (Except Error StreamEvent) :=
  if es.isClosed then (es, none)
  else if es.nextResponse then
    match ready.response with
    | some res =>
        let es := es.clearFetch
        match checkResponse isEventStream res with
        | .ok () => (es.handleResponse, some (.ok .opened))
        | .error err => ({ es with isClosed := true }, some (.error err))
    | none => (es.handleError, some (.error .transport))
  else if es.curStream then
    match ready.item with
    | .failed err => (es.handleError, some (.error err))
    | .message message => (es.handleEvent message, some (.ok (.message message)))
    | .ended => (es.handleError, some (.error .streamEnded))
  else (es, some (.error .currentStreamRetrievalFailed))

end EventSource

/-! ### The source -/

/-- A source, with what it takes from elsewhere: JSON parsing, the signature
algorithms, the media type of a response, and whether a request can be built for
its URL. -/
structure Config where
  url : String
  headers : List OutgoingHeaderConfig
  maxRetries : Option ℕ
  metadata : Json
  fromStr : String → Option Json
  crypto : Crypto
  isEventStream : String → Bool
  validUrl : Bool

inductive Phase where
  | connecting
  | streaming (es : EventSource)
  | stopped
deriving DecidableEq, Repr

/-- A request that was sent: its generated headers, and the resume point that
was attached to it. What was received before, and in the connection before, is
recorded with it. -/
structure Connection where
  headers : HeaderMap
  lastEventId : Option HeaderValue
  received : List MessageEvent
  previous : List MessageEvent

/-- `SseSourceState` in its loop. The last three fields record the run: all
messages, those of the current or last connection, and the requests sent. -/
structure Source where
  lastEventId : String
  opened : Bool
  nPastRetries : ℕ
  phase : Phase
  received : List MessageEvent
  latest : List MessageEvent
  connections : List Connection
  emitted : List Event

def Source.new : Source :=
  { lastEventId := "", opened := false, nPastRetries := 0, phase := .connecting, received := []
    latest := [], connections := [], emitted := [] }

/-- The event a message is turned into; `uuid` stands in for a missing id. -/
def Config.toEvent (C : Config) (message : MessageEvent) (uuid : String) : Event :=
  let metadata :=
    match C.metadata with
    | .obj fields =>
        let messageId := if message.id = "" then uuid else message.id
        let messageEvent := if message.event = "" then "message" else message.event
        .obj (Assoc.insert "sse_url" (.str C.url)
          (Assoc.insert "sse_event" (.str messageEvent)
            (Assoc.insert "sse_id" (.str messageId) fields)))
    | metadata => metadata
  { metadata, headers := [], body := (C.fromStr message.data).getD (.str message.data) }

/-- What `run` does with a failed connection: the retry policy gives up after
`max_retries` failures since a connection opened. -/
def Source.fail (C : Config) (s : Source) : Source :=
  let nPastRetries := if s.opened then 0 else s.nPastRetries
  let s := { s with opened := false }
  if C.maxRetries.getD 10 ≤ nPastRetries then { s with nPastRetries, phase := .stopped }
  else { s with nPastRetries := nPastRetries + 1, phase := .connecting }

/-- The resume point attached to the next request. -/
def Source.resumeHeader (s : Source) : Option HeaderValue :=
  if s.lastEventId = "" then none else HeaderValue.fromStr s.lastEventId

/-- `connect_and_stream`, up to its first poll. -/
def Source.connect (C : Config) (s : Source) : Source :=
  match generateHeaders C.crypto C.headers [] with
  | .error _ => s.fail C
  | .ok headers =>
      if C.validUrl then
        { s with
          phase := .streaming EventSource.new
          latest := []
          connections := s.connections ++
            [⟨headers, s.resumeHeader, s.received, s.latest⟩] }
      else s.fail C

/-- What `connect_and_stream` does with a polled item. -/
def Source.handle (C : Config) (s : Source) (es : EventSource)
    (item : Option (Except Error StreamEvent)) (uuid : String) : Source :=
  match item with
  | some (.ok .opened) => { s with opened := true, phase := .streaming es }
  | some (.ok (.message message)) =>
      { s with
        phase := .streaming es
        received := s.received ++ [message]
        latest := s.latest ++ [message]
        emitted := s.emitted ++ [C.toEvent message uuid] }
  | some (.error _) => Source.fail C { s with lastEventId := es.lastEventId }
  | none => { s with lastEventId := es.lastEventId, phase := .stopped }

inductive Step (C : Config) : Source → Source → Prop
  | connect {s : Source} (hphase : s.phase = .connecting) : Step C s (s.connect C)
  | poll {s : Source} {es : EventSource} (ready : Ready) (uuid : String)
      (hphase : s.phase = .streaming es) :
      Step C s (s.handle C (es.pollNext C.isEventStream ready).1
        (es.pollNext C.isEventStream ready).2 uuid)
  | cancel {s : Source} : Step C s { s with phase := .stopped }

def system (C : Config) : System Source where
  init s := s = Source.new
  step := Step C

/-- A failed connection counts, and is tried again or the last one; the ids and
the messages stay. -/
theorem fail_eq (C : Config) (s : Source) :
    ∃ nPastRetries phase, s.fail C = { s with opened := false, nPastRetries, phase } ∧
      (phase = .connecting ∨ phase = .stopped) := by
  unfold Source.fail
  dsimp only
  by_cases hspent : C.maxRetries.getD 10 ≤ if s.opened then 0 else s.nPastRetries
  · rw [if_pos hspent]
    exact ⟨_, _, rfl, .inr rfl⟩
  · rw [if_neg hspent]
    exact ⟨_, _, rfl, .inl rfl⟩

/-- The items of a connection, and what they make of its last event id: a
message sets it, and nothing else changes it. -/
inductive PollEffect (es es' : EventSource) : Option (Except Error StreamEvent) → Prop
  | opened (hid : es'.lastEventId = es.lastEventId) : PollEffect es es' (some (.ok .opened))
  | message (message : MessageEvent) (hid : es'.lastEventId = message.id) :
      PollEffect es es' (some (.ok (.message message)))
  | error (err : Error) (hid : es'.lastEventId = es.lastEventId) :
      PollEffect es es' (some (.error err))
  | finished (hid : es'.lastEventId = es.lastEventId) : PollEffect es es' none

theorem pollNext_effect (isEventStream : String → Bool) (es : EventSource) (ready : Ready) :
    PollEffect es (es.pollNext isEventStream ready).1 (es.pollNext isEventStream ready).2 := by
  unfold EventSource.pollNext
  split
  · exact .finished rfl
  · split
    · split
      · dsimp only
        split
        · exact .opened rfl
        · exact .error _ rfl
      · exact .error _ rfl
    · split
      · split
        · exact .error _ rfl
        · exact .message _ rfl
        · exact .error _ rfl
      · exact .error _ rfl

end CdvizCollector.Sources.Sse
