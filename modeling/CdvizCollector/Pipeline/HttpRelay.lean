import CdvizCollector.Lib.Attempts
import CdvizCollector.Pipeline.Relay
import CdvizCollector.Sinks.HttpSend
import CdvizCollector.Sinks.Signed
import CdvizCollector.Sources.Backpressure

/-!
From the http sink of one collector to the webhook source of another.

The client of the sink tries a request again after an error or a status it takes for
transient, and comes back with the last answer. The sink takes any answer for a
success: whether an event was enqueued is told by the status, which is only logged.
-/

namespace CdvizCollector.Pipeline

open Lib Lib.Http Lib.Attempts Security Sinks Sources Transformers

variable {CDEvent : Type}

/-- The state of the receiver, and what became of the requests so far: the fates of
their attempts and the last status. -/
structure Wire (CDEvent : Type) where
  receiver : Memory × Queue CDEvent
  posted : List (List (Fate ℕ) × Option ℕ)

/-- What comes from outside: the context of the current span, the fates of the attempts
of a request, the headers a client adds, and what it tries again after. -/
structure Network where
  context : ℕ → StringMap
  fates : ℕ → List (Fate ℕ)
  transmit : HeaderMap → HeaderMap
  again : Option ℕ → Bool

/-- A POST, by its status. -/
def call (H : Hook CDEvent) (request : Webhook.Request) (s : Memory × Queue CDEvent) :
    Option ℕ × (Memory × Queue CDEvent) :=
  ((H.post request s).1.map Webhook.Response.status, (H.post request s).2)

def Network.client (N : Network) (H : Hook CDEvent) : HttpClient (Wire CDEvent) where
  context w := N.context w.posted.length
  execute request w :=
    let fates := N.fates w.posted.length
    let answer := attempts (call H ⟨N.transmit request.1, request.2⟩) N.again fates w.receiver
    let w := { receiver := answer.2, posted := w.posted ++ [(fates, answer.1)] }
    match answer.1 with
    | some status => (.ok status, w)
    | none => (.error "error sending request", w)

section Request

variable {T : HttpTask CDEvent (Wire CDEvent)} {H : Hook CDEvent} {N : Network}
  {toText : CDEvent → Except String String} {fromStr : String → Option Json}
  {toValue : CDEvent → Json} {cdevent : CDEvent}

/-- The receiver has enqueued the event some more times. -/
def Copies (cdevent : CDEvent) (k : ℕ) (s s' : Memory × Queue CDEvent) : Prop :=
  s'.2.enqueued.map (fun entry => entry.2.cdevent) =
    s.2.enqueued.map (fun entry => entry.2.cdevent) ++ List.replicate k cdevent

/-- The statuses of an event that is refused by a queue that is close to full or that
nobody receives from. -/
def Refusal (status : ℕ) : Prop := status = 500 ∨ status = 503

/-- What became of a message: the fates of its request and the last status, if there was
one, and how often the event was enqueued. -/
structure Entry (CDEvent : Type) where
  msg : Message CDEvent
  posted : Option (List (Fate ℕ) × Option ℕ)
  copies : ℕ

structure Entry.Accounted (e : Entry CDEvent) (answer : Option (Except SendFailure Unit)) :
    Prop where
  unposted : e.posted = none → e.copies = 0
  posted : ∀ fates status, e.posted = some (fates, status) →
    Attempts.Accounted 201 Refusal fates status e.copies
  answer : answer = some (.ok ()) ↔ ∃ fates status, e.posted = some (fates, some status)

end Request

/-! A message that is answered on its second attempt. -/

namespace HttpRelay

def printValue (value : Json) : String :=
  (Relay.sdk.fromValue value).toOption.elim "{}" Relay.text

def hook : Hook Bool where
  primitives := Relay.primitives
  fromBytes bytes :=
    ((Text.decodeUtf8 bytes).bind Relay.fromStr).elim (.error "expected value") .ok
  text := printValue
  sdk := Relay.sdk
  webhook :=
    { headersToKeep := [], headers := [signatureRule sampleConfig], baseMetadata := .obj [] }
  transformers := []
  terminal := Relay.processor
  observe := Relay.observe

/-- `Accept`, which the client adds if there is none. -/
def transmit (headers : HeaderMap) : HeaderMap :=
  match HeaderName.fromStr "accept", HeaderValue.fromStr "*/*" with
  | some name, some value =>
      if name ∈ headers.names then headers else headers ++ [(name, value)]
  | _, _ => headers

def network : Network where
  context _ := []
  fates _ := [.lost, .answered]
  transmit := transmit
  again status := status.all fun s => decide (500 ≤ s ∨ s = 408 ∨ s = 429)

def task : HttpTask Bool (Wire Bool) where
  sink := sampleSink
  transformers := []
  crypto := Relay.crypto
  text := printValue
  toValue cdevent := .ok (Relay.value cdevent)
  toVec value := Text.utf8 (printValue value)
  client := network.client hook

def start : HttpState (Wire Bool) where
  memory := []
  buffer := []
  world := { receiver := ([], { enqueued := [], sends := 0 }), posted := [] }

end HttpRelay

end CdvizCollector.Pipeline
