import CdvizCollector.Sinks.HttpSink
import CdvizCollector.Sources.SendCdevents
import CdvizCollector.Transformers.Script

/-!
The http sink over a run (`send` in `sinks/http.rs`).

The transformers of the sink end in a buffer (`transformers/collect_to_vec.rs`), which
is drained after each message and before an error of the chain is answered. What is
posted for a message is what the chain makes of this message, and nothing of it when
the chain fails.
-/

namespace CdvizCollector.Sinks

open Lib Lib.Http Security Sources Transformers

variable {CDEvent ω : Type}

/-- `collect_to_vec::Processor`, with its buffer. -/
def CollectToVec.send : Pipe (List Event) := fun buffer event => (.ok, buffer ++ [event])

/-- `message_to_event`; `toValue` is `serde_json::to_value`. -/
def messageToEvent (toValue : CDEvent → Except String Json) (msg : Message CDEvent) :
    Except String Event := do
  let body ← toValue msg.cdevent
  return { metadata := .obj [], headers := msg.headers, body }

/-- The client with its retries, and the context of the current span. A request comes
to the status of its last answer, or to an error. -/
structure HttpClient (ω : Type) where
  context : ω → StringMap
  execute : HeaderMap × List UInt8 → ω → Except String ℕ × ω

inductive SendFailure where
  | event (cause : String)
  | chain (e : Error)
  | request (e : SendError)
  | client (cause : String)
deriving DecidableEq, Repr

/-- What the sink is made of, next to its configured headers, and what it takes from
elsewhere. -/
structure HttpTask (CDEvent ω : Type) where
  sink : HttpSink
  transformers : List Transformer
  crypto : Crypto
  text : Json → String
  toValue : CDEvent → Except String Json
  toVec : Json → List UInt8
  client : HttpClient ω

structure HttpState (ω : Type) where
  memory : Memory
  buffer : List Event
  world : ω

namespace HttpTask

variable (T : HttpTask CDEvent ω)

/-- `send_event`. The status of the answer is logged at most. -/
def post (event : Event) (w : ω) : Except SendFailure Unit × ω :=
  match T.sink.sendEvent T.crypto T.toVec event (T.client.context w) with
  | .error e => (.error (.request e), w)
  | .ok request =>
      match T.client.execute request w with
      | (.ok _, w) => (.ok (), w)
      | (.error cause, w) => (.error (.client cause), w)

/-- The events one by one, up to the first failure. -/
def postAll : List Event → ω → Except SendFailure Unit × ω
  | [], w => (.ok (), w)
  | event :: events, w =>
      match T.post event w with
      | (.ok _, w) => postAll events w
      | failed => failed

/-- `HttpSink::send`; there is no answer when the chain panics. -/
def send (msg : Message CDEvent) (s : HttpState ω) :
    Option (Except SendFailure Unit) × HttpState ω :=
  match messageToEvent T.toValue msg with
  | .error cause => (some (.error (.event cause)), s)
  | .ok event =>
      let pushRes := chain T.text CollectToVec.send T.transformers (s.memory, s.buffer) event
      let s := { s with memory := pushRes.2.1, buffer := pushRes.2.2 }
      match pushRes.1 with
      | .panic => (none, s)
      | .err e => (some (.error (.chain e)), { s with buffer := [] })
      | .ok =>
          let sent := T.postAll s.buffer s.world
          (some sent.1, { s with buffer := [], world := sent.2 })

def sends : List (Message CDEvent) → HttpState ω →
    List (Option (Except SendFailure Unit)) × HttpState ω
  | [], s => ([], s)
  | msg :: msgs, s =>
      let first := T.send msg s
      let rest := sends msgs first.2
      (first.1 :: rest.1, rest.2)

/-! ### Without a buffer -/

/-- The same with the script of the chain in place of the chain and its buffer. -/
def sendScript (msg : Message CDEvent) (s : Memory × ω) :
    Except SendFailure Unit × (Memory × ω) :=
  match messageToEvent T.toValue msg with
  | .error cause => (.error (.event cause), s)
  | .ok event =>
      let played := script T.text T.transformers s.1 event
      match played.outcome with
      | .err e => (.error (.chain e), (played.memory, s.2))
      | _ =>
          let sent := T.postAll (played.offers.map Prod.snd) s.2
          (sent.1, (played.memory, sent.2))

def sendScripts : List (Message CDEvent) → Memory × ω →
    List (Except SendFailure Unit) × (Memory × ω)
  | [], s => ([], s)
  | msg :: msgs, s =>
      let first := T.sendScript msg s
      let rest := sendScripts msgs first.2
      (first.1 :: rest.1, rest.2)

end HttpTask

/-! ### The buffer -/

theorem play_collectToVec (outcome : Outcome) (memory : Memory)
    (offers : List (Memory × Event)) :
    ∀ buffer, Script.play CollectToVec.send outcome memory offers buffer =
      (outcome, (memory, buffer ++ offers.map Prod.snd)) := by
  induction offers with
  | nil =>
      intro buffer
      rw [List.map_nil, List.append_nil]
      rfl
  | cons offer offers ih =>
      intro buffer
      show Script.play CollectToVec.send outcome memory offers (buffer ++ [offer.2]) = _
      rw [ih, List.map_cons, List.append_assoc]
      rfl

/-! ### A run -/

section Run

variable (T : HttpTask CDEvent ω)

/-- With an empty buffer a message is sent as by the script, and leaves it empty. -/
theorem send_eq (msg : Message CDEvent) (memory : Memory) (w : ω) :
    T.send msg { memory, buffer := [], world := w } =
      (some (T.sendScript msg (memory, w)).1,
        { memory := (T.sendScript msg (memory, w)).2.1
          buffer := []
          world := (T.sendScript msg (memory, w)).2.2 }) := by
  unfold HttpTask.send HttpTask.sendScript
  cases messageToEvent T.toValue msg with
  | error cause => rfl
  | ok event =>
      have hplayed : chain T.text CollectToVec.send T.transformers (memory, []) event =
          ((script T.text T.transformers memory event).outcome,
            ((script T.text T.transformers memory event).memory,
              (script T.text T.transformers memory event).offers.map Prod.snd)) := by
        rw [chain_eq_run, Script.run, play_collectToVec, List.nil_append]
      have hpanic := script_outcome_ne_panic T.text T.transformers memory event
      simp only [hplayed]
      cases houtcome : (script T.text T.transformers memory event).outcome with
      | ok | err e => rfl
      | panic => exact absurd houtcome hpanic

/-- In every run each message is answered, and what is posted for it is what its own
script offers, in order: all of it up to a first failure if the chain takes the message,
and nothing if it fails. No event is left for the next message. -/
theorem sends_own_events (msgs : List (Message CDEvent)) :
    ∀ (memory : Memory) (w : ω), T.sends msgs { memory, buffer := [], world := w } =
      ((T.sendScripts msgs (memory, w)).1.map some,
        { memory := (T.sendScripts msgs (memory, w)).2.1
          buffer := []
          world := (T.sendScripts msgs (memory, w)).2.2 }) := by
  induction msgs with
  | nil => exact fun _ _ => rfl
  | cons msg msgs ih =>
      intro memory w
      simp only [HttpTask.sends, HttpTask.sendScripts, send_eq, ih, List.map_cons]

end Run

end CdvizCollector.Sinks
