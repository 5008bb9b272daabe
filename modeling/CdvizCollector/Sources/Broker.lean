import CdvizCollector.Security.Rule
import CdvizCollector.Security.SignatureCheck
import CdvizCollector.Sources.SendCdevents
import CdvizCollector.Transformers.Deduplicate

/-!
The sources of message brokers (`sources/nats/mod.rs` and `sources/kafka/mod.rs`).

Both make an event of a message in the same way; they differ in where its headers
and its metadata come from, and in the loop around it. What the loop meets in turn
(a message, an error, the cancellation, ...) comes from outside. A consumer of a
NATS stream acknowledges a message once it is processed, whatever became of it, and
only logs an `ack` that fails; a panic of the pipe ends the task before that.
-/

namespace CdvizCollector.Sources.Broker

open Lib Lib.Http Security Transformers

variable {μ σ : Type}

/-! ### Events -/

/-- `serde_json::from_slice` and `String::from_utf8_lossy`. -/
structure Decoding where
  fromSlice : List UInt8 → Option Json
  fromUtf8Lossy : List UInt8 → String

def parseJsonOrString (D : Decoding) (payload : List UInt8) : Json :=
  (D.fromSlice payload).getD (.str (D.fromUtf8Lossy payload))

/-- What both extractors are configured with. -/
structure Extractor where
  headersToKeep : List String
  headerRules : List HeaderRuleConfig
  baseMetadata : Json

/-- What both read of a message: its headers as lines of text, and the fields that
are added to the metadata. -/
structure Incoming where
  payload : List UInt8
  lines : List (String × String)
  fields : List (String × Json)

def keepLine (headersToKeep : List String) (kept : StringMap) (line : String × String) :
    StringMap :=
  if line.1 ∈ headersToKeep then Assoc.insert line.1 line.2 kept else kept

def validateLine (headers : HeaderMap) (line : String × String) : HeaderMap :=
  match HeaderName.fromStr line.1, HeaderValue.fromStr line.2 with
  | some name, some value => headers.insert name value
  | _, _ => headers

namespace Extractor

/-- The metadata of an event; only an object takes more fields. -/
def metadata (X : Extractor) (fields : List (String × Json)) : Json :=
  match X.baseMetadata with
  | .obj base => .obj (fields.foldl (fun base field => Assoc.insert field.1 field.2 base) base)
  | other => other

/-- The event of a message, unless its headers are refused. -/
def event (E : Primitives) (D : Decoding) (X : Extractor) (m : Incoming) : Option Event :=
  let body := parseJsonOrString D m.payload
  let headers := m.lines.foldl (keepLine X.headersToKeep) []
  let httpHeaderMap := m.lines.foldl validateLine []
  if !X.headerRules.isEmpty &&
      (validateHeaders E httpHeaderMap X.headerRules m.payload).toOption.isNone then none
  else some { metadata := X.metadata m.fields, headers, body }

/-- `process_message`: whether the task survives it. -/
def processMessage (E : Primitives) (D : Decoding) (X : Extractor) (next : Pipe σ)
    (m : Incoming) (s : σ) : Bool × σ :=
  match X.event E D m with
  | none => (true, s)
  | some event =>
      match next s event with
      | (.panic, s) => (false, s)
      | (_, s) => (true, s)

end Extractor

/-! ### The two brokers -/

/-- A number as `json!` makes it. -/
def jsonOfInt (i : Int64) : Json :=
  .num (if 0 ≤ i then .posInt i.toUInt64 else .negInt i)

/-- A message of NATS. Its headers are the entries of a hash map, each with its
values in order; only a consumer of a stream has a sequence. -/
structure NatsMessage where
  subject : String
  payload : List UInt8
  headers : List (String × List String)
  sequence : Option UInt64

def NatsMessage.incoming (m : NatsMessage) : Incoming where
  payload := m.payload
  lines := m.headers.flatMap fun entry => entry.2.map fun value => (entry.1, value)
  fields := ("nats_subject", .str m.subject) ::
    (m.sequence.map fun seq => ("nats_sequence", Json.num (.posInt seq))).toList

/-- A record of Kafka; payload and values of headers may be missing. -/
structure KafkaMessage where
  topic : String
  partition : Int64
  offset : Int64
  timestamp : Option Int64
  payload : Option (List UInt8)
  headers : List (String × Option (List UInt8))

/-- What is read of a record that has a payload. -/
def KafkaMessage.incoming (D : Decoding) (m : KafkaMessage) : Option Incoming :=
  m.payload.map fun payload =>
    { payload
      lines := m.headers.filterMap fun header =>
        header.2.map fun value => (header.1, D.fromUtf8Lossy value)
      fields := [("kafka_topic", .str m.topic), ("kafka_partition", jsonOfInt m.partition),
        ("kafka_offset", jsonOfInt m.offset),
        ("kafka_timestamp", (m.timestamp.map jsonOfInt).getD .null)] }

/-! ### The loops -/

/-- What a loop meets: a message, something it goes on after (an error, a timeout),
or something it ends at (the end of the stream, the cancellation). -/
inductive Polled (μ : Type) where
  | message (m : μ)
  | goesOn
  | ends

inductive Phase where
  | running
  | returned
  | panicked
deriving DecidableEq, Repr

/-- A loop, for as long as it meets something. `handle` tells whether the task
survives a message. -/
def consume (handle : μ → σ → Bool × σ) : List (Polled μ) → σ → Phase × σ
  | [], s => (.running, s)
  | .ends :: _, s => (.returned, s)
  | .goesOn :: rest, s => consume handle rest s
  | .message m :: rest, s =>
      match handle m s with
      | (true, s) => consume handle rest s
      | (false, s) => (.panicked, s)

def runCore (E : Primitives) (D : Decoding) (X : Extractor) (next : Pipe σ) :
    List (Polled NatsMessage) → σ → Phase × σ :=
  consume fun m => X.processMessage E D next { m with sequence := none }.incoming

/-- `run_jetstream`, with the messages `ack` was called on so far. -/
def runJetstream (E : Primitives) (D : Decoding) (X : Extractor) (next : Pipe σ) :
    List (Polled NatsMessage) → List NatsMessage × σ → Phase × (List NatsMessage × σ) :=
  consume fun m s =>
    match X.processMessage E D next m.incoming s.2 with
    | (true, rest) => (true, (s.1 ++ [m], rest))
    | (false, rest) => (false, (s.1, rest))

/-- `KafkaExtractor::run`. -/
def runKafka (E : Primitives) (D : Decoding) (X : Extractor) (next : Pipe σ) :
    List (Polled KafkaMessage) → σ → Phase × σ :=
  consume fun m s =>
    match m.incoming D with
    | none => (true, s)
    | some incoming => X.processMessage E D next incoming s

/-! ### A run of a loop -/

/-- The messages that a loop gets to if it survives all of them. -/
def messages : List (Polled μ) → List μ
  | [] => []
  | .ends :: _ => []
  | .goesOn :: rest => messages rest
  | .message m :: rest => m :: messages rest

/-- A loop gets to its messages one by one, and no further than one it does not
survive. `P` holds of what it has handled, with the state after it. -/
theorem consume_handled {handle : μ → σ → Bool × σ} {P : List μ → Bool → σ → Prop}
    (hstep : ∀ handled m s, P handled true s → P (handled ++ [m]) (handle m s).1 (handle m s).2)
    (turns : List (Polled μ)) :
    ∀ handled s, P handled true s →
      ∃ more rest, messages turns = more ++ rest ∧
        P (handled ++ more) (decide ((consume handle turns s).1 ≠ .panicked))
          (consume handle turns s).2 ∧
        ((consume handle turns s).1 ≠ .panicked → rest = []) := by
  induction turns with
  | nil =>
      intro handled s h
      exact ⟨[], [], rfl, by simpa [consume] using h, fun _ => rfl⟩
  | cons turn turns ih =>
      intro handled s h
      cases turn with
      | ends => exact ⟨[], [], rfl, by simpa [consume] using h, fun _ => rfl⟩
      | goesOn => exact ih handled s h
      | message m =>
          have hnext := hstep handled m s h
          rcases hanswer : handle m s with ⟨survives, s'⟩
          rw [hanswer] at hnext
          cases survives with
          | false =>
              refine ⟨[m], messages turns, rfl, ?_, ?_⟩
              · simpa [consume, hanswer] using hnext
              · simp [consume, hanswer]
          | true =>
              obtain ⟨more, rest, hmessages, hP, hrest⟩ := ih (handled ++ [m]) s' hnext
              refine ⟨m :: more, rest, by rw [messages, hmessages]; rfl, ?_, ?_⟩
              · simpa [consume, hanswer] using hP
              · simpa [consume, hanswer] using hrest

/-! ### Acknowledgements -/

section Jetstream

variable {E : Primitives} {D : Decoding} {X : Extractor}

/-- What a consumer has handled, what it has acknowledged, and what its pipe was
offered. -/
structure Handled (E : Primitives) (D : Decoding) (X : Extractor) (handled : List NatsMessage)
    (survives : Bool) (acks : List NatsMessage) (offered : List Event) : Prop where
  events : offered = handled.filterMap fun m => X.event E D m.incoming
  all : survives = true → acks = handled
  last : survives = false → ∃ m, handled = acks ++ [m] ∧ (X.event E D m.incoming).isSome

theorem processMessage_recording (next : Pipe σ) (m : Incoming) (offered : List Event) (s : σ) :
    (X.processMessage E D (recording next) m (offered, s)).2.1 =
        offered ++ (X.event E D m).toList ∧
      ((X.processMessage E D (recording next) m (offered, s)).1 = false →
        (X.event E D m).isSome) := by
  rw [Extractor.processMessage]
  cases X.event E D m with
  | none => simp
  | some event =>
      rcases hanswer : next s event with ⟨res, s'⟩
      cases res <;> simp [recording, hanswer]

/-- A consumer of a stream offers its pipe the events of the messages it gets to, each
once and in order, and calls `ack` on each message after that, even if it was refused.
Only on the message its pipe panics on it does not, and that is the last. -/
theorem jetstream_acknowledges (E : Primitives) (D : Decoding) (X : Extractor) (next : Pipe σ)
    (turns : List (Polled NatsMessage)) (s : σ) :
    ∃ handled rest, messages turns = handled ++ rest ∧
      Handled E D X handled
        (decide ((runJetstream E D X (recording next) turns ([], ([], s))).1 ≠ .panicked))
        (runJetstream E D X (recording next) turns ([], ([], s))).2.1
        (runJetstream E D X (recording next) turns ([], ([], s))).2.2.1 ∧
      ((runJetstream E D X (recording next) turns ([], ([], s))).1 ≠ .panicked → rest = []) := by
  refine consume_handled (P := fun handled survives
      (s : List NatsMessage × (List Event × σ)) => Handled E D X handled survives s.1 s.2.1)
    ?_ turns [] _ ⟨rfl, fun _ => rfl, fun h => ?_⟩
  · intro handled m ⟨acks, offered, s⟩ h
    obtain ⟨hoffered, hsome⟩ :=
      processMessage_recording (E := E) (D := D) (X := X) next m.incoming offered s
    have hacks : acks = handled := h.all rfl
    have hevents : offered ++ (X.event E D m.incoming).toList =
        (handled ++ [m]).filterMap fun m => X.event E D m.incoming := by
      rw [List.filterMap_append, ← h.events]
      cases hevent : X.event E D m.incoming <;> simp [hevent]
    rcases hanswer : X.processMessage E D (recording next) m.incoming (offered, s) with
      ⟨survives, rest⟩
    rw [hanswer] at hoffered hsome
    have hrest : rest.1 = (handled ++ [m]).filterMap fun m => X.event E D m.incoming :=
      hoffered.trans hevents
    cases survives with
    | true => exact ⟨hrest, fun _ => hacks ▸ rfl, fun hfalse => by contradiction⟩
    | false =>
        exact ⟨hrest, fun htrue => (by contradiction), fun _ => ⟨m, hacks ▸ rfl, hsome rfl⟩⟩
  · contradiction

end Jetstream

/-! ### A source right before the queue -/

section Poison

variable {CDEvent : Type} {S : Sdk CDEvent} {P : Processor} {observe : ℕ → Observation}
  (E : Primitives) (D : Decoding) (X : Extractor)

/-- The event of a message, if there is one, is not one that the end of the pipe panics
on. -/
def Extractor.survivable (m : Incoming) : Bool :=
  (X.event E D m).all fun event => decide (Assignable event.body ∧
    (isSourceEmpty event.body = false ∨ Assignable event.metadata))

/-- A message that is no JSON has a string for its body. -/
theorem survivable_of_not_json {m : Incoming} (haccepted : (X.event E D m).isSome)
    (hjson : D.fromSlice m.payload = none) : X.survivable E D m = false := by
  obtain ⟨event, hevent⟩ := Option.isSome_iff_exists.mp haccepted
  have hbody : event.body = .str (D.fromUtf8Lossy m.payload) := by
    simp only [Extractor.event, parseJsonOrString, hjson, Option.getD_none] at hevent
    split at hevent
    · contradiction
    · rw [← Option.some.inj hevent]
  have hnot : ¬Assignable event.body := by
    rw [hbody]
    exact fun h => by cases h.1
  simp [Extractor.survivable, hevent, hnot]

variable {E D X}

theorem processMessage_survives (hP : P.highWatermark = none) (m : Incoming)
    (q : Queue CDEvent) :
    (X.processMessage E D (P.send S observe) m q).1 = X.survivable E D m := by
  rw [Extractor.processMessage, Extractor.survivable]
  cases X.event E D m with
  | none => rfl
  | some event =>
      have hsaturated : P.saturated (observe q.sends) = none := by
        rw [Processor.saturated, hP, Option.bind_none]
      have hpanic := send_panic_iff S P observe q event
      rw [hsaturated] at hpanic
      rcases hanswer : P.send S observe q event with ⟨res, q'⟩
      rw [hanswer] at hpanic
      cases res with
      | panic =>
          simp only [hanswer, Option.all_some]
          exact (decide_eq_false (hpanic.mp rfl).2).symm
      | ok | err e =>
          have hassignable := not_not.mp fun hnot => by simpa using hpanic.mpr ⟨rfl, hnot⟩
          simp only [hanswer, Option.all_some]
          exact (decide_eq_true hassignable).symm

theorem runJetstream_survivable (hP : P.highWatermark = none)
    (turns : List (Polled NatsMessage)) :
    ∀ acks q, (runJetstream E D X (P.send S observe) turns (acks, q)).2.1 =
        acks ++ (messages turns).takeWhile (fun m => X.survivable E D m.incoming) ∧
      ((runJetstream E D X (P.send S observe) turns (acks, q)).1 = .panicked ↔
        ∃ m ∈ messages turns, X.survivable E D m.incoming = false) := by
  induction turns with
  | nil => exact fun acks q => by simp [runJetstream, consume, messages]
  | cons turn turns ih =>
      intro acks q
      cases turn with
      | ends => simp [runJetstream, consume, messages]
      | goesOn => exact ih acks q
      | message m =>
          have hsurvives : (X.processMessage E D (P.send S observe) m.incoming q).1 =
              X.survivable E D m.incoming := processMessage_survives hP m.incoming q
          rcases hanswer : X.processMessage E D (P.send S observe) m.incoming q with
            ⟨survives, q'⟩
          rw [hanswer] at hsurvives
          cases survives with
          | true =>
              obtain ⟨hacks, hpanic⟩ := ih (acks ++ [m]) q'
              simp only [runJetstream] at hacks hpanic ⊢
              simp only [consume, hanswer, messages, List.takeWhile_cons, ← hsurvives, hacks,
                hpanic, List.append_assoc, List.singleton_append, if_true, List.mem_cons,
                exists_eq_or_imp, Bool.true_eq_false, false_or, and_self]
          | false =>
              simp only [runJetstream, consume, hanswer, messages, List.takeWhile_cons,
                ← hsurvives, List.append_nil, List.mem_cons, exists_eq_or_imp, true_or, and_self,
                if_false, Bool.false_eq_true]

/-- A consumer of a stream right before the queue calls `ack` on what comes before the
first message whose event the pipe panics on, if there is one, and ends there without.
Such is each message that is accepted and is no JSON. -/
theorem jetstream_poison (hP : P.highWatermark = none) (turns : List (Polled NatsMessage))
    (q : Queue CDEvent) :
    (runJetstream E D X (P.send S observe) turns ([], q)).2.1 =
        (messages turns).takeWhile (fun m => X.survivable E D m.incoming) ∧
      ((runJetstream E D X (P.send S observe) turns ([], q)).1 = .panicked ↔
        ∃ m ∈ messages turns, X.survivable E D m.incoming = false) ∧
      ∀ m ∈ messages turns, (X.event E D m.incoming).isSome →
        D.fromSlice m.payload = none → X.survivable E D m.incoming = false := by
  refine ⟨(runJetstream_survivable hP turns [] q).1, (runJetstream_survivable hP turns [] q).2, ?_⟩
  exact fun m _ haccepted hjson => survivable_of_not_json E D X haccepted hjson

end Poison

/-! A text between two empty objects. -/

def sampleDecoding : Decoding where
  fromSlice bytes := if bytes = Text.utf8 "{}" then some (.obj []) else none
  fromUtf8Lossy bytes := (Text.decodeUtf8 bytes).getD "\uFFFD"

def sampleExtractor : Extractor where
  headersToKeep := []
  headerRules := []
  baseMetadata := .obj []

def sampleProcessor : Processor := { defaultSourceUrl := "http://broker", highWatermark := none }

def sampleMessage (text : String) (seq : UInt64) : NatsMessage where
  subject := "events"
  payload := Text.utf8 text
  headers := []
  sequence := some seq

def sampleTurns : List (Polled NatsMessage) :=
  [.message (sampleMessage "{}" 1), .goesOn, .message (sampleMessage "hello" 2),
    .message (sampleMessage "{}" 3)]

def sampleObserve (_ : ℕ) : Observation :=
  { queued := 0, receivers := true, now := "", context := [] }

theorem jetstream_poison_sample :
    (runJetstream (samplePrimitives sampleCrypto) sampleDecoding sampleExtractor
        (sampleProcessor.send Sdk.ids sampleObserve) sampleTurns
        ([], { enqueued := [], sends := 0 })).2.1 = [sampleMessage "{}" 1] ∧
      (runJetstream (samplePrimitives sampleCrypto) sampleDecoding sampleExtractor
        (sampleProcessor.send Sdk.ids sampleObserve) sampleTurns
        ([], { enqueued := [], sends := 0 })).1 = .panicked := by
  have hP : sampleProcessor.highWatermark = none := rfl
  have hbad : sampleExtractor.survivable (samplePrimitives sampleCrypto) sampleDecoding
      (sampleMessage "hello" 2).incoming = false := by decide +kernel
  have hgood : sampleExtractor.survivable (samplePrimitives sampleCrypto) sampleDecoding
      (sampleMessage "{}" 1).incoming = true := by decide +kernel
  refine ⟨(jetstream_poison hP sampleTurns _).1.trans ?_,
    (jetstream_poison hP sampleTurns _).2.1.mpr ⟨sampleMessage "hello" 2, ?_, hbad⟩⟩
  · simp only [sampleTurns, messages, List.takeWhile_cons, hgood, hbad, if_true, if_false,
      Bool.false_eq_true]
  · exact List.mem_cons_of_mem _ List.mem_cons_self

end CdvizCollector.Sources.Broker
