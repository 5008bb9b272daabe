import CdvizCollector.Pipeline.Relay
import CdvizCollector.Sinks.Kafka
import CdvizCollector.Sinks.Signed

/-!
From the Kafka sink of one collector to the Kafka source of another.

The sink signs the configured headers it has generated so far, and the source checks
the last line of each name. So a signature over configured headers is accepted with
whatever headers a message brings along, and a record that is delivered twice, or out
of order, is one more event of the source.
-/

namespace CdvizCollector.Pipeline

open Lib Lib.Http Security Sinks Sources Sources.Broker

variable {CDEvent : Type}

/-- The broker keeps payload and headers of a record. -/
structure Carried (made : FutureRecord) (m : KafkaMessage) : Prop where
  payload : m.payload = some made.payload
  headers : m.headers = made.headers

/-! ### The hop -/

section Hop

variable {K : Sdk CDEvent} {toText : CDEvent → Except String String}
  {fromStr : String → Option Json} {toValue : CDEvent → Json} {D : Decoding}
  {toVec : CDEvent → Except String (List UInt8)}

/-- What is documented of the conversions to and from bytes. -/
structure Encodes (toText : CDEvent → Except String String) (fromStr : String → Option Json)
    (D : Decoding) (toVec : CDEvent → Except String (List UInt8)) : Prop where
  toVec : ∀ cdevent, toVec cdevent = (toText cdevent).map Text.utf8
  fromSlice : ∀ text, D.fromSlice (Text.utf8 text) = fromStr text
  fromUtf8Lossy : ∀ text, D.fromUtf8Lossy (Text.utf8 text) = text

variable {E : Primitives} {S : KafkaSink} {X : Extractor} {msg : Message CDEvent}
  {made : FutureRecord} {m : KafkaMessage}

/-- Headers that pass the rules make an event. -/
theorem event_of_validateHeaders {m : Incoming}
    (h : validateHeaders E (validated m.lines) X.headerRules m.payload = .ok ()) :
    ∃ event, X.event E D m = some event ∧ event.body = parseJsonOrString D m.payload := by
  have hpasses : (validateHeaders E (m.lines.foldl validateLine []) X.headerRules
      m.payload).toOption.isNone = false := by
    rw [validated] at h
    rw [h]
    rfl
  simp only [Extractor.event, hpasses, Bool.and_false, if_false, Bool.false_eq_true,
    Option.some.injEq, exists_eq_left']

/-- The source makes an event of each record, with the printed event for its body. -/
theorem event_of_record (hE : E.toCrypto.Lawful)
    (hprinted : Printed K toText fromStr toValue) (hencodes : Encodes toText fromStr D toVec)
    (hrules : CheckableRules E.toCrypto S.headers X.headerRules)
    (hmade : S.record E.toCrypto toVec K.id msg = .ok made) (hcarried : Carried made m) :
    ∃ incoming event, m.incoming D = some incoming ∧ X.event E D incoming = some event ∧
      event.body = toValue msg.cdevent := by
  obtain ⟨hbody, generated, hgenerated, hheaders⟩ := record_eq_ok hmade
  obtain ⟨text, htext, hparsed⟩ := hprinted.text msg.cdevent
  have hpayload : made.payload = Text.utf8 text := by
    rw [hencodes.toVec, htext] at hbody
    exact (Except.ok.inj hbody).symm
  have hlines : (m.headers.filterMap fun header =>
      header.2.map fun value => (header.1, D.fromUtf8Lossy value)) =
        msg.headers ++ [("content-type", "application/json")] ++ textLines generated := by
    rw [hcarried.headers, hheaders, List.filterMap_map]
    refine (List.filterMap_congr fun line _ => ?_).trans List.filterMap_some
    simp only [Function.comp_apply, Option.map_some, hencodes.fromUtf8Lossy]
  have hvalid : validateHeaders E (validated (m.headers.filterMap fun header =>
      header.2.map fun value => (header.1, D.fromUtf8Lossy value))) X.headerRules
        made.payload = .ok () := by
    rw [hlines, validated, List.foldl_append]
    refine hrules.validateHeaders hE hgenerated fun name value text honly htext => ?_
    exact getAll_foldl_textLines htext generated _ honly
  obtain ⟨incoming, hincoming, hread, hbytes⟩ : ∃ incoming, m.incoming D = some incoming ∧
      incoming.lines = (m.headers.filterMap fun header =>
        header.2.map fun value => (header.1, D.fromUtf8Lossy value)) ∧
      incoming.payload = made.payload := by
    rw [KafkaMessage.incoming, hcarried.payload]
    exact ⟨_, rfl, rfl, rfl⟩
  rw [← hread, ← hbytes] at hvalid
  obtain ⟨event, hevent, heventbody⟩ := event_of_validateHeaders (D := D) hvalid
  refine ⟨incoming, event, hincoming, hevent, ?_⟩
  rw [heventbody, parseJsonOrString, hbytes, hpayload, hencodes.fromSlice, hparsed,
    Option.getD_some]

variable {P : Processor} {observe : ℕ → Observation}

/-- In every run of the source over records of the sink, in whatever order the broker
hands them over and however often: no record is refused, the task survives, and the
events are enqueued as they were sent. -/
theorem kafka_relay_forwards (hE : E.toCrypto.Lawful)
    (hprinted : Printed K toText fromStr toValue) (hencodes : Encodes toText fromStr D toVec)
    (hrules : CheckableRules E.toCrypto S.headers X.headerRules)
    (hP : P.highWatermark = none) (hreceivers : ∀ k, (observe k).receivers = true)
    {turns : List (Polled KafkaMessage)} {msgs : List (Message CDEvent)}
    (hrecords : List.Forall₂ (fun msg m => ∃ made,
      S.record E.toCrypto toVec K.id msg = .ok made ∧ Carried made m) msgs (messages turns))
    (hmade : ∀ msg ∈ msgs, Made K msg.cdevent) (q : Queue CDEvent) :
    (runKafka E D X (P.send K observe) turns q).1 ≠ .panicked ∧
    (runKafka E D X (P.send K observe) turns q).2.enqueued.map (fun entry => entry.2.cdevent) =
      q.enqueued.map (fun entry => entry.2.cdevent) ++ msgs.map Message.cdevent := by
  induction turns generalizing msgs q with
  | nil =>
      rw [List.forall₂_nil_right_iff.mp hrecords]
      exact ⟨by simp [runKafka, consume], (List.append_nil _).symm⟩
  | cons turn turns ih =>
      cases turn with
      | ends =>
          rw [List.forall₂_nil_right_iff.mp hrecords]
          exact ⟨by simp [runKafka, consume], (List.append_nil _).symm⟩
      | goesOn => exact ih hrecords hmade q
      | message m =>
          obtain ⟨msg, msgs, ⟨made, hrecord, hcarried⟩, hrest, rfl⟩ :=
            List.forall₂_cons_right_iff.mp hrecords
          obtain ⟨incoming, event, hincoming, hevent, hbody⟩ :=
            event_of_record hE hprinted hencodes hrules hrecord hcarried
          have hrelayed : Relayed K toValue msg.cdevent :=
            relayed_of_made hprinted.lawful hprinted.serde (hmade msg List.mem_cons_self)
          obtain ⟨sent, hsame, hsend⟩ := send_toValue hprinted hP hreceivers hrelayed q hbody
          have hstep : runKafka E D X (P.send K observe) (.message m :: turns) q =
              runKafka E D X (P.send K observe) turns
                { sends := q.sends + 1, enqueued := q.enqueued ++ [(event, sent)] } := by
            simp only [runKafka, consume, hincoming, Extractor.processMessage, hevent, hsend]
          obtain ⟨halive, henqueued⟩ := ih hrest
            (fun msg' hmem => hmade msg' (List.mem_cons_of_mem _ hmem))
            { sends := q.sends + 1, enqueued := q.enqueued ++ [(event, sent)] }
          rw [hstep]
          refine ⟨halive, ?_⟩
          rw [henqueued, List.map_append, List.append_assoc]
          show _ ++ ([sent.cdevent] ++ _) = _ ++ (msg.cdevent :: _)
          rw [hsame]
          rfl

end Hop

/-! A record that is delivered twice, of a message with forged headers. -/

namespace KafkaRelay

def sink : KafkaSink where
  topic := "cdevents"
  headers := sampleSink.headers
  keyPolicy := .cdeventId

def decoding : Decoding where
  fromSlice bytes := (Text.decodeUtf8 bytes).bind Relay.fromStr
  fromUtf8Lossy bytes := (Text.decodeUtf8 bytes).getD "\uFFFD"

def extractor : Extractor where
  headersToKeep := []
  headerRules := [signatureRule sampleConfig]
  baseMetadata := .obj []

def toVec (cdevent : Bool) : Except String (List UInt8) := .ok (Text.utf8 (Relay.text cdevent))

def carry (made : FutureRecord) : KafkaMessage where
  topic := made.topic
  partition := 0
  offset := 0
  timestamp := none
  payload := some made.payload
  headers := made.headers

end KafkaRelay

theorem kafka_relay_forwards_sample :
    ∃ made, KafkaRelay.sink.record Relay.crypto KafkaRelay.toVec Relay.sdk.id
        Relay.forged = .ok made ∧
      (runKafka Relay.primitives KafkaRelay.decoding KafkaRelay.extractor
        (Relay.processor.send Relay.sdk Relay.observe)
        [.message (KafkaRelay.carry made), .goesOn, .message (KafkaRelay.carry made)]
        { enqueued := [], sends := 0 }).2.enqueued.map (fun entry => entry.2.cdevent) =
          [true, true] := by
  have hok : (KafkaRelay.sink.record Relay.crypto KafkaRelay.toVec Relay.sdk.id
      Relay.forged).toOption.isSome = true := by decide +kernel
  obtain ⟨made, hmade⟩ : ∃ made, KafkaRelay.sink.record Relay.crypto KafkaRelay.toVec
      Relay.sdk.id Relay.forged = .ok made := by
    cases hrecord : KafkaRelay.sink.record Relay.crypto KafkaRelay.toVec Relay.sdk.id
        Relay.forged with
    | ok made => exact ⟨made, rfl⟩
    | error e => rw [hrecord] at hok; cases hok
  have hencodes : Encodes (fun cdevent => .ok (Relay.text cdevent)) Relay.fromStr
      KafkaRelay.decoding KafkaRelay.toVec := by
    refine ⟨fun _ => rfl, fun text => ?_, fun text => ?_⟩
    · simp only [KafkaRelay.decoding, Text.decodeUtf8_utf8, Option.bind_some]
    · simp only [KafkaRelay.decoding, Text.decodeUtf8_utf8, Option.getD_some]
  have hrules : CheckableRules Relay.primitives.toCrypto KafkaRelay.sink.headers
      KafkaRelay.extractor.headerRules :=
    fun rule hrule => ⟨sampleConfig, List.mem_singleton.mp hrule, checkable_sampleSink _⟩
  have hcarried : ∃ made', KafkaRelay.sink.record Relay.crypto KafkaRelay.toVec Relay.sdk.id
      Relay.forged = .ok made' ∧ Carried made' (KafkaRelay.carry made) :=
    ⟨made, hmade, rfl, rfl⟩
  have hrecords : List.Forall₂ (fun msg m => ∃ made, KafkaRelay.sink.record Relay.crypto
        KafkaRelay.toVec Relay.sdk.id msg = .ok made ∧ Carried made m)
      [Relay.forged, Relay.forged]
      (messages [.message (KafkaRelay.carry made), .goesOn, .message (KafkaRelay.carry made)]) :=
    .cons hcarried (.cons hcarried .nil)
  exact ⟨made, hmade, (kafka_relay_forwards (E := Relay.primitives)
    (standardCrypto_lawful _) Relay.printed hencodes hrules rfl (fun _ => rfl) hrecords
    (fun msg _ => Relay.made msg.cdevent) ⟨[], 0⟩).2⟩

end CdvizCollector.Pipeline
