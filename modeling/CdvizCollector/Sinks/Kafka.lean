import CdvizCollector.Sinks.HttpSink
import CdvizCollector.Sources.Broker

/-!
The Kafka sink (`sinks/kafka.rs`), and its signatures as the Kafka source reads them.

A record carries the headers of the message, the content type and the configured
headers, one after the other, and a name may come several times. The source keeps
the last line of a name, so the configured headers win over those of the message,
whatever these are.
-/

namespace CdvizCollector.Sinks

open Lib Lib.Http Security Sources Sources.Broker

variable {CDEvent : Type}

inductive KeyPolicy where
  | unset
  | cdeventId
deriving DecidableEq, Repr

structure KafkaSink where
  topic : String
  headers : OutgoingHeaderMap
  keyPolicy : KeyPolicy

/-- `FutureRecord`; the value of a header is there in all that the sink makes. -/
structure FutureRecord where
  topic : String
  key : Option String
  payload : List UInt8
  headers : List (String × Option (List UInt8))

inductive KafkaError where
  | serde (cause : String)
  | headers (e : HeaderError)
deriving DecidableEq, Repr

/-- The headers whose values are text, as lines of text. -/
def textLines (headers : HeaderMap) : List (String × String) :=
  headers.filterMap fun line => line.2.toStr.map fun text => (line.1.name, text)

namespace KafkaSink

def generateKafkaHeaders (C : Crypto) (S : KafkaSink) (body : List UInt8) :
    Except HeaderError (Option (List (String × String))) :=
  let headerConfigs := outgoingHeaderMapToConfigs S.headers.entries
  if headerConfigs.isEmpty then .ok none
  else do
    let httpHeaders ← generateHeaders C headerConfigs body
    return some (textLines httpHeaders)

/-- The record of a message (`send`, up to the producer). `toVec` is the JSON
serialization. -/
def record (C : Crypto) (toVec : CDEvent → Except String (List UInt8)) (id : CDEvent → String)
    (S : KafkaSink) (msg : Message CDEvent) : Except KafkaError FutureRecord := do
  let bodyBytes ← (toVec msg.cdevent).mapError .serde
  let key := if S.keyPolicy = .cdeventId then id msg.cdevent else ""
  let additionalHeaders ← (S.generateKafkaHeaders C bodyBytes).mapError .headers
  let lines := msg.headers ++ [("content-type", "application/json")] ++ additionalHeaders.getD []
  return {
    topic := S.topic
    key := if key = "" then none else some key
    payload := bodyBytes
    headers := lines.map fun line => (line.1, some (Text.utf8 line.2)) }

end KafkaSink

theorem generateKafkaHeaders_eq_ok {C : Crypto} {S : KafkaSink} {body : List UInt8}
    {additional : Option (List (String × String))}
    (h : S.generateKafkaHeaders C body = .ok additional) :
    ∃ generated, generateHeaders C (outgoingHeaderMapToConfigs S.headers.entries) body =
      .ok generated ∧ additional.getD [] = textLines generated := by
  simp only [KafkaSink.generateKafkaHeaders] at h
  split at h
  · rename_i hempty
    rw [← Except.ok.inj h, List.isEmpty_iff.mp hempty]
    exact ⟨[], rfl, rfl⟩
  · obtain ⟨generated, hgenerated, rfl⟩ := bind_pure_eq_ok_iff.mp h
    exact ⟨generated, hgenerated, rfl⟩

theorem record_eq_ok {C : Crypto} {toVec : CDEvent → Except String (List UInt8)}
    {id : CDEvent → String} {S : KafkaSink} {msg : Message CDEvent} {made : FutureRecord}
    (h : S.record C toVec id msg = .ok made) :
    toVec msg.cdevent = .ok made.payload ∧ ∃ generated,
      generateHeaders C (outgoingHeaderMapToConfigs S.headers.entries) made.payload =
        .ok generated ∧
      made.headers = (msg.headers ++ [("content-type", "application/json")] ++
        textLines generated).map fun line => (line.1, some (Text.utf8 line.2)) := by
  obtain ⟨body, hbody, h⟩ := bind_eq_ok_iff.mp h
  obtain ⟨additional, hadditional, rfl⟩ := bind_pure_eq_ok_iff.mp h
  obtain ⟨generated, hgenerated, hlines⟩ :=
    generateKafkaHeaders_eq_ok (mapError_eq_ok_iff.mp hadditional)
  refine ⟨mapError_eq_ok_iff.mp hbody, generated, hgenerated, ?_⟩
  rw [hlines]

/-! ### The headers a source validates -/

/-- The map that the lines of a message make. -/
def validated (lines : List (String × String)) : HeaderMap := lines.foldl validateLine []

theorem getAll_validateLine_of_ne {name : HeaderName} (line : String × String)
    (h : HeaderName.fromStr line.1 ≠ some name) (headers : HeaderMap) :
    (validateLine headers line).getAll name = headers.getAll name := by
  rw [validateLine]
  split
  · rename_i other value hother _
    have hne : name ≠ other := by
      rintro rfl
      exact h hother
    exact HeaderMap.getAll_insert_of_ne hne headers value
  · rfl

/-- A line that was written from a header is read as the header. -/
theorem getAll_validateLine_self (name : HeaderName) {value : HeaderValue} {text : String}
    (h : value.toStr = some text) (headers : HeaderMap) :
    ∃ value', (validateLine headers (name.name, text)).getAll name = [value'] ∧
      value'.bytes = value.bytes := by
  have hbytes := (HeaderValue.toStr_eq_some_iff.mp h).2
  obtain ⟨value', hvalue'⟩ := HeaderValue.exists_fromStr_iff.mpr (hbytes ▸ value.valid)
  refine ⟨value', ?_, (HeaderValue.bytes_of_fromStr hvalue').trans hbytes⟩
  simp only [validateLine, HeaderName.fromStr_name, hvalue']
  exact HeaderMap.getAll_insert_self headers name value'

theorem getAll_foldl_of_not_mem {name : HeaderName} (generated : HeaderMap) :
    ∀ headers : HeaderMap, generated.getAll name = [] →
      ((textLines generated).foldl validateLine headers).getAll name = headers.getAll name := by
  induction generated with
  | nil => exact fun _ _ => rfl
  | cons line generated ih =>
      intro headers h
      have hne : line.1 ≠ name := by
        intro heq
        rw [HeaderMap.getAll_cons, if_pos heq] at h
        contradiction
      rw [HeaderMap.getAll_cons, if_neg hne] at h
      cases htext : line.2.toStr with
      | none =>
          simpa only [textLines, List.filterMap_cons, htext, Option.map_none] using ih headers h
      | some text =>
          have hline := getAll_validateLine_of_ne (line.1.name, text)
            (fun hsome => hne (Option.some.inj ((HeaderName.fromStr_name line.1).symm.trans hsome)))
            headers
          simp only [textLines, List.filterMap_cons, htext, Option.map_some, List.foldl_cons]
          exact (ih _ h).trans hline

/-- The source reads a configured header as it was generated, whatever came before. -/
theorem getAll_foldl_textLines {name : HeaderName} {value : HeaderValue} {text : String}
    (htext : value.toStr = some text) (generated : HeaderMap) :
    ∀ headers : HeaderMap, generated.getAll name = [value] →
      ∃ value', ((textLines generated).foldl validateLine headers).getAll name = [value'] ∧
        value'.bytes = value.bytes := by
  induction generated with
  | nil => exact fun _ h => by cases h
  | cons line generated ih =>
      intro headers h
      by_cases hname : line.1 = name
      · rw [HeaderMap.getAll_cons, if_pos hname] at h
        obtain ⟨hvalue, hrest⟩ := List.cons.inj h
        obtain ⟨value', hgetAll, hbytes⟩ := getAll_validateLine_self name htext headers
        refine ⟨value', ?_, hbytes⟩
        simp only [textLines, List.filterMap_cons, hvalue, htext, Option.map_some,
          List.foldl_cons, hname]
        rw [← hgetAll]
        exact getAll_foldl_of_not_mem generated _ hrest
      · rw [HeaderMap.getAll_cons, if_neg hname] at h
        cases hline : line.2.toStr with
        | none =>
            simpa only [textLines, List.filterMap_cons, hline, Option.map_none] using ih headers h
        | some text' =>
            simp only [textLines, List.filterMap_cons, hline, Option.map_some, List.foldl_cons]
            exact ih _ h

end CdvizCollector.Sinks
