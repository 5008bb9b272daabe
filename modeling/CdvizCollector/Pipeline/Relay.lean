import CdvizCollector.Pipeline.Clients
import CdvizCollector.Sources.ContentId
import CdvizCollector.Sources.SendCdevents
import CdvizCollector.Sources.Sse.Stream
import Mathlib.Data.List.TakeWhile

/-!
From the SSE sink of one collector to the SSE source of another.

The stream of a client (`sse_handler` in `sinks/sse.rs`) has an event for each message,
and one for each loss. The source (`connect_and_stream` in `sources/sse/mod.rs`) takes all
of them for events to forward. The notice of a loss is no JSON, so the event it becomes
has a string for a body, and the pipe of the source panics on it.
-/

namespace CdvizCollector.Pipeline

open Lib Transformers Sources

variable {CDEvent σ : Type}

/-- An `axum::response::sse::Event`. -/
structure SseEvent where
  event : String
  id : Option String
  data : String

/-- The data of the event for a loss. -/
def lagNotice (skipped : ℕ) : String := "lagged: " ++ toString skipped ++ " messages skipped"

/-- What the stream of a client makes of an answer of its receiver; `toText` is
`serde_json::to_string`. -/
def toSseEvent (S : Sdk CDEvent) (toText : CDEvent → Except String String) :
    Delivery (Message CDEvent) → SseEvent
  | .value msg =>
      match toText msg.cdevent with
      | .ok data => { event := "cdevent", id := some (S.id msg.cdevent), data }
      | .error err => { event := "error", id := none, data := "serialization error: " ++ err }
  | .lagged skipped => { event := "error", id := none, data := lagNotice skipped }

/-- The client reads a message with this type and data. -/
structure Carries (e : SseEvent) (m : Sse.MessageEvent) : Prop where
  event : m.event = e.event
  data : m.data = e.data

/-- The loop over the messages of a connection, each with the id made up for it if it has
none. An event that is refused is logged and the loop goes on; a panic ends the task of
the source. -/
def forward (C : Sse.Config) (next : Pipe σ) : List (Sse.MessageEvent × String) → σ → Bool × σ
  | [], s => (true, s)
  | (message, uuid) :: rest, s =>
      match next s (C.toEvent message uuid) with
      | (.panic, s) => (false, s)
      | (_, s) => forward C next rest s

/-- What is documented of the SDK and `serde_json`: an event is printed as JSON that is read
back, and setting the id that it has changes nothing; a text that starts like a notice is no
JSON. -/
structure Printed (S : Sdk CDEvent) (toText : CDEvent → Except String String)
    (fromStr : String → Option Json) (toValue : CDEvent → Json) : Prop where
  lawful : S.Lawful
  serde : S.Serde toValue
  text : ∀ cdevent, ∃ text, toText cdevent = .ok text ∧ fromStr text = some (toValue cdevent)
  withId_id : ∀ cdevent, S.withId cdevent (S.id cdevent) = cdevent
  notice : ∀ skipped, fromStr (lagNotice skipped) = none

/-! ### An event made by a collector -/

/-- A source of a collector has converted the event. Its default source is the url of the
collector, and the clock shows a time. -/
def Made (S : Sdk CDEvent) (cdevent : CDEvent) : Prop :=
  ∃ (P : Processor) (now : String) (input event : Event), P.defaultSourceUrl ≠ "" ∧ now ≠ "" ∧
    P.withSource input = some event ∧ tryFrom S now event = some (.ok cdevent)

theorem isMissing_source (value : Json) :
    isMissing (contextField "source" value) = isSourceEmpty value := by
  unfold isMissing isSourceEmpty
  cases contextField "source" value with
  | none => rfl
  | some source => cases source <;> rfl

theorem isMissing_timestamp {now : String} (hnow : now ≠ "") {body stamped : Json}
    (h : setTimestampIfMissing now body = some stamped) :
    isMissing (contextField "timestamp" stamped) = false := by
  unfold setTimestampIfMissing at h
  split at h
  · rw [contextField_setContextField_self h]
    simp [isMissing, Json.isNull, Json.asStr, hnow]
  · rename_i hpresent
    rw [← Option.some.inj h]
    simpa using hpresent

/-- An event that has no source has one in its metadata. -/
theorem exists_metadataSource {P : Processor} (hurl : P.defaultSourceUrl ≠ "")
    {input event : Event} (hinput : P.withSource input = some event)
    (hmissing : isSourceEmpty input.body = true) :
    ∃ source, metadataSource event.metadata = some source := by
  unfold Processor.withSource at hinput
  rw [hmissing, Bool.true_and] at hinput
  split at hinput
  · obtain ⟨metadata, hset, rfl⟩ := Option.map_eq_some_iff.mp hinput
    refine ⟨P.defaultSourceUrl, ?_⟩
    rw [metadataSource, contextField_setContextField_self hset]
    simp [Json.asStr, hurl]
  · rename_i hpresent
    obtain rfl := Option.some.inj hinput
    rw [Bool.not_eq_true] at hpresent
    unfold isSourceEmpty at hpresent
    unfold metadataSource
    cases hfield : (contextField "source" input.metadata).bind Json.asStr with
    | none => simp [hfield] at hpresent
    | some source =>
        rw [hfield] at hpresent
        exact ⟨source, by simpa using hpresent⟩

/-- An event gets a source from its metadata if it has none. -/
theorem isSourceEmpty_sourced {P : Processor} (hurl : P.defaultSourceUrl ≠ "")
    {input event : Event} (hinput : P.withSource input = some event) {body sourced : Json}
    (hbody : contextField "source" body = contextField "source" event.body)
    (h : setSourceIfMissing event.metadata body = some sourced) :
    isSourceEmpty sourced = false := by
  unfold setSourceIfMissing at h
  split at h
  · rename_i hmissing
    rw [hbody, isMissing_source, withSource_body hinput] at hmissing
    obtain ⟨source, hsource⟩ := exists_metadataSource hurl hinput hmissing
    have hne : source ≠ "" := by simpa using (Option.filter_eq_some_iff.mp hsource).2
    rw [hsource] at h
    rw [← isMissing_source, contextField_setContextField_self h]
    simp [isMissing, Json.isNull, Json.asStr, hne]
  · rename_i hpresent
    rw [← Option.some.inj h, ← isMissing_source]
    simpa using hpresent

/-- An event of a collector can be sent on. -/
theorem relayed_of_made {S : Sdk CDEvent} {toValue : CDEvent → Json} (hS : S.Lawful)
    (hserde : S.Serde toValue) {cdevent : CDEvent} (h : Made S cdevent) :
    Relayed S toValue cdevent := by
  obtain ⟨P, now, input, event, hurl, hnow, hinput, htry⟩ := h
  obtain ⟨body, hbody, hread⟩ := Option.map_eq_some_iff.mp htry
  obtain ⟨stamped, hstamped, hrest⟩ := Option.bind_eq_some_iff.mp hbody
  obtain ⟨sourced, hsourced, hcomplete⟩ := Option.bind_eq_some_iff.mp hrest
  have htimestamp : isMissing (contextField "timestamp" sourced) = false := by
    rw [contextField_setSourceIfMissing (by decide) hsourced]
    exact isMissing_timestamp hnow hstamped
  have hsource : isMissing (contextField "source" sourced) = false := by
    have hsame := contextField_setTimestampIfMissing (by decide : "source" ≠ "timestamp") hstamped
    rw [isMissing_source]
    exact isSourceEmpty_sourced hurl hinput hsame hsourced
  obtain ⟨fields, context, rfl, hcontext⟩ := exists_context htimestamp
  have hagain : tryFrom S now { event with body := .obj fields } = some (.ok cdevent) := by
    rw [tryFrom, completeBody_of_dated S now htimestamp hsource, hcomplete, ← htry, tryFrom, hbody]
  rw [contextField_obj hcontext] at htimestamp hsource
  exact relayed_of_tryFrom hS hserde rfl hcontext htimestamp hsource hagain

section Hop

variable {S : Sdk CDEvent} {toText : CDEvent → Except String String}
  {fromStr : String → Option Json} {toValue : CDEvent → Json}

/-- A printed event is converted into itself. -/
theorem tryFrom_toValue (hprinted : Printed S toText fromStr toValue) {cdevent : CDEvent}
    (hrelayed : Relayed S toValue cdevent) (now : String) (metadata : Json)
    (headers : StringMap) :
    tryFrom S now { metadata, headers, body := toValue cdevent } = some (.ok cdevent) := by
  rw [tryFrom, completeBody_relayed hprinted.lawful hrelayed, Option.map_some]
  simp only [hrelayed.read_back, hrelayed.settled.sanitized, hrelayed.valid, if_true,
    hprinted.withId_id]

variable {P : Processor} {observe : ℕ → Observation}

theorem send_toValue (hprinted : Printed S toText fromStr toValue) (hP : P.highWatermark = none)
    (hreceivers : ∀ k, (observe k).receivers = true) {cdevent : CDEvent}
    (hrelayed : Relayed S toValue cdevent) (q : Queue CDEvent) {input : Event}
    (hbody : input.body = toValue cdevent) :
    ∃ message, message.cdevent = cdevent ∧ P.send S observe q input =
      (.ok, { sends := q.sends + 1, enqueued := q.enqueued ++ [(input, message)] }) := by
  obtain ⟨metadata, headers, body⟩ := input
  obtain rfl : body = toValue cdevent := hbody
  have hsource := (isMissing_source _).symm.trans hrelayed.source
  refine ⟨⟨cdevent, injectCurrentContext (observe q.sends).context headers⟩, rfl, ?_⟩
  simp only [Processor.send, Processor.saturated, hP, Option.bind_none, Processor.withSource,
    hsource, Bool.false_and, if_false, Bool.false_eq_true, tryFrom_toValue hprinted hrelayed,
    hreceivers, if_true]

theorem send_notice (hP : P.highWatermark = none) (q : Queue CDEvent) {input : Event}
    {text : String} (hbody : input.body = .str text) :
    P.send S observe q input = (.panic, { q with sends := q.sends + 1 }) := by
  have hsaturated : P.saturated (observe q.sends) = none := by
    rw [Processor.saturated, hP, Option.bind_none]
  have hnot : ¬Assignable input.body := by
    rw [hbody]
    exact fun h => by cases h.1
  have hpanic := (send_panic_iff S P observe q input).mpr ⟨hsaturated, fun h => hnot h.1⟩
  rcases send_cases S P observe q input with
    ⟨e, -, hsend⟩ | ⟨-, -, hsend⟩ | ⟨-, -, ⟨e, hsend⟩ | ⟨-, message, hsend⟩⟩
  · rw [hsend] at hpanic
    cases hpanic
  · exact hsend
  · rw [hsend] at hpanic
    cases hpanic
  · rw [hsend] at hpanic
    cases hpanic

/-! What the source reads of a delivery. -/

theorem body_of_value (hprinted : Printed S toText fromStr toValue) {C : Sse.Config}
    (hC : C.fromStr = fromStr) {msg : Message CDEvent} {message : Sse.MessageEvent}
    (hcarries : Carries (toSseEvent S toText (.value msg)) message) (uuid : String) :
    (C.toEvent message uuid).body = toValue msg.cdevent := by
  obtain ⟨text, htext, hparsed⟩ := hprinted.text msg.cdevent
  show (C.fromStr message.data).getD _ = _
  rw [hC, hcarries.data, toSseEvent, htext]
  dsimp only
  rw [hparsed, Option.getD_some]

theorem body_of_lagged (hprinted : Printed S toText fromStr toValue) {C : Sse.Config}
    (hC : C.fromStr = fromStr) {skipped : ℕ} {message : Sse.MessageEvent}
    (hcarries : Carries (toSseEvent S toText (.lagged skipped)) message) (uuid : String) :
    (C.toEvent message uuid).body = .str (lagNotice skipped) := by
  show (C.fromStr message.data).getD _ = _
  rw [hC, hcarries.data]
  show (fromStr (lagNotice skipped)).getD _ = _
  rw [hprinted.notice, Option.getD_none]
  rfl

/-- What the source makes of a stream: it forwards the events up to the first loss, and
ends there. -/
theorem forward_log (hprinted : Printed S toText fromStr toValue) (hP : P.highWatermark = none)
    (hreceivers : ∀ k, (observe k).receivers = true) {C : Sse.Config} (hC : C.fromStr = fromStr)
    (log : List (Delivery (Message CDEvent))) :
    ∀ (ms : List (Sse.MessageEvent × String)) (q : Queue CDEvent),
      List.Forall₂ Carries (log.map (toSseEvent S toText)) (ms.map Prod.fst) →
      (∀ msg ∈ values log, Relayed S toValue msg.cdevent) →
      (forward C (P.send S observe) ms q).1 = log.all Delivery.isValue ∧
      (forward C (P.send S observe) ms q).2.enqueued.map (fun entry => entry.2.cdevent) =
        q.enqueued.map (fun entry => entry.2.cdevent) ++
          (values (log.takeWhile Delivery.isValue)).map Message.cdevent := by
  induction log with
  | nil =>
      intro ms q hcarried _
      have hnil : ms = [] := by
        cases ms with
        | nil => rfl
        | cons m ms => cases hcarried
      subst hnil
      exact ⟨rfl, (List.append_nil _).symm⟩
  | cons d log ih =>
      intro ms q hcarried hall
      cases ms with
      | nil => cases hcarried
      | cons m ms =>
          obtain ⟨message, uuid⟩ := m
          obtain ⟨hcarries, hrest⟩ := List.forall₂_cons.mp hcarried
          cases d with
          | value msg =>
              obtain ⟨sent, hsame, hsend⟩ :=
                send_toValue hprinted hP hreceivers (hall msg List.mem_cons_self) q
                  (body_of_value hprinted hC hcarries uuid)
              obtain ⟨halive, henqueued⟩ := ih ms
                { sends := q.sends + 1
                  enqueued := q.enqueued ++ [(C.toEvent message uuid, sent)] }
                hrest fun msg hmem => hall msg (List.mem_cons_of_mem _ hmem)
              have hstep : forward C (P.send S observe) ((message, uuid) :: ms) q =
                  forward C (P.send S observe) ms
                    { sends := q.sends + 1
                      enqueued := q.enqueued ++ [(C.toEvent message uuid, sent)] } := by
                rw [forward, hsend]
              rw [hstep]
              refine ⟨halive, ?_⟩
              rw [henqueued, List.map_append, List.append_assoc]
              show _ ++ ([sent.cdevent] ++ _) = _ ++ (msg.cdevent :: _)
              rw [hsame]
              rfl
          | lagged skipped =>
              have hstep : forward C (P.send S observe) ((message, uuid) :: ms) q =
                  (false, { q with sends := q.sends + 1 }) := by
                rw [forward, send_notice hP q (body_of_lagged hprinted hC hcarries uuid)]
              rw [hstep]
              exact ⟨rfl, (List.append_nil _).symm⟩

end Hop

variable {m n : ℕ}

/-- Of two collectors, in every run of the first: its events arrive in the queue of the
second unchanged, in order and each once, from the moment the second connects up to the
first loss on the stream between them. The source of the second does not survive a loss. -/
theorem relay_forwards {S : Fin n → Sink (Message CDEvent) (Hub (Message CDEvent))}
    {buffer : ℕ} {start : Fin n → Hub (Message CDEvent)}
    {s : State (Message CDEvent) (Hub (Message CDEvent)) m n}
    (h : (system m S buffer start).Reachable s) {j : Fin n} {E : Security.Primitives}
    {rules : List Security.HeaderRuleConfig} (hsink : S j = sseSink E rules)
    (hstart : start j = .new) {K : Sdk CDEvent} {toText : CDEvent → Except String String}
    {toValue : CDEvent → Json} {C : Sse.Config} (hprinted : Printed K toText C.fromStr toValue)
    (hmade : ∀ msg ∈ s.sent, Made K msg.cdevent)
    {P : Processor} (hP : P.highWatermark = none) {observe : ℕ → Observation}
    (hreceivers : ∀ k, (observe k).receivers = true) {c : Client (Message CDEvent)}
    (hc : c ∈ (s.sinks j).sink.clients) {ms : List (Sse.MessageEvent × String)}
    (hcarried : List.Forall₂ Carries (c.log.map (toSseEvent K toText)) (ms.map Prod.fst))
    (q : Queue CDEvent) :
    ((forward C (P.send K observe) ms q).1 = true ↔ missed c.log = 0) ∧
    (forward C (P.send K observe) ms q).2.enqueued.map (fun entry => entry.2.cdevent) =
      q.enqueued.map (fun entry => entry.2.cdevent) ++
        (values (c.log.takeWhile Delivery.isValue)).map Message.cdevent ∧
    (missed c.log = 0 → values (c.log.takeWhile Delivery.isValue) =
      ((values (s.sinks j).log).take (c.joined + (c.next - c.start))).drop c.joined) := by
  obtain ⟨hreads, hsublist, -⟩ := (clients_account h hsink hstart).2.2 c hc
  have hrelayed : ∀ msg ∈ values c.log, Relayed K toValue msg.cdevent := fun msg hmsg =>
    relayed_of_made hprinted.lawful hprinted.serde (hmade msg (hsublist.subset hmsg))
  obtain ⟨halive, henqueued⟩ :=
    forward_log hprinted hP hreceivers rfl c.log ms q hcarried hrelayed
  refine ⟨?_, henqueued, fun hmissed => ?_⟩
  · rw [halive, hreads.missed_eq_zero_iff]
  · have hall := hreads.missed_eq_zero_iff.mp hmissed
    rw [List.takeWhile_eq_self_iff.mpr (List.all_eq_true.mp hall)]
    exact hreads.values_eq hmissed

/-! Two events, printed as they would be. -/

namespace Relay

def id (cdevent : Bool) : String := if cdevent then "a" else "b"

def value (cdevent : Bool) : Json :=
  .obj [("context", .obj [("id", .str (id cdevent)), ("source", .str "/s"),
    ("timestamp", .str "2024-03-14T10:30:00Z")])]

def text (cdevent : Bool) : String :=
  r#"{"context":{"id":""# ++ id cdevent ++
    r#"","source":"/s","timestamp":"2024-03-14T10:30:00Z"}}"#

def sdk : Sdk Bool where
  fromValue value :=
    match contextField "id" value with
    | some (.str id) =>
        if id = "a" then .ok true else if id = "b" then .ok false else .error "invalid id"
    | _ => .error "missing field"
  id := id
  withId _ id := decide (id = "a")
  isId id := decide (id = "a" ∨ id = "b")
  toString _ := "{}"
  contentId _ := "bafkrei"

def fromStr (text : String) : Option Json :=
  if text = Relay.text true then some (value true)
  else if text = Relay.text false then some (value false) else none

theorem fromStr_text (cdevent : Bool) : fromStr (text cdevent) = some (value cdevent) := by
  cases cdevent with
  | true => exact if_pos rfl
  | false =>
      have hne : text false ≠ text true := by
        intro hsame
        have hid := (String.append_right_inj _).mp ((String.append_left_inj _).mp hsame)
        exact absurd hid (by decide)
      rw [fromStr, if_neg hne, if_pos rfl]

theorem lawful : sdk.Lawful where
  id_fromValue body cdevent hvalue := by
    simp only [sdk] at hvalue ⊢
    split at hvalue
    · rename_i id hid
      split at hvalue
      · rename_i hsame
        rw [hid, hsame, ← Except.ok.inj hvalue]
        rfl
      · split at hvalue
        · rename_i hsame
          rw [hid, hsame, ← Except.ok.inj hvalue]
          rfl
        · cases hvalue
    · cases hvalue
  id_withId _ id hid := by
    rcases of_decide_eq_true hid with rfl | rfl
    · rfl
    · rfl

theorem serde : sdk.Serde value where
  fromValue_toValue _ _ _ _ _ := by
    generalize sdk.withId _ _ = cdevent
    cases cdevent <;> rfl
  written _ _ _ key _ _ hkey _ := by
    generalize sdk.withId _ _ = cdevent
    rcases hkey with rfl | rfl
    · rfl
    · rfl
  contentId_base32 _ := by
    show ("bafkrei" : String).toList.head? = some 'b'
    decide

theorem head?_append_append {start : String} {c : Char} (h : start.toList.head? = some c)
    (middle rest : String) : (start ++ middle ++ rest).toList.head? = some c := by
  simp only [String.toList_append, List.head?_append, h, Option.some_or]

theorem printed : Printed sdk (fun cdevent => .ok (text cdevent)) fromStr value where
  lawful := lawful
  serde := serde
  text cdevent := ⟨_, rfl, fromStr_text cdevent⟩
  withId_id cdevent := by cases cdevent <;> rfl
  notice skipped := by
    have hhead : ∀ cdevent, lagNotice skipped ≠ text cdevent := by
      intro cdevent hsame
      have hnotice : (lagNotice skipped).toList.head? = some 'l' :=
        head?_append_append (by decide) _ _
      have htext : (text cdevent).toList.head? = some '{' :=
        head?_append_append (by decide +kernel) _ _
      rw [hsame, htext] at hnotice
      exact absurd hnotice (by decide)
    rw [fromStr, if_neg (hhead true), if_neg (hhead false)]

/-- HMAC-SHA256 under the key `secret`, of the first event behind a header. -/
def crypto : Security.Crypto :=
  Security.standardCrypto fun key payload =>
    if key = Text.utf8 "secret" ∧ payload = Text.utf8 ("42\n" ++ text true) then
      [61, 87, 179, 242, 141, 227, 206, 161, 24, 193, 166, 190, 74, 59, 98, 134, 158, 48, 3, 147,
        160, 180, 197, 39, 199, 210, 174, 231, 164, 238, 172, 16]
    else []

def primitives : Security.Primitives := Security.samplePrimitives crypto

/-- A message with headers that are not its signature. -/
def forged : Message Bool where
  cdevent := true
  headers := [("x-id", "43"), ("x-signature", "forged")]

def config : Sse.Config :=
  { url := "http://collector/sse/001", headers := [], maxRetries := none, metadata := .obj []
    fromStr, crypto
    isEventStream := fun _ => true, validUrl := true }

def processor : Processor := { defaultSourceUrl := "http://relay", highWatermark := none }

/-- The sinks of the second collector run, and its queue is not looked at. -/
def observe (_ : ℕ) : Observation :=
  { queued := 0, receivers := true, now := "", context := [] }

theorem made (cdevent : Bool) : Made sdk cdevent := by
  refine ⟨processor, "2024-03-14T10:30:00Z", ⟨.obj [], [], value cdevent⟩, _, by decide, by decide,
    rfl, ?_⟩
  cases cdevent <;> rfl

/-! A client is sent two events, and then waits while the sink is handed more. -/

def collector : System (State (Message Bool) (Hub (Message Bool)) 1 1) :=
  system 1 (fun _ => sseSink primitives []) 8 fun _ => .new

def msgs (more : ℕ) : List (Message Bool) :=
  [⟨true, []⟩, ⟨false, []⟩] ++ List.replicate more ⟨true, []⟩

theorem msgs_succ (more : ℕ) : msgs (more + 1) = msgs more ++ [⟨true, []⟩] := by
  rw [msgs, List.replicate_succ', ← List.append_assoc]
  rfl

theorem length_msgs (more : ℕ) : (msgs more).length = more + 2 := by
  rw [msgs, List.length_append, List.length_replicate]
  exact Nat.add_comm _ _

def waiting : Client (Message Bool) where
  joined := 0
  start := 0
  next := 2
  log := (msgs 0).map .value
  connected := true

/-- The sink has been called with the events up to now. -/
structure CaughtUp (more : ℕ) (s : State (Message Bool) (Hub (Message Bool)) 1 1) : Prop where
  running : s.sources 0 = .running
  sent : s.sent = msgs more
  phase : (s.sinks 0).phase = .running
  next : (s.sinks 0).next = more + 2
  sink : (s.sinks 0).sink = { handed := msgs more, sent := msgs more, clients := [waiting] }

theorem CaughtUp.open {more : ℕ} {s : State (Message Bool) (Hub (Message Bool)) 1 1}
    (h : CaughtUp more s) : ¬s.Closed :=
  fun hclosed => hclosed.2 0 h.running

theorem caughtUp (more : ℕ) : ∃ s, collector.Reachable s ∧ CaughtUp more s := by
  induction more with
  | zero =>
      have h0 : collector.Reachable _ := .init rfl
      have h1 := h0.next (.idle 0 _ (.connect [] rfl))
      have h2 := h1.next (.enqueue 0 ⟨true, []⟩ rfl ⟨0, rfl⟩)
      have h3 := h2.next (.turn 0 false _ (by simp [State.Closed, State.created, State.set])
        (.value ⟨true, []⟩ .ok _ rfl rfl ⟨rfl, rfl⟩))
      have h4 := h3.next (.idle 0 _ (.deliver (show _ = [] ++ _ :: [] from rfl) rfl rfl))
      have h5 := h4.next (.enqueue 0 ⟨false, []⟩ rfl ⟨0, rfl⟩)
      have h6 := h5.next (.turn 0 false _ (by simp [State.Closed, State.created, State.set])
        (.value ⟨false, []⟩ .ok _ rfl rfl ⟨rfl, rfl⟩))
      have h7 := h6.next (.idle 0 _ (.deliver (show _ = [] ++ _ :: [] from rfl) rfl rfl))
      exact ⟨_, h7, ⟨rfl, rfl, rfl, rfl, rfl⟩⟩
  | succ more ih =>
      obtain ⟨s, hs, hcaught⟩ := ih
      have henqueued := hs.next (.enqueue 0 ⟨true, []⟩ hcaught.running ⟨0, hcaught.phase⟩)
      have hpoll : poll 8 (s.sent ++ [⟨true, []⟩]) (s.sinks 0).next =
          some (.value ⟨true, []⟩) := by
        rw [hcaught.sent, hcaught.next, poll, List.length_append, length_msgs, if_neg (by simp),
          ← length_msgs, List.getElem?_concat_length]
        rfl
      have hturned := henqueued.next (.turn 0 false _
        (iff_of_false (by decide) hcaught.open)
        (.value ⟨true, []⟩ .ok _ hcaught.phase hpoll ⟨rfl, rfl⟩))
      refine ⟨_, hturned, ⟨hcaught.running, ?_, ?_, ?_, ?_⟩⟩
      · rw [msgs_succ, ← hcaught.sent]
        rfl
      · rw [State.set_sinks_self]
        exact hcaught.phase
      · rw [State.set_sinks_self, SinkTask.receive, SinkTask.count_next]
        show (s.sinks 0).next + 1 = _
        rw [hcaught.next]
      · rw [State.set_sinks_self, SinkTask.receive, SinkTask.count_sink]
        show (s.sinks 0).sink.send _ = _
        rw [hcaught.sink, msgs_succ]
        rfl

end Relay

/-- Two events are forwarded, and the next is one of those the client has lost. -/
theorem relay_forwards_sample :
    ∃ (s : State (Message Bool) (Hub (Message Bool)) 1 1) (c : Client (Message Bool)),
      c ∈ (s.sinks 0).sink.clients ∧ missed c.log = 1 ∧
      (forward Relay.config (Relay.processor.send Relay.sdk Relay.observe)
        [(⟨"a", "cdevent", Relay.text true⟩, ""), (⟨"b", "cdevent", Relay.text false⟩, ""),
          (⟨"", "error", lagNotice 1⟩, "")] { enqueued := [], sends := 0 }).1 = false ∧
      (forward Relay.config (Relay.processor.send Relay.sdk Relay.observe)
        [(⟨"a", "cdevent", Relay.text true⟩, ""), (⟨"b", "cdevent", Relay.text false⟩, ""),
          (⟨"", "error", lagNotice 1⟩, "")] { enqueued := [], sends := 0 }).2.enqueued.map
            (fun entry => entry.2.cdevent) = [true, false] := by
  obtain ⟨s, hs, hcaught⟩ := Relay.caughtUp (Hub.capacity + 1)
  have hclients : (s.sinks 0).sink.clients = [] ++ Relay.waiting :: [] := by rw [hcaught.sink]; rfl
  have hpoll : poll Hub.capacity (s.sinks 0).sink.sent Relay.waiting.next = some (.lagged 1) := by
    rw [hcaught.sink, poll, Relay.length_msgs]
    rfl
  have hlagged := hs.next (.idle 0 _ (.deliver hclients rfl hpoll))
  have hmem : Relay.waiting.receive (.lagged 1) ∈ ((s.set 0 ((s.sinks 0).become
      { (s.sinks 0).sink with clients := [] ++ Relay.waiting.receive (.lagged 1) :: [] })).sinks
        0).sink.clients := by
    rw [State.set_sinks_self]
    exact List.mem_cons_self
  have hcarried : List.Forall₂ Carries
      ((Relay.waiting.receive (.lagged 1)).log.map
        (toSseEvent Relay.sdk fun cdevent => .ok (Relay.text cdevent)))
      ([((⟨"a", "cdevent", Relay.text true⟩ : Sse.MessageEvent), ""),
        (⟨"b", "cdevent", Relay.text false⟩, ""), (⟨"", "error", lagNotice 1⟩, "")].map
          Prod.fst) :=
    .cons ⟨rfl, rfl⟩ (.cons ⟨rfl, rfl⟩ (.cons ⟨rfl, rfl⟩ .nil))
  have hreceivers : ∀ k, (Relay.observe k).receivers = true := fun _ => rfl
  have hforwards := relay_forwards (j := 0) hlagged rfl rfl (C := Relay.config) Relay.printed
    (fun msg _ => Relay.made msg.cdevent) (P := Relay.processor) rfl hreceivers hmem hcarried
    { enqueued := [], sends := 0 }
  refine ⟨_, _, hmem, rfl, ?_, hforwards.2.1⟩
  rw [← Bool.not_eq_true, hforwards.1]
  exact Nat.one_ne_zero

end CdvizCollector.Pipeline
