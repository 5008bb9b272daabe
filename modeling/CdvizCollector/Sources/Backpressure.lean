import CdvizCollector.Sources.SendCdevents
import CdvizCollector.Sources.Webhook
import CdvizCollector.Transformers.Delivery

/-!
Back-pressure from the queue to the caller of a webhook.

A caller posts a request again after each `503`, until it is answered `201`. By
then the outputs of the chain are enqueued, unless in one of the refused
attempts a `deduplicate` had recorded the key of the very event the queue then
refused: at the next attempt it takes that event for a duplicate and drops it.
-/

namespace CdvizCollector.Sources

open Lib Security Transformers Webhook

variable {CDEvent : Type}

/-- A webhook source in front of a queue: what it is configured with, and what
it takes from elsewhere. -/
structure Hook (CDEvent : Type) where
  primitives : Primitives
  fromBytes : List UInt8 → Except String Json
  text : Json → String
  sdk : Sdk CDEvent
  webhook : WebhookState
  transformers : List Transformer
  terminal : Processor
  observe : ℕ → Observation

variable (H : Hook CDEvent)

def Hook.terminalPipe : Pipe (Queue CDEvent) := H.terminal.send H.sdk H.observe

def Hook.pipe : Pipe (Memory × Queue CDEvent) := chain H.text H.terminalPipe H.transformers

/-- One POST. -/
def Hook.post (request : Request) (s : Memory × Queue CDEvent) :
    Option Response × (Memory × Queue CDEvent) :=
  Webhook.webhook H.primitives H.fromBytes H.webhook H.pipe s request

/-- A POST in state `s` is answered with a status. -/
def Hook.Answered (request : Request) (s : Memory × Queue CDEvent) (status : ℕ) : Prop :=
  ∃ response, (H.post request s).1 = some response ∧ response.status = status

/-- The state before the first attempt: the transformers may remember anything;
the queue records what is enqueued from now on. -/
def Hook.start (memory : Memory) : Memory × Queue CDEvent :=
  (memory, { enqueued := [], sends := 0 })

/-- The states in which a caller posts, each after a `503` in the one before. -/
inductive Hook.Attempts (request : Request) (memory : Memory) : Memory × Queue CDEvent → Prop
  | first : Attempts request memory (Hook.start memory)
  | again {s : Memory × Queue CDEvent} (h : Attempts request memory s)
      (hrefused : H.Answered request s 503) : Attempts request memory (H.post request s).2

def Queue.Enqueued (q : Queue CDEvent) (event : Event) : Prop := event ∈ q.enqueued.map Prod.fst

/-! ### The terminal pipe -/

theorem terminalPipe_cases (q : Queue CDEvent) (event : Event) :
    ((H.terminalPipe q event).2.enqueued = q.enqueued ∧ (H.terminalPipe q event).1 ≠ .ok) ∨
      ∃ message, (H.terminalPipe q event).2.enqueued = q.enqueued ++ [(event, message)] := by
  unfold Hook.terminalPipe Processor.send
  simp only
  split
  · exact .inl ⟨rfl, by simp⟩
  · split
    · exact .inl ⟨rfl, by simp⟩
    · split
      · exact .inl ⟨rfl, by simp⟩
      · exact .inl ⟨rfl, by simp⟩
      · split
        · exact .inr ⟨_, rfl⟩
        · exact .inl ⟨rfl, by simp⟩

/-- What is enqueued stays so. -/
theorem enqueued_mono (q : Queue CDEvent) (event other : Event) (h : q.Enqueued other) :
    (H.terminalPipe q event).2.Enqueued other := by
  unfold Queue.Enqueued at h ⊢
  rcases terminalPipe_cases H q event with ⟨hsame, -⟩ | ⟨message, hmore⟩
  · rwa [hsame]
  · rw [hmore, List.map_append]
    exact List.mem_append_left _ h

theorem enqueued_of_ok (q : Queue CDEvent) (event : Event)
    (h : (H.terminalPipe q event).1 = .ok) : (H.terminalPipe q event).2.Enqueued event := by
  rcases terminalPipe_cases H q event with ⟨-, hnot⟩ | ⟨message, hmore⟩
  · exact absurd h hnot
  · rw [Queue.Enqueued, hmore, List.map_append]
    exact List.mem_append_right _ List.mem_cons_self

/-! ### Attempts -/

section Post

variable {H} {request : Request} {memory : Memory} {s : Memory × Queue CDEvent}

/-- An answer from the pipe is an answer to the event of the request. -/
theorem post_eq {body : Json} (hbody : H.fromBytes request.body = .ok body) {status : ℕ}
    (h : H.Answered request s status) (hstatus : status = 201 ∨ status = 503) :
    (H.post request s).2 = (H.pipe s (H.webhook.event request.headers body)).2 ∧
      (status = 201 → (H.pipe s (H.webhook.event request.headers body)).1 = .ok) := by
  obtain ⟨response, hresponse, hcode⟩ := h
  unfold Hook.post Webhook.webhook at hresponse ⊢
  cases hvalid : validateHeaders H.primitives request.headers H.webhook.headers request.body with
  | error e =>
      simp only [hvalid, Option.some.injEq] at hresponse
      subst hresponse
      rcases ValidationError.status_cases e with he | he <;> simp only [he] at hcode <;> omega
  | ok _ =>
      rcases hanswer : H.pipe s (H.webhook.event request.headers body) with ⟨res, s'⟩
      simp only [hvalid, hbody, hanswer] at hresponse ⊢
      cases res with
      | ok => exact ⟨rfl, fun _ => rfl⟩
      | panic => contradiction
      | err e =>
          simp only [Option.some.injEq] at hresponse
          subst hresponse
          exact ⟨rfl, fun h => absurd (hcode.trans h) (Response.status_ofError e)⟩

/-- What the transformers remember between two attempts. -/
theorem attempts_remember {body : Json} (hbody : H.fromBytes request.body = .ok body)
    (hkeeps : ∀ s, H.Attempts request memory s → H.Answered request s 503 →
      Keeps H.text H.terminalPipe H.transformers s (H.webhook.event request.headers body))
    (h : H.Attempts request memory s) :
    Remembers H.text s.2.Enqueued H.transformers memory s.1 := by
  induction h with
  | first => exact remembers_start H.text _ H.transformers memory
  | @again s hattempts hrefused ih =>
      have hsent := chain_delivers Queue.Enqueued (enqueued_mono H)
        (enqueued_of_ok H) H.transformers memory s _ ih (hkeeps s hattempts hrefused)
      rw [(post_eq hbody hrefused (.inr rfl)).1]
      exact hsent.remembers

/-- Once an attempt is answered `201`, every output of the chain for the event
is enqueued or was dropped as a duplicate of one that is, if in no refused
attempt a `deduplicate` recorded the key of an event that was refused below it. -/
theorem delivered_of_created {body : Json} (hbody : H.fromBytes request.body = .ok body)
    (hkeeps : ∀ s, H.Attempts request memory s → H.Answered request s 503 →
      Keeps H.text H.terminalPipe H.transformers s (H.webhook.event request.headers body))
    (h : H.Attempts request memory s) (hcreated : H.Answered request s 201) :
    Delivered H.text (H.post request s).2.2.Enqueued H.transformers memory
      (H.webhook.event request.headers body) := by
  have hok := (post_eq hbody hcreated (.inl rfl)).2 rfl
  have hsent := chain_delivers Queue.Enqueued (enqueued_mono H) (enqueued_of_ok H)
    H.transformers memory s _ (attempts_remember hbody hkeeps h)
    (keeps_of_ok H.text H.terminalPipe H.transformers s _ hok)
  rw [(post_eq hbody hcreated (.inl rfl)).1]
  exact hsent.delivered hok

end Post

/-! ### A refusal, then a success -/

/-- An event with an id, a timestamp and a source. -/
def sampleBody : Json :=
  .obj [("context", .obj [("id", .str "a"), ("source", .str "/s"),
    ("timestamp", .str "2024-03-14T10:30:00Z")])]

/-- A hook without rules, whose queue is saturated at one send. -/
def sampleHook (full : ℕ) (transformers : List Transformer) : Hook String where
  primitives :=
    { hmacSha256 := fun _ _ => [], base64Encode := fun _ => "", base64Decode := fun _ => none,
      hexString := fun _ => "", hexDecode := fun _ => none, regex := fun _ => .error "",
      toLowercase := Text.toAsciiLowercase }
  fromBytes _ := .ok sampleBody
  text value := value.asStr.elim "null" fun s => "\"" ++ s ++ "\""
  sdk := .ids
  webhook := { headersToKeep := [], headers := [], baseMetadata := .null }
  transformers
  terminal := { defaultSourceUrl := "http://collector", highWatermark := some 80 }
  observe n := { queued := if n = full then 80 else 0, receivers := true, now := "", context := [] }

def sampleRequest : Request := { headers := [], body := [] }

/-- The event with the subject it is about. -/
def sampleSubject : Event where
  metadata := .null
  headers := []
  body := .obj [("context", .obj [("id", .str "b"), ("source", .str "/s"),
    ("timestamp", .str "2024-03-14T10:30:00Z")]), ("subject", .obj [("id", .str "pkg:a")])]

/-- A program that adds an event for the subject, before a `deduplicate` on subjects; the
queue is saturated when the event itself comes. -/
def fanOut : Hook String :=
  sampleHook 1 [.vrl fun target => .ok (.arr [Event.toJson sampleSubject, target]),
    .deduplicate 8 "/subject/id"]

theorem fanOut_refused : fanOut.Answered sampleRequest (Hook.start []) 503 := ⟨_, rfl, rfl⟩

theorem fanOut_created :
    fanOut.Answered sampleRequest (fanOut.post sampleRequest (Hook.start [])).2 201 :=
  ⟨_, rfl, rfl⟩

theorem fanOut_attempts {s : Memory × Queue String} (h : fanOut.Attempts sampleRequest [] s)
    (hrefused : fanOut.Answered sampleRequest s 503) : s = Hook.start [] := by
  induction h with
  | first => rfl
  | again h hfirst ih =>
      obtain rfl := ih hfirst
      obtain ⟨response, hresponse, hstatus⟩ := hrefused
      obtain ⟨created, hcreated, hsuccess⟩ := fanOut_created
      obtain rfl := Option.some.inj (hresponse.symm.trans hcreated)
      rw [hsuccess] at hstatus
      contradiction

theorem delivered_of_created_again :
    fanOut.Answered sampleRequest (Hook.start []) 503 ∧
      Delivered fanOut.text (fanOut.post sampleRequest
        (fanOut.post sampleRequest (Hook.start [])).2).2.2.Enqueued fanOut.transformers []
          { metadata := .null, headers := [], body := sampleBody } := by
  refine ⟨fanOut_refused, delivered_of_created (H := fanOut) rfl (fun s h hrefused => ?_)
    (.again .first fanOut_refused) fanOut_created⟩
  obtain rfl := fanOut_attempts h hrefused
  -- the subject is new and accepted, and the event below has no key
  exact ⟨.inr rfl, fun _ => ⟨trivial, fun _ => trivial⟩⟩

/-- With a `deduplicate` before the queue the retried event is answered `201`
and is not enqueued. -/
theorem retried_event_is_lost :
    ¬∀ (H : Hook String) (request : Request) (memory : Memory) (s : Memory × Queue String)
      (body : Json), H.fromBytes request.body = .ok body → H.Attempts request memory s →
      H.Answered request s 201 →
      Delivered H.text (H.post request s).2.2.Enqueued H.transformers memory
        (H.webhook.event request.headers body) := by
  intro h
  let H := sampleHook 0 [.deduplicate 1 "/context/id"]
  have hrefused : H.Answered sampleRequest (Hook.start []) 503 := ⟨_, rfl, rfl⟩
  have hcreated : H.Answered sampleRequest (H.post sampleRequest (Hook.start [])).2 201 :=
    ⟨_, rfl, rfl⟩
  have hdelivered := h H sampleRequest [] _ sampleBody rfl (.again .first hrefused) hcreated
  rcases hdelivered with hseen | ⟨earlier, -, hearlier⟩
  · exact absurd hseen (List.not_mem_nil)
  · exact absurd hearlier (List.not_mem_nil)

end CdvizCollector.Sources
