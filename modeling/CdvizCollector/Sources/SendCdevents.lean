import CdvizCollector.Sources.CDEvent
import CdvizCollector.Transformers.Pipe

/-!
The terminal pipe of a source (`sources/send_cdevents.rs`).

It converts an event and enqueues it for the sinks, unless the queue is close to
full. What it finds around it at each send (how many messages are queued, what
the clock shows, the current trace) is an `Observation`; they come from outside.
-/

namespace CdvizCollector.Sources

open Lib Transformers

variable {CDEvent : Type}

structure Message (CDEvent : Type) where
  cdevent : CDEvent
  headers : StringMap

/-- `send_cdevents::Processor`. Its `next` is the queue of the sinks. -/
structure Processor where
  defaultSourceUrl : String
  highWatermark : Option ℕ

/-- What one `send` sees: the length of the queue, whether anyone receives from
it, the time and the trace context to propagate. -/
structure Observation where
  queued : ℕ
  receivers : Bool
  now : String
  context : StringMap

/-- The queue as the source fills it, each message with the event it was made
from, and the number of sends so far. -/
structure Queue (CDEvent : Type) where
  enqueued : List (Event × Message CDEvent)
  sends : ℕ

def isSourceEmpty (v : Json) : Bool :=
  ((contextField "source" v).bind Json.asStr).elim true fun source => source = ""

/-- The check made before any work. -/
def Processor.saturated (P : Processor) (o : Observation) : Option Error :=
  P.highWatermark.bind fun watermark =>
    if watermark ≤ o.queued then some (.queueSaturated o.queued watermark) else none

/-- The event with a source in its metadata if it has none. -/
def Processor.withSource (P : Processor) (input : Event) : Option Event :=
  if isSourceEmpty input.body && isSourceEmpty input.metadata then
    (setContextField "source" P.defaultSourceUrl input.metadata).map fun metadata =>
      { input with metadata }
  else some input

def injectCurrentContext (context headers : StringMap) : StringMap :=
  context.foldl (fun headers entry => Assoc.insert entry.1 entry.2 headers) headers

def ConversionError.toError : ConversionError → Error
  | .serde cause => .serde cause
  | .id value => .report value

/-- `send_cdevents::Processor::send`. -/
def Processor.send (S : Sdk CDEvent) (P : Processor) (observe : ℕ → Observation) :
    Pipe (Queue CDEvent) := fun q input =>
  let o := observe q.sends
  let q := { q with sends := q.sends + 1 }
  match P.saturated o with
  | some e => (.err e, q)
  | none =>
      match P.withSource input with
      | none => (.panic, q)
      | some event =>
          match tryFrom S o.now event with
          | none => (.panic, q)
          | some (.error e) => (.err e.toError, q)
          | some (.ok cdevent) =>
              let headers := injectCurrentContext o.context event.headers
              if o.receivers then
                (.ok, { q with enqueued := q.enqueued ++ [(input, { cdevent, headers })] })
              else (.err (.report "channel closed"), q)

/-! ### Panics -/

theorem isSourceEmpty_of_not_assignable {v : Json} (h : ¬Assignable v) :
    isSourceEmpty v = true := by
  rw [isSourceEmpty, contextField_of_not_assignable _ h]
  rfl

theorem withSource_isSome_iff (P : Processor) (input : Event) :
    (P.withSource input).isSome ↔
      isSourceEmpty input.body = false ∨ Assignable input.metadata := by
  unfold Processor.withSource
  cases hbody : isSourceEmpty input.body with
  | false => simp
  | true =>
      cases hmetadata : isSourceEmpty input.metadata with
      | true => simp [setContextField_isSome_iff]
      | false =>
          have hassignable : Assignable input.metadata := by
            by_contra hnot
            rw [isSourceEmpty_of_not_assignable hnot] at hmetadata
            contradiction
          simp [hassignable]

theorem withSource_body {P : Processor} {input event : Event}
    (h : P.withSource input = some event) : event.body = input.body := by
  unfold Processor.withSource at h
  split at h
  · obtain ⟨metadata, -, rfl⟩ := Option.map_eq_some_iff.mp h
    rfl
  · rw [← Option.some.inj h]

/-- How a send ends: refused at once, with a panic, or after the conversion. -/
theorem send_cases (S : Sdk CDEvent) (P : Processor) (observe : ℕ → Observation)
    (q : Queue CDEvent) (input : Event) :
    (∃ e, P.saturated (observe q.sends) = some e ∧
      P.send S observe q input = (.err e, { q with sends := q.sends + 1 })) ∨
    (P.saturated (observe q.sends) = none ∧
      (P.withSource input).bind (tryFrom S (observe q.sends).now) = none ∧
      P.send S observe q input = (.panic, { q with sends := q.sends + 1 })) ∨
    (P.saturated (observe q.sends) = none ∧
      ((P.withSource input).bind (tryFrom S (observe q.sends).now)).isSome ∧
      ((∃ e, P.send S observe q input = (.err e, { q with sends := q.sends + 1 })) ∨
        (observe q.sends).receivers = true ∧ ∃ message, P.send S observe q input =
          (.ok, { sends := q.sends + 1, enqueued := q.enqueued ++ [(input, message)] }))) := by
  rw [Processor.send]
  cases P.saturated (observe q.sends) with
  | some e => exact Or.inl ⟨e, rfl, rfl⟩
  | none =>
      right
      cases P.withSource input with
      | none => exact Or.inl ⟨rfl, rfl, rfl⟩
      | some event =>
          dsimp only [Option.bind_some]
          cases tryFrom S (observe q.sends).now event with
          | none => exact Or.inl ⟨rfl, rfl, rfl⟩
          | some res =>
              refine Or.inr ⟨rfl, rfl, ?_⟩
              cases res with
              | error e => exact Or.inl ⟨_, rfl⟩
              | ok cdevent =>
                  cases (observe q.sends).receivers with
                  | false => exact Or.inl ⟨_, rfl⟩
                  | true => exact Or.inr ⟨rfl, _, rfl⟩

theorem bind_tryFrom_isSome_iff (S : Sdk CDEvent) (P : Processor) (now : String) (input : Event) :
    ((P.withSource input).bind (tryFrom S now)).isSome ↔
      Assignable input.body ∧
        (isSourceEmpty input.body = false ∨ Assignable input.metadata) := by
  rw [← withSource_isSome_iff P]
  cases hsource : P.withSource input with
  | none => simp
  | some event => simp [tryFrom_isSome_iff, withSource_body hsource]

theorem send_panic_iff (S : Sdk CDEvent) (P : Processor) (observe : ℕ → Observation)
    (q : Queue CDEvent) (input : Event) :
    (P.send S observe q input).1 = .panic ↔
      P.saturated (observe q.sends) = none ∧
        ¬(Assignable input.body ∧
          (isSourceEmpty input.body = false ∨ Assignable input.metadata)) := by
  rw [← bind_tryFrom_isSome_iff S P (observe q.sends).now]
  rcases send_cases S P observe q input with
    ⟨e, hsaturated, hsend⟩ | ⟨hsaturated, hpanic, hsend⟩ | ⟨-, hsome, ⟨e, hsend⟩ | ⟨-, _, hsend⟩⟩
  · simp [hsend, hsaturated]
  · simp [hsend, hsaturated, hpanic]
  · simp [hsend, hsome]
  · simp [hsend, hsome]

/-- A send enqueues at most one message, and only past the check and towards
somebody who receives. -/
theorem send_enqueued (S : Sdk CDEvent) (P : Processor) (observe : ℕ → Observation)
    (q : Queue CDEvent) (input : Event) :
    (P.send S observe q input).2.enqueued = q.enqueued ∨
      ∃ message, P.saturated (observe q.sends) = none ∧ (observe q.sends).receivers = true ∧
        (P.send S observe q input).2.enqueued = q.enqueued ++ [(input, message)] := by
  rcases send_cases S P observe q input with
    ⟨e, -, hsend⟩ | ⟨-, -, hsend⟩ | ⟨hsaturated, -, ⟨e, hsend⟩ | ⟨hreceivers, message, hsend⟩⟩
  · exact Or.inl (by rw [hsend])
  · exact Or.inl (by rw [hsend])
  · exact Or.inl (by rw [hsend])
  · exact Or.inr ⟨message, hsaturated, hreceivers, by rw [hsend]⟩

/-- Neither the terminal pipe nor the conversion panics on an event exactly when
its body is assignable and, unless the queue refuses the event at once or the
body names its source, its metadata is too. -/
theorem never_panics_iff (S : Sdk CDEvent) (P : Processor) (observe : ℕ → Observation)
    (q : Queue CDEvent) (now : String) (input : Event) :
    ((P.send S observe q input).1 ≠ .panic ∧ tryFrom S now input ≠ none) ↔
      Assignable input.body ∧
        (P.saturated (observe q.sends) ≠ none ∨ isSourceEmpty input.body = false ∨
          Assignable input.metadata) := by
  have htry : tryFrom S now input ≠ none ↔ Assignable input.body := by
    rw [← tryFrom_isSome_iff S now, Option.isSome_iff_ne_none]
  rw [ne_eq, send_panic_iff, htry]
  by_cases hbody : Assignable input.body
  · simp only [hbody, true_and, and_true]
    rw [not_and_not_right]
    exact imp_iff_not_or
  · simp [hbody]

/-- A body that is an array: what a webhook without transformers receives when
`[]` is posted to it. -/
theorem array_body_panics :
    ¬∀ (observe : ℕ → Observation) (input : Event),
      (Processor.send Sdk.ids { defaultSourceUrl := "http://collector", highWatermark := none }
          observe { enqueued := [], sends := 0 } input).1 ≠ .panic ∧
        tryFrom Sdk.ids "2024-03-14T10:30:00Z" input ≠ none := by
  intro h
  let observe : ℕ → Observation := fun _ =>
    { queued := 0, receivers := true, now := "", context := [] }
  exact (h observe { metadata := .obj [], headers := [], body := .arr [] }).2 rfl

end CdvizCollector.Sources
