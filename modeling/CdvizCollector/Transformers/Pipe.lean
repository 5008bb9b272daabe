import CdvizCollector.Event

/-!
Pipes and transformers (`transformers/*.rs`, `errors.rs`).

A pipe takes an event in a state and answers in a new state. The state of a
chain is what its transformers remember, from the first one on, next to the
state of the terminal pipe. Only `deduplicate` remembers anything. A panic
unwinds through the chain like an error, and leaves behind the state reached.
-/

namespace CdvizCollector.Transformers

open Lib

/-! ### Errors -/

inductive Error where
  | serde (cause : String)
  | rejected (reason : String)
  | queueSaturated (queued capacity : ℕ)
  | report (text : String)
deriving DecidableEq, Repr

/-- `Error::status_code`; other reports are an internal failure. -/
def Error.statusCode : Error → ℕ
  | .serde _ => 400
  | .rejected _ => 422
  | .queueSaturated _ _ => 503
  | .report _ => 500

def Error.message : Error → String
  | .serde _ => "malformed json provided"
  | .rejected reason => reason
  | .queueSaturated queued capacity =>
      "event queue saturated (" ++ toString queued ++ "/" ++ toString capacity ++
        " queued), retry later"
  | .report text => text

inductive Outcome where
  | ok
  | err (e : Error)
  | panic
deriving DecidableEq, Repr

/-- `Pipe::send`. -/
abbrev Pipe (σ : Type) := σ → Event → Outcome × σ

variable {σ ω : Type}

/-- A stage with a state of its own answers what the next one answers. -/
def keep {μ : Type} (own : μ) (answer : Outcome × σ) : Outcome × (μ × σ) :=
  (answer.1, (own, answer.2))

/-! ### Transformers -/

/-- `passthrough::Processor` and, logging aside, `log::Processor`. -/
def Passthrough.send (next : Pipe σ) : Pipe σ := next

/-- `discard_all::Processor`. -/
def DiscardAll.send : Pipe σ := fun s _ => (.ok, s)

/-- `deduplicate::Processor`, with the keys seen, oldest first. `text` is
`Value::to_string`. -/
def Deduplicate.send (text : Json → String) (capacity : ℕ) (keyPath : String) (next : Pipe σ) :
    Pipe (List String × σ) := fun own event =>
  let seen := own.1
  if capacity = 0 then keep seen (next own.2 event)
  else
    match (event.body.pointer keyPath).map text with
    | none => keep seen (next own.2 event)
    | some k =>
        if k ∈ seen then (.ok, own)
        else
          let seen := if capacity ≤ seen.length then seen.drop 1 else seen
          keep (seen ++ [k]) (next own.2 event)

/-- The outputs of a program, sent in order until one is not accepted. -/
def sendEach (next : Pipe σ) : List Event → σ → Outcome × σ
  | [], s => (.ok, s)
  | output :: outputs, s =>
      match next s output with
      | (.ok, s) => sendEach next outputs s
      | answer => answer

/-- The event as the target of a program. -/
def Event.toJson (event : Event) : Json :=
  .obj [("body", event.body), ("headers", .ofStrings event.headers), ("metadata", event.metadata)]

def stringMapOfJson (value : Json) : Option StringMap :=
  value.asObject.bind fun fields =>
    fields.mapM fun field => field.2.asStr.map fun text => (field.1, text)

/-- `serde_json::from_value::<Event>`; all three fields are required. -/
def Event.ofJson (value : Json) : Option Event := do
  let metadata ← value.get "metadata"
  let headers ← (value.get "headers").bind stringMapOfJson
  let body ← value.get "body"
  return { metadata, headers, body }

/-- What a program gives back: `null`, or a list of events. -/
def outputsOfJson : Json → Option (Option (List Event))
  | .null => some none
  | .arr elems => (elems.mapM Event.ofJson).map some
  | _ => none

/-- `vrl::Processor`; `resolve` is the compiled program. -/
def Vrl.send (resolve : Json → Except String Json) (next : Pipe σ) : Pipe σ := fun s input =>
  match resolve (Event.toJson input) with
  | .error reason => (.err (.rejected reason), s)
  | .ok res =>
      match outputsOfJson res with
      | none => (.err (.report "invalid type"), s)
      | some (some outputs) => sendEach next outputs s
      | some none => next s input

/-! ### Chains -/

inductive Transformer where
  | passthrough
  | log (target : String)
  | deduplicate (capacity : ℕ) (keyPath : String)
  | discardAll
  | vrl (resolve : Json → Except String Json)

/-- What the transformers of a chain remember, from the first one on. -/
abbrev Memory := List (List String)

/-- `make_transformer`: the pipe of one transformer before the next. -/
def Transformer.send (text : Json → String) (t : Transformer) (next : Pipe σ) :
    Pipe (List String × σ) :=
  match t with
  | .passthrough | .log _ => fun own event => keep own.1 (Passthrough.send next own.2 event)
  | .deduplicate capacity keyPath => Deduplicate.send text capacity keyPath next
  | .discardAll => fun own event => keep own.1 (DiscardAll.send own.2 event)
  | .vrl resolve => fun own event => keep own.1 (Vrl.send resolve next own.2 event)

/-- `build_transformer_chain`. -/
def chain (text : Json → String) (terminal : Pipe ω) : List Transformer → Pipe (Memory × ω)
  | [] => fun s event => keep s.1 (terminal s.2 event)
  | t :: rest => fun s event =>
      let answer := t.send text (chain text terminal rest) (s.1.headD [], (s.1.tail, s.2)) event
      (answer.1, (answer.2.1 :: answer.2.2.1, answer.2.2.2))

end CdvizCollector.Transformers
