import CdvizCollector.Event

/-!
The requests a driver emits (`sources/http_polling/request.rs`), and the parsers
of the responses.

The driver is a VRL program. What it does to its target comes from elsewhere;
how the result is read as a state and a list of requests is modelled here.
-/

namespace CdvizCollector.Sources.HttpPolling

open Lib

/-- A second; durations and times are in nanoseconds. -/
def second : ℕ := 1000000000

/-! ### Parsers -/

inductive ParserConfig where
  | auto
  | json
  | jsonl
  | rawText
deriving DecidableEq, Repr

inductive ResolvedParser where
  | json
  | jsonl
  | rawText
deriving DecidableEq, Repr

def ParserConfig.acceptHeader : ParserConfig → String
  | .auto => "application/json, application/x-ndjson, text/plain"
  | .json => "application/json"
  | .jsonl => "application/x-ndjson"
  | .rawText => "text/plain"

/-- `str::contains`. -/
def contains (s part : String) : Bool :=
  (List.range (s.toList.length + 1)).any fun i => part.toList.isPrefixOf (s.toList.drop i)

def ParserConfig.resolve (config : ParserConfig) (contentType : Option String) : ResolvedParser :=
  match config with
  | .json => .json
  | .jsonl => .jsonl
  | .rawText => .rawText
  | .auto =>
      let ct := contentType.getD ""
      if contains ct "application/x-ndjson" || contains ct "application/jsonl" then .jsonl
      else if contains ct "text/" then .rawText
      else .json

/-- The lines of a text, `str::lines`. -/
def textLines (body : String) : List String :=
  (Text.lines '\n' '\r' body.toList).map String.ofList

/-- `ResolvedParser::parse`; `fromStr` is `serde_json::from_str`. -/
def ResolvedParser.parse (fromStr : String → Option Json) (parser : ResolvedParser)
    (body : String) : Option (List Json) :=
  match parser with
  | .json => (fromStr body).map fun v => [v]
  | .jsonl => (((textLines body).map Text.trim).filter (· ≠ "")).mapM fromStr
  | .rawText => some [.str body]

/-- The names a parser is deserialized from. -/
def ParserConfig.ofName (name : String) : Option ParserConfig :=
  if name = "Auto" ∨ name = "auto" then some .auto
  else if name = "Json" ∨ name = "json" then some .json
  else if name = "Jsonl" ∨ name = "jsonl" then some .jsonl
  else if name = "RawText" ∨ name = "text" then some .rawText
  else none

/-- `serde_json::from_value::<ParserConfig>`: the name, or an object of the name
and `null`. -/
def ParserConfig.ofJson : Json → Option ParserConfig
  | .str name => ParserConfig.ofName name
  | .obj [(name, .null)] => ParserConfig.ofName name
  | _ => none

/-! ### Requests -/

inductive Route where
  | pipeline
  | feedback
  | both
deriving DecidableEq, Repr

def Route.parse (s : String) : Route :=
  let s := Text.toAsciiLowercase (Text.trim s)
  if s = "feedback" then .feedback else if s = "both" then .both else .pipeline

def Route.emits : Route → Bool
  | .pipeline | .both => true
  | .feedback => false

def Route.feedsBack : Route → Bool
  | .feedback | .both => true
  | .pipeline => false

structure RequestSpec where
  url : String
  method : String
  headers : StringMap
  body : Option (List UInt8)
  query : StringMap
  route : Route
  parser : Option ParserConfig
deriving DecidableEq, Repr

structure DriverOutput where
  state : Json
  requests : List RequestSpec

/-- `string_map`: the entries of an object that are strings. -/
def stringMap (value : Option Json) : StringMap :=
  ((value.bind Json.asObject).getD []).filterMap fun field =>
    field.2.asStr.map fun s => (field.1, s)

/-- `parse_request_spec`: an entry without a string `url` is dropped. -/
def parseRequestSpec (spec : Json) : Option RequestSpec :=
  ((spec.get "url").bind Json.asStr).map fun url =>
    { url
      method := ((spec.get "method").bind Json.asStr).getD "GET"
      headers := stringMap (spec.get "headers")
      body := ((spec.get "body").bind Json.asStr).map Text.utf8
      query := stringMap (spec.get "query")
      route := (((spec.get "route").bind Json.asStr).map Route.parse).getD .pipeline
      parser := (spec.get "parser").bind ParserConfig.ofJson }

/-- `DriverProgram::execute`; `resolve` gives the target as the program leaves
it, or fails. A result without an array of requests is a failure too. -/
def execute (resolve : Json → Option Json) (input : Json) : Option DriverOutput :=
  (resolve input).bind fun value =>
    ((value.get "requests").bind Json.asArray).map fun requests =>
      { state := (value.get "state").getD .null
        requests := requests.filterMap parseRequestSpec }

end CdvizCollector.Sources.HttpPolling
