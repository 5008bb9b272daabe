import CdvizCollector.Lib.Codec
import CdvizCollector.Lib.Toml

/-!
The overrides of the `send` command (`tools/send.rs`).

The arguments of the command line are put into the text of a TOML document, which
is parsed again as the top layer of the configuration. Some of them are escaped
or checked on the way and some are not.
-/

namespace CdvizCollector.Tools.Send

open Lib Lib.Toml

/-! ### Arguments -/

inductive ParserSelection where
  | auto
  | json
  | jsonl
  | csvRow
  | xml
  | yaml
  | tap
  | text
  | textLine
deriving DecidableEq, Repr

/-- The name of the parser in the configuration. -/
def ParserSelection.name : ParserSelection → String
  | .auto => "auto"
  | .json => "json"
  | .jsonl => "jsonl"
  | .csvRow => "csv_row"
  | .xml => "xml"
  | .yaml => "yaml"
  | .tap => "tap"
  | .text => "text"
  | .textLine => "text_line"

/-- The arguments the overrides are made from; the URL is given by its text. -/
structure SendArgs where
  data : List String
  url : Option String
  totalDurationOfRetries : Option String
  headers : List String
  parser : ParserSelection
  noData : Bool
  metadata : List String
  failOnCollectorError : Bool
  logFullResponseOnError : Bool
  command : List String

/-- `str::split_once`. -/
def splitOnce (separator : Char) (s : String) : Option (String × String) :=
  if separator ∈ s.toList then
    some (String.ofList (s.toList.takeWhile (· ≠ separator)),
      String.ofList (s.toList.dropWhile (· ≠ separator)).tail)
  else none

/-- The arguments that have a key and a value; the others are passed over. -/
def SendArgs.metadataOptions (args : SendArgs) : List (String × String) :=
  args.metadata.filterMap (splitOnce '=')

def SendArgs.headerOptions (args : SendArgs) : List (String × String) :=
  args.headers.filterMap (splitOnce ':')

/-! ### Escaping and checking -/

/-- `str::replace` of a character. -/
def replace (c : Char) (replacement s : String) : String :=
  String.ofList (s.toList.flatMap fun d => if d = c then replacement.toList else [d])

def escapeTomlString (s : String) : String :=
  replace '\t' "\\t" (replace '\r' "\\r" (replace '\n' "\\n"
    (replace '"' "\\\"" (replace '\\' "\\\\" (Text.trim s)))))

inductive SendError where
  | emptyKey
  | invalidKey (key : String)
deriving DecidableEq, Repr

/-- The text of an error; `debug` is the debug format of a string. -/
def SendError.message (debug : String → String) : SendError → String
  | .emptyKey => "metadata key cannot be empty"
  | .invalidKey key => "metadata key " ++ debug key ++ " contains invalid characters; " ++
      "only ASCII alphanumeric, hyphens and underscores are allowed"

def validateTomlBareKey (key : String) : Except SendError Unit :=
  if key = "" then .error .emptyKey
  else if !key.toList.all (fun c => c.isAlphanum || c = '_' || c = '-') then
    .error (.invalidKey key)
  else .ok ()

/-- A character in a JSON string, as `serde_json` writes it. -/
def escapeJsonChar (c : Char) : List Char :=
  if c = '"' then ['\\', '"']
  else if c = '\\' then ['\\', '\\']
  else if c = '\x08' then ['\\', 'b']
  else if c = '\x0c' then ['\\', 'f']
  else if c = '\n' then ['\\', 'n']
  else if c = '\r' then ['\\', 'r']
  else if c = '\t' then ['\\', 't']
  else if c.toNat < 0x20 then
    ['\\', 'u', '0', '0', Codec.digitChar Codec.lowerHex (c.toNat / 16),
      Codec.digitChar Codec.lowerHex (c.toNat % 16)]
  else [c]

def escapeJsonString (s : String) : String := String.ofList (s.toList.flatMap escapeJsonChar)

/-- `serde_json::to_string` of a list of strings. -/
def jsonStrings (elems : List String) : String :=
  "[" ++ ",".intercalate (elems.map fun s => quoted (escapeJsonString s)) ++ "]"

/-! ### The text of the overrides -/

/-- `append_http_sink_toml`: the lines it appends. -/
def appendHttpSinkToml (args : SendArgs) : List String :=
  (match args.url with
    | none => []
    | some url =>
        [assignment ["sinks", "http", "enabled"] "true",
          assignment ["sinks", "http", "destination"] (quoted url),
          assignment ["sinks", "debug", "enabled"] "false"] ++
        (args.totalDurationOfRetries.toList.map fun duration =>
          assignment ["sinks", "http", "total_duration_of_retries"] (quoted duration)) ++
        args.headerOptions.flatMap fun option =>
          let key := Text.trim option.1
          [assignment ["sinks", "http", "headers", key, "type"] (quoted "static"),
            assignment ["sinks", "http", "headers", key, "value"]
              (quoted (Text.trim option.2))]) ++
  if args.logFullResponseOnError then
    [assignment ["sinks", "http", "log_full_response_on_error"] "true"]
  else []

def convertArgsIntoToml (args : SendArgs) : Except SendError String := do
  let data := escapeTomlString ("\n".intercalate args.data)
  let metadata ← args.metadataOptions.mapM fun option => do
    let key := Text.trim option.1
    validateTomlBareKey key
    return assignment ["sources", "cli", "extractor", "metadata", key]
      (quoted (escapeTomlString option.2))
  return String.join ([assignment ["sources", "cli", "extractor", "data"] (quoted data),
    assignment ["sources", "cli", "extractor", "parser"] (quoted args.parser.name)] ++
    metadata ++ appendHttpSinkToml args)

/-- A value is added to its key, or to the end with a new one. -/
def pushValue (key value : String) : List (String × List String) → List (String × List String)
  | [] => [(key, [value])]
  | (k, values) :: rest =>
      if k = key then (k, values ++ [value]) :: rest else (k, values) :: pushValue key value rest

/-- The metadata by their keys, in the order in which the keys come first. -/
def metaMap (options : List (String × String)) : List (String × List String) :=
  options.foldl (fun map option => pushValue (Text.trim option.1) option.2 map) []

/-- The lines of `convert_run_args_into_toml` before the metadata. -/
def runLines (args : SendArgs) (runType : String) : List String :=
  [assignment ["sources", runType, "enabled"] "true",
    assignment ["sources", "cli", "enabled"] "false"] ++
  (if args.command = [] then []
    else [assignment ["sources", runType, "extractor", "command"] (jsonStrings args.command)]) ++
  (if args.data = [] then []
    else [assignment ["sources", runType, "extractor", "data_globs"] (jsonStrings args.data)]) ++
  (if args.noData then [assignment ["sources", runType, "extractor", "no_data"] "true"]
    else []) ++
  (if args.failOnCollectorError then
    [assignment ["sources", runType, "extractor", "fail_on_collector_error"] "true"]
    else [])

def convertRunArgsIntoToml (args : SendArgs) (runType : String) : Except SendError String := do
  let metadata ← (metaMap args.metadataOptions).mapM fun group => do
    validateTomlBareKey group.1
    let path := ["sources", runType, "extractor", "metadata", "run", "overrides", group.1]
    match group.2 with
    | [value] => return assignment path (quoted (escapeTomlString value))
    | values => return assignment path ("[" ++
        ", ".intercalate (values.map fun v => quoted (escapeTomlString v)) ++ "]")
  return String.join (runLines args runType ++ metadata ++ appendHttpSinkToml args)

/-! ### Escaping, character by character -/

def escapeTomlChar (c : Char) : List Char :=
  if c = '\\' then ['\\', '\\']
  else if c = '"' then ['\\', '"']
  else if c = '\n' then ['\\', 'n']
  else if c = '\r' then ['\\', 'r']
  else if c = '\t' then ['\\', 't']
  else [c]

theorem toList_escapeTomlString (s : String) :
    (escapeTomlString s).toList = (Text.trim s).toList.flatMap escapeTomlChar := by
  simp only [escapeTomlString, replace, String.toList_ofList, List.flatMap_assoc]
  congr 1
  funext c
  unfold escapeTomlChar
  split_ifs <;> simp_all

theorem escaping_toml : Escaping escapeTomlChar := by
  intro c
  unfold escapeTomlChar
  split_ifs with hslash hquote hnl hcr htab
  · exact .inl (.escape (by subst hslash; decide) .nil)
  · exact .inl (.escape (by subst hquote; decide) .nil)
  · exact .inl (.escape (by subst hnl; decide) .nil)
  · exact .inl (.escape (by subst hcr; decide) .nil)
  · exact .inl (.escape (by subst htab; decide) .nil)
  · cases hcontrol : isControl c with
    | true => exact .inr ⟨rfl, rfl⟩
    | false => exact .inl (.plain (by simp [isPlain, hslash, hquote, hcontrol]) .nil)

theorem escaping_json : Escaping escapeJsonChar := by
  intro c
  unfold escapeJsonChar
  split_ifs with hquote hslash hbs hff hnl hcr htab hlow
  · exact .inl (.escape (by subst hquote; decide) .nil)
  · exact .inl (.escape (by subst hslash; decide) .nil)
  · exact .inl (.escape (by subst hbs; decide) .nil)
  · exact .inl (.escape (by subst hff; decide) .nil)
  · exact .inl (.escape (by subst hnl; decide) .nil)
  · exact .inl (.escape (by subst hcr; decide) .nil)
  · exact .inl (.escape (by subst htab; decide) .nil)
  · refine .inl (.unicode ?_ .nil)
    have hall : ∀ n ∈ List.range 0x20, hexChar '0' '0' (Codec.digitChar Codec.lowerHex (n / 16))
        (Codec.digitChar Codec.lowerHex (n % 16)) = some (Char.ofNat n) := by decide
    rw [hall c.toNat (List.mem_range.mpr hlow), Char.ofNat_toNat]
  · cases hcontrol : isControl c with
    | true => exact .inr ⟨rfl, rfl⟩
    | false => exact .inl (.plain (by simp [isPlain, hslash, hquote, hcontrol]) .nil)

end CdvizCollector.Tools.Send
