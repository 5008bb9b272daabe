import CdvizCollector.Lib.Traced
import CdvizCollector.Sources.Opendal.Scan
import CdvizCollector.Sources.Parsers

/-!
The parsers of an `opendal` source (`sources/opendal/parsers.rs`).

A parser sends the events of a resource while it reads the file; what was sent
before an error stays sent. The trace of a parser is what it sends to a pipe that
takes every event.
-/

namespace CdvizCollector.Sources.Opendal

open Lib Parsers

/-- The configuration of a parser, and the calls it makes. -/
structure ParserContext where
  formats : Formats
  baseMetadata : Json
  /-- `Operator::read` -/
  read : String → Except String (List UInt8)
  /-- `Entry::name` -/
  entryName : String → String
  /-- `Timestamp::to_string` -/
  timestampText : Checkpoint.Timestamp → String

/-- The entries of an object are added to another one, or replace its own. -/
def mergeMetadata (base resource : Json) : Json :=
  match base, resource with
  | .obj baseObj, .obj resourceObj =>
      .obj (resourceObj.foldl (fun map entry => Assoc.insert entry.1 entry.2 map) baseObj)
  | base, _ => base

section

variable (P : ParserContext) (resource : Loaded)

def asJsonMetadata : Json :=
  let value := [("name", Json.str (P.entryName resource.path)), ("path", .str resource.path),
    ("root", .str resource.root)]
  match resource.lastModified with
  | some last => .obj (Assoc.ofList (value ++ [("last_modified", .str (P.timestampText last))]))
  | none => .obj (Assoc.ofList value)

/-- The event of a body. -/
def toEvent (body : Json) : Event :=
  { metadata := mergeMetadata P.baseMetadata (asJsonMetadata P resource)
    headers := resource.xHeaders
    body }

abbrev Parsing := Traced Error Event

def send (body : Json) : Parsing Unit := .emit (toEvent P resource body)

def readBytes : Parsing (List UInt8) :=
  .ofExcept ((P.read resource.path).mapError .report)

/-! ### Formats -/

/-- The whole file as one event. -/
def parseWhole (format : String → Except Error Json) (bytes : List UInt8) : Parsing Unit := do
  let buf ← .ofExcept (fromUtf8 bytes)
  let body ← .ofExcept (format buf)
  send P resource body

/-- `while reader.read_line(&mut buf)? > 0`. -/
def forEachLine (bytes : List UInt8) (body : String → Parsing Unit) : Parsing Unit :=
  (Text.rawLines 10 bytes).forM fun line => do
    let buf ← .ofExcept (fromUtf8 line)
    body buf

def parseJsonlLine (buf : String) : Parsing Unit :=
  if Text.isBlank buf then pure ()
  else do
    let body ← .ofExcept (parseJson P.formats buf)
    send P resource body

/-- The line without its line feeds, and then without its carriage returns. -/
def lineText (buf : String) : String :=
  String.ofList (Text.trimEndMatches '\r' (Text.trimEndMatches '\n' buf.toList))

def parseTextLineLine (buf : String) : Parsing Unit :=
  if lineText buf = "" then pure () else send P resource (parseText (lineText buf))

def parseCsv (bytes : List UInt8) : Parsing Unit := do
  let rdr := P.formats.csv bytes
  let csvHeaders ← .ofExcept (rdr.headers.mapError .report)
  rdr.records.forM fun record => do
    let record ← .ofExcept (record.mapError .report)
    send P resource (csvRow csvHeaders record)

/-! ### Parsers -/

namespace AutoParser

def parse : Parsing Unit := do
  let bytes ← readBytes P resource
  match lowerExtension resource.path with
  | some "json" => parseWhole P resource (parseJson P.formats) bytes
  | some "jsonl" => forEachLine bytes (parseJsonlLine P resource)
  | some "csv" => parseCsv P resource bytes
  | some "xml" => parseWhole P resource (parseXml P.formats) bytes
  | some "yaml" => parseWhole P resource (parseYaml P.formats) bytes
  | some "yml" => parseWhole P resource (parseYaml P.formats) bytes
  | some "tap" => parseWhole P resource (parseTap P.formats) bytes
  | some "txt" => parseWhole P resource (fun buf => .ok (parseText buf)) bytes
  | some "log" => forEachLine bytes (parseTextLineLine P resource)
  | _ => parseWhole P resource (parseJson P.formats) bytes

end AutoParser

def JsonParser.parse : Parsing Unit := do
  let bytes ← readBytes P resource
  parseWhole P resource (parseJson P.formats) bytes

def JsonlParser.parse : Parsing Unit := do
  let bytes ← readBytes P resource
  forEachLine bytes (parseJsonlLine P resource)

def CsvRowParser.parse : Parsing Unit := do
  let bytes ← readBytes P resource
  parseCsv P resource bytes

/-- Nothing is read, and the event has no headers. -/
def MetadataParser.parse : Parsing Unit :=
  .emit
    { metadata := mergeMetadata P.baseMetadata (asJsonMetadata P resource)
      headers := []
      body := .null }

def XmlParser.parse : Parsing Unit := do
  let bytes ← readBytes P resource
  parseWhole P resource (parseXml P.formats) bytes

def YamlParser.parse : Parsing Unit := do
  let bytes ← readBytes P resource
  parseWhole P resource (parseYaml P.formats) bytes

def TapParser.parse : Parsing Unit := do
  let bytes ← readBytes P resource
  parseWhole P resource (parseTap P.formats) bytes

def TextParser.parse : Parsing Unit := do
  let bytes ← readBytes P resource
  parseWhole P resource (fun buf => .ok (parseText buf)) bytes

def TextLineParser.parse : Parsing Unit := do
  let bytes ← readBytes P resource
  forEachLine bytes (parseTextLineLine P resource)

/-- `Config::make_parser` and the parser it makes. -/
def parse (config : Config) : Parsing Unit :=
  match config with
  | .auto => AutoParser.parse P resource
  | .csvRow => CsvRowParser.parse P resource
  | .json => JsonParser.parse P resource
  | .jsonl => JsonlParser.parse P resource
  | .metadata => MetadataParser.parse P resource
  | .xml => XmlParser.parse P resource
  | .yaml => YamlParser.parse P resource
  | .tap => TapParser.parse P resource
  | .text => TextParser.parse P resource
  | .textLine => TextLineParser.parse P resource

/-! ### Runs over a text -/

variable {P resource}

theorem readBytes_bind {bytes : List UInt8} (h : P.read resource.path = .ok bytes) {α : Type}
    (f : List UInt8 → Parsing α) : readBytes P resource >>= f = f bytes := by
  rw [readBytes, h]
  rfl

theorem fromUtf8_utf8 (s : String) : fromUtf8 (Text.utf8 s) = .ok s := by
  rw [fromUtf8, Text.decodeUtf8_utf8]

/-- The lines are decoded one by one, and are the lines of the text. -/
theorem forEachLine_utf8 (data : String) (body : String → Parsing Unit) :
    forEachLine (Text.utf8 data) body = (Text.readerLines data).forM body := by
  rw [forEachLine, Text.rawLines_utf8_eq, List.forM_eq_forM, List.forM_map]
  apply congrArg
  funext buf
  rw [fromUtf8_utf8]
  rfl

variable (P resource)

theorem parseTextLineLine_eq (buf : String) :
    parseTextLineLine P resource buf =
      ⟨([lineText buf].filter (· ≠ "")).map fun text => toEvent P resource (parseText text),
        .ok ()⟩ := by
  rw [parseTextLineLine]
  split
  · rename_i hempty
    rw [hempty]
    rfl
  · rename_i hne
    have hkeep : [lineText buf].filter (· ≠ "") = [lineText buf] :=
      List.filter_cons_of_pos (decide_eq_true hne)
    rw [hkeep]
    rfl

theorem forM_parseTextLineLine (lines : List String) :
    lines.forM (parseTextLineLine P resource) =
      ⟨((lines.map lineText).filter (· ≠ "")).map fun text => toEvent P resource (parseText text),
        .ok ()⟩ := by
  rw [Traced.forM_of_steps fun buf _ => parseTextLineLine_eq P resource buf]
  congr 1
  induction lines with
  | nil => rfl
  | cons line lines ih =>
      rw [List.flatMap_cons, ih, ← List.map_append, ← List.filter_append]
      rfl

end

end CdvizCollector.Sources.Opendal
