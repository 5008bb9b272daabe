import CdvizCollector.Lib.LineReader
import CdvizCollector.Sources.Parsers.Tap

/-!
The parsers of texts that the sources share (`sources/parsers.rs`).

The readers of JSON, XML, YAML and CSV come from elsewhere. A CSV reader gives
its headers, and one record after the other, each of which may be an error.
-/

namespace CdvizCollector.Sources.Parsers

open Lib

/-- `parsers::Config`. -/
inductive Config where
  | auto
  | json
  | jsonl
  | csvRow
  | metadata
  | xml
  | yaml
  | tap
  | text
  | textLine
deriving DecidableEq, Repr

/-- The errors of a parser: JSON that is malformed, bytes that are no text, or a report. -/
inductive Error where
  | serde (input cause : String)
  | utf8
  | report (text : String)
deriving DecidableEq, Repr

structure CsvReader where
  headers : Except String (List String)
  records : List (Except String (List String))

/-- The readers that come from elsewhere. -/
structure Formats where
  /-- `serde_json::from_str` -/
  fromStr : String → Except String Json
  /-- `quick_xml_to_json::xml_to_json` -/
  xmlToJson : List UInt8 → Except String (List UInt8)
  /-- `serde_saphyr::from_str` -/
  yaml : String → Except String Json
  /-- `csv::Reader::from_reader` -/
  csv : List UInt8 → CsvReader

/-! ### Blanks around JSON -/

def isJsonBlank (c : Char) : Bool := c = ' ' || c = '\t' || c = '\n' || c = '\r'

/-- What `serde_json::from_str` does at the ends of a text: it skips blanks, and
of a value it reads neither end is other white space. -/
structure SkipsBlanks (fromStr : String → Except String Json) : Prop where
  skips : ∀ s, (fromStr (String.ofList (Text.trimBy isJsonBlank s.toList))).toOption =
    (fromStr s).toOption
  trimmed : ∀ s v, fromStr s = .ok v →
    Text.trimBy Text.isWhitespace (Text.trimBy isJsonBlank s.toList) =
      Text.trimBy isJsonBlank s.toList

theorem isWhitespace_of_isJsonBlank {c : Char} (h : isJsonBlank c = true) :
    Text.isWhitespace c = true := by
  simp only [isJsonBlank, Bool.or_eq_true, decide_eq_true_eq] at h
  rcases h with ((rfl | rfl) | rfl) | rfl <;> rfl

section

variable {fromStr : String → Except String Json} (hjson : SkipsBlanks fromStr)

include hjson

/-- Texts that differ in blanks at their ends are read alike. -/
theorem SkipsBlanks.toOption_congr {s t : String}
    (h : Text.trimBy isJsonBlank s.toList = Text.trimBy isJsonBlank t.toList) :
    (fromStr s).toOption = (fromStr t).toOption := by
  rw [← hjson.skips s, h, hjson.skips t]

/-- Where a text is read, more white space around it is none. -/
theorem SkipsBlanks.trim {s : String} {v : Json} (h : fromStr s = .ok v) :
    (fromStr (Text.trim s)).toOption = some v := by
  obtain ⟨front, back, hfront, hback, hs⟩ := Text.exists_trimBy isJsonBlank s.toList
  have htrim : (Text.trim s).toList = Text.trimBy isJsonBlank s.toList := by
    calc (Text.trim s).toList
        = Text.trimBy Text.isWhitespace (front ++ (Text.trimBy isJsonBlank s.toList ++ back)) := by
          rw [Text.toList_trim, ← hs]
      _ = Text.trimBy Text.isWhitespace (Text.trimBy isJsonBlank s.toList) := by
          rw [Text.trimBy_append_left fun c hc => isWhitespace_of_isJsonBlank (hfront c hc),
            Text.trimBy_append_right fun c hc => isWhitespace_of_isJsonBlank (hback c hc)]
      _ = Text.trimBy isJsonBlank s.toList := hjson.trimmed s v h
  have hread := hjson.skips s
  rw [← htrim, String.ofList_toList, h] at hread
  exact hread

end

/-! ### Formats -/

def parseText (data : String) : Json := .obj [("text", .str data)]

/-- The lines, trimmed, without the ones that are then empty. -/
def parseTextLine (data : String) : Json :=
  .arr ((((Text.textLines data).map Text.trim).filter (· ≠ "")).map parseText)

/-- The object of a record; a header given twice has the last of its values. -/
def csvRow (headers record : List String) : Json :=
  .obj (Assoc.ofList ((headers.zip record).map fun field => (field.1, .str field.2)))

section

variable (F : Formats)

def parseJson (data : String) : Except Error Json := (F.fromStr data).mapError (.serde data)

theorem parseJson_eq_ok_iff {F : Formats} {data : String} {v : Json} :
    parseJson F data = .ok v ↔ F.fromStr data = .ok v := by
  rw [parseJson]
  cases F.fromStr data with
  | error e => exact iff_of_false nofun nofun
  | ok v' => simp [Except.mapError]

def parseJsonl (data : String) : Except Error Json :=
  Json.arr <$> ((Text.textLines data).filter fun line => !Text.isBlank line).mapM (parseJson F)

def parseCsvRow (data : String) : Except Error Json := do
  let rdr := F.csv (Text.utf8 data)
  let headers ← rdr.headers.mapError .report
  let events ← rdr.records.mapM fun record => do
    let record ← record.mapError .report
    return csvRow headers record
  return .arr events

/-- `String::from_utf8` and what a reader does with the bytes it reads as text. -/
def fromUtf8 (bytes : List UInt8) : Except Error String :=
  match Text.decodeUtf8 bytes with
  | some s => .ok s
  | none => .error .utf8

def parseXml (data : String) : Except Error Json := do
  let written ← (F.xmlToJson (Text.utf8 data)).mapError fun e =>
    .report ("Failed to convert XML to JSON: " ++ e)
  let jsonStr ← fromUtf8 written
  parseJson F jsonStr

def parseYaml (data : String) : Except Error Json :=
  (F.yaml data).mapError fun cause => .report ("Failed to parse YAML: " ++ cause)

def parseTap (data : String) : Except Error Json :=
  .ok (Tap.parseTapDocument (fun yaml => (parseYaml F yaml).toOption) data).toJson

end

/-! ### File names -/

/-- `Path::file_name`: the last part of a path, if that is a name. -/
def fileName (path : List Char) : Option (List Char) :=
  match ((path.splitOn '/').filter fun part => part ≠ [] ∧ part ≠ ['.']).getLast? with
  | some name => if name = ['.', '.'] then none else some name
  | none => none

/-- `Path::extension`: what follows the last dot, unless nothing is before it. -/
def extension (path : String) : Option String :=
  (fileName path.toList).bind fun name =>
    match Text.rsplitOnce '.' name with
    | some (stem, ext) => if stem = [] then none else some (String.ofList ext)
    | none => none

/-- The extension a format is found by. -/
def lowerExtension (path : String) : Option String := (extension path).map Text.toAsciiLowercase

example : lowerExtension "dir.d/App.LOG" = some "log" ∧ lowerExtension "dir/.jsonl" = none := by
  decide +kernel

/-! ### Dispatch -/

def parseWithConfig (F : Formats) (data : String) (config : Config) (filename : Option String) :
    Except Error Json :=
  match config with
  | .auto =>
      match filename.bind lowerExtension with
      | some "xml" => parseXml F data
      | some "json" => parseJson F data
      | some "jsonl" => parseJsonl F data
      | some "csv" => parseCsvRow F data
      | some "yaml" => parseYaml F data
      | some "yml" => parseYaml F data
      | some "tap" => parseTap F data
      | some "txt" => .ok (parseText data)
      | some "log" => .ok (parseText data)
      | _ => parseJson F data
  | .json => parseJson F data
  | .jsonl => parseJsonl F data
  | .csvRow => parseCsvRow F data
  | .metadata => .error (.report "Metadata parser is not supported for string input")
  | .xml => parseXml F data
  | .yaml => parseYaml F data
  | .tap => parseTap F data
  | .text => .ok (parseText data)
  | .textLine => .ok (parseTextLine data)

end CdvizCollector.Sources.Parsers
