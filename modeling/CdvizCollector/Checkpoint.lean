import CdvizCollector.Lib.Json
import Mathlib.Data.Int.Notation
import Std.Data.String.ToInt

/-!
The checkpoint of a source (`state.rs`), one JSON file.
-/

namespace CdvizCollector.Checkpoint

open Lib

abbrev Timestamp := ℤ

def timestampMin : Timestamp := -377705023201000000000

/-- The text of timestamps, which is read back as it was written. -/
structure TimestampText where
  toString : Timestamp → String
  parse : String → Option Timestamp
  parse_toString : ∀ ts, parse (toString ts) = some ts

/-- `checkpoint.json`, if there is one, whose bytes may not be JSON. -/
inductive File where
  | absent
  | corrupt
  | json (value : Json)

/-- What a read may give of the file: what there is, or an error other than
`NotFound`, which says nothing of it. -/
inductive Reads (file : File) : Option File → Prop
  | found : Reads file (some file)
  | failed : Reads file none

/-- `load_ts_after`, for what the read gave. -/
def loadTsAfter (text : TimestampText) : Option File → Option Timestamp
  | some (.json value) => ((value.get "ts_after").bind Json.asStr).bind text.parse
  | some .absent | some .corrupt => none
  | none => none

def checkpointJson (text : TimestampText) (ts : Timestamp) : File :=
  .json (.obj [("ts_after", .str (text.toString ts))])

/-- What a save may leave of the file: a failed write leaves it as it was, or
part of the new content. -/
inductive SaveTsAfter (text : TimestampText) (ts : Timestamp) (file : File) : File → Prop
  | written : SaveTsAfter text ts file (checkpointJson text ts)
  | failed : SaveTsAfter text ts file file
  | torn : SaveTsAfter text ts file .corrupt

@[simp] theorem loadTsAfter_checkpointJson (text : TimestampText) (ts : Timestamp) :
    loadTsAfter text (checkpointJson text ts) = some ts := by
  simp [loadTsAfter, checkpointJson, Json.get, Json.asStr, text.parse_toString]

/-- A save leaves the old checkpoint, the new one or none. -/
theorem load_saved {text : TimestampText} {ts : Timestamp} {file file' : File}
    (h : SaveTsAfter text ts file file') :
    loadTsAfter text file' = some ts ∨ loadTsAfter text file' = loadTsAfter text file ∨
      loadTsAfter text file' = none := by
  cases h with
  | written => exact .inl (loadTsAfter_checkpointJson text ts)
  | failed => exact .inr (.inl rfl)
  | torn => exact .inr (.inr rfl)

def decimalText : TimestampText where
  toString ts := ts.repr
  parse := String.toInt?
  parse_toString ts := by
    cases ts with
    | ofNat n => exact String.toInt?_eq_some_iff.mpr (.inl ⟨n, Nat.toNat?_repr n, rfl⟩)
    | negSucc n =>
        exact String.toInt?_eq_some_iff.mpr (.inr ⟨_, rfl, n + 1, Nat.toNat?_repr _, rfl⟩)

end CdvizCollector.Checkpoint
