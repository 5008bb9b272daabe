import CdvizCollector.Lib.Json

/-!
The event that flows through the pipeline (`event.rs`).
-/

namespace CdvizCollector

open Lib

/-- A map of strings, a `HashMap<String, String>` listed by key. -/
abbrev StringMap := List (String × String)

structure Event where
  metadata : Json
  headers : StringMap
  body : Json

end CdvizCollector
