import CdvizCollector.Event
import CdvizCollector.Lib.Traced
import CdvizCollector.Sources.Opendal.Window

/-!
A scan of an `opendal` source (`resource.rs` and `run_once`).

What the storage answers is an input: the entries of a listing and whether it
breaks off, and for each entry what the calls give that are made for it, any of
which may fail.
-/

namespace CdvizCollector.Sources.Opendal

open Lib Checkpoint

/-! ### Resources -/

inductive EntryMode where
  | file
  | dir
  | unknown
deriving DecidableEq, Repr

/-- What the storage tells of an entry, where a length it does not tell is zero. -/
structure Metadata where
  mode : EntryMode
  lastModified : Option Timestamp
  contentLength : UInt64
deriving DecidableEq, Repr

structure Entry where
  path : String
  metadata : Metadata
deriving DecidableEq, Repr

/-- An entry of a listing, with the answers to the calls its resource may need. -/
structure Listed where
  entry : Entry
  /-- `stat`, called for the time. -/
  statForTime : Option Metadata
  /-- `stat`, called for the length when there is no other answer. -/
  statForLength : Option Metadata
  pathExists : String → Option Bool
  /-- `read`, with what is read taken as a JSON object of strings. -/
  readHeaders : String → Option StringMap

/-- A resource with the root of its storage and its headers. -/
structure Loaded extends Resource where
  root : String
  xHeaders : StringMap

def headersPath (path : String) : Option String :=
  (Text.rsplitOnce '.' path.toList).map fun parts =>
    String.ofList parts.1 ++ ".headers.json"

def loadHeaderJson (listed : Listed) : Option StringMap := do
  let path ← headersPath listed.entry.path
  if ← listed.pathExists path then listed.readHeaders path else none

def fromEntry (root : String) (tryToLoadHeadersJson : Bool) (listed : Listed) : Loaded :=
  let metadata := listed.entry.metadata
  let stats := if metadata.lastModified.isNone then listed.statForTime else none
  let lastModified :=
    if metadata.lastModified.isNone then stats.bind Metadata.lastModified
    else metadata.lastModified
  let contentLength :=
    if metadata.contentLength = 0 then
      ((if stats.isNone then listed.statForLength else stats).map Metadata.contentLength).getD 0
    else metadata.contentLength
  { path := listed.entry.path
    isFile := metadata.mode = .file
    lastModified
    contentLength
    root
    xHeaders := if tryToLoadHeadersJson then (loadHeaderJson listed).getD [] else [] }

/-! ### Scans -/

/-- What `lister_with` and `try_next` give: entries, and an error after them if
the listing fails. -/
structure Listing where
  entries : List Listed
  failed : Bool

structure ScanConfig extends WindowConfig where
  root : String
  tryReadHeadersJson : Bool

inductive ListingError where
  | listing
deriving DecidableEq, Repr

/-- The loop of `run_once`, with its count. The resources it accepts are parsed,
and an error of the parser is only logged. -/
def scanEntries (C : ScanConfig) (filter : Filter) (failed : Bool) :
    ℕ → List Listed → Traced ListingError Loaded ℕ
  | count, [] => if failed then .fail .listing else pure count
  | count, listed :: entries =>
      let resource := fromEntry C.root C.tryReadHeadersJson listed
      if filter.accept resource.toResource then do
        Traced.emit resource
        scanEntries C filter failed (count + 1) entries
      else scanEntries C filter failed count entries

def runOnce (C : ScanConfig) (filter : Filter) (listing : Listing) :
    Traced ListingError Loaded ℕ :=
  scanEntries C filter listing.failed 0 listing.entries

/-- What the entries of a listing are taken for. -/
def Listing.resources (C : ScanConfig) (listing : Listing) : List Loaded :=
  listing.entries.map (fromEntry C.root C.tryReadHeadersJson)

theorem scanEntries_eq (C : ScanConfig) (filter : Filter) (failed : Bool) (count : ℕ)
    (entries : List Listed) :
    scanEntries C filter failed count entries =
      let accepted := (entries.map (fromEntry C.root C.tryReadHeadersJson)).filter
        fun resource => filter.accept resource.toResource
      ⟨accepted, if failed then .error .listing else .ok (count + accepted.length)⟩ := by
  induction entries generalizing count with
  | nil =>
      unfold scanEntries
      cases failed <;> rfl
  | cons listed entries ih =>
      unfold scanEntries
      cases haccept : filter.accept (fromEntry C.root C.tryReadHeadersJson listed).toResource with
      | false => simp [haccept, ih]
      | true =>
          simp only [if_true, Traced.emit_bind, ih, List.map_cons, List.filter_cons, haccept,
            List.length_cons]
          congr 3
          omega

/-- A scan takes what the filter accepts, and says how much if the listing does
not break off. -/
theorem runOnce_eq (C : ScanConfig) (filter : Filter) (listing : Listing) :
    runOnce C filter listing =
      let accepted := (listing.resources C).filter fun resource =>
        filter.accept resource.toResource
      ⟨accepted, if listing.failed then .error .listing else .ok accepted.length⟩ := by
  show scanEntries C filter listing.failed 0 listing.entries = _
  rw [scanEntries_eq]
  simp only [Nat.zero_add]
  rfl

end CdvizCollector.Sources.Opendal
