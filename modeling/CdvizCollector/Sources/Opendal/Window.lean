import CdvizCollector.Sources.Window

/-!
The time window of an `opendal` source and the loop that moves it (`filter.rs`
and `run` in `sources/opendal`).

A scan is not interrupted, and its window is left only after the pause that
follows it. Of a scan only whether it was complete is kept.
-/

namespace CdvizCollector.Sources.Opendal

open Lib Checkpoint

/-! ### The filter -/

/-- What `accept` asks of a resource. -/
structure Resource where
  path : String
  isFile : Bool
  lastModified : Option Timestamp
  contentLength : UInt64
deriving DecidableEq, Repr

/-- Two sets of globs, each by the paths it matches. -/
structure FilePatternMatcher where
  included : Option (String → Bool)
  excluded : Option (String → Bool)

def FilePatternMatcher.accept (matcher : FilePatternMatcher) (path : String) : Bool :=
  matcher.included.all (fun globset => globset path) &&
    matcher.excluded.all fun globset => !globset path

structure Filter extends TimeWindow where
  pathPatterns : FilePatternMatcher

namespace Filter

def fromPatterns (pathPatterns : FilePatternMatcher) (tsBeforeLimit : Option Timestamp)
    (now : Timestamp) : Filter :=
  { TimeWindow.new timestampMin tsBeforeLimit now with pathPatterns }

def accept (filter : Filter) (resource : Resource) : Bool :=
  if resource.isFile then
    match resource.lastModified with
    | some last =>
        filter.tsAfter < last && last ≤ filter.tsBefore && 0 < resource.contentLength &&
          filter.pathPatterns.accept resource.path
    | none => false
  else false

def jumpToNextTsWindow (filter : Filter) (now : Timestamp) : Filter :=
  { filter with toTimeWindow := filter.toTimeWindow.next now }

/-- A scan takes the files of its window that match and are not empty. -/
theorem accept_iff (filter : Filter) (resource : Resource) :
    filter.accept resource = true ↔ resource.isFile = true ∧ 0 < resource.contentLength ∧
      filter.pathPatterns.accept resource.path = true ∧
      ∃ last, resource.lastModified = some last ∧ filter.span.Contains last := by
  unfold accept
  cases resource.isFile with
  | false => simp
  | true =>
      cases resource.lastModified with
      | none => simp
      | some last =>
          simp only [if_true, Bool.and_eq_true, decide_eq_true_eq, Option.some.injEq,
            exists_eq_left', Tiling.Window.Contains, TimeWindow.span, true_and]
          tauto

end Filter

/-- The configuration that the windows of a source depend on. -/
structure WindowConfig where
  pathPatterns : FilePatternMatcher
  tsBeforeLimit : Option Timestamp
  store : Store

def WindowConfig.windows (C : WindowConfig) : Windows :=
  { first := timestampMin, limit := C.tsBeforeLimit, store := C.store }

/-- The filter of a process that has loaded its checkpoint. -/
def WindowConfig.boot (C : WindowConfig) (read : Option File) (now : Timestamp) : Filter :=
  let filter := Filter.fromPatterns C.pathPatterns C.tsBeforeLimit now
  match C.store.load read with
  | some ts => { filter with toTimeWindow := filter.toTimeWindow.setTsAfter ts }
  | none => filter

theorem boot_eq (C : WindowConfig) (read : Option File) (now : Timestamp) :
    (C.boot read now).toTimeWindow = C.windows.booted read now := by
  unfold WindowConfig.boot Windows.booted
  show _ = TimeWindow.mk ((C.store.load read).getD _) _ _
  cases C.store.load read <;> rfl

/-! ### The loop -/

/-- Where `run` is in its loop. -/
inductive RunPhase where
  | top
  | scanning
  | pausing (scanned : Bool)
  | saving
  | stopped (reason : StopReason)
deriving DecidableEq, Repr

structure Extractor where
  filter : Filter
  cancelled : Bool
  phase : RunPhase

def Extractor.window (e : Extractor) : TimeWindow := e.filter.toTimeWindow

inductive RunStep (C : WindowConfig) : Run Extractor → Run Extractor → Prop
  | tick {s : Run Extractor} (now : Timestamp) (hnow : s.now ≤ now) :
      RunStep C s { s with now }
  | start {s : Run Extractor} {read : Option File} (hread : Reads s.file read)
      (hgone : s.process = none) :
      RunStep C s { s with
        process := some ⟨C.boot read s.now, false, .top⟩
        history := .opened (C.boot read s.now).tsAfter read.isSome :: s.history }
  | cancel {s : Run Extractor} {e : Extractor} (he : s.process = some e) :
      RunStep C s { s with process := some { e with cancelled := true } }
  -- the process crashes, or ends after its loop
  | gone {s : Run Extractor} : RunStep C s { s with process := none }
  | leave {s : Run Extractor} {e : Extractor} (he : s.process = some e) (hphase : e.phase = .top)
      (hcancelled : e.cancelled = true) :
      RunStep C s { s with process := some { e with phase := .stopped .cancelled } }
  | limit {s : Run Extractor} {e : Extractor} (he : s.process = some e) (hphase : e.phase = .top)
      (hcancelled : e.cancelled = false) (hlimit : e.filter.isAtLimit = true) :
      RunStep C s { s with process := some { e with phase := .stopped .atLimit } }
  | scan {s : Run Extractor} {e : Extractor} (he : s.process = some e) (hphase : e.phase = .top)
      (hcancelled : e.cancelled = false) (hlimit : e.filter.isAtLimit = false) :
      RunStep C s { s with
        process := some { e with phase := .scanning }
        history := .processed e.window.span :: s.history }
  | scanned {s : Run Extractor} {e : Extractor} (scanned : Bool) (he : s.process = some e)
      (hphase : e.phase = .scanning) :
      RunStep C s { s with process := some { e with phase := .pausing scanned } }
  -- after a failed listing the same window is scanned again
  | retry {s : Run Extractor} {e : Extractor} (he : s.process = some e)
      (hphase : e.phase = .pausing false) :
      RunStep C s { s with process := some { e with phase := .top } }
  | jump {s : Run Extractor} {e : Extractor} (he : s.process = some e)
      (hphase : e.phase = .pausing true) :
      RunStep C s { s with
        process := some { e with
          filter := e.filter.jumpToNextTsWindow s.now, phase := .saving }
        history := .advanced e.window.span :: s.history }
  | save {s : Run Extractor} {e : Extractor} {file : File} (he : s.process = some e)
      (hphase : e.phase = .saving) (hsave : C.store.Save e.window.tsAfter s.file file) :
      RunStep C s { s with process := some { e with phase := .top }, file }

/-- The runs of a source from its first start on. -/
def runSystem (C : WindowConfig) : System (Run Extractor) where
  init s := s.Initial C.windows
  step := RunStep C

/-! ### The loop works through windows -/

variable {C : WindowConfig} {s t : Run Extractor}

/-- The filter of a process has the configured limit, which its phase respects. -/
structure Looping (C : WindowConfig) (e : Extractor) : Prop where
  limit : e.filter.tsBeforeLimit = C.tsBeforeLimit
  scanning : e.phase = .scanning → e.filter.isAtLimit = false
  atLimit : e.phase = .stopped .atLimit → e.filter.isAtLimit = true

theorem looping_step (hs : ∀ e ∈ s.process, Looping C e) (hstep : RunStep C s t) :
    ∀ e ∈ t.process, Looping C e := by
  cases hstep with
  | tick now hnow => exact hs
  | start hread hgone =>
      rintro e ⟨⟩
      exact ⟨congrArg TimeWindow.tsBeforeLimit (boot_eq C _ s.now), nofun, nofun⟩
  | cancel he =>
      rintro e' ⟨⟩
      exact { hs _ he with }
  | gone => rintro e ⟨⟩
  | limit he hphase hcancelled hlimit =>
      rintro e' ⟨⟩
      exact ⟨(hs _ he).limit, nofun, fun _ => hlimit⟩
  | scan he hphase hcancelled hlimit =>
      rintro e' ⟨⟩
      exact ⟨(hs _ he).limit, fun _ => hlimit, nofun⟩
  | scanned scanned he =>
      rintro e' ⟨⟩
      exact ⟨(hs _ he).limit, nofun, nofun⟩
  | leave he | retry he | jump he | save he =>
      rintro e' ⟨⟩
      exact ⟨(hs _ he).limit, nofun, nofun⟩

theorem looping_invariant (C : WindowConfig) :
    (runSystem C).Invariant (fun s => ∀ e ∈ s.process, Looping C e) where
  init hinit := by
    intro e he
    rw [hinit.gone] at he
    contradiction
  step := looping_step

theorem refines_tiling (C : WindowConfig) :
    System.Refines (runSystem C) (Tiling.system C.windows.first C.windows.limit)
      (fun s => ∀ e ∈ s.process, Looping C e) (Run.abs C.windows Extractor.window) where
  inv := looping_invariant C
  init := abs_initial
  step := by
    intro s t hs hstep
    cases hstep with
    | tick now hnow => exact .inl (abs_tick hnow)
    | start hread hgone => exact .inl (abs_start hread hgone (boot_eq C _ _))
    | gone => exact .inl abs_gone
    | scan he hphase hcancelled hlimit => exact .inl (abs_processed he rfl)
    | jump he hphase => exact .inl (abs_advanced he (hs _ he).limit rfl)
    | save he hphase hsave => exact abs_save he rfl hsave
    | scanned scanned he => exact .inr (abs_keep he rfl)
    | cancel he | leave he | limit he | retry he => exact .inr (abs_keep he rfl)

/-! ### The limit -/

/-- A source that looks at its limit stops if it has reached it, and scans on if
it has not. -/
structure StopsAtLimit (C : WindowConfig) (s : Run Extractor) :
    Prop where
  stopped : ∀ e ∈ s.process, e.phase = .stopped .atLimit → C.tsBeforeLimit = some e.filter.tsAfter
  scanning : ∀ e ∈ s.process, e.phase = .scanning → ∀ lim ∈ C.tsBeforeLimit, e.filter.tsAfter < lim
  checked : ∀ {t : Run Extractor} {e e' : Extractor}, RunStep C s t →
    s.process = some e → e.phase = .top → e.cancelled = false → t.process = some e' →
    e'.phase ≠ .top → (e'.phase = .stopped .atLimit ↔ C.tsBeforeLimit = some e.filter.tsAfter)

theorem stopsAtLimit_of_tiles (hs : ∀ e ∈ s.process, Looping C e)
    (h : Tiling.Tiles C.windows.first C.windows.limit (s.abs C.windows Extractor.window)) :
    StopsAtLimit C s := by
  constructor
  · intro e he hphase
    exact (isAtLimit_iff_limit h he (hs e he).limit).mp ((hs e he).atLimit hphase)
  · intro e he hphase
    exact lt_limit_of_not_isAtLimit h he (hs e he).limit ((hs e he).scanning hphase)
  · intro t e e' hstep he hphase hcancelled he' hmoved
    have hiff : e.filter.isAtLimit = true ↔ C.tsBeforeLimit = some e.filter.tsAfter :=
      isAtLimit_iff_limit h he (hs e he).limit
    rw [← hiff]
    cases hstep with
    | tick now hnow =>
        obtain rfl := Option.some.inj (he.symm.trans he')
        exact absurd hphase hmoved
    | start _ hgone => exact absurd (hgone.symm.trans he) (by simp)
    | cancel hcancel =>
        obtain rfl := Option.some.inj (he.symm.trans hcancel)
        obtain rfl := Option.some.inj he'
        exact absurd hphase hmoved
    | gone => exact absurd he' (by simp)
    | leave hleave _ hflag =>
        obtain rfl := Option.some.inj (he.symm.trans hleave)
        simp [hcancelled] at hflag
    | limit hchecking _ _ hlimit =>
        obtain rfl := Option.some.inj (he.symm.trans hchecking)
        obtain rfl := Option.some.inj he'
        simp [hlimit]
    | scan hchecking _ _ hlimit =>
        obtain rfl := Option.some.inj (he.symm.trans hchecking)
        obtain rfl := Option.some.inj he'
        simp [hlimit]
    | scanned scanned hother hwhere =>
        obtain rfl := Option.some.inj (he.symm.trans hother)
        simp [hphase] at hwhere
    | retry hother hwhere | jump hother hwhere | save hother hwhere =>
        obtain rfl := Option.some.inj (he.symm.trans hother)
        simp [hphase] at hwhere

/-- A process takes up its work at the checkpoint, if it gets to see one. -/
theorem takes_up_at_checkpoint {e : Extractor} (hstep : RunStep C s t) (hgone : s.process = none)
    (he : t.process = some e) :
    e.filter.tsAfter = (C.store.load s.file).getD C.windows.first ∨
      Tiling.Blind t.history ∧ e.filter.tsAfter = C.windows.first := by
  cases hstep with
  | tick now hnow => exact absurd (hgone.symm.trans he) (by simp)
  | @start read hread hgone =>
      obtain rfl := Option.some.inj he
      have htaken : (C.boot read s.now).tsAfter = (C.store.load read).getD C.windows.first :=
        congrArg TimeWindow.tsAfter (boot_eq C read s.now)
      cases hread with
      | found => exact .inl htaken
      | failed =>
          rw [Store.load_failed] at htaken
          exact .inr ⟨rfl, htaken⟩
  | gone => exact absurd he (by simp)
  | scanned scanned hother => exact absurd (hgone.symm.trans hother) (by simp)
  | cancel hother | leave hother | limit hother | scan hother | retry hother | jump hother
  | save hother => exact absurd (hgone.symm.trans hother) (by simp)

/-- What holds of the windows of an `opendal` source. -/
theorem windows_tile (h : (runSystem C).Reachable s) :
    Tiling.Tiles C.windows.first C.windows.limit (s.abs C.windows Extractor.window) ∧
      StopsAtLimit C s := by
  have htiles := ((refines_tiling C).transfer (Tiling.sound_invariant _ _) h).tiles
  exact ⟨htiles, stopsAtLimit_of_tiles ((looping_invariant C).holds h) htiles⟩

end CdvizCollector.Sources.Opendal
