import CdvizCollector.Sources.Window

/-!
The time window of an `http_polling` source and the loop that moves it
(`filter.rs` and `run` in `sources/http_polling`).

Of a poll only its outcome is kept, and whether the loop has to wait for a rate
limit is left open. A process may be gone at any point; the checkpoint and the
clock go on.
-/

namespace CdvizCollector.Sources.HttpPolling

open Lib Checkpoint

/-! ### The filter -/

abbrev TimeWindowFilter := TimeWindow

namespace TimeWindowFilter

def new (tsAfter : Timestamp) (tsBeforeLimit : Option Timestamp) (now : Timestamp) :
    TimeWindowFilter :=
  TimeWindow.new tsAfter tsBeforeLimit now

def advance (filter : TimeWindowFilter) (now : Timestamp) : TimeWindowFilter :=
  TimeWindow.next filter now

end TimeWindowFilter

/-- The configuration that the windows of a source depend on. -/
structure WindowConfig where
  tsAfter : Option Timestamp
  tsBeforeLimit : Option Timestamp
  store : Store

def WindowConfig.windows (C : WindowConfig) : Windows :=
  { first := C.tsAfter.getD timestampMin, limit := C.tsBeforeLimit, store := C.store }

/-- The filter of a process that has loaded its checkpoint. -/
def WindowConfig.boot (C : WindowConfig) (read : Option File) (now : Timestamp) :
    TimeWindowFilter :=
  let filter := TimeWindowFilter.new (C.tsAfter.getD timestampMin) C.tsBeforeLimit now
  match C.store.load read with
  | some ts => TimeWindow.setTsAfter filter ts
  | none => filter

theorem boot_eq (C : WindowConfig) (read : Option File) (now : Timestamp) :
    C.boot read now = C.windows.booted read now := by
  unfold WindowConfig.boot Windows.booted
  show _ = TimeWindow.mk ((C.store.load read).getD _) _ _
  cases C.store.load read <;> rfl

/-! ### The loop -/

/-- Where `run` is in its loop. -/
inductive RunPhase where
  | top
  | waiting
  | checking
  | polling
  | saving
  | pausing
  | stopped (reason : StopReason)
deriving DecidableEq, Repr

structure Extractor where
  filter : TimeWindowFilter
  cancelled : Bool
  phase : RunPhase
deriving DecidableEq, Repr

inductive RunStep (C : WindowConfig) : Run Extractor → Run Extractor → Prop
  | tick {s : Run Extractor} (now : Timestamp) (hnow : s.now ≤ now) : RunStep C s { s with now }
  | start {s : Run Extractor} {read : Option File} (hread : Reads s.file read)
      (hgone : s.process = none) :
      RunStep C s { s with
        process := some ⟨C.boot read s.now, false, .top⟩
        history := .opened (C.boot read s.now).tsAfter read.isSome :: s.history }
  | cancel {s : Run Extractor} {e : Extractor} (he : s.process = some e) :
      RunStep C s { s with process := some { e with cancelled := true } }
  -- the process crashes, or ends after its loop
  | gone {s : Run Extractor} : RunStep C s { s with process := none }
  | leave {s : Run Extractor} {e : Extractor} (he : s.process = some e) (hphase : e.phase = .top)
      (hcancelled : e.cancelled = true) :
      RunStep C s { s with process := some { e with phase := .stopped .cancelled } }
  | enter {s : Run Extractor} {e : Extractor} (he : s.process = some e) (hphase : e.phase = .top)
      (hcancelled : e.cancelled = false) :
      RunStep C s { s with process := some { e with phase := .waiting } }
  | waited {s : Run Extractor} {e : Extractor} (he : s.process = some e)
      (hphase : e.phase = .waiting) :
      RunStep C s { s with process := some { e with phase := .checking } }
  | interrupted {s : Run Extractor} {e : Extractor} (he : s.process = some e)
      (hphase : e.phase = .waiting ∨ e.phase = .polling) (hcancelled : e.cancelled = true) :
      RunStep C s { s with process := some { e with phase := .stopped .cancelled } }
  | limit {s : Run Extractor} {e : Extractor} (he : s.process = some e)
      (hphase : e.phase = .checking) (hlimit : e.filter.isAtLimit = true) :
      RunStep C s { s with process := some { e with phase := .stopped .atLimit } }
  | poll {s : Run Extractor} {e : Extractor} (he : s.process = some e)
      (hphase : e.phase = .checking) (hlimit : e.filter.isAtLimit = false) :
      RunStep C s { s with
        process := some { e with phase := .polling }
        history := .processed e.filter.span :: s.history }
  | advance {s : Run Extractor} {e : Extractor} (he : s.process = some e)
      (hphase : e.phase = .polling) :
      RunStep C s { s with
        process := some { e with
          filter := TimeWindowFilter.advance e.filter s.now, phase := .saving }
        history := .advanced e.filter.span :: s.history }
  -- a poll that is held, or that fails
  | hold {s : Run Extractor} {e : Extractor} (he : s.process = some e)
      (hphase : e.phase = .polling) :
      RunStep C s { s with process := some { e with phase := .pausing } }
  | abort {s : Run Extractor} {e : Extractor} (he : s.process = some e)
      (hphase : e.phase = .polling) :
      RunStep C s { s with process := some { e with phase := .stopped .aborted } }
  | save {s : Run Extractor} {e : Extractor} {file : File} (he : s.process = some e)
      (hphase : e.phase = .saving) (hsave : C.store.Save e.filter.tsAfter s.file file) :
      RunStep C s { s with process := some { e with phase := .pausing }, file }
  | resume {s : Run Extractor} {e : Extractor} (he : s.process = some e)
      (hphase : e.phase = .pausing) :
      RunStep C s { s with process := some { e with phase := .top } }

/-- The runs of a source, whatever file it finds and wherever its clock is. -/
def sourceSystem (C : WindowConfig) : System (Run Extractor) where
  init := Run.Fresh
  step := RunStep C

/-- Those from its first start on. -/
def runSystem (C : WindowConfig) : System (Run Extractor) where
  init s := s.Initial C.windows
  step := RunStep C

/-! ### The loop works through windows -/

variable {C : WindowConfig} {s t : Run Extractor}

/-- The filter of a process has the configured limit, which its phase respects. -/
structure Looping (C : WindowConfig) (e : Extractor) : Prop where
  limit : e.filter.tsBeforeLimit = C.tsBeforeLimit
  polling : e.phase = .polling → e.filter.isAtLimit = false
  atLimit : e.phase = .stopped .atLimit → e.filter.isAtLimit = true

theorem looping_step (hs : ∀ e ∈ s.process, Looping C e) (hstep : RunStep C s t) :
    ∀ e ∈ t.process, Looping C e := by
  cases hstep with
  | tick now hnow => exact hs
  | start hread hgone =>
      rintro e ⟨⟩
      exact ⟨congrArg TimeWindow.tsBeforeLimit (boot_eq C _ s.now), nofun, nofun⟩
  | cancel he =>
      rintro e' ⟨⟩
      exact { hs _ he with }
  | gone => rintro e ⟨⟩
  | limit he hphase hlimit =>
      rintro e' ⟨⟩
      exact ⟨(hs _ he).limit, nofun, fun _ => hlimit⟩
  | poll he hphase hlimit =>
      rintro e' ⟨⟩
      exact ⟨(hs _ he).limit, fun _ => hlimit, nofun⟩
  | leave he | enter he | waited he | interrupted he | advance he | hold he | abort he | save he
  | resume he =>
      rintro e' ⟨⟩
      exact ⟨(hs _ he).limit, nofun, nofun⟩

theorem looping_invariant (C : WindowConfig) :
    (sourceSystem C).Invariant (fun s => ∀ e ∈ s.process, Looping C e) where
  init hinit := by
    intro e he
    rw [hinit.gone] at he
    contradiction
  step := looping_step

theorem looping_of_first (C : WindowConfig) :
    (runSystem C).Invariant (fun s => ∀ e ∈ s.process, Looping C e) where
  init hinit := (looping_invariant C).init hinit.toFresh
  step := looping_step

theorem refines_tiling (C : WindowConfig) :
    System.Refines (runSystem C) (Tiling.system C.windows.first C.windows.limit)
      (fun s => ∀ e ∈ s.process, Looping C e) (Run.abs C.windows Extractor.filter) where
  inv := looping_of_first C
  init := abs_initial
  step := by
    intro s t hs hstep
    cases hstep with
    | tick now hnow => exact .inl (abs_tick hnow)
    | start hread hgone => exact .inl (abs_start hread hgone (boot_eq C _ _))
    | gone => exact .inl abs_gone
    | poll he hphase hlimit => exact .inl (abs_processed he rfl)
    | advance he hphase => exact .inl (abs_advanced he (hs _ he).limit rfl)
    | save he hphase hsave => exact abs_save he rfl hsave
    | cancel he | leave he | enter he | waited he | interrupted he | limit he | hold he | abort he
    | resume he => exact .inr (abs_keep he rfl)

/-! ### The limit -/

/-- A source that looks at its limit stops if it has reached it, and polls on if
it has not. -/
structure StopsAtLimit (C : WindowConfig) (s : Run Extractor) : Prop where
  stopped : ∀ e ∈ s.process, e.phase = .stopped .atLimit → C.tsBeforeLimit = some e.filter.tsAfter
  polling : ∀ e ∈ s.process, e.phase = .polling → ∀ lim ∈ C.tsBeforeLimit, e.filter.tsAfter < lim
  checked : ∀ {t : Run Extractor} {e e' : Extractor}, RunStep C s t → s.process = some e →
    e.phase = .checking → t.process = some e' → e'.phase ≠ .checking →
    (e'.phase = .stopped .atLimit ↔ C.tsBeforeLimit = some e.filter.tsAfter)

theorem stopsAtLimit_of_tiles (hs : ∀ e ∈ s.process, Looping C e)
    (h : Tiling.Tiles C.windows.first C.windows.limit (s.abs C.windows Extractor.filter)) :
    StopsAtLimit C s := by
  constructor
  · intro e he hphase
    exact (isAtLimit_iff_limit h he (hs e he).limit).mp ((hs e he).atLimit hphase)
  · intro e he hphase
    exact lt_limit_of_not_isAtLimit h he (hs e he).limit ((hs e he).polling hphase)
  · intro t e e' hstep he hphase he' hmoved
    have hiff : e.filter.isAtLimit = true ↔ C.tsBeforeLimit = some e.filter.tsAfter :=
      isAtLimit_iff_limit h he (hs e he).limit
    rw [← hiff]
    cases hstep with
    | tick now hnow =>
        obtain rfl := Option.some.inj (he.symm.trans he')
        exact absurd hphase hmoved
    | start _ hgone => exact absurd (hgone.symm.trans he) (by simp)
    | cancel hcancel =>
        obtain rfl := Option.some.inj (he.symm.trans hcancel)
        obtain rfl := Option.some.inj he'
        exact absurd hphase hmoved
    | gone => exact absurd he' (by simp)
    | limit hchecking _ hlimit =>
        obtain rfl := Option.some.inj (he.symm.trans hchecking)
        obtain rfl := Option.some.inj he'
        simp [hlimit]
    | poll hchecking _ hlimit =>
        obtain rfl := Option.some.inj (he.symm.trans hchecking)
        obtain rfl := Option.some.inj he'
        simp [hlimit]
    | leave hother hwhere | enter hother hwhere | waited hother hwhere | interrupted hother hwhere
    | advance hother hwhere | hold hother hwhere | abort hother hwhere | save hother hwhere
    | resume hother hwhere =>
        obtain rfl := Option.some.inj (he.symm.trans hother)
        simp [hphase] at hwhere

/-- A process takes up its work at the checkpoint, if it gets to see one. -/
theorem takes_up_at_checkpoint {e : Extractor} (hstep : RunStep C s t) (hgone : s.process = none)
    (he : t.process = some e) :
    e.filter.tsAfter = (C.store.load s.file).getD C.windows.first ∨
      Tiling.Blind t.history ∧ e.filter.tsAfter = C.windows.first := by
  cases hstep with
  | tick now hnow => exact absurd (hgone.symm.trans he) (by simp)
  | @start read hread hgone =>
      obtain rfl := Option.some.inj he
      have htaken : (C.boot read s.now).tsAfter = (C.store.load read).getD C.windows.first :=
        congrArg TimeWindow.tsAfter (boot_eq C read s.now)
      cases hread with
      | found => exact .inl htaken
      | failed =>
          rw [Store.load_failed] at htaken
          exact .inr ⟨rfl, htaken⟩
  | gone => exact absurd he (by simp)
  | cancel hother | leave hother | enter hother | waited hother | interrupted hother
  | limit hother | poll hother | advance hother | hold hother | abort hother | save hother
  | resume hother => exact absurd (hgone.symm.trans hother) (by simp)

/-- What holds of the windows of an `http_polling` source. -/
theorem windows_tile (h : (runSystem C).Reachable s) :
    Tiling.Tiles C.windows.first C.windows.limit (s.abs C.windows Extractor.filter) ∧
      StopsAtLimit C s := by
  have htiles := ((refines_tiling C).transfer (Tiling.sound_invariant _ _) h).tiles
  exact ⟨htiles, stopsAtLimit_of_tiles ((looping_of_first C).holds h) htiles⟩

end CdvizCollector.Sources.HttpPolling
