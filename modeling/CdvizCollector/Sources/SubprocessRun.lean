import CdvizCollector.Lib.JsonTree
import CdvizCollector.Sources.Subprocess
import CdvizCollector.Transformers.Pipe

/-!
A run of the subprocess source (`SubprocessExtractor::run`).

The source offers its pipe an event when the process starts and another one, with the
result files, when it has ended. Both carry the metadata of the configuration with what
is known of the run. The exit code is stored for the caller at the very end.
-/

namespace CdvizCollector.Sources.Subprocess

open Lib Transformers

structure Config where
  command : List String
  dataGlobs : List (List Char)
  noData : Bool
  parser : Parsers.Config
  metadata : Json
  failOnCollectorError : Bool

/-! ### Metadata -/

/-- `metadata["run"][key] = value`, where it does not panic. -/
def setRunField (key : String) (value metadata : Json) : Option Json :=
  metadata.indexMut "run" (Json.indexMut key fun _ => some value)

/-- `metadata["run"][key]`, read. -/
def runField (key : String) (metadata : Json) : Option Json :=
  (metadata.get "run").bind (Json.get key)

def Config.startedMetadata (X : Config) (startedAt : String) : Option Json :=
  (setRunField "status" (.str "started") X.metadata).bind
    (setRunField "started_at" (.str startedAt))

def Config.finishedMetadata (X : Config) (exitCode : Int32) (startedAt finishedAt : String) :
    Option Json :=
  (setRunField "status" (.str "finished") X.metadata).bind fun metadata =>
    (setRunField "exit_code" (.num (.ofI64 exitCode.toInt64)) metadata).bind fun metadata =>
      (setRunField "started_at" (.str startedAt) metadata).bind
        (setRunField "finished_at" (.str finishedAt))

section Metadata

variable {key other : String} {value metadata metadata' : Json}

/-- What is set is set in the `run` there is, or in a new one. -/
theorem exists_run_of_setRunField (h : setRunField key value metadata = some metadata') :
    ∃ run, metadata'.get "run" = some run ∧
      Json.indexMut key (fun _ => some value) ((metadata.get "run").getD .null) = some run := by
  have hrun := Json.get_indexMut_self h
  have hsome : (metadata'.get "run").isSome := by
    rw [hrun]
    exact ((Json.indexMut_isSome_iff _ _ _).mp (Option.isSome_of_eq_some h)).2
  obtain ⟨run, hget⟩ := Option.isSome_iff_exists.mp hsome
  exact ⟨run, hget, hrun.symm.trans hget⟩

theorem runField_setRunField_self (h : setRunField key value metadata = some metadata') :
    runField key metadata' = some value := by
  obtain ⟨run, hget, hrun⟩ := exists_run_of_setRunField h
  rw [runField, hget, Option.bind_some]
  exact Json.get_indexMut_self hrun

theorem runField_setRunField_of_ne (hne : other ≠ key)
    (h : setRunField key value metadata = some metadata') :
    runField other metadata' = runField other metadata := by
  obtain ⟨run, hget, hrun⟩ := exists_run_of_setRunField h
  rw [runField, runField, hget, Option.bind_some, Json.get_indexMut_of_ne hne hrun]
  cases metadata.get "run" <;> rfl

theorem get_setRunField_of_ne (hne : other ≠ "run")
    (h : setRunField key value metadata = some metadata') :
    metadata'.get other = metadata.get other :=
  Json.get_indexMut_of_ne hne h

end Metadata

/-- The metadata have these fields of the run, and everything else as configured. -/
structure Carries (configured : Json) (fields : List (String × Json)) (metadata : Json) :
    Prop where
  run : ∀ key, runField key metadata = (fields.lookup key).or (runField key configured)
  rest : ∀ key, key ≠ "run" → metadata.get key = configured.get key

theorem Carries.refl (configured : Json) : Carries configured [] configured :=
  ⟨fun _ => rfl, fun _ _ => rfl⟩

theorem Carries.set {configured metadata metadata' value : Json} {key : String}
    {fields : List (String × Json)} (h : Carries configured fields metadata)
    (hset : setRunField key value metadata = some metadata') :
    Carries configured ((key, value) :: fields) metadata' where
  run other := by
    rw [List.lookup_cons]
    by_cases hkey : other = key
    · subst hkey
      rw [beq_self_eq_true]
      exact runField_setRunField_self hset
    · rw [beq_eq_false_iff_ne.mpr hkey, runField_setRunField_of_ne hkey hset]
      exact h.run other
  rest other hne := (get_setRunField_of_ne hne hset).trans (h.rest other hne)

theorem Config.startedMetadata_carries {X : Config} {startedAt : String} {metadata : Json}
    (h : X.startedMetadata startedAt = some metadata) :
    Carries X.metadata [("started_at", .str startedAt), ("status", .str "started")] metadata := by
  obtain ⟨_, hstatus, hstarted⟩ := Option.bind_eq_some_iff.mp h
  exact ((Carries.refl X.metadata).set hstatus).set hstarted

theorem Config.finishedMetadata_carries {X : Config} {exitCode : Int32}
    {startedAt finishedAt : String} {metadata : Json}
    (h : X.finishedMetadata exitCode startedAt finishedAt = some metadata) :
    Carries X.metadata [("finished_at", .str finishedAt), ("started_at", .str startedAt),
      ("exit_code", .num (.ofI64 exitCode.toInt64)), ("status", .str "finished")] metadata := by
  obtain ⟨_, hstatus, h⟩ := Option.bind_eq_some_iff.mp h
  obtain ⟨_, hcode, h⟩ := Option.bind_eq_some_iff.mp h
  obtain ⟨_, hstarted, hfinished⟩ := Option.bind_eq_some_iff.mp h
  exact ((((Carries.refl X.metadata).set hstatus).set hcode).set hstarted).set hfinished

/-- The fields of a run can be set if the metadata and its `run` are null or objects, or
there is no `run`. -/
def Runnable (metadata : Json) : Prop :=
  metadata.isIndexable ∧ ((metadata.get "run").getD .null).isIndexable

theorem setRunField_isSome_iff {key : String} {value metadata : Json} :
    (setRunField key value metadata).isSome ↔ Runnable metadata := by
  rw [setRunField, Json.indexMut_isSome_iff, Json.indexMut_isSome_iff, Runnable]
  exact and_congr_right fun _ => and_iff_left rfl

theorem runnable_of_setRunField {key : String} {value metadata metadata' : Json}
    (h : setRunField key value metadata = some metadata') : Runnable metadata' := by
  refine ⟨Json.isIndexable_indexMut h, ?_⟩
  obtain ⟨run, hget, hrun⟩ := exists_run_of_setRunField h
  rw [hget, Option.getD_some]
  exact Json.isIndexable_indexMut hrun

theorem bind_isSome_iff {key : String} {value metadata : Json} {f : Json → Option Json}
    (hf : ∀ metadata', Runnable metadata' → (f metadata').isSome) :
    ((setRunField key value metadata).bind f).isSome ↔ Runnable metadata := by
  rw [← show (setRunField key value metadata).isSome ↔ _ from setRunField_isSome_iff]
  cases h : setRunField key value metadata with
  | none => exact Iff.rfl
  | some metadata' => exact iff_of_true (hf metadata' (runnable_of_setRunField h)) rfl

/-- The metadata of both events can be made, or those of none. -/
theorem Config.startedMetadata_isSome_iff (X : Config) (startedAt : String) :
    (X.startedMetadata startedAt).isSome ↔ Runnable X.metadata :=
  bind_isSome_iff fun _ h => setRunField_isSome_iff.mpr h

theorem Config.finishedMetadata_isSome_iff (X : Config) (exitCode : Int32)
    (startedAt finishedAt : String) :
    (X.finishedMetadata exitCode startedAt finishedAt).isSome ↔ Runnable X.metadata :=
  bind_isSome_iff fun _ h => (bind_isSome_iff fun _ h => (bind_isSome_iff fun _ h =>
    setRunField_isSome_iff.mpr h).mpr h).mpr h

/-! ### The run -/

/-- How the wait for the process ends: with its status, where a signal leaves no code,
with an error, or by the cancellation, after which the process is killed. -/
inductive Wait where
  | exited (code : Option Int32)
  | failed
  | cancelled
deriving DecidableEq, Repr

def Wait.exitCode : Wait → Int32
  | .exited code => code.getD 1
  | .failed => 1
  | .cancelled => 130

/-- What the task of a source returns, if it does not panic. -/
inductive Ended where
  | returned (result : Except Error Unit)
  | panicked

inductive Stage where
  | begins
  | offersStarted (startedAt : String)
  | spawns (startedAt : String)
  | waits (startedAt : String)
  | collects (startedAt : String)
  | offersFinished
  | ended (e : Ended)

/-- The source, with what it has offered its pipe, how the wait has ended, and the cell
for the exit code. -/
structure Run where
  stage : Stage
  offered : List Event
  waited : Option Wait
  exitCodeOut : Int32

def Run.new : Run := { stage := .begins, offered := [], waited := none, exitCodeOut := 0 }

def startedEvent (metadata : Json) : Event := { metadata, headers := [], body := .obj [] }

def finishedEvent (X : Config) (W : World) (G : Globset) (F : Parsers.Formats) (metadata : Json) :
    Event :=
  { metadata, headers := [], body := finishedBody W G F X.parser X.noData X.dataGlobs }

/-- After the answer to the started event. -/
def Config.answerStarted (X : Config) (startedAt : String) : Outcome → Stage
  | .ok => .spawns startedAt
  | .err e =>
      if X.failOnCollectorError then .ended (.returned (.error e)) else .spawns startedAt
  | .panic => .ended .panicked

/-- The steps of `run`. The clock, the answers of the pipe, the process and the files there
are come from outside. -/
inductive Run.Step (X : Config) (G : Globset) (F : Parsers.Formats) (s : Run) : Run → Prop
  | noCommand (hstage : s.stage = .begins) (hcommand : X.command = []) :
      Step X G F s
        { s with
          stage := .ended (.returned
            (.error (.report "subprocess source requires a non-empty 'command'"))) }
  | unrunnable (now : String) (hstage : s.stage = .begins) (hcommand : X.command ≠ [])
      (hmetadata : X.startedMetadata now = none) :
      Step X G F s { s with stage := .ended .panicked }
  | offerStarted (now : String) (metadata : Json) (hstage : s.stage = .begins)
      (hcommand : X.command ≠ []) (hmetadata : X.startedMetadata now = some metadata) :
      Step X G F s
        { s with
          stage := .offersStarted now
          offered := s.offered ++ [startedEvent metadata] }
  | answerStarted (startedAt : String) (answer : Outcome)
      (hstage : s.stage = .offersStarted startedAt) :
      Step X G F s { s with stage := X.answerStarted startedAt answer }
  | notSpawned (startedAt cause : String) (hstage : s.stage = .spawns startedAt) :
      Step X G F s
        { s with
          stage := .ended (.returned
            (.error (.report ("failed to spawn child process: " ++ cause)))) }
  | spawned (startedAt : String) (hstage : s.stage = .spawns startedAt) :
      Step X G F s { s with stage := .waits startedAt }
  | waited (startedAt : String) (wait : Wait) (hstage : s.stage = .waits startedAt) :
      Step X G F s { s with stage := .collects startedAt, waited := some wait }
  | offerFinished (startedAt now : String) (wait : Wait) (W : World) (metadata : Json)
      (hstage : s.stage = .collects startedAt) (hwaited : s.waited = some wait)
      (hmetadata : X.finishedMetadata wait.exitCode startedAt now = some metadata) :
      Step X G F s
        { s with
          stage := .offersFinished
          offered := s.offered ++ [finishedEvent X W G F metadata] }
  | unfinishable (startedAt now : String) (wait : Wait)
      (hstage : s.stage = .collects startedAt) (hwaited : s.waited = some wait)
      (hmetadata : X.finishedMetadata wait.exitCode startedAt now = none) :
      Step X G F s { s with stage := .ended .panicked }
  | answerFinished (wait : Wait) (answer : Outcome) (hstage : s.stage = .offersFinished)
      (hwaited : s.waited = some wait) (hanswer : answer ≠ .panic) :
      Step X G F s { s with stage := .ended (.returned (.ok ())), exitCodeOut := wait.exitCode }
  | panicFinished (hstage : s.stage = .offersFinished) :
      Step X G F s { s with stage := .ended .panicked }

/-! ### What holds in each stage -/

/-- The event that has been offered at the start. -/
structure Started (X : Config) (startedAt : String) (event : Event) : Prop where
  carries : Carries X.metadata [("started_at", .str startedAt), ("status", .str "started")]
    event.metadata
  body : event.body = .obj []

/-- The event that has been offered at the end. -/
structure Finished (X : Config) (G : Globset) (F : Parsers.Formats) (startedAt : String)
    (wait : Wait) (event : Event) : Prop where
  carries : ∃ finishedAt, Carries X.metadata [("finished_at", .str finishedAt),
    ("started_at", .str startedAt), ("exit_code", .num (.ofI64 wait.exitCode.toInt64)),
    ("status", .str "finished")] event.metadata
  body : ∃ W, event.body = finishedBody W G F X.parser X.noData X.dataGlobs

/-- The two events of a run, of one start. -/
def Reported (X : Config) (G : Globset) (F : Parsers.Formats) (wait : Wait)
    (offered : List Event) : Prop :=
  ∃ startedAt started finished, offered = [started, finished] ∧ Started X startedAt started ∧
    Finished X G F startedAt wait finished

/-- What is known of a run by its stage. -/
def Run.Sound (X : Config) (G : Globset) (F : Parsers.Formats) (s : Run) : Prop :=
  match s.stage with
  | .begins => s.offered = [] ∧ s.waited = none ∧ s.exitCodeOut = 0
  | .offersStarted startedAt | .spawns startedAt | .waits startedAt =>
      (∃ event, s.offered = [event] ∧ Started X startedAt event) ∧ Runnable X.metadata ∧
        s.waited = none ∧ s.exitCodeOut = 0
  | .collects startedAt =>
      (∃ event, s.offered = [event] ∧ Started X startedAt event) ∧ Runnable X.metadata ∧
        s.waited.isSome ∧ s.exitCodeOut = 0
  | .offersFinished =>
      (∃ wait, s.waited = some wait ∧ Reported X G F wait s.offered) ∧ Runnable X.metadata ∧
        s.exitCodeOut = 0
  | .ended (.returned (.ok ())) =>
      ∃ wait, s.waited = some wait ∧ Reported X G F wait s.offered ∧
        s.exitCodeOut = wait.exitCode
  | .ended (.returned (.error _)) => s.exitCodeOut = 0
  | .ended .panicked => s.exitCodeOut = 0 ∧ (s.offered = [] ↔ ¬Runnable X.metadata)

theorem Run.sound_new (X : Config) (G : Globset) (F : Parsers.Formats) : Run.new.Sound X G F :=
  ⟨rfl, rfl, rfl⟩

theorem Reported.ne_nil {X : Config} {G : Globset} {F : Parsers.Formats} {wait : Wait}
    {offered : List Event} (h : Reported X G F wait offered) : offered ≠ [] := by
  obtain ⟨_, started, finished, rfl, -⟩ := h
  exact List.cons_ne_nil _ _

theorem Run.Sound.step {X : Config} {G : Globset} {F : Parsers.Formats} {s t : Run}
    (h : s.Sound X G F) (hstep : Run.Step X G F s t) : t.Sound X G F := by
  unfold Run.Sound at h
  cases hstep with
  | noCommand hstage hcommand =>
      rw [hstage] at h
      exact h.2.2
  | unrunnable now hstage hcommand hmetadata =>
      rw [hstage] at h
      refine ⟨h.2.2, iff_of_true h.1 ?_⟩
      rw [← X.startedMetadata_isSome_iff now, hmetadata]
      exact Bool.false_ne_true
  | offerStarted now metadata hstage hcommand hmetadata =>
      rw [hstage] at h
      obtain ⟨hoffered, hwaited, hcode⟩ := h
      refine ⟨⟨startedEvent metadata, ?_, ⟨X.startedMetadata_carries hmetadata, rfl⟩⟩, ?_,
        hwaited, hcode⟩
      · rw [hoffered, List.nil_append]
      · exact (X.startedMetadata_isSome_iff now).mp (Option.isSome_of_eq_some hmetadata)
  | answerStarted startedAt answer hstage =>
      rw [hstage] at h
      cases answer with
      | ok => exact h
      | err e =>
          by_cases hfail : X.failOnCollectorError = true
          · have hended : X.answerStarted startedAt (.err e) = .ended (.returned (.error e)) :=
              if_pos hfail
            rw [hended]
            exact h.2.2.2
          · have hspawns : X.answerStarted startedAt (.err e) = .spawns startedAt := if_neg hfail
            rw [hspawns]
            exact h
      | panic =>
          obtain ⟨⟨event, hoffered, -⟩, hrunnable, -, hcode⟩ := h
          refine ⟨hcode, iff_of_false ?_ (not_not_intro hrunnable)⟩
          rw [hoffered]
          exact List.cons_ne_nil _ _
  | notSpawned startedAt cause hstage =>
      rw [hstage] at h
      exact h.2.2.2
  | spawned startedAt hstage =>
      rw [hstage] at h
      exact h
  | waited startedAt wait hstage =>
      rw [hstage] at h
      exact ⟨h.1, h.2.1, rfl, h.2.2.2⟩
  | offerFinished startedAt now wait W metadata hstage hwaited hmetadata =>
      rw [hstage] at h
      obtain ⟨⟨started, hoffered, hstarted⟩, hrunnable, -, hcode⟩ := h
      refine ⟨⟨wait, hwaited, startedAt, started, finishedEvent X W G F metadata, ?_, hstarted,
        ⟨⟨now, X.finishedMetadata_carries hmetadata⟩, ⟨W, rfl⟩⟩⟩, hrunnable, hcode⟩
      rw [hoffered, List.singleton_append]
  | unfinishable startedAt now wait hstage hwaited hmetadata =>
      -- the same fields could be set for the started event
      rw [hstage] at h
      have hsome := (X.finishedMetadata_isSome_iff wait.exitCode startedAt now).mpr h.2.1
      rw [hmetadata] at hsome
      contradiction
  | answerFinished wait answer hstage hwaited hanswer =>
      rw [hstage] at h
      obtain ⟨⟨wait', hwaited', hreported⟩, -⟩ := h
      obtain rfl := Option.some.inj (hwaited.symm.trans hwaited')
      exact ⟨wait, hwaited, hreported, rfl⟩
  | panicFinished hstage =>
      rw [hstage] at h
      obtain ⟨⟨wait, -, hreported⟩, hrunnable, hcode⟩ := h
      exact ⟨hcode, iff_of_false hreported.ne_nil (not_not_intro hrunnable)⟩

end CdvizCollector.Sources.Subprocess
