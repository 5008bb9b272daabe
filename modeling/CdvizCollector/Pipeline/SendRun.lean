import CdvizCollector.Pipeline.Run
import CdvizCollector.Sources.SubprocessRun

/-!
`send --run`: a process that is run by a source of the pipeline (`send_run` in
`tools/send.rs`).

The pipeline is run to its end, and the answer is then read off the cell the source
stores the exit code in. The cell holds zero before, which stands for success; so the
answer rests on the join of all tasks before the cell is read.
-/

namespace CdvizCollector.Pipeline

open Lib Transformers Sources

variable {μ σ : Type} {m n : ℕ}

/-- The pipeline, and the run of the source that it has as its source `i`. -/
structure SendRun (μ σ : Type) (m n : ℕ) where
  run : Subprocess.Run
  pipeline : State μ σ m n

/-- How the task of a source is left when it ends. -/
def phaseOf : Subprocess.Ended → SourcePhase
  | .returned result => .exited result
  | .panicked => .panicked

/-- The source goes on by itself, and its task ends with it; what it enqueues and all
else is a step of the pipeline. -/
inductive SendRun.Step (S : Fin n → Sink μ σ) (buffer : ℕ) (i : Fin m) (X : Subprocess.Config)
    (G : Subprocess.Globset) (F : Parsers.Formats) (s : SendRun μ σ m n) :
    SendRun μ σ m n → Prop
  | goesOn (run : Subprocess.Run) (hstep : Subprocess.Run.Step X G F s.run run)
      (hruns : ∀ e, run.stage ≠ .ended e) :
      Step S buffer i X G F s { s with run }
  | ends (run : Subprocess.Run) (e : Subprocess.Ended)
      (hstep : Subprocess.Run.Step X G F s.run run) (hends : run.stage = .ended e) :
      Step S buffer i X G F s
        { run
          pipeline :=
            { s.pipeline with sources := Function.update s.pipeline.sources i (phaseOf e) } }
  | pipeline (p : State μ σ m n) (hstep : Pipeline.Step S buffer s.pipeline p)
      (hsource : p.sources i = s.pipeline.sources i) :
      Step S buffer i X G F s { s with pipeline := p }

def sendRun (S : Fin n → Sink μ σ) (buffer : ℕ) (sinks : Fin n → σ) (i : Fin m)
    (X : Subprocess.Config) (G : Subprocess.Globset) (F : Parsers.Formats) :
    System (SendRun μ σ m n) where
  init s := s.run = .new ∧ s.pipeline = .created sinks
  step := SendRun.Step S buffer i X G F

/-- What `send_run` returns: the answer of the pipeline, but for its `Ok(true)`. -/
def SendRun.returned (s : SendRun μ σ m n) : Option (Except Returned Bool) :=
  s.pipeline.returned.map fun
    | .ok => .ok (decide (s.run.exitCodeOut = 0))
    | r => .error r

/-! ### The pipeline below -/

/-- The task of the source is there as long as the source is not over, and ends as the
source does. -/
def SendRun.Joined (i : Fin m) (s : SendRun μ σ m n) : Prop :=
  s.pipeline.sources i = match s.run.stage with
    | .ended e => phaseOf e
    | _ => .running

theorem SendRun.joined_of_running {i : Fin m} {s : SendRun μ σ m n}
    (hruns : ∀ e, s.run.stage ≠ .ended e) (h : s.pipeline.sources i = .running) :
    s.Joined i := by
  unfold SendRun.Joined
  split
  · exact absurd ‹_› (hruns _)
  · exact h

theorem phaseOf_ne_running (e : Subprocess.Ended) : phaseOf e ≠ .running := by
  cases e <;> simp [phaseOf]

/-- A source that takes a step is not over. -/
theorem not_ended_of_step {X : Subprocess.Config} {G : Subprocess.Globset} {F : Parsers.Formats}
    {r r' : Subprocess.Run} (h : Subprocess.Run.Step X G F r r') :
    ∀ e, r.stage ≠ .ended e := by
  intro e hended
  cases h with
  | noCommand hstage | unrunnable now hstage | offerStarted now metadata hstage
  | answerStarted startedAt answer hstage | notSpawned startedAt cause hstage
  | spawned startedAt hstage | waited startedAt wait hstage
  | offerFinished startedAt now wait W metadata hstage
  | unfinishable startedAt now wait hstage | answerFinished wait answer hstage
  | panicFinished hstage =>
      rw [hstage] at hended
      contradiction

theorem SendRun.Joined.running {i : Fin m} {s : SendRun μ σ m n} (h : s.Joined i)
    (hruns : ∀ e, s.run.stage ≠ .ended e) : s.pipeline.sources i = .running := by
  unfold SendRun.Joined at h
  split at h
  · exact absurd ‹_› (hruns _)
  · exact h

section System

variable {S : Fin n → Sink μ σ} {buffer : ℕ} {sinks : Fin n → σ} {i : Fin m}
  {X : Subprocess.Config} {G : Subprocess.Globset} {F : Parsers.Formats}

theorem sendRun_invariant : (sendRun S buffer sinks i X G F).Invariant fun s =>
    s.run.Sound X G F ∧ s.Joined i where
  init := by
    rintro ⟨run, pipeline⟩ ⟨rfl, rfl⟩
    exact ⟨Subprocess.Run.sound_new X G F, rfl⟩
  step := by
    intro s t h hstep
    obtain ⟨hsound, hjoined⟩ := h
    cases hstep with
    | goesOn run hstep hruns =>
        exact ⟨hsound.step hstep,
          SendRun.joined_of_running hruns (hjoined.running (not_ended_of_step hstep))⟩
    | ends run e hstep hends =>
        refine ⟨hsound.step hstep, ?_⟩
        show Function.update s.pipeline.sources i (phaseOf e) i = _
        simp only [Function.update_self, hends]
    | pipeline p hstep hsource => exact ⟨hsound, hsource.trans hjoined⟩

/-- Every run is a run of the pipeline. -/
theorem sendRun_refines : System.Refines (sendRun S buffer sinks i X G F)
    (system m S buffer sinks) (fun s => s.run.Sound X G F ∧ s.Joined i) SendRun.pipeline where
  inv := sendRun_invariant
  init h := h.2
  step := by
    intro s t h hstep
    cases hstep with
    | goesOn run hstep hruns => exact .inr rfl
    | ends run e hstep hends =>
        exact .inl (.endSource i (phaseOf e) (h.2.running (not_ended_of_step hstep))
          (phaseOf_ne_running e))
    | pipeline p hstep hsource => exact .inl hstep

end System

/-! ### The answer -/

theorem exitCode_eq_zero_iff {wait : Subprocess.Wait} :
    wait.exitCode = 0 ↔ wait = .exited (some 0) := by
  cases wait with
  | exited code =>
      cases code with
      | none => exact iff_of_false (by decide) (by simp)
      | some code =>
          show code = 0 ↔ _
          rw [Subprocess.Wait.exited.injEq, Option.some.injEq]
  | failed => exact iff_of_false (by decide) Subprocess.Wait.noConfusion
  | cancelled => exact iff_of_false (by decide) Subprocess.Wait.noConfusion

section Answer

variable {S : Fin n → Sink μ σ} {buffer : ℕ} {sinks : Fin n → σ} {i : Fin m}
  {X : Subprocess.Config} {G : Subprocess.Globset} {F : Parsers.Formats}

/-- A pipeline that returns well has joined the source, which has then ended well. -/
theorem ended_of_returned {s : SendRun μ σ m n}
    (h : (sendRun S buffer sinks i X G F).Reachable s) (hr : s.pipeline.returned = some .ok) :
    s.run.stage = .ended (.returned (.ok ())) := by
  obtain ⟨-, hjoined⟩ := sendRun_invariant.holds h
  obtain ⟨-, ⟨hok, -⟩ | ⟨-, -, hexited, hfailure⟩⟩ := State.returned_cases hr
  · contradiction
  · have hexited := hexited i
    have hfailure := hfailure.mp rfl i
    unfold SendRun.Joined at hjoined
    rw [hjoined] at hexited hfailure
    split at hexited
    · rename_i e hstage
      rw [hstage] at hfailure ⊢
      cases e with
      | panicked => contradiction
      | returned result =>
          cases result with
          | ok _ => rfl
          | error e => contradiction
    · contradiction

/-- `send --run` reports a success exactly if the process has exited with code zero and
every task of the pipeline has ended well. Whatever it reports but an error, the source
has offered its two events, which tell of the process what is reported, and all that was
enqueued is settled with every sink. -/
theorem send_run_reports {s : SendRun μ σ m n}
    (h : (sendRun S buffer sinks i X G F).Reachable s) {answer : Except Returned Bool}
    (hanswer : s.returned = some answer) :
    (answer = .ok true ↔
        s.pipeline.returned = some .ok ∧ s.run.waited = some (.exited (some 0))) ∧
      ∀ success, answer = .ok success →
        (∃ wait, s.run.waited = some wait ∧ (success = true ↔ wait = .exited (some 0)) ∧
          Subprocess.Reported X G F wait s.run.offered) ∧
        ∀ j, Settled (S j) (sinks j) s.pipeline.sent (s.pipeline.sinks j) := by
  have hreports : ∀ success, answer = .ok success → s.pipeline.returned = some .ok ∧
      ∃ wait, s.run.waited = some wait ∧ (success = true ↔ wait = .exited (some 0)) ∧
        Subprocess.Reported X G F wait s.run.offered := by
    rintro success rfl
    obtain ⟨r, hr, hmatch⟩ := Option.map_eq_some_iff.mp hanswer
    cases r with
    | error e => contradiction
    | joinError => contradiction
    | ok =>
        have hsound := (sendRun_invariant.holds h).1
        unfold Subprocess.Run.Sound at hsound
        rw [ended_of_returned h hr] at hsound
        obtain ⟨wait, hwaited, hreported, hcode⟩ := hsound
        refine ⟨hr, wait, hwaited, ?_, hreported⟩
        rw [← Except.ok.inj hmatch, decide_eq_true_iff, hcode, exitCode_eq_zero_iff]
  constructor
  · constructor
    · intro hsuccess
      obtain ⟨hr, wait, hwaited, hiff, -⟩ := hreports true hsuccess
      exact ⟨hr, hwaited.trans (congrArg some (hiff.mp rfl))⟩
    · rintro ⟨hr, hwaited⟩
      have hok : answer = .ok (decide (s.run.exitCodeOut = 0)) := by
        rw [SendRun.returned, hr, Option.map_some] at hanswer
        exact (Option.some.inj hanswer).symm
      obtain ⟨-, wait, hwaited', hiff, -⟩ := hreports _ hok
      obtain rfl := Option.some.inj (hwaited.symm.trans hwaited')
      rw [hok, hiff.mpr rfl]
  · intro success hsuccess
    obtain ⟨hr, hwait⟩ := hreports success hsuccess
    exact ⟨hwait, (returns_settled (sendRun_refines.reachable h) hr (by simp)).2.1⟩

end Answer

/-! A process that exits with code zero, in front of one sink. -/

def sampleSource : Subprocess.Config where
  command := ["true"]
  dataGlobs := []
  noData := true
  parser := .auto
  metadata := .null
  failOnCollectorError := false

def sampleFormats : Parsers.Formats where
  fromStr _ := .error "expected value"
  xmlToJson _ := .error "no root element"
  yaml _ := .error "unexpected character"
  csv _ := { headers := .ok [], records := [] }

theorem send_run_reports_sample :
    ∃ s : SendRun ℕ (List ℕ) 1 1, s.returned = some (.ok true) ∧
      ∃ wait, s.run.waited = some wait ∧
        Subprocess.Reported sampleSource (fun _ => none) sampleFormats wait s.run.offered := by
  have h0 : (sendRun (fun _ => Sink.sample) 8 (fun _ : Fin 1 => []) (0 : Fin 1) sampleSource
      (fun _ => none) sampleFormats).Reachable { run := .new, pipeline := .created fun _ => [] } :=
    .init ⟨rfl, rfl⟩
  have h1 := h0.next (.goesOn _ (.offerStarted "start" _ rfl (List.cons_ne_nil _ _) rfl)
    fun _ => Subprocess.Stage.noConfusion)
  have h2 := h1.next (.goesOn _ (.answerStarted "start" .ok rfl)
    fun _ => Subprocess.Stage.noConfusion)
  have h3 := h2.next (.goesOn _ (.spawned "start" rfl) fun _ => Subprocess.Stage.noConfusion)
  have h4 := h3.next (.goesOn _ (.waited "start" (.exited (some 0)) rfl)
    fun _ => Subprocess.Stage.noConfusion)
  have h5 := h4.next (.goesOn _ (.offerFinished "start" "end" (.exited (some 0)) ⟨.dir true [], []⟩
    _ rfl rfl rfl) fun _ => Subprocess.Stage.noConfusion)
  have h6 := h5.next (.ends _ _ (.answerFinished (.exited (some 0)) .ok rfl rfl (by simp)) rfl)
  have h7 := h6.next (.pipeline _ (.dropBuilder rfl) rfl)
  have hended (i : Fin 1) :
      Function.update (fun _ => SourcePhase.running) 0 (SourcePhase.exited (.ok ())) i ≠
        .running := by
    simp [Subsingleton.elim i 0]
  have h8 := h7.next (.pipeline _ (.turn 0 true _ ⟨fun _ => ⟨rfl, hended⟩, fun _ => rfl⟩
    (.closed .ok [] rfl rfl rfl ⟨rfl, rfl⟩)) rfl)
  obtain ⟨wait, hwaited, -, hreported⟩ := ((send_run_reports h8 rfl).2 true rfl).1
  exact ⟨_, rfl, wait, hwaited, hreported⟩

end CdvizCollector.Pipeline
