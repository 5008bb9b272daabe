import CdvizCollector.Sources.HttpPolling.Origin
import CdvizCollector.Sources.HttpPolling.Outcome
import CdvizCollector.Sources.HttpPolling.Window

/-!
The loop of an `http_polling` source with its polls (`run` and `run_once` in
`sources/http_polling/mod.rs`).

`Window` has the loop without what happens in a poll. Here a poll is driven step
by step within the loop, in the window the filter has then, and its outcome
decides what happens to the window and to the checkpoint.
-/

namespace CdvizCollector.Sources.HttpPolling

open Lib Checkpoint

/-- A source: what its windows depend on, what its polls depend on besides the
window, and what the upstream may answer. -/
structure SourceConfig where
  window : WindowConfig
  params : Params
  upstream : OutgoingRequest → Option FetchedResponse → Prop

/-- The poll of a window (`TimeWindowFilter::as_metadata`). The driver is a
program, which may answer another time otherwise. -/
def SourceConfig.pollParams (C : SourceConfig) (filter : TimeWindowFilter)
    (driver : ℕ → Json → Option Json) : Params :=
  { C.params with
    tsAfter := C.window.store.text.toString filter.tsAfter
    tsBefore := C.window.store.text.toString filter.tsBefore
    driver }

/-- Where `run` is in its loop, with the poll it waits for. -/
inductive LoopPhase where
  | top
  | waiting
  | checking
  | polling (params : Params) (poll : Poll)
  | saving
  | pausing
  | stopped (reason : StopReason)

def LoopPhase.forget : LoopPhase → RunPhase
  | .top => .top
  | .waiting => .waiting
  | .checking => .checking
  | .polling _ _ => .polling
  | .saving => .saving
  | .pausing => .pausing
  | .stopped reason => .stopped reason

structure HttpPollingExtractor where
  filter : TimeWindowFilter
  rateLimitedUntil : Option Instant
  cancelled : Bool
  phase : LoopPhase
  /-- The monotonic clock as it was read last. -/
  instant : Instant
  /-- What the polls returned, the last one first. The loop does not read it. -/
  outcomes : List PollOutcome

def HttpPollingExtractor.forget (e : HttpPollingExtractor) : Extractor :=
  { filter := e.filter, cancelled := e.cancelled, phase := e.phase.forget }

/-- The extractor when a poll has returned. -/
def HttpPollingExtractor.returned (e : HttpPollingExtractor) (poll : Poll)
    (outcome : PollOutcome) : HttpPollingExtractor :=
  { e with
    rateLimitedUntil := poll.rateLimitedUntil
    instant := poll.now
    outcomes := outcome :: e.outcomes }

inductive LoopStep (C : SourceConfig) :
    Run HttpPollingExtractor → Run HttpPollingExtractor → Prop
  | tick {s : Run HttpPollingExtractor} (now : Timestamp) (hnow : s.now ≤ now) :
      LoopStep C s { s with now }
  | start {s : Run HttpPollingExtractor} {read : Option File} (instant : Instant)
      (hread : Reads s.file read) (hgone : s.process = none) :
      LoopStep C s { s with
        process := some ⟨C.window.boot read s.now, none, false, .top, instant, []⟩
        history := .opened (C.window.boot read s.now).tsAfter read.isSome :: s.history }
  | cancel {s : Run HttpPollingExtractor} {e : HttpPollingExtractor} (he : s.process = some e) :
      LoopStep C s { s with process := some { e with cancelled := true } }
  | gone {s : Run HttpPollingExtractor} : LoopStep C s { s with process := none }
  | leave {s : Run HttpPollingExtractor} {e : HttpPollingExtractor} (he : s.process = some e)
      (hphase : e.phase = .top) (hcancelled : e.cancelled = true) :
      LoopStep C s { s with process := some { e with phase := .stopped .cancelled } }
  | enter {s : Run HttpPollingExtractor} {e : HttpPollingExtractor} (he : s.process = some e)
      (hphase : e.phase = .top) (hcancelled : e.cancelled = false) :
      LoopStep C s { s with process := some { e with phase := .waiting } }
  | waited {s : Run HttpPollingExtractor} {e : HttpPollingExtractor} (he : s.process = some e)
      (instant : Instant) (hphase : e.phase = .waiting) (hinstant : e.instant ≤ instant)
      (huntil : ∀ until' ∈ e.rateLimitedUntil, until' ≤ instant) :
      LoopStep C s { s with process := some { e with phase := .checking, instant } }
  | interrupted {s : Run HttpPollingExtractor} {e : HttpPollingExtractor}
      (he : s.process = some e) (hphase : e.phase.forget = .waiting ∨ e.phase.forget = .polling)
      (hcancelled : e.cancelled = true) :
      LoopStep C s { s with process := some { e with phase := .stopped .cancelled } }
  | limit {s : Run HttpPollingExtractor} {e : HttpPollingExtractor} (he : s.process = some e)
      (hphase : e.phase = .checking) (hlimit : e.filter.isAtLimit = true) :
      LoopStep C s { s with process := some { e with phase := .stopped .atLimit } }
  -- `run_once` runs its bootstrap
  | poll {s : Run HttpPollingExtractor} {e : HttpPollingExtractor}
      (driver : ℕ → Json → Option Json) (he : s.process = some e) (hphase : e.phase = .checking)
      (hlimit : e.filter.isAtLimit = false) :
      LoopStep C s { s with
        process := some { e with
          phase := .polling (C.pollParams e.filter driver)
            ((C.pollParams e.filter driver).start e.rateLimitedUntil e.instant) }
        history := .processed e.filter.span :: s.history }
  | work {s : Run HttpPollingExtractor} {e : HttpPollingExtractor} {P : Params} {poll poll' : Poll}
      (he : s.process = some e) (hphase : e.phase = .polling P poll)
      (hwork : Step P C.upstream poll poll') :
      LoopStep C s { s with process := some { e with phase := .polling P poll' } }
  | advance {s : Run HttpPollingExtractor} {e : HttpPollingExtractor} {P : Params} {poll : Poll}
      (he : s.process = some e) (hphase : e.phase = .polling P poll)
      (hdone : poll.phase = .done .advance) :
      LoopStep C s { s with
        process := some { e.returned poll .advance with
          filter := TimeWindowFilter.advance e.filter s.now, phase := .saving }
        history := .advanced e.filter.span :: s.history }
  | hold {s : Run HttpPollingExtractor} {e : HttpPollingExtractor} {P : Params} {poll : Poll}
      (he : s.process = some e) (hphase : e.phase = .polling P poll)
      (hdone : poll.phase = .done .hold) :
      LoopStep C s { s with process := some { e.returned poll .hold with phase := .pausing } }
  | abort {s : Run HttpPollingExtractor} {e : HttpPollingExtractor} {P : Params} {poll : Poll}
      (he : s.process = some e) (hphase : e.phase = .polling P poll)
      (hdone : poll.phase = .done .abort) :
      LoopStep C s { s with
        process := some { e.returned poll .abort with phase := .stopped .aborted } }
  | save {s : Run HttpPollingExtractor} {e : HttpPollingExtractor} {file : File}
      (he : s.process = some e) (hphase : e.phase = .saving)
      (hsave : C.window.store.Save e.filter.tsAfter s.file file) :
      LoopStep C s { s with process := some { e with phase := .pausing }, file }
  | resume {s : Run HttpPollingExtractor} {e : HttpPollingExtractor} (he : s.process = some e)
      (hphase : e.phase = .pausing) :
      LoopStep C s { s with process := some { e with phase := .top } }

/-- The runs of a source, whatever file it finds and wherever its clock is. -/
def loopSystem (C : SourceConfig) : System (Run HttpPollingExtractor) where
  init := Run.Fresh
  step := LoopStep C

variable {C : SourceConfig} {s t : Run HttpPollingExtractor}

/-! ### The loop without its polls -/

/-- A run of which only the outcomes of the polls are kept. -/
def forgetPolls (s : Run HttpPollingExtractor) : Run Extractor :=
  { process := s.process.map HttpPollingExtractor.forget, file := s.file, now := s.now
    history := s.history }

theorem forgetPolls_process {e : HttpPollingExtractor} (he : s.process = some e) :
    (forgetPolls s).process = some e.forget :=
  congrArg (Option.map _) he

theorem forget_phase {e : HttpPollingExtractor} {phase : LoopPhase} (h : e.phase = phase) :
    e.forget.phase = phase.forget :=
  congrArg LoopPhase.forget h

/-- A poll in progress was started by its own parameters; a checkpoint is saved
after a poll that returned `Advance`. -/
structure Driven (C : SourceConfig) (e : HttpPollingExtractor) : Prop where
  polling : ∀ P poll, e.phase = .polling P poll → (system P C.upstream).Reachable poll
  saving : e.phase = .saving → e.outcomes.head? = some .advance

theorem Driven.idle {e : HttpPollingExtractor} {phase : LoopPhase} (hphase : e.phase = phase)
    (hpolling : phase.forget ≠ .polling) (hsaving : phase.forget ≠ .saving) : Driven C e where
  polling := by
    intro P poll h
    rw [← hphase, h] at hpolling
    exact absurd rfl hpolling
  saving := by
    intro h
    rw [← hphase, h] at hsaving
    exact absurd rfl hsaving

theorem driven_step (hs : ∀ e ∈ s.process, Driven C e) (hstep : LoopStep C s t) :
    ∀ e ∈ t.process, Driven C e := by
  cases hstep with
  | tick now hnow => exact hs
  | start instant hread hgone =>
      rintro e ⟨⟩
      exact .idle rfl (by simp [LoopPhase.forget]) (by simp [LoopPhase.forget])
  | cancel he =>
      rintro e' ⟨⟩
      exact { hs _ he with }
  | gone => rintro e ⟨⟩
  | @poll e driver he hphase hlimit =>
      rintro e' ⟨⟩
      refine ⟨?_, by simp⟩
      rintro P poll ⟨⟩
      exact .init ⟨_, _, rfl⟩
  | work he hphase hwork =>
      rintro e' ⟨⟩
      refine ⟨?_, by simp⟩
      rintro P poll ⟨⟩
      exact ((hs _ he).polling _ _ hphase).next hwork
  | advance he hphase hdone =>
      rintro e' ⟨⟩
      exact ⟨by simp, fun _ => rfl⟩
  | leave he | enter he | waited he | interrupted he | limit he | hold he | abort he | save he
  | resume he =>
      rintro e' ⟨⟩
      exact .idle rfl (by simp [LoopPhase.forget]) (by simp [LoopPhase.forget])

theorem driven_invariant (C : SourceConfig) :
    (loopSystem C).Invariant (fun s => ∀ e ∈ s.process, Driven C e) where
  init hinit := by
    intro e he
    rw [hinit.gone] at he
    contradiction
  step := driven_step

/-- The loop with its polls refines the loop without; a step within a poll is
none there. -/
theorem refines_loop (C : SourceConfig) :
    System.Refines (loopSystem C) (sourceSystem C.window)
      (fun s => ∀ e ∈ s.process, Driven C e) forgetPolls where
  inv := driven_invariant C
  init hinit := ⟨by simp [forgetPolls, hinit.gone], hinit.history⟩
  step := by
    intro s t hs hstep
    cases hstep with
    | tick now hnow => exact .inl (.tick now hnow)
    | start instant hread hgone => exact .inl (.start hread (by simp [forgetPolls, hgone]))
    | cancel he => exact .inl (.cancel (forgetPolls_process he))
    | gone => exact .inl .gone
    | leave he hphase hcancelled =>
        exact .inl (.leave (forgetPolls_process he) (forget_phase hphase) hcancelled)
    | enter he hphase hcancelled =>
        exact .inl (.enter (forgetPolls_process he) (forget_phase hphase) hcancelled)
    | waited he instant hphase =>
        exact .inl (.waited (forgetPolls_process he) (forget_phase hphase))
    | interrupted he hphase hcancelled =>
        exact .inl (.interrupted (forgetPolls_process he) hphase hcancelled)
    | limit he hphase hlimit =>
        exact .inl (.limit (forgetPolls_process he) (forget_phase hphase) hlimit)
    | poll driver he hphase hlimit =>
        exact .inl (.poll (forgetPolls_process he) (forget_phase hphase) hlimit)
    | work he hphase hwork =>
        right
        simp only [forgetPolls, he, Option.map_some, HttpPollingExtractor.forget, hphase]
        rfl
    | advance he hphase hdone =>
        exact .inl (.advance (forgetPolls_process he) (forget_phase hphase))
    | hold he hphase hdone =>
        exact .inl (.hold (forgetPolls_process he) (forget_phase hphase))
    | abort he hphase hdone =>
        exact .inl (.abort (forgetPolls_process he) (forget_phase hphase))
    | save he hphase hsave =>
        exact .inl (.save (forgetPolls_process he) (forget_phase hphase) hsave)
    | resume he hphase => exact .inl (.resume (forgetPolls_process he) (forget_phase hphase))

/-! ### What moves the window and the checkpoint -/

/-- How a step changes the window, the checkpoint and the outcomes of a process. -/
inductive LoopEffect (s t : Run HttpPollingExtractor) (e e' : HttpPollingExtractor) : Prop
  | kept (hfilter : e'.filter = e.filter) (hfile : t.file = s.file)
      (houtcomes : e'.outcomes = e.outcomes) (hsaving : e'.phase = .saving → e.phase = .saving)
      (hdone : ∀ P poll, e.phase = .polling P poll → poll.phase.isDone = true →
        e'.phase = .polling P poll ∨ ∃ reason, e'.phase = .stopped reason)
      (hstopped : ∀ reason, e.phase = .stopped reason → e'.phase = .stopped reason)
  | returned {P : Params} {poll : Poll} {outcome : PollOutcome}
      (hphase : e.phase = .polling P poll) (hdone : poll.phase = .done outcome)
      (hfile : t.file = s.file) (houtcomes : e'.outcomes = outcome :: e.outcomes)
      (hfilter : e'.filter ≠ e.filter → outcome = .advance)
      (hsaving : e'.phase = .saving → outcome = .advance)
  | saved (hphase : e.phase = .saving) (hfilter : e'.filter = e.filter)
      (houtcomes : e'.outcomes = e.outcomes)

theorem LoopStep.effect (hstep : LoopStep C s t) {e e' : HttpPollingExtractor}
    (he : s.process = some e) (he' : t.process = some e') : LoopEffect s t e e' := by
  -- a process that keeps its phase, or leaves one in which no poll has returned
  have hloop : ∀ {phase : LoopPhase}, e.phase = phase → phase.forget ≠ .polling →
      (∀ reason, phase ≠ .stopped reason) → t.file = s.file → e'.filter = e.filter →
      e'.outcomes = e.outcomes → e'.phase ≠ .saving → LoopEffect s t e e' := by
    rintro phase rfl hpolling hstopped hfile hfilter houtcomes hsaving
    refine .kept hfilter hfile houtcomes (fun h => absurd h hsaving) ?_ ?_
    · intro P poll hphase
      exact absurd (by rw [hphase]; rfl) hpolling
    · exact fun reason hphase => absurd hphase (hstopped reason)
  have hsame : t.file = s.file → e'.filter = e.filter → e'.outcomes = e.outcomes →
      e'.phase = e.phase → LoopEffect s t e e' := fun hfile hfilter houtcomes hphase =>
    .kept hfilter hfile houtcomes (hphase ▸ id) (fun P poll h _ => .inl (hphase.trans h))
      fun reason h => hphase.trans h
  cases hstep with
  | tick now hnow =>
      obtain rfl := Option.some.inj (he.symm.trans he')
      exact hsame rfl rfl rfl rfl
  | start _ _ hgone => exact absurd (hgone.symm.trans he) (by simp)
  | gone => exact absurd he' (by simp)
  | cancel hother =>
      obtain rfl := Option.some.inj (he.symm.trans hother)
      obtain rfl := Option.some.inj he'
      exact hsame rfl rfl rfl rfl
  | leave hother hphase | enter hother hphase | waited hother _ hphase | limit hother hphase
  | poll _ hother hphase | resume hother hphase =>
      obtain rfl := Option.some.inj (he.symm.trans hother)
      obtain rfl := Option.some.inj he'
      exact hloop hphase (by simp [LoopPhase.forget]) (by simp) rfl rfl rfl (by simp)
  | interrupted hother hphase hcancelled =>
      obtain rfl := Option.some.inj (he.symm.trans hother)
      obtain rfl := Option.some.inj he'
      refine .kept rfl rfl rfl (by simp) (fun _ _ _ _ => .inr ⟨_, rfl⟩) ?_
      intro reason hstopped
      rw [hstopped] at hphase
      simp [LoopPhase.forget] at hphase
  | work hother hphase hwork =>
      obtain rfl := Option.some.inj (he.symm.trans hother)
      obtain rfl := Option.some.inj he'
      refine .kept rfl rfl rfl (by simp) ?_ (by simp [hphase])
      intro P poll hpolling hdone
      obtain ⟨rfl, rfl⟩ := LoopPhase.polling.inj (hphase.symm.trans hpolling)
      exact absurd hwork (done_no_step hdone)
  | advance hother hphase hdone =>
      obtain rfl := Option.some.inj (he.symm.trans hother)
      obtain rfl := Option.some.inj he'
      exact .returned hphase hdone rfl rfl (fun _ => rfl) fun _ => rfl
  | hold hother hphase hdone | abort hother hphase hdone =>
      obtain rfl := Option.some.inj (he.symm.trans hother)
      obtain rfl := Option.some.inj he'
      exact .returned hphase hdone rfl rfl (absurd rfl) (by simp)
  | save hother hphase hsave =>
      obtain rfl := Option.some.inj (he.symm.trans hother)
      obtain rfl := Option.some.inj he'
      exact .saved hphase rfl rfl

/-- The window of a process changes when a poll returns `Advance`, the checkpoint
after the last poll returned it. -/
structure ChangesAfterAdvance (s t : Run HttpPollingExtractor) : Prop where
  window : ∀ e ∈ s.process, ∀ e' ∈ t.process, e'.filter ≠ e.filter →
    ∃ P poll, e.phase = .polling P poll ∧ poll.phase = .done .advance
  checkpoint : t.file ≠ s.file → ∃ e ∈ s.process, e.outcomes.head? = some .advance

theorem changesAfterAdvance (h : (loopSystem C).Reachable s) (hstep : LoopStep C s t) :
    ChangesAfterAdvance s t := by
  have hdriven := (driven_invariant C).holds h
  constructor
  · intro e he e' he' hne
    cases hstep.effect he he' with
    | kept hfilter => exact absurd hfilter hne
    | @returned P poll outcome hphase hdone _ _ hfilter =>
        obtain rfl := hfilter hne
        exact ⟨P, poll, hphase, hdone⟩
    | saved _ hfilter => exact absurd hfilter hne
  · intro hfile
    cases hstep with
    | save he hphase hsave => exact ⟨_, he, (hdriven _ he).saving hphase⟩
    | tick | start | cancel | gone | leave | enter | waited | interrupted | limit | poll | work
    | advance | hold | abort | resume => exact absurd rfl hfile

/-! ### A poll of two requests -/

/-- `503`, without headers. -/
def unavailable : FetchedResponse := { status := 503, headers := [], bodyText := "" }

theorem process_unavailable {P : Params} (hhold : P.onStatus.resolve 503 = .hold) (s : Poll)
    (task : RequestTask) (now : Instant) :
    s.process P task (some unavailable) now none = { s with
      log := { s.log with
        processed := s.log.processed ++ [⟨task, some unavailable, false⟩] } } := by
  have hpause : s.applyRateLimitPause unavailable.headers now none = (false, s) := by
    have hreset : rateLimitResetIn unavailable.headers none = none := by decide
    unfold Poll.applyRateLimitPause
    rw [hreset]
  have hsuccess : unavailable.isSuccess = false := by decide
  unfold Poll.process
  simp only [hpause, hsuccess, Bool.false_eq_true, if_false, Poll.refused]
  rw [show unavailable.status = 503 from rfl, hhold]

/-- Two requests and their responses, in the order of the queue; the first one is
a 2xx or not, the second one is not. -/
theorem both_complete {P : Params} {upstream : OutgoingRequest → Option FetchedResponse → Prop}
    {a b : String} {first : FetchedResponse} {n : ℕ} {events : List Event}
    (hboot : P.bootstrap = some [sampleTask a, sampleTask b]) (hslots : 2 ≤ P.concurrency)
    (hbudget : 2 ≤ P.maxRequests) (hhold : P.onStatus.resolve 503 = .hold)
    (ha : P.Answers upstream P.trustedOrigin (sampleTask a) (some first))
    (hb : P.Answers upstream P.trustedOrigin (sampleTask b) (some unavailable))
    (hfirst : ∀ (s : Poll) (now : Instant),
      s.process P (sampleTask a) (some first) now none = { s with
        progressed := s.progressed + n
        log := { s.log with
          processed := s.log.processed ++ [⟨sampleTask a, some first, false⟩]
          emitted := s.log.emitted ++ events } }) :
    ∃ poll, Relation.ReflTransGen (Step P upstream) (P.start none 0) poll ∧
      poll.phase = .done (if n = 0 then .hold else .advance) ∧
      poll.log.processed = [⟨sampleTask a, some first, false⟩,
        ⟨sampleTask b, some unavailable, false⟩] := by
  let now := P.minRequestInterval.getD 0
  have s0 := bothStarted_run upstream hboot hslots hbudget
  have s1 := s0.tail (.complete [] (some first) now none rfl rfl (Nat.le_refl _) ha)
  rw [hfirst] at s1
  have s2 := s1.tail (.filled rfl (.inr rfl))
  have s3 := s2.tail (.complete [] (some unavailable) now none rfl rfl (Nat.le_refl _) hb)
  rw [process_unavailable hhold] at s3
  have s4 := (s3.tail (.filled rfl (.inr rfl))).tail (.finish rfl rfl rfl)
  refine ⟨_, s4, ?_, rfl⟩
  show Phase.done (if 0 < 2 ∧ 0 + n = 0 then PollOutcome.hold else .advance) = _
  simp

def sampleUrls : List String := ["https://api.example.com/", "https://other.example.org/"]

/-- A source from the epoch on, with a checkpoint, that asks for both URLs. -/
def sampleSource : SourceConfig where
  window := { tsAfter := some 0, tsBeforeLimit := none, store := ⟨true, decimalText⟩ }
  params := .sample [] (askFor "pipeline" sampleUrls)
  upstream _ _ := True

/-- The parameters of its first poll. -/
def samplePoll : Params :=
  sampleSource.pollParams ⟨0, 9000000000, none⟩ fun _ => askFor "pipeline" sampleUrls

/-- The source within its first poll. -/
def sampleRun (poll : Poll) : Run HttpPollingExtractor :=
  { process := some ⟨⟨0, 9000000000, none⟩, none, false, .polling samplePoll poll, 0, []⟩
    file := .absent, now := 10000000000
    history := [.processed ⟨0, 9000000000⟩, .opened 0 true] }

/-- A source with the windows of the sample source within its first poll. -/
theorem firstPoll_reachable {C : SourceConfig} (hwindow : C.window = sampleSource.window)
    (driver : ℕ → Json → Option Json) {poll : Poll}
    (h : Relation.ReflTransGen (Step (C.pollParams ⟨0, 9000000000, none⟩ driver) C.upstream)
      ((C.pollParams ⟨0, 9000000000, none⟩ driver).start none 0) poll) :
    (loopSystem C).Reachable
      { process := some ⟨⟨0, 9000000000, none⟩, none, false,
          .polling (C.pollParams ⟨0, 9000000000, none⟩ driver) poll, 0, []⟩
        file := .absent, now := 10000000000
        history := [.processed ⟨0, 9000000000⟩, .opened 0 true] } := by
  induction h with
  | refl =>
      have s0 : (loopSystem C).Reachable ⟨none, .absent, 10000000000, []⟩ := .init ⟨rfl, rfl⟩
      have hboot : C.window.boot (some .absent) 10000000000 = ⟨0, 9000000000, none⟩ := by
        rw [hwindow]
        decide
      have s1 := s0.next (.start 0 .found rfl)
      rw [hboot] at s1
      have s2 := s1.next (.enter rfl rfl rfl)
      have s3 := s2.next (.waited rfl 0 rfl (Nat.le_refl _) (by simp))
      have s4 := s3.next (.poll driver rfl rfl rfl)
      exact s4
  | tail _ hstep ih =>
      have hworked := ih.next (.work rfl rfl hstep)
      exact hworked

theorem sampleRun_reachable {poll : Poll}
    (h : Relation.ReflTransGen (Step samplePoll sampleSource.upstream) (samplePoll.start none 0)
      poll) : (loopSystem sampleSource).Reachable (sampleRun poll) :=
  firstPoll_reachable rfl _ h

theorem sample_answers {url : String} (hurl : url ∈ sampleUrls) (resp : FetchedResponse) :
    samplePoll.Answers sampleSource.upstream samplePoll.trustedOrigin (sampleTask url)
      (some resp) := by
  have hsome : (samplePoll.fetchRequest samplePoll.trustedOrigin (sampleTask url).spec).isSome =
      true := by
    rcases List.mem_pair.mp hurl with rfl | rfl <;> decide
  obtain ⟨request, hrequest⟩ := Option.isSome_iff_exists.mp hsome
  simp [Params.Answers, hrequest, sampleSource]

/-- One request of the poll succeeds, the other one fails. -/
theorem sample_mixed : ∃ poll,
    Relation.ReflTransGen (Step samplePoll sampleSource.upstream) (samplePoll.start none 0) poll ∧
      poll.phase = .done .advance ∧
      poll.log.processed = [⟨sampleTask "https://api.example.com/", some emptyObject, false⟩,
        ⟨sampleTask "https://other.example.org/", some unavailable, false⟩] :=
  both_complete rfl (by decide) (by decide) rfl (sample_answers (by decide) _)
    (sample_answers (by decide) _) fun s now => process_sampleTask s _ now

/-- Both requests of the poll fail. -/
theorem sample_failed : ∃ poll,
    Relation.ReflTransGen (Step samplePoll sampleSource.upstream) (samplePoll.start none 0) poll ∧
      poll.phase = .done .hold ∧
      poll.log.processed = [⟨sampleTask "https://api.example.com/", some unavailable, false⟩,
        ⟨sampleTask "https://other.example.org/", some unavailable, false⟩] :=
  have hfirst : ∀ (s : Poll) (now : Instant), s.process samplePoll
      (sampleTask "https://api.example.com/") (some unavailable) now none = { s with
        progressed := s.progressed + 0
        log := { s.log with
          processed := s.log.processed ++
            [⟨sampleTask "https://api.example.com/", some unavailable, false⟩]
          emitted := s.log.emitted ++ [] } } := by
    intro s now
    rw [process_unavailable rfl]
    simp
  both_complete rfl (by decide) (by decide) rfl (sample_answers (by decide) _)
    (sample_answers (by decide) _) hfirst

/-! ### The outcome of a poll -/

/-- What a poll returns, for every driver and whatever responses come in whatever
order, and what follows from it in every run of the source. -/
theorem poll_outcome :
    (∀ (P : Params) (upstream : OutgoingRequest → Option FetchedResponse → Prop) (poll : Poll)
      (outcome : PollOutcome), (system P upstream).Reachable poll →
        poll.phase = .done outcome → Returned P poll outcome) ∧
    (∀ (C : SourceConfig) (s t : Run HttpPollingExtractor), (loopSystem C).Reachable s →
      LoopStep C s t → ChangesAfterAdvance s t) :=
  ⟨fun _ _ _ _ h hdone => returned_of_done h hdone, fun _ _ _ => changesAfterAdvance⟩

/-- The poll with one success advances the window. -/
theorem poll_outcome_sample : ∃ poll t, poll.phase = .done .advance ∧
    Returned samplePoll poll .advance ∧ LoopStep sampleSource (sampleRun poll) t ∧
    ChangesAfterAdvance (sampleRun poll) t := by
  obtain ⟨poll, hrun, hdone, -⟩ := sample_mixed
  have hreach : (system samplePoll sampleSource.upstream).Reachable poll :=
    System.Reachable.trans (.init ⟨none, 0, rfl⟩) hrun
  have hstep := LoopStep.advance (C := sampleSource) (s := sampleRun poll) rfl rfl hdone
  exact ⟨poll, _, hdone, poll_outcome.1 _ _ _ _ hreach hdone, hstep,
    poll_outcome.2 _ _ _ (sampleRun_reachable hrun) hstep⟩

end CdvizCollector.Sources.HttpPolling
