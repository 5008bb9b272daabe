import CdvizCollector.Sources.HttpPolling.Poll

/-!
What a step of a poll can do.

The loop's treatment of a completed request is summed up here by four functions
of the task and its response (the tasks it adds, the events it emits, whether it
counts as progress, whether it aborts) and by one theorem that says how a poll
changes: `process_effect`. The later modules use these and never unfold the loop.
-/

namespace CdvizCollector.Sources.HttpPolling

open Lib

variable {P : Params} {upstream : OutgoingRequest → Option FetchedResponse → Prop}

/-- The tasks a completed request adds to the queue, in the n-th driver run. -/
def Params.children (P : Params) (n : ℕ) (task : RequestTask) (resp : Option FetchedResponse) :
    List RequestTask :=
  match resp with
  | none => []
  | some resp =>
      if resp.isSuccess && task.spec.route.feedsBack && decide (task.depth < P.maxDepth) then
        (P.driverTasks n (P.buildDriverInput task.stateSnapshot (some task.spec) (some resp))
          (task.depth + 1)).getD []
      else []

def Params.events (P : Params) (task : RequestTask) (resp : Option FetchedResponse) :
    List Event :=
  match resp with
  | none => []
  | some resp =>
      if resp.isSuccess && task.spec.route.emits then P.emitResponse task resp else []

def Params.progress (P : Params) (resp : Option FetchedResponse) : ℕ :=
  match resp with
  | none => 0
  | some resp =>
      if resp.isSuccess then 1
      else if P.onStatus.resolve resp.status = .skip then 1 else 0

def Params.aborts (P : Params) (resp : Option FetchedResponse) : Bool :=
  match resp with
  | none => false
  | some resp => !resp.isSuccess && decide (P.onStatus.resolve resp.status = .abort)

theorem driverTasks_depth {n depth : ℕ} {input : Json} {tasks : List RequestTask}
    (h : P.driverTasks n input depth = some tasks) : ∀ task ∈ tasks, task.depth = depth := by
  obtain ⟨out, -, rfl⟩ := Option.map_eq_some_iff.mp h
  intro task hmem
  obtain ⟨spec, -, rfl⟩ := List.mem_map.mp hmem
  rfl

/-- Feedback goes one level down, and not below the limit. -/
theorem children_depth {n : ℕ} {task child : RequestTask} {resp : Option FetchedResponse}
    (h : child ∈ P.children n task resp) :
    child.depth = task.depth + 1 ∧ child.depth ≤ P.maxDepth := by
  cases resp with
  | none => contradiction
  | some resp =>
      simp only [Params.children] at h
      split at h
      · rename_i hfeeds
        simp only [Bool.and_eq_true, decide_eq_true_eq] at hfeeds
        obtain ⟨tasks, htasks, hmem⟩ : ∃ tasks, P.driverTasks n
            (P.buildDriverInput task.stateSnapshot (some task.spec) (some resp))
            (task.depth + 1) = some tasks ∧ child ∈ tasks := by
          cases hrun : P.driverTasks n
              (P.buildDriverInput task.stateSnapshot (some task.spec) (some resp))
              (task.depth + 1) with
          | none => simp [hrun] at h
          | some tasks => exact ⟨tasks, rfl, by simpa [hrun] using h⟩
        have hdepth := driverTasks_depth htasks child hmem
        exact ⟨hdepth, by omega⟩
      · contradiction

/-! ### A completed request -/

/-- What processing a request leaves alone, and the entry it logs. -/
structure Framed (s t : Poll) (entry : Processed) : Prop where
  inflight : t.inflight = s.inflight
  issued : t.issued = s.issued
  trustedOrigin : t.trustedOrigin = s.trustedOrigin
  now : t.now = s.now
  fetched : t.log.fetched = s.log.fetched
  pushed : t.log.pushed = s.log.pushed
  sent : t.log.sent = s.log.sent
  started : t.log.started = s.log.started
  exhausted : t.log.exhausted = s.log.exhausted
  processed : t.log.processed = s.log.processed ++ [entry]

/-- How a poll changes when a request completes. -/
inductive ProcessEffect (P : Params) (s t : Poll) (task : RequestTask)
    (resp : Option FetchedResponse) : Prop
  /-- A refusal that spent the rate limit is put back in front. -/
  | requeued (hframe : Framed s t ⟨task, resp, true⟩) (hqueue : t.queue = task :: s.queue)
      (hprogressed : t.progressed = s.progressed) (hemitted : t.log.emitted = s.log.emitted)
      (hphase : t.phase = s.phase)
  | judged (rateLimited : Bool) (hframe : Framed s t ⟨task, resp, rateLimited⟩)
      (hqueue : t.queue = s.queue ++ P.children s.driverRuns task resp)
      (hprogressed : t.progressed = s.progressed + P.progress resp)
      (hemitted : t.log.emitted = s.log.emitted ++ P.events task resp)
      (hphase : t.phase = if P.aborts resp then .done .abort else s.phase)

theorem applyRateLimitPause_eq (s : Poll) (headers : Lib.Http.HeaderMap) (now : Instant)
    (unixNow : Option ℕ) :
    ∃ nextAllowed rateLimitedUntil,
      s.applyRateLimitPause headers now unixNow =
        ((rateLimitResetIn headers unixNow).isSome, { s with nextAllowed, rateLimitedUntil }) := by
  unfold Poll.applyRateLimitPause
  cases rateLimitResetIn headers unixNow with
  | none => exact ⟨_, _, rfl⟩
  | some resetIn => exact ⟨_, _, rfl⟩

theorem feedBack_eq (s : Poll) (task : RequestTask) {resp : FetchedResponse}
    (h : resp.isSuccess = true) :
    ∃ driverRuns, (if task.spec.route.feedsBack then s.feedBack P task resp else s) = { s with
      queue := s.queue ++ P.children s.driverRuns task (some resp), driverRuns } := by
  unfold Params.children
  cases hfeeds : task.spec.route.feedsBack with
  | false => exact ⟨s.driverRuns, by simp⟩
  | true =>
      by_cases hdepth : P.maxDepth ≤ task.depth
      · have hnot : ¬task.depth < P.maxDepth := Nat.not_lt.mpr hdepth
        exact ⟨s.driverRuns, by simp [Poll.feedBack, hdepth, hnot]⟩
      · have hlt : task.depth < P.maxDepth := Nat.not_le.mp hdepth
        exact ⟨s.driverRuns + 1, by simp [Poll.feedBack, hdepth, hlt, h]⟩

theorem accepted_eq (s : Poll) (task : RequestTask) {resp : FetchedResponse}
    (h : resp.isSuccess = true) :
    ∃ driverRuns, s.accepted P task resp = { s with
      queue := s.queue ++ P.children s.driverRuns task (some resp)
      progressed := s.progressed + 1
      driverRuns
      log := { s.log with emitted := s.log.emitted ++ P.events task (some resp) } } := by
  cases hemits : task.spec.route.emits with
  | false =>
      obtain ⟨driverRuns, hfeed⟩ := feedBack_eq (P := P)
        { s with progressed := s.progressed + 1 } task h
      refine ⟨driverRuns, ?_⟩
      simpa [Poll.accepted, Params.events, hemits] using hfeed
  | true =>
      obtain ⟨driverRuns, hfeed⟩ := feedBack_eq (P := P)
        { s with
          progressed := s.progressed + 1
          log := { s.log with emitted := s.log.emitted ++ P.emitResponse task resp } } task h
      refine ⟨driverRuns, ?_⟩
      simpa [Poll.accepted, Params.events, hemits, h] using hfeed

/-- The poll that has logged a response, before the response is judged. -/
def Poll.logged (s : Poll) (task : RequestTask) (resp : FetchedResponse) (rateLimited : Bool)
    (nextAllowed rateLimitedUntil : Option Instant) : Poll :=
  { s with
    nextAllowed, rateLimitedUntil
    log := { s.log with processed := s.log.processed ++ [⟨task, some resp, rateLimited⟩] } }

def Processed.of (task : RequestTask) (resp : Option FetchedResponse) (unixNow : Option ℕ) :
    Processed :=
  ⟨task, resp, resp.any fun resp => (rateLimitResetIn resp.headers unixNow).isSome⟩

theorem process_some (P : Params) (s : Poll) (task : RequestTask) (resp : FetchedResponse)
    (now : Instant) (unixNow : Option ℕ) :
    ∃ nextAllowed rateLimitedUntil,
      s.process P task (some resp) now unixNow =
        let rateLimited := (rateLimitResetIn resp.headers unixNow).isSome
        let u := s.logged task resp rateLimited nextAllowed rateLimitedUntil
        if resp.isSuccess then u.accepted P task resp else u.refused P task resp rateLimited := by
  obtain ⟨nextAllowed, rateLimitedUntil, hpause⟩ :=
    applyRateLimitPause_eq s resp.headers now unixNow
  exact ⟨nextAllowed, rateLimitedUntil, by simp only [Poll.process, hpause, Poll.logged]⟩

theorem process_effect (P : Params) (s : Poll) (task : RequestTask)
    (resp : Option FetchedResponse) (now : Instant) (unixNow : Option ℕ) :
    ProcessEffect P s (s.process P task resp now unixNow) task resp := by
  cases resp with
  | none =>
      exact .judged false ⟨rfl, rfl, rfl, rfl, rfl, rfl, rfl, rfl, rfl, rfl⟩
        (by simp [Poll.process, Params.children]) rfl (by simp [Poll.process, Params.events]) rfl
  | some resp =>
      obtain ⟨nextAllowed, rateLimitedUntil, hprocess⟩ := process_some P s task resp now unixNow
      generalize (rateLimitResetIn resp.headers unixNow).isSome = rateLimited at hprocess
      have hframe : Framed s (s.logged task resp rateLimited nextAllowed rateLimitedUntil)
          ⟨task, some resp, rateLimited⟩ := ⟨rfl, rfl, rfl, rfl, rfl, rfl, rfl, rfl, rfl, rfl⟩
      rw [hprocess]
      cases hsuccess : resp.isSuccess with
      | true =>
          obtain ⟨driverRuns, haccepted⟩ := accepted_eq (P := P)
            (s.logged task resp rateLimited nextAllowed rateLimitedUntil) task hsuccess
          simp only [if_true, haccepted]
          exact .judged rateLimited { hframe with } rfl (by simp [Params.progress, hsuccess]; rfl)
            rfl (by simp [Params.aborts, hsuccess]; rfl)
      | false =>
          have hchildren : P.children s.driverRuns task (some resp) = [] := by
            simp [Params.children, hsuccess]
          have hevents : P.events task (some resp) = [] := by simp [Params.events, hsuccess]
          simp only [Bool.false_eq_true, if_false, Poll.refused]
          cases rateLimited with
          | true => exact .requeued { hframe with } rfl rfl rfl rfl
          | false =>
              rw [if_neg Bool.false_ne_true]
              cases hbehavior : P.onStatus.resolve resp.status <;>
                exact .judged false { hframe with } (by simp [hchildren, Poll.logged])
                  (by simp [Params.progress, hsuccess, hbehavior, Poll.logged])
                  (by simp [hevents, Poll.logged])
                  (by simp [Params.aborts, hsuccess, hbehavior, Poll.logged])

end CdvizCollector.Sources.HttpPolling
