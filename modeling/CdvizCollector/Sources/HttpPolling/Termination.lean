import CdvizCollector.Sources.HttpPolling.Effects
import Mathlib.Algebra.Ring.Nat

/-!
A poll ends within its guards.

Every fetch spends one unit of `max_requests`, also when a rate-limited request
is put back and fetched again, so the worklist may grow and still run out of
budget. What a poll has left is measured by that budget, by the requests in
flight and by the phase of its loop; every step lowers it.
-/

namespace CdvizCollector.Sources.HttpPolling

open Lib

variable {P : Params} {upstream : OutgoingRequest → Option FetchedResponse → Prop} {s t : Poll}

/-- The invariant of a poll. -/
structure Guarded (P : Params) (s : Poll) : Prop where
  budget : s.issued ≤ P.maxRequests
  fetched : s.log.fetched.length = s.issued
  slots : s.inflight.length ≤ P.concurrency
  inflight : s.inflight.length ≤ s.issued
  queueDepth : ∀ task ∈ s.queue, task.depth ≤ P.maxDepth
  inflightDepth : ∀ f ∈ s.inflight, f.task.depth ≤ P.maxDepth
  fetchedDepth : ∀ task ∈ s.log.fetched, task.depth ≤ P.maxDepth
  /-- The loop waits only with something in flight, or with nothing left. -/
  waiting : s.phase = .awaiting → s.inflight = [] → s.queue = []

theorem Params.concurrency_pos (P : Params) : 0 < P.concurrency := by
  show 0 < Nat.max P.maxConcurrency 1
  exact Nat.lt_of_lt_of_le Nat.one_pos (Nat.le_max_right _ _)

theorem start_guarded (P : Params) (rateLimitedUntil : Option Instant) (now : Instant) :
    Guarded P (P.start rateLimitedUntil now) := by
  unfold Params.start
  cases hboot : P.bootstrap with
  | none => constructor <;> simp [PollLog.empty]
  | some queue =>
      have hdepth : ∀ task ∈ queue, task.depth ≤ P.maxDepth := fun task hmem => by
        rw [driverTasks_depth hboot task hmem]
        exact Nat.zero_le _
      constructor <;> simp [PollLog.empty]
      exact hdepth

theorem Guarded.complete {before after : List InFlight} {task : RequestTask} {at' now : Instant}
    {resp : Option FetchedResponse} {u : Poll} (hs : Guarded P s)
    (hinflight : s.inflight = before ++ InFlight.mk task (some at') :: after)
    (hu : u = { s with inflight := before ++ after, phase := .filling, now })
    (h : ProcessEffect P u t task resp) : Guarded P t := by
  have hlength : s.inflight.length = (before ++ after).length + 1 := by
    rw [hinflight]
    simp only [List.length_append, List.length_cons]
    omega
  have hdepth := hs.inflightDepth
  rw [hinflight, List.forall_mem_append, List.forall_mem_cons] at hdepth
  obtain ⟨hbefore, htask, hafter⟩ := hdepth
  -- both ways of processing a request share everything but the queue and the phase
  have hguarded : ∀ entry, Framed u t entry → (∀ task' ∈ t.queue, task'.depth ≤ P.maxDepth) →
      t.phase ≠ .awaiting → Guarded P t := by
    intro entry hframe hqueue hphase
    have hslots := hs.slots
    have hissued := hs.inflight
    constructor
    · rw [hframe.issued, hu]; exact hs.budget
    · rw [hframe.issued, hframe.fetched, hu]; exact hs.fetched
    · rw [hframe.inflight, hu]; show (before ++ after).length ≤ _; omega
    · rw [hframe.inflight, hframe.issued, hu]; show (before ++ after).length ≤ s.issued; omega
    · exact hqueue
    · rw [hframe.inflight, hu]; exact List.forall_mem_append.mpr ⟨hbefore, hafter⟩
    · rw [hframe.fetched, hu]; exact hs.fetchedDepth
    · exact fun h => absurd h hphase
  cases h with
  | requeued hframe hqueue _ _ hphase =>
      apply hguarded _ hframe
      · rw [hqueue, hu]
        exact List.forall_mem_cons.mpr ⟨htask, hs.queueDepth⟩
      · rw [hphase, hu]
        simp
  | judged rateLimited hframe hqueue _ _ hphase =>
      apply hguarded _ hframe
      · rw [hqueue, hu]
        exact List.forall_mem_append.mpr ⟨hs.queueDepth, fun _ hmem => (children_depth hmem).2⟩
      · rw [hphase, hu]
        split <;> simp

theorem guarded_invariant (P : Params)
    (upstream : OutgoingRequest → Option FetchedResponse → Prop) :
    (system P upstream).Invariant (Guarded P) where
  init := by
    rintro s ⟨rateLimitedUntil, now, rfl⟩
    exact start_guarded P rateLimitedUntil now
  step := by
    intro s t hs hstep
    cases hstep with
    | issue now hphase hroom hqueue hbudget hnow hallowed =>
        rename_i task queue
        have htask : task.depth ≤ P.maxDepth := hs.queueDepth task (by rw [hqueue]; simp)
        constructor
        · exact hbudget
        · simp [hs.fetched]
        · simpa using Nat.succ_le_of_lt hroom
        · simpa using hs.inflight
        · exact fun task' hmem => hs.queueDepth task' (by rw [hqueue]; exact .tail _ hmem)
        · exact List.forall_mem_append.mpr
            ⟨hs.inflightDepth, List.forall_mem_singleton.mpr htask⟩
        · exact List.forall_mem_append.mpr ⟨hs.fetchedDepth, List.forall_mem_singleton.mpr htask⟩
        · exact fun h => absurd (hphase.symm.trans h) (by simp)
    | budget => exact { hs with queueDepth := by simp, waiting := fun _ _ => rfl }
    | filled hphase hfilled =>
        refine { hs with waiting := fun _ hnil => hfilled.resolve_left fun hfull => ?_ }
        have hpos := P.concurrency_pos
        rw [show s.inflight = [] from hnil, List.length_nil] at hfull
        omega
    | start before now hphase hinflight hbefore hnow =>
        rename_i after task
        have hlength : (before ++ InFlight.mk task (some now) :: after).length =
            s.inflight.length := by rw [hinflight]; simp
        refine { hs with slots := ?_, inflight := ?_, inflightDepth := ?_, waiting := ?_ }
        · exact Nat.le_trans (Nat.le_of_eq hlength) hs.slots
        · exact Nat.le_trans (Nat.le_of_eq hlength) hs.inflight
        · have hdepth := hs.inflightDepth
          rw [hinflight, List.forall_mem_append, List.forall_mem_cons] at hdepth
          exact List.forall_mem_append.mpr ⟨hdepth.1, List.forall_mem_cons.mpr hdepth.2⟩
        · exact fun _ hnil => absurd hnil (by simp)
    | complete before resp now unixNow hphase hinflight hnow hanswer =>
        exact hs.complete hinflight rfl (process_effect P _ _ resp now unixNow)
    | refill hphase hinflight hqueue => exact absurd (hs.waiting hphase hinflight) hqueue
    | finish hphase hinflight hqueue => exact { hs with waiting := fun h => absurd h (by simp) }

/-! ### What is left to do -/

/-- The steps a request in flight still takes part in: start and complete, or
complete alone, and the filling that follows. -/
def InFlight.left (f : InFlight) : ℕ := if f.started.isSome then 2 else 3

def Phase.left : Phase → ℕ
  | .filling => 2
  | .awaiting => 1
  | .done _ => 0

/-- A bound on the steps a poll can still take. -/
def Poll.left (P : Params) (s : Poll) : ℕ :=
  4 * (P.maxRequests - s.issued) + (s.inflight.map InFlight.left).sum + s.phase.left

def Phase.isDone : Phase → Bool
  | .done _ => true
  | _ => false

theorem left_le (hs : Guarded P s) : s.left P ≤ 4 * P.maxRequests + 2 := by
  have hinflight : (s.inflight.map InFlight.left).sum ≤ 3 * s.inflight.length := by
    induction s.inflight with
    | nil => simp
    | cons f rest ih =>
        have hf : f.left ≤ 3 := by
          unfold InFlight.left
          split <;> omega
        simp only [List.map_cons, List.sum_cons, List.length_cons]
        omega
  have hphase : s.phase.left ≤ 2 := by cases s.phase <;> simp [Phase.left]
  have hbudget := hs.budget
  have hissued := hs.inflight
  unfold Poll.left
  omega

/-- Every step of the loop leaves less to do. A fetch spends budget worth more
than the request it puts in flight, and a completion pays for the filling that
follows it. -/
theorem left_lt (hs : Guarded P s) (hstep : Step P upstream s t) : t.left P < s.left P := by
  cases hstep with
  | issue now hphase hroom hqueue hbudget hnow hallowed =>
      simp only [Poll.left, hphase, Phase.left, List.map_append, List.sum_append, List.map_cons,
        List.map_nil, List.sum_cons, List.sum_nil, InFlight.left, Option.isSome_none,
        Bool.false_eq_true, if_false]
      omega
  | budget hphase hroom hqueue hbudget =>
      simp only [Poll.left, hphase, Phase.left]
      omega
  | filled hphase hfilled =>
      simp only [Poll.left, hphase, Phase.left]
      omega
  | start before now hphase hinflight hbefore hnow =>
      simp only [Poll.left, hphase, hinflight, Phase.left, List.map_append, List.sum_append,
        List.map_cons, List.sum_cons, InFlight.left, Option.isSome_none, Option.isSome_some,
        Bool.false_eq_true, if_false, if_true]
      omega
  | complete before resp now unixNow hphase hinflight hnow hanswer =>
      rename_i after task at'
      have hbefore : s.left P = 4 * (P.maxRequests - s.issued) +
          ((before ++ after).map InFlight.left).sum + 3 := by
        simp only [Poll.left, hphase, hinflight, Phase.left, List.map_append, List.sum_append,
          List.map_cons, List.sum_cons, InFlight.left, Option.isSome_some, if_true]
        omega
      -- the loop goes back to filling, or is over
      have hafter : ∀ {t : Poll} {entry : Processed},
          Framed { s with inflight := before ++ after, phase := .filling, now } t entry →
          t.phase.left ≤ 2 → t.left P ≤ 4 * (P.maxRequests - s.issued) +
            ((before ++ after).map InFlight.left).sum + 2 := by
        intro t entry hframe hphase
        simp only [Poll.left, hframe.issued, hframe.inflight]
        omega
      rw [hbefore]
      apply Nat.lt_succ_of_le
      cases process_effect P { s with inflight := before ++ after, phase := .filling, now } task
        resp now unixNow with
      | requeued hframe _ _ _ hphase => exact hafter hframe (Nat.le_of_eq (by rw [hphase]; rfl))
      | judged rateLimited hframe _ _ _ hphase =>
          refine hafter hframe ?_
          rw [hphase]
          split <;> simp [Phase.left]
  | refill hphase hinflight hqueue => exact absurd (hs.waiting hphase hinflight) hqueue
  | finish hphase hinflight hqueue =>
      simp only [Poll.left, hphase, Phase.left]
      omega

/-! ### The loop is never stuck -/

theorem done_no_step (h : s.phase.isDone = true) : ¬Step P upstream s t := by
  intro hstep
  cases hstep <;> simp_all [Phase.isDone]

/-- The first request that has not been started can be started; when there is
none, any request in flight can complete. -/
theorem awaiting_step (hreturns : ∀ request, ∃ resp, upstream request resp)
    (hphase : s.phase = .awaiting) (hne : s.inflight ≠ []) : ∃ t, Step P upstream s t := by
  obtain ⟨f, rest, hinflight⟩ := List.exists_cons_of_ne_nil hne
  obtain ⟨task, started⟩ := f
  cases started with
  | none =>
      exact ⟨_, .start [] s.now hphase hinflight (by simp) (Nat.le_refl _)⟩
  | some at' =>
      obtain ⟨resp, hanswer⟩ : ∃ resp, P.Answers upstream s.trustedOrigin task resp := by
        unfold Params.Answers
        split
        · exact ⟨none, rfl⟩
        · exact hreturns _
      exact ⟨_, .complete [] resp s.now none hphase hinflight (Nat.le_refl _) hanswer⟩

theorem progress (hreturns : ∀ request, ∃ resp, upstream request resp)
    (hdone : ¬s.phase.isDone = true) : ∃ t, Step P upstream s t := by
  cases hphase : s.phase with
  | done outcome => exact absurd (by rw [hphase]; rfl) hdone
  | awaiting =>
      by_cases hinflight : s.inflight = []
      · by_cases hqueue : s.queue = []
        · exact ⟨_, .finish hphase hinflight hqueue⟩
        · exact ⟨_, .refill hphase hinflight hqueue⟩
      · exact awaiting_step hreturns hphase hinflight
  | filling =>
      rcases Nat.lt_or_ge s.inflight.length P.concurrency with hroom | hfull
      · cases hqueue : s.queue with
        | nil => exact ⟨_, .filled hphase (.inr hqueue)⟩
        | cons task queue =>
            rcases Nat.lt_or_ge s.issued P.maxRequests with hbudget | hspent
            · -- the loop sleeps until the next request is allowed
              refine ⟨_, .issue (Nat.max s.now (s.nextAllowed.getD 0)) hphase hroom hqueue hbudget
                (Nat.le_max_left _ _) fun at' hat => ?_⟩
              rw [Option.mem_def.mp hat]
              exact Nat.le_max_right _ _
            · exact ⟨_, .budget hphase hroom (by simp [hqueue]) hspent⟩
      · exact ⟨_, .filled hphase (.inl hfull)⟩

/-- A poll stays within its guards, whatever the driver and the responses, and
if every fetch returns it ends. -/
theorem poll_terminates (P : Params)
    (upstream : OutgoingRequest → Option FetchedResponse → Prop)
    (hreturns : ∀ request, ∃ resp, upstream request resp)
    {s : Poll} (h : (system P upstream).Reachable s) :
    s.log.fetched.length ≤ P.maxRequests ∧
      s.inflight.length ≤ Nat.max 1 P.maxConcurrency ∧
      (∀ task ∈ s.log.fetched, task.depth ≤ P.maxDepth) ∧
      (system P upstream).TerminatesIn (fun t => t.phase.isDone = true)
        (4 * P.maxRequests + 2) s := by
  have hguarded := (guarded_invariant P upstream).holds h
  refine ⟨?_, ?_, hguarded.fetchedDepth, ?_⟩
  · rw [hguarded.fetched]
    exact hguarded.budget
  · exact Nat.le_trans hguarded.slots (Nat.le_of_eq (Nat.max_comm _ _))
  · exact (guarded_invariant P upstream).terminatesIn left_lt
      (fun _ hdone => progress hreturns hdone) done_no_step h (left_le hguarded)

/-- A driver that answers every response with the same request runs into the
guards of the default configuration. -/
theorem poll_terminates_again :
    (system (.sample [] (askFor "feedback" ["https://api.example.com/"]))
        fun _ resp => resp = some emptyObject).TerminatesIn
      (fun t => t.phase.isDone = true) 4002
      ((Params.sample [] (askFor "feedback" ["https://api.example.com/"])).start none 0) :=
  (poll_terminates _ (fun _ resp => resp = some emptyObject) (fun _ => ⟨_, rfl⟩)
    (.init ⟨none, 0, rfl⟩)).2.2.2

end CdvizCollector.Sources.HttpPolling
