import CdvizCollector.Lib.Worklist
import CdvizCollector.Sources.HttpPolling.Origin
import CdvizCollector.Sources.HttpPolling.Termination

/-!
A poll does not depend on the order in which responses arrive.

With an upstream that answers each request in one way and a driver that is a
function of its input, a task has one response and adds one list of tasks. The
loop is then a schedule of a worklist: what is in flight and what is queued are
both pending, and only a completion works on a task. Budget, aborts and rate
limits are what makes a schedule visible, so they are left out.
-/

namespace CdvizCollector.Sources.HttpPolling

open Lib

variable {P : Params} {answer : OutgoingRequest → Option FetchedResponse} {s t : Poll}

/-! ### The worklist of a source -/

/-- An upstream that answers each request in one way, `none` being a transport
failure. -/
def functional (answer : OutgoingRequest → Option FetchedResponse) (request : OutgoingRequest)
    (resp : Option FetchedResponse) : Prop :=
  resp = answer request

/-- The response a task gets. -/
def Params.answerTo (P : Params) (answer : OutgoingRequest → Option FetchedResponse)
    (task : RequestTask) : Option FetchedResponse :=
  (P.fetchRequest P.trustedOrigin task.spec).bind answer

/-- A driver whose result depends on its input alone. -/
def Params.PureDriver (P : Params) : Prop := ∀ m n input, P.driver m input = P.driver n input

theorem answers_functional {task : RequestTask} {resp : Option FetchedResponse}
    (h : P.Answers (functional answer) P.trustedOrigin task resp) :
    resp = P.answerTo answer task := by
  unfold Params.Answers at h
  unfold Params.answerTo
  split at h
  · rename_i hnone
    rw [h, hnone]
    rfl
  · rename_i request hrequest
    rw [h, hrequest]
    rfl

theorem children_pure (hpure : P.PureDriver) (m n : ℕ) (task : RequestTask)
    (resp : Option FetchedResponse) : P.children m task resp = P.children n task resp := by
  have hdriver : P.driver m = P.driver n := funext (hpure m n)
  simp only [Params.children, Params.driverTasks, hdriver]

def Params.worklist (P : Params) (answer : OutgoingRequest → Option FetchedResponse) :
    Worklist RequestTask where
  children task := P.children 0 task (P.answerTo answer task)
  rank task := P.maxDepth - task.depth
  rank_lt := by
    intro task child hmem
    have hdepth := children_depth (Multiset.mem_coe.mp hmem)
    omega

/-- Every task a poll will work on, if nothing disturbs it. -/
def Params.tasks (P : Params) (answer : OutgoingRequest → Option FetchedResponse) :
    Multiset RequestTask :=
  ((P.bootstrap.getD [] : List RequestTask) : Multiset RequestTask).bind (P.worklist answer).tree

/-- The outcome of a poll that worked on these tasks. -/
def Params.verdict (P : Params) (answer : OutgoingRequest → Option FetchedResponse)
    (tasks : Multiset RequestTask) : PollOutcome :=
  if P.bootstrap.isNone then .hold
  else if 0 < tasks.card ∧ (tasks.map fun task => P.progress (P.answerTo answer task)).sum = 0 then
    .hold
  else .advance

/-! ### Undisturbed polls -/

/-- No response was rate-limited. -/
def Poll.Calm (s : Poll) : Prop := ∀ entry ∈ s.log.processed, entry.rateLimited = false

/-- Nor did the budget run out or a response abort the poll. -/
structure Poll.Undisturbed (s : Poll) : Prop where
  calm : s.Calm
  budget : s.log.exhausted = false
  unaborted : s.phase ≠ .done .abort

variable {upstream : OutgoingRequest → Option FetchedResponse → Prop}

/-- A step adds to what is processed. -/
theorem step_processed (h : Step P upstream s t) :
    ∃ entries, t.log.processed = s.log.processed ++ entries := by
  cases h with
  | complete before resp now unixNow hphase hinflight hnow hanswer =>
      rename_i after task at'
      cases process_effect P { s with inflight := before ++ after, phase := .filling, now } task
        resp now unixNow with
      | requeued hframe _ _ _ _ => exact ⟨_, hframe.processed⟩
      | judged _ hframe _ _ _ _ => exact ⟨_, hframe.processed⟩
  | _ => exact ⟨[], (List.append_nil _).symm⟩

theorem calm_stable (h : Step P upstream s t) (ht : t.Calm) : s.Calm := by
  obtain ⟨entries, hentries⟩ := step_processed h
  intro entry hmem
  apply ht
  rw [hentries]
  exact List.mem_append_left _ hmem

theorem step_exhausted (h : Step P upstream s t) (ht : t.log.exhausted = false) :
    s.log.exhausted = false := by
  cases h with
  | complete before resp now unixNow hphase hinflight hnow hanswer =>
      rename_i after task at'
      cases process_effect P { s with inflight := before ++ after, phase := .filling, now } task
        resp now unixNow with
      | requeued hframe _ _ _ _ => exact hframe.exhausted.symm.trans ht
      | judged _ hframe _ _ _ _ => exact hframe.exhausted.symm.trans ht
  | budget => contradiction
  | _ => exact ht

theorem undisturbed_stable (h : Step P upstream s t) (ht : t.Undisturbed) : s.Undisturbed where
  calm := calm_stable h ht.calm
  budget := step_exhausted h ht.budget
  unaborted hphase := done_no_step (by rw [hphase]; rfl) h

/-! ### A completed request, undisturbed -/

/-- What is queued or in flight is pending, what is processed is done. -/
def Poll.abs (s : Poll) : Worklist.State RequestTask where
  pending := (s.queue : Multiset RequestTask) + (s.inflight.map InFlight.task : List RequestTask)
  done := (s.log.processed.map Processed.task : List RequestTask)

theorem tasks_split (before after : List InFlight) (task : RequestTask)
    (started : Option Instant) :
    ((before ++ InFlight.mk task started :: after).map InFlight.task : Multiset RequestTask) =
      {task} + ((before ++ after).map InFlight.task : List RequestTask) := by
  rw [List.map_append, List.map_cons, List.map_append, ← Multiset.coe_add, ← Multiset.coe_add,
    ← Multiset.cons_coe, ← Multiset.singleton_add]
  ac_rfl

theorem Framed.done {entry : Processed} (h : Framed s t entry) :
    t.abs.done = entry.task ::ₘ s.abs.done := by
  show ((t.log.processed.map Processed.task : List RequestTask) : Multiset RequestTask) = _
  rw [h.processed, List.map_append, ← Multiset.coe_add, Multiset.add_comm]
  rfl

/-- A request that completes in an undisturbed poll was judged, with the answer
of the upstream to it. -/
theorem complete_undisturbed {before after : List InFlight} {task : RequestTask}
    {resp : Option FetchedResponse} {now : Instant} {unixNow : Option ℕ}
    (hanchored : Anchored P s) (hpure : P.PureDriver)
    (hanswer : P.Answers (functional answer) s.trustedOrigin task resp)
    (ht : t = Poll.process P { s with inflight := before ++ after, phase := .filling, now } task
      resp now unixNow)
    (hundisturbed : t.Undisturbed) :
    Framed { s with inflight := before ++ after, phase := .filling, now } t ⟨task, resp, false⟩ ∧
      resp = P.answerTo answer task ∧ P.aborts resp = false ∧ t.phase = .filling ∧
      t.queue = s.queue ++ P.children 0 task resp ∧
      t.progressed = s.progressed + P.progress resp ∧
      t.log.emitted = s.log.emitted ++ P.events task resp := by
  rw [hanchored.origin] at hanswer
  have heffect := process_effect P { s with inflight := before ++ after, phase := .filling, now }
    task resp now unixNow
  rw [← ht] at heffect
  cases heffect with
  | requeued hframe _ _ _ _ =>
      have hcalm := hundisturbed.calm ⟨task, resp, true⟩ (by rw [hframe.processed]; simp)
      contradiction
  | judged rateLimited hframe hqueue hprogressed hemitted hphase =>
      obtain rfl : rateLimited = false :=
        hundisturbed.calm ⟨task, resp, rateLimited⟩ (by rw [hframe.processed]; simp)
      have haborts : P.aborts resp = false := by
        cases h : P.aborts resp with
        | false => rfl
        | true => exact absurd (by rw [hphase, h]; rfl) hundisturbed.unaborted
      rw [haborts] at hphase
      rw [children_pure hpure _ 0] at hqueue
      exact ⟨hframe, answers_functional hanswer, haborts, hphase, hqueue, hprogressed, hemitted⟩

/-- An undisturbed step works on one task of the worklist, or on none. -/
theorem abs_step (hanchored : Anchored P s) (hpure : P.PureDriver)
    (hstep : Step P (functional answer) s t) (ht : t.Undisturbed) :
    (P.worklist answer).Step s.abs t.abs ∨ t.abs = s.abs := by
  cases hstep with
  | issue now hphase hroom hqueue hbudget hnow hallowed =>
      rename_i task queue
      right
      have hpending : ((queue : Multiset RequestTask) +
            ((s.inflight ++ [InFlight.mk task none]).map InFlight.task : List RequestTask)) =
          (s.queue : Multiset RequestTask) +
            (s.inflight.map InFlight.task : List RequestTask) := by
        rw [hqueue, List.map_append, ← Multiset.coe_add, ← Multiset.cons_coe,
          ← Multiset.singleton_add]
        show _ + (_ + {task}) = _
        ac_rfl
      show Worklist.State.mk _ _ = Worklist.State.mk _ _
      rw [hpending]
  | budget => exact absurd ht.budget (by simp)
  | filled => exact .inr rfl
  | start before now hphase hinflight hbefore hnow =>
      right
      simp [Poll.abs, hinflight]
  | complete before resp now unixNow hphase hinflight hnow hanswer =>
      rename_i after task at'
      left
      obtain ⟨hframe, rfl, -, -, hqueue, -, -⟩ :=
        complete_undisturbed hanchored hpure hanswer rfl ht
      generalize Poll.process P _ task _ now unixNow = t at ht hframe hqueue ⊢
      have hbefore : (s.queue : Multiset RequestTask) +
            (s.inflight.map InFlight.task : List RequestTask) =
          task ::ₘ ((s.queue : Multiset RequestTask) +
            ((before ++ after).map InFlight.task : List RequestTask)) := by
        rw [hinflight, tasks_split, ← Multiset.singleton_add]
        ac_rfl
      have hafter : (t.queue : Multiset RequestTask) +
            (t.inflight.map InFlight.task : List RequestTask) =
          (s.queue : Multiset RequestTask) +
            ((before ++ after).map InFlight.task : List RequestTask) +
            (P.worklist answer).children task := by
        rw [hqueue, hframe.inflight, ← Multiset.coe_add]
        show _ + (P.worklist answer).children task + _ = _
        ac_rfl
      have hstate : t.abs = ⟨_, task ::ₘ s.abs.done⟩ := congrArg _ hframe.done
      rw [hstate]
      unfold Poll.abs
      rw [hbefore, hafter]
      exact .work task _ _
  | refill => exact .inr rfl
  | finish => exact .inr rfl

/-! ### What an undisturbed poll adds up to -/

/-- What a poll has fetched, emitted and counted, in terms of what it processed. -/
structure Tallied (P : Params) (answer : OutgoingRequest → Option FetchedResponse) (s : Poll) :
    Prop where
  idle : P.bootstrap.isNone = true → s.phase.isDone = true
  answered : ∀ entry ∈ s.log.processed, entry.response = P.answerTo answer entry.task
  settled : ∀ entry ∈ s.log.processed, P.aborts entry.response = false
  fetched : (s.log.fetched : Multiset RequestTask) =
    s.abs.done + (s.inflight.map InFlight.task : List RequestTask)
  emitted : s.log.emitted = s.log.processed.flatMap fun entry => P.events entry.task entry.response
  progressed : s.progressed = (s.log.processed.map fun entry => P.progress entry.response).sum
  ended : ∀ outcome, s.phase = .done outcome → s.queue = [] ∧ s.inflight = [] ∧
    outcome = if P.bootstrap.isNone then .hold else s.outcome

theorem start_tallied (rateLimitedUntil : Option Instant) (now : Instant) :
    Tallied P answer (P.start rateLimitedUntil now) := by
  unfold Params.start
  cases hboot : P.bootstrap with
  | none =>
      refine ⟨fun _ => rfl, by simp [PollLog.empty], by simp [PollLog.empty], rfl, rfl, rfl, ?_⟩
      intro outcome hphase
      refine ⟨rfl, rfl, ?_⟩
      rw [hboot]
      exact (Phase.done.inj hphase).symm
  | some queue =>
      refine ⟨fun hnone => ?_, by simp [PollLog.empty], by simp [PollLog.empty], rfl, rfl, rfl, ?_⟩
      · simp [hboot] at hnone
      · simp

theorem tallied_step (hs : Tallied P answer s) (hanchored : Anchored P s) (hpure : P.PureDriver)
    (hstep : Step P (functional answer) s t) (ht : t.Undisturbed) : Tallied P answer t := by
  have hboot : P.bootstrap.isNone = false := by
    cases hnone : P.bootstrap.isNone with
    | false => rfl
    | true => exact absurd hstep (done_no_step (hs.idle hnone))
  have hidle : P.bootstrap.isNone = true → t.phase.isDone = true := by simp [hboot]
  cases hstep with
  | issue now hphase hroom hqueue hbudget hnow hallowed =>
      rename_i task queue
      refine { hs with idle := hidle, fetched := ?_, ended := ?_ }
      · show ((s.log.fetched ++ [task] : List RequestTask) : Multiset RequestTask) =
          s.abs.done + ((s.inflight ++ [InFlight.mk task none]).map InFlight.task :
            List RequestTask)
        rw [List.map_append, ← Multiset.coe_add, ← Multiset.coe_add, hs.fetched]
        show _ + {task} = _ + (_ + {task})
        ac_rfl
      · intro outcome hdone
        exact absurd (hphase.symm.trans hdone) (by simp)
  | budget => exact absurd ht.budget (by simp)
  | filled => exact { hs with idle := hidle, ended := by simp }
  | start before now hphase hinflight hbefore hnow =>
      refine { hs with idle := hidle, fetched := ?_, ended := ?_ }
      · rw [hs.fetched, hinflight]
        simp only [List.map_append, List.map_cons]
        rfl
      · intro outcome hdone
        exact absurd (hphase.symm.trans hdone) (by simp)
  | complete before resp now unixNow hphase hinflight hnow hanswer =>
      rename_i after task at'
      obtain ⟨hframe, hresp, haborts, hfilling, -, hprogressed, hemitted⟩ :=
        complete_undisturbed hanchored hpure hanswer rfl ht
      generalize Poll.process P _ task _ now unixNow = t at *
      constructor
      · exact hidle
      · rw [hframe.processed]
        exact List.forall_mem_append.mpr ⟨hs.answered, List.forall_mem_singleton.mpr hresp⟩
      · rw [hframe.processed]
        exact List.forall_mem_append.mpr ⟨hs.settled, List.forall_mem_singleton.mpr haborts⟩
      · rw [hframe.fetched, hframe.done, hframe.inflight, ← Multiset.singleton_add]
        show (s.log.fetched : Multiset RequestTask) = _
        rw [hs.fetched, hinflight, tasks_split]
        show s.abs.done + _ = {task} + s.abs.done + _
        ac_rfl
      · rw [hemitted, hs.emitted, hframe.processed, List.flatMap_append, List.flatMap_singleton]
      · rw [hprogressed, hs.progressed, hframe.processed, List.map_append, List.sum_append,
          List.map_singleton, List.sum_singleton]
      · intro outcome hdone
        exact absurd (hfilling.symm.trans hdone) (by simp)
  | refill => exact { hs with idle := hidle, ended := by simp }
  | finish hphase hinflight hqueue =>
      refine { hs with idle := hidle, ended := ?_ }
      intro outcome hdone
      refine ⟨hqueue, hinflight, ?_⟩
      rw [hboot]
      exact (Phase.done.inj hdone).symm

theorem Tallied.emitted_done (hs : Tallied P answer s) :
    (s.log.emitted : Multiset Event) =
      s.abs.done.bind fun task => (P.events task (P.answerTo answer task) : Multiset Event) := by
  have hanswers : s.log.emitted =
      s.log.processed.flatMap fun entry => P.events entry.task (P.answerTo answer entry.task) := by
    rw [hs.emitted]
    apply List.flatMap_congr
    intro entry hmem
    rw [hs.answered entry hmem]
  rw [hanswers, ← Multiset.coe_bind]
  show _ = ((s.log.processed : Multiset Processed).map Processed.task).bind _
  rw [Multiset.bind_map]

theorem Tallied.progressed_done (hs : Tallied P answer s) :
    s.progressed = (s.abs.done.map fun task => P.progress (P.answerTo answer task)).sum := by
  rw [hs.progressed]
  show _ = (((s.log.processed : Multiset Processed).map Processed.task).map _).sum
  rw [Multiset.map_map, Multiset.map_coe, Multiset.sum_coe]
  congr 1
  apply List.map_congr_left
  intro entry hmem
  rw [hs.answered entry hmem]
  rfl

theorem Tallied.settled_done (hs : Tallied P answer s) :
    ∀ task ∈ s.abs.done, P.aborts (P.answerTo answer task) = false := by
  intro task hmem
  obtain ⟨entry, hentry, rfl⟩ := List.mem_map.mp (Multiset.mem_coe.mp hmem)
  rw [← hs.answered entry hentry]
  exact hs.settled entry hentry

/-! ### Undisturbed runs -/

theorem tallied_invariant (hpure : P.PureDriver) :
    ((system P (functional answer)).restrict Poll.Undisturbed).Invariant
      (fun s => Anchored P s ∧ Tallied P answer s) where
  init := by
    rintro s ⟨⟨rateLimitedUntil, now, rfl⟩, -⟩
    exact ⟨start_anchored P _ _, start_tallied _ _⟩
  step hs hstep :=
    ⟨(anchored_invariant P _).step hs.1 hstep.1, tallied_step hs.2 hs.1 hpure hstep.1 hstep.2⟩

/-- An undisturbed poll is a schedule of the worklist. -/
theorem refines_worklist (hpure : P.PureDriver) :
    System.Refines ((system P (functional answer)).restrict Poll.Undisturbed)
      ((P.worklist answer).system (P.bootstrap.getD [] : List RequestTask)) (Anchored P)
      Poll.abs where
  inv := (anchored_invariant P _).restrict _
  init := by
    rintro s ⟨⟨rateLimitedUntil, now, rfl⟩, -⟩
    unfold Params.start
    cases P.bootstrap with
    | none => rfl
    | some queue => exact congrArg (Worklist.State.mk · 0) (Multiset.add_zero _)
  step hanchored hstep := abs_step hanchored hpure hstep.1 hstep.2

/-- The events of a poll that worked on these tasks. -/
def Params.emissions (P : Params) (answer : OutgoingRequest → Option FetchedResponse)
    (tasks : Multiset RequestTask) : Multiset Event :=
  tasks.bind fun task => (P.events task (P.answerTo answer task) : Multiset Event)

/-- A poll that ends undisturbed has worked on every task, and on each once. -/
theorem undisturbed_done (hpure : P.PureDriver)
    (h : (system P (functional answer)).Reachable s) (hundisturbed : s.Undisturbed)
    {outcome : PollOutcome} (hphase : s.phase = .done outcome) :
    (s.log.fetched : Multiset RequestTask) = P.tasks answer ∧
      (s.log.emitted : Multiset Event) = P.emissions answer (P.tasks answer) ∧
      outcome = P.verdict answer (P.tasks answer) ∧
      ∀ task ∈ P.tasks answer, P.aborts (P.answerTo answer task) = false := by
  have hrun := h.restrict undisturbed_stable hundisturbed
  have htallied := ((tallied_invariant hpure).holds hrun).2
  obtain ⟨hqueue, hinflight, houtcome⟩ := htallied.ended outcome hphase
  have hdone : s.abs.done = P.tasks answer := by
    apply Worklist.done_of_drained _ ((refines_worklist hpure).reachable hrun)
    simp [Poll.abs, hqueue, hinflight]
  have hfetched : (s.log.fetched : Multiset RequestTask) = P.tasks answer := by
    rw [htallied.fetched, hinflight, hdone]
    exact Multiset.add_zero _
  have hissued : s.issued = (P.tasks answer).card := by
    rw [← ((guarded_invariant P _).holds h).fetched, ← hfetched, Multiset.coe_card]
  refine ⟨hfetched, ?_, ?_, ?_⟩
  · rw [htallied.emitted_done, hdone]
    rfl
  · rw [houtcome, Poll.outcome, hissued, htallied.progressed_done, hdone]
    rfl
  · rw [← hdone]
    exact htallied.settled_done

/-- When the tasks fit the budget and none aborts, only rate limits can disturb
a poll. -/
theorem undisturbed_of_calm (hpure : P.PureDriver)
    (hbudget : (P.tasks answer).card ≤ P.maxRequests)
    (hsettled : ∀ task ∈ P.tasks answer, P.aborts (P.answerTo answer task) = false)
    (h : (system P (functional answer)).Reachable s) (hcalm : s.Calm) : s.Undisturbed := by
  induction h with
  | init hinit =>
      obtain ⟨rateLimitedUntil, now, rfl⟩ := hinit
      unfold Params.start at hcalm ⊢
      cases hboot : P.bootstrap <;> exact ⟨by simp [Poll.Calm, PollLog.empty], rfl, by simp⟩
  | next hreach hstep ih =>
      rename_i s t
      have hs := ih (calm_stable hstep hcalm)
      have hrun := hreach.restrict undisturbed_stable hs
      have hle := Worklist.done_add_pending_le _ ((refines_worklist hpure).reachable hrun)
      obtain ⟨hanchored, htallied⟩ := (tallied_invariant hpure).holds hrun
      have hguarded := (guarded_invariant P _).holds hreach
      cases hstep with
      | budget hphase hroom hqueue hspent =>
          -- what is fetched and queued would not fit the budget
          have hcard := Multiset.card_le_card hle
          have hfetched := congrArg Multiset.card htallied.fetched
          have hlength := List.length_pos_iff.mpr hqueue
          simp only [Poll.abs, Multiset.card_add, Multiset.coe_card, List.length_map,
            hguarded.fetched] at hcard hfetched
          have hbound : (P.tasks answer).card ≤ P.maxRequests := hbudget
          unfold Params.tasks at hbound
          omega
      | complete before resp now unixNow hphase hinflight hnow hanswer =>
          rename_i after task at'
          have hmem : task ∈ P.tasks answer := by
            apply Multiset.mem_of_le hle
            simp [Poll.abs, hinflight]
          rw [hanchored.origin] at hanswer
          have haborts := hsettled task hmem
          rw [← answers_functional hanswer] at haborts
          cases process_effect P { s with inflight := before ++ after, phase := .filling, now }
            task resp now unixNow with
          | requeued hframe _ _ _ hphase =>
              exact ⟨hcalm, hframe.exhausted.trans hs.budget, by rw [hphase]; simp⟩
          | judged _ hframe _ _ _ hphase =>
              exact ⟨hcalm, hframe.exhausted.trans hs.budget, by rw [hphase, haborts]; simp⟩
      | issue => exact ⟨hcalm, hs.budget, hs.unaborted⟩
      | filled => exact ⟨hcalm, hs.budget, by simp⟩
      | start => exact ⟨hcalm, hs.budget, hs.unaborted⟩
      | refill => exact ⟨hcalm, hs.budget, by simp⟩
      | finish => exact ⟨hcalm, hs.budget, by unfold Poll.outcome; split <;> simp⟩

/-- Two polls of a source, at any concurrency and with their responses in any
order, issue the same tasks, emit the same events and end the same way, if the
upstream and the driver are functions and neither poll is disturbed. Of the
second it is enough that none of its responses is rate-limited. -/
theorem poll_confluent (P : Params) (answer : OutgoingRequest → Option FetchedResponse)
    (hpure : P.PureDriver) (maxConcurrency : ℕ) {s t : Poll} {o o' : PollOutcome}
    (hs : (system P (functional answer)).Reachable s)
    (ht : (system { P with maxConcurrency } (functional answer)).Reachable t)
    (hsdone : s.phase = .done o) (htdone : t.phase = .done o')
    (hundisturbed : s.Undisturbed) (hcalm : t.Calm) :
    (s.log.fetched : Multiset RequestTask) = t.log.fetched ∧
      (s.log.emitted : Multiset Event) = t.log.emitted ∧ o = o' := by
  obtain ⟨hfetched, hemitted, houtcome, hsettled⟩ := undisturbed_done hpure hs hundisturbed hsdone
  have hbudget : (P.tasks answer).card ≤ P.maxRequests := by
    have hguarded := (guarded_invariant P _).holds hs
    rw [← hfetched, Multiset.coe_card, hguarded.fetched]
    exact hguarded.budget
  -- the tasks of a source do not depend on its concurrency
  have htasks : Params.tasks { P with maxConcurrency } answer = P.tasks answer := rfl
  have hcalm' : t.Undisturbed := undisturbed_of_calm (P := { P with maxConcurrency }) hpure
    (htasks ▸ hbudget) (htasks ▸ hsettled) ht hcalm
  obtain ⟨hfetched', hemitted', houtcome', -⟩ :=
    undisturbed_done (P := { P with maxConcurrency }) hpure ht hcalm' htdone
  exact ⟨hfetched.trans hfetched'.symm, hemitted.trans hemitted'.symm,
    houtcome.trans houtcome'.symm⟩

/-! ### Two orders -/

/-- With room for both, the two requests of a bootstrap may complete in either
order. -/
theorem both_orders {a b : String} (hboot : P.bootstrap = some [sampleTask a, sampleTask b])
    (hslots : 2 ≤ P.concurrency) (hbudget : 2 ≤ P.maxRequests)
    (hanswer : ∀ url ∈ [a, b], P.Answers (functional fun _ => some emptyObject) P.trustedOrigin
      (sampleTask url) (some emptyObject)) :
    ∃ s t, (system P (functional fun _ => some emptyObject)).Reachable s ∧
      (system P (functional fun _ => some emptyObject)).Reachable t ∧
      s.phase = .done .advance ∧ t.phase = .done .advance ∧ s.Undisturbed ∧ t.Undisturbed ∧
      s.log.emitted = P.emitResponse (sampleTask a) emptyObject ++
        P.emitResponse (sampleTask b) emptyObject ∧
      t.log.emitted = P.emitResponse (sampleTask b) emptyObject ++
        P.emitResponse (sampleTask a) emptyObject := by
  let now := P.minRequestInterval.getD 0
  have hstarted := bothStarted_reachable (functional fun _ => some emptyObject) hboot hslots hbudget
  -- in the order of the queue
  have s1 := hstarted.next (.complete [] (some emptyObject) now none rfl rfl (Nat.le_refl _)
    (hanswer a (by simp)))
  rw [process_sampleTask] at s1
  have s2 := s1.next (.filled rfl (.inr rfl))
  have s3 := s2.next (.complete [] (some emptyObject) now none rfl rfl (Nat.le_refl _)
    (hanswer b (by simp)))
  rw [process_sampleTask] at s3
  have s4 := (s3.next (.filled rfl (.inr rfl))).next (.finish rfl rfl rfl)
  -- and in the other
  have t1 := hstarted.next (.complete [⟨sampleTask a, some now⟩] (some emptyObject) now none rfl
    rfl (Nat.le_refl _) (hanswer b (by simp)))
  rw [process_sampleTask] at t1
  have t2 := t1.next (.filled rfl (.inr rfl))
  have t3 := t2.next (.complete [] (some emptyObject) now none rfl rfl (Nat.le_refl _)
    (hanswer a (by simp)))
  rw [process_sampleTask] at t3
  have t4 := (t3.next (.filled rfl (.inr rfl))).next (.finish rfl rfl rfl)
  have hunaborted : Phase.done PollOutcome.advance ≠ .done .abort := by simp
  refine ⟨_, _, s4, t4, rfl, rfl, ⟨?_, rfl, hunaborted⟩, ⟨?_, rfl, hunaborted⟩, rfl, rfl⟩
  · exact List.forall_mem_cons.mpr ⟨rfl, List.forall_mem_singleton.mpr rfl⟩
  · exact List.forall_mem_cons.mpr ⟨rfl, List.forall_mem_singleton.mpr rfl⟩

theorem poll_confluent_both_orders :
    ∃ s t : Poll, s.log.emitted.length = 2 ∧
      (s.log.fetched : Multiset RequestTask) = t.log.fetched ∧
      (s.log.emitted : Multiset Event) = t.log.emitted ∧
      PollOutcome.advance = PollOutcome.advance := by
  have hanswer : ∀ url ∈ ["https://api.example.com/", "https://other.example.org/"],
      (Params.twoRequests "https://api.example.com/").Answers
        (functional fun _ => some emptyObject)
        (Params.twoRequests "https://api.example.com/").trustedOrigin (sampleTask url)
        (some emptyObject) := by
    intro url hmem
    have hsome : ((Params.twoRequests "https://api.example.com/").fetchRequest
        (Params.twoRequests "https://api.example.com/").trustedOrigin
        (sampleTask url).spec).isSome = true := by
      rcases List.mem_pair.mp hmem with rfl | rfl <;> decide
    unfold Params.Answers
    split
    · rename_i hnone
      rw [hnone] at hsome
      contradiction
    · rfl
  obtain ⟨s, t, hs, ht, hsdone, htdone, hundisturbed, ⟨hcalm, -, -⟩, hsemitted, -⟩ :=
    both_orders (P := .twoRequests "https://api.example.com/") rfl (by decide) (by decide)
      hanswer
  refine ⟨s, t, ?_, poll_confluent _ _ (fun _ _ _ => rfl) 4 hs ht hsdone htdone hundisturbed hcalm⟩
  rw [hsemitted]
  decide

end CdvizCollector.Sources.HttpPolling
