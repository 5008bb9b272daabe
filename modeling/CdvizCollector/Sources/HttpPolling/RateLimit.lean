import CdvizCollector.Sources.HttpPolling.Confluence
import CdvizCollector.Sources.HttpPolling.Outcome

/-!
Refusals that spent the rate limit.

Such a refusal says when the limit is reset. It is put back in front of the
queue if that instant is ahead of the local clock when the response is looked
at; if it is not, the status policy judges it like any other response.
-/

namespace CdvizCollector.Sources.HttpPolling

open Lib

variable {P : Params} {upstream : OutgoingRequest → Option FetchedResponse → Prop}

/-- A response of another status than 2xx that says that nothing is left of the
rate limit, and when it is reset, in seconds since the epoch. -/
structure FetchedResponse.SpentUntil (resp : FetchedResponse) (resetAt : ℤ) : Prop where
  refused : resp.isSuccess = false
  remaining : ∃ remaining ≤ 0, headerNum resp.headers "x-ratelimit-remaining" = some remaining
  reset : headerNum resp.headers "x-ratelimit-reset" = some resetAt

/-- The local clock can be read, and the instant is ahead of it. -/
def AheadOf (resetAt : ℤ) (unixNow : Option ℕ) : Prop :=
  ∃ now ∈ unixNow, now ≤ Text.maxI64 ∧ (now : ℤ) < resetAt

theorem rateLimitResetIn_isSome_iff {resp : FetchedResponse} {resetAt : ℤ}
    (h : resp.SpentUntil resetAt) (unixNow : Option ℕ) :
    (rateLimitResetIn resp.headers unixNow).isSome = true ↔ AheadOf resetAt unixNow := by
  obtain ⟨remaining, hremaining, hheader⟩ := h.remaining
  have hnot : ¬0 < remaining := by omega
  unfold rateLimitResetIn AheadOf
  rw [hheader, h.reset]
  cases unixNow with
  | none => simp
  | some now =>
      simp only [Option.bind_eq_bind, Option.bind_some, hnot, if_false, Option.mem_some_iff,
        exists_eq_left']
      split
      · rename_i hwait
        exact iff_of_true rfl ⟨hwait.1, by omega⟩
      · rename_i hwait
        exact iff_of_false (by simp) fun hahead => hwait ⟨hahead.1, by omega⟩

/-! ### One response -/

/-- The task is back in front of the queue, and nothing else was made of the
response. -/
structure Poll.PutBack (s t : Poll) (task : RequestTask) : Prop where
  queue : t.queue = task :: s.queue
  progressed : t.progressed = s.progressed
  phase : t.phase = s.phase

variable (P) in
theorem process_refused (s : Poll) (task : RequestTask) {resp : FetchedResponse}
    (h : resp.isSuccess = false) (now : Instant) (unixNow : Option ℕ) :
    let rateLimited := (rateLimitResetIn resp.headers unixNow).isSome
    ∃ nextAllowed rateLimitedUntil, s.process P task (some resp) now unixNow =
      (s.logged task resp rateLimited nextAllowed rateLimitedUntil).refused P task resp
        rateLimited := by
  obtain ⟨nextAllowed, rateLimitedUntil, hprocess⟩ := process_some P s task resp now unixNow
  refine ⟨nextAllowed, rateLimitedUntil, ?_⟩
  rw [hprocess]
  simp only [h, Bool.false_eq_true, if_false]

/-- A refusal is put back exactly if its reset is ahead of the clock. -/
theorem putBack_iff {s : Poll} {task : RequestTask} {resp : FetchedResponse} {resetAt : ℤ}
    (h : resp.SpentUntil resetAt) (now : Instant) (unixNow : Option ℕ) :
    s.PutBack (s.process P task (some resp) now unixNow) task ↔ AheadOf resetAt unixNow := by
  rw [← rateLimitResetIn_isSome_iff h]
  obtain ⟨nextAllowed, rateLimitedUntil, hprocess⟩ :=
    process_refused P s task h.refused now unixNow
  rw [hprocess]
  cases (rateLimitResetIn resp.headers unixNow).isSome with
  | true => exact iff_of_true ⟨rfl, rfl, rfl⟩ rfl
  | false =>
      refine iff_of_false (fun hputBack => ?_) (by simp)
      -- whatever the policy says, the task is not put back
      have hqueue : ((s.logged task resp false nextAllowed rateLimitedUntil).refused P task resp
          false).queue = s.queue := by
        simp only [Poll.refused, Bool.false_eq_true, if_false]
        cases P.onStatus.resolve resp.status <;> rfl
      have hlength := congrArg List.length (hqueue.symm.trans hputBack.queue)
      rw [List.length_cons] at hlength
      omega

/-! ### The polls of a source with a clock -/

/-- A poll, with what the local clock read at each completed request. -/
structure Clocked where
  poll : Poll
  clocks : List (Option ℕ)

inductive ClockedStep (P : Params) (upstream : OutgoingRequest → Option FetchedResponse → Prop) :
    Clocked → Clocked → Prop
  | complete {s : Clocked} (before : List InFlight) {after : List InFlight} {task : RequestTask}
      {at' : Instant} (resp : Option FetchedResponse) (now : Instant) (unixNow : Option ℕ)
      (hphase : s.poll.phase = .awaiting)
      (hinflight : s.poll.inflight = before ++ InFlight.mk task (some at') :: after)
      (hnow : s.poll.now ≤ now) (hanswer : P.Answers upstream s.poll.trustedOrigin task resp) :
      ClockedStep P upstream s {
        poll := Poll.process P { s.poll with inflight := before ++ after, phase := .filling, now }
          task resp now unixNow
        clocks := s.clocks ++ [unixNow] }
  -- any other step, by which no request completes
  | other {s : Clocked} {poll : Poll} (hstep : Step P upstream s.poll poll)
      (hprocessed : poll.log.processed = s.poll.log.processed) :
      ClockedStep P upstream s { s with poll }

def clockedSystem (P : Params) (upstream : OutgoingRequest → Option FetchedResponse → Prop) :
    System Clocked where
  init s := (system P upstream).init s.poll ∧ s.clocks = []
  step := ClockedStep P upstream

theorem ClockedStep.poll {s t : Clocked} (h : ClockedStep P upstream s t) :
    Step P upstream s.poll t.poll := by
  cases h with
  | complete before resp now unixNow hphase hinflight hnow hanswer =>
      exact .complete before resp now unixNow hphase hinflight hnow hanswer
  | other hstep hprocessed => exact hstep

theorem reachable_poll {s : Clocked} (h : (clockedSystem P upstream).Reachable s) :
    (system P upstream).Reachable s.poll := by
  induction h with
  | init h => exact .init h.1
  | next _ hstep ih => exact .next ih hstep.poll

/-- What was logged of the completed requests is decided by the clock. -/
def Clocked.Read (s : Clocked) : Prop :=
  List.Forall₂ (fun entry unixNow => entry = Processed.of entry.task entry.response unixNow)
    s.poll.log.processed s.clocks

theorem read_invariant (P : Params)
    (upstream : OutgoingRequest → Option FetchedResponse → Prop) :
    (clockedSystem P upstream).Invariant Clocked.Read where
  init := by
    rintro s ⟨⟨rateLimitedUntil, now, hstart⟩, hclocks⟩
    have hnone : s.poll.log.processed = [] := by
      rw [hstart]
      unfold Params.start
      cases P.bootstrap <;> rfl
    unfold Clocked.Read
    rw [hnone, hclocks]
    exact .nil
  step := by
    intro s t hs hstep
    cases hstep with
    | complete before resp now unixNow hphase hinflight =>
        show List.Forall₂ _ (Poll.process _ _ _ _ _ _).log.processed _
        rw [(process_counted _ _ _ _ _ _).1]
        exact List.rel_append hs (.cons rfl .nil)
    | other hstep hprocessed =>
        show List.Forall₂ _ _ _
        rw [hprocessed]
        exact hs

/-! ### What is put back is fetched again -/

/-- The request was put back. -/
def Processed.putBack (entry : Processed) : Bool :=
  entry.rateLimited && entry.response.any fun resp => !resp.isSuccess

/-- The task is still to be fetched, or it was processed and not put back. -/
def Poll.Awaits (s : Poll) (task : RequestTask) : Prop :=
  task ∈ s.queue ∨ task ∈ s.inflight.map InFlight.task ∨
    ∃ later ∈ s.log.processed, later.task = task ∧ later.putBack = false

structure Pending (s : Poll) : Prop where
  idle : ∀ outcome, s.phase = .done outcome → outcome ≠ .abort → s.queue = [] ∧ s.inflight = []
  awaits : s.log.exhausted = false → ∀ entry ∈ s.log.processed, entry.putBack = true →
    s.Awaits entry.task

theorem Poll.Awaits.mono {s t : Poll} {task : RequestTask} (h : s.Awaits task)
    (hqueue : ∀ task ∈ s.queue, task ∈ t.queue ∨ task ∈ t.inflight.map InFlight.task)
    (hinflight : s.inflight.map InFlight.task ⊆ t.inflight.map InFlight.task)
    (hprocessed : s.log.processed ⊆ t.log.processed) : t.Awaits task := by
  rcases h with hmem | hmem | ⟨later, hlater, htask⟩
  · rcases hqueue task hmem with hmem | hmem
    · exact .inl hmem
    · exact .inr (.inl hmem)
  · exact .inr (.inl (hinflight hmem))
  · exact .inr (.inr ⟨later, hprocessed hlater, htask⟩)

/-- Where one request is completed, every other task still waits. -/
theorem Poll.Awaits.completed {s t : Poll} {task other : RequestTask} (h : s.Awaits other)
    (hqueue : s.queue ⊆ t.queue)
    (hinflight : ∀ other ∈ s.inflight.map InFlight.task,
      other = task ∨ other ∈ t.inflight.map InFlight.task)
    (hprocessed : s.log.processed ⊆ t.log.processed) : other = task ∨ t.Awaits other := by
  rcases h with hmem | hmem | ⟨later, hlater, hdone⟩
  · exact .inr (.inl (hqueue hmem))
  · rcases hinflight other hmem with hsame | hmem
    · exact .inl hsame
    · exact .inr (.inr (.inl hmem))
  · exact .inr (.inr (.inr ⟨later, hprocessed hlater, hdone⟩))

variable (P) in
theorem process_putBack (s : Poll) {task : RequestTask} {resp : Option FetchedResponse}
    {now : Instant} {unixNow : Option ℕ} (h : (Processed.of task resp unixNow).putBack = true) :
    task ∈ (s.process P task resp now unixNow).queue := by
  cases resp with
  | none => simp [Processed.of, Processed.putBack] at h
  | some resp =>
      simp only [Processed.of, Processed.putBack, Option.any_some, Bool.and_eq_true,
        Bool.not_eq_true'] at h
      obtain ⟨hlimited, hrefused⟩ := h
      obtain ⟨nextAllowed, rateLimitedUntil, hprocess⟩ :=
        process_refused P s task hrefused now unixNow
      rw [hprocess, hlimited]
      exact List.mem_cons_self

theorem process_queue (s : Poll) (task : RequestTask) (resp : Option FetchedResponse)
    (now : Instant) (unixNow : Option ℕ) :
    s.queue ⊆ (s.process P task resp now unixNow).queue ∧
      (s.process P task resp now unixNow).inflight = s.inflight ∧
      (s.process P task resp now unixNow).log.exhausted = s.log.exhausted := by
  cases process_effect P s task resp now unixNow with
  | requeued hframe hqueue =>
      rw [hqueue]
      exact ⟨List.subset_cons_self _ _, hframe.inflight, hframe.exhausted⟩
  | judged rateLimited hframe hqueue =>
      rw [hqueue]
      exact ⟨List.subset_append_left _ _, hframe.inflight, hframe.exhausted⟩

theorem Pending.complete {s : Poll} {before after : List InFlight} {task : RequestTask}
    {started : Option Instant} (hs : Pending s)
    (hinflight : s.inflight = before ++ InFlight.mk task started :: after)
    (resp : Option FetchedResponse) (now : Instant) (unixNow : Option ℕ) :
    Pending (Poll.process P { s with inflight := before ++ after, phase := .filling, now }
      task resp now unixNow) := by
  obtain ⟨hqueue, hflying, hexhausted⟩ := process_queue (P := P)
    { s with inflight := before ++ after, phase := .filling, now } task resp now unixNow
  obtain ⟨hprocessed, -, hnext⟩ := process_counted P
    { s with inflight := before ++ after, phase := .filling, now } task resp now unixNow
  have hback : (Processed.of task resp unixNow).putBack = true → task ∈ (Poll.process P
      { s with inflight := before ++ after, phase := .filling, now } task resp now unixNow).queue :=
    process_putBack P _
  generalize Poll.process P { s with inflight := before ++ after, phase := .filling, now } task
    resp now unixNow = t at *
  generalize hentry : Processed.of task resp unixNow = entry at *
  have htask : entry.task = task := by rw [← hentry]; rfl
  -- the task of the completed request is put back, or its entry shows that it is done
  have hcompleted : t.Awaits task := by
    cases hback' : entry.putBack with
    | true => exact .inl (hback hback')
    | false =>
        refine .inr (.inr ⟨entry, ?_, htask, hback'⟩)
        rw [hprocessed]
        exact List.mem_append_right _ List.mem_cons_self
  have hothers : ∀ other ∈ s.inflight.map InFlight.task,
      other = task ∨ other ∈ t.inflight.map InFlight.task := by
    intro other hother
    rw [hinflight, List.map_append, List.map_cons] at hother
    rw [hflying, List.map_append]
    rcases List.mem_append.mp hother with hmem | hmem
    · exact .inr (List.mem_append_left _ hmem)
    · rcases List.mem_cons.mp hmem with hsame | hmem
      · exact .inl hsame
      · exact .inr (List.mem_append_right _ hmem)
  have hkept : s.log.processed ⊆ t.log.processed := by
    rw [hprocessed]
    exact List.subset_append_left _ _
  constructor
  · intro outcome hdone hne
    rw [hnext] at hdone
    split at hdone
    · exact absurd (Phase.done.inj hdone).symm hne
    · contradiction
  · intro hunexhausted other hother hputBack
    rw [hprocessed] at hother
    rcases List.mem_append.mp hother with hold | hnew
    · have hbefore := hs.awaits (hexhausted.symm.trans hunexhausted) other hold hputBack
      rcases hbefore.completed hqueue hothers hkept with hsame | hawaits
      · rw [hsame]
        exact hcompleted
      · exact hawaits
    · obtain rfl := List.mem_singleton.mp hnew
      rw [htask]
      exact hcompleted

theorem pending_invariant (P : Params)
    (upstream : OutgoingRequest → Option FetchedResponse → Prop) :
    (system P upstream).Invariant Pending where
  init := by
    rintro s ⟨rateLimitedUntil, now, rfl⟩
    unfold Params.start
    cases P.bootstrap with
    | none => exact ⟨fun _ _ _ => ⟨rfl, rfl⟩, fun _ => nofun⟩
    | some queue => exact ⟨nofun, fun _ => nofun⟩
  step := by
    intro s t hs hstep
    cases hstep with
    | issue now hphase hroom hqueue =>
        refine ⟨fun outcome hdone => absurd (hphase.symm.trans hdone) (by simp), ?_⟩
        intro hunexhausted entry hentry hputBack
        refine (hs.awaits hunexhausted entry hentry hputBack).mono ?_ ?_ (List.Subset.refl _)
        · intro task' hmem
          rw [hqueue] at hmem
          rcases List.mem_cons.mp hmem with rfl | hmem
          · exact .inr (by simp)
          · exact .inl hmem
        · rw [List.map_append]
          exact List.subset_append_left _ _
    | budget => exact ⟨nofun, nofun⟩
    | filled => exact ⟨nofun, hs.awaits⟩
    | refill => exact ⟨nofun, hs.awaits⟩
    | start before now hphase hinflight =>
        refine ⟨fun outcome hdone => absurd (hphase.symm.trans hdone) (by simp), ?_⟩
        intro hunexhausted entry hentry hputBack
        refine (hs.awaits hunexhausted entry hentry hputBack).mono (fun _ => .inl) ?_
          (List.Subset.refl _)
        rw [hinflight, List.map_append, List.map_append]
        exact List.Subset.refl _
    | complete before resp now unixNow hphase hinflight =>
        exact hs.complete hinflight resp now unixNow
    | finish hphase hinflight hqueue => exact ⟨fun _ _ _ => ⟨hqueue, hinflight⟩, hs.awaits⟩

/-! ### Refusals are put back while their resets are ahead -/

def Processed.SpentUntil (entry : Processed) (resetAt : ℤ) : Prop :=
  ∃ resp ∈ entry.response, resp.SpentUntil resetAt

/-- The refusals that spent the rate limit are not judged by the status policy: none
stops the source or counts as progress, and their tasks are fetched until something
else is answered, unless the poll is aborted or its budget is exhausted. -/
structure PutsBack (P : Params) (s : Poll) : Prop where
  unjudged : ∀ entry ∈ s.log.processed, ∀ resetAt, entry.SpentUntil resetAt →
    entry.behavior P = none ∧ entry.progress P = 0
  aborted : s.phase = .done .abort → ∃ entry ∈ s.log.processed,
    (∀ resetAt, ¬entry.SpentUntil resetAt) ∧ entry.behavior P = some .abort
  counted : s.progressed = (s.log.processed.map (Processed.progress P)).sum
  answered : ∀ outcome, s.phase = .done outcome → outcome ≠ .abort → s.log.exhausted = false →
    ∀ entry ∈ s.log.processed, ∀ resetAt, entry.SpentUntil resetAt →
      ∃ later ∈ s.log.processed, later.task = entry.task ∧ ∀ resetAt, ¬later.SpentUntil resetAt

/-- Each reset was ahead of the clock when its response was looked at. -/
def Clocked.ResetsAhead (s : Clocked) : Prop :=
  List.Forall₂ (fun entry unixNow => ∀ resetAt, Processed.SpentUntil entry resetAt →
    AheadOf resetAt unixNow) s.poll.log.processed s.clocks

theorem rateLimited_iff {task : RequestTask} {resp : Option FetchedResponse} {unixNow : Option ℕ}
    {resetAt : ℤ} (h : (Processed.of task resp unixNow).SpentUntil resetAt) :
    (Processed.of task resp unixNow).rateLimited = true ↔ AheadOf resetAt unixNow := by
  obtain ⟨resp, hresp, hspent⟩ := h
  cases hresp
  exact rateLimitResetIn_isSome_iff hspent unixNow

/-- The policy is not asked of a refusal exactly if the request is put back. -/
theorem Processed.SpentUntil.behavior_eq_none_iff {entry : Processed} {resetAt : ℤ}
    (h : entry.SpentUntil resetAt) : entry.behavior P = none ↔ entry.rateLimited = true := by
  obtain ⟨resp, hresp, hspent⟩ := h
  unfold Processed.behavior
  rw [Option.mem_def.mp hresp, Option.bind_some, hspent.refused, Bool.false_or]
  cases entry.rateLimited <;> simp

theorem Clocked.Read.resetsAhead_iff {s : Clocked} (h : s.Read) :
    s.ResetsAhead ↔ ∀ entry ∈ s.poll.log.processed, ∀ resetAt, entry.SpentUntil resetAt →
      entry.rateLimited = true := by
  unfold Clocked.ResetsAhead
  unfold Clocked.Read at h
  generalize s.poll.log.processed = processed at h ⊢
  generalize s.clocks = clocks at h ⊢
  induction h with
  | nil => simp
  | cons hread _ ih =>
      rw [List.forall₂_cons, List.forall_mem_cons, ih]
      refine and_congr_left fun _ => forall₂_congr fun resetAt hspent => ?_
      rw [hread] at hspent ⊢
      exact (rateLimited_iff hspent).symm

theorem putsBack_of_rateLimited {s : Poll} (h : (system P upstream).Reachable s)
    (hlimited : ∀ entry ∈ s.log.processed, ∀ resetAt, entry.SpentUntil resetAt →
      entry.rateLimited = true) : PutsBack P s := by
  have haccounted := (accounted_invariant P upstream).holds h
  have hpending := (pending_invariant P upstream).holds h
  have hunjudged : ∀ entry ∈ s.log.processed, ∀ resetAt, entry.SpentUntil resetAt →
      entry.behavior P = none := fun entry hmem resetAt hspent =>
    hspent.behavior_eq_none_iff.mpr (hlimited entry hmem resetAt hspent)
  constructor
  · intro entry hmem resetAt hspent
    have hnone := hunjudged entry hmem resetAt hspent
    refine ⟨hnone, Processed.progress_eq_zero_iff.mpr ⟨?_, by simp [hnone]⟩⟩
    obtain ⟨resp, hresp, hspent⟩ := hspent
    unfold Processed.succeeded
    rw [Option.mem_def.mp hresp, Option.any_some, hspent.refused]
  · intro hdone
    obtain ⟨entry, hmem, habort⟩ := haccounted.aborted.mp hdone
    refine ⟨entry, hmem, fun resetAt hspent => ?_, habort⟩
    rw [hunjudged entry hmem resetAt hspent] at habort
    contradiction
  · exact haccounted.progressed
  · intro outcome hdone hne hunexhausted entry hmem resetAt hspent
    obtain ⟨hqueue, hinflight⟩ := hpending.idle outcome hdone hne
    have hputBack : ∀ entry ∈ s.log.processed, ∀ resetAt, entry.SpentUntil resetAt →
        entry.putBack = true := by
      intro entry hmem resetAt hspent
      have hback := hlimited entry hmem resetAt hspent
      obtain ⟨resp, hresp, hspent⟩ := hspent
      unfold Processed.putBack
      rw [hback, Option.mem_def.mp hresp, Option.any_some, hspent.refused]
      rfl
    rcases hpending.awaits hunexhausted entry hmem (hputBack entry hmem resetAt hspent) with
      hleft | hleft | ⟨later, hlater, htask, hnot⟩
    · rw [hqueue] at hleft
      contradiction
    · rw [hinflight] at hleft
      contradiction
    · refine ⟨later, hlater, htask, fun resetAt hspent => ?_⟩
      rw [hputBack later hlater resetAt hspent] at hnot
      contradiction

/-- For every poll, in whatever order responses come: a refusal that spent the rate
limit is put back, and is not judged, exactly if its reset is ahead of the local
clock; a poll puts back all of them exactly if that holds of all. -/
theorem refusals_put_back_iff (P : Params)
    (upstream : OutgoingRequest → Option FetchedResponse → Prop) :
    (∀ (s : Poll) (task : RequestTask) (resp : FetchedResponse) (resetAt : ℤ) (now : Instant)
      (unixNow : Option ℕ), resp.SpentUntil resetAt →
        (s.PutBack (s.process P task (some resp) now unixNow) task ↔ AheadOf resetAt unixNow)) ∧
    ∀ s, (clockedSystem P upstream).Reachable s → (PutsBack P s.poll ↔ s.ResetsAhead) := by
  constructor
  · intro s task resp resetAt now unixNow h
    exact putBack_iff h now unixNow
  · intro s h
    rw [((read_invariant P upstream).holds h).resetsAhead_iff]
    constructor
    · intro hputsBack entry hmem resetAt hspent
      exact hspent.behavior_eq_none_iff.mp (hputsBack.unjudged entry hmem resetAt hspent).1
    · exact putsBack_of_rateLimited (reachable_poll h)

/-! ### A refusal at the instant of its reset -/

/-- `403`, with the budget spent until 2023-11-14T22:13:20Z. -/
def spent : FetchedResponse where
  status := 403
  headers := [
    (⟨"x-ratelimit-remaining", by decide⟩, ⟨Text.utf8 "0", false, by decide⟩),
    (⟨"x-ratelimit-reset", by decide⟩, ⟨Text.utf8 "1700000000", false, by decide⟩)]
  bodyText := ""

theorem spent_spentUntil : spent.SpentUntil 1700000000 :=
  ⟨by decide, ⟨0, by decide, by decide⟩, by decide⟩

/-- A source that asks for one page, with the default policy. -/
def onePage : Params := .sample [] (askFor "pipeline" ["https://api.example.com/"])

/-- The only task of a bootstrap is refused while the clock reads `unixNow`. -/
theorem first_completes {task : RequestTask} (hboot : P.bootstrap = some [task])
    (hbudget : 0 < P.maxRequests) {resp : FetchedResponse}
    (hanswer : P.Answers upstream P.trustedOrigin task (some resp)) (unixNow : Option ℕ) :
    ∃ poll : Poll, poll.phase = .filling ∧ poll.queue = [] ∧ poll.log.processed = [] ∧
      (clockedSystem P upstream).Reachable
        ⟨poll.process P task (some resp) 0 unixNow, [unixNow]⟩ := by
  have hstart : P.start none 0 =
      { queue := [task], inflight := [], issued := 0, progressed := 0, nextAllowed := none,
        rateLimitedUntil := none, trustedOrigin := P.trustedOrigin, driverRuns := 1,
        phase := .filling, now := 0, log := .empty } := by
    simp only [Params.start, hboot]
  have s0 : (clockedSystem P upstream).Reachable ⟨P.start none 0, []⟩ :=
    .init ⟨⟨none, 0, rfl⟩, rfl⟩
  rw [hstart] at s0
  have s1 := s0.next (.other (.issue 0 rfl P.concurrency_pos rfl hbudget (Nat.le_refl _) (by simp))
    rfl)
  have s2 := s1.next (.other (.filled rfl (.inr rfl)) rfl)
  have s3 := s2.next (.other (.start [] 0 rfl rfl (by simp) (Nat.le_refl _)) rfl)
  have s4 := s3.next (.complete [] (some resp) 0 unixNow rfl rfl (Nat.le_refl _) hanswer)
  exact ⟨_, rfl, rfl, rfl, s4⟩

theorem onePage_refused (unixNow : Option ℕ) : ∃ poll : Poll,
    poll.phase = .filling ∧ poll.queue = [] ∧ poll.log.processed = [] ∧
    (clockedSystem onePage fun _ _ => True).Reachable
      ⟨poll.process onePage (sampleTask "https://api.example.com/") (some spent) 0 unixNow,
        [unixNow]⟩ := by
  refine first_completes rfl (by decide) ?_ unixNow
  have hsome : (onePage.fetchRequest onePage.trustedOrigin
      (sampleTask "https://api.example.com/").spec).isSome = true := by decide
  obtain ⟨request, hrequest⟩ := Option.isSome_iff_exists.mp hsome
  unfold Params.Answers
  rw [hrequest]
  trivial

/-- A second before its reset the refusal is put back. -/
theorem refusals_put_back_iff_sample : ∃ s,
    (clockedSystem onePage fun _ _ => True).Reachable s ∧ PutsBack onePage s.poll ∧
      s.poll.queue = [sampleTask "https://api.example.com/"] := by
  obtain ⟨poll, -, hempty, hnone, hreach⟩ := onePage_refused (some 1699999999)
  obtain ⟨hone, hall⟩ := refusals_put_back_iff onePage fun _ _ => True
  have hahead : AheadOf 1700000000 (some 1699999999) := ⟨_, rfl, by decide, by decide⟩
  have hputBack := (hone poll (sampleTask "https://api.example.com/") spent 1700000000 0 _
    spent_spentUntil).mpr hahead
  refine ⟨_, hreach, (hall _ hreach).mpr ?_, ?_⟩
  · show List.Forall₂ _ (Poll.process _ _ _ _ _ _).log.processed _
    rw [(process_counted _ _ _ _ _ _).1, hnone, List.nil_append]
    refine .cons ?_ .nil
    rintro resetAt ⟨resp, hresp, hspent⟩
    cases hresp
    obtain rfl := Option.some.inj (hspent.reset.symm.trans spent_spentUntil.reset)
    exact hahead
  · show (Poll.process _ _ _ _ _ _).queue = _
    rw [hputBack.queue, hempty]

/-- At its reset it stops the source. -/
theorem refusal_at_reset_aborts : ∃ s,
    (clockedSystem onePage fun _ _ => True).Reachable s ∧ s.clocks = [some 1700000000] ∧
      (∀ entry ∈ s.poll.log.processed, entry.SpentUntil 1700000000) ∧
      s.poll.phase = .done .abort ∧ ¬PutsBack onePage s.poll := by
  obtain ⟨poll, hphase, -, hnone, hreach⟩ := onePage_refused (some 1700000000)
  obtain ⟨hprocessed, -, hnext⟩ := process_counted onePage poll
    (sampleTask "https://api.example.com/") (some spent) 0 (some 1700000000)
  have habort : (Processed.of (sampleTask "https://api.example.com/") (some spent)
      (some 1700000000)).behavior onePage = some .abort := by decide
  rw [hnone, List.nil_append] at hprocessed
  rw [if_pos habort] at hnext
  have hspent : (Processed.of (sampleTask "https://api.example.com/") (some spent)
      (some 1700000000)).SpentUntil 1700000000 := ⟨spent, rfl, spent_spentUntil⟩
  refine ⟨_, hreach, rfl, ?_, hnext, fun hputsBack => ?_⟩
  · rw [hprocessed]
    exact List.forall_mem_singleton.mpr hspent
  · obtain ⟨entry, hmem, hnot, -⟩ := hputsBack.aborted hnext
    rw [hprocessed] at hmem
    obtain rfl := List.mem_singleton.mp hmem
    exact hnot _ hspent

end CdvizCollector.Sources.HttpPolling
