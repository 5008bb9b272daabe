import CdvizCollector.Sources.HttpPolling.Termination

/-!
What a poll returns.

The outcome is read off two counters, of the requests issued and of those that
made progress, and an abort cuts the loop short. Both are accounted for by what
was processed: a transport failure and a rate-limited refusal, which is put back,
count for nothing, and every other response counts by its status alone.
-/

namespace CdvizCollector.Sources.HttpPolling

open Lib

variable {P : Params} {upstream : OutgoingRequest → Option FetchedResponse → Prop} {s t : Poll}

def Processed.succeeded (entry : Processed) : Bool :=
  entry.response.any FetchedResponse.isSuccess

/-- What the policy says of a response, if it is asked: it is not of a 2xx, and
not of a refusal that spent the rate limit. -/
def Processed.behavior (P : Params) (entry : Processed) : Option Behavior :=
  entry.response.bind fun resp =>
    if resp.isSuccess || entry.rateLimited then none else some (P.onStatus.resolve resp.status)

def Processed.progress (P : Params) (entry : Processed) : ℕ :=
  if entry.succeeded = true ∨ entry.behavior P = some .skip then 1 else 0

theorem Processed.progress_eq_zero_iff {entry : Processed} :
    entry.progress P = 0 ↔ entry.succeeded = false ∧ entry.behavior P ≠ some .skip := by
  rw [← Bool.not_eq_true, ne_eq, ← not_or, Processed.progress]
  by_cases h : entry.succeeded = true ∨ entry.behavior P = some .skip <;> simp [h]

/-- A completed request is counted, and ends the poll, by its own entry. -/
theorem process_counted (P : Params) (s : Poll) (task : RequestTask)
    (resp : Option FetchedResponse) (now : Instant) (unixNow : Option ℕ) :
    let entry := Processed.of task resp unixNow
    (s.process P task resp now unixNow).log.processed = s.log.processed ++ [entry] ∧
      (s.process P task resp now unixNow).progressed = s.progressed + entry.progress P ∧
      (s.process P task resp now unixNow).phase =
        if entry.behavior P = some .abort then .done .abort else s.phase := by
  cases resp with
  | none => exact ⟨rfl, rfl, rfl⟩
  | some resp =>
      obtain ⟨nextAllowed, rateLimitedUntil, hprocess⟩ := process_some P s task resp now unixNow
      have hentry : Processed.of task (some resp) unixNow =
          ⟨task, some resp, (rateLimitResetIn resp.headers unixNow).isSome⟩ := rfl
      rw [hprocess, hentry]
      generalize (rateLimitResetIn resp.headers unixNow).isSome = rateLimited
      cases hsuccess : resp.isSuccess with
      | true =>
          obtain ⟨driverRuns, haccepted⟩ := accepted_eq (P := P)
            (s.logged task resp rateLimited nextAllowed rateLimitedUntil) task hsuccess
          have hbehavior : (⟨task, some resp, rateLimited⟩ : Processed).behavior P = none := by
            simp [Processed.behavior, hsuccess]
          simp only [if_true, haccepted, hbehavior]
          exact ⟨rfl, by rw [Processed.progress, if_pos (.inl hsuccess)]; rfl, rfl⟩
      | false =>
          cases rateLimited with
          | true =>
              simp [Poll.refused, Poll.logged, Processed.progress, Processed.succeeded,
                Processed.behavior, hsuccess]
          | false =>
              cases hbehavior : P.onStatus.resolve resp.status <;>
                simp [Poll.refused, Poll.logged, Processed.progress, Processed.succeeded,
                  Processed.behavior, hsuccess, hbehavior]

/-- The counters and the end of a poll, in terms of what was processed. -/
structure Accounted (P : Params) (s : Poll) : Prop where
  issued : s.issued = s.log.processed.length + s.inflight.length
  progressed : s.progressed = (s.log.processed.map (Processed.progress P)).sum
  aborted : s.phase = .done .abort ↔ ∃ entry ∈ s.log.processed, entry.behavior P = some .abort
  returned : ∀ outcome, s.phase = .done outcome → outcome ≠ .abort →
    outcome = if P.bootstrap = none then .hold else s.outcome
  bootstrapped : P.bootstrap = none → s.phase = .done .hold ∧ s.log.processed = []

theorem start_accounted (P : Params) (rateLimitedUntil : Option Instant) (now : Instant) :
    Accounted P (P.start rateLimitedUntil now) := by
  unfold Params.start
  cases hboot : P.bootstrap with
  | none => constructor <;> simp [PollLog.empty, hboot]
  | some queue => constructor <;> simp [PollLog.empty, hboot]

theorem Poll.outcome_ne_abort (s : Poll) : s.outcome ≠ .abort := by
  unfold Poll.outcome
  split <;> simp

theorem Accounted.complete {before after : List InFlight} {f : InFlight} {task : RequestTask}
    {now : Instant} (hs : Accounted P s) (hphase : s.phase = .awaiting)
    (hinflight : s.inflight = before ++ f :: after) (resp : Option FetchedResponse)
    (unixNow : Option ℕ) :
    Accounted P (Poll.process P { s with inflight := before ++ after, phase := .filling, now }
      task resp now unixNow) := by
  obtain ⟨hprocessed, hprogressed, hnext⟩ := process_counted P
    { s with inflight := before ++ after, phase := .filling, now } task resp now unixNow
  generalize Processed.of task resp unixNow = entry at hprocessed hprogressed hnext
  have hnone : ∀ entry ∈ s.log.processed, entry.behavior P ≠ some .abort := by
    intro entry hmem habort
    have := hs.aborted.mpr ⟨entry, hmem, habort⟩
    rw [hphase] at this
    contradiction
  have hframe : ∃ entry', Framed { s with inflight := before ++ after, phase := .filling, now }
      (Poll.process P { s with inflight := before ++ after, phase := .filling, now } task resp now
        unixNow) entry' := by
    cases process_effect P { s with inflight := before ++ after, phase := .filling, now } task resp
      now unixNow with
    | requeued hframe => exact ⟨_, hframe⟩
    | judged rateLimited hframe => exact ⟨_, hframe⟩
  obtain ⟨_, hframe⟩ := hframe
  constructor
  · have hissued := hs.issued
    rw [hinflight, List.length_append, List.length_cons] at hissued
    rw [hframe.issued, hframe.inflight, hprocessed, List.length_append, List.length_append,
      List.length_singleton]
    show s.issued = s.log.processed.length + 1 + (before.length + after.length)
    omega
  · rw [hprogressed, hprocessed, List.map_append, List.sum_append, List.map_singleton,
      List.sum_singleton, hs.progressed]
  · rw [hnext, hprocessed]
    constructor
    · intro hdone
      refine ⟨entry, by simp, ?_⟩
      by_contra hnot
      rw [if_neg hnot] at hdone
      contradiction
    · rintro ⟨entry', hmem, habort⟩
      rcases List.mem_append.mp hmem with hmem | hmem
      · exact absurd habort (hnone entry' hmem)
      · obtain rfl := List.mem_singleton.mp hmem
        rw [if_pos habort]
  · intro outcome hdone hne
    rw [hnext] at hdone
    split at hdone
    · exact absurd (Phase.done.inj hdone).symm hne
    · contradiction
  · intro hboot
    have hheld := (hs.bootstrapped hboot).1
    rw [hphase] at hheld
    contradiction

theorem accounted_invariant (P : Params)
    (upstream : OutgoingRequest → Option FetchedResponse → Prop) :
    (system P upstream).Invariant (Accounted P) where
  init := by
    rintro s ⟨rateLimitedUntil, now, rfl⟩
    exact start_accounted P rateLimitedUntil now
  step := by
    intro s t hs hstep
    -- a step from within the loop that neither counts nor ends it
    have hkeep : ∀ {phase : Phase}, s.phase = phase → (∀ outcome, phase ≠ .done outcome) →
        t.issued = t.log.processed.length + t.inflight.length →
        t.progressed = s.progressed → t.log.processed = s.log.processed →
        (∀ outcome, t.phase ≠ .done outcome) → Accounted P t := by
      intro phase hphase hloop hissued hprogressed hprocessed hnext
      constructor
      · exact hissued
      · rw [hprogressed, hprocessed, hs.progressed]
      · rw [hprocessed, ← hs.aborted, hphase]
        exact iff_of_false (hnext _) (hloop _)
      · exact fun outcome hdone => absurd hdone (hnext outcome)
      · exact fun hboot => absurd (hphase.symm.trans (hs.bootstrapped hboot).1) (hloop _)
    cases hstep with
    | issue now hphase =>
        have hissued := hs.issued
        refine hkeep hphase (by simp) ?_ rfl rfl (by simp [hphase])
        show s.issued + 1 = s.log.processed.length + (s.inflight ++ [_]).length
        rw [List.length_append, List.length_singleton]
        omega
    | budget hphase => exact hkeep hphase (by simp) hs.issued rfl rfl (by simp)
    | filled hphase => exact hkeep hphase (by simp) hs.issued rfl rfl (by simp)
    | start before now hphase hinflight =>
        refine hkeep hphase (by simp) ?_ rfl rfl (by simp [hphase])
        show s.issued = _
        rw [hs.issued, hinflight]
        simp only [List.length_append, List.length_cons]
    | complete before resp now unixNow hphase hinflight =>
        exact hs.complete hphase hinflight resp unixNow
    | refill hphase => exact hkeep hphase (by simp) hs.issued rfl rfl (by simp)
    | finish hphase =>
        have haborted := hs.aborted
        have hbooted : P.bootstrap ≠ none := by
          intro hboot
          have hheld := (hs.bootstrapped hboot).1
          rw [hphase] at hheld
          contradiction
        rw [hphase] at haborted
        constructor
        · exact hs.issued
        · exact hs.progressed
        · rw [← haborted]
          exact iff_of_false (fun h => s.outcome_ne_abort (Phase.done.inj h)) (by simp)
        · intro outcome hdone hne
          rw [if_neg hbooted]
          exact (Phase.done.inj hdone).symm
        · exact fun hboot => absurd hboot hbooted

/-- What a poll returns, given what it processed. -/
structure Returned (P : Params) (s : Poll) (outcome : PollOutcome) : Prop where
  abort : outcome = .abort ↔ ∃ entry ∈ s.log.processed, entry.behavior P = some .abort
  hold : outcome ≠ .abort → (outcome = .hold ↔ P.bootstrap = none ∨
    s.log.fetched ≠ [] ∧ ∀ entry ∈ s.log.processed,
      entry.succeeded = false ∧ entry.behavior P ≠ some .skip)

theorem returned_of_done (h : (system P upstream).Reachable s) {outcome : PollOutcome}
    (hdone : s.phase = .done outcome) : Returned P s outcome := by
  have hs := (accounted_invariant P upstream).holds h
  have hissued := ((guarded_invariant P upstream).holds h).fetched
  constructor
  · rw [← hs.aborted, hdone]
    simp
  · intro hne
    rw [hs.returned outcome hdone hne]
    by_cases hboot : P.bootstrap = none
    · simp [hboot]
    · have hzero : s.progressed = 0 ↔ ∀ entry ∈ s.log.processed,
          entry.succeeded = false ∧ entry.behavior P ≠ some .skip := by
        rw [hs.progressed, List.sum_eq_zero_iff_forall_eq_nat]
        simp [Processed.progress_eq_zero_iff]
      have hpos : 0 < s.issued ↔ s.log.fetched ≠ [] := by
        rw [← hissued, List.length_pos_iff]
      rw [if_neg hboot, ← hzero, ← hpos, Poll.outcome]
      split <;> simp_all

theorem fetched_ne_nil (h : (system P upstream).Reachable s) (hne : s.log.processed ≠ []) :
    s.log.fetched ≠ [] := by
  have hissued := ((accounted_invariant P upstream).holds h).issued
  have hfetched := ((guarded_invariant P upstream).holds h).fetched
  have hpos := List.length_pos_of_ne_nil hne
  apply List.ne_nil_of_length_pos
  omega

/-- Some response is to hold the window, one to be retried that the retries did
not help included, and none stops the source. -/
structure Poll.Held (P : Params) (s : Poll) : Prop where
  held : ∃ entry ∈ s.log.processed,
    entry.behavior P = some .hold ∨ entry.behavior P = some .retry
  unaborted : ∀ entry ∈ s.log.processed, entry.behavior P ≠ some .abort

/-- A poll with a held response holds exactly if no other one counts as progress. -/
theorem Poll.Held.returns_hold_iff (hheld : s.Held P) (h : (system P upstream).Reachable s)
    {outcome : PollOutcome} (hdone : s.phase = .done outcome) :
    outcome = .hold ↔ ∀ entry ∈ s.log.processed,
      entry.succeeded = false ∧ entry.behavior P ≠ some .skip := by
  have hreturned := returned_of_done h hdone
  obtain ⟨entry, hmem, hbehavior⟩ := hheld.held
  have hunaborted : outcome ≠ .abort := by
    intro habort
    obtain ⟨entry', hmem', habort'⟩ := hreturned.abort.mp habort
    exact hheld.unaborted entry' hmem' habort'
  have hbooted : P.bootstrap ≠ none := by
    intro hboot
    have hnil := (((accounted_invariant P upstream).holds h).bootstrapped hboot).2
    exact absurd hmem (by simp [hnil])
  rw [hreturned.hold hunaborted]
  exact ⟨fun h => (h.resolve_left hbooted).2,
    fun hnone => .inr ⟨fetched_ne_nil h (List.ne_nil_of_mem hmem), hnone⟩⟩

end CdvizCollector.Sources.HttpPolling
