import CdvizCollector.Sources.HttpPolling.Extractor
import CdvizCollector.Sources.HttpPolling.RateLimit
import Mathlib.Data.List.Chain

/-!
When the requests of a source start.

`next_allowed` holds back a request before it is put in flight, and what is put
in flight starts when the loop next waits. In between others may be put in
flight, or a response may move the pause, and none of this holds back what is
already in flight.
-/

namespace CdvizCollector.Sources.HttpPolling

open Lib

/-! ### What a response does to the pause -/

/-- The instant up to which a response pauses the source. -/
def pauseUntil (resp : Option FetchedResponse) (now : Instant) (unixNow : Option ℕ) :
    Option Instant :=
  (resp.bind fun resp => rateLimitResetIn resp.headers unixNow).map fun resetIn =>
    now + Nat.min resetIn maxRateLimitWait

def Covered (cur : Option Instant) (at' : Instant) : Prop := ∃ until' ∈ cur, at' ≤ until'

theorem covered_laterOf_self (at' : Instant) (cur : Option Instant) :
    Covered (laterOf at' cur) at' := by
  cases cur with
  | none => exact ⟨at', rfl, Nat.le_refl at'⟩
  | some until' => exact ⟨_, rfl, Nat.le_max_right until' at'⟩

theorem Covered.laterOf {cur : Option Instant} {at' : Instant} (h : Covered cur at')
    (other : Instant) : Covered (laterOf other cur) at' := by
  obtain ⟨until', rfl, hle⟩ := h
  exact ⟨_, rfl, Nat.le_trans hle (Nat.le_max_left until' other)⟩

/-- Neither pause of the poll is pulled in, and both reach what a response asks for. -/
structure Extends (s t : Poll) (until' : Option Instant) : Prop where
  nextAllowed : ∀ at', Covered s.nextAllowed at' ∨ at' ∈ until' → Covered t.nextAllowed at'
  rateLimitedUntil :
    ∀ at', Covered s.rateLimitedUntil at' ∨ at' ∈ until' → Covered t.rateLimitedUntil at'

theorem Extends.congr {s t u : Poll} {until' : Option Instant} (h : Extends s t until')
    (hnext : u.nextAllowed = t.nextAllowed) (hrate : u.rateLimitedUntil = t.rateLimitedUntil) :
    Extends s u until' where
  nextAllowed at' hat := hnext ▸ h.nextAllowed at' hat
  rateLimitedUntil at' hat := hrate ▸ h.rateLimitedUntil at' hat

theorem applyRateLimitPause_extends (s : Poll) (resp : FetchedResponse) (now : Instant)
    (unixNow : Option ℕ) :
    Extends s (s.applyRateLimitPause resp.headers now unixNow).2
      (pauseUntil (some resp) now unixNow) := by
  unfold Poll.applyRateLimitPause pauseUntil
  rw [Option.bind_some]
  cases rateLimitResetIn resp.headers unixNow with
  | none => exact ⟨fun at' h => h.resolve_right nofun, fun at' h => h.resolve_right nofun⟩
  | some resetIn =>
      constructor
      · rintro at' (h | ⟨⟨⟩⟩)
        · exact h.laterOf _
        · exact covered_laterOf_self _ _
      · rintro at' (h | ⟨⟨⟩⟩)
        · exact h.laterOf _
        · exact covered_laterOf_self _ _

section

variable {P : Params} {task : RequestTask} {resp : FetchedResponse}

theorem feedBack_pause (s : Poll) : (s.feedBack P task resp).nextAllowed = s.nextAllowed ∧
    (s.feedBack P task resp).rateLimitedUntil = s.rateLimitedUntil := by
  unfold Poll.feedBack
  split
  · exact ⟨rfl, rfl⟩
  · exact ⟨rfl, rfl⟩

theorem accepted_pause (s : Poll) : (s.accepted P task resp).nextAllowed = s.nextAllowed ∧
    (s.accepted P task resp).rateLimitedUntil = s.rateLimitedUntil := by
  unfold Poll.accepted
  dsimp only
  cases task.spec.route.feedsBack <;> cases task.spec.route.emits
  · exact ⟨rfl, rfl⟩
  · exact ⟨rfl, rfl⟩
  · exact feedBack_pause _
  · exact feedBack_pause _

theorem refused_pause (s : Poll) (rateLimited : Bool) :
    (s.refused P task resp rateLimited).nextAllowed = s.nextAllowed ∧
      (s.refused P task resp rateLimited).rateLimitedUntil = s.rateLimitedUntil := by
  unfold Poll.refused
  split
  · exact ⟨rfl, rfl⟩
  · split
    · exact ⟨rfl, rfl⟩
    · exact ⟨rfl, rfl⟩
    · exact ⟨rfl, rfl⟩
    · exact ⟨rfl, rfl⟩

end

theorem process_extends (P : Params) (s : Poll) (task : RequestTask)
    (resp : Option FetchedResponse) (now : Instant) (unixNow : Option ℕ) :
    Extends s (s.process P task resp now unixNow) (pauseUntil resp now unixNow) := by
  cases resp with
  | none => exact ⟨fun at' h => h.resolve_right nofun, fun at' h => h.resolve_right nofun⟩
  | some resp =>
      have hpause := applyRateLimitPause_extends s resp now unixNow
      unfold Poll.process
      dsimp only
      split
      · exact hpause.congr (accepted_pause _).1 (accepted_pause _).2
      · exact hpause.congr (refused_pause _ _).1 (refused_pause _ _).2

/-! ### The steps of a poll with what they show -/

inductive PacingEvent
  | started (at' : Instant)
  /-- A response paused the source until then. -/
  | paused (until' : Instant)

inductive EventStep (P : Params) (upstream : OutgoingRequest → Option FetchedResponse → Prop) :
    Poll → List PacingEvent → Poll → Prop
  | started {s t : Poll} {task : RequestTask} {at' : Instant} (hstep : Step P upstream s t)
      (hstarted : t.log.started = s.log.started ++ [(task, at')]) :
      EventStep P upstream s [.started at'] t
  | completed {s : Poll} (before : List InFlight) {after : List InFlight} {task : RequestTask}
      {at' : Instant} (resp : Option FetchedResponse) (now : Instant) (unixNow : Option ℕ)
      (hphase : s.phase = .awaiting)
      (hinflight : s.inflight = before ++ InFlight.mk task (some at') :: after)
      (hnow : s.now ≤ now) (hanswer : P.Answers upstream s.trustedOrigin task resp) :
      EventStep P upstream s ((pauseUntil resp now unixNow).map .paused).toList
        (Poll.process P { s with inflight := before ++ after, phase := .filling, now }
          task resp now unixNow)
  | quiet {s t : Poll} (hstep : Step P upstream s t) (hstarted : t.log.started = s.log.started)
      (hprocessed : t.log.processed = s.log.processed) : EventStep P upstream s [] t

variable {P : Params} {upstream : OutgoingRequest → Option FetchedResponse → Prop} {s t : Poll}

theorem EventStep.step {events : List PacingEvent} (h : EventStep P upstream s events t) :
    Step P upstream s t := by
  cases h with
  | started hstep => exact hstep
  | completed before resp now unixNow hphase hinflight hnow hanswer =>
      exact .complete before resp now unixNow hphase hinflight hnow hanswer
  | quiet hstep => exact hstep

theorem exists_eventStep (h : Step P upstream s t) : ∃ events, EventStep P upstream s events t := by
  cases h with
  | start before now hphase hinflight hbefore hnow =>
      exact ⟨_, .started (.start before now hphase hinflight hbefore hnow) rfl⟩
  | complete before resp now unixNow hphase hinflight hnow hanswer =>
      exact ⟨_, .completed before resp now unixNow hphase hinflight hnow hanswer⟩
  | issue now hphase hroom hqueue hbudget hnow hallowed =>
      exact ⟨_, .quiet (.issue now hphase hroom hqueue hbudget hnow hallowed) rfl rfl⟩
  | budget hphase hroom hqueue hbudget =>
      exact ⟨_, .quiet (.budget hphase hroom hqueue hbudget) rfl rfl⟩
  | filled hphase hfilled => exact ⟨_, .quiet (.filled hphase hfilled) rfl rfl⟩
  | refill hphase hinflight hqueue =>
      exact ⟨_, .quiet (.refill hphase hinflight hqueue) rfl rfl⟩
  | finish hphase hinflight hqueue =>
      exact ⟨_, .quiet (.finish hphase hinflight hqueue) rfl rfl⟩

/-! ### Requests that start in the order in which they are put in flight -/

/-- `min_request_interval`, if it is set. -/
def Params.interval (P : Params) : ℕ := P.minRequestInterval.getD 0

/-- Requests in flight that have not started. -/
def Poll.unstarted (s : Poll) : ℕ := s.inflight.countP fun f => f.started.isNone

/-- The starts of a poll. -/
def Poll.starts (s : Poll) : List Instant := s.log.started.map Prod.snd

/-- The requests that have started, each with when it was put in flight and when it started. -/
def Poll.timed (s : Poll) : List (Instant × Instant) := s.log.pushed.zip s.starts

/-- What has been put in flight are the requests that have started and, after them, those
that have not. -/
structure InOrder (s : Poll) : Prop where
  fetched : s.log.fetched = s.log.started.map Prod.fst ++
    (s.inflight.filter fun f => f.started.isNone).map InFlight.task
  pushed : s.log.pushed.length = s.log.fetched.length

theorem InOrder.length_pushed {s : Poll} (h : InOrder s) :
    s.log.pushed.length = s.starts.length + s.unstarted := by
  rw [h.pushed, h.fetched, List.length_append, List.length_map, List.length_map, Poll.starts,
    List.length_map, Poll.unstarted, List.countP_eq_length_filter]

theorem process_framed (P : Params) (s : Poll) (task : RequestTask)
    (resp : Option FetchedResponse) (now : Instant) (unixNow : Option ℕ) :
    ∃ entry, Framed s (s.process P task resp now unixNow) entry := by
  cases process_effect P s task resp now unixNow with
  | requeued hframe => exact ⟨_, hframe⟩
  | judged _ hframe => exact ⟨_, hframe⟩

theorem inOrder_step (h : InOrder s) (hstep : Step P upstream s t) : InOrder t := by
  cases hstep with
  | issue now hphase hroom hqueue hbudget hnow hallowed =>
      constructor
      · show s.log.fetched ++ [_] = _
        rw [h.fetched, List.filter_append, List.map_append, ← List.append_assoc]
        rfl
      · show (s.log.pushed ++ [_]).length = (s.log.fetched ++ [_]).length
        rw [List.length_append, List.length_append, h.pushed]
        rfl
  | @start before after task now hphase hinflight hbefore hnow =>
      have hnone : before.filter (fun f => f.started.isNone) = [] := by
        rw [List.filter_eq_nil_iff]
        intro f hf
        rw [Option.isNone_iff_eq_none]
        exact Option.isSome_iff_ne_none.mp (hbefore f hf)
      refine ⟨?_, h.pushed⟩
      have hfetched := h.fetched
      rw [hinflight, List.filter_append, hnone] at hfetched
      show s.log.fetched = (s.log.started ++ [_]).map Prod.fst ++
        List.map InFlight.task (List.filter (fun f => f.started.isNone) (before ++ _ :: after))
      rw [List.filter_append, hnone]
      rw [hfetched, List.map_append, List.map_append, List.map_append, List.append_assoc]
      rfl
  | @complete before after task at' resp now unixNow hphase hinflight =>
      obtain ⟨entry, hframe⟩ := process_framed P
        { s with inflight := before ++ after, phase := .filling, now } task resp now unixNow
      have hfetched := h.fetched
      rw [hinflight, List.filter_append] at hfetched
      refine ⟨?_, ?_⟩
      · rw [hframe.fetched, hframe.started, hframe.inflight, List.filter_append]
        exact hfetched
      · rw [hframe.pushed, hframe.fetched]
        exact h.pushed
  | budget | filled | refill | finish => exact ⟨h.fetched, h.pushed⟩

/-- The second of two requests is put in flight an interval after the first one has started,
or it waits for its start no less than that one did. -/
def Follows (interval : ℕ) (a b : Instant × Instant) : Prop :=
  a.2 + interval ≤ b.1 ∨ a.2 - a.1 ≤ b.2 - b.1

theorem apart_of_waits {a a' b b' interval : ℕ} (ha : a ≤ a') (hb : b ≤ b')
    (hapart : a + interval ≤ b) (hwaits : a' - a ≤ b' - b) : a' + interval ≤ b' := by omega

/-- Requests that are put in flight an interval apart start an interval apart. -/
theorem spaced_of_follows {interval : ℕ} {pushed starts : List Instant}
    (hlength : starts.length ≤ pushed.length)
    (hpushed : pushed.IsChain fun a b => a + interval ≤ b)
    (hbegun : ∀ request ∈ pushed.zip starts, request.1 ≤ request.2)
    (hfollows : (pushed.zip starts).IsChain (Follows interval)) :
    starts.IsChain fun a b => a + interval ≤ b := by
  induction pushed generalizing starts with
  | nil =>
      rw [List.eq_nil_of_length_eq_zero (Nat.le_zero.mp hlength)]
      exact .nil
  | cons first pushed ih =>
      match starts, pushed with
      | [], _ => exact .nil
      | [at'], _ => exact .singleton at'
      | at' :: next :: starts, [] =>
          exact absurd hlength (by simp)
      | at' :: next :: starts, second :: pushed =>
          rw [List.isChain_cons_cons] at hpushed ⊢
          have hrest := List.isChain_cons_cons.mp hfollows
          refine ⟨?_, ih (Nat.le_of_succ_le_succ hlength) hpushed.2
            (fun request hmem => hbegun request (.tail _ hmem)) hrest.2⟩
          have hfirst : first ≤ at' := hbegun _ (.head _)
          have hsecond : second ≤ next := hbegun _ (.tail _ (.head _))
          have hapart : first + interval ≤ second := hpushed.1
          rcases hrest.1 with hlater | hwaits
          · exact Nat.le_trans hlater hsecond
          · have hwaits : at' - first ≤ next - second := hwaits
            exact apart_of_waits hfirst hsecond hapart hwaits

theorem zip_concat {pushed starts : List Instant} (at' : Instant)
    (h : starts.length ≤ pushed.length) : (pushed ++ [at']).zip starts = pushed.zip starts := by
  induction pushed generalizing starts with
  | nil =>
      rw [List.eq_nil_of_length_eq_zero (Nat.le_zero.mp h)]
      rfl
  | cons first pushed ih =>
      cases starts with
      | nil => rfl
      | cons next starts => exact congrArg _ (ih (Nat.le_of_succ_le_succ h))

theorem mem_zip_concat {pushed starts : List Instant} {at' : Instant}
    {request : Instant × Instant} (h : request ∈ pushed.zip (starts ++ [at'])) :
    request ∈ pushed.zip starts ∨ request.1 ∈ pushed ∧ request.2 = at' := by
  induction pushed generalizing starts with
  | nil => cases h
  | cons first pushed ih =>
      cases starts with
      | nil =>
          rw [List.nil_append, List.zip_cons_cons, List.zip_nil_right] at h
          rw [List.mem_singleton.mp h]
          exact .inr ⟨.head _, rfl⟩
      | cons next starts =>
          rcases List.mem_cons.mp h with rfl | h
          · exact .inl (.head _)
          · rcases ih h with hbefore | ⟨hpushed, hstart⟩
            · exact .inl (.tail _ hbefore)
            · exact .inr ⟨.tail _ hpushed, hstart⟩

/-- With an interval no request waits for its start longer than the next one, unless that is
put in flight later anyway, and none waits when a response pauses the source. -/
structure Prompt (P : Params) (s t : Poll) : Prop where
  follows : 0 < P.interval → t.timed.IsChain (Follows P.interval)
  processed : ∀ entry, t.log.processed = s.log.processed ++ [entry] →
    entry.rateLimited = true → t.unstarted = 0

/-- `pauses` are those of the source up to now. -/
structure Pace (P : Params) (s : Poll) (pauses : List Instant) : Prop where
  order : InOrder s
  pushed_le : ∀ at' ∈ s.log.pushed, at' ≤ s.now
  pushed : s.log.pushed.IsChain fun a b => a + P.interval ≤ b
  next : 0 < P.interval →
    ∀ at' ∈ s.log.pushed.getLast?, Covered s.nextAllowed (at' + P.interval)
  begun : ∀ request ∈ s.timed, request.1 ≤ request.2
  last : ∀ at' ∈ s.starts.getLast?, at' ≤ s.now
  spaced : s.starts.IsChain fun a b => a + P.interval ≤ b
  honoured : ∀ until' ∈ pauses,
    until' ≤ s.now ∨ s.unstarted = 0 ∧ Covered s.nextAllowed until'
  carried : ∀ until' ∈ pauses, until' ≤ s.now ∨ Covered s.rateLimitedUntil until'

theorem covered_interval (h : 0 < P.interval) (now : Instant) :
    Covered (P.minRequestInterval.map (now + ·)) (now + P.interval) := by
  unfold Params.interval at h ⊢
  cases hinterval : P.minRequestInterval with
  | none =>
      rw [hinterval] at h
      cases h
  | some interval => exact ⟨_, rfl, Nat.le_refl _⟩

variable {pauses : List Instant}

/-- A step that neither puts a request in flight nor starts nor completes one. -/
theorem Pace.congr (h : Pace P s pauses) (horder : InOrder t)
    (hpushed : t.log.pushed = s.log.pushed)
    (hstarted : t.log.started = s.log.started)
    (hnow : t.now = s.now) (hinflight : t.inflight = s.inflight)
    (hnext : t.nextAllowed = s.nextAllowed) (hrate : t.rateLimitedUntil = s.rateLimitedUntil) :
    Pace P t pauses := by
  have hstarts : t.starts = s.starts := congrArg (List.map Prod.snd) hstarted
  have htimed : t.timed = s.timed := by rw [Poll.timed, hpushed, hstarts, Poll.timed]
  have hunstarted : t.unstarted = s.unstarted := by
    rw [Poll.unstarted, hinflight, Poll.unstarted]
  refine ⟨horder, ?_, ?_, ?_, ?_, ?_, ?_, ?_, ?_⟩
  · rw [hpushed, hnow]
    exact h.pushed_le
  · rw [hpushed]
    exact h.pushed
  · rw [hpushed, hnext]
    exact h.next
  · rw [htimed]
    exact h.begun
  · rw [hstarts, hnow]
    exact h.last
  · rw [hstarts]
    exact h.spaced
  · rw [hnow, hunstarted, hnext]
    exact h.honoured
  · rw [hnow, hrate]
    exact h.carried

/-- A request is put in flight when the pause is over. -/
theorem Pace.issue (h : Pace P s pauses) {now : Instant} (horder : InOrder t)
    (hpushed : t.log.pushed = s.log.pushed ++ [now]) (hstarted : t.log.started = s.log.started)
    (htime : t.now = now) (hnext : t.nextAllowed = P.minRequestInterval.map (now + ·))
    (hrate : t.rateLimitedUntil = s.rateLimitedUntil) (hnow : s.now ≤ now)
    (hallowed : ∀ at' ∈ s.nextAllowed, at' ≤ now) : Pace P t pauses := by
  have hcovered : ∀ at', Covered s.nextAllowed at' → at' ≤ now := by
    rintro at' ⟨until', hmem, hle⟩
    exact Nat.le_trans hle (hallowed until' hmem)
  have hstarts : t.starts = s.starts := congrArg (List.map Prod.snd) hstarted
  have hlength : s.starts.length ≤ s.log.pushed.length :=
    h.order.length_pushed ▸ Nat.le_add_right _ _
  have htimed : t.timed = s.timed := by
    rw [Poll.timed, hpushed, hstarts, zip_concat now hlength, Poll.timed]
  refine ⟨horder, ?_, ?_, ?_, ?_, ?_, ?_, ?_, ?_⟩
  · rw [hpushed, htime]
    intro at' hmem
    rcases List.mem_append.mp hmem with hmem | hmem
    · exact Nat.le_trans (h.pushed_le at' hmem) hnow
    · exact Nat.le_of_eq (List.mem_singleton.mp hmem)
  · rw [hpushed]
    refine h.pushed.append (.singleton now) ?_
    intro at' hat other hother
    obtain rfl : now = other := Option.some.inj hother
    rcases Nat.eq_zero_or_pos P.interval with hzero | hpos
    · have hbefore := h.pushed_le at' (List.mem_of_getLast? hat)
      exact hzero ▸ Nat.le_trans hbefore hnow
    · exact hcovered _ (h.next hpos at' hat)
  · rw [hpushed, hnext]
    intro hpos at' hat
    rw [List.getLast?_append, List.getLast?_singleton] at hat
    rw [← Option.some.inj hat]
    exact covered_interval hpos now
  · rw [htimed]
    exact h.begun
  · rw [hstarts, htime]
    exact fun at' hat => Nat.le_trans (h.last at' hat) hnow
  · rw [hstarts]
    exact h.spaced
  · intro until' hmem
    rw [htime]
    rcases h.honoured until' hmem with hle | ⟨-, hnext⟩
    · exact .inl (Nat.le_trans hle hnow)
    · exact .inl (hcovered _ hnext)
  · intro until' hmem
    rw [htime, hrate]
    rcases h.carried until' hmem with hle | hrate
    · exact .inl (Nat.le_trans hle hnow)
    · exact .inr hrate

theorem countP_middle (before after : List InFlight) (f : InFlight) :
    (before ++ f :: after).countP (fun f => f.started.isNone) =
      (before ++ after).countP (fun f => f.started.isNone) + if f.started.isNone then 1 else 0 := by
  rw [List.countP_append, List.countP_append, List.countP_cons]
  omega

theorem Pace.honoured_of_unstarted (h : Pace P s pauses) (hne : s.unstarted ≠ 0) :
    ∀ until' ∈ pauses, until' ≤ s.now := by
  intro until' hmem
  rcases h.honoured until' hmem with hle | ⟨hzero, -⟩
  · exact hle
  · exact absurd hzero hne

theorem Pace.start (h : Pace P s pauses) {task : RequestTask} {now : Instant}
    (horder : InOrder t) (hpushed : t.log.pushed = s.log.pushed)
    (hstarted : t.log.started = s.log.started ++ [(task, now)]) (htime : t.now = now)
    (hnext : t.nextAllowed = s.nextAllowed) (hne : s.unstarted ≠ 0) (hnow : s.now ≤ now)
    (hfollows : 0 < P.interval → t.timed.IsChain (Follows P.interval)) : Pace P t pauses := by
  have hhonoured := h.honoured_of_unstarted hne
  have hstarts : t.starts = s.starts ++ [now] := by
    rw [Poll.starts, hstarted, List.map_append]
    rfl
  have hbegun : ∀ request ∈ t.timed, request.1 ≤ request.2 := by
    rw [Poll.timed, hpushed, hstarts]
    intro request hmem
    rcases mem_zip_concat hmem with hbefore | ⟨hpushed, hlast⟩
    · exact h.begun request hbefore
    · rw [hlast]
      exact Nat.le_trans (h.pushed_le _ hpushed) hnow
  have hchain : t.log.pushed.IsChain fun a b => a + P.interval ≤ b := hpushed ▸ h.pushed
  refine ⟨horder, ?_, hchain, ?_, hbegun, ?_, ?_, ?_, ?_⟩
  · rw [hpushed, htime]
    exact fun at' hmem => Nat.le_trans (h.pushed_le at' hmem) hnow
  · rw [hpushed, hnext]
    exact h.next
  · rw [hstarts, htime]
    intro at' hat
    rw [List.getLast?_append, List.getLast?_singleton] at hat
    exact Nat.le_of_eq (Option.some.inj hat).symm
  · rcases Nat.eq_zero_or_pos P.interval with hzero | hpos
    · rw [hstarts]
      refine h.spaced.append (.singleton now) ?_
      intro at' hat other hother
      obtain rfl : now = other := Option.some.inj hother
      exact hzero ▸ Nat.le_trans (h.last at' hat) hnow
    · have hlength : t.starts.length ≤ t.log.pushed.length :=
        horder.length_pushed ▸ Nat.le_add_right _ _
      exact spaced_of_follows hlength hchain hbegun (hfollows hpos)
  · rw [htime]
    exact fun until' hmem => .inl (Nat.le_trans (hhonoured until' hmem) hnow)
  · rw [htime]
    exact fun until' hmem => .inl (Nat.le_trans (hhonoured until' hmem) hnow)

theorem isSome_pauseUntil (task : RequestTask) (resp : Option FetchedResponse) (now : Instant)
    (unixNow : Option ℕ) :
    (pauseUntil resp now unixNow).isSome = (Processed.of task resp unixNow).rateLimited := by
  unfold pauseUntil
  cases resp with
  | none => rfl
  | some resp => exact Option.isSome_map

theorem Pace.complete (h : Pace P s pauses) {task : RequestTask} {before after : List InFlight}
    {at' now : Instant} (resp : Option FetchedResponse) (unixNow : Option ℕ)
    (hinflight : s.inflight = before ++ InFlight.mk task (some at') :: after) (hnow : s.now ≤ now)
    (horder : InOrder (Poll.process P { s with
      inflight := before ++ after, phase := .filling, now } task resp now unixNow))
    (hprompt : Prompt P s (Poll.process P { s with
      inflight := before ++ after, phase := .filling, now } task resp now unixNow)) :
    Pace P (Poll.process P { s with inflight := before ++ after, phase := .filling, now }
      task resp now unixNow) (pauses ++ (pauseUntil resp now unixNow).toList) := by
  have hextends := process_extends P { s with inflight := before ++ after, phase := .filling, now }
    task resp now unixNow
  obtain ⟨entry, hframe⟩ := process_framed P
    { s with inflight := before ++ after, phase := .filling, now } task resp now unixNow
  have hprocessed := (process_counted P
    { s with inflight := before ++ after, phase := .filling, now } task resp now unixNow).1
  revert hextends hframe hprocessed horder hprompt
  generalize Poll.process P { s with inflight := before ++ after, phase := .filling, now }
    task resp now unixNow = t
  intro horder hprompt hextends hframe hprocessed
  have hpushed : t.log.pushed = s.log.pushed := hframe.pushed
  have hstarts : t.starts = s.starts := congrArg (List.map Prod.snd) hframe.started
  have htimed : t.timed = s.timed := by rw [Poll.timed, hpushed, hstarts, Poll.timed]
  have htime : t.now = now := hframe.now
  have hunstarted : t.unstarted = s.unstarted := by
    rw [Poll.unstarted, hframe.inflight, Poll.unstarted, hinflight, countP_middle]
    rfl
  have hnext : ∀ at', Covered s.nextAllowed at' → Covered t.nextAllowed at' :=
    fun at' hat => hextends.nextAllowed at' (.inl hat)
  refine ⟨horder, ?_, hpushed ▸ h.pushed, ?_, htimed ▸ h.begun, ?_, hstarts ▸ h.spaced, ?_, ?_⟩
  · rw [hpushed, htime]
    exact fun at' hmem => Nat.le_trans (h.pushed_le at' hmem) hnow
  · rw [hpushed]
    exact fun hpos at' hat => hnext _ (h.next hpos at' hat)
  · rw [hstarts, htime]
    exact fun at' hat => Nat.le_trans (h.last at' hat) hnow
  · intro until' hmem
    rw [htime, hunstarted]
    rcases List.mem_append.mp hmem with hmem | hmem
    · rcases h.honoured until' hmem with hle | ⟨hzero, hcovered⟩
      · exact .inl (Nat.le_trans hle hnow)
      · exact .inr ⟨hzero, hnext _ hcovered⟩
    · have huntil := Option.mem_toList.mp hmem
      have hlimited : (Processed.of task resp unixNow).rateLimited = true := by
        rw [← isSome_pauseUntil task resp now unixNow, Option.isSome_iff_exists]
        exact ⟨until', huntil⟩
      have hzero := hprompt.processed _ hprocessed hlimited
      exact .inr ⟨hunstarted ▸ hzero, hextends.nextAllowed until' (.inr huntil)⟩
  · intro until' hmem
    rw [htime]
    rcases List.mem_append.mp hmem with hmem | hmem
    · rcases h.carried until' hmem with hle | hcovered
      · exact .inl (Nat.le_trans hle hnow)
      · exact .inr (hextends.rateLimitedUntil until' (.inl hcovered))
    · exact .inr (hextends.rateLimitedUntil until' (.inr (Option.mem_toList.mp hmem)))

/-- The pauses among what was shown. -/
def pausesOf (events : List PacingEvent) : List Instant :=
  events.filterMap fun
    | .started _ => none
    | .paused until' => some until'

/-- A request that starts after a pause was read starts when the pause is over. -/
def PacingEvent.Precedes (a b : PacingEvent) : Prop :=
  ∀ until' at', a = .paused until' → b = .started at' → until' ≤ at'

theorem mem_pausesOf {events : List PacingEvent} {until' : Instant} :
    until' ∈ pausesOf events ↔ PacingEvent.paused until' ∈ events := by
  rw [pausesOf, List.mem_filterMap]
  constructor
  · rintro ⟨event, hmem, hevent⟩
    cases event with
    | started at' => cases hevent
    | paused other =>
        cases hevent
        exact hmem
  · exact fun hmem => ⟨_, hmem, rfl⟩

theorem pausesOf_append (before after : List PacingEvent) :
    pausesOf (before ++ after) = pausesOf before ++ pausesOf after :=
  List.filterMap_append

theorem precedes_of_paused (a : PacingEvent) (until' : Instant) : a.Precedes (.paused until') := by
  rintro _ _ - ⟨⟩

theorem Pace.quiet (h : Pace P s pauses) (hstep : Step P upstream s t)
    (hstarted : t.log.started = s.log.started) (hprocessed : t.log.processed = s.log.processed) :
    Pace P t pauses := by
  have horder := inOrder_step h.order hstep
  cases hstep with
  | issue now hphase hroom hqueue hbudget hnow hallowed =>
      exact h.issue horder rfl rfl rfl rfl rfl hnow hallowed
  | budget | filled | refill | finish => exact h.congr horder rfl rfl rfl rfl rfl rfl
  | start =>
      have hlength := congrArg List.length hstarted
      rw [List.length_append, List.length_singleton] at hlength
      exact absurd hlength (Nat.succ_ne_self _)
  | complete =>
      have hlength := congrArg List.length hprocessed
      rw [(process_counted _ _ _ _ _ _).1, List.length_append, List.length_singleton] at hlength
      exact absurd hlength (Nat.succ_ne_self _)

theorem Pace.started (h : Pace P s pauses) (hstep : Step P upstream s t) (hprompt : Prompt P s t)
    {task : RequestTask} {at' : Instant}
    (hstarted : t.log.started = s.log.started ++ [(task, at')]) :
    Pace P t pauses ∧ ∀ until' ∈ pauses, until' ≤ at' := by
  have horder := inOrder_step h.order hstep
  have hne : t.log.started ≠ s.log.started := by
    intro hsame
    have hlength := congrArg List.length (hsame.symm.trans hstarted)
    rw [List.length_append, List.length_singleton] at hlength
    omega
  cases hstep with
  | start before now hphase hinflight hbefore hnow =>
      obtain ⟨-, hlast⟩ := List.append_inj' hstarted rfl
      obtain rfl : now = at' := congrArg Prod.snd (List.singleton_inj.mp hlast)
      have hunstarted : s.unstarted ≠ 0 := by
        rw [Poll.unstarted, hinflight, countP_middle]
        exact Nat.succ_ne_zero _
      exact ⟨h.start horder rfl rfl rfl rfl hunstarted hnow hprompt.follows,
        fun until' hmem => Nat.le_trans (h.honoured_of_unstarted hunstarted until' hmem) hnow⟩
  | complete =>
      obtain ⟨entry, hframe⟩ := process_framed _ _ _ _ _ _
      exact absurd hframe.started hne
  | issue => exact absurd rfl hne
  | budget => exact absurd rfl hne
  | filled => exact absurd rfl hne
  | refill => exact absurd rfl hne
  | finish => exact absurd rfl hne

theorem Pace.eventStep {before events : List PacingEvent} (h : Pace P s (pausesOf before))
    (hordered : before.Pairwise PacingEvent.Precedes) (hstep : EventStep P upstream s events t)
    (hprompt : Prompt P s t) :
    Pace P t (pausesOf (before ++ events)) ∧
      (before ++ events).Pairwise PacingEvent.Precedes := by
  cases hstep with
  | quiet hstep hstarted hprocessed =>
      rw [List.append_nil]
      exact ⟨h.quiet hstep hstarted hprocessed, hordered⟩
  | completed front resp now unixNow hphase hinflight hnow hanswer =>
      have horder := inOrder_step h.order
        (.complete front resp now unixNow hphase hinflight hnow hanswer)
      have hpace := h.complete resp unixNow hinflight hnow horder hprompt
      cases hpause : pauseUntil resp now unixNow with
      | none =>
          rw [hpause] at hpace
          rw [pausesOf_append]
          exact ⟨hpace, List.pairwise_append.mpr ⟨hordered, .nil, fun _ _ _ => nofun⟩⟩
      | some until' =>
          rw [hpause] at hpace
          rw [pausesOf_append]
          refine ⟨hpace, List.pairwise_append.mpr ⟨hordered, List.pairwise_singleton _ _, ?_⟩⟩
          intro a ha b hb
          obtain rfl := List.mem_singleton.mp hb
          exact precedes_of_paused a until'
  | started hstep hstarted =>
      obtain ⟨hpace, hpauses⟩ := h.started hstep hprompt hstarted
      rw [pausesOf_append]
      refine ⟨?_, List.pairwise_append.mpr ⟨hordered, List.pairwise_singleton _ _, ?_⟩⟩
      · exact (List.append_nil (pausesOf before)).symm ▸ hpace
      · rintro a ha b hb until' at' rfl hstart
        cases (List.mem_singleton.mp hb).symm.trans hstart
        exact hpauses until' (mem_pausesOf.mpr ha)

/-! ### The source -/

/-- A source with what its process has shown since it was started. -/
structure Paced where
  run : Run HttpPollingExtractor
  events : List PacingEvent

inductive PacedStep (C : SourceConfig) : Paced → Paced → Prop
  | work {s : Paced} {e : HttpPollingExtractor} {P : Params} {poll poll' : Poll}
      {events : List PacingEvent} (he : s.run.process = some e) (hphase : e.phase = .polling P poll)
      (hwork : EventStep P C.upstream poll events poll') :
      PacedStep C s {
        run := { s.run with process := some { e with phase := .polling P poll' } }
        events := s.events ++ events }
  -- any other step, by which no poll goes on
  | loop {s : Paced} {run : Run HttpPollingExtractor} (hstep : LoopStep C s.run run)
      (hidle : ∀ e ∈ s.run.process, ∀ e' ∈ run.process, ∀ P P' poll poll',
        e.phase = .polling P poll → e'.phase = .polling P' poll' → P' = P ∧ poll' = poll) :
      PacedStep C s { run, events := if s.run.process.isSome then s.events else [] }

def pacedSystem (C : SourceConfig) : System Paced where
  init s := s.run.Fresh ∧ s.events = []
  step := PacedStep C

/-- The steps of a poll, where the step is one. -/
def PromptStep (s t : Paced) : Prop :=
  ∀ e ∈ s.run.process, ∀ e' ∈ t.run.process, ∀ P poll poll', e.phase = .polling P poll →
    e'.phase = .polling P poll' → Prompt P poll poll'

/-- The runs in which the requests of each poll follow on one another. -/
def promptSystem (C : SourceConfig) : System Paced where
  init := (pacedSystem C).init
  step s t := (pacedSystem C).step s t ∧ PromptStep s t

variable {C : SourceConfig}

theorem PacedStep.loopStep {s t : Paced} (h : PacedStep C s t) : LoopStep C s.run t.run := by
  cases h with
  | work he hphase hwork => exact .work he hphase hwork.step
  | loop hstep => exact hstep

/-- No poll goes on in a step between phases of which one is not that of a poll. -/
theorem pacedStep_of_phase {s : Paced} {run : Run HttpPollingExtractor}
    (hstep : LoopStep C s.run run)
    (hphase : ∀ e ∈ s.run.process, ∀ e' ∈ run.process,
      e'.phase = e.phase ∨ e.phase.forget ≠ .polling ∨ e'.phase.forget ≠ .polling) :
    ∃ events, PacedStep C s { run, events } := by
  refine ⟨_, .loop hstep ?_⟩
  intro e he e' he' P P' poll poll' hpolling hpolling'
  rcases hphase e he e' he' with hsame | hnot | hnot
  · obtain ⟨rfl, rfl⟩ := LoopPhase.polling.inj (hpolling'.symm.trans (hsame.trans hpolling))
    exact ⟨rfl, rfl⟩
  · exact absurd (congrArg LoopPhase.forget hpolling) hnot
  · exact absurd (congrArg LoopPhase.forget hpolling') hnot

/-- Every step of the source is one with what it shows. -/
theorem exists_pacedStep {s : Paced} {run : Run HttpPollingExtractor}
    (h : LoopStep C s.run run) : ∃ events, PacedStep C s { run, events } := by
  -- the phase before the step, where it is not that of a poll
  have hbefore : ∀ {e : HttpPollingExtractor} {phase : LoopPhase}, s.run.process = some e →
      e.phase = phase → phase.forget ≠ .polling → ∃ events, PacedStep C s { run, events } := by
    rintro e _ he rfl hphase
    refine pacedStep_of_phase h fun other hother e' _ => .inr (.inl ?_)
    obtain rfl := Option.some.inj (he.symm.trans hother)
    exact hphase
  have hafter : (∀ e' ∈ run.process, e'.phase.forget ≠ .polling) →
      ∃ events, PacedStep C s { run, events } := fun hphase =>
    pacedStep_of_phase h fun e he e' he' => .inr (.inr (hphase e' he'))
  cases h with
  | work he hphase hwork =>
      obtain ⟨events, hevents⟩ := exists_eventStep hwork
      exact ⟨_, .work he hphase hevents⟩
  | tick now hnow =>
      refine pacedStep_of_phase (.tick now hnow) fun e he e' he' => .inl ?_
      obtain rfl := Option.some.inj (he.symm.trans he')
      rfl
  | cancel he =>
      refine pacedStep_of_phase (.cancel he) fun e hother e' he' => .inl ?_
      obtain rfl := Option.some.inj (he.symm.trans hother)
      obtain rfl := Option.some.inj he'
      rfl
  | start instant hread hgone =>
      refine pacedStep_of_phase (.start instant hread hgone) fun e he => ?_
      cases hgone.symm.trans he
  | gone => exact hafter (by rintro e' ⟨⟩)
  | leave he hphase | enter he hphase | waited he instant hphase | limit he hphase
  | poll driver he hphase | save he hphase | resume he hphase =>
      exact hbefore he hphase (by simp [LoopPhase.forget])
  | interrupted | advance | hold | abort =>
      exact hafter (by simp [LoopPhase.forget])

/-- Where `run` stands, the pauses up to now are over or it still has them. -/
def Waits (e : HttpPollingExtractor) (pauses : List Instant) : Prop :=
  match e.phase with
  | .polling P poll => Pace P poll pauses
  | .checking => ∀ until' ∈ pauses, until' ≤ e.instant
  | .stopped _ => True
  | .top | .waiting | .saving | .pausing =>
      ∀ until' ∈ pauses, until' ≤ e.instant ∨ Covered e.rateLimitedUntil until'

structure Waiting (s : Paced) : Prop where
  ordered : s.events.Pairwise PacingEvent.Precedes
  waits : ∀ e ∈ s.run.process, Waits e (pausesOf s.events)

theorem Waits.of_phase {e e' : HttpPollingExtractor} {pauses : List Instant} (h : Waits e pauses)
    (hphase : e'.phase = e.phase) (hinstant : e'.instant = e.instant)
    (hrate : e'.rateLimitedUntil = e.rateLimitedUntil) : Waits e' pauses := by
  unfold Waits at h ⊢
  rw [hphase, hinstant, hrate]
  exact h

theorem start_pace {P : Params} {rateLimitedUntil : Option Instant} {instant : Instant}
    {pauses : List Instant} (h : ∀ until' ∈ pauses, until' ≤ instant) :
    Pace P (P.start rateLimitedUntil instant) pauses := by
  have hstart : ∀ s : Poll, s.log = .empty → s.inflight = [] → s.now = instant →
      Pace P s pauses := by
    intro s hlog hinflight hnow
    have hpushed : s.log.pushed = [] := by rw [hlog]; rfl
    have hstarts : s.starts = [] := by rw [Poll.starts, hlog]; rfl
    have htimed : s.timed = [] := by rw [Poll.timed, hpushed]; rfl
    have horder : InOrder s := by
      constructor
      · rw [hlog, hinflight]
        rfl
      · rw [hlog]
        rfl
    have hover : ∀ until' ∈ pauses, until' ≤ s.now := fun until' hmem => hnow ▸ h until' hmem
    refine ⟨horder, ?_, ?_, ?_, ?_, ?_, ?_, fun until' hmem => .inl (hover until' hmem),
      fun until' hmem => .inl (hover until' hmem)⟩
    · rw [hpushed]
      exact nofun
    · rw [hpushed]
      exact .nil
    · rw [hpushed]
      exact fun _ => nofun
    · rw [htimed]
      exact nofun
    · rw [hstarts]
      exact nofun
    · rw [hstarts]
      exact .nil
  unfold Params.start
  cases P.bootstrap with
  | none => exact hstart _ rfl rfl rfl
  | some queue => exact hstart _ rfl rfl rfl

/-- What `run` does between the polls. -/
theorem Waits.loop {s t : Run HttpPollingExtractor} {e e' : HttpPollingExtractor}
    {pauses : List Instant} (h : Waits e pauses) (hstep : LoopStep C s t)
    (he : s.process = some e) (he' : t.process = some e')
    (hidle : ∀ P P' poll poll', e.phase = .polling P poll → e'.phase = .polling P' poll' →
      P' = P ∧ poll' = poll) : Waits e' pauses := by
  cases hstep with
  | tick =>
      obtain rfl := Option.some.inj (he.symm.trans he')
      exact h
  | start instant hread hgone => cases hgone.symm.trans he
  | gone => cases he'
  | cancel hother =>
      obtain rfl := Option.some.inj (he.symm.trans hother)
      cases he'
      exact h.of_phase rfl rfl rfl
  | leave | interrupted | limit | abort =>
      cases he'
      trivial
  | enter hother hphase | save hother hphase | resume hother hphase =>
      obtain rfl := Option.some.inj (he.symm.trans hother)
      cases he'
      rw [Waits, hphase] at h
      exact h
  | waited hother instant hphase hinstant huntil =>
      obtain rfl := Option.some.inj (he.symm.trans hother)
      cases he'
      rw [Waits, hphase] at h
      intro until' hmem
      rcases h until' hmem with hle | ⟨limit, hlimit, hle⟩
      · exact Nat.le_trans hle hinstant
      · exact Nat.le_trans hle (huntil limit hlimit)
  | poll driver hother hphase =>
      obtain rfl := Option.some.inj (he.symm.trans hother)
      cases he'
      rw [Waits, hphase] at h
      exact start_pace h
  | work hother hphase hwork =>
      obtain rfl := Option.some.inj (he.symm.trans hother)
      cases he'
      obtain ⟨-, rfl⟩ := hidle _ _ _ _ hphase rfl
      rw [Waits, hphase] at h
      exact h
  | advance hother hphase | hold hother hphase =>
      obtain rfl := Option.some.inj (he.symm.trans hother)
      cases he'
      rw [Waits, hphase] at h
      exact Pace.carried h

theorem waiting_invariant (C : SourceConfig) : (promptSystem C).Invariant Waiting where
  init := by
    rintro s ⟨hrun, hevents⟩
    constructor
    · rw [hevents]
      exact .nil
    · intro e he
      cases hrun.gone.symm.trans he
  step := by
    rintro s t hs ⟨hstep, hprompt⟩
    cases hstep with
    | work he hphase hwork =>
        have hwaits := hs.waits _ he
        rw [Waits, hphase] at hwaits
        obtain ⟨hpace, hordered⟩ := Pace.eventStep hwaits hs.ordered hwork
          (hprompt _ he _ rfl _ _ _ hphase rfl)
        refine ⟨hordered, ?_⟩
        rintro e' ⟨⟩
        exact hpace
    | loop hstep hidle =>
        cases hprocess : s.run.process with
        | none =>
            refine ⟨.nil, fun e' he' => ?_⟩
            -- the process has just been started, if there is one
            cases hstep with
            | start =>
                cases he'
                exact nofun
            | gone => cases he'
            | tick => cases hprocess.symm.trans he'
            | cancel he | leave he | enter he | waited he | interrupted he | limit he | poll _ he
            | work he | advance he | hold he | abort he | save he | resume he =>
                cases hprocess.symm.trans he
        | some e =>
            exact ⟨hs.ordered, fun e' he' => (hs.waits e hprocess).loop hstep hprocess he'
              (hidle e hprocess e' he')⟩

/-! ### When requests start -/

/-- In the poll that is on, the starts of two requests one after the other are at least
`min_request_interval` apart, and no request of the process has started before a pause was
over that a response processed before had asked for. -/
structure Paces (s : Paced) : Prop where
  spaced : ∀ e ∈ s.run.process, ∀ P poll, e.phase = .polling P poll →
    ∀ interval ∈ P.minRequestInterval, poll.starts.IsChain fun a b => a + interval ≤ b
  paused : s.events.Pairwise PacingEvent.Precedes

/-- With one request in flight at a time only the waits for the start are left. -/
theorem prompt_of_sequential (hone : P.maxConcurrency ≤ 1) (hs : (system P upstream).Reachable s)
    (hstep : Step P upstream s t)
    (hfollows : 0 < P.interval → t.timed.IsChain (Follows P.interval)) : Prompt P s t := by
  have hslots := ((guarded_invariant P upstream).holds hs).slots
  have hconcurrency : P.concurrency = 1 := Nat.max_eq_right hone
  rw [hconcurrency] at hslots
  refine ⟨hfollows, fun entry hprocessed _ => ?_⟩
  cases hstep with
  | complete before resp now unixNow hphase hinflight hnow hanswer =>
      rename_i after _ _
      obtain ⟨entry, hframe⟩ := process_framed _ _ _ _ _ _
      rw [hinflight, List.length_append, List.length_cons] at hslots
      have hlength : (before ++ after).length = 0 := by
        rw [List.length_append]
        omega
      rw [Poll.unstarted, hframe.inflight]
      exact congrArg (List.countP _) (List.eq_nil_of_length_eq_zero hlength)
  | issue | budget | filled | start | refill | finish =>
      have hlength := congrArg List.length hprocessed
      rw [List.length_append, List.length_singleton] at hlength
      exact absurd hlength.symm (Nat.succ_ne_self _)

/-- In every run in which the requests of each poll follow on one another. -/
theorem paces_of_prompt (C : SourceConfig) {s : Paced} (h : (promptSystem C).Reachable s) :
    Paces s := by
  have hs := (waiting_invariant C).holds h
  refine ⟨?_, hs.ordered⟩
  intro e he P poll hphase interval hinterval
  have hwaits := hs.waits e he
  rw [Waits, hphase] at hwaits
  have hspaced := Pace.spaced hwaits
  rw [Params.interval, Option.mem_def.mp hinterval] at hspaced
  exact hspaced

/-- The sample source with an interval of a tenth of a second. -/
def spacedSource (maxConcurrency : ℕ) : SourceConfig where
  window := sampleSource.window
  params := { sampleSource.params with minRequestInterval := some 100000000, maxConcurrency }
  upstream := sampleSource.upstream

def spacedPoll (maxConcurrency : ℕ) : Params :=
  (spacedSource maxConcurrency).pollParams ⟨0, 9000000000, none⟩ fun _ =>
    askFor "pipeline" sampleUrls

theorem prompt_of_idle {s : Paced} {run : Run HttpPollingExtractor} {events : List PacingEvent}
    (h : (promptSystem C).Reachable s) (hstep : LoopStep C s.run run)
    (hidle : ∀ e ∈ s.run.process, ∀ P poll, e.phase ≠ .polling P poll)
    (hevents : events = if s.run.process.isSome then s.events else []) :
    (promptSystem C).Reachable { run, events } := by
  subst hevents
  refine h.next ⟨.loop hstep ?_, ?_⟩
  · exact fun e he _ _ P _ poll _ hphase => absurd hphase (hidle e he P poll)
  · exact fun e he _ _ P poll _ hphase => absurd hphase (hidle e he P poll)

theorem prompt_of_work {s : Paced} {e : HttpPollingExtractor} {poll poll' : Poll}
    {events : List PacingEvent} (h : (promptSystem C).Reachable s)
    (he : s.run.process = some e) (hphase : e.phase = .polling P poll)
    (hwork : EventStep P C.upstream poll events poll') (hprompt : Prompt P poll poll') :
    (promptSystem C).Reachable {
      run := { s.run with process := some { e with phase := .polling P poll' } }
      events := s.events ++ events } := by
  refine h.next ⟨.work he hphase hwork, ?_⟩
  rintro other hother _ ⟨⟩ P' first last hfirst hlast
  obtain rfl := Option.some.inj (he.symm.trans hother)
  obtain ⟨rfl, rfl⟩ := LoopPhase.polling.inj (hphase.symm.trans hfirst)
  obtain ⟨-, rfl⟩ := LoopPhase.polling.inj hlast
  exact hprompt

/-- The source in its first poll, in which nothing has been put in flight. -/
theorem promptSystem_firstPoll : (promptSystem (spacedSource 1)).Reachable
    { run :=
        { process := some ⟨⟨0, 9000000000, none⟩, none, false,
            .polling (spacedPoll 1) ((spacedPoll 1).start none 0), 0, []⟩
          file := .absent, now := 10000000000
          history := [.processed ⟨0, 9000000000⟩, .opened 0 true] }
      events := [] } := by
  have s0 : (promptSystem (spacedSource 1)).Reachable ⟨⟨none, .absent, 10000000000, []⟩, []⟩ :=
    .init ⟨⟨rfl, rfl⟩, rfl⟩
  have hboot : (spacedSource 1).window.boot (some .absent) 10000000000 = ⟨0, 9000000000, none⟩ := by
    decide
  have s1 := prompt_of_idle s0 (.start 0 .found rfl) (by rintro e ⟨⟩) rfl
  rw [hboot] at s1
  have s2 := prompt_of_idle s1 (.enter rfl rfl rfl) (by rintro e ⟨⟩ P poll ⟨⟩) rfl
  have s3 := prompt_of_idle s2 (.waited rfl 0 rfl (Nat.le_refl _) nofun)
    (by rintro e ⟨⟩ P poll ⟨⟩) rfl
  have s4 := prompt_of_idle s3 (.poll (fun _ => askFor "pipeline" sampleUrls) rfl rfl rfl)
    (by rintro e ⟨⟩ P poll ⟨⟩) rfl
  exact s4

/-- A refusal a second before its reset. -/
theorem refused_step {P : Params} {upstream : OutgoingRequest → Option FetchedResponse → Prop}
    {s : Poll} (before : List InFlight) {after : List InFlight} {task : RequestTask}
    {at' : Instant} (now : Instant) (hphase : s.phase = .awaiting)
    (hinflight : s.inflight = before ++ InFlight.mk task (some at') :: after) (hnow : s.now ≤ now)
    (hanswer : P.Answers upstream s.trustedOrigin task (some spent)) :
    EventStep P upstream s [.paused (now + 2000000000)] { s with
      queue := task :: s.queue
      inflight := before ++ after
      nextAllowed := laterOf (now + 2000000000) s.nextAllowed
      rateLimitedUntil := laterOf (now + 2000000000) s.rateLimitedUntil
      phase := .filling
      now
      log := { s.log with
        processed := s.log.processed ++ [⟨task, some spent, true⟩] } } := by
  have hreset : rateLimitResetIn spent.headers (some 1699999999) = some 2000000000 := by decide
  have hrefused : spent.isSuccess = false := by decide
  have hstep := EventStep.completed before (some spent) now (some 1699999999) hphase hinflight
    hnow hanswer
  have hpause : pauseUntil (some spent) now (some 1699999999) = some (now + 2000000000) := by
    rw [pauseUntil, Option.bind_some, hreset]
    rfl
  unfold Poll.process Poll.applyRateLimitPause at hstep
  simp only [hpause, hreset, hrefused, Bool.false_eq_true, if_false] at hstep
  exact hstep

/-- A response with nothing to wait for. -/
theorem accepted_step {P : Params} {upstream : OutgoingRequest → Option FetchedResponse → Prop}
    {s : Poll} (before : List InFlight) {after : List InFlight} {url : String}
    {at' : Instant} (now : Instant) (hphase : s.phase = .awaiting)
    (hinflight : s.inflight = before ++ InFlight.mk (sampleTask url) (some at') :: after)
    (hnow : s.now ≤ now)
    (hanswer : P.Answers upstream s.trustedOrigin (sampleTask url) (some emptyObject)) :
    EventStep P upstream s [] { s with
      inflight := before ++ after
      progressed := s.progressed + 1
      phase := .filling
      now
      log := { s.log with
        processed := s.log.processed ++ [⟨sampleTask url, some emptyObject, false⟩]
        emitted := s.log.emitted ++ P.emitResponse (sampleTask url) emptyObject } } := by
  have hstep := EventStep.completed before (some emptyObject) now none hphase hinflight hnow hanswer
  rw [process_sampleTask] at hstep
  exact hstep

/-- The first request is refused for two seconds and then repeated, and the second one waits
a little longer for its start. -/
theorem retried_reachable {C : SourceConfig} {P : Params} {s : Paced}
    {e : HttpPollingExtractor} {poll : Poll} {url : String} {second : RequestTask}
    (hinterval : P.minRequestInterval = some 100000000) (hone : P.concurrency = 1)
    (hbudget : 3 ≤ P.maxRequests)
    (hanswer : ∀ resp, P.Answers C.upstream poll.trustedOrigin (sampleTask url) (some resp))
    (hpoll : poll = { queue := [sampleTask url, second], inflight := [], issued := 0
                      progressed := 0, nextAllowed := none, rateLimitedUntil := none
                      trustedOrigin := poll.trustedOrigin, driverRuns := 1, phase := .filling
                      now := 0, log := .empty })
    (h : (promptSystem C).Reachable s) (he : s.run.process = some e)
    (hphase : e.phase = .polling P poll) (hevents : s.events = []) :
    ∃ s, (promptSystem C).Reachable s ∧ s.events =
      [.started 5000, .paused 2020000000, .started 2020003000, .started 2120004000] := by
  rw [hpoll] at hphase
  have hroom := P.concurrency_pos
  have hspaced : P.interval = 100000000 := by rw [Params.interval, hinterval]; rfl
  have hpaused : ∀ at' ∈ laterOf 2020000000 (P.minRequestInterval.map (0 + ·)),
      at' ≤ 2020000000 := by
    rw [hinterval]
    rintro _ ⟨⟩
    decide
  have hallowed : ∀ at' ∈ P.minRequestInterval.map (2020000000 + ·), at' ≤ 2120000000 := by
    rw [hinterval]
    rintro _ ⟨⟩
    decide
  -- the waits for the starts: 5, 3 and 4 microseconds, the second one after the pause
  have hfirst : List.IsChain (Follows P.interval) [(0, 5000)] := .singleton _
  have hafter : Follows P.interval (0, 5000) (2020000000, 2020003000) := by
    rw [hspaced]
    exact .inl (by decide)
  have hlonger : Follows P.interval (2020000000, 2020003000) (2120000000, 2120004000) :=
    .inr (by decide)
  have hone' : 1 < P.maxRequests := Nat.lt_of_lt_of_le (by decide) hbudget
  have htwo : 2 < P.maxRequests := hbudget
  have hle : (0 : ℕ) ≤ 5000 ∧ (5000 : ℕ) ≤ 20000000 ∧ (20000000 : ℕ) ≤ 2020000000 ∧
      (2020000000 : ℕ) ≤ 2020003000 ∧ (2020003000 : ℕ) ≤ 2030000000 ∧
      (2030000000 : ℕ) ≤ 2120000000 ∧ (2120000000 : ℕ) ≤ 2120004000 := by decide
  obtain ⟨h1, h2, h3, h4, h5, h6, h7⟩ := hle
  have s1 := prompt_of_work h he hphase (.quiet (.issue 0 rfl hroom rfl (Nat.zero_lt_of_lt htwo)
    (Nat.le_refl _) (by rintro _ ⟨⟩)) rfl rfl) ⟨fun _ => .nil, by rintro _ ⟨⟩⟩
  have s2 := prompt_of_work s1 rfl rfl (.quiet (.filled rfl (.inl hone.le)) rfl rfl)
    ⟨fun _ => .nil, by rintro _ ⟨⟩⟩
  have s3 := prompt_of_work s2 rfl rfl (.started (.start [] 5000 rfl rfl (by rintro _ ⟨⟩) h1) rfl)
    ⟨fun _ => hfirst, by rintro _ ⟨⟩⟩
  have s4 := prompt_of_work s3 rfl rfl (refused_step [] 20000000 rfl rfl h2 (hanswer spent))
    ⟨fun _ => hfirst, fun _ _ _ => rfl⟩
  have s5 := prompt_of_work s4 rfl rfl
    (.quiet (.issue 2020000000 rfl hroom rfl hone' h3 hpaused) rfl rfl)
    ⟨fun _ => hfirst, by rintro _ ⟨⟩⟩
  have s6 := prompt_of_work s5 rfl rfl (.quiet (.filled rfl (.inl hone.le)) rfl rfl)
    ⟨fun _ => hfirst, by rintro _ ⟨⟩⟩
  have s7 := prompt_of_work s6 rfl rfl
    (.started (.start [] 2020003000 rfl rfl (by rintro _ ⟨⟩) h4) rfl)
    ⟨fun _ => .cons_cons hafter (.singleton _), by rintro _ ⟨⟩⟩
  have s8 := prompt_of_work s7 rfl rfl
    (accepted_step [] 2030000000 rfl rfl h5 (hanswer emptyObject))
    ⟨fun _ => .cons_cons hafter (.singleton _), fun _ _ _ => rfl⟩
  have s9 := prompt_of_work s8 rfl rfl
    (.quiet (.issue 2120000000 rfl hroom rfl htwo h6 hallowed) rfl rfl)
    ⟨fun _ => .cons_cons hafter (.singleton _), by rintro _ ⟨⟩⟩
  have s10 := prompt_of_work s9 rfl rfl (.quiet (.filled rfl (.inl hone.le)) rfl rfl)
    ⟨fun _ => .cons_cons hafter (.singleton _), by rintro _ ⟨⟩⟩
  have s11 := prompt_of_work s10 rfl rfl
    (.started (.start [] 2120004000 rfl rfl (by rintro _ ⟨⟩) h7) rfl)
    ⟨fun _ => .cons_cons hafter (.cons_cons hlonger (.singleton _)), by rintro _ ⟨⟩⟩
  have hshown : s.events ++ [] ++ [] ++ [.started 5000] ++ [.paused (20000000 + 2000000000)] ++
      [] ++ [] ++ [.started 2020003000] ++ [] ++ [] ++ [] ++ [.started 2120004000] =
      [.started 5000, .paused 2020000000, .started 2020003000, .started 2120004000] := by
    rw [hevents]
    rfl
  exact ⟨_, s11, hshown⟩

theorem paces_of_prompt_sample : ∃ s, (promptSystem (spacedSource 1)).Reachable s ∧
    s.events = [.started 5000, .paused 2020000000, .started 2020003000, .started 2120004000] ∧
    Paces s := by
  have hstart : (spacedPoll 1).start none 0 =
      { queue := sampleUrls.map sampleTask, inflight := [], issued := 0, progressed := 0,
        nextAllowed := none, rateLimitedUntil := none
        trustedOrigin := (spacedPoll 1).trustedOrigin, driverRuns := 1, phase := .filling
        now := 0, log := .empty } := by
    have hboot : (spacedPoll 1).bootstrap = some (sampleUrls.map sampleTask) := rfl
    simp only [Params.start, hboot]
  have hanswer : ∀ resp, (spacedPoll 1).Answers (spacedSource 1).upstream
      ((spacedPoll 1).start none 0).trustedOrigin (sampleTask "https://api.example.com/")
      (some resp) := by
    intro resp
    rw [hstart]
    exact sample_answers (.head _) resp
  have htrusted : (spacedPoll 1).trustedOrigin = ((spacedPoll 1).start none 0).trustedOrigin := by
    rw [hstart]
  rw [htrusted] at hstart
  obtain ⟨s, hs, hevents⟩ := retried_reachable (P := spacedPoll 1) rfl (by decide) (by decide)
    hanswer hstart promptSystem_firstPoll rfl rfl rfl
  exact ⟨s, hs, hevents, paces_of_prompt _ hs⟩

theorem exists_paced_reachable {run : Run HttpPollingExtractor}
    (h : (loopSystem C).Reachable run) : ∃ events, (pacedSystem C).Reachable { run, events } := by
  induction h with
  | init hinit => exact ⟨[], .init ⟨hinit, rfl⟩⟩
  | next _ hstep ih =>
      obtain ⟨events, hreach⟩ := ih
      obtain ⟨events', hpaced⟩ := exists_pacedStep (s := { run := _, events }) hstep
      exact ⟨events', hreach.next hpaced⟩

/-- Two requests are put in flight a tenth of a second apart and start together. -/
theorem starts_together : ¬∀ (C : SourceConfig) (s : Paced), (pacedSystem C).Reachable s →
    Paces s := by
  intro hall
  have hrun := bothStarted_run (spacedSource 4).upstream
    (show (spacedPoll 4).bootstrap = some [sampleTask "https://api.example.com/",
      sampleTask "https://other.example.org/"] from rfl) (by decide) (by decide)
  obtain ⟨events, hreach⟩ := exists_paced_reachable
    (firstPoll_reachable (C := spacedSource 4) rfl _ hrun)
  have hspaced := (hall _ _ hreach).spaced _ rfl _ _ rfl 100000000 rfl
  exact absurd hspaced (by decide)

end CdvizCollector.Sources.HttpPolling
