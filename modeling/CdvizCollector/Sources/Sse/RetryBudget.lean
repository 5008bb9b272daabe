import CdvizCollector.Sources.Sse.Resume

/-!
The retry budget of an SSE source.

A failure leaves the budget to the failures after it, or starts a new one when its
connection had opened. In both cases it is the first failure that counts, so a
source gives up after `max_retries` more. What has failed so far is recorded beside
the source by watching what occurs to it; the task is not aborted meanwhile.
-/

namespace CdvizCollector.Sources.Sse

open Lib Lib.Http Security

/-! ### Attempts -/

/-- What occurs to a source: an attempt starts, and its request is sent or not; or
a connection is polled. -/
inductive Occurrence where
  | attempt (sent : Bool)
  | item (item : Option (Except Error StreamEvent))

/-- The attempts that have failed, each by whether it had opened before, and
whether the current one has. -/
structure Attempts where
  failed : List Bool
  opened : Bool
deriving DecidableEq, Repr

def Attempts.none : Attempts := { failed := [], opened := false }

def Attempts.record (a : Attempts) : Occurrence → Attempts
  | .attempt true => { a with opened := false }
  | .attempt false => { failed := a.failed ++ [false], opened := false }
  | .item (some (.ok .opened)) => { a with opened := true }
  | .item (some (.ok (.message _))) => a
  | .item (some (.error _)) => { failed := a.failed ++ [a.opened], opened := false }
  -- a stream that ends without an error; no connection does
  | .item Option.none => a

/-- How many attempts have failed without opening, without another in between. -/
def unopened (failed : List Bool) : ℕ := (failed.reverse.takeWhile fun opened => !opened).length

/-- What is spent of a budget: an attempt that had opened is the first of its own. -/
def spent (failed : List Bool) : ℕ := unopened failed + if true ∈ failed then 1 else 0

@[simp] theorem spent_nil : spent [] = 0 := rfl

@[simp] theorem spent_append_true (failed : List Bool) : spent (failed ++ [true]) = 1 := by
  simp [spent, unopened]

@[simp] theorem spent_append_false (failed : List Bool) :
    spent (failed ++ [false]) = spent failed + 1 := by
  simp only [spent, unopened, List.reverse_append, List.reverse_singleton, List.singleton_append,
    List.mem_append, List.mem_singleton, Bool.true_eq_false, or_false]
  rw [List.takeWhile_cons_of_pos rfl, List.length_cons]
  omega

/-! ### Watching a source -/

def Config.sends (C : Config) : Bool :=
  match generateHeaders C.crypto C.headers [] with
  | .error _ => false
  | .ok _ => C.validUrl

inductive Occurs (C : Config) : Source → Occurrence → Source → Prop
  | attempt {s : Source} (hphase : s.phase = .connecting) :
      Occurs C s (.attempt C.sends) (s.connect C)
  | item {s : Source} {es : EventSource} (ready : Ready) (uuid : String)
      (hphase : s.phase = .streaming es) :
      Occurs C s (.item (es.pollNext C.isEventStream ready).2)
        (s.handle C (es.pollNext C.isEventStream ready).1
          (es.pollNext C.isEventStream ready).2 uuid)

/-- A source and the record of its attempts. -/
def watched (C : Config) : System (Source × Attempts) where
  init w := w = (Source.new, Attempts.none)
  step v w := ∃ o, Occurs C v.1 o w.1 ∧ w.2 = v.2.record o

/-- What occurs is a step of the source, and every step that is not its abortion
occurs. -/
theorem step_iff_occurs {C : Config} {s t : Source} :
    Step C s t ↔ (∃ o, Occurs C s o t) ∨ t = { s with phase := .stopped } := by
  constructor
  · intro hstep
    cases hstep with
    | connect hphase => exact .inl ⟨_, .attempt hphase⟩
    | poll ready uuid hphase => exact .inl ⟨_, .item ready uuid hphase⟩
    | cancel => exact .inr rfl
  · rintro (⟨o, hoccurs⟩ | rfl)
    · cases hoccurs with
      | attempt hphase => exact .connect hphase
      | item ready uuid hphase => exact .poll ready uuid hphase
    · exact .cancel

/-- An attempt that is not sent fails, and one that is sent starts a connection. -/
theorem connect_eq (C : Config) (s : Source) :
    (C.sends = false ∧ s.connect C = s.fail C) ∨
      C.sends = true ∧ ∃ connections, s.connect C =
        { s with phase := .streaming EventSource.new, latest := [], connections } := by
  unfold Source.connect Config.sends
  cases generateHeaders C.crypto C.headers [] with
  | error e => exact .inl ⟨rfl, rfl⟩
  | ok headers =>
      cases C.validUrl with
      | false => exact .inl ⟨rfl, rfl⟩
      | true => exact .inr ⟨rfl, _, rfl⟩

/-- A connection that is not closed is polled to some item, and only an error
closes it. -/
theorem pollNext_open (isEventStream : String → Bool) {es : EventSource}
    (hopen : es.isClosed = false) (ready : Ready) :
    (∃ event, (es.pollNext isEventStream ready).2 = some (.ok event) ∧
      (es.pollNext isEventStream ready).1.isClosed = false) ∨
    ∃ err, (es.pollNext isEventStream ready).2 = some (.error err) := by
  unfold EventSource.pollNext
  rw [hopen, if_neg (by decide)]
  split
  · split
    · dsimp only
      split
      · exact .inl ⟨_, rfl, hopen⟩
      · exact .inr ⟨_, rfl⟩
    · exact .inr ⟨_, rfl⟩
  · split
    · split
      · exact .inr ⟨_, rfl⟩
      · exact .inl ⟨_, rfl, hopen⟩
      · exact .inr ⟨_, rfl⟩
    · exact .inr ⟨_, rfl⟩

/-! ### The budget -/

def Config.retries (C : Config) : ℕ := C.maxRetries.getD 10

/-- The count of a running source is what its attempts have spent. -/
structure Budgeted (C : Config) (s : Source) (a : Attempts) : Prop where
  running : s.phase ≠ .stopped → s.nPastRetries = spent a.failed ∧ spent a.failed ≤ C.retries ∧
    s.opened = a.opened
  connecting : s.phase = .connecting → a.opened = false
  streaming : ∀ es, s.phase = .streaming es → es.isClosed = false
  stopped : s.phase = .stopped → spent a.failed = C.retries + 1

/-- A failed attempt is counted, and the source gives up when the budget is spent. -/
theorem Budgeted.fail {C : Config} {s : Source} {a : Attempts}
    (hpast : s.nPastRetries = spent a.failed) (hle : spent a.failed ≤ C.retries)
    (hopened : s.opened = a.opened) :
    Budgeted C (s.fail C) { failed := a.failed ++ [a.opened], opened := false } := by
  have hspent : spent (a.failed ++ [a.opened]) = (if s.opened then 0 else s.nPastRetries) + 1 := by
    rw [hopened, hpast]
    cases a.opened with
    | true => exact spent_append_true _
    | false => exact spent_append_false _
  have hbound : (if s.opened then 0 else s.nPastRetries) ≤ C.retries := by
    split
    · exact Nat.zero_le _
    · omega
  unfold Source.fail
  dsimp only
  -- the policy decides on the count before this failure
  by_cases hlast : C.maxRetries.getD 10 ≤ if s.opened then 0 else s.nPastRetries
  · rw [if_pos hlast]
    refine ⟨fun hphase => absurd rfl hphase, by rintro ⟨⟩, by rintro es ⟨⟩, fun _ => ?_⟩
    show spent (a.failed ++ [a.opened]) = C.retries + 1
    unfold Config.retries at hbound ⊢
    omega
  · rw [if_neg hlast]
    refine ⟨fun _ => ⟨hspent.symm, ?_, rfl⟩, fun _ => rfl, by rintro es ⟨⟩, by rintro ⟨⟩⟩
    show spent (a.failed ++ [a.opened]) ≤ C.retries
    unfold Config.retries at hbound ⊢
    omega

theorem budgeted_invariant (C : Config) :
    (watched C).Invariant fun w => Budgeted C w.1 w.2 where
  init := by
    rintro w rfl
    exact ⟨fun _ => ⟨rfl, Nat.zero_le _, rfl⟩, fun _ => rfl, by rintro es ⟨⟩, by rintro ⟨⟩⟩
  step := by
    rintro ⟨s, a⟩ ⟨t, b⟩ hs ⟨o, hoccurs, hrecord⟩
    dsimp only at hs hoccurs hrecord ⊢
    subst hrecord
    cases hoccurs with
    | attempt hphase =>
        obtain ⟨hpast, hle, hopened⟩ := hs.running (by rw [hphase]; rintro ⟨⟩)
        have hfresh := hs.connecting hphase
        rcases connect_eq C s with ⟨hsends, hconnect⟩ | ⟨hsends, connections, hconnect⟩
        · have hfail := Budgeted.fail hpast hle hopened
          rw [hfresh] at hfail
          rw [hconnect, hsends]
          exact hfail
        · rw [hconnect, hsends]
          refine ⟨fun _ => ⟨hpast, hle, hopened.trans hfresh⟩, by rintro ⟨⟩, ?_, by rintro ⟨⟩⟩
          rintro es ⟨⟩
          rfl
    | item ready uuid hphase =>
        rename_i es
        obtain ⟨hpast, hle, hopened⟩ := hs.running (by rw [hphase]; rintro ⟨⟩)
        have hpoll := pollNext_open C.isEventStream (hs.streaming es hphase) ready
        generalize (es.pollNext C.isEventStream ready).1 = es' at hpoll ⊢
        generalize (es.pollNext C.isEventStream ready).2 = item at hpoll ⊢
        rcases hpoll with ⟨event, rfl, hopen⟩ | ⟨err, rfl⟩
        · cases event with
          | opened =>
              refine ⟨fun _ => ⟨hpast, hle, rfl⟩, by rintro ⟨⟩, ?_, by rintro ⟨⟩⟩
              rintro es ⟨⟩
              exact hopen
          | message message =>
              refine ⟨fun _ => ⟨hpast, hle, hopened⟩, by rintro ⟨⟩, ?_, by rintro ⟨⟩⟩
              rintro es ⟨⟩
              exact hopen
        · -- the id is taken over before the failure is counted
          exact Budgeted.fail (s := { s with lastEventId := es'.lastEventId }) hpast hle hopened

/-- A source gives up exactly when `max_retries + 1` attempts in a row have failed
without opening, or `max_retries` after one that had opened, and never otherwise:
a connection ends with an error. -/
theorem gives_up_iff (C : Config) {s : Source} {a : Attempts}
    (h : (watched C).Reachable (s, a)) :
    (s.phase = .stopped ↔
      if true ∈ a.failed then unopened a.failed = C.retries
      else unopened a.failed = C.retries + 1) ∧
    ∀ {o t}, Occurs C s o t → o ≠ .item none := by
  have hbudget : Budgeted C s a := (budgeted_invariant C).holds h
  constructor
  · have hspent : s.phase = .stopped ↔ spent a.failed = C.retries + 1 := by
      constructor
      · exact hbudget.stopped
      · intro heq
        by_contra hphase
        have hle := (hbudget.running hphase).2.1
        omega
    rw [hspent, spent]
    split
    · omega
    · omega
  · intro o t hoccurs
    cases hoccurs with
    | attempt hphase => rintro ⟨⟩
    | item ready uuid hphase =>
        rcases pollNext_open C.isEventStream (hbudget.streaming _ hphase) ready with
          ⟨event, hitem, -⟩ | ⟨err, hitem⟩
        · rw [hitem]
          rintro ⟨⟩
        · rw [hitem]
          rintro ⟨⟩

def oneRetry : Config := { sampleConfig with maxRetries := some 1 }

/-- A connection opens and ends, and the one retry is refused. -/
theorem opened_then_refused :
    ∃ s, (watched oneRetry).Reachable (s, ⟨[true, false], false⟩) ∧ s.phase = .stopped := by
  have h0 : (watched oneRetry).Reachable (Source.new, Attempts.none) := .init rfl
  have h1 := h0.next (t := (Source.new.connect oneRetry, ⟨[], false⟩)) ⟨_, .attempt rfl, rfl⟩
  have hopen : EventSource.new.pollNext oneRetry.isEventStream
      ⟨some ⟨200, HeaderValue.fromStr "text/event-stream"⟩, .ended⟩ =
      (⟨false, true, false, ""⟩, some (.ok .opened)) := by
    have hres : checkResponse oneRetry.isEventStream
        ⟨200, HeaderValue.fromStr "text/event-stream"⟩ = .ok () := checkResponse_sample
    simp only [EventSource.pollNext, EventSource.new, EventSource.clearFetch,
      EventSource.handleResponse, hres, if_true, Bool.false_eq_true, if_false]
  have h2 : (watched oneRetry).Reachable ({ Source.new.connect oneRetry with
      opened := true, phase := .streaming ⟨false, true, false, ""⟩ }, ⟨[], true⟩) := by
    refine h1.next ⟨.item (some (.ok .opened)), ?_, rfl⟩
    have hoccurs := Occurs.item (C := oneRetry) (s := Source.new.connect oneRetry)
      ⟨some ⟨200, HeaderValue.fromStr "text/event-stream"⟩, .ended⟩ "" rfl
    rw [hopen] at hoccurs
    exact hoccurs
  have h3 := h2.next (t := (_, ⟨[true], false⟩)) ⟨_, .item ⟨none, .ended⟩ "" rfl, rfl⟩
  have h4 := h3.next (t := (_, ⟨[true], false⟩)) ⟨_, .attempt rfl, rfl⟩
  have h5 := h4.next (t := (_, ⟨[true, false], false⟩)) ⟨_, .item ⟨none, .ended⟩ "" rfl, rfl⟩
  exact ⟨_, h5, rfl⟩

/-- A source that has given up with fewer than `max_retries + 1` attempts in a row
failed without opening. -/
theorem opened_failure_is_counted :
    ¬∀ C s a, (watched C).Reachable (s, a) →
      (s.phase = .stopped ↔ unopened a.failed = C.retries + 1) := by
  intro hclaim
  obtain ⟨s, hreach, hstopped⟩ := opened_then_refused
  have hcount := (hclaim oneRetry s _ hreach).mp hstopped
  revert hcount
  decide

theorem gives_up_iff_one_retry :
    ∃ s, (watched oneRetry).Reachable (s, ⟨[true, false], false⟩) ∧
      (s.phase = .stopped ↔ unopened [true, false] = 1) := by
  obtain ⟨s, hreach, -⟩ := opened_then_refused
  exact ⟨s, hreach, (gives_up_iff oneRetry hreach).1⟩

end CdvizCollector.Sources.Sse
