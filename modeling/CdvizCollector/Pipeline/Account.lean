import CdvizCollector.Pipeline.Tasks

/-!
The account of a sink: what became of every message sent into the queue.

Each message is handed to the sink once, in the order of the queue, or counted
in one notice of lag; its counters say how many there are of each. The sink is
called with the messages one after the other, whatever it answered to the earlier
ones. It leaves when no sender is left and nothing is unread, and flushes once
before it does.
-/

namespace CdvizCollector.Pipeline

open Lib Transformers

variable {μ σ : Type} {m n : ℕ}

/-- The sink was called with the messages, in this order, and gave these answers. -/
inductive Sink.Ran (S : Sink μ σ) (start : σ) : List μ → List Outcome → σ → Prop
  | start : Ran S start [] [] start
  | idle {msgs : List μ} {answers : List Outcome} {sink sink' : σ}
      (h : Ran S start msgs answers sink) (hidle : S.idle sink sink') :
      Ran S start msgs answers sink'
  | send {msgs : List μ} {answers : List Outcome} {sink sink' : σ} {msg : μ} {answer : Outcome}
      (h : Ran S start msgs answers sink) (hsend : S.send msg sink answer sink') :
      Ran S start (msgs ++ [msg]) (answers ++ [answer]) sink'

/-- Then it was flushed, once. -/
def Sink.Flushed (S : Sink μ σ) (start : σ) (msgs : List μ) (answers : List Outcome)
    (sink : σ) : Prop :=
  ∃ before answer after, S.Ran start msgs answers before ∧ S.flush before answer after ∧
    answer ≠ .panic ∧ Relation.ReflTransGen S.idle after sink

def isError : Outcome → Bool
  | .err _ => true
  | _ => false

/-- The account of a task whose sink was `start` at first. -/
structure Account (S : Sink μ σ) (buffer : ℕ) (start : σ) (sent : List μ)
    (t : SinkTask μ σ) : Prop where
  reads : Reads sent 0 t.log t.next
  laggedEvents : t.laggedEvents = missed t.log
  answers : t.answers.length = (values t.log).length
  ok : t.ok = t.answers.count .ok
  error : t.error = t.answers.countP isError
  /-- A panic is the last thing a task does. -/
  panics : t.phase ≠ .panicked → .panic ∉ t.answers
  ran : t.phase = .running → S.Ran start (values t.log) t.answers t.sink
  flushed : t.phase = .exited → S.Flushed start (values t.log) t.answers t.sink
  lossless : sent.length ≤ buffer → missed t.log = 0

theorem Sink.Ran.idles {S : Sink μ σ} {start sink sink' : σ} {msgs : List μ}
    {answers : List Outcome} (h : S.Ran start msgs answers sink)
    (hidle : Relation.ReflTransGen S.idle sink sink') : S.Ran start msgs answers sink' := by
  induction hidle with
  | refl => exact h
  | tail _ hstep ih => exact ih.idle hstep

/-- Any answer is a success, an error or a panic. -/
theorem length_eq_counts (answers : List Outcome) (h : .panic ∉ answers) :
    answers.length = answers.count .ok + answers.countP isError := by
  induction answers with
  | nil => rfl
  | cons answer answers ih =>
      rw [List.mem_cons, not_or] at h
      have hlen := ih h.2
      rw [List.length_cons, List.count_cons, List.countP_cons, hlen]
      cases answer with
      | ok => simp [isError]; omega
      | err e => simp [isError]; omega
      | panic => exact absurd rfl h.1

/-! ### A turn keeps the account -/

section Turn

variable {S : Sink μ σ} {buffer : ℕ} {start : σ} {sent : List μ} {t : SinkTask μ σ}

theorem account_start (S : Sink μ σ) (buffer : ℕ) (start : σ) :
    Account S buffer start [] (.start start) where
  reads := .subscribed (Nat.zero_le _)
  laggedEvents := rfl
  answers := rfl
  ok := rfl
  error := rfl
  panics _ := List.not_mem_nil
  ran _ := .start
  flushed h := by cases h
  lossless _ := rfl

theorem Account.receive {msg : μ} {answer : Outcome} {sink : σ}
    (h : Account S buffer start sent t) (hphase : t.phase = .running)
    (hpoll : poll buffer sent t.next = some (.value msg))
    (hsend : S.send msg t.sink answer sink) :
    Account S buffer start sent (t.receive msg answer sink) := by
  have hpanics := h.panics (by rw [hphase]; decide)
  refine ⟨?_, ?_, ?_, ?_, ?_, ?_, ?_, ?_, ?_⟩
  · simpa [SinkTask.receive, Delivery.width] using h.reads.poll hpoll
  · simpa [SinkTask.receive] using h.laggedEvents
  · simpa [SinkTask.receive] using h.answers
  · rw [SinkTask.receive, SinkTask.count_answers, List.count_append, ← h.ok]
    cases answer <;> simp [SinkTask.count]
  · rw [SinkTask.receive, SinkTask.count_answers, List.countP_append, ← h.error]
    cases answer <;> simp [SinkTask.count, isError]
  · rw [SinkTask.receive, SinkTask.count_answers, List.mem_append]
    cases answer <;> simp [SinkTask.count, hpanics]
  · intro _
    simpa [SinkTask.receive] using (h.ran hphase).send hsend
  · exact fun hexited => absurd hexited (t.receive_ne_exited answer msg sink hphase)
  · simpa [SinkTask.receive] using h.lossless

theorem Account.lag {skipped : ℕ} (h : Account S buffer start sent t)
    (hphase : t.phase = .running) (hpoll : poll buffer sent t.next = some (.lagged skipped)) :
    Account S buffer start sent (t.lag skipped) where
  reads := h.reads.poll hpoll
  laggedEvents := by
    simp only [SinkTask.lag, missed_append, missed_lagged, h.laggedEvents]
  answers := by
    simp only [SinkTask.lag, values_append_lagged]
    exact h.answers
  ok := h.ok
  error := h.error
  panics := h.panics
  ran := by
    simp only [SinkTask.lag, values_append_lagged]
    exact h.ran
  flushed hexited := by
    have hsame : (t.lag skipped).phase = t.phase := rfl
    rw [hsame, hphase] at hexited
    cases hexited
  lossless hfits := by
    have hlag := (poll_eq_lagged hpoll).1
    omega

theorem Account.finish {answer : Outcome} {sink : σ} (h : Account S buffer start sent t)
    (hphase : t.phase = .running) (hflush : S.flush t.sink answer sink) :
    Account S buffer start sent (t.finish answer sink) where
  reads := h.reads
  laggedEvents := h.laggedEvents
  answers := h.answers
  ok := h.ok
  error := h.error
  panics _ := h.panics (by rw [hphase]; decide)
  ran hrunning := absurd hrunning (t.finish_ne_running answer sink)
  flushed hexited := by
    refine ⟨t.sink, answer, sink, h.ran hphase, hflush, ?_, .refl⟩
    rintro rfl
    cases hexited
  lossless := h.lossless

theorem Account.turn {closed : Bool} {t' : SinkTask μ σ} (h : Account S buffer start sent t)
    (hturn : t.Turn S buffer sent closed t') : Account S buffer start sent t' := by
  cases hturn with
  | value msg answer sink hphase hpoll hsend => exact h.receive hphase hpoll hsend
  | lagged skipped hphase hpoll => exact h.lag hphase hpoll
  | closed answer sink hphase hpoll hclosed hflush => exact h.finish hphase hflush

theorem Account.idle {sink : σ} (h : Account S buffer start sent t)
    (hidle : S.idle t.sink sink) : Account S buffer start sent (t.become sink) where
  reads := h.reads
  laggedEvents := h.laggedEvents
  answers := h.answers
  ok := h.ok
  error := h.error
  panics := h.panics
  ran hphase := (h.ran hphase).idle hidle
  flushed hphase := by
    obtain ⟨before, answer, after, hran, hflush, hpanic, hidles⟩ := h.flushed hphase
    exact ⟨before, answer, after, hran, hflush, hpanic, hidles.tail hidle⟩
  lossless := h.lossless

/-- More is sent: the account of what was read so far stands. -/
theorem Account.enqueue (h : Account S buffer start sent t) (msg : μ) :
    Account S buffer start (sent ++ [msg]) t where
  reads := h.reads.mono [msg]
  laggedEvents := h.laggedEvents
  answers := h.answers
  ok := h.ok
  error := h.error
  panics := h.panics
  ran := h.ran
  flushed := h.flushed
  lossless hfits := by
    refine h.lossless ?_
    rw [List.length_append] at hfits
    omega

/-- The counters of a task that did not panic account for all it has read. -/
theorem Account.counters (h : Account S buffer start sent t) (hphase : t.phase ≠ .panicked) :
    t.ok + t.error + t.laggedEvents = t.next := by
  have hsum := h.reads.length_add_missed
  have hcounts := length_eq_counts _ (h.panics hphase)
  rw [h.answers] at hcounts
  rw [h.ok, h.error, h.laggedEvents]
  omega

end Turn

/-! ### In every run -/

/-- A sink has left only when nothing can be sent any more and it has read all. -/
structure Sound (S : Fin n → Sink μ σ) (buffer : ℕ) (start : Fin n → σ) (s : State μ σ m n) :
    Prop where
  account : ∀ j, Account (S j) buffer (start j) s.sent (s.sinks j)
  exited : ∀ j, (s.sinks j).phase = .exited → s.Closed ∧ (s.sinks j).next = s.sent.length

theorem SinkTask.Turn.exited {S : Sink μ σ} {buffer : ℕ} {sent : List μ} {closed : Bool}
    {t t' : SinkTask μ σ} (h : t.Turn S buffer sent closed t') (hle : t.next ≤ sent.length)
    (hexited : t'.phase = .exited) : closed = true ∧ t'.next = sent.length := by
  cases h with
  | value msg answer sink hphase =>
      exact absurd hexited (t.receive_ne_exited answer msg sink hphase)
  | lagged skipped hphase =>
      have hsame : (t.lag skipped).phase = t.phase := rfl
      rw [hsame, hphase] at hexited
      cases hexited
  | closed answer sink hphase hpoll hclosed => exact ⟨hclosed, (poll_eq_none_iff hle).mp hpoll⟩

theorem Sound.step {S : Fin n → Sink μ σ} {buffer : ℕ} {start : Fin n → σ}
    {s t : State μ σ m n} (hs : Sound S buffer start s) (hstep : Step S buffer s t) :
    Sound S buffer start t := by
  cases hstep with
  | dropBuilder hbuilder =>
      refine ⟨hs.account, fun j hj => ?_⟩
      obtain ⟨hclosed, -⟩ := hs.exited j hj
      rw [hclosed.1] at hbuilder
      contradiction
  | enqueue i msg hsource hreceiver =>
      refine ⟨fun j => (hs.account j).enqueue msg, fun j hj => ?_⟩
      obtain ⟨hclosed, -⟩ := hs.exited j hj
      exact absurd hsource (hclosed.2 i)
  | endSource i phase hsource hphase =>
      refine ⟨hs.account, fun j hj => ?_⟩
      obtain ⟨hclosed, -⟩ := hs.exited j hj
      exact absurd hsource (hclosed.2 i)
  | turn j closed t' hclosed hturn =>
      refine ⟨State.forall_set hs.account ((hs.account j).turn hturn), ?_⟩
      refine State.forall_set
        (P := fun _ t => t.phase = .exited → s.Closed ∧ t.next = s.sent.length)
        hs.exited fun hexited => ?_
      obtain ⟨hdone, hnext⟩ := hturn.exited (hs.account j).reads.next_le hexited
      exact ⟨hclosed.mp hdone, hnext⟩
  | idle j sink hidle =>
      refine ⟨State.forall_set hs.account ((hs.account j).idle hidle), ?_⟩
      exact State.forall_set
        (P := fun _ t => t.phase = .exited → s.Closed ∧ t.next = s.sent.length)
        hs.exited (hs.exited j)

theorem sound_invariant (m : ℕ) (S : Fin n → Sink μ σ) (buffer : ℕ) (start : Fin n → σ) :
    (system m S buffer start).Invariant (Sound S buffer start) where
  init := by
    rintro s rfl
    exact ⟨fun j => account_start (S j) buffer (start j), fun j hj => by cases hj⟩
  step := Sound.step

/-- The task of a sink that does not panic does not either. -/
theorem not_panicked_invariant {S : Fin n → Sink μ σ} {buffer : ℕ} {start : Fin n → σ}
    {j : Fin n} (hsend : ∀ msg sink answer sink', (S j).send msg sink answer sink' →
      answer ≠ .panic)
    (hflush : ∀ sink answer sink', (S j).flush sink answer sink' → answer ≠ .panic) :
    (system m S buffer start).Invariant fun s => (s.sinks j).phase ≠ .panicked where
  init := by
    rintro s rfl h
    cases h
  step := by
    intro s t hs hstep
    cases hstep with
    | dropBuilder | enqueue | endSource => exact hs
    | turn k closed t' hclosed hturn =>
        by_cases hkj : j = k
        · subst hkj
          rw [State.set_sinks_self]
          cases hturn with
          | value msg answer sink hphase hpoll hanswer =>
              have hnot := hsend _ _ _ _ hanswer
              unfold SinkTask.receive
              cases answer with
              | ok | err => simp [SinkTask.count, hphase]
              | panic => exact absurd rfl hnot
          | lagged skipped hphase => exact hs
          | closed answer sink hphase hpoll hclosed hanswer =>
              have hnot := hflush _ _ _ hanswer
              simp [SinkTask.finish, hnot]
        · rw [State.set_sinks_of_ne _ _ _ hkj]
          exact hs
    | idle k sink hidle =>
        by_cases hkj : j = k
        · subst hkj
          rw [State.set_sinks_self]
          exact hs
        · rw [State.set_sinks_of_ne _ _ _ hkj]
          exact hs

/-- Whatever the tasks do and in whatever order, each sink is handed the messages of the
queue one after the other, except for those its lag counter counts; without lag it is
handed all of them, and its counters account for all. It leaves only when no sender is
left and it has read everything, and has flushed once by then. -/
theorem sink_accounts {S : Fin n → Sink μ σ} {buffer : ℕ} {start : Fin n → σ}
    {s : State μ σ m n} (h : (system m S buffer start).Reachable s) (j : Fin n) :
    Account (S j) buffer (start j) s.sent (s.sinks j) ∧
    (values (s.sinks j).log).Sublist (s.sent.take (s.sinks j).next) ∧
    (missed (s.sinks j).log = 0 → values (s.sinks j).log = s.sent.take (s.sinks j).next) ∧
    ((s.sinks j).phase ≠ .panicked →
      (s.sinks j).ok + (s.sinks j).error + (s.sinks j).laggedEvents = (s.sinks j).next) ∧
    ((s.sinks j).phase = .exited → s.Closed ∧ (s.sinks j).next = s.sent.length) := by
  have hs := (sound_invariant m S buffer start).holds h
  have haccount := hs.account j
  exact ⟨haccount, haccount.reads.values_sublist, haccount.reads.values_eq, haccount.counters,
    hs.exited j⟩

/-- A sink that keeps what it is sent, and refuses zero. -/
def Sink.sample : Sink ℕ (List ℕ) where
  send msg sink answer sink' :=
    if msg = 0 then answer = .err (.report "zero") ∧ sink' = sink
    else answer = .ok ∧ sink' = sink ++ [msg]
  flush sink answer sink' := answer = .ok ∧ sink' = sink
  idle _ _ := False

/-- One source and two sinks, on a channel that holds one message: the second sink lags. -/
theorem sink_accounts_sample :
    ∃ s : State ℕ (List ℕ) 1 2, (s.sinks 1).laggedEvents = 1 ∧ (s.sinks 1).sink = [7] ∧
      (s.sinks 0).sink = [5] ∧ Account Sink.sample 1 [] s.sent (s.sinks 1) := by
  have h0 : (system 1 (fun _ => Sink.sample) 1 fun _ : Fin 2 => []).Reachable _ := .init rfl
  have h1 := h0.next (.enqueue 0 5 rfl ⟨0, rfl⟩)
  have h2 := h1.next (.turn 0 false _ (by simp [State.Closed, State.created])
    (.value 5 .ok [5] rfl rfl ⟨rfl, rfl⟩))
  have h3 := h2.next (.enqueue 0 7 rfl ⟨0, rfl⟩)
  have h4 := h3.next (.turn 1 false _ (by simp [State.Closed, State.created, State.set])
    (.lagged 1 rfl rfl))
  have h5 := h4.next (.turn 1 false _ (by simp [State.Closed, State.created, State.set])
    (.value 7 .ok [7] rfl rfl ⟨rfl, rfl⟩))
  exact ⟨_, rfl, rfl, rfl, (sink_accounts h5 1).1⟩

end CdvizCollector.Pipeline
