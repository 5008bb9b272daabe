import CdvizCollector.Lib.Subscription
import CdvizCollector.Lib.System
import CdvizCollector.Transformers.Pipe
import Mathlib.Data.Fin.Basic
import Mathlib.Logic.Function.Basic

/-!
The tasks of a running pipeline (`start` in `sinks/mod.rs`, `run` in `pipeline.rs`).

Sources send into one broadcast channel, and each sink receives from it in a task
of its own. All sinks subscribe before the first source is created. The channel
closes when the builder and all sources have dropped their senders; a source is
here whatever holds one: the task of an extractor, or the http server with the
pipes of the webhooks in its routes.

The turn of a sink is one step from its `recv` to the answer of its `send`: nobody
else sees the sink in between. What a source sends and when it ends is left open.
-/

namespace CdvizCollector.Pipeline

open Lib Transformers

/-- `trait Sink`, by what its calls answer and leave; `idle` is what goes on behind a
sink on its own, as the tasks and clients some of them have. -/
structure Sink (μ σ : Type) where
  send : μ → σ → Outcome → σ → Prop
  flush : σ → Outcome → σ → Prop
  idle : σ → σ → Prop

inductive Phase where
  | running
  | exited
  | panicked
deriving DecidableEq, Repr

/-- The task of a sink, with its counters: `sink_events_total` by status, and
`sink_queue_lagged_events`. What `recv` and `send` answered is kept for the account. -/
structure SinkTask (μ σ : Type) where
  sink : σ
  next : ℕ
  phase : Phase
  ok : ℕ
  error : ℕ
  laggedEvents : ℕ
  log : List (Delivery μ)
  answers : List Outcome

variable {μ σ : Type} {m n : ℕ}

/-- A sink that has just been started on a channel nothing was sent into. -/
def SinkTask.start (sink : σ) : SinkTask μ σ :=
  { sink, next := 0, phase := .running, ok := 0, error := 0, laggedEvents := 0, log := [],
    answers := [] }

/-- The answer of a `send` is counted, and an error logged; a panic ends the task. -/
def SinkTask.count (t : SinkTask μ σ) : Outcome → SinkTask μ σ
  | .ok => { t with ok := t.ok + 1 }
  | .err _ => { t with error := t.error + 1 }
  | .panic => { t with phase := .panicked }

/-- The arm `Ok(msg)`, for a `send` that answered and left `sink`. -/
def SinkTask.receive (t : SinkTask μ σ) (msg : μ) (answer : Outcome) (sink : σ) :
    SinkTask μ σ :=
  SinkTask.count
    { t with
      sink
      next := t.next + 1
      log := t.log ++ [.value msg]
      answers := t.answers ++ [answer] }
    answer

/-- The arm `Err(Lagged(skipped))`. -/
def SinkTask.lag (t : SinkTask μ σ) (skipped : ℕ) : SinkTask μ σ :=
  { t with
    next := t.next + skipped
    laggedEvents := t.laggedEvents + skipped
    log := t.log ++ [.lagged skipped] }

/-- The arm `Err(Closed)` and what follows the loop, for a `flush` that answered and left
`sink`. -/
def SinkTask.finish (t : SinkTask μ σ) (answer : Outcome) (sink : σ) : SinkTask μ σ :=
  { t with
    sink
    phase := if answer = .panic then .panicked else .exited }

/-- One turn of the loop of `start`; there is none while `recv` waits. -/
inductive SinkTask.Turn (S : Sink μ σ) (buffer : ℕ) (sent : List μ) (closed : Bool)
    (t : SinkTask μ σ) : SinkTask μ σ → Prop
  | value (msg : μ) (answer : Outcome) (sink : σ) (hphase : t.phase = .running)
      (hpoll : poll buffer sent t.next = some (.value msg))
      (hsend : S.send msg t.sink answer sink) :
      Turn S buffer sent closed t (t.receive msg answer sink)
  | lagged (skipped : ℕ) (hphase : t.phase = .running)
      (hpoll : poll buffer sent t.next = some (.lagged skipped)) :
      Turn S buffer sent closed t (t.lag skipped)
  | closed (answer : Outcome) (sink : σ) (hphase : t.phase = .running)
      (hpoll : poll buffer sent t.next = none) (hclosed : closed = true)
      (hflush : S.flush t.sink answer sink) :
      Turn S buffer sent closed t (t.finish answer sink)

/-- A source holds a sender as long as it runs. -/
inductive SourcePhase where
  | running
  | exited (result : Except Error Unit)
  | panicked

structure State (μ σ : Type) (m n : ℕ) where
  builder : Bool
  sent : List μ
  sources : Fin m → SourcePhase
  sinks : Fin n → SinkTask μ σ

def State.set (s : State μ σ m n) (j : Fin n) (t : SinkTask μ σ) : State μ σ m n :=
  { s with sinks := Function.update s.sinks j t }

/-- The task, its sink gone on to another state. -/
def SinkTask.become (t : SinkTask μ σ) (sink : σ) : SinkTask μ σ := { t with sink }

/-- No sender is left. -/
def State.Closed (s : State μ σ m n) : Prop :=
  s.builder = false ∧ ∀ i, s.sources i ≠ .running

/-- The steps of the tasks, each on its own. `builder` is the sender of the
`PipelineBuilder`, dropped once everything is created; the channel holds `buffer`
messages. A message nobody is there to receive is not sent. -/
inductive Step (S : Fin n → Sink μ σ) (buffer : ℕ) (s : State μ σ m n) : State μ σ m n → Prop
  | dropBuilder (h : s.builder = true) : Step S buffer s { s with builder := false }
  | enqueue (i : Fin m) (msg : μ) (hsource : s.sources i = .running)
      (hreceiver : ∃ j, (s.sinks j).phase = .running) :
      Step S buffer s { s with sent := s.sent ++ [msg] }
  | endSource (i : Fin m) (phase : SourcePhase) (hsource : s.sources i = .running)
      (hphase : phase ≠ .running) :
      Step S buffer s { s with sources := Function.update s.sources i phase }
  | turn (j : Fin n) (closed : Bool) (t : SinkTask μ σ) (hclosed : closed = true ↔ s.Closed)
      (hturn : (s.sinks j).Turn (S j) buffer s.sent closed t) :
      Step S buffer s (s.set j t)
  | idle (j : Fin n) (sink : σ) (hidle : (S j).idle (s.sinks j).sink sink) :
      Step S buffer s (s.set j ((s.sinks j).become sink))

/-- `create_sinks`, then `create_sources`. -/
def State.created (sinks : Fin n → σ) : State μ σ m n :=
  { builder := true, sent := [], sources := fun _ => .running,
    sinks := fun j => .start (sinks j) }

def system (m : ℕ) (S : Fin n → Sink μ σ) (buffer : ℕ) (sinks : Fin n → σ) :
    System (State μ σ m n) where
  init s := s = .created sinks
  step := Step S buffer

section Set

variable (s : State μ σ m n) (j : Fin n) (t t' : SinkTask μ σ)

@[simp] theorem State.set_sinks_self : (s.set j t).sinks j = t := Function.update_self ..

theorem State.set_sinks_of_ne {k : Fin n} (h : k ≠ j) : (s.set j t).sinks k = s.sinks k :=
  Function.update_of_ne h ..

@[simp] theorem State.set_set : (s.set j t).set j t' = s.set j t' := by
  rw [State.set, State.set, State.set, Function.update_idem]

@[simp] theorem State.set_sinks_eq : s.set j (s.sinks j) = s := by
  rw [State.set, Function.update_eq_self]

/-- What holds of all sinks holds of them after one of them is changed. -/
theorem State.forall_set {P : Fin n → SinkTask μ σ → Prop} {s : State μ σ m n} {j : Fin n}
    {t : SinkTask μ σ} (h : ∀ k, P k (s.sinks k)) (hj : P j t) :
    ∀ k, P k ((s.set j t).sinks k) := by
  intro k
  by_cases hkj : k = j
  · subst hkj
    rwa [State.set_sinks_self]
  · rw [State.set_sinks_of_ne s j t hkj]
    exact h k

end Set

/-! ### What one turn does -/

section Count

variable (t : SinkTask μ σ) (answer : Outcome)

@[simp] theorem SinkTask.count_sink : (t.count answer).sink = t.sink := by
  cases answer <;> rfl

@[simp] theorem SinkTask.count_next : (t.count answer).next = t.next := by
  cases answer <;> rfl

@[simp] theorem SinkTask.count_log : (t.count answer).log = t.log := by
  cases answer <;> rfl

@[simp] theorem SinkTask.count_answers : (t.count answer).answers = t.answers := by
  cases answer <;> rfl

@[simp] theorem SinkTask.count_laggedEvents :
    (t.count answer).laggedEvents = t.laggedEvents := by
  cases answer <;> rfl

theorem SinkTask.receive_ne_exited (msg : μ) (sink : σ) (h : t.phase = .running) :
    (t.receive msg answer sink).phase ≠ .exited := by
  unfold SinkTask.receive
  cases answer <;> simp [SinkTask.count, h]

theorem SinkTask.finish_ne_running (sink : σ) : (t.finish answer sink).phase ≠ .running := by
  show (if answer = .panic then Phase.panicked else .exited) ≠ .running
  split <;> simp

theorem SinkTask.Turn.phase {S : Sink μ σ} {buffer : ℕ} {sent : List μ} {closed : Bool}
    {t t' : SinkTask μ σ} (h : t.Turn S buffer sent closed t') : t.phase = .running := by
  cases h with
  | value _ _ _ hphase => exact hphase
  | lagged _ hphase => exact hphase
  | closed _ _ hphase => exact hphase

end Count

end CdvizCollector.Pipeline
