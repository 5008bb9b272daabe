import CdvizCollector.Pipeline.Account
import Mathlib.Algebra.Order.BigOperators.Group.Finset

/-!
The end of a pipeline (`PipelineBuilder::run`).

`run` drops its own sender and joins all tasks. Once no source holds a sender
either, the sinks read what is left, flush and leave, in a number of turns that
is known beforehand; then `run` returns. It returns early only if a task has
panicked.
-/

namespace CdvizCollector.Pipeline

open Lib Transformers

variable {μ σ : Type} {m n : ℕ}

/-! ### What `run` returns -/

inductive Returned where
  | ok
  | error (e : Error)
  | joinError

def SourcePhase.isPanicked : SourcePhase → Bool
  | .panicked => true
  | _ => false

def SourcePhase.isExited : SourcePhase → Bool
  | .exited _ => true
  | _ => false

def SourcePhase.failure : SourcePhase → Option Error
  | .exited (.error e) => some e
  | _ => none

/-- The join of all tasks, sinks first: a panic ends it at once; a failed source is
reported when every task has ended, the first one in the order of the handles. -/
def State.returned (s : State μ σ m n) : Option Returned :=
  if s.builder then none
  else if (List.ofFn s.sinks).any (·.phase = .panicked) ||
      (List.ofFn s.sources).any SourcePhase.isPanicked then some .joinError
  else if (List.ofFn s.sinks).all (·.phase = .exited) &&
      (List.ofFn s.sources).all SourcePhase.isExited then
    match (List.ofFn s.sources).findSome? SourcePhase.failure with
    | some e => some (.error e)
    | none => some .ok
  else none

/-- All that was sent is settled with a sink: it was handed every message, in order, but
for those its lag counter counts, and flushed after the last. -/
structure Settled (S : Sink μ σ) (start : σ) (sent : List μ) (t : SinkTask μ σ) : Prop where
  phase : t.phase = .exited
  reads : Reads sent 0 t.log sent.length
  flushed : S.Flushed start (values t.log) t.answers t.sink
  counters : t.ok + t.error + t.laggedEvents = sent.length
  complete : t.laggedEvents = 0 → values t.log = sent

theorem Sound.settled {S : Fin n → Sink μ σ} {buffer : ℕ} {start : Fin n → σ} {s : State μ σ m n}
    (hs : Sound S buffer start s) {j : Fin n} (hj : (s.sinks j).phase = .exited) :
    Settled (S j) (start j) s.sent (s.sinks j) := by
  have haccount := hs.account j
  obtain ⟨-, hnext⟩ := hs.exited j hj
  have hreads := haccount.reads
  rw [hnext] at hreads
  refine ⟨hj, hreads, haccount.flushed hj, ?_, fun hlag => ?_⟩
  · rw [← hnext]
    exact haccount.counters (by rw [hj]; decide)
  · rw [haccount.laggedEvents] at hlag
    have hvalues := hreads.values_eq hlag
    rwa [List.take_length, List.drop_zero] at hvalues

theorem State.returned_cases {s : State μ σ m n} {r : Returned} (h : s.returned = some r) :
    s.builder = false ∧ ((r = .joinError ∧
        ((∃ j, (s.sinks j).phase = .panicked) ∨ ∃ i, (s.sources i).isPanicked = true)) ∨
      r ≠ .joinError ∧ (∀ j, (s.sinks j).phase = .exited) ∧
        (∀ i, (s.sources i).isExited = true) ∧
        (r = .ok ↔ ∀ i, (s.sources i).failure = none)) := by
  unfold State.returned at h
  split at h
  · contradiction
  · rename_i hbuilder
    refine ⟨by simpa using hbuilder, ?_⟩
    split at h
    · rename_i hpanicked
      refine .inl ⟨(Option.some.inj h).symm, ?_⟩
      simpa [List.any_eq_true, List.mem_ofFn] using hpanicked
    · split at h
      · rename_i hended
        simp only [Bool.and_eq_true, List.all_eq_true, List.mem_ofFn, forall_exists_index,
          forall_apply_eq_imp_iff, decide_eq_true_eq] at hended
        refine .inr ⟨?_, hended.1, hended.2, ?_⟩
        · split at h <;> rw [← Option.some.inj h] <;> simp
        · split at h
          · rename_i e hfound
            obtain ⟨phase, hmem, hfailure⟩ := List.exists_of_findSome?_eq_some hfound
            obtain ⟨i, rfl⟩ := List.mem_ofFn.mp hmem
            rw [← Option.some.inj h]
            simp only [reduceCtorEq, false_iff, not_forall]
            exact ⟨i, by rw [hfailure]; simp⟩
          · rename_i hnone
            rw [List.findSome?_eq_none_iff] at hnone
            rw [← Option.some.inj h]
            simpa [List.mem_ofFn] using hnone
      · contradiction

/-- When `run` returns and no task has panicked, every message any source enqueued is
settled with every sink; it returns `Ok(true)` if every source ended well, and the error
of a source otherwise. -/
theorem returns_settled {S : Fin n → Sink μ σ} {buffer : ℕ} {start : Fin n → σ}
    {s : State μ σ m n} (h : (system m S buffer start).Reachable s) {r : Returned}
    (hr : s.returned = some r) (hjoin : r ≠ .joinError) :
    s.Closed ∧ (∀ j, Settled (S j) (start j) s.sent (s.sinks j)) ∧
      (r = .ok ↔ ∀ i, (s.sources i).failure = none) := by
  have hs := (sound_invariant m S buffer start).holds h
  obtain ⟨hbuilder, ⟨rfl, -⟩ | ⟨-, hsinks, hsources, hok⟩⟩ := State.returned_cases hr
  · exact absurd rfl hjoin
  · refine ⟨⟨hbuilder, fun i hi => ?_⟩, fun j => hs.settled (hsinks j), hok⟩
    have hexited := hsources i
    rw [hi] at hexited
    contradiction

/-! ### The end is reached -/

/-- The turns a sink may still take when nothing more is sent. -/
def SinkTask.remaining (sent : List μ) (t : SinkTask μ σ) : ℕ :=
  if t.phase = .running then sent.length - t.next + 1 else 0

def State.remaining (s : State μ σ m n) : ℕ :=
  Finset.univ.sum fun j => (s.sinks j).remaining s.sent

/-- No sender is left, and every sink has left or panicked. -/
def State.Drained (s : State μ σ m n) : Prop :=
  s.Closed ∧ ∀ j, (s.sinks j).phase ≠ .running

/-- A step in which a sink goes on behind its task. -/
def Idle (S : Fin n → Sink μ σ) (s t : State μ σ m n) : Prop :=
  ∃ j sink, (S j).idle (s.sinks j).sink sink ∧ t = s.set j ((s.sinks j).become sink)

/-- A turn of some sink, once no sender is left. -/
def TakesTurn (S : Fin n → Sink μ σ) (buffer : ℕ) (s t : State μ σ m n) : Prop :=
  ∃ j t', (s.sinks j).Turn (S j) buffer s.sent true t' ∧ t = s.set j t'

/-- The runs that go on from `s`, turn by turn; before each the sinks may go on behind their
tasks for a while. -/
def continuation (S : Fin n → Sink μ σ) (buffer : ℕ) (s : State μ σ m n) :
    System (State μ σ m n) where
  init t := t = s
  step t u := ∃ t', Relation.ReflTransGen (Idle S) t t' ∧ TakesTurn S buffer t' u

/-- A sink that answers, wherever its calls have led it: at once, or after what goes on
behind it. -/
structure Sink.Answers (S : Sink μ σ) (start : σ) : Prop where
  send : ∀ {msgs answers sink}, S.Ran start msgs answers sink → ∀ msg,
    ∃ ready answer sink', Relation.ReflTransGen S.idle sink ready ∧ S.send msg ready answer sink'
  flush : ∀ {msgs answers sink}, S.Ran start msgs answers sink →
    ∃ ready answer sink', Relation.ReflTransGen S.idle sink ready ∧ S.flush ready answer sink'

theorem State.Closed.step {S : Fin n → Sink μ σ} {buffer : ℕ} {s t : State μ σ m n}
    (hs : s.Closed) (hstep : Step S buffer s t) : TakesTurn S buffer s t ∨ Idle S s t := by
  cases hstep with
  | dropBuilder hbuilder =>
      rw [hs.1] at hbuilder
      contradiction
  | enqueue i msg hsource hreceiver => exact absurd hsource (hs.2 i)
  | endSource i phase hsource hphase => exact absurd hsource (hs.2 i)
  | turn j closed t' hclosed hturn =>
      rw [hclosed.mpr hs] at hturn
      exact .inl ⟨j, t', hturn, rfl⟩
  | idle j sink hidle => exact .inr ⟨j, sink, hidle, rfl⟩

theorem TakesTurn.step {S : Fin n → Sink μ σ} {buffer : ℕ} {s t : State μ σ m n}
    (h : TakesTurn S buffer s t) (hs : s.Closed) : Step S buffer s t := by
  obtain ⟨j, t', hturn, rfl⟩ := h
  exact .turn j true t' ⟨fun _ => hs, fun _ => rfl⟩ hturn

theorem Idle.step {S : Fin n → Sink μ σ} {buffer : ℕ} {s t : State μ σ m n}
    (h : Idle S s t) : Step S buffer s t := by
  obtain ⟨j, sink, hidle, rfl⟩ := h
  exact .idle j sink hidle

theorem SinkTask.Turn.remaining {S : Sink μ σ} {buffer : ℕ} {sent : List μ} {closed : Bool}
    {t t' : SinkTask μ σ} (hle : t.next ≤ sent.length)
    (hturn : t.Turn S buffer sent closed t') : t'.remaining sent < t.remaining sent := by
  have hmoved : ∀ u : SinkTask μ σ, t.next < u.next → u.next ≤ sent.length →
      u.remaining sent < sent.length - t.next + 1 := by
    intro u hlt hbound
    unfold SinkTask.remaining
    split <;> omega
  rw [SinkTask.remaining.eq_def sent t, if_pos hturn.phase]
  cases hturn with
  | value msg answer sink hphase hpoll =>
      have hlt := (List.getElem?_eq_some_iff.mp (poll_eq_value hpoll)).1
      have hnext : (t.receive msg answer sink).next = t.next + 1 := by
        rw [SinkTask.receive, count_next]
      exact hmoved _ (by omega) (by omega)
  | lagged skipped hphase hpoll =>
      obtain ⟨hlag, hskipped⟩ := poll_eq_lagged hpoll
      have hnext : (t.lag skipped).next = t.next + skipped := rfl
      exact hmoved _ (by omega) (by omega)
  | closed answer sink =>
      rw [SinkTask.remaining, if_neg (t.finish_ne_running answer sink)]
      omega

theorem TakesTurn.remaining {S : Fin n → Sink μ σ} {buffer : ℕ} {start : Fin n → σ}
    {s t : State μ σ m n} (h : TakesTurn S buffer s t) (hs : Sound S buffer start s) :
    t.remaining < s.remaining := by
  obtain ⟨j, t', hturn, rfl⟩ := h
  have hless := hturn.remaining (hs.account j).reads.next_le
  refine Finset.sum_lt_sum (fun k _ => ?_) ⟨j, Finset.mem_univ j, ?_⟩
  · exact State.forall_set (P := fun k t => t.remaining s.sent ≤ (s.sinks k).remaining s.sent)
      (fun _ => Nat.le_refl _) (Nat.le_of_lt hless) k
  · show ((s.set j t').sinks j).remaining s.sent < _
    rwa [State.set_sinks_self]

/-- What goes on behind the sinks leaves their tasks where they are. -/
structure Beside (s t : State μ σ m n) : Prop where
  sent : t.sent = s.sent
  closed : t.Closed ↔ s.Closed
  remaining : t.remaining = s.remaining
  phase : ∀ k, (t.sinks k).phase = (s.sinks k).phase

theorem Idle.beside {S : Fin n → Sink μ σ} {s t : State μ σ m n} (h : Idle S s t) :
    Beside s t := by
  obtain ⟨j, sink, -, rfl⟩ := h
  have hsame : ((s.sinks j).become sink).remaining s.sent = (s.sinks j).remaining s.sent := rfl
  refine ⟨rfl, Iff.rfl, Finset.sum_congr rfl fun k _ => ?_, ?_⟩
  · exact State.forall_set (P := fun k t => t.remaining s.sent = (s.sinks k).remaining s.sent)
      (fun _ => rfl) hsame k
  · exact State.forall_set (P := fun k t => t.phase = (s.sinks k).phase) (fun _ => rfl) rfl

theorem idles_beside {S : Fin n → Sink μ σ} {s t : State μ σ m n}
    (h : Relation.ReflTransGen (Idle S) s t) : Beside s t := by
  induction h with
  | refl => exact ⟨rfl, Iff.rfl, rfl, fun _ => rfl⟩
  | tail _ hidle ih =>
      have hstep := hidle.beside
      exact ⟨hstep.sent.trans ih.sent, hstep.closed.trans ih.closed,
        hstep.remaining.trans ih.remaining, fun k => (hstep.phase k).trans (ih.phase k)⟩

theorem idles_sound {S : Fin n → Sink μ σ} {buffer : ℕ} {start : Fin n → σ}
    {s t : State μ σ m n} (h : Relation.ReflTransGen (Idle S) s t)
    (hs : Sound S buffer start s) : Sound S buffer start t := by
  induction h with
  | refl => exact hs
  | tail _ hidle ih => exact ih.step hidle.step

theorem State.Drained.returned {s : State μ σ m n} (hs : s.Drained) :
    ∃ r, s.returned = some r := by
  obtain ⟨hclosed, hs⟩ := hs
  unfold State.returned
  rw [if_neg (by rw [hclosed.1]; decide)]
  split
  · exact ⟨_, rfl⟩
  · rename_i hpanicked
    simp only [Bool.or_eq_true, not_or, List.any_eq_true, List.mem_ofFn, not_exists, not_and,
      forall_exists_index, forall_apply_eq_imp_iff, decide_eq_true_eq] at hpanicked
    have hsinks : (List.ofFn s.sinks).all (·.phase = .exited) = true := by
      simp only [List.all_eq_true, List.mem_ofFn, forall_exists_index, forall_apply_eq_imp_iff,
        decide_eq_true_eq]
      intro j
      cases hphase : (s.sinks j).phase with
      | running => exact absurd hphase (hs j)
      | exited => rfl
      | panicked => exact absurd hphase (hpanicked.1 j)
    have hsources : (List.ofFn s.sources).all SourcePhase.isExited = true := by
      simp only [List.all_eq_true, List.mem_ofFn, forall_exists_index, forall_apply_eq_imp_iff]
      intro i
      cases hphase : s.sources i with
      | running => exact absurd hphase (hclosed.2 i)
      | exited result => rfl
      | panicked => exact absurd (by rw [hphase]; rfl) (hpanicked.2 i)
    rw [hsinks, hsources, Bool.and_self, if_pos rfl]
    split <;> exact ⟨_, rfl⟩

theorem idles_of_sink {S : Fin n → Sink μ σ} {s : State μ σ m n} {j : Fin n} {ready : σ}
    (h : Relation.ReflTransGen (S j).idle (s.sinks j).sink ready) :
    Relation.ReflTransGen (Idle S) s (s.set j ((s.sinks j).become ready)) := by
  induction h with
  | refl =>
      have hsame : (s.sinks j).become (s.sinks j).sink = s.sinks j := rfl
      rw [hsame, State.set_sinks_eq]
  | @tail mid ready _ hidle ih =>
      refine ih.tail ⟨j, ready, ?_, ?_⟩
      · rw [State.set_sinks_self]
        exact hidle
      · rw [State.set_sinks_self, State.set_set]
        rfl

/-- A sink that has not left can take its turn, if it answers. -/
theorem exists_turn {S : Fin n → Sink μ σ} {buffer : ℕ} {start : Fin n → σ}
    {s : State μ σ m n} (hs : Sound S buffer start s) (hanswers : ∀ j, (S j).Answers (start j))
    {j : Fin n} (hj : (s.sinks j).phase = .running) :
    ∃ t u, Relation.ReflTransGen (Idle S) s t ∧ TakesTurn S buffer t u := by
  have hran := (hs.account j).ran hj
  -- the state in which the sink is ready, and the turn it takes there
  have hready : ∀ ready t', Relation.ReflTransGen (S j).idle (s.sinks j).sink ready →
      ((s.sinks j).become ready).Turn (S j) buffer s.sent true t' →
      ∃ t u, Relation.ReflTransGen (Idle S) s t ∧ TakesTurn S buffer t u := by
    intro ready t' hidles hturn
    refine ⟨_, _, idles_of_sink hidles, j, t', ?_, rfl⟩
    rw [State.set_sinks_self]
    exact hturn
  cases hpoll : poll buffer s.sent (s.sinks j).next with
  | none =>
      obtain ⟨ready, answer, sink', hidles, hflush⟩ := (hanswers j).flush hran
      exact hready ready _ hidles (.closed answer sink' hj hpoll rfl hflush)
  | some d =>
      cases d with
      | value msg =>
          obtain ⟨ready, answer, sink', hidles, hsend⟩ := (hanswers j).send hran msg
          exact hready ready _ hidles (.value msg answer sink' hj hpoll hsend)
      | lagged skipped => exact hready _ _ .refl (.lagged skipped hj hpoll)

/-- From the moment no sender is left, every run of the tasks is over after a number of
turns known then, whatever the sinks answer, as long as they do; it is over when every
sink has left, and `run` then returns. -/
theorem drains {S : Fin n → Sink μ σ} {buffer : ℕ} {start : Fin n → σ} {s : State μ σ m n}
    (h : (system m S buffer start).Reachable s) (hclosed : s.Closed)
    (hanswers : ∀ j, (S j).Answers (start j)) :
    (continuation S buffer s).TerminatesIn State.Drained s.remaining s ∧
      ∀ t, Relation.ReflTransGen (Step S buffer) s t →
        t.sent = s.sent ∧ (t.Drained → ∃ r, t.returned = some r) := by
  have hsound := (sound_invariant m S buffer start).holds h
  have hinvariant : (continuation S buffer s).Invariant fun t =>
      Sound S buffer start t ∧ t.Closed := by
    refine ⟨?_, ?_⟩
    · rintro t rfl
      exact ⟨hsound, hclosed⟩
    · rintro t u ⟨ht, htclosed⟩ ⟨t', hidles, hturn⟩
      have ht' := idles_sound hidles ht
      have hclosed' := (idles_beside hidles).closed.mpr htclosed
      refine ⟨ht'.step (hturn.step hclosed'), ?_⟩
      obtain ⟨j, v, -, rfl⟩ := hturn
      exact hclosed'
  refine ⟨hinvariant.terminatesIn ?_ ?_ ?_ (.init rfl) (Nat.le_refl _), ?_⟩
  · rintro t u ⟨ht, -⟩ ⟨t', hidles, hturn⟩
    rw [← (idles_beside hidles).remaining]
    exact hturn.remaining (idles_sound hidles ht)
  · rintro t ⟨ht, htclosed⟩ hnot
    obtain ⟨j, hj⟩ := not_forall_not.mp fun hleft => hnot ⟨htclosed, hleft⟩
    obtain ⟨t', u, hidles, hturn⟩ := exists_turn ht hanswers hj
    exact ⟨u, t', hidles, hturn⟩
  · rintro t u hdrained ⟨t', hidles, j, v, hturn, -⟩
    exact hdrained.2 j (((idles_beside hidles).phase j).symm.trans hturn.phase)
  · intro t hrun
    refine ⟨?_, State.Drained.returned⟩
    have hstays : t.Closed ∧ t.sent = s.sent := by
      induction hrun with
      | refl => exact ⟨hclosed, rfl⟩
      | tail _ hstep ih =>
          rcases ih.1.step hstep with ⟨j, v, -, rfl⟩ | ⟨j, sink, -, rfl⟩
          · exact ih
          · exact ih
    exact hstays.2

theorem Sink.sample_answers : Sink.sample.Answers [] where
  send := by
    intro msgs answers sink _ msg
    by_cases hmsg : msg = 0
    · exact ⟨sink, _, _, .refl, (if_pos hmsg).mpr ⟨rfl, rfl⟩⟩
    · exact ⟨sink, _, _, .refl, (if_neg hmsg).mpr ⟨rfl, rfl⟩⟩
  flush _ := ⟨_, _, _, .refl, rfl, rfl⟩

/-- The channel closes with a message unread by both sinks. -/
theorem drains_sample :
    ∃ s : State ℕ (List ℕ) 1 2, s.remaining = 4 ∧
      (continuation (fun _ => Sink.sample) 1 s).TerminatesIn State.Drained s.remaining s := by
  have h0 : (system 1 (fun _ => Sink.sample) 1 fun _ : Fin 2 => []).Reachable _ := .init rfl
  have h1 := h0.next (.enqueue 0 5 rfl ⟨0, rfl⟩)
  have h2 := h1.next (.endSource 0 (.exited (.ok ())) rfl (by simp))
  have h3 := h2.next (.dropBuilder rfl)
  refine ⟨_, ?_, (drains h3 ⟨rfl, fun i => ?_⟩ fun _ => Sink.sample_answers).1⟩
  · decide
  · simp [Function.update, Subsingleton.elim i 0]

/-- A run with a message that the sink refuses, to its end. -/
theorem returns_settled_sample :
    ∃ s : State ℕ (List ℕ) 1 1, s.returned = some .ok ∧
      Settled Sink.sample [] [0, 7] (s.sinks 0) := by
  have h0 : (system 1 (fun _ => Sink.sample) 8 fun _ : Fin 1 => []).Reachable _ := .init rfl
  have h1 := h0.next (.enqueue 0 0 rfl ⟨0, rfl⟩)
  have h2 := h1.next (.enqueue 0 7 rfl ⟨0, rfl⟩)
  have h3 := h2.next (.endSource 0 (.exited (.ok ())) rfl (by simp))
  have h4 := h3.next (.dropBuilder rfl)
  have hended (i : Fin 1) :
      Function.update (fun _ => SourcePhase.running) 0 (SourcePhase.exited (.ok ())) i ≠
        .running := by
    simp [Subsingleton.elim i 0]
  have h5 := h4.next (.turn 0 true _ ⟨fun _ => ⟨rfl, hended⟩, fun _ => rfl⟩
    (.value 0 _ [] rfl rfl ⟨rfl, rfl⟩))
  have h6 := h5.next (.turn 0 true _ ⟨fun _ => ⟨rfl, hended⟩, fun _ => rfl⟩
    (.value 7 .ok [7] rfl rfl ⟨rfl, rfl⟩))
  have h7 := h6.next (.turn 0 true _ ⟨fun _ => ⟨rfl, hended⟩, fun _ => rfl⟩
    (.closed .ok [7] rfl rfl rfl ⟨rfl, rfl⟩))
  exact ⟨_, rfl, (returns_settled h7 rfl (by simp)).2.1 0⟩

end CdvizCollector.Pipeline
