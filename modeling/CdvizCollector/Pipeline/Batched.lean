import CdvizCollector.Pipeline.Run
import CdvizCollector.Sinks.BatchShutdown

/-!
The database sinks of a pipeline (`impl Sink for DbSink`, `impl Sink for ClickHouseSink`).

Both make an item of a message and push it into their batcher. A push waits for room
in the channel only, so what the target does never holds up the task of the sink. The
flush at the end answers when the batcher has stored what it has, or has been refused.
-/

namespace CdvizCollector.Pipeline

open Lib Transformers Sinks

variable {μ α : Type} {m n : ℕ}

/-- `send`, with the item of the message or the error of making it. -/
inductive BatchSend (P : Batch.Params α) (item : μ → Except Error α) (msg : μ)
    (s : Batch.State α) : Outcome → Batch.State α → Prop
  | invalid (e : Error) (hitem : item msg = .error e) : BatchSend P item msg s (.err e) s
  | pushed (x : α) (hitem : item msg = .ok x) (halive : s.writer ≠ .stopped)
      (hroom : s.rx.length < P.max) :
      BatchSend P item msg s .ok { s with rx := s.rx ++ [.push x] }
  | stopped (x : α) (hitem : item msg = .ok x) (hgone : s.writer = .stopped) :
      BatchSend P item msg s (.err (.report "batcher stopped")) s

/-- `flush`, which waits for the answer to its `oneshot`. -/
inductive BatchFlush (P : Batch.Params α) (s : Batch.State α) : Outcome → Batch.State α → Prop
  | gone (hgone : s.writer = .stopped) : BatchFlush P s .ok s
  | answered (ack : ℕ) (t : Batch.State α) (halive : s.writer ≠ .stopped)
      (hroom : s.rx.length < P.max) (hfresh : Batch.Fresh ack s)
      (hrun : Relation.ReflTransGen (Batch.TaskStep P) (s.flush ack) t) (hacked : ack ∈ t.acks) :
      BatchFlush P s .ok t
  | dropped (ack : ℕ) (t : Batch.State α) (halive : s.writer ≠ .stopped)
      (hroom : s.rx.length < P.max) (hfresh : Batch.Fresh ack s)
      (hrun : Relation.ReflTransGen (Batch.TaskStep P) (s.flush ack) t)
      (hgone : t.writer = .stopped)
      (hacked : ack ∉ t.acks) :
      BatchFlush P s (.err (.report "channel closed")) t

/-- The task of the sink ends with the flush, and drops the batcher. -/
def batchSink (P : Batch.Params α) (item : μ → Except Error α) : Sink μ (Batch.State α) where
  send := BatchSend P item
  flush s answer t := ∃ u, BatchFlush P s answer u ∧ t = { u with txOpen := false }
  idle := Batch.TaskStep P

/-- The items of the messages, less those none can be made of. -/
def itemsOf (item : μ → Except Error α) (msgs : List μ) : List α :=
  msgs.filterMap fun msg => (item msg).toOption

/-- What `send` answers while the batcher lives. -/
def answerOf (item : μ → Except Error α) (msg : μ) : Outcome :=
  match item msg with
  | .ok _ => .ok
  | .error e => .err e

/-- The batcher `try_from_config` starts. -/
def Opens (P : Batch.Params α) (b : Batch.Buffers α) : Prop :=
  ∃ dir, Batch.Buffers.openSpool P.codec dir = some b

/-- What became of the messages when the task of the sink has ended: the items of all of
them, after those found in the spool, are in the store or a slot, in order; the last flush
has stored them all or stopped at a chunk that was refused. -/
structure ShutDown (P : Batch.Params α) (item : μ → Except Error α) (b : Batch.Buffers α)
    (t : SinkTask μ (Batch.State α)) : Prop where
  run : Relation.ReflTransGen (Batch.Step P) (.start b (.opened b)) t.sink
  answers : t.answers = (values t.log).map (answerOf item)
  accepted : t.sink.history.accepted =
    (Batch.History.opened b).accepted ++ itemsOf item (values t.log)
  conserved : t.sink.history.stored ++ t.sink.pending = t.sink.history.accepted
  flushed : ∃ u v, Batch.FlushEnd u ∧ u.history.accepted = t.sink.history.accepted ∧
    Relation.ReflTransGen (Batch.TaskStep P) u v ∧
    Relation.ReflTransGen (Batch.TaskStep P) { v with txOpen := false } t.sink

section Ran

variable {P : Batch.Params α} {item : μ → Except Error α} {b : Batch.Buffers α}
  {msgs : List μ} {answers : List Outcome} {s t : Batch.State α}

theorem serving_start (hopen : Opens P b) : Batch.Serving P (.start b (.opened b)) where
  reachable := by
    obtain ⟨dir, hdir⟩ := hopen
    exact .init ⟨dir, b, hdir, rfl⟩
  txOpen := rfl
  fresh ack := by
    refine ⟨List.not_mem_nil, List.not_mem_nil, ?_, List.not_mem_nil⟩
    simp [Batch.State.start, Batch.Flusher.caller]

/-- A batcher that was called with the messages: it has got their items, and lives. -/
structure Called (P : Batch.Params α) (item : μ → Except Error α) (b : Batch.Buffers α)
    (msgs : List μ) (answers : List Outcome) (s : Batch.State α) : Prop where
  run : Relation.ReflTransGen (Batch.Step P) (.start b (.opened b)) s
  serving : Batch.Serving P s
  answers : answers = msgs.map (answerOf item)
  pushed : s.pushed = (Batch.History.opened b).accepted ++ itemsOf item msgs

theorem Called.task (h : Called P item b msgs answers s) (hstep : Batch.TaskStep P s t) :
    Called P item b msgs answers t where
  run := h.run.tail hstep.step
  serving := h.serving.task hstep
  answers := h.answers
  pushed := (hstep.pushed h.serving.reachable).trans h.pushed

theorem Called.send {msg : μ} {answer : Outcome} (h : Called P item b msgs answers s)
    (hsend : BatchSend P item msg s answer t) :
    Called P item b (msgs ++ [msg]) (answers ++ [answer]) t := by
  cases hsend with
  | invalid e hitem =>
      refine ⟨h.run, h.serving, ?_, ?_⟩
      · rw [h.answers, List.map_append]
        simp [answerOf, hitem]
      · rw [h.pushed, itemsOf, itemsOf, List.filterMap_append]
        simp [hitem, Except.toOption]
  | pushed x hitem _ hroom =>
      refine ⟨h.run.tail (.client (.push x h.serving.txOpen hroom)), h.serving.push x hroom,
        ?_, ?_⟩
      · rw [h.answers, List.map_append]
        simp [answerOf, hitem]
      · rw [Batch.pushed_push, h.pushed, itemsOf, itemsOf, List.filterMap_append]
        simp [hitem, Except.toOption]
  | stopped x _ hgone => exact absurd hgone h.serving.writer_ne_stopped

theorem batch_ran (hopen : Opens P b)
    (h : (batchSink P item).Ran (.start b (.opened b)) msgs answers s) :
    Called P item b msgs answers s := by
  induction h with
  | start => exact ⟨.refl, serving_start hopen, rfl, congrArg _ (by rfl)⟩
  | idle _ hidle ih => exact ih.task hidle
  | send _ hsend ih => exact ih.send hsend

theorem steps_of_tasks (h : Relation.ReflTransGen (Batch.TaskStep P) s t) :
    Relation.ReflTransGen (Batch.Step P) s t :=
  Relation.ReflTransGen.mono (fun _ _ => Batch.TaskStep.step) _ _ h

theorem batch_conserved (hs : (Batch.system P).Reachable s) :
    s.history.stored ++ s.pending = s.history.accepted :=
  (Batch.refines_fifo P).transfer (Fifo.conserved_invariant P.max) hs

end Ran

theorem batch_flushed {P : Batch.Params α} {item : μ → Except Error α} {b : Batch.Buffers α}
    (hopen : Opens P b) {t : SinkTask μ (Batch.State α)}
    (h : (batchSink P item).Flushed (.start b (.opened b)) (values t.log) t.answers t.sink) :
    ShutDown P item b t := by
  obtain ⟨before, answer, after, hran, ⟨u, hflush, rfl⟩, -, hidle⟩ := h
  obtain ⟨hcalled, hserving, hanswers, hpushed⟩ := batch_ran hopen hran
  -- the tasks do not stop while the sink holds the batcher
  have halive : ∀ {ack v}, before.rx.length < P.max →
      Relation.ReflTransGen (Batch.TaskStep P) (before.flush ack) v → v.writer ≠ .stopped := by
    intro ack v hroom hrun hgone
    have hstart := hserving.reachable.next (.client (.flush ack hserving.txOpen hroom))
    have hclosed := ((Batch.orderly_invariant P).holds (Batch.tasks_reachable hstart hrun)).writer
      hgone
    rw [Batch.tasks_txOpen hrun] at hclosed
    exact absurd (hserving.txOpen.symm.trans hclosed) (by decide)
  cases hflush with
  | gone hgone => exact absurd hgone hserving.writer_ne_stopped
  | dropped ack _ _ hroom _ hrun hgone => exact absurd hgone (halive hroom hrun)
  | answered ack _ _ hroom hfresh hrun hacked =>
      obtain ⟨v, hfirst, hrest, haccepted, hend⟩ :=
        Batch.flush_answered hserving.reachable hserving.txOpen hroom hfresh hrun hacked
      have hstart := hserving.reachable.next (.client (.flush ack hserving.txOpen hroom))
      have hv := Batch.tasks_reachable hstart hfirst
      have hdropped := (Batch.tasks_reachable hv hrest).next (.client .drop)
      have hvpushed : v.pushed = before.pushed := by
        rw [Batch.tasks_pushed hstart hfirst]
        exact Batch.pushed_flush before ack
      have husame := (Batch.tasks_pushed hv hrest).trans hvpushed
      have hupushed : Batch.State.pushed { u with txOpen := false } = before.pushed := husame
      have hudone : u.history.accepted = before.pushed := by
        rw [← hvpushed]
        exact Batch.tasks_settled hv hrest (haccepted.trans hvpushed.symm)
      have hdone : t.sink.history.accepted = before.pushed := by
        rw [← hupushed]
        exact Batch.tasks_settled hdropped hidle (hudone.trans hupushed.symm)
      have hall := (hcalled.tail (.client (.flush ack hserving.txOpen hroom))).trans
        (steps_of_tasks (hfirst.trans hrest))
      refine ⟨(hall.tail (.client .drop)).trans (steps_of_tasks hidle), hanswers,
        hdone.trans hpushed, ?_, v, u, hend, ?_, hrest, hidle⟩
      · exact batch_conserved (Batch.tasks_reachable hdropped hidle)
      · rw [haccepted, hdone]

/-- When the task of a database sink has ended, everything any source enqueued that it did
not lag behind is accounted for, whatever the store answered and whatever the others did. -/
theorem shutdown_accounts {S : Fin n → Sink μ (Batch.State α)} {buffer : ℕ}
    {start : Fin n → Batch.State α} {s : State μ (Batch.State α) m n}
    (h : (system m S buffer start).Reachable s) {j : Fin n} {P : Batch.Params α}
    {item : μ → Except Error α} {b : Batch.Buffers α} (hopen : Opens P b)
    (hsink : S j = batchSink P item) (hstart : start j = .start b (.opened b))
    (hexited : (s.sinks j).phase = .exited) :
    Reads s.sent 0 (s.sinks j).log s.sent.length ∧ ShutDown P item b (s.sinks j) := by
  have hsettled := ((sound_invariant m S buffer start).holds h).settled hexited
  have hflushed := hsettled.flushed
  rw [hsink, hstart] at hflushed
  exact ⟨hsettled.reads, batch_flushed hopen hflushed⟩

/-- A sink whose batcher is at rest can leave, once no sender is left and nothing unread. -/
theorem batch_leaves {S : Fin n → Sink μ (Batch.State α)} {buffer : ℕ}
    {start : Fin n → Batch.State α} {s : State μ (Batch.State α) m n}
    (hs : (system m S buffer start).Reachable s) {j : Fin n} {P : Batch.Params α}
    {item : μ → Except Error α} {b : Batch.Buffers α} (hopen : Opens P b)
    (hsink : S j = batchSink P item) (hstart : start j = .start b (.opened b))
    (hclosed : s.Closed) (hphase : (s.sinks j).phase = .running)
    (hpoll : poll buffer s.sent (s.sinks j).next = none)
    (hwriter : (s.sinks j).sink.writer = .receiving) (hrx : (s.sinks j).sink.rx = [])
    (hflusher : (s.sinks j).sink.flusher = .selecting) :
    ∃ t, (system m S buffer start).Reachable t ∧ (t.sinks j).phase = .exited ∧
      t.sent = s.sent ∧ (t.sinks j).log = (s.sinks j).log := by
  have hran := ((sound_invariant m S buffer start).holds hs).account j |>.ran hphase
  rw [hsink, hstart] at hran
  have hserving := (batch_ran hopen hran).serving
  obtain ⟨t, hflush, hacked⟩ := Batch.flush_answers hwriter hrx hflusher hserving.flushRx 0
  have hroom : (s.sinks j).sink.rx.length < P.max := by
    rw [hrx]
    exact P.max_pos
  have hanswered : (S j).flush (s.sinks j).sink .ok { t with txOpen := false } := by
    rw [hsink]
    exact ⟨t, .answered 0 t hserving.writer_ne_stopped hroom (hserving.fresh 0) hflush hacked,
      rfl⟩
  refine ⟨_, hs.next (.turn j true _ ⟨fun _ => hclosed, fun _ => rfl⟩
    (.closed .ok _ hphase hpoll rfl hanswered)), ?_, rfl, ?_⟩
  · rw [State.set_sinks_self]
    rfl
  · rw [State.set_sinks_self]
    rfl

def Batched.buffers : Batch.Buffers Bool := ⟨fun _ => .new, ⟨0, Nat.two_pos⟩⟩

/-- One message that is refused at first, and the flush at the end. -/
theorem shutdown_accounts_sample :
    ∃ s : State Bool (Batch.State Bool) 1 1, s.sent = [true] ∧
      ShutDown Batch.Params.unspooled .ok Batched.buffers (s.sinks 0) := by
  have hopen : Opens Batch.Params.unspooled Batched.buffers := ⟨none, rfl⟩
  have h0 : (system 1 (fun _ : Fin 1 => batchSink Batch.Params.unspooled Except.ok) 8
    fun _ => .start Batched.buffers (.opened Batched.buffers)).Reachable _ := .init rfl
  have h1 := h0.next (.enqueue 0 true rfl ⟨0, rfl⟩)
  have h2 := h1.next (.turn 0 false _ (by simp [State.Closed, State.created])
    (.value true .ok _ rfl rfl (.pushed true rfl (fun h => by cases h) (by decide))))
  have h3 := (h2.next (.endSource 0 (.exited (.ok ())) rfl (by simp))).next (.dropBuilder rfl)
  -- the writer puts the item into a slot, and the flusher puts it back
  have h4 := h3.next (.idle 0 _ (.writer (.recvMany 1 rfl (by decide) (by decide) (by decide))))
  have h5 := (h4.next (.idle 0 _ (.writer (.scanPush rfl)))).next
    (.idle 0 _ (.writer (.scanEnd rfl)))
  have h6 := h5.next (.idle 0 _ (.writer (.pushUnspooled rfl (by decide) rfl)))
  have h7 := (h6.next (.idle 0 _ (.writer (.pushExtended rfl)))).next
    (.idle 0 _ (.writer (.pushNotified rfl)))
  have h8 := (h7.next (.idle 0 _ (.flusher (.swapped rfl rfl (by decide))))).next
    (.idle 0 _ (.flusher (.chunk rfl (by decide))))
  have h9 := (h8.next (.idle 0 _ (.flusher (.storeFalse rfl)))).next
    (.idle 0 _ (.flusher (.putBack rfl rfl)))
  obtain ⟨s, hs, hexited, hsent, -⟩ := batch_leaves (j := 0) h9 hopen rfl rfl
    ⟨rfl, fun i => by simp [State.set, Subsingleton.elim i 0]⟩ rfl rfl rfl rfl rfl
  exact ⟨s, hsent, (shutdown_accounts hs hopen rfl rfl hexited).2⟩

/-- A database sink answers, so a pipeline with such sinks drains. -/
theorem batch_answers {P : Batch.Params α} (item : μ → Except Error α) {b : Batch.Buffers α}
    (hopen : Opens P b) : (batchSink P item).Answers (.start b (.opened b)) where
  send := by
    intro msgs answers s hran msg
    have hserving := (batch_ran hopen hran).serving
    cases hitem : item msg with
    | error e => exact ⟨s, _, _, .refl, .invalid e hitem⟩
    | ok x =>
        obtain ⟨t, hrun, hwriter, hrx, -⟩ := hserving.rests
        refine ⟨t, _, _, hrun, .pushed x hitem ?_ ?_⟩
        · rw [hwriter]
          simp
        · rw [hrx]
          exact P.max_pos
  flush := by
    intro msgs answers s hran
    have hserving := (batch_ran hopen hran).serving
    obtain ⟨t, hrun, hwriter, hrx, hflusher⟩ := hserving.rests
    have ht := hserving.tasks hrun
    obtain ⟨u, hflush, hacked⟩ := Batch.flush_answers hwriter hrx hflusher ht.flushRx 0
    refine ⟨t, .ok, _, hrun, u, .answered 0 u ?_ ?_ (ht.fresh 0) hflush hacked, rfl⟩
    · rw [hwriter]
      simp
    · rw [hrx]
      exact P.max_pos

/-! ### The next start -/

theorem spooled_run {P : Batch.Params α} (hJ : P.codec.Lawful) (hio : ¬P.ioFails)
    {s t : Batch.State α} (hs : Batch.Spooled P s)
    (h : Relation.ReflTransGen (Batch.Step P) s t) : Batch.Spooled P t := by
  induction h with
  | refl => exact hs
  | tail _ hstep ih => exact (Batch.spooled_invariant hJ hio).step ih (.step hstep)

/-- A database sink with a spool of whole records that was shut down, and is started again:
what it was called with and found in the spool is stored, or is found in the spool by the
next start, if all writes to the spool went through. -/
theorem shutdown_restarts {S : Fin n → Sink μ (Batch.State α)} {buffer : ℕ}
    {start : Fin n → Batch.State α} {s : State μ (Batch.State α) m n}
    (h : (system m S buffer start).Reachable s) {j : Fin n} {P : Batch.Params α}
    (hJ : P.codec.Lawful) (hio : ¬P.ioFails) {item : μ → Except Error α}
    {found : Fin 2 → List α} (hsink : S j = batchSink P item)
    (hstart : start j = .start (.ofRecords P.codec found) (.opened (.ofRecords P.codec found)))
    (hexited : (s.sinks j).phase = .exited) :
    ∃ b, Batch.Buffers.openSpool P.codec
        (some fun i => ((s.sinks j).sink.buffers.slots i).file) = some b ∧
      (↑((Batch.History.opened (.ofRecords P.codec found)).accepted ++
          itemsOf item (values (s.sinks j).log)) : Multiset α) ≤
        ↑(s.sinks j).sink.history.stored + ↑(Batch.History.opened b).accepted := by
  have hfound : Batch.Buffers.openSpool P.codec
      (some fun i => (some (found i)).map (Batch.records P.codec)) =
        some (.ofRecords P.codec found) := Batch.openSpool_files hJ fun i => some (found i)
  have hopen : Opens P (.ofRecords P.codec found) := ⟨_, hfound⟩
  have hdown := (shutdown_accounts h hopen hsink hstart hexited).2
  have hinit := (Batch.spooled_invariant hJ hio).init ⟨fun i => some (found i), _, hfound, rfl⟩
  obtain ⟨-, ⟨r, hr⟩, -⟩ := spooled_run hJ hio hinit hdown.run
  refine ⟨_, hr.reopen hJ, ?_⟩
  have hopened : (Batch.History.opened (.ofRecords P.codec r)).accepted = r 1 ++ r 0 := by
    simp [Batch.History.opened, Batch.Buffers.ofRecords, Batch.Buffers.sealed]
  have hpending : (↑(s.sinks j).sink.pending : Multiset α) ≤ ↑(r 1) + ↑(r 0) := by
    rw [add_comm (r 1 : Multiset α)]
    exact (Multiset.le_add_left _ _).trans hr.pending_le
  rw [← hdown.accepted, ← hdown.conserved, ← Multiset.coe_add, hopened, ← Multiset.coe_add]
  exact add_le_add_right hpending _

def Batched.spooled : Batch.Params Bool := { codec := .bool, batchMaxSize := 8, ioFails := False }

/-- An item found in the spool that is refused, and flushed at the end of a pipeline nothing was
sent into. -/
theorem shutdown_restarts_sample :
    ∃ (s : State Bool (Batch.State Bool) 1 1) (b : Batch.Buffers Bool),
      Batch.Buffers.openSpool .bool
        (some fun i => ((s.sinks 0).sink.buffers.slots i).file) = some b ∧
      ({true} : Multiset Bool) ≤
        ↑(s.sinks 0).sink.history.stored + ↑(Batch.History.opened b).accepted := by
  have h0 : (system 1 (fun _ : Fin 1 => batchSink Batched.spooled Except.ok) 8 fun _ =>
    .start (.ofRecords .bool fun i => if i = 0 then [true] else [])
      (.opened (.ofRecords .bool fun i => if i = 0 then [true] else []))).Reachable _ := .init rfl
  have h1 := (h0.next (.idle 0 _ (.flusher (.swapped rfl rfl (by decide))))).next
    (.idle 0 _ (.flusher (.chunk rfl (by decide))))
  have h2 := (h1.next (.idle 0 _ (.flusher (.storeFalse rfl)))).next
    (.idle 0 _ (.flusher (.putBack rfl rfl)))
  have h3 := (h2.next (.endSource 0 (.exited (.ok ())) rfl (by simp))).next (.dropBuilder rfl)
  have hopen : Opens Batched.spooled (.ofRecords .bool fun i => if i = 0 then [true] else []) :=
    ⟨_, Batch.openSpool_files Batch.ItemCodec.bool_lawful fun i =>
      some (if i = 0 then [true] else [])⟩
  obtain ⟨s, hs, hexited, -, hlog⟩ := batch_leaves (j := 0) h3 hopen rfl rfl
    ⟨rfl, fun i => by simp [State.set, Subsingleton.elim i 0]⟩ rfl rfl rfl rfl rfl
  have hvalues : values (s.sinks 0).log = [] := by rw [hlog]; rfl
  obtain ⟨b, hreopen, hle⟩ := shutdown_restarts (j := 0) hs Batch.ItemCodec.bool_lawful not_false
    rfl rfl hexited
  refine ⟨s, b, hreopen, ?_⟩
  rw [hvalues] at hle
  exact hle

end CdvizCollector.Pipeline
