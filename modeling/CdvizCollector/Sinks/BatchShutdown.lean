import CdvizCollector.Sinks.BatchFlush

/-!
The last flush of a batcher.

`flush()` answers when its drain has ended, whether that has stored everything or
given up at a chunk that `store()` refused. By then every item pushed before it is
in the store or in a slot, and stays accounted for when the batcher is dropped.
-/

namespace CdvizCollector.Sinks.Batch

open Lib

variable {α : Type} {P : Params α} {s t : State α}

/-- One of the two tasks goes on. -/
inductive TaskStep (P : Params α) (s t : State α) : Prop
  | writer (h : WriterStep P s t)
  | flusher (h : FlusherStep P s t)

theorem TaskStep.step (h : TaskStep P s t) : Step P s t := by
  cases h with
  | writer h => exact .writer h
  | flusher h => exact .flusher h

theorem tasks_reachable (hs : (system P).Reachable s)
    (h : Relation.ReflTransGen (TaskStep P) s t) : (system P).Reachable t :=
  hs.trans (Relation.ReflTransGen.mono (fun _ _ => TaskStep.step) _ _ h)

/-! ### The order in which the tasks stop -/

/-- The writer stops once the channel is closed, and the flusher after it. -/
structure Orderly (s : State α) : Prop where
  writer : s.writer = .stopped → s.txOpen = false
  flusher : s.flusher = .stopped ∨ s.flusher.caller = some (.flush none) → s.writer = .stopped

theorem WriterStep.not_stopped (h : WriterStep P s t) : s.writer ≠ .stopped := by
  intro hstopped
  cases h with
  | recvMany _ hpc | recvClosed hpc | scanPush hpc | scanFlush hpc | scanEnd hpc
  | pushNothing hpc | pushUnspooled hpc | pushWritten hpc | pushWriteFails _ _ hpc
  | pushSynced hpc | pushExtended hpc | pushNotified hpc | flushSent hpc | flushClosed hpc =>
      cases hpc.symm.trans hstopped

theorem AfterPush.writer_ne_stopped (next : AfterPush α) : next.writer ≠ .stopped := by
  cases next <;> simp [AfterPush.writer]

theorem WriterStep.stops (h : WriterStep P s t) (hstopped : t.writer = .stopped) :
    s.txOpen = false ∧ t.txOpen = s.txOpen ∨ s.flusher = .stopped := by
  cases h with
  | recvClosed _ _ hclosed => exact .inl ⟨hclosed, rfl⟩
  | flushClosed _ hgone => exact .inr hgone
  | @pushNothing next => exact absurd hstopped next.writer_ne_stopped
  | @pushNotified len next => exact absurd hstopped next.writer_ne_stopped
  | _ => cases hstopped

theorem FlusherStep.stops (h : FlusherStep P s t)
    (hends : t.flusher = .stopped ∨ t.flusher.caller = some (.flush none)) :
    s.writer = .stopped ∨ s.flusher.caller = some (.flush none) := by
  -- a drain goes on for its caller, or ends it
  have hfinish : ∀ (d : Drain) (u : State α), s.flusher.caller = some d →
      (d.finish u).flusher = .stopped ∨ (d.finish u).flusher.caller = some (.flush none) →
      s.flusher.caller = some (.flush none) := by
    intro d u hcaller hends
    match d with
    | .startup | .tick | .flush (some _) => simp [Drain.finish, Flusher.caller] at hends
    | .flush none => exact hcaller
  have hdrained : ∀ d : Drain, s.flusher.caller = some d →
      (d.drained : Flusher α) = .stopped ∨
        (d.drained : Flusher α).caller = some (.flush none) →
      s.flusher.caller = some (.flush none) := by
    intro d hcaller hends
    cases d with
    | startup | tick => simp [Drain.drained, Flusher.caller] at hends
    | flush received =>
        rw [hcaller]
        simpa [Drain.drained, Flusher.caller] using hends
  cases h with
  | timer | notified | flushReceived => simp [Flusher.caller] at hends
  | flushClosed _ _ hgone => exact .inl hgone
  | swapped hpc | chunk hpc | chunksDone hpc | storeTrue hpc | storeFalse hpc | checkedFull hpc =>
      right
      rw [hpc]
      simpa [Flusher.caller] using hends
  | swappedEmpty hpc | truncated hpc | truncateFails _ hpc =>
      exact .inr (hdrained _ (by rw [hpc]; rfl) hends)
  | putBack hpc | checkedEmpty hpc => exact .inr (hfinish _ _ (by rw [hpc]; rfl) hends)

theorem Drain.txOpen_finish (d : Drain) (s : State α) : (d.finish s).txOpen = s.txOpen := by
  match d with
  | .startup | .tick | .flush (some _) | .flush none => rfl

theorem FlusherStep.txOpen (h : FlusherStep P s t) : t.txOpen = s.txOpen := by
  cases h with
  | putBack => exact Drain.txOpen_finish _ _
  | checkedEmpty => exact Drain.txOpen_finish _ _
  | _ => rfl

theorem orderly_invariant (P : Params α) : (system P).Invariant Orderly where
  init := by
    rintro s ⟨dir, b, -, rfl⟩
    refine ⟨fun h => ?_, fun h => ?_⟩
    · cases h
    · simp [State.start, Flusher.caller] at h
  step := by
    intro s t hs hstep
    cases hstep with
    | client h =>
        obtain ⟨-, hflusher, -, hwriter⟩ := h.effect
        refine ⟨fun hstopped => ?_, fun hends => ?_⟩
        · have hclosed := hs.writer (hwriter ▸ hstopped)
          cases h with
          | push _ hopen | flush _ hopen =>
              rw [hclosed] at hopen
              contradiction
          | drop => rfl
        · rw [hwriter]
          exact hs.flusher (hflusher ▸ hends)
    | writer h =>
        obtain ⟨items, heffect⟩ := h.effect
        refine ⟨fun hstopped => ?_, fun hends => ?_⟩
        · rcases h.stops hstopped with ⟨hclosed, hsame⟩ | hgone
          · exact hsame.trans hclosed
          · exact absurd (hs.flusher (.inl hgone)) h.not_stopped
        · rw [heffect.flusher] at hends
          exact absurd (hs.flusher hends) h.not_stopped
    | flusher h =>
        have hwriter := h.rx.2
        refine ⟨fun hstopped => ?_, fun hends => ?_⟩
        · rw [h.txOpen]
          exact hs.writer (hwriter ▸ hstopped)
        · rw [hwriter]
          exact (h.stops hends).elim id fun hcaller => hs.flusher (.inr hcaller)

theorem TaskStep.txOpen (h : TaskStep P s t) : t.txOpen = s.txOpen := by
  cases h with
  | writer h => cases h <;> rfl
  | flusher h => exact h.txOpen

theorem tasks_txOpen (h : Relation.ReflTransGen (TaskStep P) s t) : t.txOpen = s.txOpen := by
  induction h with
  | refl => rfl
  | tail _ hstep ih => exact hstep.txOpen.trans ih

theorem TaskStep.pushed (hs : (system P).Reachable s) (h : TaskStep P s t) :
    t.pushed = s.pushed := by
  have horderly := (orderly_invariant P).holds hs
  rw [State.pushed, State.pushed]
  cases h with
  | writer h =>
      cases h.move with
      | kept hupstream haccepted => rw [hupstream, haccepted]
      | accepted items hupstream haccepted =>
          rw [hupstream, haccepted, itemsOf_append, itemsOf_map_push, List.append_assoc]
      | sent ack hupstream haccepted =>
          rw [hupstream, haccepted]
          rfl
      | closed hgone => exact absurd (horderly.flusher (.inl hgone)) h.not_stopped
  | flusher h =>
      rw [h.upstream, (h.effect ((draining_invariant P).holds hs)).grows.1]

theorem tasks_pushed (hs : (system P).Reachable s)
    (h : Relation.ReflTransGen (TaskStep P) s t) : t.pushed = s.pushed := by
  induction h with
  | refl => rfl
  | tail hrun hstep ih => exact (hstep.pushed (tasks_reachable hs hrun)).trans ih

theorem TaskStep.accepted (hs : (system P).Reachable s) (h : TaskStep P s t) :
    s.history.accepted <+: t.history.accepted := by
  cases h with
  | writer h =>
      obtain ⟨items, heffect⟩ := h.effect
      rw [heffect.history]
      exact List.prefix_append ..
  | flusher h =>
      have hsame := (h.effect ((draining_invariant P).holds hs)).grows.1
      exact hsame ▸ List.prefix_refl _

theorem tasks_accepted (hs : (system P).Reachable s)
    (h : Relation.ReflTransGen (TaskStep P) s t) :
    s.history.accepted <+: t.history.accepted := by
  induction h with
  | refl => exact List.prefix_refl _
  | tail hrun hstep ih => exact ih.trans (hstep.accepted (tasks_reachable hs hrun))

theorem accepted_prefix_pushed (s : State α) : s.history.accepted <+: s.pushed :=
  List.prefix_append ..

/-- Once everything pushed is in a slot it stays so, as long as nothing more is pushed. -/
theorem tasks_settled (hs : (system P).Reachable s)
    (h : Relation.ReflTransGen (TaskStep P) s t) (hsettled : s.history.accepted = s.pushed) :
    t.history.accepted = s.pushed := by
  have hle := accepted_prefix_pushed t
  rw [tasks_pushed hs h] at hle
  exact hle.eq_of_length_le (hsettled ▸ (tasks_accepted hs h).length_le)

/-! ### Refused chunks -/

/-- The chunk last handed to `store()`: its answer is awaited, or it was refused. -/
structure LastHanded (s : State α) : Prop where
  storing : ∀ d i items n chunk, s.flusher = .storing d i items n chunk →
    s.history.handed.getLast? = some chunk
  refused : ∀ d i items n, s.flusher = .puttingBack d i items n →
    ∃ chunk, s.history.handed.getLast? = some chunk ∧ chunk ≠ [] ∧ chunk <+: items.drop n

theorem LastHanded.congr (hs : LastHanded s) (hflusher : t.flusher = s.flusher)
    (hhanded : t.history.handed = s.history.handed) : LastHanded t where
  storing := by
    rw [hflusher, hhanded]
    exact hs.storing
  refused := by
    rw [hflusher, hhanded]
    exact hs.refused

theorem LastHanded.of_other (hstoring : ∀ d i items n chunk, s.flusher ≠ .storing d i items n chunk)
    (hback : ∀ d i items n, s.flusher ≠ .puttingBack d i items n) : LastHanded s where
  storing _ _ _ _ _ hpc := absurd hpc (hstoring _ _ _ _ _)
  refused _ _ _ _ hpc := absurd hpc (hback _ _ _ _)

theorem LastHanded.of_idle (h : s.flusher.draining = none) : LastHanded s := by
  apply LastHanded.of_other
  · intro d i items n chunk hpc
    rw [hpc] at h
    cases h
  · intro d i items n hpc
    rw [hpc] at h
    cases h

theorem FlusherStep.lastHanded (h : FlusherStep P s t) (hs : Draining P s)
    (hlast : LastHanded s) : LastHanded t := by
  cases h with
  | chunk =>
      refine ⟨?_, by simp⟩
      intro d' i' items' n' chunk' heq
      simp only [Flusher.storing.injEq] at heq
      obtain ⟨-, -, -, -, rfl⟩ := heq
      exact List.getLast?_concat ..
  | storeFalse hpc =>
      refine ⟨by simp, ?_⟩
      intro d' i' items' n' heq
      simp only [Flusher.puttingBack.injEq] at heq
      obtain ⟨-, -, rfl, rfl⟩ := heq
      obtain ⟨hchunk, hne⟩ := hs.chunk _ _ _ _ _ hpc
      exact ⟨_, hlast.storing _ _ _ _ _ hpc, hne, hchunk ▸ List.take_prefix ..⟩
  | putBack | checkedEmpty => exact .of_idle (Drain.draining_finish _ _)
  | swappedEmpty | truncated | truncateFails => exact .of_idle (Drain.draining_drained _)
  | timer | notified | flushReceived | flushClosed | checkedFull => exact .of_idle rfl
  | swapped | storeTrue | chunksDone => exact .of_other (by simp) (by simp)

theorem lastHanded_invariant (P : Params α) :
    (system P).Invariant fun s => Draining P s ∧ LastHanded s where
  init := by
    rintro s ⟨dir, b, -, rfl⟩
    exact ⟨.of_idle rfl, .of_idle rfl⟩
  step := by
    rintro s t ⟨hs, hlast⟩ hstep
    refine ⟨(draining_invariant P).step hs hstep, ?_⟩
    cases hstep with
    | client h =>
        obtain ⟨-, hflusher, hhistory, -⟩ := h.effect
        exact hlast.congr hflusher (by rw [hhistory])
    | writer h =>
        obtain ⟨items, heffect⟩ := h.effect
        exact hlast.congr heffect.flusher (by rw [heffect.history])
    | flusher h => exact h.lastHanded hs hlast

/-! ### The end of the flush -/

/-- A flush ends with everything in the store, or at a chunk that was refused and is still
the first to be stored. -/
inductive FlushEnd (s : State α) : Prop
  | stored (hempty : s.buffers.allEmpty = true)
      (hstored : s.history.stored = s.history.accepted)
  | refused (chunk : List α) (hhanded : s.history.handed.getLast? = some chunk)
      (hne : chunk ≠ []) (hpending : chunk <+: s.pending)

/-- A flush that is not answered yet, whatever `store()` has returned. -/
inductive Waits (ack : ℕ) (items : List α) (s : State α) : Prop
  | awaits (h : Awaits ack items s) (hacks : ack ∉ s.acks)
  | refused {i : Fin 2} {rest : List α} {n : ℕ}
      (hpc : s.flusher = .puttingBack (.flush (some ack)) i rest n)
      (hitems : items <+: s.history.accepted) (hacks : ack ∉ s.acks)

theorem FlusherStep.of_back {d : Drain} {i : Fin 2} {rest : List α} {n : ℕ}
    (h : FlusherStep P s t) (hpc : t.flusher = .puttingBack d i rest n) :
    s.flusher.caller = some d ∧ t.acks = s.acks := by
  cases h with
  | @storeFalse d' i' items chunk stored hstoring =>
      cases hpc
      exact ⟨by rw [hstoring]; rfl, rfl⟩
  | putBack | checkedEmpty =>
      have hidle := congrArg Flusher.draining hpc
      rw [Drain.draining_finish] at hidle
      cases hidle
  | swappedEmpty | truncated | truncateFails =>
      have hidle := congrArg Flusher.draining hpc
      rw [Drain.draining_drained] at hidle
      cases hidle
  | _ => cases hpc

theorem TaskStep.idle_of_acked {ack : ℕ} (h : TaskStep P s t) (hacks : ack ∉ s.acks)
    (hacked : ack ∈ t.acks) : t.flusher.caller = none := by
  cases h with
  | writer h => exact absurd (h.acks ▸ hacked) hacks
  | flusher h =>
      cases h.move with
      | received _ _ _ _ hsame | other _ _ _ hsame | going _ _ hsame =>
          exact absurd (hsame ▸ hacked) hacks
      | finished _ _ _ hidle => exact hidle

theorem stored_of_idle (hs : (system P).Reachable s) (hidle : s.flusher.caller = none)
    (hempty : s.buffers.allEmpty = true) : s.history.stored = s.history.accepted := by
  have hconserved : s.history.stored ++ s.pending = s.history.accepted :=
    (refines_fifo P).transfer (Fifo.conserved_invariant P.max) hs
  rw [← hconserved, pending_of_allEmpty (Flusher.taken_of_idle hidle) hempty, List.append_nil]

/-- The flush waits, or the step answers it. -/
theorem Waits.step {ack : ℕ} {items : List α} (hs : (system P).Reachable s)
    (h : Waits ack items s) (hstep : TaskStep P s t) :
    Waits ack items t ∨ (items <+: t.history.accepted ∧ FlushEnd t) := by
  have hgrows := hstep.accepted hs
  cases h with
  | awaits h hacks =>
      by_cases hstores : StoresFor ack s t
      · have hnext := h.step hs ⟨hstep.step, hstores⟩
        by_cases hacked : ack ∈ t.acks
        · right
          have hempty := (h.acked hstep.step hacks hacked).2
          have hstored := stored_of_idle (hs.next hstep.step) (hstep.idle_of_acked hacks hacked)
            hempty
          cases hnext with
          | done hitems => exact ⟨hstored ▸ hitems, .stored hempty hstored⟩
          | upstream _ _ _ _ _ _ _ hnot | sent _ _ _ hnot | draining _ _ hnot | gone _ hnot =>
              exact absurd hacked hnot
        · exact .inl (.awaits hnext hacked)
      · left
        simp only [StoresFor, not_forall] at hstores
        obtain ⟨i, rest, n, hpc, hmoved⟩ := hstores
        cases hstep with
        | writer hwriter =>
            obtain ⟨more, heffect⟩ := hwriter.effect
            exact absurd heffect.flusher hmoved
        | flusher hflusher =>
            obtain ⟨hcaller, hsame⟩ := hflusher.of_back hpc
            cases h with
            | draining _ hitems =>
                exact .refused hpc (hitems.trans hgrows) (hsame ▸ hacks)
            | upstream _ _ _ _ _ _ hother | sent _ _ hother => exact absurd hcaller hother
            | done _ hmem => exact absurd hmem hacks
            | gone hstopped => exact absurd hstopped hflusher.not_stopped
  | refused hpc hitems hacks =>
      cases hstep with
      | writer hwriter =>
          obtain ⟨more, heffect⟩ := hwriter.effect
          left
          refine .refused (heffect.flusher.trans hpc) (hitems.trans hgrows) ?_
          rw [hwriter.acks]
          exact hacks
      | flusher hflusher =>
          right
          obtain ⟨chunk, hhanded, hne, hchunk⟩ :=
            ((lastHanded_invariant P).holds hs).2.refused _ _ _ _ hpc
          obtain ⟨rfl, -⟩ := ((draining_invariant P).holds hs).sealed _ (by rw [hpc]; rfl)
          obtain rfl := hflusher.of_puttingBack hpc
          refine ⟨hitems.trans hgrows, .refused chunk ?_ hne ?_⟩
          · rw [Drain.history_finish]
            exact hhanded
          · rw [State.pending, Drain.taken_finish, List.nil_append, State.sealed,
              Drain.buffers_finish, Buffers.sealed_set, Buffers.slots_set_self]
            exact hchunk.trans (List.prefix_append ..)

theorem pushed_flush (s : State α) (ack : ℕ) : (s.flush ack).pushed = s.pushed := by
  rw [State.pushed, State.pushed, State.flush, State.upstream, State.upstream,
    ← List.append_assoc, itemsOf_append]
  exact congrArg _ (List.append_nil _)

/-- When a flush is answered everything pushed before it is in the store or in a slot, and
its drain went to the end or to a chunk that was refused. -/
theorem flush_answered (hs : (system P).Reachable s) (hopen : s.txOpen = true)
    (hroom : s.rx.length < P.max) {ack : ℕ} (hfresh : Fresh ack s)
    (hrun : Relation.ReflTransGen (TaskStep P) (s.flush ack) t) (hacked : ack ∈ t.acks) :
    ∃ u, Relation.ReflTransGen (TaskStep P) (s.flush ack) u ∧
      Relation.ReflTransGen (TaskStep P) u t ∧ u.history.accepted = s.pushed ∧ FlushEnd u := by
  have hstart : (system P).Reachable (s.flush ack) := hs.next (.client (.flush ack hopen hroom))
  have hpushed := pushed_flush s ack
  have hanswered : Waits ack s.pushed t ∨ ∃ u, Relation.ReflTransGen (TaskStep P) (s.flush ack) u ∧
      Relation.ReflTransGen (TaskStep P) u t ∧ s.pushed <+: u.history.accepted ∧ FlushEnd u := by
    clear hacked
    induction hrun with
    | refl => exact .inl (.awaits hfresh.awaits hfresh.acks)
    | @tail mid t hrun hstep ih =>
        rcases ih with hwaits | ⟨u, hfirst, hrest, hitems, hend⟩
        · rcases hwaits.step (tasks_reachable hstart hrun) hstep with hwaits | ⟨hitems, hend⟩
          · exact .inl hwaits
          · exact .inr ⟨t, hrun.tail hstep, .refl, hitems, hend⟩
        · exact .inr ⟨u, hfirst, hrest.tail hstep, hitems, hend⟩
  rcases hanswered with hwaits | ⟨u, hfirst, hrest, hitems, hend⟩
  · cases hwaits with
    | awaits _ hacks | refused _ _ hacks => exact absurd hacked hacks
  · refine ⟨u, hfirst, hrest, ?_, hend⟩
    have hle := accepted_prefix_pushed u
    rw [tasks_pushed hstart hfirst, hpushed] at hle
    exact hle.eq_of_length_le hitems.length_le

/-! ### A batcher nobody has flushed -/

/-- A batcher into which items were pushed, and which was not flushed: any `oneshot` is new
to it. -/
structure Serving (P : Params α) (s : State α) : Prop where
  reachable : (system P).Reachable s
  txOpen : s.txOpen = true
  fresh : ∀ ack, Fresh ack s

theorem Fresh.task {ack : ℕ} (hs : (system P).Reachable s) (h : Fresh ack s)
    (hstep : TaskStep P s t) : Fresh ack t := by
  cases hstep with
  | writer hwriter =>
      obtain ⟨items, heffect⟩ := hwriter.effect
      have hcaller : t.flusher.caller ≠ some (.flush (some ack)) := by
        rw [heffect.flusher]
        exact h.caller
      have hacks : ack ∉ t.acks := by
        rw [hwriter.acks]
        exact h.acks
      cases hwriter.move with
      | kept hupstream _ hflushRx =>
          exact ⟨hupstream ▸ h.upstream, hflushRx ▸ h.flushRx, hcaller, hacks⟩
      | accepted items hupstream _ hflushRx =>
          refine ⟨fun hmem => h.upstream ?_, hflushRx ▸ h.flushRx, hcaller, hacks⟩
          rw [hupstream]
          exact List.mem_append_right _ hmem
      | sent other hupstream _ hflushRx =>
          have hnot := h.upstream
          rw [hupstream, List.mem_cons, not_or] at hnot
          refine ⟨hnot.2, ?_, hcaller, hacks⟩
          rw [hflushRx, List.mem_singleton]
          exact fun heq => hnot.1 (congrArg _ heq)
      | closed hgone =>
          have hstopped := ((orderly_invariant P).holds hs).flusher (.inl hgone)
          exact absurd hstopped hwriter.not_stopped
  | flusher hflusher =>
      have hupstream := hflusher.upstream.symm ▸ h.upstream
      cases hflusher.move with
      | received other hflushRx _ hcaller hacks =>
          have hnot := h.flushRx
          rw [hflushRx, List.mem_cons, not_or] at hnot
          refine ⟨hupstream, hnot.2, ?_, hacks ▸ h.acks⟩
          rw [hcaller]
          simpa [Flusher.caller] using Ne.symm hnot.1
      | other hflushRx _ hcaller hacks =>
          exact ⟨hupstream, hflushRx ▸ h.flushRx, hcaller ack, hacks ▸ h.acks⟩
      | going hflushRx hcaller hacks =>
          exact ⟨hupstream, hflushRx ▸ h.flushRx, hcaller ▸ h.caller, hacks ▸ h.acks⟩
      | finished d hflushRx hcaller hidle hacks =>
          refine ⟨hupstream, hflushRx ▸ h.flushRx, by simp [hidle], ?_⟩
          exact not_mem_acks hcaller h.caller h.acks hacks

theorem Serving.task (h : Serving P s) (hstep : TaskStep P s t) : Serving P t :=
  ⟨h.reachable.next hstep.step, hstep.txOpen.trans h.txOpen,
    fun ack => (h.fresh ack).task h.reachable hstep⟩

theorem Serving.tasks (h : Serving P s) (hrun : Relation.ReflTransGen (TaskStep P) s t) :
    Serving P t := by
  induction hrun with
  | refl => exact h
  | tail _ hstep ih => exact ih.task hstep

theorem Serving.push (h : Serving P s) (item : α) (hroom : s.rx.length < P.max) :
    Serving P { s with rx := s.rx ++ [.push item] } where
  reachable := h.reachable.next (.client (.push item h.txOpen hroom))
  txOpen := h.txOpen
  fresh ack := by
    refine ⟨fun hmem => ?_, (h.fresh ack).flushRx, (h.fresh ack).caller, (h.fresh ack).acks⟩
    rw [State.upstream, ← List.append_assoc, List.mem_append] at hmem
    rcases hmem with hmem | hmem
    · exact (h.fresh ack).upstream hmem
    · simp at hmem

theorem pushed_push (s : State α) (item : α) :
    State.pushed { s with rx := s.rx ++ [.push item] } = s.pushed ++ [item] := by
  rw [State.pushed, State.pushed, State.upstream, State.upstream, ← List.append_assoc,
    itemsOf_append, List.append_assoc]
  rfl

theorem Serving.writer_ne_stopped (h : Serving P s) : s.writer ≠ .stopped := by
  intro hstopped
  have hclosed := ((orderly_invariant P).holds h.reachable).writer hstopped
  rw [h.txOpen] at hclosed
  contradiction

theorem Serving.flushRx (h : Serving P s) : s.flushRx = [] := by
  cases hrx : s.flushRx with
  | nil => rfl
  | cons ack rest =>
      exact absurd (hrx ▸ List.mem_cons_self) (h.fresh ack).flushRx

/-! ### It answers -/

/-- With commands on their way and none of them a flush, the writer goes on. -/
theorem Serving.exists_writerStep (h : Serving P s)
    (hrest : ¬(s.writer = .receiving ∧ s.rx = [])) : ∃ t, WriterStep P s t := by
  cases hpc : s.writer with
  | receiving =>
      have hrx : s.rx ≠ [] := fun hrx => hrest ⟨hpc, hrx⟩
      exact ⟨_, .recvMany 1 hpc Nat.one_pos P.max_pos (List.length_pos_iff.mpr hrx)⟩
  | scanning cmds items =>
      cases cmds with
      | nil => exact ⟨_, .scanEnd hpc⟩
      | cons cmd cmds =>
          cases cmd with
          | push item => exact ⟨_, .scanPush hpc⟩
          | flush ack => exact ⟨_, .scanFlush hpc⟩
  | pushing items next =>
      by_cases hitems : items = []
      · subst hitems
        exact ⟨_, .pushNothing hpc⟩
      · by_cases hfile : s.active.file = none
        · exact ⟨_, .pushUnspooled hpc hitems hfile⟩
        · exact ⟨_, .pushWritten hpc hitems hfile⟩
  | written items next => exact ⟨_, .pushSynced hpc⟩
  | extending items next => exact ⟨_, .pushExtended hpc⟩
  | notifying len next => exact ⟨_, .pushNotified hpc⟩
  | forwarding ack cmds => exact ⟨_, .flushSent hpc h.flushRx⟩
  | stopped => exact absurd hpc h.writer_ne_stopped

/-- The writer comes to rest, by induction on what it may still do. -/
theorem Serving.writer_rests (k : ℕ) : ∀ {s : State α}, Serving P s →
    14 * s.rx.length + s.writer.weight ≤ k →
    ∃ t, Relation.ReflTransGen (TaskStep P) s t ∧ t.writer = .receiving ∧ t.rx = [] := by
  induction k with
  | zero =>
      intro s h hk
      by_cases hrest : s.writer = .receiving ∧ s.rx = []
      · exact ⟨s, .refl, hrest⟩
      · obtain ⟨t, hstep⟩ := h.exists_writerStep hrest
        obtain ⟨more, -, hless⟩ := hstep.weighed
        omega
  | succ k ih =>
      intro s h hk
      by_cases hrest : s.writer = .receiving ∧ s.rx = []
      · exact ⟨s, .refl, hrest⟩
      · obtain ⟨t, hstep⟩ := h.exists_writerStep hrest
        obtain ⟨more, -, hless⟩ := hstep.weighed
        obtain ⟨u, hrun, hu⟩ := ih (h.task (.writer hstep)) (by omega)
        exact ⟨u, hrun.head (.writer hstep), hu⟩

/-- The flusher can end its drain, if only by a `store()` that returns `false`, and then
acknowledges what it drains for. -/
def GivesUp (P : Params α) (d : Drain) (s : State α) : Prop :=
  ∃ t, Relation.ReflTransGen (FlusherStep P) s t ∧ t.flusher.caller = none ∧
    ∀ ack ∈ d.acked, ack ∈ t.acks

section GivesUp

variable {d : Drain} {i : Fin 2} {items chunk : List α} {n : ℕ}

theorem GivesUp.head (hstep : FlusherStep P s t) (h : GivesUp P d t) : GivesUp P d s := by
  obtain ⟨u, hrun, hu⟩ := h
  exact ⟨u, hrun.head hstep, hu⟩

theorem GivesUp.finish (hstep : FlusherStep P s (d.finish t)) : GivesUp P d s := by
  obtain ⟨-, hidle, hacks⟩ := d.finish_move t
  refine ⟨_, .single hstep, hidle, fun ack hack => ?_⟩
  rw [hacks]
  exact List.mem_append_right _ hack

theorem givesUp_storing (hlock : s.writer.holdsLock = false)
    (hpc : s.flusher = .storing d i items n chunk) : GivesUp P d s :=
  .head (.storeFalse hpc) (.finish (.putBack rfl hlock))

theorem givesUp_chunking (hlock : s.writer.holdsLock = false)
    (hpc : s.flusher = .chunking d i items n) (hrest : items.drop n ≠ []) : GivesUp P d s :=
  .head (.chunk hpc hrest) (givesUp_storing hlock rfl)

theorem givesUp_checking (hlock : s.writer.holdsLock = false)
    (hpc : s.flusher = .checking d) : GivesUp P d s := by
  cases hempty : s.buffers.allEmpty with
  | true => exact .finish (.checkedEmpty hpc hlock hempty)
  | false =>
      have hitems : s.buffers.swap.take.1 ≠ [] := by
        intro hnil
        rw [Buffers.allEmpty_of_load (Buffers.load_of_take_nil hnil)] at hempty
        contradiction
      refine .head (.checkedFull hpc hlock hempty) (.head (.swapped rfl hlock hitems) ?_)
      exact givesUp_chunking hlock rfl hitems

theorem givesUp_drained (hlock : s.writer.holdsLock = false) (hpc : s.flusher = d.drained) :
    GivesUp P d s := by
  cases d with
  | tick => exact ⟨s, .refl, by rw [hpc]; rfl, fun _ hack => absurd hack List.not_mem_nil⟩
  | startup => exact givesUp_checking hlock hpc
  | flush received => exact givesUp_checking hlock hpc

theorem givesUp_truncating (hlock : s.writer.holdsLock = false)
    (hpc : s.flusher = .truncating d i) : GivesUp P d s :=
  .head (.truncated hpc hlock) (givesUp_drained hlock rfl)

theorem givesUp (hlock : s.writer.holdsLock = false) (hcaller : s.flusher.caller = some d) :
    GivesUp P d s := by
  cases hpc : s.flusher with
  | selecting | stopped =>
      rw [hpc] at hcaller
      contradiction
  | swapping d' =>
      rw [hpc] at hcaller
      cases hcaller
      by_cases hitems : s.buffers.swap.take.1 = []
      · exact .head (.swappedEmpty hpc hlock hitems) (givesUp_drained hlock rfl)
      · exact .head (.swapped hpc hlock hitems) (givesUp_chunking hlock rfl hitems)
  | chunking d' j items n =>
      rw [hpc] at hcaller
      cases hcaller
      by_cases hrest : items.drop n = []
      · exact .head (.chunksDone hpc hrest) (givesUp_truncating hlock rfl)
      · exact givesUp_chunking hlock hpc hrest
  | storing d' j items n chunk =>
      rw [hpc] at hcaller
      cases hcaller
      exact givesUp_storing hlock hpc
  | puttingBack d' j items n =>
      rw [hpc] at hcaller
      cases hcaller
      exact .finish (.putBack hpc hlock)
  | truncating d' j =>
      rw [hpc] at hcaller
      cases hcaller
      exact givesUp_truncating hlock hpc
  | checking d' =>
      rw [hpc] at hcaller
      cases hcaller
      exact givesUp_checking hlock hpc

theorem flusherSteps_rx (h : Relation.ReflTransGen (FlusherStep P) s t) :
    t.rx = s.rx ∧ t.writer = s.writer := by
  induction h with
  | refl => exact ⟨rfl, rfl⟩
  | tail _ hstep ih => exact ⟨hstep.rx.1.trans ih.1, hstep.rx.2.trans ih.2⟩

theorem flusherSteps_tasks (h : Relation.ReflTransGen (FlusherStep P) s t) :
    Relation.ReflTransGen (TaskStep P) s t :=
  Relation.ReflTransGen.mono (fun _ _ => TaskStep.flusher) _ _ h

end GivesUp

/-- The tasks can come to rest, with all commands received. -/
theorem Serving.rests (h : Serving P s) :
    ∃ t, Relation.ReflTransGen (TaskStep P) s t ∧ t.writer = .receiving ∧ t.rx = [] ∧
      t.flusher = .selecting := by
  obtain ⟨t, hrun, hwriter, hrx⟩ := h.writer_rests _ (Nat.le_refl _)
  have ht := h.tasks hrun
  have hrests : ∀ u, Relation.ReflTransGen (FlusherStep P) t u → u.flusher.caller = none →
      ∃ u, Relation.ReflTransGen (TaskStep P) s u ∧ u.writer = .receiving ∧ u.rx = [] ∧
        u.flusher = .selecting := by
    intro u hdrain hidle
    obtain ⟨hrx', hwriter'⟩ := flusherSteps_rx hdrain
    have hu := ht.tasks (flusherSteps_tasks hdrain)
    refine ⟨u, hrun.trans (flusherSteps_tasks hdrain), hwriter'.trans hwriter,
      hrx'.trans hrx, ?_⟩
    cases hpc : u.flusher with
    | selecting => rfl
    | stopped =>
        have hstopped := ((orderly_invariant P).holds hu.reachable).flusher (.inl hpc)
        exact absurd hstopped hu.writer_ne_stopped
    | _ =>
        rw [hpc] at hidle
        contradiction
  cases hcaller : t.flusher.caller with
  | none => exact hrests t .refl hcaller
  | some d =>
      obtain ⟨u, hdrain, hidle, -⟩ := givesUp (P := P) (by rw [hwriter]; rfl) hcaller
      exact hrests u hdrain hidle

/-- At rest, a flush can be answered. -/
theorem flush_answers (hwriter : s.writer = .receiving) (hrx : s.rx = [])
    (hflusher : s.flusher = .selecting) (hflushRx : s.flushRx = []) (ack : ℕ) :
    ∃ t, Relation.ReflTransGen (TaskStep P) (s.flush ack) t ∧ ack ∈ t.acks := by
  have hrx' : (s.flush ack).rx = [.flush ack] := by
    rw [State.flush, hrx]
    rfl
  have hlen : 1 ≤ (s.flush ack).rx.length := by
    rw [hrx']
    exact Nat.le_refl 1
  have hrecv := WriterStep.recvMany (P := P) (s := s.flush ack) 1 hwriter Nat.one_pos P.max_pos
    hlen
  rw [hrx'] at hrecv
  have hscan := WriterStep.scanFlush (P := P) (s := { s.flush ack with
    writer := .scanning [.flush ack] [], rx := [] }) rfl
  have hpush := WriterStep.pushNothing (P := P) (s := { s.flush ack with
    writer := .pushing [] (.forward ack []), rx := [] }) rfl
  have hsent := WriterStep.flushSent (P := P) (s := { s.flush ack with
    writer := .forwarding ack [], rx := [] }) rfl hflushRx
  have hreceived := FlusherStep.flushReceived (P := P) (s := { s.flush ack with
    writer := .scanning [] [], rx := [], flushRx := [ack] }) hflusher rfl
  obtain ⟨t, hdrain, -, hacked⟩ := givesUp (P := P) (s := { s.flush ack with
    writer := .scanning [] [], rx := [], flushRx := [],
    flusher := .swapping (.flush (some ack)) }) rfl rfl
  refine ⟨t, ?_, hacked ack (List.mem_singleton_self ack)⟩
  exact .head (.writer hrecv) (.head (.writer hscan) (.head (.writer hpush)
    (.head (.writer hsent) (.head (.flusher hreceived) (flusherSteps_tasks hdrain)))))

end CdvizCollector.Sinks.Batch
