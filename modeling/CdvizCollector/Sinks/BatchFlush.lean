import CdvizCollector.Sinks.BatchSpool

/-!
`flush()` as a barrier, and the end of `drain_all`.

A flush is a command among the pushes. The writer forwards it once every push
before it is in a slot, and the flusher acknowledges it at the end of a drain
that goes on until both slots are empty or a `store()` returned `false`.
-/

namespace CdvizCollector.Sinks.Batch

open Lib

variable {α : Type} {P : Params α} {s t : State α}

/-! ### Commands on their way -/

def AfterPush.commands : AfterPush α → List (BatchCmd α)
  | .forward ack cmds => .flush ack :: cmds
  | .receive => []

/-- The commands the writer has received: their items are not in a slot, and their flushes are
not forwarded. -/
def Writer.commands : Writer α → List (BatchCmd α)
  | .scanning cmds items => items.map .push ++ cmds
  | .pushing items next | .written items next | .extending items next =>
      items.map .push ++ next.commands
  | .notifying _ next => next.commands
  | .forwarding ack cmds => .flush ack :: cmds
  | .receiving | .stopped => []

/-- All commands that are on their way, in their order. -/
def State.upstream (s : State α) : List (BatchCmd α) := s.writer.commands ++ s.rx

def BatchCmd.item : BatchCmd α → Option α
  | .push item => some item
  | .flush _ => none

def itemsOf (cmds : List (BatchCmd α)) : List α := cmds.filterMap BatchCmd.item

/-- The items pushed up to now. -/
def State.pushed (s : State α) : List α := s.history.accepted ++ itemsOf s.upstream

@[simp] theorem itemsOf_append (cmds cmds' : List (BatchCmd α)) :
    itemsOf (cmds ++ cmds') = itemsOf cmds ++ itemsOf cmds' := List.filterMap_append

@[simp] theorem itemsOf_map_push (items : List α) : itemsOf (items.map .push) = items := by
  rw [itemsOf, List.filterMap_map]
  exact List.filterMap_some

theorem AfterPush.commands_writer (next : AfterPush α) :
    next.writer.commands = next.commands := by
  cases next <;> rfl

/-- What a step of the writer does to the commands on their way. -/
inductive WriterMove (s t : State α) : Prop
  | kept (hupstream : t.upstream = s.upstream)
      (haccepted : t.history.accepted = s.history.accepted) (hflushRx : t.flushRx = s.flushRx)
  | accepted (items : List α) (hupstream : s.upstream = items.map .push ++ t.upstream)
      (haccepted : t.history.accepted = s.history.accepted ++ items)
      (hflushRx : t.flushRx = s.flushRx)
  | sent (ack : ℕ) (hupstream : s.upstream = .flush ack :: t.upstream)
      (haccepted : t.history.accepted = s.history.accepted) (hflushRx : t.flushRx = [ack])
      (hempty : s.flushRx = [])
  | closed (hstopped : s.flusher = .stopped)

theorem WriterStep.move (h : WriterStep P s t) : WriterMove s t := by
  cases h with
  | recvMany n hpc =>
      refine .kept ?_ rfl rfl
      simp only [State.upstream, hpc, Writer.commands, List.map_nil, List.nil_append,
        List.take_append_drop]
  | recvClosed hpc hrx =>
      refine .kept ?_ rfl rfl
      simp only [State.upstream, hpc, Writer.commands]
  | scanPush hpc =>
      refine .kept ?_ rfl rfl
      simp only [State.upstream, hpc, Writer.commands, List.map_append, List.append_assoc]
      rfl
  | scanFlush hpc | scanEnd hpc =>
      refine .kept ?_ rfl rfl
      simp only [State.upstream, hpc, Writer.commands, AfterPush.commands]
  | pushNothing hpc | pushNotified hpc =>
      refine .kept ?_ rfl rfl
      rw [State.upstream, State.upstream, hpc]
      exact congrArg (· ++ s.rx) (AfterPush.commands_writer _)
  | pushUnspooled hpc | pushWritten hpc | pushWriteFails _ _ hpc | pushSynced hpc =>
      refine .kept ?_ rfl rfl
      simp only [State.upstream, hpc, Writer.commands]
  | pushExtended hpc =>
      refine .accepted _ ?_ rfl rfl
      simp only [State.upstream, hpc, Writer.commands, List.append_assoc]
  | flushSent hpc hroom =>
      refine .sent _ ?_ rfl rfl hroom
      simp only [State.upstream, hpc, Writer.commands, List.map_nil, List.nil_append,
        List.cons_append]
  | flushClosed hpc hgone => exact .closed hgone

theorem WriterStep.acks (h : WriterStep P s t) : t.acks = s.acks := by
  cases h <;> rfl

/-- The flush that the end of a drain acknowledges. -/
def Drain.acked : Drain → List ℕ
  | .flush (some ack) => [ack]
  | _ => []

/-- What a step of the flusher does to the flushes that were forwarded. -/
inductive FlusherMove (s t : State α) : Prop
  | received (ack : ℕ) (hflushRx : s.flushRx = ack :: t.flushRx) (hidle : s.flusher.caller = none)
      (hcaller : t.flusher = .swapping (.flush (some ack))) (hacks : t.acks = s.acks)
  | other (hflushRx : t.flushRx = s.flushRx) (hidle : s.flusher.caller = none)
      (hcaller : ∀ ack, t.flusher.caller ≠ some (.flush (some ack))) (hacks : t.acks = s.acks)
  | going (hflushRx : t.flushRx = s.flushRx) (hcaller : t.flusher.caller = s.flusher.caller)
      (hacks : t.acks = s.acks)
  | finished (d : Drain) (hflushRx : t.flushRx = s.flushRx) (hcaller : s.flusher.caller = some d)
      (hidle : t.flusher.caller = none)
      (hacks : t.acks = s.acks ++ d.acked)
      (hend : (∃ i items n, s.flusher = .puttingBack d i items n) ∨
        (s.flusher = .checking d ∧ s.buffers.allEmpty = true ∧ t.buffers = s.buffers) ∨ d = .tick)

theorem Drain.caller_drained_or (d : Drain) :
    (d.drained : Flusher α).caller = some d ∨
      (d.drained : Flusher α).caller = none ∧ d = .tick := by
  cases d with
  | startup => exact .inl rfl
  | tick => exact .inr ⟨rfl, rfl⟩
  | flush received => exact .inl rfl

/-- A drain of both slots looks at them when a drain of one slot returned `true`. -/
theorem Drain.drained_of_caller {d d' : Drain} (h : some d' = some d) (hall : d ≠ .tick) :
    (d'.drained : Flusher α) = .checking d := by
  cases h
  cases d with
  | tick => exact absurd rfl hall
  | startup | flush => rfl

theorem Drain.finish_move (d : Drain) (s : State α) :
    (d.finish s).flushRx = s.flushRx ∧ (d.finish s).flusher.caller = none ∧
      (d.finish s).acks = s.acks ++ d.acked := by
  match d with
  | .startup | .tick | .flush none => exact ⟨rfl, rfl, (List.append_nil _).symm⟩
  | .flush (some ack) => exact ⟨rfl, rfl, rfl⟩

theorem FlusherStep.move (h : FlusherStep P s t) : FlusherMove s t := by
  -- a drain that returned `true`
  have hdrained : ∀ d : Drain, s.flusher.caller = some d → t.flusher = d.drained →
      t.flushRx = s.flushRx → t.acks = s.acks → FlusherMove s t := by
    intro d hcaller hflusher hflushRx hacks
    rcases d.caller_drained_or (α := α) with hsame | ⟨hnone, htick⟩
    · exact .going hflushRx (by rw [hflusher, hsame, hcaller]) hacks
    · refine .finished d hflushRx hcaller (by rw [hflusher, hnone]) ?_ (.inr (.inr htick))
      rw [hacks, htick]
      exact (List.append_nil _).symm
  cases h with
  | timer hpc | notified hpc =>
      exact .other rfl (by rw [hpc]; rfl) (fun _ => by simp [Flusher.caller]) rfl
  | flushReceived hpc hrx => exact .received _ hrx (by rw [hpc]; rfl) rfl rfl
  | flushClosed hpc => exact .other rfl (by rw [hpc]; rfl) (fun _ => by simp [Flusher.caller]) rfl
  | swapped hpc | chunk hpc | chunksDone hpc | storeTrue hpc | storeFalse hpc | checkedFull hpc =>
      exact .going rfl (by rw [hpc]; rfl) rfl
  | swappedEmpty hpc | truncated hpc | truncateFails _ hpc =>
      exact hdrained _ (by rw [hpc]; rfl) rfl rfl rfl
  | @putBack d i items n hpc hlock =>
      obtain ⟨hflushRx, hidle, hacks⟩ := d.finish_move
        { s with buffers := s.buffers.set i { s.buffers.slots i with items := items.drop n } }
      exact .finished d hflushRx (by rw [hpc]; rfl) hidle hacks (.inl ⟨i, items, n, hpc⟩)
  | @checkedEmpty d hpc hlock hempty =>
      obtain ⟨hflushRx, hidle, hacks⟩ := d.finish_move s
      exact .finished d hflushRx (by rw [hpc]; rfl) hidle hacks
        (.inr (.inl ⟨hpc, hempty, Drain.buffers_finish d s⟩))

theorem Drain.upstream_finish (d : Drain) (s : State α) :
    (d.finish s).upstream = s.upstream := by
  match d with
  | .startup | .tick | .flush (some _) | .flush none => rfl

theorem FlusherStep.upstream (h : FlusherStep P s t) : t.upstream = s.upstream := by
  cases h with
  | putBack => exact Drain.upstream_finish _ _
  | checkedEmpty => exact Drain.upstream_finish _ _
  | _ => rfl

theorem FlusherEffect.grows (h : FlusherEffect P s t) :
    t.history.accepted = s.history.accepted ∧ s.history.stored <+: t.history.stored := by
  cases h with
  | delivered chunk _ _ _ _ hhistory =>
      rw [hhistory]
      exact ⟨rfl, List.prefix_append ..⟩
  | moved _ _ _ _ _ hhistory =>
      rw [hhistory]
      exact ⟨rfl, List.prefix_refl _⟩

/-! ### A flush on its way -/

/-- The flush has not been called yet. -/
structure Fresh (ack : ℕ) (s : State α) : Prop where
  upstream : .flush ack ∉ s.upstream
  flushRx : ack ∉ s.flushRx
  caller : s.flusher.caller ≠ some (.flush (some ack))
  acks : ack ∉ s.acks

/-- Where a flush is that was called when `items` had been pushed, in a run in which no
`store()` of its own drain returned `false`. -/
inductive Awaits (ack : ℕ) (items : List α) (s : State α) : Prop
  | upstream (before after : List (BatchCmd α))
      (hupstream : s.upstream = before ++ .flush ack :: after) (hbefore : .flush ack ∉ before)
      (hitems : items = s.history.accepted ++ itemsOf before) (hflushRx : ack ∉ s.flushRx)
      (hcaller : s.flusher.caller ≠ some (.flush (some ack))) (hacks : ack ∉ s.acks)
  | sent (hflushRx : s.flushRx = [ack]) (hitems : items <+: s.history.accepted)
      (hcaller : s.flusher.caller ≠ some (.flush (some ack))) (hacks : ack ∉ s.acks)
  | draining (hcaller : s.flusher.caller = some (.flush (some ack)))
      (hitems : items <+: s.history.accepted) (hacks : ack ∉ s.acks)
      (hstored : ∀ i rest n, s.flusher ≠ .puttingBack (.flush (some ack)) i rest n)
  | done (hitems : items <+: s.history.stored) (hacks : ack ∈ s.acks)
  | gone (hstopped : s.flusher = .stopped) (hacks : ack ∉ s.acks)

/-- No `store()` of the drain of the flush returns `false` in the step; those of other drains
may. -/
def StoresFor (ack : ℕ) (s t : State α) : Prop :=
  ∀ i rest n, t.flusher = .puttingBack (.flush (some ack)) i rest n → t.flusher = s.flusher

theorem exists_of_append_eq {β : Type} {front rest before after : List β} {x : β}
    (h : front ++ rest = before ++ x :: after) (hx : x ∉ front) :
    ∃ middle, before = front ++ middle ∧ rest = middle ++ x :: after := by
  rcases List.append_eq_append_iff.mp h with ⟨middle, hbefore, hrest⟩ | ⟨middle, hfront, hrest⟩
  · exact ⟨middle, hbefore, hrest⟩
  · cases middle with
    | nil =>
        rw [List.append_nil] at hfront
        exact ⟨[], by rw [hfront, List.append_nil], hrest.symm⟩
    | cons y middle =>
        obtain ⟨rfl, -⟩ := List.cons.inj hrest
        exact absurd (hfront ▸ List.mem_append_right _ (List.mem_cons_self ..)) hx

theorem Awaits.client {ack : ℕ} {items : List α} (h : Awaits ack items s)
    (hstep : ClientStep P s t) : Awaits ack items t := by
  obtain ⟨-, hflusher, hhistory, hwriter⟩ := hstep.effect
  have hfields : t.flushRx = s.flushRx ∧ t.acks = s.acks ∧
      ∃ more, t.upstream = s.upstream ++ more := by
    cases hstep with
    | push item => exact ⟨rfl, rfl, [.push item], (List.append_assoc ..).symm⟩
    | flush other => exact ⟨rfl, rfl, [.flush other], (List.append_assoc ..).symm⟩
    | drop => exact ⟨rfl, rfl, [], (List.append_nil _).symm⟩
  obtain ⟨hflushRx, hacks, more, hmore⟩ := hfields
  cases h with
  | upstream before after hupstream hbefore hitems hrx hcaller hnot =>
      refine .upstream before (after ++ more) ?_ hbefore (hhistory ▸ hitems) (hflushRx ▸ hrx)
        (hflusher ▸ hcaller) (hacks ▸ hnot)
      rw [hmore, hupstream, List.append_assoc, List.cons_append]
  | sent hrx hitems hcaller hnot =>
      exact .sent (hflushRx.trans hrx) (hhistory ▸ hitems) (hflusher ▸ hcaller) (hacks ▸ hnot)
  | draining hcaller hitems hnot hstored =>
      exact .draining (hflusher ▸ hcaller) (hhistory ▸ hitems) (hacks ▸ hnot) (hflusher ▸ hstored)
  | done hitems hacked => exact .done (hhistory ▸ hitems) (hacks ▸ hacked)
  | gone hstopped hnot => exact .gone (hflusher.trans hstopped) (hacks ▸ hnot)

theorem Awaits.writer {ack : ℕ} {items : List α} (h : Awaits ack items s)
    (hstep : WriterStep P s t) : Awaits ack items t := by
  obtain ⟨more, heffect⟩ := hstep.effect
  have hflusher := heffect.flusher
  have hacks := hstep.acks
  have haccepted : s.history.accepted <+: t.history.accepted := by
    rw [heffect.history]
    exact List.prefix_append ..
  have hstored : t.history.stored = s.history.stored := by rw [heffect.history]
  cases h with
  | upstream before after hupstream hbefore hitems hrx hcaller hnot =>
      have hcaller : t.flusher.caller ≠ some (.flush (some ack)) := hflusher ▸ hcaller
      have hnot : ack ∉ t.acks := hacks ▸ hnot
      cases hstep.move with
      | kept hmove hsame hflushRx =>
          exact .upstream before after (hmove.trans hupstream) hbefore (hsame ▸ hitems)
            (hflushRx ▸ hrx) hcaller hnot
      | accepted group hmove hgrown hflushRx =>
          have hpush : .flush ack ∉ group.map BatchCmd.push := by simp
          obtain ⟨middle, rfl, hrest⟩ := exists_of_append_eq (hmove.symm.trans hupstream) hpush
          refine .upstream middle after hrest
            (fun hmem => hbefore (List.mem_append_right _ hmem)) ?_ (hflushRx ▸ hrx) hcaller hnot
          rw [hitems, hgrown, itemsOf_append, itemsOf_map_push, List.append_assoc]
      | sent other hmove hsame hflushRx hempty =>
          by_cases hother : other = ack
          · obtain rfl := hother
            refine .sent hflushRx ?_ hcaller hnot
            rw [hitems, hsame]
            cases before with
            | nil => exact List.append_nil _ ▸ List.prefix_refl _
            | cons cmd before =>
                obtain ⟨rfl, -⟩ := List.cons.inj (hmove.symm.trans hupstream)
                exact absurd (List.mem_cons_self ..) hbefore
          · have hne : (BatchCmd.flush ack : BatchCmd α) ∉ [.flush other] := by
              simpa using Ne.symm hother
            obtain ⟨middle, rfl, hrest⟩ := exists_of_append_eq
              (show [BatchCmd.flush other] ++ t.upstream = _ from hmove.symm.trans hupstream) hne
            refine .upstream middle after hrest
              (fun hmem => hbefore (List.mem_append_right _ hmem)) ?_ ?_ hcaller hnot
            · rw [hitems, hsame, itemsOf_append]
              rfl
            · rw [hflushRx]
              simpa using Ne.symm hother
      | closed hstopped => exact .gone (hflusher.trans hstopped) hnot
  | sent hrx hitems hcaller hnot =>
      have hcaller : t.flusher.caller ≠ some (.flush (some ack)) := hflusher ▸ hcaller
      have hitems := hitems.trans haccepted
      have hnot : ack ∉ t.acks := hacks ▸ hnot
      cases hstep.move with
      | kept _ _ hflushRx => exact .sent (hflushRx.trans hrx) hitems hcaller hnot
      | accepted _ _ _ hflushRx => exact .sent (hflushRx.trans hrx) hitems hcaller hnot
      | sent _ _ _ _ hempty => cases hempty.symm.trans hrx
      | closed hstopped => exact .gone (hflusher.trans hstopped) hnot
  | draining hcaller hitems hnot hstoring =>
      exact .draining (hflusher ▸ hcaller) (hitems.trans haccepted) (hacks ▸ hnot)
        (hflusher ▸ hstoring)
  | done hitems hacked => exact .done (hstored ▸ hitems) (hacks ▸ hacked)
  | gone hstopped hnot => exact .gone (hflusher.trans hstopped) (hacks ▸ hnot)

theorem FlusherStep.not_stopped (h : FlusherStep P s t) : s.flusher ≠ .stopped := by
  intro hstopped
  cases h with
  | timer hpc | notified hpc | flushReceived hpc | flushClosed hpc | swapped hpc
  | swappedEmpty hpc | chunk hpc | chunksDone hpc | storeTrue hpc | storeFalse hpc | putBack hpc
  | truncated hpc | truncateFails _ hpc | checkedEmpty hpc | checkedFull hpc =>
      cases hpc.symm.trans hstopped

/-- The end of another drain does not acknowledge the flush. -/
theorem not_mem_acks {ack : ℕ} {d : Drain} (hd : s.flusher.caller = some d)
    (hcaller : s.flusher.caller ≠ some (.flush (some ack))) (hnot : ack ∉ s.acks)
    (hacks : t.acks = s.acks ++ d.acked) : ack ∉ t.acks := by
  rw [hacks, List.mem_append, not_or]
  refine ⟨hnot, fun hmem => hcaller ?_⟩
  match d with
  | .startup | .tick | .flush none => cases hmem
  | .flush (some other) => rw [hd, List.mem_singleton.mp hmem]

theorem FlusherStep.acks_prefix (h : FlusherStep P s t) : s.acks <+: t.acks := by
  cases h.move with
  | received _ _ _ _ hacks | other _ _ _ hacks | going _ _ hacks =>
      exact hacks ▸ List.prefix_refl _
  | finished d _ _ _ hacks => exact hacks ▸ List.prefix_append ..

/-- At the end of `drain_all` without a failure everything accepted is stored. -/
theorem stored_of_allEmpty {d : Drain} (hs : (system P).Reachable s)
    (hpc : s.flusher = .checking d) (h : s.buffers.allEmpty = true) :
    s.history.stored = s.history.accepted := by
  have hconserved : s.history.stored ++ s.pending = s.history.accepted :=
    (refines_fifo P).transfer (Fifo.conserved_invariant P.max) hs
  have htaken : s.flusher.taken = [] := by rw [hpc]; rfl
  rw [← hconserved, pending_of_allEmpty htaken h, List.append_nil]

theorem Awaits.flusher {ack : ℕ} {items : List α} (h : Awaits ack items s)
    (hs : (system P).Reachable s) (hstep : FlusherStep P s t) (hstores : StoresFor ack s t) :
    Awaits ack items t := by
  obtain ⟨haccepted, hstored⟩ := (hstep.effect ((draining_invariant P).holds hs)).grows
  cases h with
  | upstream before after hupstream hbefore hitems hrx hcaller hnot =>
      have hupstream := hstep.upstream.trans hupstream
      have hitems := haccepted.symm ▸ hitems
      cases hstep.move with
      | received other hflushRx hidle hreceived hacks =>
          rw [hflushRx, List.mem_cons, not_or] at hrx
          refine .upstream before after hupstream hbefore hitems hrx.2 ?_ (hacks ▸ hnot)
          rw [hreceived]
          simpa [Flusher.caller] using Ne.symm hrx.1
      | other hflushRx hidle hother hacks =>
          exact .upstream before after hupstream hbefore hitems (hflushRx ▸ hrx) (hother ack)
            (hacks ▸ hnot)
      | going hflushRx hsame hacks =>
          exact .upstream before after hupstream hbefore hitems (hflushRx ▸ hrx) (hsame ▸ hcaller)
            (hacks ▸ hnot)
      | finished d hflushRx hd hidle hacks =>
          exact .upstream before after hupstream hbefore hitems (hflushRx ▸ hrx) (by simp [hidle])
            (not_mem_acks hd hcaller hnot hacks)
  | sent hrx hitems hcaller hnot =>
      have hitems := haccepted.symm ▸ hitems
      cases hstep.move with
      | received other hflushRx hidle hreceived hacks =>
          obtain ⟨rfl, -⟩ := List.cons.inj (hrx.symm.trans hflushRx)
          refine .draining (by rw [hreceived]; rfl) hitems (hacks ▸ hnot) ?_
          rw [hreceived]
          rintro _ _ _ ⟨⟩
      | other hflushRx hidle hother hacks =>
          exact .sent (hflushRx.trans hrx) hitems (hother ack) (hacks ▸ hnot)
      | going hflushRx hsame hacks =>
          exact .sent (hflushRx.trans hrx) hitems (hsame ▸ hcaller) (hacks ▸ hnot)
      | finished d hflushRx hd hidle hacks =>
          exact .sent (hflushRx.trans hrx) hitems (by simp [hidle])
            (not_mem_acks hd hcaller hnot hacks)
  | draining hcaller hitems hnot hstoring =>
      cases hstep.move with
      | received other hflushRx hidle => cases hidle.symm.trans hcaller
      | other hflushRx hidle => cases hidle.symm.trans hcaller
      | going hflushRx hsame hacks =>
          refine .draining (hsame.trans hcaller) (haccepted.symm ▸ hitems) (hacks ▸ hnot) ?_
          intro i rest n hpc
          exact hstoring i rest n ((hstores i rest n hpc).symm.trans hpc)
      | finished d hflushRx hd hidle hacks hend =>
          cases hd.symm.trans hcaller
          rcases hend with ⟨i, rest, n, hpc⟩ | ⟨hpc, hempty, -⟩ | htick
          · exact absurd hpc (hstoring i rest n)
          · have hall := stored_of_allEmpty hs hpc hempty
            refine .done ((hall ▸ hitems).trans hstored) ?_
            rw [hacks]
            exact List.mem_append_right _ (List.mem_singleton_self ack)
          · cases htick
  | done hitems hacked => exact .done (hitems.trans hstored) (hstep.acks_prefix.subset hacked)
  | gone hstopped hnot => exact absurd hstopped hstep.not_stopped

/-- The steps of a run in which no `store()` of the drain of the flush returns `false`. -/
def FlushStep (P : Params α) (ack : ℕ) (s t : State α) : Prop := Step P s t ∧ StoresFor ack s t

theorem FlushStep.writer {ack : ℕ} (h : WriterStep P s t) : FlushStep P ack s t := by
  obtain ⟨items, heffect⟩ := h.effect
  exact ⟨.writer h, fun _ _ _ _ => heffect.flusher⟩

/-- `store()` has returned `false`, and what it was called with is to be put back. -/
def Flusher.isPuttingBack : Flusher α → Bool
  | .puttingBack .. => true
  | _ => false

theorem FlushStep.flusher {ack : ℕ} (h : FlusherStep P s t)
    (hstores : t.flusher.isPuttingBack = false) : FlushStep P ack s t := by
  refine ⟨.flusher h, fun i rest n hpc => ?_⟩
  rw [hpc] at hstores
  cases hstores

theorem FlushStep.reachable {ack : ℕ} (hs : (system P).Reachable s)
    (hrun : Relation.ReflTransGen (FlushStep P ack) s t) : (system P).Reachable t := by
  induction hrun with
  | refl => exact hs
  | tail _ hstep ih => exact ih.next hstep.1

theorem Awaits.step {ack : ℕ} {items : List α} (h : Awaits ack items s)
    (hs : (system P).Reachable s) (hstep : FlushStep P ack s t) : Awaits ack items t := by
  cases hstep.1 with
  | client hclient => exact h.client hclient
  | writer hwriter => exact h.writer hwriter
  | flusher hflusher => exact h.flusher hs hflusher hstep.2

/-- The flush is called. -/
def State.flush (s : State α) (ack : ℕ) : State α := { s with rx := s.rx ++ [.flush ack] }

theorem Fresh.awaits {ack : ℕ} (h : Fresh ack s) : Awaits ack s.pushed (s.flush ack) := by
  refine .upstream s.upstream [] ?_ h.upstream rfl h.flushRx h.caller h.acks
  exact (List.append_assoc ..).symm

/-- Whenever the flush is acknowledged all items pushed before it are stored, and both slots
were empty when its drain ended. -/
structure FlushBarrier (P : Params α) (ack : ℕ) (s : State α) : Prop where
  stored : ∀ t, Relation.ReflTransGen (FlushStep P ack) (s.flush ack) t → ack ∈ t.acks →
    s.pushed <+: t.history.stored
  empty : ∀ t u, Relation.ReflTransGen (FlushStep P ack) (s.flush ack) t → FlushStep P ack t u →
    ack ∉ t.acks → ack ∈ u.acks → t.buffers.allEmpty = true ∧ u.buffers.allEmpty = true

/-- The flusher acknowledges the flush at the end of its own drain. -/
theorem Awaits.acked {ack : ℕ} {items : List α} (h : Awaits ack items s)
    (hstep : Step P s t) (hnot : ack ∉ s.acks) (hacked : ack ∈ t.acks) :
    s.buffers.allEmpty = true ∧ t.buffers.allEmpty = true := by
  have hgrown : t.acks ≠ s.acks := fun hsame => hnot (hsame ▸ hacked)
  cases hstep with
  | client hclient => cases hclient <;> exact absurd rfl hgrown
  | writer hwriter => exact absurd hwriter.acks hgrown
  | flusher hflusher =>
      cases hflusher.move with
      | received _ _ _ _ hacks | other _ _ _ hacks | going _ _ hacks => exact absurd hacks hgrown
      | finished d hflushRx hd hidle hacks hend =>
          have hcaller : s.flusher.caller = some (.flush (some ack)) := by
            by_contra hcaller
            exact not_mem_acks hd hcaller hnot hacks hacked
          cases hd.symm.trans hcaller
          rcases hend with ⟨i, rest, n, hpc⟩ | ⟨hpc, hempty, hbuffers⟩ | htick
          · cases h with
            | draining _ _ _ hstoring => exact absurd hpc (hstoring i rest n)
            | upstream _ _ _ _ _ _ hother | sent _ _ hother => exact absurd hcaller hother
            | done _ hmem => exact absurd hmem hnot
            | gone hstopped => exact absurd hstopped hflusher.not_stopped
          · exact ⟨hempty, hbuffers ▸ hempty⟩
          · cases htick

theorem flushBarrier (hs : (system P).Reachable s) (hopen : s.txOpen = true)
    (hroom : s.rx.length < P.max) {ack : ℕ} (h : Fresh ack s) : FlushBarrier P ack s := by
  have hrun : ∀ t, Relation.ReflTransGen (FlushStep P ack) (s.flush ack) t →
      (system P).Reachable t ∧ Awaits ack s.pushed t := by
    intro t hrun
    induction hrun with
    | refl => exact ⟨hs.next (.client (.flush ack hopen hroom)), h.awaits⟩
    | tail _ hstep ih => exact ⟨ih.1.next hstep.1, ih.2.step ih.1 hstep⟩
  constructor
  · intro t ht hacked
    cases (hrun t ht).2 with
    | done hitems => exact hitems
    | upstream _ _ _ _ _ _ _ hnot | sent _ _ _ hnot | draining _ _ hnot | gone _ hnot =>
        exact absurd hacked hnot
  · intro t u ht hstep hnot hacked
    exact (hrun t ht).2.acked hstep.1 hnot hacked

/-! ### A drain of both slots -/

/-- The steps of all parties while the flusher drains. `n` more calls are made by clients. -/
inductive DrainStep (P : Params α) : State α × ℕ → State α × ℕ → Prop
  | client {s t : State α} {n : ℕ} (hcaller : s.flusher.caller ≠ none) (h : ClientStep P s t) :
      DrainStep P (s, n + 1) (t, n)
  | writer {s t : State α} {n : ℕ} (hcaller : s.flusher.caller ≠ none) (h : WriterStep P s t) :
      DrainStep P (s, n) (t, n)
  | flusher {s t : State α} {n : ℕ} (hcaller : s.flusher.caller ≠ none) (h : FlusherStep P s t) :
      DrainStep P (s, n) (t, n)

/-- `drain_all` from a state on. -/
def drainSystem (P : Params α) (s : State α) (n : ℕ) : System (State α × ℕ) where
  init x := x = (s, n)
  step := DrainStep P

theorem DrainStep.step {x y : State α × ℕ} (h : DrainStep P x y) : Step P x.1 y.1 := by
  cases h with
  | client _ h => exact .client h
  | writer _ h => exact .writer h
  | flusher _ h => exact .flusher h

/-- A drain of both slots goes on, or it is over. -/
structure DrainingAll (P : Params α) (d : Drain) (s : State α) : Prop where
  reachable : (system P).Reachable s
  caller : s.flusher.caller = some d ∨ s.flusher.caller = none

theorem drainingAll_step {d : Drain} {x y : State α × ℕ} (hd : DrainingAll P d x.1)
    (hstep : DrainStep P x y) : DrainingAll P d y.1 := by
  refine ⟨hd.reachable.next hstep.step, ?_⟩
  cases hstep with
  | client hcaller h => exact h.effect.2.1 ▸ hd.caller
  | writer hcaller h =>
      obtain ⟨items, heffect⟩ := h.effect
      exact heffect.flusher ▸ hd.caller
  | flusher hcaller h =>
      cases h.move with
      | received _ _ hidle | other _ hidle => exact absurd hidle hcaller
      | going _ hsame => exact hsame ▸ hd.caller
      | finished _ _ _ hidle => exact .inr hidle

/-! ### Its end -/

def AfterPush.weight : AfterPush α → ℕ
  | .forward _ cmds => 6 + 8 * cmds.length
  | .receive => 0

/-- What the writer may still do with the commands it has received. -/
def Writer.weight : Writer α → ℕ
  | .receiving => 1
  | .scanning cmds items => 6 + 8 * cmds.length + 7 * items.length
  | .pushing items next => 5 + 7 * items.length + next.weight
  | .written items next => 4 + 7 * items.length + next.weight
  | .extending items next => 3 + 7 * items.length + next.weight
  | .notifying _ next => 2 + next.weight
  | .forwarding _ cmds => 7 + 8 * cmds.length
  | .stopped => 0

/-- What the flusher may still do with `load` items in the slots. -/
def Flusher.weight (load : ℕ) : Flusher α → ℕ
  | .selecting | .stopped => 0
  | .swapping _ => if load = 0 then 2 else 0
  | .checking _ => 1
  | .puttingBack _ _ _ _ | .truncating _ _ => 2
  | .storing _ _ _ _ _ => 3
  | .chunking _ _ _ _ => 4

/-- Steps left of a drain: an item is weighed where it is, and so is a command. -/
def drainWeight (s : State α) (n : ℕ) : ℕ :=
  if s.flusher.caller = none then 0
  else 1 + 15 * n + 14 * s.rx.length + s.writer.weight + 7 * s.buffers.load +
    2 * s.flusher.taken.length + s.flusher.weight s.buffers.load

theorem Flusher.weight_add_le (f : Flusher α) (load more : ℕ) :
    f.weight (load + more) ≤ f.weight load := by
  cases f with
  | swapping d =>
      show (if load + more = 0 then 2 else 0) ≤ if load = 0 then 2 else 0
      by_cases hzero : load + more = 0
      · rw [if_pos hzero, if_pos (Nat.eq_zero_of_add_eq_zero_right hzero)]
      · rw [if_neg hzero]
        exact Nat.zero_le _
  | _ => exact Nat.le_refl _

theorem AfterPush.weight_writer (next : AfterPush α) : next.writer.weight ≤ 1 + next.weight := by
  cases next with
  | forward ack cmds => exact Nat.le_of_eq (by rw [writer, Writer.weight, weight]; omega)
  | receive => exact Nat.le_refl 1

theorem Buffers.load_set_active (b : Buffers α) (slot : Slot α) :
    (b.set b.active slot).load = (b.slots b.sealed).items.length + slot.items.length := by
  simp [Buffers.load]

theorem WriterStep.weighed (h : WriterStep P s t) :
    ∃ more, t.buffers.load = s.buffers.load + more ∧
      14 * t.rx.length + t.writer.weight + 7 * more < 14 * s.rx.length + s.writer.weight := by
  cases h with
  | recvMany n hpc hpos hmax hlen =>
      refine ⟨0, rfl, ?_⟩
      rw [hpc, Writer.weight, Writer.weight, List.length_drop, List.length_take, List.length_nil]
      omega
  | recvClosed hpc | flushSent hpc | flushClosed hpc | scanEnd hpc | pushUnspooled hpc
  | pushSynced hpc =>
      refine ⟨0, rfl, ?_⟩
      simp only [hpc, Writer.weight, AfterPush.weight, List.length_nil]
      omega
  | scanPush hpc =>
      refine ⟨0, rfl, ?_⟩
      simp only [hpc, Writer.weight, List.length_cons, List.length_append, List.length_nil]
      omega
  | scanFlush hpc =>
      refine ⟨0, rfl, ?_⟩
      simp only [hpc, Writer.weight, AfterPush.weight, List.length_cons]
      omega
  | pushNothing hpc =>
      rename_i next
      have hnext := next.weight_writer
      have hbefore : s.writer.weight = 5 + next.weight := by rw [hpc]; rfl
      exact ⟨0, rfl, by dsimp only; omega⟩
  | pushNotified hpc =>
      rename_i next
      have hnext := next.weight_writer
      have hbefore : s.writer.weight = 2 + next.weight := by rw [hpc]; rfl
      exact ⟨0, rfl, by dsimp only; omega⟩
  | pushWritten hpc | pushWriteFails _ _ hpc =>
      refine ⟨0, ?_, ?_⟩
      · rw [Buffers.load_set_active]
        rfl
      · simp only [hpc, Writer.weight]
        omega
  | pushExtended hpc =>
      rename_i items next
      refine ⟨items.length, ?_, ?_⟩
      · rw [Buffers.load_set_active, Slot.extend, List.length_append, ← Nat.add_assoc]
        rfl
      · simp only [hpc, Writer.weight]
        omega

theorem FlusherStep.rx (h : FlusherStep P s t) : t.rx = s.rx ∧ t.writer = s.writer := by
  have hfinish : ∀ (d : Drain) (s : State α), (d.finish s).rx = s.rx := by
    intro d s
    match d with
    | .startup | .tick | .flush (some _) | .flush none => rfl
  cases h with
  | putBack => exact ⟨hfinish _ _, Drain.writer_finish _ _⟩
  | checkedEmpty => exact ⟨hfinish _ _, Drain.writer_finish _ _⟩
  | _ => exact ⟨rfl, rfl⟩

/-- A step of a drain of both slots that goes on. -/
theorem FlusherStep.weighed {d : Drain} (h : FlusherStep P s t) (hs : Draining P s)
    (hd : s.flusher.caller = some d) (hall : d ≠ .tick) (ht : t.flusher.caller ≠ none) :
    7 * t.buffers.load + 2 * t.flusher.taken.length + t.flusher.weight t.buffers.load <
      7 * s.buffers.load + 2 * s.flusher.taken.length + s.flusher.weight s.buffers.load := by
  cases h with
  | timer hpc | notified hpc | flushReceived hpc | flushClosed hpc =>
      rw [hpc] at hd
      cases hd
  | swapped hpc hlock hitems =>
      have hload := s.buffers.load_take
      have hpos := List.length_pos_iff.mpr hitems
      simp only [hpc, Flusher.weight, Flusher.taken_chunking, Flusher.taken_swapping,
        List.drop_zero, List.length_nil]
      split
      · omega
      · omega
  | swappedEmpty hpc hlock hnil =>
      have hload := s.buffers.load_take
      have hzero := Buffers.load_of_take_nil hnil
      rw [hpc] at hd
      simp only [hpc, Drain.drained_of_caller hd hall, Flusher.weight, Flusher.taken_checking,
        Flusher.taken_swapping, hzero, if_true, List.length_nil]
      omega
  | chunk hpc | storeFalse hpc =>
      simp only [hpc, Flusher.weight, Flusher.taken_chunking, Flusher.taken_storing,
        Flusher.taken_puttingBack]
      omega
  | chunksDone hpc hrest =>
      simp only [hpc, Flusher.weight, Flusher.taken_chunking, Flusher.taken_truncating, hrest]
      omega
  | storeTrue hpc =>
      have hsplit := congrArg List.length (hs.split hpc)
      have hpos := List.length_pos_iff.mpr (hs.chunk _ _ _ _ _ hpc).2
      rw [List.length_append] at hsplit
      simp only [hpc, Flusher.weight, Flusher.taken_chunking, Flusher.taken_storing]
      omega
  | putBack | checkedEmpty => exact absurd (Drain.finish_move _ _).2.1 ht
  | truncated hpc hlock =>
      rename_i d' i
      obtain ⟨rfl, -⟩ := hs.sealed i (by simp [hpc, Flusher.draining])
      rw [hpc] at hd
      simp only [hpc, Drain.drained_of_caller hd hall, Flusher.weight, Flusher.taken_checking,
        Flusher.taken_truncating, Buffers.load_truncate]
      omega
  | truncateFails _ hpc =>
      rw [hpc] at hd
      simp only [hpc, Drain.drained_of_caller hd hall, Flusher.weight, Flusher.taken_checking,
        Flusher.taken_truncating]
      omega
  | checkedFull hpc hlock hfull =>
      have hload : s.buffers.load ≠ 0 := by
        intro hzero
        rw [Buffers.allEmpty_of_load hzero] at hfull
        cases hfull
      simp only [hpc, Flusher.weight, Flusher.taken_checking, Flusher.taken_swapping, hload,
        if_false]
      omega

theorem drainWeight_lt {d : Drain} (hall : d ≠ .tick) {x y : State α × ℕ}
    (hx : DrainingAll P d x.1) (hstep : DrainStep P x y) :
    drainWeight y.1 y.2 < drainWeight x.1 x.2 := by
  have hcaller : x.1.flusher.caller ≠ none := by
    cases hstep with
    | client hcaller | writer hcaller | flusher hcaller => exact hcaller
  have hd := hx.caller.resolve_right hcaller
  by_cases ht : y.1.flusher.caller = none
  · rw [drainWeight, drainWeight, if_neg hcaller, if_pos ht]
    omega
  · rw [drainWeight, drainWeight, if_neg hcaller, if_neg ht]
    cases hstep with
    | @client s t n hcaller h =>
        obtain ⟨hbuffers, hflusher, -, hwriter⟩ := h.effect
        have hrx : t.rx.length ≤ s.rx.length + 1 := by
          cases h with
          | push | flush => exact Nat.le_of_eq List.length_append
          | drop => exact Nat.le_succ _
        rw [hbuffers, hflusher, hwriter]
        dsimp only
        omega
    | @writer s t n hcaller h =>
        obtain ⟨items, heffect⟩ := h.effect
        obtain ⟨more, hload, hweight⟩ := h.weighed
        have hflusher := s.flusher.weight_add_le s.buffers.load more
        dsimp only
        rw [heffect.flusher, hload]
        omega
    | @flusher s t n hcaller h =>
        obtain ⟨hrx, hwriter⟩ := h.rx
        have hweight := h.weighed ((draining_invariant P).holds hx.reachable) hd hall ht
        dsimp only
        rw [hrx, hwriter]
        omega

/-- While the flusher drains, it goes on, or the writer that holds the lock does. -/
theorem exists_drainStep (n : ℕ) (hcaller : s.flusher.caller ≠ none) :
    ∃ y, DrainStep P (s, n) y := by
  cases hlock : s.writer.holdsLock with
  | true =>
      cases hwriter : s.writer with
      | written items next => exact ⟨_, .writer hcaller (.pushSynced hwriter)⟩
      | extending items next => exact ⟨_, .writer hcaller (.pushExtended hwriter)⟩
      | receiving | scanning | pushing | notifying | forwarding | stopped =>
          rw [hwriter] at hlock
          cases hlock
  | false =>
      cases hpc : s.flusher with
      | selecting | stopped =>
          rw [hpc] at hcaller
          exact absurd rfl hcaller
      | swapping d =>
          by_cases hitems : s.buffers.swap.take.1 = []
          · exact ⟨_, .flusher hcaller (.swappedEmpty hpc hlock hitems)⟩
          · exact ⟨_, .flusher hcaller (.swapped hpc hlock hitems)⟩
      | chunking d i items stored =>
          by_cases hrest : items.drop stored = []
          · exact ⟨_, .flusher hcaller (.chunksDone hpc hrest)⟩
          · exact ⟨_, .flusher hcaller (.chunk hpc hrest)⟩
      | storing d i items stored chunk => exact ⟨_, .flusher hcaller (.storeTrue hpc)⟩
      | puttingBack d i items stored => exact ⟨_, .flusher hcaller (.putBack hpc hlock)⟩
      | truncating d i => exact ⟨_, .flusher hcaller (.truncated hpc hlock)⟩
      | checking d =>
          cases hempty : s.buffers.allEmpty with
          | true => exact ⟨_, .flusher hcaller (.checkedEmpty hpc hlock hempty)⟩
          | false => exact ⟨_, .flusher hcaller (.checkedFull hpc hlock hempty)⟩

theorem drainAll_terminates {d : Drain} (hs : (system P).Reachable s)
    (hpc : s.flusher = .swapping d) (hall : d ≠ .tick) (n : ℕ) :
    (drainSystem P s n).TerminatesIn (fun x => x.1.flusher.caller = none) (drainWeight s n)
      (s, n) := by
  have hinvariant : (drainSystem P s n).Invariant fun x => DrainingAll P d x.1 := by
    refine ⟨?_, drainingAll_step⟩
    rintro _ rfl
    exact ⟨hs, .inl (by rw [hpc]; rfl)⟩
  refine hinvariant.terminatesIn (μ := fun x => drainWeight x.1 x.2) (drainWeight_lt hall)
    ?_ ?_ (.init rfl) (Nat.le_refl _)
  · exact fun _ hcaller => exists_drainStep _ hcaller
  · rintro x y hidle hstep
    cases hstep with
    | client hcaller | writer hcaller | flusher hcaller => exact hcaller hidle

/-- How a drain of both slots ends: every `store()` returned `true` and both slots are empty, or
the last one did not and its chunk is at the front of the sealed slot. `h` is the history when
the drain started. -/
inductive DrainEnd (h : History α) (s : State α) : Prop
  | drained (chunks : List (List α)) (hhanded : s.history.handed = h.handed ++ chunks)
      (hstored : s.history.stored = h.stored ++ chunks.flatten)
      (hempty : s.buffers.allEmpty = true)
  | failed (chunks : List (List α)) (chunk : List α)
      (hhanded : s.history.handed = h.handed ++ (chunks ++ [chunk]))
      (hstored : s.history.stored = h.stored ++ chunks.flatten)
      (hkept : chunk <+: s.sealed.items)

/-! The position of the flusher decides which steps it can take. -/

theorem FlusherStep.of_storing {d : Drain} {i : Fin 2} {items chunk : List α} {n : ℕ}
    (h : FlusherStep P s t) (hpc : s.flusher = .storing d i items n chunk) :
    t = { s with
      flusher := .chunking d i items (n + chunk.length)
      history := { s.history with
        stored := s.history.stored ++ chunk
        kept := s.history.kept ++ chunk } } ∨
    t = { s with
      flusher := .puttingBack d i items n
      history := { s.history with failed := true } } := by
  cases h with
  | storeTrue hpc' =>
      cases hpc.symm.trans hpc'
      exact .inl rfl
  | storeFalse hpc' =>
      cases hpc.symm.trans hpc'
      exact .inr rfl
  | _ => simp_all only [reduceCtorEq]

theorem FlusherStep.of_puttingBack {d : Drain} {i : Fin 2} {items : List α} {n : ℕ}
    (h : FlusherStep P s t) (hpc : s.flusher = .puttingBack d i items n) :
    t = d.finish { s with
      buffers := s.buffers.set i { s.buffers.slots i with items := items.drop n } } := by
  cases h with
  | putBack hpc' =>
      cases hpc.symm.trans hpc'
      rfl
  | _ => simp_all only [reduceCtorEq]

theorem FlusherStep.of_truncating {d : Drain} {i : Fin 2} (h : FlusherStep P s t)
    (hpc : s.flusher = .truncating d i) :
    t = { s with
      flusher := d.drained
      buffers := s.buffers.set i (s.buffers.slots i).truncate
      history := { s.history with
        kept := []
        dropped := s.history.dropped ++ s.history.kept } } ∨
    t = { s with flusher := d.drained } := by
  cases h with
  | truncated hpc' =>
      cases hpc.symm.trans hpc'
      exact .inl rfl
  | truncateFails _ hpc' =>
      cases hpc.symm.trans hpc'
      exact .inr rfl
  | _ => simp_all only [reduceCtorEq]

/-- Where a drain of both slots is, in terms of the calls of `store()` up to now. -/
inductive DrainLog (h : History α) (s : State α) : Prop
  | between (chunks : List (List α)) (hhanded : s.history.handed = h.handed ++ chunks)
      (hstored : s.history.stored = h.stored ++ chunks.flatten)
      (hstoring : ∀ d i items n chunk, s.flusher ≠ .storing d i items n chunk)
      (hback : ∀ d i items n, s.flusher ≠ .puttingBack d i items n)
      (hcaller : s.flusher.caller ≠ none)
  | storing (chunks : List (List α)) {d : Drain} {i : Fin 2} {items chunk : List α} {n : ℕ}
      (hpc : s.flusher = .storing d i items n chunk)
      (hhanded : s.history.handed = h.handed ++ (chunks ++ [chunk]))
      (hstored : s.history.stored = h.stored ++ chunks.flatten)
  | puttingBack (chunks : List (List α)) (chunk : List α) {d : Drain} {i : Fin 2}
      {items : List α} {n : ℕ} (hpc : s.flusher = .puttingBack d i items n)
      (hchunk : chunk <+: items.drop n)
      (hhanded : s.history.handed = h.handed ++ (chunks ++ [chunk]))
      (hstored : s.history.stored = h.stored ++ chunks.flatten)
  | ended (hcaller : s.flusher.caller = none) (hend : DrainEnd h s)

theorem DrainLog.congr {h : History α} (hlog : DrainLog h s) (hflusher : t.flusher = s.flusher)
    (hhanded : t.history.handed = s.history.handed)
    (hstored : t.history.stored = s.history.stored) (hcaller : s.flusher.caller ≠ none) :
    DrainLog h t := by
  cases hlog with
  | between chunks hh hs hstoring hback hidle =>
      exact .between chunks (hhanded.trans hh) (hstored.trans hs) (hflusher ▸ hstoring)
        (hflusher ▸ hback) (hflusher ▸ hidle)
  | storing chunks hpc hh hs =>
      exact .storing chunks (hflusher.trans hpc) (hhanded.trans hh) (hstored.trans hs)
  | puttingBack chunks chunk hpc hchunk hh hs =>
      exact .puttingBack chunks chunk (hflusher.trans hpc) hchunk (hhanded.trans hh)
        (hstored.trans hs)
  | ended hnone => exact absurd hnone hcaller

theorem DrainLog.flusher {h : History α} {d : Drain} (hlog : DrainLog h s)
    (hs : Draining P s) (hd : s.flusher.caller = some d) (hall : d ≠ .tick)
    (hstep : FlusherStep P s t) : DrainLog h t := by
  cases hlog with
  | between chunks hhanded hstored hstoring hback hcaller =>
      cases hstep with
      | timer hpc | notified hpc | flushReceived hpc | flushClosed hpc =>
          rw [hpc] at hd
          cases hd
      | swapped | chunksDone | checkedFull =>
          exact .between chunks hhanded hstored (by simp) (by simp) (by simp [Flusher.caller])
      | swappedEmpty hpc | truncated hpc | truncateFails _ hpc =>
          rw [hpc] at hd
          refine .between chunks hhanded hstored ?_ ?_ ?_
          · simp [Drain.drained_of_caller hd hall]
          · simp [Drain.drained_of_caller hd hall]
          · simp [Drain.drained_of_caller hd hall, Flusher.caller]
      | chunk hpc =>
          refine .storing chunks rfl ?_ hstored
          rw [← List.append_assoc, ← hhanded]
      | storeTrue hpc | storeFalse hpc => exact absurd hpc (hstoring _ _ _ _ _)
      | putBack hpc => exact absurd hpc (hback _ _ _ _)
      | checkedEmpty hpc hlock hempty =>
          refine .ended (Drain.finish_move _ _).2.1 (.drained chunks ?_ ?_ ?_)
          · rw [Drain.history_finish, hhanded]
          · rw [Drain.history_finish, hstored]
          · rw [Drain.buffers_finish, hempty]
  | storing chunks hpc hhanded hstored =>
      rcases hstep.of_storing hpc with rfl | rfl
      · refine .between _ hhanded ?_ (by simp) (by simp) (by simp [Flusher.caller])
        rw [List.flatten_append, List.flatten_singleton, ← List.append_assoc, ← hstored]
      · refine .puttingBack chunks _ rfl ?_ hhanded hstored
        rw [(hs.chunk _ _ _ _ _ hpc).1]
        exact List.take_prefix ..
  | puttingBack chunks chunk hpc hchunk hhanded hstored =>
      obtain rfl := hstep.of_puttingBack hpc
      obtain ⟨rfl, -⟩ := hs.sealed _ (by rw [hpc]; rfl)
      refine .ended (Drain.finish_move _ _).2.1 (.failed chunks chunk ?_ ?_ ?_)
      · rw [Drain.history_finish, hhanded]
      · rw [Drain.history_finish, hstored]
      · rw [State.sealed, Drain.buffers_finish, Buffers.sealed_set, Buffers.slots_set_self]
        exact hchunk
  | ended hnone => cases hnone.symm.trans hd

theorem Flusher.taken_of_idle {f : Flusher α} (h : f.caller = none) : f.taken = [] := by
  cases f with
  | selecting | stopped => rfl
  | _ => cases h

/-- At the end of a drain of both slots what is not stored is in the slots. -/
theorem drainAll_ends {d : Drain} (hs : (system P).Reachable s) (hpc : s.flusher = .swapping d)
    (hall : d ≠ .tick) {n m : ℕ}
    (hrun : Relation.ReflTransGen (DrainStep P) (s, n) (t, m))
    (hidle : t.flusher.caller = none) :
    DrainEnd s.history t ∧
      t.history.stored ++ (t.sealed.items ++ t.active.items) = t.history.accepted := by
  have hinvariant : ∀ y, Relation.ReflTransGen (DrainStep P) (s, n) y →
      DrainingAll P d y.1 ∧ DrainLog s.history y.1 := by
    intro y hrun
    induction hrun with
    | refl =>
        refine ⟨⟨hs, .inl (by rw [hpc]; rfl)⟩, .between [] ?_ ?_ ?_ ?_ ?_⟩
        · exact (List.append_nil _).symm
        · exact (List.append_nil _).symm
        · simp [hpc]
        · simp [hpc]
        · simp [hpc, Flusher.caller]
    | tail _ hstep ih =>
        refine ⟨drainingAll_step ih.1 hstep, ?_⟩
        cases hstep with
        | client hcaller h =>
            obtain ⟨-, hflusher, hhistory, -⟩ := h.effect
            exact ih.2.congr hflusher (by rw [hhistory]) (by rw [hhistory]) hcaller
        | writer hcaller h =>
            obtain ⟨items, heffect⟩ := h.effect
            have hhistory := heffect.history
            exact ih.2.congr heffect.flusher (by rw [hhistory]) (by rw [hhistory]) hcaller
        | flusher hcaller h =>
            exact ih.2.flusher ((draining_invariant P).holds ih.1.reachable)
              (ih.1.caller.resolve_right hcaller) hall h
  obtain ⟨hdraining, hlog⟩ := hinvariant _ hrun
  have hconserved : t.history.stored ++ t.pending = t.history.accepted :=
    (refines_fifo P).transfer (Fifo.conserved_invariant P.max) hdraining.reachable
  have htaken : t.flusher.taken = [] := Flusher.taken_of_idle hidle
  rw [State.pending, htaken, List.nil_append] at hconserved
  refine ⟨?_, hconserved⟩
  cases hlog with
  | ended _ hend => exact hend
  | between _ _ _ _ _ hcaller => exact absurd hidle hcaller
  | storing _ hpc => cases (congrArg Flusher.caller hpc).symm.trans hidle
  | puttingBack _ _ hpc => cases (congrArg Flusher.caller hpc).symm.trans hidle

/-- `drain_all` ends after a bounded number of steps of all parties, in whatever order they
take them and whatever `store()` returns. -/
structure DrainsAll (P : Params α) (s : State α) (n : ℕ) : Prop where
  terminates : (drainSystem P s n).TerminatesIn (fun x => x.1.flusher.caller = none)
    (drainWeight s n) (s, n)
  ends : ∀ t m, Relation.ReflTransGen (DrainStep P) (s, n) (t, m) → t.flusher.caller = none →
    DrainEnd s.history t ∧
      t.history.stored ++ (t.sealed.items ++ t.active.items) = t.history.accepted

/-- A flush is a barrier, and a drain of both slots ends, from any state a run reaches. -/
theorem flush_barrier (P : Params α) {s : State α} (h : (system P).Reachable s) :
    (∀ ack, s.txOpen = true → s.rx.length < P.max → Fresh ack s → FlushBarrier P ack s) ∧
    ∀ d n, s.flusher = .swapping d → d ≠ .tick → DrainsAll P s n :=
  ⟨fun _ hopen hroom hfresh => flushBarrier h hopen hroom hfresh,
    fun _ n hpc hall => ⟨drainAll_terminates h hpc hall n,
      fun _ _ hrun hidle => drainAll_ends h hpc hall hrun hidle⟩⟩

/-- Without a spool, chunks of one item. -/
def Params.unspooled : Params Bool := { codec := .bool, batchMaxSize := 0, ioFails := False }

/-- Items are in both slots, and one is still on its way, when the flush is called behind them;
its drain stores them all and acknowledges it. -/
theorem flush_barrier_behind :
    ∃ s t, (system Params.pairs).Reachable s ∧ s.sealed.items = [true, false] ∧
      s.active.items = [true] ∧ s.upstream = [.push false] ∧
      Relation.ReflTransGen (FlushStep Params.pairs 7) (s.flush 7) t ∧ 7 ∈ t.acks ∧
      s.pushed <+: t.history.stored ∧
      ∃ u, (system Params.pairs).Reachable u ∧ u.flusher = .swapping (.flush (some 7)) ∧
        DrainsAll Params.pairs u 3 := by
  have hpushed := refusedState_reachable.next (.client (.push false rfl (by decide)))
  have hfresh : Fresh 7 { refusedState with rx := [.push false] } :=
    ⟨by simp [State.upstream, refusedState, Writer.commands], List.not_mem_nil,
      by simp [refusedState, Flusher.caller], List.not_mem_nil⟩
  have hbarrier := (flush_barrier Params.pairs hpushed).1 7 rfl (by decide) hfresh
  -- the writer appends the item before it forwards the flush
  have hcalled : Relation.ReflTransGen (FlushStep Params.pairs 7)
      (State.flush { refusedState with rx := [.push false] } 7) _ := .refl
  have hscan := ((hcalled.tail (.writer (.recvMany 2 rfl (by decide) (by decide)
    (by decide)))).tail (.writer (.scanPush rfl))).tail (.writer (.scanFlush rfl))
  have hsent := (((hscan.tail (.writer (.pushUnspooled rfl (by decide) rfl))).tail
    (.writer (.pushExtended rfl))).tail (.writer (.pushNotified rfl))).tail
    (.writer (.flushSent rfl rfl))
  have hdrain := hsent.tail (.flusher (.flushReceived rfl rfl) rfl)
  -- the refused items go first
  have hfirst := ((hdrain.tail (.flusher (.swapped rfl rfl (by decide)) rfl)).tail
    (.flusher (.chunk rfl (by decide)) rfl)).tail (.flusher (.storeTrue rfl) rfl)
  have hagain := ((hfirst.tail (.flusher (.chunksDone rfl rfl) rfl)).tail
    (.flusher (.truncated rfl rfl) rfl)).tail (.flusher (.checkedFull rfl rfl rfl) rfl)
  have hsecond := ((hagain.tail (.flusher (.swapped rfl rfl (by decide)) rfl)).tail
    (.flusher (.chunk rfl (by decide)) rfl)).tail (.flusher (.storeTrue rfl) rfl)
  have hacked := ((hsecond.tail (.flusher (.chunksDone rfl rfl) rfl)).tail
    (.flusher (.truncated rfl rfl) rfl)).tail (.flusher (.checkedEmpty rfl rfl rfl) rfl)
  have hflushed := hpushed.next (.client (.flush 7 rfl (by decide)))
  have hreached := FlushStep.reachable hflushed hdrain
  exact ⟨_, _, hpushed, rfl, rfl, rfl, hacked, by decide, hbarrier.stored _ hacked (by decide), _,
    hreached, rfl, (flush_barrier Params.pairs hreached).2 _ 3 rfl (by simp)⟩

end CdvizCollector.Sinks.Batch
