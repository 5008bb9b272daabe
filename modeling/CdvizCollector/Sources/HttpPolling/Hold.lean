import CdvizCollector.Sources.HttpPolling.Extractor

/-!
What `hold` does to the window of a source.

A response that is to hold the window does so only if nothing else in the poll
counts as progress: one success among the responses and the window moves on, with
the part of it that failed.
-/

namespace CdvizCollector.Sources.HttpPolling

open Lib Checkpoint

variable {C : SourceConfig} {s t u : Run HttpPollingExtractor}

/-- A step of a process that goes on. -/
def Alive (C : SourceConfig) (s t : Run HttpPollingExtractor) : Prop :=
  LoopStep C s t ∧ t.process.isSome = true

/-- Until another poll has returned, the window and the checkpoint are what they
were: the next poll is one of the same window. -/
def LeftUnchanged (C : SourceConfig) (s : Run HttpPollingExtractor) (e : HttpPollingExtractor) :
    Prop :=
  ∀ t, Relation.ReflTransGen (Alive C) s t → ∀ e' ∈ t.process,
    e'.outcomes.length ≤ e.outcomes.length + 1 → e'.filter = e.filter ∧ t.file = s.file

/-- Where a process is, in terms of the polls that returned since one was held. -/
inductive SinceHeld (s : Run HttpPollingExtractor) (e : HttpPollingExtractor) (P : Params)
    (poll : Poll) (t : Run HttpPollingExtractor) (e' : HttpPollingExtractor) : Prop
  | held (houtcomes : e'.outcomes = e.outcomes) (hfilter : e'.filter = e.filter)
      (hfile : t.file = s.file)
      (hphase : e'.phase = .polling P poll ∨ ∃ reason, e'.phase = .stopped reason)
  | next (houtcomes : e'.outcomes.length = e.outcomes.length + 1) (hfilter : e'.filter = e.filter)
      (hfile : t.file = s.file) (hphase : e'.phase ≠ .saving)
  | later (houtcomes : e.outcomes.length + 1 < e'.outcomes.length)

theorem SinceHeld.step {e e' e'' : HttpPollingExtractor} {P : Params} {poll : Poll}
    (hdone : poll.phase = .done .hold) (ht : SinceHeld s e P poll t e')
    (he' : t.process = some e') (he'' : u.process = some e'') (hstep : LoopStep C t u) :
    SinceHeld s e P poll u e'' := by
  cases hstep.effect he' he'' with
  | kept hfilter hfile houtcomes hsaving hreturned hstopped =>
      cases ht with
      | held houtcomes' hfilter' hfile' hphase =>
          refine .held (houtcomes.trans houtcomes') (hfilter.trans hfilter')
            (hfile.trans hfile') ?_
          rcases hphase with hphase | ⟨reason, hphase⟩
          · exact hreturned P poll hphase (by rw [hdone]; rfl)
          · exact .inr ⟨reason, hstopped reason hphase⟩
      | next houtcomes' hfilter' hfile' hphase =>
          exact .next (houtcomes ▸ houtcomes') (hfilter.trans hfilter') (hfile.trans hfile')
            fun h => hphase (hsaving h)
      | later houtcomes' => exact .later (houtcomes ▸ houtcomes')
  | @returned P' poll' outcome hpolling hdone' hfile houtcomes hfilter hsaving =>
      cases ht with
      | held houtcomes' hfilter' hfile' hphase =>
          rcases hphase with hphase | ⟨reason, hphase⟩
          · obtain ⟨rfl, rfl⟩ := LoopPhase.polling.inj (hphase.symm.trans hpolling)
            obtain rfl := Phase.done.inj (hdone.symm.trans hdone')
            refine .next ?_ ?_ (hfile.trans hfile') (fun h => by simpa using hsaving h)
            · rw [houtcomes, houtcomes', List.length_cons]
            · exact (not_imp_comm.mp hfilter (by simp)).trans hfilter'
          · exact absurd (hphase.symm.trans hpolling) (by simp)
      | next houtcomes' =>
          exact .later (by rw [houtcomes, List.length_cons]; omega)
      | later houtcomes' => exact .later (by rw [houtcomes, List.length_cons]; omega)
  | saved hphase hfilter houtcomes =>
      cases ht with
      | held _ _ _ hother =>
          rcases hother with hother | ⟨reason, hother⟩ <;>
            exact absurd (hphase.symm.trans hother) (by simp)
      | next _ _ _ hother => exact absurd hphase hother
      | later houtcomes' => exact .later (houtcomes ▸ houtcomes')

/-- A poll that returned `Hold` leaves the window to the next one. -/
theorem leftUnchanged_of_hold {e : HttpPollingExtractor} {P : Params} {poll : Poll}
    (he : s.process = some e) (hphase : e.phase = .polling P poll)
    (hdone : poll.phase = .done .hold) : LeftUnchanged C s e := by
  have hsince : ∀ t, Relation.ReflTransGen (Alive C) s t →
      ∃ e', t.process = some e' ∧ SinceHeld s e P poll t e' := by
    intro t hrun
    induction hrun with
    | refl => exact ⟨e, he, .held rfl rfl rfl (.inl hphase)⟩
    | tail _ hstep ih =>
        obtain ⟨e', he', ht⟩ := ih
        obtain ⟨e'', he''⟩ := Option.isSome_iff_exists.mp hstep.2
        exact ⟨e'', he'', ht.step hdone he' he'' hstep.1⟩
  intro t hrun e' he' hlength
  obtain ⟨e'', he'', ht⟩ := hsince t hrun
  obtain rfl := Option.some.inj (he''.symm.trans he')
  cases ht with
  | held _ hfilter hfile => exact ⟨hfilter, hfile⟩
  | next _ hfilter hfile => exact ⟨hfilter, hfile⟩
  | later houtcomes => exact absurd hlength (Nat.not_le.mpr houtcomes)

/-! ### A poll that moves on -/

theorem exists_later (now before margin : ℤ) : ∃ now', now ≤ now' ∧ before < now' - margin :=
  ⟨max now (before + margin + 1), by omega, by omega⟩

/-- Later on, the window after one that is not at its limit is another one. -/
theorem exists_next_ne {filter : TimeWindow} (hlimit : filter.isAtLimit = false)
    (now : Timestamp) : ∃ now', now ≤ now' ∧ filter.next now' ≠ filter := by
  obtain ⟨now', hnow, hlate⟩ := exists_later now filter.tsBefore timeMargin
  refine ⟨now', hnow, fun heq => ?_⟩
  have hafter : filter.tsBefore = filter.tsAfter := congrArg TimeWindow.tsAfter heq
  have hbefore : computeTsBefore filter.tsBeforeLimit now' = filter.tsBefore :=
    congrArg TimeWindow.tsBefore heq
  have hmoved : filter.tsBefore < computeTsBefore filter.tsBeforeLimit now' := by
    cases hbound : filter.tsBeforeLimit with
    | none => exact hlate
    | some lim =>
        have hlt : filter.tsAfter < lim := by
          simpa [TimeWindow.isAtLimit, hbound] using hlimit
        rw [computeTsBefore_some]
        exact lt_min hlate (hafter ▸ hlt)
  rw [hbefore] at hmoved
  exact lt_irrefl _ hmoved

theorem not_leftUnchanged_of_advance {e : HttpPollingExtractor} {P : Params} {poll : Poll}
    (h : (loopSystem C).Reachable s) (he : s.process = some e)
    (hphase : e.phase = .polling P poll) (hdone : poll.phase = .done .advance) :
    ¬LeftUnchanged C s e := by
  have hlooping := (looping_invariant C.window).holds ((refines_loop C).reachable h)
  have hlimit : e.filter.isAtLimit = false :=
    (hlooping _ (forgetPolls_process he)).polling (forget_phase hphase)
  obtain ⟨now, hnow, hne⟩ := exists_next_ne hlimit s.now
  have hwaited : Alive C s { s with now } := ⟨.tick now hnow, by simp [he]⟩
  have hmoved : Alive C { s with now } { s with
      now
      process := some { e.returned poll .advance with
        filter := TimeWindowFilter.advance e.filter now, phase := .saving }
      history := .advanced e.filter.span :: s.history } := ⟨.advance he hphase hdone, rfl⟩
  intro hunchanged
  exact hne (hunchanged _ (.tail (.single hwaited) hmoved) _ rfl (Nat.le_refl _)).1

/-! ### Held responses -/

/-- In a poll with a response to hold, the window and the checkpoint are left as
they are exactly when no other response was a 2xx or to be skipped. -/
theorem hold_means_hold {e : HttpPollingExtractor} {P : Params} {poll : Poll}
    {outcome : PollOutcome} (h : (loopSystem C).Reachable s) (he : s.process = some e)
    (hphase : e.phase = .polling P poll) (hdone : poll.phase = .done outcome)
    (hheld : poll.Held P) :
    LeftUnchanged C s e ↔ ∀ entry ∈ poll.log.processed,
      entry.succeeded = false ∧ entry.behavior P ≠ some .skip := by
  have hpoll := ((driven_invariant C).holds h e he).polling P poll hphase
  rw [← hheld.returns_hold_iff hpoll hdone]
  constructor
  · intro hunchanged
    cases outcome with
    | hold => rfl
    | advance => exact absurd hunchanged (not_leftUnchanged_of_advance h he hphase hdone)
    | abort =>
        obtain ⟨entry, hmem, habort⟩ := (returned_of_done hpoll hdone).abort.mp rfl
        exact absurd habort (hheld.unaborted entry hmem)
  · rintro rfl
    exact leftUnchanged_of_hold he hphase hdone

theorem held_of_unavailable {P : Params} {poll : Poll} {a b : String} {first : FetchedResponse}
    (hhold : P.onStatus.resolve 503 = .hold)
    (hprocessed : poll.log.processed = [⟨sampleTask a, some first, false⟩,
      ⟨sampleTask b, some unavailable, false⟩])
    (hfirst : (Processed.mk (sampleTask a) (some first) false).behavior P ≠ some .abort) :
    poll.Held P := by
  have hsecond : (Processed.mk (sampleTask b) (some unavailable) false).behavior P =
      some .hold := by
    simp [Processed.behavior, unavailable, FetchedResponse.isSuccess, hhold]
  constructor
  · exact ⟨_, by rw [hprocessed]; exact .tail _ (.head _), .inl hsecond⟩
  · rw [hprocessed]
    exact List.forall_mem_cons.mpr ⟨hfirst, List.forall_mem_singleton.mpr (by simp [hsecond])⟩

/-- Where both requests of a poll fail, the window is left as it is. -/
theorem hold_means_hold_sample : ∃ poll, poll.Held samplePoll ∧
    ∀ e ∈ (sampleRun poll).process, LeftUnchanged sampleSource (sampleRun poll) e := by
  obtain ⟨poll, hrun, hdone, hprocessed⟩ := sample_failed
  have hheld : poll.Held samplePoll :=
    held_of_unavailable rfl hprocessed (by decide)
  refine ⟨poll, hheld, fun e he => ?_⟩
  obtain rfl := Option.some.inj he
  refine (hold_means_hold (sampleRun_reachable hrun) rfl rfl hdone hheld).mpr ?_
  rw [hprocessed]
  exact List.forall_mem_cons.mpr ⟨by decide, List.forall_mem_singleton.mpr (by decide)⟩

/-- One request of a poll succeeds, the other one answers `503`: the window moves
on, and what the other one missed is not asked for again. -/
theorem hold_is_outvoted :
    ¬∀ (C : SourceConfig) (s : Run HttpPollingExtractor) (e : HttpPollingExtractor) (P : Params)
      (poll : Poll) (outcome : PollOutcome), (loopSystem C).Reachable s → s.process = some e →
        e.phase = .polling P poll → poll.phase = .done outcome → poll.Held P →
          LeftUnchanged C s e := by
  intro hall
  obtain ⟨poll, hrun, hdone, hprocessed⟩ := sample_mixed
  have hheld : poll.Held samplePoll :=
    held_of_unavailable rfl hprocessed (by decide)
  exact not_leftUnchanged_of_advance (sampleRun_reachable hrun) rfl rfl hdone
    (hall _ _ _ _ _ _ (sampleRun_reachable hrun) rfl rfl hdone hheld)

end CdvizCollector.Sources.HttpPolling
